import ImageGraph.Proofs.Wiring

/-!
Frames: what a command leaves as it was. A command that fails changes nothing at all. One that
succeeds changes what its outcome names: the image of one name, or one value of one image. That value
is seen wherever the image occurs, under all its names and in all images that are made from it.
-/

set_option autoImplicit false

namespace ImageGraph

namespace Image

variable {image : Image} {store : Store} {settings : Settings} {address : Address}

theorem settings_set (stored : image.home = .stored address) (bound : address < store.size) :
    image.settings (store.set! address settings) = settings := by
  simp [Image.settings, stored, Array.getD_eq_getD_getElem?, bound]

theorem settings_set_other (different : image.address? ≠ some address) :
    image.settings (store.set! address settings) = image.settings store := by
  cases home : image.home with
  | loose own => simp only [Image.settings, home]
  | stored other =>
      have apart : address ≠ other := by
        intro same
        rw [← same] at home
        exact different ((image.address_eq_some address).2 home)
      simp [Image.settings, home, Array.getD_eq_getD_getElem?, apart]

/-- The settings of the image and of all that it is made from are in the store. -/
def IsStored (store : Store) (image : Image) : Prop :=
  ∀ part ∈ image.parts, ∃ address, part.address? = some address ∧ address < store.size

theorem settings_append (added : Store) (present : image.Exists store) :
    image.settings (store ++ added) = image.settings store := by
  cases home : image.home with
  | loose own => simp only [Image.settings, home]
  | stored other =>
      have bound := present other ((image.address_eq_some other).2 home)
      simp [Image.settings, home, Array.getD_eq_getD_getElem?, Array.getElem?_append_left bound]

end Image

namespace Session

/-- A command that fails leaves the session as it was, whatever the error is. -/
theorem failed_step_changes_nothing (session : Session) (command : Command) (error : Error)
    (failed : (session.step command).1 = .error error) : (session.step command).2 = session := by
  have effect := session.step_effect command
  generalize (session.step command).1 = result, (session.step command).2 = after at effect failed ⊢
  subst failed
  cases effect with
  | failed error => rfl

theorem failed_blend_changes_nothing :
    (((start .standard).run [.line "x = noise(64)"]).step (.line "x = blend(blur(x), y)")).1 =
      .error (.imageNotFound "y") ∧
    (((start .standard).run [.line "x = noise(64)"]).step (.line "x = blend(blur(x), y)")).2 =
      (start .standard).run [.line "x = noise(64)"] := by
  have failed :
      (((start .standard).run [.line "x = noise(64)"]).step (.line "x = blend(blur(x), y)")).1 =
        .error (.imageNotFound "y") := by
    decide +kernel
  exact ⟨failed, failed_step_changes_nothing _ _ _ failed⟩

/-- An image is registered: the text is compiled with the names as they were, its new parts go behind
what is stored already, each to an address of its own, and one name stands for it. No image that was
there before is altered. -/
structure Registers (before : Session) (nodes : Image → Prop) (name text : String)
    (after : Session) : Prop where
  bound : ∃ described image, before.compile text = .ok described ∧
    after.names.get? name = some image ∧ image.IsStored after.store ∧
    image.mapHomes (Home.loosen before.store.size after.store) = described ∧
    (Image.newAddresses before.store.size [image]).Nodup
  others : ∀ other, other ≠ name → after.names.get? other = before.names.get? other
  stored : ∃ added, after.store = before.store ++ added
  unaltered : ∀ node, nodes node → ∀ property,
    node.value? after.store property = node.value? before.store property
  configured : after.defaults = before.defaults

/-- One value of one image is replaced. It is seen at all nodes that are this image. -/
structure Replaces (before : Session) (nodes : Image → Prop) (image : Image) (property : String)
    (value : Property.Value) (after : Session) : Prop where
  names : after.names = before.names
  configured : after.defaults = before.defaults
  stored : ∃ address settings index, image.address? = some address ∧
    before.store[address]? = some settings ∧ index < settings.length ∧
    (image.kind.properties[index]?).map Property.name = some property ∧
    after.store = before.store.set! address (List.set settings index value)
  seen : ∀ node, nodes node → ∀ other, node.value? after.store other =
    if node.address? = image.address? ∧ other = property then some value
    else node.value? before.store other

/-- What an outcome says that a command has done, in a session where some nodes can be reached. -/
def Accords (before : Session) (nodes : Image → Prop) (command : Command) (after : Session) :
    Outcome → Prop
  | .nothing | .listing _ | .render _ => after = before
  | .registered name =>
      ∃ text, command.sides? = some (name, text) ∧ before.Registers nodes name text after
  | .propertySet name property =>
      ∃ path text image declared value, command.sides? = some (path, text) ∧
        before.Stores path text name property image declared value ∧
        before.Replaces nodes image property value after

theorem Recorded.is_stored {catalog : Catalog} {session : Session} {name : String} {image : Image}
    (recorded : session.Recorded catalog) (bound : session.names.get? name = some image) :
    image.IsStored session.store := by
  intro part within
  obtain ⟨_, _, listed⟩ := recorded.address_of_name bound
  obtain ⟨below, _, partListed⟩ := recorded.describes.parts_listed listed within
  exact ⟨below, (part.address_eq_some below).2 (recorded.describes.home below part partListed),
    recorded.describes.address_lt partListed⟩

theorem Recorded.registers {catalog : Catalog} {session : Session} {name text : String}
    {image : Image} {nodes : Image → Prop} (recorded : session.Recorded catalog)
    (known : ∀ node, nodes node → node.Known session.defaults catalog)
    (identifier : isIdentifier name = true) (compiled : session.compile text = .ok image) :
    session.Registers nodes name text (session.register name image) := by
  obtain ⟨_, bound, recordedAfter, isBound, restored, distinct⟩ :=
    recorded.register identifier (compile_known recorded.known compiled)
  constructor
  · exact ⟨image, bound, compiled, isBound, recordedAfter.is_stored isBound, restored, distinct⟩
  · intro other different
    exact (session.get_register name other image).trans (if_neg different)
  · exact image.store_settle session.store
  · intro node reached property
    obtain ⟨added, adds⟩ := image.store_settle session.store
    have kept := Image.settings_append added ((known node reached).exists_in recorded.describes)
    rw [← adds] at kept
    simp only [Image.value?]
    rw [← kept]
    rfl
  · rfl

theorem Recorded.replaces {catalog : Catalog} {session : Session}
    {path text name property : String} {image : Image} {declared : Property}
    {value : Property.Value} {nodes : Image → Prop} (recorded : session.Recorded catalog)
    (known : ∀ node, nodes node → node.Known session.defaults catalog)
    (stores : session.Stores path text name property image declared value) :
    session.Replaces nodes image property value
      (session.replaceSettings image
        (Settings.put image.kind.properties (image.settings session.store) property value)) := by
  obtain ⟨address, home, listed⟩ := recorded.address_of_name stores.bound
  have isAddress := (image.address_eq_some address).2 home
  have within := recorded.describes.address_lt listed
  have fit := (recorded.stores_fit stores).1
  obtain ⟨index, isDeclared, isNamed, bounded, putIsSet⟩ :=
    Settings.put_eq_set value fit stores.is_declared
  rw [session.replace_settings_stored _ home]
  refine ⟨rfl, rfl, ?_, ?_⟩
  · refine ⟨address, image.settings session.store, index, isAddress, ?_, bounded, ?_, ?_⟩
    · simp [Image.settings, home, within]
    · rw [isDeclared, Option.map_some, isNamed]
    · rw [putIsSet]
  · intro node reached other
    -- A node with the address is the image itself, so the property is one of its own.
    by_cases same : node.address? = some address
    · obtain rfl := Option.some.inj
        (((known node reached).listed recorded.describes same).symm.trans listed)
      simp only [Image.value?, Image.settings_set home within, true_and]
      split
      · rename_i isProperty
        rw [isProperty]
        exact Settings.get_put_of_fit value fit stores.is_declared
      · rename_i different
        exact Settings.get_put_other _ _ value different
    · rw [isAddress, if_neg fun both => same both.1]
      simp only [Image.value?, Image.settings_set_other same]

/-- A command that succeeds has the effect that its outcome names, and no other. -/
theorem successful_step_accords (defaults : Defaults) (commands : List Command)
    (command : Command) (outcome : Outcome)
    (succeeded : (((start defaults).run commands).step command).1 = .ok outcome) :
    ((start defaults).run commands).Accords (Reached defaults commands) command
      (((start defaults).run commands).step command).2 outcome := by
  obtain ⟨catalog, recorded, _, reachedKnown⟩ := run_recorded defaults [] commands
  rw [List.nil_append] at recorded reachedKnown
  have known : ∀ node, Reached defaults commands node →
      node.Known ((start defaults).run commands).defaults catalog := by
    rw [run_defaults]
    exact reachedKnown
  generalize (start defaults).run commands = session at *
  have effect := session.step_effect command
  generalize (session.step command).1 = result, (session.step command).2 = after
    at effect succeeded ⊢
  subst succeeded
  cases effect with
  | nothing => rfl
  | listed entries => rfl
  | shown compiled => rfl
  | named sides identifier compiled =>
      exact ⟨_, sides, recorded.registers known identifier compiled⟩
  | changed sides stores =>
      exact ⟨_, _, _, _, _, sides, stores, recorded.replaces known stores⟩

/-- A name may be given to an image that is made from the one which had it before. -/
theorem rebinding_accords :
    (((start .standard).run [.line "x = noise(64)"]).step (.line "x = blend(x, x)")).1 =
      .ok (.registered "x") ∧
    ((start .standard).run [.line "x = noise(64)"]).Accords
      (Reached .standard [.line "x = noise(64)"]) (.line "x = blend(x, x)")
      (((start .standard).run [.line "x = noise(64)"]).step (.line "x = blend(x, x)")).2
      (.registered "x") := by
  have succeeded :
      (((start .standard).run [.line "x = noise(64)"]).step (.line "x = blend(x, x)")).1 =
        .ok (.registered "x") := by
    decide +kernel
  exact ⟨succeeded, successful_step_accords _ _ _ _ succeeded⟩

example :
    let before := (start .standard).run [.line "x = noise(64)", .line "y = x"]
    let after := (before.step (.line "x.seed = 5")).2
    (after.names.get? "y").bind (·.value? after.store "seed") = some (.int 5) := by
  decide +kernel

end Session

end ImageGraph
