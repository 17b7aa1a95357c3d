import ImageGraph.Proofs.Effect
import ImageGraph.Proofs.Known
import ImageGraph.Proofs.Settling

/-!
The invariant of sessions. A catalog describes the store, and all images that have names are listed
there. Every command keeps this, with a catalog that has only grown, so an image that once was
stored or shown is known ever after.
-/

set_option autoImplicit false

namespace ImageGraph

theorem Request.attained_of_map {Source : Type} {source : Except Error Source}
    {store : Source → Property.Value} {value : Property.Value}
    (attained : ∀ result, (store result).Attained)
    (read : (source.map fun result => Request.store (store result)) = .ok (.store value)) :
    value.Attained := by
  cases source with
  | error error => cases read
  | ok result =>
      cases read
      exact attained result

theorem read_shape_attained {property text : String} {shape : Shape} {value : Property.Value}
    (read : readShape property shape text = .ok (.store value)) : value.Attained := by
  obtain ⟨numbers, _, makes⟩ := bind_eq_ok read
  split at makes
  · rename_i made shaped
    cases makes
    unfold Shape.value? at shaped
    split at shaped <;> cases shaped
    all_goals exact Property.Value.attained_other rfl
  · cases makes

theorem read_request_attained {property : Property} {text : String} {value : Property.Value}
    (read : readRequest property text = .ok (.store value)) : value.Attained := by
  unfold readRequest at read
  simp only at read
  split at read
  case h_1 => exact Request.attained_of_map (fun _ => Property.Value.attained_other rfl) read
  case h_2 => exact Request.attained_of_map Property.Value.attained_truncate read
  case h_3 => exact Request.attained_of_map (fun _ => Property.Value.attained_other rfl) read
  case h_8 =>
    unfold readChoice at read
    simp only at read
    split at read
    · cases read
    · split at read <;> cases read
      exact Property.Value.attained_other rfl
    · cases read
  all_goals exact read_shape_attained read

namespace Session

/-- The catalog describes the store of the session and lists its named images. -/
structure Recorded (catalog : Catalog) (session : Session) : Prop where
  describes : catalog.Describes session.defaults session.store
  listed : ∀ name image, session.names.get? name = some image →
    ∃ address : Address, catalog[address]? = some image
  identifiers : ∀ name image, session.names.get? name = some image → isIdentifier name = true

variable {catalog : Catalog} {session : Session}

theorem recorded_start (defaults : Defaults) : (start defaults).Recorded [] where
  describes := Catalog.describes_empty defaults
  listed := by simp [start, Registry.get?]
  identifiers := by simp [start, Registry.get?]

theorem Recorded.known (recorded : session.Recorded catalog) :
    session.names.Known session.defaults catalog := by
  intro name image bound
  obtain ⟨address, listed⟩ := recorded.listed name image bound
  exact .stored listed (recorded.describes.home address image listed)

theorem Recorded.address_of_name (recorded : session.Recorded catalog) {name : String}
    {image : Image} (bound : session.names.get? name = some image) :
    ∃ address : Address, image.home = .stored address ∧ catalog[address]? = some image := by
  obtain ⟨address, listed⟩ := recorded.listed name image bound
  exact ⟨address, recorded.describes.home address image listed, listed⟩

/-- A known image is registered by storing its loose parts. The image under the name is the one that
was to be registered. -/
theorem Recorded.register (recorded : session.Recorded catalog) {name : String} {image : Image}
    (identifier : isIdentifier name = true) (known : image.Known session.defaults catalog) :
    ∃ more bound, (session.register name image).Recorded (catalog ++ more) ∧
      (session.register name image).names.get? name = some bound ∧
      bound.mapHomes
        (Home.loosen session.store.size (session.register name image).store) = image ∧
      (Image.newAddresses session.store.size [bound]).Nodup := by
  have above : catalog.length ≤ session.store.size := Nat.le_of_eq recorded.describes.length
  obtain ⟨more, settles⟩ :=
    Image.known_settles known above catalog session.store (List.prefix_refl catalog)
      (Nat.le_of_eq recorded.describes.length.symm) recorded.describes
  refine ⟨more, (image.settle session.store).1, ⟨settles.describes, ?_, ?_⟩, ?_, ?_,
    settles.distinct⟩
  · intro other present bound
    rw [get_register] at bound
    split at bound
    · cases bound
      exact settles.listed _ List.mem_cons_self
    · obtain ⟨address, listed⟩ := recorded.listed other present bound
      exact ⟨address, Catalog.listed_append more listed⟩
  · intro other present bound
    rw [get_register] at bound
    split at bound
    · rename_i same
      exact same ▸ identifier
    · exact recorded.identifiers other present bound
  · rw [get_register, if_pos rfl]
  · exact (List.cons.inj settles.restored).1

theorem replace_settings_stored (session : Session) {image : Image} {address : Address}
    (settings : Settings) (home : image.home = .stored address) :
    session.replaceSettings image settings =
      { session with store := session.store.set! address settings } := by
  simp only [replaceSettings, Image.address?, home]

theorem Recorded.replace_settings (recorded : session.Recorded catalog) {name : String}
    {image : Image} {settings : Settings} (bound : session.names.get? name = some image)
    (fit : Settings.Fit image.kind.properties settings) (attained : Settings.Attained settings) :
    (session.replaceSettings image settings).Recorded catalog := by
  obtain ⟨address, home, listed⟩ := recorded.address_of_name bound
  rw [session.replace_settings_stored settings home]
  exact ⟨recorded.describes.set listed fit attained, recorded.listed, recorded.identifiers⟩

theorem Recorded.well_made (recorded : session.Recorded catalog) {name : String} {image : Image}
    (bound : session.names.get? name = some image) :
    image.WellMade session.defaults (image.settings session.store) := by
  obtain ⟨address, home, listed⟩ := recorded.address_of_name bound
  have current : image.settings session.store = session.store.getD address [] := by
    simp only [Image.settings, home]
  rw [current]
  exact recorded.describes.wellMade address image listed

theorem Recorded.stores_fit (recorded : session.Recorded catalog)
    {path text name property : String} {image : Image} {declared : Property}
    {value : Property.Value}
    (stores : session.Stores path text name property image declared value) :
    Settings.Fit image.kind.properties (image.settings session.store) ∧
      Settings.Fit image.kind.properties
        (Settings.put image.kind.properties (image.settings session.store) property value) := by
  have fit := (recorded.well_made stores.bound).fit
  refine ⟨fit, Settings.fit_put fit ?_⟩
  intro other isDeclared
  obtain rfl := Option.some.inj (stores.is_declared.symm.trans isDeclared)
  exact stores.fits

theorem Recorded.stores_attained (recorded : session.Recorded catalog)
    {path text name property : String} {image : Image} {declared : Property}
    {value : Property.Value}
    (stores : session.Stores path text name property image declared value) :
    Settings.Attained
      (Settings.put image.kind.properties (image.settings session.store) property value) :=
  Settings.attained_put (recorded.well_made stores.bound).attained
    (read_request_attained stores.text_read)

theorem step_defaults (session : Session) (command : Command) :
    (session.step command).2.defaults = session.defaults := by
  have effect := session.step_effect command
  generalize (session.step command).1 = result, (session.step command).2 = after at effect ⊢
  cases effect with
  | changed sides stores =>
      unfold replaceSettings
      split <;> rfl
  | _ => rfl

theorem Recorded.step (recorded : session.Recorded catalog) (command : Command) :
    ∃ more, (session.step command).2.Recorded (catalog ++ more) ∧
      ∀ image, (session.step command).1 = .ok (.render image) →
        image.Known session.defaults (catalog ++ more) := by
  have effect := session.step_effect command
  generalize (session.step command).1 = result, (session.step command).2 = after at effect ⊢
  cases effect with
  | failed error => exact ⟨[], by simpa using recorded, by simp⟩
  | nothing => exact ⟨[], by simpa using recorded, by simp⟩
  | listed entries => exact ⟨[], by simpa using recorded, by simp⟩
  | shown compiled =>
      refine ⟨[], by simpa using recorded, ?_⟩
      intro image renders
      cases renders
      simpa using compile_known recorded.known compiled
  | named sides identifier compiled =>
      obtain ⟨more, _, recordedAfter, _⟩ :=
        recorded.register identifier (compile_known recorded.known compiled)
      exact ⟨more, recordedAfter, by simp⟩
  | changed sides stores =>
      have recordedAfter :=
        recorded.replace_settings stores.bound (recorded.stores_fit stores).2
          (recorded.stores_attained stores)
      exact ⟨[], by simpa using recordedAfter, by simp⟩

def shownBy (session : Session) (command : Command) : List Image :=
  match (session.step command).1 with
  | .ok (.render image) => [image]
  | _ => []

def shown (session : Session) : List Command → List Image
  | [] => []
  | command :: commands => session.shownBy command ++ shown (session.step command).2 commands

theorem run_defaults (session : Session) (commands : List Command) :
    (session.run commands).defaults = session.defaults := by
  induction commands generalizing session with
  | nil => rfl
  | cons command commands induction =>
      exact (induction (session.step command).2).trans (session.step_defaults command)

theorem run_append (session : Session) (earlier later : List Command) :
    session.run (earlier ++ later) = (session.run earlier).run later :=
  List.foldl_append

/-- A run keeps the record, and all that it shows is known in the end. -/
theorem Recorded.run (recorded : session.Recorded catalog) (commands : List Command) :
    ∃ more, (session.run commands).Recorded (catalog ++ more) ∧
      ∀ image ∈ session.shown commands, image.Known session.defaults (catalog ++ more) := by
  induction commands generalizing session catalog with
  | nil => exact ⟨[], by simpa [Session.run] using recorded, by simp [shown]⟩
  | cons command commands induction =>
      obtain ⟨first, recordedFirst, firstKnown⟩ := recorded.step command
      obtain ⟨rest, recordedRest, restKnown⟩ := induction recordedFirst
      rw [List.append_assoc] at recordedRest
      refine ⟨first ++ rest, recordedRest, ?_⟩
      intro image isShown
      rw [← List.append_assoc]
      rcases List.mem_append.1 isShown with now | later
      · unfold shownBy at now
        split at now
        · rename_i picture renders
          obtain rfl := List.mem_singleton.1 now
          exact Image.known_append rest (firstKnown image renders)
        · cases now
      · rw [← session.step_defaults command]
        exact restKnown image later

end Session

end ImageGraph
