import ImageGraph.Proofs.Planning
import ImageGraph.Proofs.Relocating
import ImageGraph.Proofs.Wiring

/-!
Independent assignments. Neither of two assignments notices the other if it mentions no name that the
other gives away, so both come to the same in either order. Their changes commute if they are not about
the same name or the same property of one image: values are put to different places, and new images take
each other's places in the store, which is a renaming of addresses that nothing else is touched by.
-/

set_option autoImplicit false

namespace ImageGraph

namespace Settings

theorem put_comm (properties : List Property) (settings : Settings) {name other : String}
    (value another : Property.Value) (different : name ≠ other) :
    put properties (put properties settings name value) other another =
      put properties (put properties settings other another) name value := by
  induction properties generalizing settings with
  | nil => simp [put]
  | cons property properties induction =>
      cases settings with
      | nil => simp [put]
      | cons old values =>
          by_cases first : property.name = name
          · simp [put, first, different]
          · by_cases second : property.name = other
            · simp [put, second, Ne.symm different]
            · simp [put, first, second, induction]

end Settings

/-- From a limit on there are two blocks of numbers, which change places. -/
def exchange (limit left right number : Nat) : Nat :=
  if number < limit then number
  else if number < limit + left then number + right
  else if number < limit + left + right then number - left
  else number

section Blocks

variable {limit left right number : Nat}

theorem exchange_back (limit left right number : Nat) :
    exchange limit right left (exchange limit left right number) = number := by
  unfold exchange
  split_ifs <;> omega

theorem exchange_below (before : number < limit) : exchange limit left right number = number :=
  if_pos before

theorem exchange_left (within : number < left) :
    exchange limit left right (limit + number) = limit + right + number := by
  unfold exchange
  split_ifs <;> omega

theorem exchange_right (within : number < right) :
    exchange limit left right (limit + left + number) = limit + number := by
  unfold exchange
  split_ifs <;> omega

theorem exchange_above (behind : limit + left + right ≤ number) :
    exchange limit left right number = number := by
  unfold exchange
  split_ifs <;> omega

def swapBlocks (limit left right : Nat) : Equiv.Perm Address where
  toFun := exchange limit left right
  invFun := exchange limit right left
  left_inv := exchange_back limit left right
  right_inv := exchange_back limit right left

theorem behind_store (store added : Store) (offset : Nat) :
    (store ++ added)[store.size + offset]? = added[offset]? := by
  rw [Array.getElem?_append_right (Nat.le_add_right _ _), Nat.add_sub_cancel_left]

theorem swapped_store (store first second : Store) (address : Address) :
    (store ++ second ++ first)[swapBlocks store.size first.size second.size address]? =
      (store ++ first ++ second)[address]? := by
  change (store ++ second ++ first)[exchange store.size first.size second.size address]? = _
  have firstEnds : (store ++ first).size = store.size + first.size := Array.size_append
  have secondEnds : (store ++ second).size = store.size + second.size := Array.size_append
  rcases Nat.lt_or_ge address store.size with before | behind
  · rw [exchange_below before, Array.append_assoc, Array.append_assoc,
      Array.getElem?_append_left before, Array.getElem?_append_left before]
  obtain ⟨offset, rfl⟩ := Nat.exists_eq_add_of_le behind
  rcases Nat.lt_or_ge offset first.size with inFirst | afterFirst
  · rw [exchange_left inFirst, ← secondEnds, behind_store, Array.append_assoc, behind_store,
      Array.getElem?_append_left inFirst]
  obtain ⟨offset, rfl⟩ := Nat.exists_eq_add_of_le afterFirst
  rcases Nat.lt_or_ge offset second.size with inSecond | afterSecond
  · rw [← Nat.add_assoc, exchange_right inSecond, ← firstEnds, behind_store, Array.append_assoc,
      behind_store, Array.getElem?_append_left inSecond]
  · have all : store.size + first.size + second.size ≤ store.size + (first.size + offset) := by
      omega
    rw [exchange_above all, Array.getElem?_eq_none, Array.getElem?_eq_none]
    · rw [Array.size_append, firstEnds]
      exact all
    · rw [Array.size_append, secondEnds]
      omega

end Blocks

namespace Session

/-- The sessions are alike but for the addresses from the limit on. -/
def Isomorphic (limit : Address) (first second : Session) : Prop :=
  second.defaults = first.defaults ∧ ∃ rename : Equiv.Perm Address,
    (∀ address < limit, rename address = address) ∧
    (∀ address, second.store[rename address]? = first.store[address]?) ∧
    ∀ name, second.names.get? name =
      (first.names.get? name).map (Image.mapHomes (Home.rename rename))

theorem Isomorphic.same (limit : Address) (session : Session) :
    session.Isomorphic limit session := by
  refine ⟨rfl, Equiv.refl Address, fun _ _ => rfl, fun _ => rfl, ?_⟩
  intro name
  have unchanged (image : Image) : image.mapHomes (Home.rename (Equiv.refl Address)) = image :=
    Image.Unmoved.renamed fun _ _ _ _ => rfl
  rw [funext unchanged, Option.map_id']

variable {session : Session} {catalog : Catalog}

theorem make_put (session : Session) {image : Image} {address : Address} (property : String)
    (value : Property.Value) (home : image.home = .stored address) :
    session.make (.put image property value) =
      { session with
        store := session.store.set! address
          (Settings.put image.kind.properties (session.store.getD address []) property value) } := by
  rw [make, replace_settings_stored _ _ home]
  simp only [Image.settings, home]

theorem set_same (store : Store) (address : Address) (settings changed : Settings) :
    (store.set! address settings).set! address changed = store.set! address changed := by
  simp

theorem get_set_other (store : Store) {address other : Address} (settings : Settings)
    (different : address ≠ other) :
    (store.set! address settings).getD other [] = store.getD other [] := by
  simp [Array.getD_eq_getD_getElem?, different]

theorem get_set_same (store : Store) {address : Address} (settings : Settings)
    (within : address < store.size) : (store.set! address settings).getD address [] = settings := by
  simp [Array.getD_eq_getD_getElem?, within]

theorem puts_commute {image picture : Image} {own other : Address} {property another : String}
    (value instead : Property.Value) (home : image.home = .stored own)
    (otherHome : picture.home = .stored other) (within : own < session.store.size)
    (apart : own = other → image = picture ∧ property ≠ another) :
    (session.make (.put image property value)).make (.put picture another instead) =
      (session.make (.put picture another instead)).make (.put image property value) := by
  rw [make_put _ _ _ home, make_put _ _ _ otherHome, make_put _ _ _ otherHome, make_put _ _ _ home]
  by_cases same : own = other
  · obtain ⟨rfl, different⟩ := apart same
    subst same
    simp only [set_same, get_set_same _ _ within, Settings.put_comm _ _ value instead different]
  · simp only [get_set_other _ _ same, get_set_other _ _ (Ne.symm same)]
    have commutes (settings changed : Settings) :
        (session.store.set! own settings).set! other changed =
          (session.store.set! other changed).set! own settings := by
      simp only [Array.set!_eq_setIfInBounds]
      exact Array.setIfInBounds_comm _ _ same
    rw [commutes]

theorem set_append (store added : Store) {address : Address} (settings : Settings)
    (within : address < store.size) :
    (store ++ added).set! address settings = store.set! address settings ++ added := by
  simp only [Array.set!_eq_setIfInBounds]
  exact Array.setIfInBounds_append_left within

theorem get_append (store added : Store) {address : Address} (within : address < store.size) :
    (store ++ added).getD address [] = store.getD address [] := by
  simp [Array.getD_eq_getD_getElem?, Array.getElem?_append_left within]

theorem put_beside_register {image picture : Image} {address : Address} (name property : String)
    (value : Property.Value) (home : picture.home = .stored address)
    (within : address < session.store.size) :
    (session.make (.register name image)).make (.put picture property value) =
      (session.make (.put picture property value)).make (.register name image) := by
  rw [make_put _ _ _ home, make_put _ _ _ home]
  generalize changes : Settings.put picture.kind.properties
    (session.store.getD address []) property value = changed
  have relocates : image.Relocates id session.store (session.store.set! address changed) := by
    refine Image.relocates (fun _ _ _ _ => rfl) fun offset _ => ?_
    simp
  obtain ⟨added, adds, settles⟩ := relocates
  have same : (image.settle session.store).1.mapHomes (Home.rename id) =
      (image.settle session.store).1 :=
    Image.Unmoved.renamed fun _ _ _ _ => rfl
  rw [same] at settles
  simp only [make, register, adds, settles, get_append _ _ within, changes, set_append _ _ _ within]

/-- Two images that get names exchange their places in the store if they are registered in the other
order. All images are made from what has been stored before. -/
theorem registers_commute {image picture : Image} {name other : String} (different : name ≠ other)
    (imageBelow : ∀ part ∈ image.parts, ∀ address, part.home = .stored address →
      address < session.store.size)
    (pictureBelow : ∀ part ∈ picture.parts, ∀ address, part.home = .stored address →
      address < session.store.size)
    (namesBelow : ∀ name image, session.names.get? name = some image → ∀ part ∈ image.parts,
      ∀ address, part.home = .stored address → address < session.store.size) :
    Isomorphic session.store.size
      ((session.make (.register name image)).make (.register other picture))
      ((session.make (.register other picture)).make (.register name image)) := by
  obtain ⟨first, firstAdds⟩ := image.store_settle session.store
  obtain ⟨second, secondAdds⟩ := picture.store_settle (session.store ++ first)
  let swap := swapBlocks session.store.size first.size second.size
  have unmoved {image : Image} (below : ∀ part ∈ image.parts, ∀ address,
      part.home = .stored address → address < session.store.size) : image.Unmoved swap := by
    intro part within address home
    exact exchange_below (below part within address home)
  have pictureMoves : picture.settle session.store =
      ((picture.settle (session.store ++ first)).1.mapHomes (Home.rename swap),
        session.store ++ second) := by
    apply Image.settle_elsewhere (unmoved pictureBelow) secondAdds
    intro offset within
    simp only [Array.size_append] at within ⊢
    exact exchange_right (Nat.lt_of_add_lt_add_left within)
  have imageMoves : image.settle (session.store ++ second) =
      ((image.settle session.store).1.mapHomes (Home.rename swap),
        session.store ++ second ++ first) := by
    apply Image.settle_elsewhere (unmoved imageBelow) firstAdds
    intro offset within
    simp only [Array.size_append] at within ⊢
    exact exchange_left (Nat.lt_of_add_lt_add_left within)
  refine ⟨rfl, swap, fun _ => exchange_below, ?_, ?_⟩
  · simp only [make, register, firstAdds, secondAdds, pictureMoves, imageMoves]
    exact swapped_store session.store first second
  · intro asked
    simp only [make, register, firstAdds, secondAdds, pictureMoves, imageMoves, Registry.get_insert]
    by_cases isName : asked = name
    · subst isName
      rw [if_pos rfl, if_neg different, if_pos rfl, Option.map_some]
    · rw [if_neg isName, if_neg isName]
      split
      · rw [Option.map_some]
      · cases bound : session.names.get? asked with
        | none => rfl
        | some old => rw [Option.map_some, (unmoved (namesBelow asked old bound)).renamed]

end Session

/-- The change is to an image that the catalog knows. -/
def Change.Known (defaults : Defaults) (catalog : Catalog) : Change → Prop
  | register _ image => image.Known defaults catalog
  | put image _ _ => ∃ address, image.home = .stored address ∧ catalog[address]? = some image

/-- The changes are not about the same name, nor about the same property of one image. -/
def Change.Apart : Change → Change → Prop
  | register name _, register other _ => name ≠ other
  | put image property _, put picture another _ =>
      image.address? = picture.address? → property ≠ another
  | register _ _, put _ _ _ | put _ _ _, register _ _ => True

namespace Session

variable {session : Session} {catalog : Catalog}

theorem changes_commute (recorded : session.Recorded catalog) {change other : Change}
    (known : change.Known session.defaults catalog) (otherKnown : other.Known session.defaults catalog)
    (apart : change.Apart other) :
    Isomorphic session.store.size ((session.make change).make other)
      ((session.make other).make change) := by
  have describes := recorded.describes
  have below {image : Image} (known : image.Known session.defaults catalog) :
      ∀ part ∈ image.parts, ∀ address, part.home = .stored address →
        address < session.store.size := by
    rw [← describes.length]
    exact known.addresses_lt (List.prefix_refl catalog) describes
  cases change with
  | register name image =>
      cases other with
      | register other picture =>
          exact registers_commute apart (below known) (below otherKnown)
            fun name image bound => below (recorded.known name image bound)
      | put picture property value =>
          rcases otherKnown with ⟨address, home, listed⟩
          rw [put_beside_register name property value home (describes.address_lt listed)]
          exact .same _ _
  | put image property value =>
      rcases known with ⟨own, home, listed⟩
      cases other with
      | register name picture =>
          rw [put_beside_register name property value home (describes.address_lt listed)]
          exact .same _ _
      | put picture another instead =>
          rcases otherKnown with ⟨address, otherHome, otherListed⟩
          rw [puts_commute value instead home otherHome (describes.address_lt listed)]
          · exact .same _ _
          · rintro rfl
            refine ⟨Option.some.inj (listed.symm.trans otherListed), apart ?_⟩
            rw [(image.address_eq_some own).2 home, (picture.address_eq_some own).2 otherHome]

end Session

/-- The names that an assignment mentions in its path, or as identifiers of its expression. -/
def Command.mentions (command : Command) : List String :=
  match command.sides? with
  | some (path, text) => mentionedNames path text
  | none => []

/-- Two commands are independent in a session, if there they do not register the same name, do not set
the same property of one image, and neither mentions a name that the other one registers. -/
structure Session.Independent (session : Session) (first second : Command) : Prop where
  names : ∀ name, (session.step first).1 = .ok (.registered name) →
    (session.step second).1 ≠ .ok (.registered name)
  properties : ∀ name other property image picture,
    (session.step first).1 = .ok (.propertySet name property) →
    (session.step second).1 = .ok (.propertySet other property) →
    session.names.get? name = some image → session.names.get? other = some picture →
    image.address? ≠ picture.address?
  firstUnmentioned : ∀ name, (session.step first).1 = .ok (.registered name) →
    name ∉ second.mentions
  secondUnmentioned : ∀ name, (session.step second).1 = .ok (.registered name) →
    name ∉ first.mentions

namespace Session

variable {session : Session} {catalog : Catalog}

theorem step_keeps_name {command : Command} {name : String}
    (unregistered : (session.step command).1 ≠ .ok (.registered name)) :
    (session.step command).2.names.get? name = session.names.get? name := by
  have effect := session.step_effect command
  generalize (session.step command).1 = result, (session.step command).2 = after
    at effect unregistered ⊢
  cases effect with
  | @named registered _ image sides identifier compiled =>
      have different : name ≠ registered := by
        rintro rfl
        exact unregistered rfl
      exact (session.get_register registered name image).trans (if_neg different)
  | changed sides stores =>
      unfold replaceSettings
      split <;> rfl
  | _ => rfl

theorem step_after {earlier command : Command} {path text : String}
    (sides : command.sides? = some (path, text))
    (unmentioned : ∀ name, (session.step earlier).1 = .ok (.registered name) →
      name ∉ command.mentions) :
    (session.step earlier).2.step command =
      (session.step earlier).2.carry (plan session.names session.defaults path text) := by
  rw [step_of_sides sides, step_defaults]
  congr 1
  simp only [Command.mentions, sides] at unmentioned
  apply plan_agrees
  intro name mentioned
  apply step_keeps_name
  intro registers
  exact unmentioned name registers mentioned

theorem planned_known (recorded : session.Recorded catalog) {path text : String} {outcome : Outcome}
    {change : Change}
    (planned : plan session.names session.defaults path text = .ok (outcome, some change)) :
    change.Known session.defaults catalog := by
  rcases plan_change planned with
    ⟨name, image, compiled, -, rfl⟩ | ⟨name, property, image, value, bound, -, rfl⟩
  · exact compile_known recorded.known compiled
  · exact recorded.address_of_name bound

theorem planned_apart {first second : Command} {path text otherPath otherText : String}
    {outcome another : Outcome} {change other : Change} (independent : session.Independent first second)
    (sides : first.sides? = some (path, text)) (otherSides : second.sides? = some (otherPath, otherText))
    (planned : plan session.names session.defaults path text = .ok (outcome, some change))
    (otherPlanned :
      plan session.names session.defaults otherPath otherText = .ok (another, some other)) :
    change.Apart other := by
  have result : (session.step first).1 = .ok outcome := by
    rw [step_of_sides sides, planned]
    rfl
  have otherResult : (session.step second).1 = .ok another := by
    rw [step_of_sides otherSides, otherPlanned]
    rfl
  rcases plan_change planned with
    ⟨name, image, -, rfl, rfl⟩ | ⟨name, property, image, value, bound, rfl, rfl⟩
  · rcases plan_change otherPlanned with
      ⟨second, picture, -, rfl, rfl⟩ | ⟨_, _, _, _, -, rfl, rfl⟩
    · rintro rfl
      exact independent.names name result otherResult
    · exact trivial
  · rcases plan_change otherPlanned with
      ⟨_, _, -, rfl, rfl⟩ | ⟨second, again, picture, instead, otherBound, rfl, rfl⟩
    · exact trivial
    · intro sameImage sameProperty
      subst sameProperty
      exact independent.properties name second property image picture result otherResult bound
        otherBound sameImage

theorem change_eq_some {planned : Plan} {change : Change} (changes : planned.change? = some change) :
    ∃ outcome, planned = .ok (outcome, some change) := by
  rcases planned with error | ⟨outcome, made⟩
  · cases changes
  · have same : made = some change := changes
    exact ⟨outcome, by rw [same]⟩

/-- Independent assignments come to the same in either order, each with its own result, and leave
sessions behind that differ at most in the addresses of what is new. -/
theorem independent_assignments_commute (defaults : Defaults) (commands : List Command)
    {first second : Command} (firstAssigns : first.sides?.isSome = true)
    (secondAssigns : second.sides?.isSome = true)
    (independent : ((start defaults).run commands).Independent first second) :
    let session := (start defaults).run commands
    ((session.step second).2.step first).1 = (session.step first).1 ∧
      ((session.step first).2.step second).1 = (session.step second).1 ∧
      Isomorphic session.store.size ((session.step first).2.step second).2
        ((session.step second).2.step first).2 := by
  intro session
  obtain ⟨catalog, recorded, -⟩ := run_recorded defaults [] commands
  rw [List.nil_append] at recorded
  obtain ⟨⟨path, text⟩, sides⟩ := Option.isSome_iff_exists.1 firstAssigns
  obtain ⟨⟨otherPath, otherText⟩, otherSides⟩ := Option.isSome_iff_exists.1 secondAssigns
  rw [step_after sides independent.secondUnmentioned,
    step_after otherSides independent.firstUnmentioned, step_of_sides sides, step_of_sides otherSides]
  refine ⟨rfl, rfl, ?_⟩
  generalize planned : plan session.names session.defaults path text = own
  generalize otherPlanned : plan session.names session.defaults otherPath otherText = another
  simp only [carry]
  cases changes : own.change? with
  | none => exact .same _ _
  | some change =>
      cases otherChanges : another.change? with
      | none => exact .same _ _
      | some other =>
          obtain ⟨outcome, rfl⟩ := change_eq_some changes
          obtain ⟨otherOutcome, rfl⟩ := change_eq_some otherChanges
          exact changes_commute recorded (planned_known recorded planned)
            (planned_known recorded otherPlanned)
            (planned_apart independent sides otherSides planned otherPlanned)

/-- The order in which a blur and a sum are registered decides where they are stored. -/
theorem blur_commutes_with_sum :
    let session := (start .standard).run [.line "x = noise(64)"]
    let blur : Command := .line "y = blur(x)"
    let sum : Command := .line "z = x + 0.5"
    blur.sides?.isSome = true ∧ sum.sides?.isSome = true ∧ session.Independent blur sum ∧
      ((session.step blur).2.step sum).1 = .ok (.registered "z") ∧
      ((session.step sum).2.step blur).1 = .ok (.registered "y") ∧
      Isomorphic 1 ((session.step blur).2.step sum).2 ((session.step sum).2.step blur).2 ∧
      ((session.step blur).2.step sum).2 ≠ ((session.step sum).2.step blur).2 := by
  intro session blur sum
  have blurRegisters : (session.step blur).1 = .ok (.registered "y") := by decide +kernel
  have sumRegisters : (session.step sum).1 = .ok (.registered "z") := by decide +kernel
  have blurAssigns : blur.sides?.isSome = true := by decide +kernel
  have sumAssigns : sum.sides?.isSome = true := by decide +kernel
  have independent : session.Independent blur sum := by
    constructor
    · rw [blurRegisters, sumRegisters]
      rintro name registers
      cases registers
      decide
    · rw [blurRegisters]
      intro name other property image picture changes
      cases changes
    · rw [blurRegisters]
      intro name registers
      cases registers
      decide +kernel
    · rw [sumRegisters]
      intro name registers
      cases registers
      decide +kernel
  have size : session.store.size = 1 := by decide +kernel
  have commutes := independent_assignments_commute .standard _ blurAssigns sumAssigns independent
  refine ⟨blurAssigns, sumAssigns, independent, commutes.2.1.trans sumRegisters,
    commutes.1.trans blurRegisters, size ▸ commutes.2.2, by decide +kernel⟩

end Session

end ImageGraph
