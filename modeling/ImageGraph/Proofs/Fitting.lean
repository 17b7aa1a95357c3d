import ImageGraph.Proofs.Combining
import ImageGraph.Proofs.Failure
import ImageGraph.Proofs.Planning
import ImageGraph.Proofs.Wiring

/-!
Settings fit and writes do not fail. A value is checked whenever it is written: it must be of the kind
of the property, and the property must be one of the image. Reading a value has looked at the property
before, operators and colors set what their images have, and the settings of an image always fit its
kind. So the check never refuses anything.
-/

set_option autoImplicit false

namespace ImageGraph

/-- The errors of a write that is refused: the value is of another kind, or there is no such property,
in which case no image is named. -/
def Error.ofWriting : Error → Bool
  | badArgument (.misfit _ _ _) => true
  | propertyNotFound image _ _ => image.isEmpty
  | _ => false

theorem Settings.set_fails {properties : List Property} {settings : Settings} {name : String}
    {value : Property.Value} {error : Error}
    (fails : set properties settings name value = .error error) : error.ofWriting = true := by
  unfold set at fails
  split at fails
  · cases fails
    rfl
  · split at fails
    · cases fails
    · cases fails
      rfl

/-- The errors of an assignment to a property that come from no reading of its value: there is no such
property, or the value is of another kind. -/
def Error.ofProperty : Error → Bool
  | badArgument (.misfit _ _ _) => true
  | propertyNotFound _ _ _ => true
  | _ => false

theorem Error.not_of_writing {error : Error} (apart : error.ofProperty = false) :
    error.ofWriting = false := by
  unfold ofWriting
  split
  · cases apart
  · cases apart
  · rfl

/-- If the computation fails, then not with the error of a property. -/
abbrev FailsApart {Result : Type} (computed : Except Error Result) : Prop :=
  FailsOnly (fun error => error.ofProperty = false) computed

/-- If the computation fails, then not at a write. -/
def FailsElsewhere {Result : Type} (computed : Except Error Result) : Prop :=
  ∀ error, computed = .error error → error.ofWriting = false

namespace FailsElsewhere

variable {First Result : Type}

theorem ok (result : Result) : FailsElsewhere (.ok result) := FailsOnly.ok result

theorem error {own : Error} (elsewhere : own.ofWriting = false) :
    FailsElsewhere (.error own : Except Error Result) :=
  FailsOnly.error elsewhere

theorem bind {first : Except Error First} {next : First → Except Error Result}
    (begins : FailsElsewhere first)
    (continues : ∀ value, first = .ok value → FailsElsewhere (next value)) :
    FailsElsewhere (first >>= next) :=
  FailsOnly.bind begins continues

end FailsElsewhere

theorem FailsOnly.elsewhere {Result : Type} {computed : Except Error Result}
    (apart : FailsApart computed) : FailsElsewhere computed := fun error fails =>
  Error.not_of_writing (apart error fails)

section Reading

variable {scope : Scope}

theorem NotNumber.apart {complaint : Found → Complaint} {operand : Expr} {error : Error}
    (other : NotNumber scope complaint operand error)
    (own : ∀ found, (Error.badArgument (complaint found)).ofProperty = false) :
    error.ofProperty = false := by
  rcases other with ⟨value, _, _, rfl⟩
  exact own value.found

theorem Value.pictorial_apart (value : Value) : FailsApart value.pictorial := by
  unfold pictorial
  split
  case h_7 => exact .error rfl
  all_goals exact .ok _

theorem Scope.lookup_apart (scope : Scope) (name : String) :
    FailsApart (scope.lookup name) := by
  unfold lookup
  simp only
  split
  · exact .ok _
  · split
    · exact .ok _
    · split
      · exact .error rfl
      · exact .error rfl

theorem written_apart {names : Registry} {defaults : Defaults} {argument : Expr}
    {written : Except Error Resolution}
    (isWritten : writtenResolution? names defaults argument = some written) :
    FailsApart written := by
  unfold writtenResolution? at isWritten
  split at isWritten
  · cases isWritten
    exact .map_error _ fun _ => rfl
  · split at isWritten
    · cases isWritten
    · split at isWritten
      · cases isWritten
        exact .ok _
      · split at isWritten <;> cases isWritten
        · exact .ok _
        · exact .error rfl
  · cases isWritten

theorem Value.as_number_apart {complaint : Found → Complaint} (value : Value)
    (own : ∀ found, (Error.badArgument (complaint found)).ofProperty = false) :
    FailsApart (value.asNumber complaint) := by
  unfold asNumber
  split
  · exact .ok _
  · exact .error (own _)

theorem computed_resolution_apart (source : Generator) (side : Value) :
    FailsApart (computedResolution source side) := by
  apply (side.as_number_apart fun _ => rfl).bind
  intro number _
  exact .map_error _ fun _ => rfl

theorem Raises.apart {part : Expr} {error : Error} (raises : Raises scope part error) :
    error.ofProperty = false := by
  cases raises with
  | unbound fails => exact scope.lookup_apart _ error fails
  | item isItem other => exact other.apart fun _ => rfl
  | mathArgument plain named isArgument other => exact other.apart fun _ => rfl
  | channel makes isArgument other => exact other.apart fun _ => rfl
  | negated span other => exact other.apart fun _ => rfl
  | written span graph makes fails => exact written_apart fails error rfl
  | side span makes evaluated fails => exact computed_resolution_apart _ _ error fails
  | input makes isArgument other =>
      rcases other with ⟨value, _, fails⟩
      exact value.pictorial_apart error fails
  | operand span isOperand other =>
      rcases other with ⟨value, _, fails⟩
      exact value.pictorial_apart error fails
  | _ => rfl

theorem evaluate_apart (scope : Scope) (expression : Expr) :
    FailsApart (evaluate scope expression) := by
  intro error fails
  obtain ⟨part, _, raises⟩ := expression.fails_as_raised scope error fails
  exact raises.apart

theorem parse_apart (text : String) : FailsApart (parse text) :=
  .map_error _ fun _ => rfl

theorem compile_apart (names : Registry) (defaults : Defaults) (text : String) :
    FailsApart (compile names defaults text) := by
  apply (parse_apart text).bind
  intro expression _
  apply (evaluate_apart _ expression).bind
  intro value _
  exact value.pictorial_apart.map _

theorem evaluate_number_apart (text : String) : FailsApart (evaluateNumber text) := by
  apply (parse_apart text).bind
  intro expression _
  apply (evaluate_apart _ expression).bind
  intro value _
  exact value.as_number_apart fun _ => rfl

theorem evaluate_array_apart (text : String) : FailsApart (evaluateArray text) := by
  apply (parse_apart text).bind
  intro expression _
  apply (evaluate_apart _ expression).bind
  intro value _
  cases value with
  | number number => exact .ok _
  | numbers items => exact .ok _
  | color shade => exact .error rfl
  | image picture => exact .error rfl

theorem read_shape_apart (property : String) (shape : Shape) (text : String) :
    FailsApart (readShape property shape text) := by
  apply (evaluate_array_apart text).bind
  intro numbers _
  split
  · exact .ok _
  · exact .error rfl

theorem read_flag_apart (text : String) : FailsApart (readFlag text) := by
  unfold readFlag
  split
  · exact .ok _
  · split
    · exact .ok _
    · exact (evaluate_number_apart text).map _

theorem read_choice_apart (property : String) (cases : List String) (text : String) :
    FailsApart (readChoice property cases text) := by
  unfold readChoice
  split
  · exact .ok _
  · simp only
    split
    · exact .ok _
    · exact .error rfl
  · exact .error rfl

theorem read_request_apart (property : Property) (text : String) :
    FailsApart (readRequest property text) := by
  unfold readRequest
  simp only
  split
  case h_1 => exact (evaluate_number_apart _).map _
  case h_2 => exact (evaluate_number_apart _).map _
  case h_3 => exact (read_flag_apart _).map _
  case h_8 => exact read_choice_apart _ _ _
  all_goals exact read_shape_apart _ _ _

end Reading

theorem split_path_elsewhere (path : String) : FailsElsewhere (splitPath path) := by
  unfold splitPath
  split
  · exact .ok _
  · simp only
    split
    · exact .error rfl
    · split
      · exact .error rfl
      · exact .ok _

theorem split_path_name {path name property : String}
    (split : splitPath path = .ok (some (name, property))) : name.isEmpty = false := by
  unfold splitPath at split
  split at split
  · cases split
  · simp only at split
    split at split
    · cases split
    · split at split
      · cases split
      · rename_i named
        cases split
        simpa using named

theorem Registry.find_elsewhere (names : Registry) (name : String) :
    FailsElsewhere (names.find name) := by
  unfold find
  split
  · exact .ok _
  · exact .error rfl

section Plans

variable (names : Registry) (defaults : Defaults)

theorem plan_name_elsewhere (name text : String) :
    FailsElsewhere (planName names defaults name text) := by
  unfold planName
  split
  · apply (compile_apart names defaults text).elsewhere.bind
    intro image _
    exact .ok _
  · exact .error rfl

theorem plan_property_elsewhere {name : String} (property text : String)
    (named : name.isEmpty = false) : FailsElsewhere (planProperty names name property text) := by
  apply (names.find_elsewhere name).bind
  intro image _
  split
  · exact .error named
  · rename_i declared _
    apply (read_request_apart declared text).elsewhere.bind
    intro request _
    cases request with
    | store value => exact .ok _
    | cases entries => exact .ok _

theorem plan_elsewhere (path text : String) : FailsElsewhere (plan names defaults path text) := by
  unfold plan
  split
  · exact .error rfl
  split
  · exact .error rfl
  apply (split_path_elsewhere path).bind
  intro place split
  rcases place with _ | ⟨name, property⟩
  · exact plan_name_elsewhere names defaults path text
  · exact plan_property_elsewhere names property text (split_path_name split)

end Plans

/-- No command fails at a write. One that does not assign has none. -/
theorem Session.step_elsewhere (session : Session) (command : Command) :
    FailsElsewhere (session.step command).1 := by
  intro error fails
  cases step_fails fails with
  | assigning sides fails => exact plan_elsewhere _ _ _ _ error fails
  | listing read fails => exact session.names.find_elsewhere _ error fails
  | showing read fails => exact (compile_apart _ _ _).elsewhere error fails

namespace Image

/-- A new image with several of its values replaced, one after the other, each if it is of the right
kind. -/
def trySettings (image : Image) (entries : List (String × Property.Value)) : Except Error Image :=
  entries.foldlM (fun current entry => current.trySetting entry.1 entry.2) image

theorem try_setting_fits {image : Image} {property : String} {value : Property.Value}
    (fits : ∃ declared, Settings.property? image.kind.properties property = some declared ∧
      value.fits declared.kind = true) :
    image.trySetting property value = .ok (image.withValue property value) := by
  obtain ⟨declared, found, fits⟩ := fits
  unfold trySetting withValue
  split
  · rfl
  · simp only [Settings.set, found, fits, if_true]
    rfl

theorem try_settings_taken {image : Image} {entries : List (String × Property.Value)}
    (taken : ∀ entry ∈ entries, image.kind.Takes entry.1 entry.2) :
    image.trySettings entries = .ok (image.withValues entries) := by
  induction entries generalizing image with
  | nil => rfl
  | cons entry entries induction =>
      rw [List.forall_mem_cons] at taken
      rw [trySettings, List.foldlM_cons, try_setting_fits taken.1.fits]
      exact induction (by simpa using taken.2)

theorem Known.fit {defaults : Defaults} {catalog : Catalog} {store : Store} {image : Image}
    (known : image.Known defaults catalog) (describes : catalog.Describes defaults store) :
    Settings.Fit image.kind.properties (image.settings store) := by
  cases known with
  | @stored _ address listed home =>
      simp only [settings, home]
      exact (describes.wellMade address image listed).fit
  | loose home wellMade inputs =>
      simp only [settings, home]
      exact wellMade.fit

end Image

namespace Session

/-- The settings of all images of a run always fit their kinds, and no write that there is ever
fails. -/
structure AlwaysFits (defaults : Defaults) (commands : List Command) : Prop where
  /-- Whatever was reached at any time has one value for each property of its kind, in their order and
  of their kinds, and so it has ever after. -/
  reached : ∀ earlier later, commands = earlier ++ later → ∀ node, Reached defaults earlier node →
    Settings.Fit node.kind.properties (node.settings ((start defaults).run commands).store)
  /-- So has whatever an expression makes, also if it is dropped again. -/
  made : ∀ expression picture,
    evaluate (.graph ((start defaults).run commands).names defaults) expression =
      .ok (.image picture) →
    ∀ part ∈ picture.parts,
      Settings.Fit part.kind.properties (part.settings ((start defaults).run commands).store)
  /-- No command ends with the error of a write that was refused. -/
  fails_elsewhere : ∀ command error, (((start defaults).run commands).step command).1 = .error error →
    error.ofWriting = false

/-- In every run settings fit and writes succeed. A value that is read for a property fits it, so an
assignment that has come to its write succeeds. So do the writes by which operators make their images
and colors theirs. -/
theorem settings_always_fit (defaults : Defaults) (commands : List Command) :
    AlwaysFits defaults commands ∧
    (∀ properties settings name value error,
      Settings.set properties settings name value = .error error → error.ofWriting = true) ∧
    (∀ property text value, readRequest property text = .ok (.store value) →
      value.fits property.kind = true) ∧
    (∀ properties settings name declared text value,
      Settings.property? properties name = some declared →
      readRequest declared text = .ok (.store value) →
      Settings.set properties settings name value =
        .ok (Settings.put properties settings name value)) ∧
    (∀ operator first second,
      (Image.ofMerger (Operator.merger operator) first second).trySettings operator.overrides =
        .ok (operator.combine first second)) ∧
    ∀ shade, (Image.ofGenerator .color defaults.constant).trySetting "color" (.color shade) =
      .ok (.ofColor defaults shade) := by
  refine ⟨⟨?_, ?_, ?_⟩, ?_, ?_, ?_, ?_, ?_⟩
  · intro earlier later split node reached
    subst split
    obtain ⟨catalog, recorded, known, _⟩ := run_recorded defaults earlier later
    exact (known node reached).fit recorded.describes_run
  · intro expression picture evaluated part within
    obtain ⟨catalog, recorded, _⟩ := (recorded_start defaults).run commands
    have namesKnown := recorded.known
    rw [run_defaults] at namesKnown
    have known := expression.describes_known namesKnown _ evaluated
    exact (Image.Known.parts known recorded.describes_run within).fit recorded.describes_run
  · intro command
    exact ((start defaults).run commands).step_elsewhere command
  · intro properties settings name value error fails
    exact Settings.set_fails fails
  · intro property text value read
    exact read_request_fits read
  · intro properties settings name declared text value found read
    simp only [Settings.set, found, read_request_fits read, if_true]
  · intro operator first second
    rw [Image.try_settings_taken operator.overrides_taken, operator.combine_eq]
  · intro shade
    exact Image.try_setting_fits ⟨_, rfl, rfl⟩

/-- A sum has the settings of a blend, and a mode that there is not is refused before it is written. -/
theorem sum_fits_blend :
    let commands : List Command := [.line "x = noise(64)", .line "y = x + 0.5"]
    let session := (start .standard).run commands
    let unknown : Error := .caseNotFound "glow" (BlendMode.all.map BlendMode.name)
    (∃ sum, session.names.get? "y" = some sum ∧ sum.kind = .merger .blend ∧
      Settings.Fit (Kind.merger .blend).properties (sum.settings session.store)) ∧
    readRequest (.ofPoint "offset" 0 0) "[0.25, 2]" = .ok (.store (.point 0.25 2)) ∧
    (Property.Value.point 0.25 2).fits .point = true ∧
    (session.step (.line "y.mode = .glow")).1 = .error unknown ∧ unknown.ofWriting = false := by
  intro commands session unknown
  obtain ⟨sum, bound, isBlend⟩ :
      ∃ sum, session.names.get? "y" = some sum ∧ sum.kind = .merger .blend := by
    refine ⟨.merger (.stored 2) .blend (.generator (.stored 0) .noise ⟨64, 64⟩)
      (.generator (.stored 1) .color ⟨1, 1⟩), ?_, rfl⟩
    decide +kernel
  have read : readRequest (.ofPoint "offset" 0 0) "[0.25, 2]" = .ok (.store (.point 0.25 2)) := by
    decide +kernel
  have refused : (session.step (.line "y.mode = .glow")).1 = .error unknown := by
    decide +kernel
  obtain ⟨fits, -, readFits, -⟩ := settings_always_fit .standard commands
  have fit := fits.reached commands [] rfl sum (.named bound sum.self_mem_parts)
  rw [isBlend] at fit
  exact ⟨⟨sum, bound, isBlend, fit⟩, read, readFits _ _ _ read, refused,
    fits.fails_elsewhere _ _ refused⟩

end Session

end ImageGraph
