import ImageGraph.Proofs.Addressing
import ImageGraph.Proofs.Fitting
import ImageGraph.Proofs.Frame

/-!
Listings are complete. The properties that are listed for an image are those that can be assigned, and the
cases that are listed for a property are those that it can be given. What is not listed is refused, and
the error carries the listing.
-/

set_option autoImplicit false

namespace ImageGraph

theorem Text.dotted_injective : Function.Injective Text.dotted := by
  intro first second same
  have chars := congrArg String.toList same
  rw [dotted_chars, dotted_chars] at chars
  exact String.toList_injective (List.cons_injective chars)

theorem Settings.property_none_iff (properties : List Property) (name : String) :
    property? properties name = none ↔ name ∉ properties.map Property.name := by
  rw [property?, List.find?_eq_none]
  constructor
  · intro none listed
    obtain ⟨property, declared, rfl⟩ := List.mem_map.1 listed
    exact none property declared (beq_self_eq_true _)
  · intro absent property declared same
    exact absent (List.mem_map.2 ⟨property, declared, eq_of_beq same⟩)

theorem Image.dotted_listed_iff (image : Image) (property : String) :
    Text.dotted property ∈ image.propertyNames.map Text.dotted ↔
      Settings.property? image.kind.properties property ≠ none := by
  rw [List.mem_map_of_injective Text.dotted_injective, Ne, Settings.property_none_iff, not_not]
  rfl

/-- The command assigns a text to a path. Blanks at the ends of both are of no account. -/
def Command.Assigns (command : Command) (path text : String) : Prop :=
  command.sides? = some (Text.trim path, Text.trim text)

theorem path_trimmed {name property : String} (named : isIdentifier name = true)
    (trimmed : Text.trim property = property) :
    Text.trim (name ++ "." ++ property) = name ++ "." ++ property := by
  have nameSnug := solid_snug (identifier_chars named).1 (identifier_solid named)
  have dotSnug : Text.Snug ['.'] := solid_snug (by simp) (List.all_eq_true.1 rfl)
  apply Text.Snug.trim
  rw [String.toList_append, String.toList_append, List.append_assoc]
  by_cases begun : property.toList = []
  · rw [begun]
    exact nameSnug.append [] dotSnug
  · have kept : Text.trimList property.toList = property.toList := by
      rw [← String.toList_ofList (l := Text.trimList property.toList)]
      exact congrArg String.toList trimmed
    have propertySnug := Text.snug_trim (kept.symm ▸ begun)
    rw [kept] at propertySnug
    exact nameSnug.append ['.'] propertySnug

section Choices

variable {property : Property} {cases : List String} {chosen : String}

theorem request_of_dot (isChoice : property.kind = .choice cases) :
    readRequest property "." = .ok (.cases (cases.map Text.dotted)) := by
  rw [readRequest, isChoice]
  rfl

theorem request_of_case (isChoice : property.kind = .choice cases) (begun : chosen ≠ "")
    (snug : Text.trim (Text.dotted chosen) = Text.dotted chosen) :
    readRequest property (Text.dotted chosen) =
      if chosen ∈ cases then .ok (.store (.choice chosen)) else .error (.caseNotFound chosen cases) := by
  rw [readRequest, isChoice]
  simp only [snug]
  exact choice_behind_dot (by simpa using begun)

end Choices

namespace Session

variable {session : Session} {name property : String} {image : Image}

/-- How the assignments to a property agree with the properties that are listed for the image. -/
structure Admits (session : Session) (name property : String) (entries : List String)
    (command : Command) : Prop where
  rejected_iff : (∃ given asked valid,
    (session.step command).1 = .error (.propertyNotFound given asked valid)) ↔
      Text.dotted property ∉ entries
  rejected : Text.dotted property ∉ entries → ∃ valid,
    session.step command = (.error (.propertyNotFound name property valid), session) ∧
      valid.map Text.dotted = entries

/-- How the assignment of a case agrees with the cases that are listed for the property. -/
structure Chooses (session : Session) (name property : String) (image : Image)
    (entries : List String) (chosen : String) (command : Command) : Prop where
  succeeds_iff : (∃ outcome, (session.step command).1 = .ok outcome) ↔ Text.dotted chosen ∈ entries
  holds : Text.dotted chosen ∈ entries →
    (session.step command).1 = .ok (.propertySet name property) ∧
      (session.step command).2.names.get? name = some image ∧
      image.value? (session.step command).2.store property = some (.choice chosen)
  refused : Text.dotted chosen ∉ entries → ∃ cases,
    session.step command = (.error (.caseNotFound chosen cases), session) ∧
      cases.map Text.dotted = entries

theorem admits {command : Command} {text : String}
    (stepped : session.step command = session.assigned image name property text) :
    session.Admits name property (image.propertyNames.map Text.dotted) command := by
  cases found : Settings.property? image.kind.properties property with
  | none =>
      have absent : Text.dotted property ∉ image.propertyNames.map Text.dotted := by
        rw [image.dotted_listed_iff, found]
        exact fun some => some rfl
      rw [assigned_unknown found] at stepped
      refine ⟨⟨fun _ => absent, fun _ => ⟨name, property, image.propertyNames, ?_⟩⟩,
        fun _ => ⟨image.propertyNames, stepped, rfl⟩⟩
      rw [stepped]
  | some declared =>
      have listed : Text.dotted property ∈ image.propertyNames.map Text.dotted := by
        rw [image.dotted_listed_iff, found]
        exact Option.some_ne_none declared
      rw [assigned_known found] at stepped
      refine ⟨⟨?_, fun absent => absurd listed absent⟩, fun absent => absurd listed absent⟩
      rintro ⟨given, asked, valid, fails⟩
      rw [stepped] at fails
      cases read : readRequest declared text with
      | error error =>
          rw [read] at fails
          cases fails
          cases read_request_apart declared text _ read
      | ok request =>
          rw [read] at fails
          cases request <;> cases fails

section Cases

variable {catalog : Catalog} {declared : Property} {cases : List String} {chosen : String}
  {command : Command}

theorem assigned_dot (found : Settings.property? image.kind.properties property = some declared)
    (isChoice : declared.kind = .choice cases) :
    session.assigned image name property "." =
      (.ok (.listing (cases.map Text.dotted)), session) := by
  rw [assigned_known found, request_of_dot isChoice]

theorem Recorded.value_put (recorded : session.Recorded catalog)
    (bound : session.names.get? name = some image)
    (found : Settings.property? image.kind.properties property = some declared)
    (value : Property.Value) :
    let after := session.replaceSettings image
      (Settings.put image.kind.properties (image.settings session.store) property value)
    after.names = session.names ∧ image.value? after.store property = some value := by
  obtain ⟨address, home, listed⟩ := recorded.address_of_name bound
  have within := recorded.describes.address_lt listed
  have fit := (recorded.well_made bound).fit
  rw [session.replace_settings_stored _ home]
  refine ⟨rfl, ?_⟩
  rw [Image.value?, Image.settings_set home within]
  exact Settings.get_put_of_fit value fit found

theorem Recorded.chooses (recorded : session.Recorded catalog)
    (bound : session.names.get? name = some image)
    (found : Settings.property? image.kind.properties property = some declared)
    (isChoice : declared.kind = .choice cases) (begun : chosen ≠ "")
    (snug : Text.trim (Text.dotted chosen) = Text.dotted chosen)
    (stepped : session.step command = session.assigned image name property (Text.dotted chosen)) :
    session.Chooses name property image (cases.map Text.dotted) chosen command := by
  rw [assigned_known found, request_of_case isChoice begun snug] at stepped
  have listed_iff : Text.dotted chosen ∈ cases.map Text.dotted ↔ chosen ∈ cases :=
    List.mem_map_of_injective Text.dotted_injective
  by_cases listed : chosen ∈ cases
  · rw [if_pos listed] at stepped
    obtain ⟨sameNames, holds⟩ := recorded.value_put bound found (.choice chosen)
    have present := listed_iff.2 listed
    refine ⟨⟨fun _ => present, fun _ => ⟨.propertySet name property, ?_⟩⟩, fun _ => ⟨?_, ?_, ?_⟩,
      fun absent => absurd present absent⟩
    · rw [stepped]
    · rw [stepped]
    · rw [stepped, sameNames, bound]
    · rw [stepped, holds]
  · rw [if_neg listed] at stepped
    refine ⟨?_, fun present => absurd (listed_iff.1 present) listed, fun _ => ⟨cases, stepped, rfl⟩⟩
    rw [listed_iff, stepped]
    refine ⟨?_, fun present => absurd present listed⟩
    rintro ⟨outcome, succeeds⟩
    cases succeeds

end Cases

theorem dot_trimmed : Text.trim "." = "." := by decide

theorem case_trimmed {chosen : String} (begun : chosen ≠ "")
    (stop : ∀ last ∈ chosen.toList.getLast?, Text.isBlank last = false) :
    Text.trim (Text.dotted chosen) = Text.dotted chosen := by
  apply Text.Snug.trim
  rw [dotted_chars]
  have chosenBegun : chosen.toList ≠ [] := by
    simpa using begun
  refine ⟨List.cons_ne_nil _ _, ?_, ?_⟩
  · rintro _ ⟨⟩
    decide
  · rw [List.getLast?_cons_of_ne_nil chosenBegun]
    exact stop

/-- In every session that a run leads to, listings, refusals and acceptance agree. -/
theorem listings_agree (defaults : Defaults) (commands : List Command)
    (bound : ((start defaults).run commands).names.get? name = some image)
    (undotted : '.' ∉ property.toList) (trimmed : Text.trim property = property) :
    let session := (start defaults).run commands
    (∃ entries, session.step (.line (name ++ ".")) = (.ok (.listing entries), session) ∧
      ∀ command text, Command.Assigns command (name ++ "." ++ property) text →
        Text.trim text ≠ "" → session.Admits name property entries command) ∧
    ∀ declared cases, Settings.property? image.kind.properties property = some declared →
      declared.kind = .choice cases →
      ∃ entries,
        (∀ command, Command.Assigns command (name ++ "." ++ property) "." →
          session.step command = (.ok (.listing entries), session)) ∧
        ∀ command chosen, chosen ≠ "" →
          (∀ last ∈ chosen.toList.getLast?, Text.isBlank last = false) →
          Command.Assigns command (name ++ "." ++ property) (Text.dotted chosen) →
            session.Chooses name property image entries chosen command := by
  intro session
  obtain ⟨catalog, recorded, -⟩ := (recorded_start defaults).run commands
  have named := recorded.identifiers name image bound
  have same : Text.trim name = name :=
    (solid_snug (identifier_chars named).1 (identifier_solid named)).trim
  have stepped (command : Command) (text : String)
      (assigns : command.Assigns (name ++ "." ++ property) text) (begun : Text.trim text ≠ "") :
      session.step command = session.assigned image name property (Text.trim text) := by
    rw [Command.Assigns, path_trimmed named trimmed] at assigns
    have step := step_of_path assigns (same.symm ▸ named) undotted begun (same.symm ▸ bound)
    rwa [same, trimmed] at step
  refine ⟨⟨image.propertyNames.map Text.dotted, ?_, ?_⟩, ?_⟩
  · have line : Text.trim (name ++ ".") = name ++ "." := by
      have empty : Text.trim "" = "" := rfl
      simpa using path_trimmed named empty
    exact step_of_dot line (same.symm ▸ named) (same.symm ▸ bound)
  · intro command text assigns begun
    exact admits (stepped command text assigns begun)
  · intro declared cases found isChoice
    refine ⟨cases.map Text.dotted, ?_, ?_⟩
    · intro command assigns
      rw [stepped command "." assigns (by decide), dot_trimmed, assigned_dot found isChoice]
    · intro command chosen begun stop assigns
      have snug := case_trimmed begun stop
      have dotted : Text.trim (Text.dotted chosen) ≠ "" := by
        rw [snug, Text.dotted]
        simp
      have step := stepped command _ assigns dotted
      rw [snug] at step
      exact recorded.chooses bound found isChoice begun snug step

/-- A sum is a blend. It has no glow, and its mode can be chosen from a list. -/
theorem sum_listings_agree :
    let session := (start .standard).run [.line "x = noise(64)", .line "y = x + 0.5"]
    let sum := Image.merger (.stored 2) .blend (.generator (.stored 0) .noise ⟨64, 64⟩)
      (.generator (.stored 1) .color ⟨1, 1⟩)
    session.names.get? "y" = some sum ∧
    (∃ entries, session.step (.line "y.") = (.ok (.listing entries), session) ∧
      session.Admits "y" "glow" entries (.line "y.glow = 1")) ∧
    ∃ entries, session.step (.line "y.mode = .") = (.ok (.listing entries), session) ∧
      session.Chooses "y" "mode" sum entries "multiply" (.line "y.mode = .multiply") ∧
      session.Chooses "y" "mode" sum entries "glow" (.assign "y.mode" ".glow") := by
  intro session sum
  have bound : session.names.get? "y" = some sum := by
    decide +kernel
  have noGlow : '.' ∉ "glow".toList := by decide
  have glowTrimmed : Text.trim "glow" = "glow" := by decide
  have noMode : '.' ∉ "mode".toList := by decide
  have modeTrimmed : Text.trim "mode" = "mode" := by decide
  refine ⟨bound, ?_, ?_⟩
  · obtain ⟨⟨entries, listed, admits⟩, -⟩ := listings_agree _ _ bound noGlow glowTrimmed
    have assigns : Command.Assigns (.line "y.glow = 1") ("y" ++ "." ++ "glow") "1" := by
      unfold Command.Assigns
      decide
    exact ⟨entries, listed, admits _ _ assigns (by decide)⟩
  · obtain ⟨-, choices⟩ := listings_agree _ _ bound noMode modeTrimmed
    obtain ⟨entries, listed, chooses⟩ := choices _ _ rfl rfl
    have asks : Command.Assigns (.line "y.mode = .") ("y" ++ "." ++ "mode") "." := by
      unfold Command.Assigns
      decide
    have assigns : Command.Assigns (.line "y.mode = .multiply") ("y" ++ "." ++ "mode")
        (Text.dotted "multiply") := by
      unfold Command.Assigns
      decide
    have solid (chosen : String) (isSolid : chosen.toList.getLast?.all (!Text.isBlank ·) = true) :
        ∀ last ∈ chosen.toList.getLast?, Text.isBlank last = false := by
      intro last isLast
      rw [Option.mem_def.1 isLast] at isSolid
      simpa using isSolid
    exact ⟨entries, listed _ asks, chooses _ _ (by decide) (solid _ (by decide)) assigns,
      chooses _ _ (by decide) (solid "glow" (by decide)) rfl⟩

end Session

end ImageGraph
