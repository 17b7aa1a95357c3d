import ImageGraph.Proofs.Assigning
import ImageGraph.Proofs.Planning

/-!
Finite values. If the literals of all commands are finite, every number that is stored is, except in
colors that are computed from a hue: functions and operators refuse results that are infinite or no
number, and everything else hands on numbers as they are. The channels that `hsv` and `hsva` compute
are not examined, so a large value and a saturation above one can overflow.
-/

set_option autoImplicit false

namespace ImageGraph

open Number (isFinite)

/-- The channels are finite, or the color is computed from a hue and other numbers that are. -/
inductive Color.Bounded : Color → Prop where
  | channels {shade : Color} (finite : ∀ x ∈ shade.channels, isFinite x = true) : Bounded shade
  | hue {hue saturation value alpha : Float}
      (finite : ∀ x ∈ [hue, saturation, value, alpha], isFinite x = true) :
      Bounded (.ofHue hue saturation value alpha)

/-- The numbers in the value are finite, unless it is a color that is computed from a hue. -/
def Property.Value.Bounded : Property.Value → Prop
  | .color shade => shade.Bounded
  | value => value.IsFinite

def Settings.Bounded (settings : Settings) : Prop := ∀ value ∈ settings, value.Bounded

def Store.Bounded (store : Store) : Prop := ∀ settings ∈ store, Settings.Bounded settings

/-- What is not in a store yet is bounded. -/
def Image.Bounded (image : Image) : Prop :=
  ∀ part ∈ image.parts, ∀ settings, part.home = .loose settings → settings.Bounded

def Value.Bounded : Value → Prop
  | .number value => isFinite value = true
  | .numbers items => ∀ x ∈ items, isFinite x = true
  | .color shade => shade.Bounded
  | .image picture => picture.Bounded

def Registry.Bounded (names : Registry) : Prop :=
  ∀ name image, names.get? name = some image → image.Bounded

def Scope.Bounded : Scope → Prop
  | .numeric => True
  | .graph names _ => names.Bounded

theorem finite_one : isFinite 1 = true := by decide +kernel

theorem finite_pi : isFinite pi = true := by decide +kernel

theorem Property.Value.bounded_of_finite {value : Property.Value} (finite : value.IsFinite) :
    value.Bounded := by
  cases value with
  | color shade => exact .channels finite
  | _ => exact finite

theorem Kind.initial_finite (kind : Kind) :
    ∀ property ∈ kind.properties, property.initial.IsFinite := by
  unfold Property.Value.IsFinite
  rcases kind with source | effect | combination | arrangement
  · cases source <;> decide +kernel
  · cases effect <;> decide +kernel
  · cases combination <;> decide +kernel
  · cases arrangement <;> decide +kernel

namespace Settings

theorem bounded_initial (kind : Kind) : Bounded (initial kind.properties) := by
  intro value member
  obtain ⟨property, declared, rfl⟩ := List.mem_map.1 member
  exact Property.Value.bounded_of_finite (kind.initial_finite property declared)

theorem Bounded.put {properties : List Property} {settings : Settings} {name : String}
    {value : Property.Value} (bounded : Bounded settings) (valueBounded : value.Bounded) :
    Bounded (put properties settings name value) := by
  intro other member
  rcases mem_put member with rfl | kept
  · exact valueBounded
  · exact bounded other kept

end Settings

namespace Image

theorem bounded_iff (image : Image) :
    image.Bounded ↔
      (∀ settings, image.home = .loose settings → settings.Bounded) ∧
        ∀ input ∈ image.inputs, input.Bounded := by
  unfold Bounded
  rw [parts_eq, List.forall_mem_cons]
  simp only [List.mem_flatMap]
  constructor
  · rintro ⟨own, below⟩
    exact ⟨own, fun input isInput part within => below part ⟨input, isInput, within⟩⟩
  · rintro ⟨own, below⟩
    refine ⟨own, ?_⟩
    rintro part ⟨input, isInput, within⟩
    exact below input isInput part within

theorem Bounded.part {image part : Image} (bounded : image.Bounded) (within : part ∈ image.parts) :
    part.Bounded := fun deeper isPart =>
  bounded deeper (parts_trans within isPart)

theorem bounded_new {image : Image} (new : image.home = newHome image.kind)
    (inputs : ∀ input ∈ image.inputs, input.Bounded) : image.Bounded := by
  refine image.bounded_iff.2 ⟨?_, inputs⟩
  intro settings loose
  cases new.symm.trans loose
  exact Settings.bounded_initial image.kind

theorem Bounded.with_value {image : Image} {property : String} {value : Property.Value}
    (bounded : image.Bounded) (valueBounded : value.Bounded) :
    (image.withValue property value).Bounded := by
  unfold withValue
  split
  · exact bounded
  · rename_i settings loose
    rw [bounded_iff] at bounded ⊢
    rw [home_move_to, inputs_move_to]
    refine ⟨?_, bounded.2⟩
    rintro _ ⟨⟩
    exact (bounded.1 settings loose).put valueBounded

theorem bounded_of_color {defaults : Defaults} {shade : Color} (bounded : shade.Bounded) :
    (ofColor defaults shade).Bounded := by
  have blank : (ofGenerator .color defaults.constant).Bounded := bounded_new rfl (List.forall_mem_nil _)
  exact blank.with_value bounded

theorem Bounded.combine {operator : Operator} {first second : Image} (left : first.Bounded)
    (right : second.Bounded) : (operator.combine first second).Bounded := by
  have merged (combination : Merger) : (ofMerger combination first second).Bounded := by
    refine bounded_new rfl ?_
    simpa [ofMerger, inputs] using ⟨left, right⟩
  have choice (chosen : String) : (Property.Value.choice chosen).Bounded :=
    List.forall_mem_nil _
  have unit : (Property.Value.float 1).Bounded := by
    simpa [Property.Value.Bounded, Property.Value.IsFinite, Property.Value.floats] using finite_one
  cases operator with
  | blend mode =>
      exact (((merged .blend).with_value (choice _)).with_value (choice _)).with_value (choice _)
  | displace => exact (((merged .displace).with_value unit).with_value (choice _)).with_value (choice _)

theorem settle_all_bounded {images : List Image} {store : Store}
    (each : ∀ image ∈ images, ∀ store : Store, store.Bounded →
      (image.settle store).1.Bounded ∧ (image.settle store).2.Bounded)
    (storeBounded : store.Bounded) :
    (∀ image ∈ (settleAll images store).1, image.Bounded) ∧ (settleAll images store).2.Bounded := by
  induction images generalizing store with
  | nil => exact ⟨List.forall_mem_nil _, storeBounded⟩
  | cons image images induction =>
      rw [List.forall_mem_cons] at each
      obtain ⟨head, between⟩ := each.1 store storeBounded
      obtain ⟨tail, final⟩ := induction each.2 between
      rw [settleAll, List.forall_mem_cons]
      exact ⟨⟨head, tail⟩, final⟩

theorem Bounded.settle {image : Image} {store : Store} (bounded : image.Bounded)
    (storeBounded : store.Bounded) :
    (image.settle store).1.Bounded ∧ (image.settle store).2.Bounded := by
  induction image using of_inputs generalizing store with
  | step image induction =>
      cases home : image.home with
      | stored address =>
          rw [settle_stored image store home]
          exact ⟨bounded, storeBounded⟩
      | loose settings =>
          have parts := image.bounded_iff.1 bounded
          have below := settle_all_bounded (fun input isInput store storeBounded =>
            induction input isInput (parts.2 input isInput) storeBounded) storeBounded
          rw [settle_loose image store home]
          constructor
          · rw [bounded_iff, home_move_to, inputs_move_to,
              inputs_with_inputs _ _ (length_settle_all _ _)]
            refine ⟨?_, below.1⟩
            intro other stored
            cases stored
          · intro other member
            rcases Array.mem_push.1 member with before | rfl
            · exact below.2 other before
            · exact parts.1 other home

theorem settings_settled (image : Image) (store : Store) :
    (image.settle store).1.settings (image.settle store).2 = image.settings store := by
  cases home : image.home with
  | stored address => rw [settle_stored image store home]
  | loose settings =>
      rw [settings_settle image store home]
      simp only [Image.settings, home]

theorem Bounded.settings {image : Image} {store : Store} (bounded : image.Bounded)
    (storeBounded : store.Bounded) : (image.settings store).Bounded := by
  cases home : image.home with
  | loose own =>
      simp only [Image.settings, home]
      exact bounded image image.self_mem_parts own home
  | stored address =>
      simp only [Image.settings, home, Array.getD_eq_getD_getElem?]
      cases present : store[address]? with
      | none => exact List.forall_mem_nil _
      | some own => exact storeBounded own (Array.mem_of_getElem? present)

end Image

section Evaluation

variable {scope : Scope} {expression : Expr}

theorem Expr.all_literals_eq (items : List Expr) :
    Expr.allLiterals items = items.flatMap Expr.literals := by
  induction items with
  | nil => rfl
  | cons first others induction => rw [allLiterals, induction, List.flatMap_cons]

theorem Expr.literals_eq (other : ∀ value span, expression ≠ .number value span) :
    expression.literals = expression.operands.flatMap literals := by
  cases expression with
  | number value span => exact absurd rfl (other value span)
  | _ => simp [literals, operands, all_literals_eq]

theorem Expr.literal_of_operand {operand : Expr} (isOperand : operand ∈ expression.operands) {x : Float}
    (isLiteral : x ∈ operand.literals) : x ∈ expression.literals := by
  rw [literals_eq]
  · exact List.mem_flatMap.2 ⟨operand, isOperand, isLiteral⟩
  · rintro value span rfl
    cases isOperand

/-- Whatever value the expression has in the scope is bounded. -/
def Expr.YieldsBounded (scope : Scope) (expression : Expr) : Prop :=
  ∀ value, evaluate scope expression = .ok value → value.Bounded

theorem numbers_bounded {complaint : Found → Complaint} {operands : List Expr} {numbers : List Float}
    (each : ∀ operand ∈ operands, operand.YieldsBounded scope)
    (computed : evaluateNumbers scope complaint operands = .ok numbers) :
    ∀ x ∈ numbers, isFinite x = true := by
  replace computed := numbers_computed computed
  induction computed with
  | nil => exact List.forall_mem_nil _
  | cons head tail induction =>
      rw [List.forall_mem_cons] at each ⊢
      exact ⟨each.1 _ head, induction each.2⟩

theorem Value.Bounded.to_image {defaults : Defaults} {value : Value} {image : Image}
    (bounded : value.Bounded) (serves : value.toImage defaults = .ok image) : image.Bounded := by
  unfold toImage at serves
  cases stands : value.pictorial with
  | error error =>
      rw [stands] at serves
      cases serves
  | ok picture =>
      rw [stands] at serves
      cases serves
      unfold pictorial at stands
      split at stands <;> cases stands
      · exact bounded
      · exact Image.bounded_of_color bounded
      · rename_i level
        have finite : isFinite level = true := bounded
        exact Image.bounded_of_color (.channels (by simp [Color.channels, Color.gray, Color.grayAlpha,
          finite, finite_one]))
      all_goals
        have finite := bounded
        simp only [Bounded, List.forall_mem_cons] at finite
        exact Image.bounded_of_color (.channels (by simp [Color.channels, Color.grayAlpha,
          Color.opaqueOf, finite, finite_one]))

theorem images_bounded {defaults : Defaults} {operands : List Expr} {images : List Image}
    (each : ∀ operand ∈ operands, operand.YieldsBounded scope)
    (computed : evaluateImages scope defaults operands = .ok images) :
    ∀ image ∈ images, image.Bounded := by
  induction operands generalizing images with
  | nil =>
      rw [evaluateImages] at computed
      cases computed
      exact List.forall_mem_nil _
  | cons operand operands induction =>
      rw [evaluateImages] at computed
      obtain ⟨value, evaluated, computed⟩ := bind_eq_ok computed
      obtain ⟨image, serves, computed⟩ := bind_eq_ok computed
      obtain ⟨others, tailComputed, done⟩ := bind_eq_ok computed
      cases done
      rw [List.forall_mem_cons] at each ⊢
      exact ⟨(each.1 value evaluated).to_image serves, induction each.2 tailComputed⟩

theorem ColorFunction.shade_bounded {color : ColorFunction} {numbers : List Float} {shade : Color}
    (applied : color.shade? numbers = some shade) (finite : ∀ x ∈ numbers, isFinite x = true) :
    shade.Bounded := by
  unfold shade? at applied
  split at applied <;> cases applied
  all_goals simp only [List.forall_mem_cons] at finite
  · exact .channels (by simp [Color.channels, Color.opaqueOf, finite, finite_one])
  · exact .channels (by simp [Color.channels, finite])
  · exact .hue (by simp [finite, finite_one])
  · exact .hue (by simp [finite])

/-- Every way to a value keeps numbers finite, or refuses those that are not. -/
theorem Expr.yields_bounded (bounded : scope.Bounded) (expression : Expr)
    (finite : ∀ x ∈ expression.literals, isFinite x = true) : expression.YieldsBounded scope := by
  induction expression using by_operands with
  | number number span =>
      intro value evaluated
      cases evaluate_yields evaluated
      exact finite number List.mem_cons_self
  | identifier name span =>
      intro value evaluated
      cases evaluate_yields evaluated with
      | pi => exact finite_pi
      | named span graph bound =>
          subst graph
          exact bounded name _ bound
  | resolution width height span =>
      intro value evaluated
      cases evaluate_yields evaluated
  | array items span each =>
      have below : ∀ item ∈ items, item.YieldsBounded scope := fun item isItem =>
        each item isItem fun x isLiteral => finite x (literal_of_operand isItem isLiteral)
      intro value evaluated
      cases evaluate_yields evaluated with
      | array span computed => exact numbers_bounded below computed
  | call function arguments span each =>
      have below : ∀ argument ∈ arguments, argument.YieldsBounded scope := fun argument isArgument =>
        each argument isArgument fun x isLiteral => finite x (literal_of_operand isArgument isLiteral)
      intro value evaluated
      cases evaluate_yields evaluated with
      | math span plain named computed applied isFinite => exact isFinite
      | color span makes computed applied =>
          exact ColorFunction.shade_bounded applied (numbers_bounded below computed)
      | generator span graph makes given => exact Image.bounded_new rfl (List.forall_mem_nil _)
      | effect span graph makes effect new computed =>
          exact Image.bounded_new new (images_bounded below computed)
  | negation operand span operandBounded =>
      intro value evaluated
      cases evaluate_yields evaluated with
      | negation span computed => exact Number.is_finite_neg (operandBounded finite _ computed)
  | binary operator first second span left right =>
      rw [literals, List.forall_mem_append] at finite
      intro value evaluated
      cases evaluate_yields evaluated with
      | arithmetic span firstEvaluated secondEvaluated computed isFinite => exact isFinite
      | combination span graph firstEvaluated secondEvaluated firstServes secondServes =>
          have first := (left finite.1 _ firstEvaluated).to_image firstServes
          have second := (right finite.2 _ secondEvaluated).to_image secondServes
          exact first.combine second

end Evaluation

def textLiterals (text : String) : List Float :=
  match parse text with
  | .ok expression => expression.literals
  | .error _ => []

section Reading

variable {text : String}

theorem text_literals_finite {expression : Expr} (finite : ∀ x ∈ textLiterals text, isFinite x = true)
    (parsed : parse text = .ok expression) : ∀ x ∈ expression.literals, isFinite x = true := by
  rwa [textLiterals, parsed] at finite

theorem evaluate_number_finite {number : Float}
    (finite : ∀ x ∈ textLiterals text, isFinite x = true)
    (computed : evaluateNumber text = .ok number) : isFinite number = true := by
  obtain ⟨expression, parsed, computed⟩ := bind_eq_ok computed
  obtain ⟨value, evaluated, isNumber⟩ := bind_eq_ok computed
  obtain rfl := number_of_as_number isNumber
  have numeric : Scope.numeric.Bounded := trivial
  exact expression.yields_bounded numeric (text_literals_finite finite parsed) _ evaluated

theorem evaluate_array_finite {numbers : List Float}
    (finite : ∀ x ∈ textLiterals text, isFinite x = true)
    (computed : evaluateArray text = .ok numbers) : ∀ x ∈ numbers, isFinite x = true := by
  obtain ⟨expression, parsed, computed⟩ := bind_eq_ok computed
  obtain ⟨value, evaluated, made⟩ := bind_eq_ok computed
  have numeric : Scope.numeric.Bounded := trivial
  have bounded :=
    expression.yields_bounded numeric (text_literals_finite finite parsed) _ evaluated
  cases value with
  | number number =>
      cases made
      exact List.forall_mem_singleton.2 bounded
  | numbers items =>
      cases made
      exact bounded
  | color shade => cases made
  | image picture => cases made

theorem read_shape_finite {property : String} {shape : Shape} {value : Property.Value}
    (finite : ∀ x ∈ textLiterals text, isFinite x = true)
    (read : readShape property shape text = .ok (.store value)) : value.IsFinite := by
  obtain ⟨numbers, computed, makes⟩ := bind_eq_ok read
  have numbersFinite := evaluate_array_finite finite computed
  split at makes
  · rename_i made shaped
    cases makes
    unfold Shape.value? at shaped
    split at shaped <;> cases shaped
    all_goals exact numbersFinite
  · cases makes

/-- A value that is read for a property is finite if the literals of its text are. -/
theorem read_request_finite {declared : Property} {value : Property.Value}
    (finite : ∀ x ∈ textLiterals (Text.trim text), isFinite x = true)
    (read : readRequest declared text = .ok (.store value)) : value.IsFinite := by
  unfold readRequest at read
  simp only at read
  split at read
  case h_1 =>
    cases computed : evaluateNumber (Text.trim text) with
    | error error =>
        rw [computed] at read
        cases read
    | ok number =>
        rw [computed] at read
        cases read
        exact List.forall_mem_singleton.2 (evaluate_number_finite finite computed)
  case h_2 =>
    obtain ⟨number, rfl⟩ := Request.stored_of_map read
    exact List.forall_mem_nil _
  case h_3 =>
    obtain ⟨flag, rfl⟩ := Request.stored_of_map read
    exact List.forall_mem_nil _
  case h_8 =>
    unfold readChoice at read
    simp only at read
    split at read
    · cases read
    · split at read <;> cases read
      exact List.forall_mem_nil _
    · cases read
  all_goals exact read_shape_finite finite read

end Reading

theorem compile_bounded {names : Registry} {defaults : Defaults} {text : String} {image : Image}
    (bounded : names.Bounded) (finite : ∀ x ∈ textLiterals text, isFinite x = true)
    (compiled : compile names defaults text = .ok image) : image.Bounded := by
  obtain ⟨expression, parsed, compiled⟩ := bind_eq_ok compiled
  obtain ⟨value, evaluated, serves⟩ := bind_eq_ok compiled
  have scopeBounded : (Scope.graph names defaults).Bounded := bounded
  have valueBounded :=
    expression.yields_bounded scopeBounded (text_literals_finite finite parsed) value evaluated
  exact valueBounded.to_image serves

def Command.literals (command : Command) : List Float :=
  match command.text? with
  | some text => textLiterals text
  | none => []

theorem Command.literals_parsed {command : Command} {text : String} {expression : Expr}
    (isText : command.text? = some text) (parsed : parse text = .ok expression) :
    command.literals = expression.literals := by
  simp only [literals, isText, textLiterals, parsed]

namespace Session

/-- All that the session stores is bounded, and so is what its names stand for. -/
structure Bounded (session : Session) : Prop where
  store : session.store.Bounded
  names : session.names.Bounded

variable {session : Session} {command : Command} {name : String} {image : Image}

theorem bounded_start (defaults : Defaults) : (start defaults).Bounded where
  store := by simp [Store.Bounded, start]
  names := by simp [Registry.Bounded, start, Registry.get?]

theorem Bounded.register (bounded : session.Bounded) (imageBounded : image.Bounded) :
    (session.register name image).Bounded := by
  obtain ⟨settled, store⟩ := imageBounded.settle bounded.store
  refine ⟨store, ?_⟩
  intro other picture bound
  rw [get_register] at bound
  split at bound
  · cases bound
    exact settled
  · exact bounded.names other picture bound

theorem Bounded.replace_settings {settings : Settings} (bounded : session.Bounded)
    (settingsBounded : settings.Bounded) : (session.replaceSettings image settings).Bounded := by
  unfold replaceSettings
  split
  · refine ⟨?_, bounded.names⟩
    intro other member
    rcases Array.mem_or_eq_of_mem_setIfInBounds member with before | rfl
    · exact bounded.store other before
    · exact settingsBounded
  · exact bounded

theorem command_literals_finite {text : String} (isText : command.text? = some text)
    (finite : ∀ x ∈ command.literals, isFinite x = true) :
    ∀ x ∈ textLiterals text, isFinite x = true := by
  rwa [Command.literals, isText] at finite

/-- A command with finite literals leaves a bounded session behind and shows a bounded image, if it
shows one. -/
theorem Bounded.step (bounded : session.Bounded)
    (finite : ∀ x ∈ command.literals, isFinite x = true) :
    (session.step command).2.Bounded ∧
      ∀ image, (session.step command).1 = .ok (.render image) → image.Bounded := by
  constructor
  · have effect := session.step_effect command
    generalize (session.step command).1 = result, (session.step command).2 = after at effect ⊢
    cases effect with
    | failed error => exact bounded
    | nothing => exact bounded
    | listed entries => exact bounded
    | shown compiled => exact bounded
    | named sides identifier compiled =>
        have literals := command_literals_finite (Command.text_of_sides sides) finite
        exact bounded.register (compile_bounded bounded.names literals compiled)
    | @changed path text name property image declared value sides stores =>
        have literals := command_literals_finite (Command.text_of_sides sides) finite
        have trimmed : Text.trim text = text := Command.sides_trimmed sides
        rw [← trimmed] at literals
        have valueFinite := read_request_finite literals stores.text_read
        have settingsBounded := (bounded.names name image stores.bound).settings bounded.store
        exact bounded.replace_settings
          (settingsBounded.put (Property.Value.bounded_of_finite valueFinite))
  · intro image shows
    obtain ⟨text, isText, compiled⟩ := step_shows shows
    exact compile_bounded bounded.names (command_literals_finite isText finite) compiled

theorem Bounded.run (bounded : session.Bounded) {commands : List Command}
    (finite : ∀ command ∈ commands, ∀ x ∈ command.literals, isFinite x = true) :
    (session.run commands).Bounded ∧ ∀ image ∈ session.shown commands, image.Bounded := by
  induction commands generalizing session with
  | nil => exact ⟨bounded, List.forall_mem_nil _⟩
  | cons command commands induction =>
      rw [List.forall_mem_cons] at finite
      obtain ⟨after, shows⟩ := bounded.step finite.1
      obtain ⟨final, later⟩ := induction after finite.2
      refine ⟨final, ?_⟩
      intro image isShown
      rcases List.mem_append.1 isShown with now | rest
      · unfold shownBy at now
        split at now
        · rename_i picture renders
          obtain rfl := List.mem_singleton.1 now
          exact shows image renders
        · cases now
      · exact later image rest

/-- If the number literals of all commands are finite, so are the numbers in all values of all images
that are reached, except in colors that `hsv` or `hsva` have computed. Those have been computed from
finite numbers, but no more is known of them. -/
theorem reached_values_bounded {defaults : Defaults} {commands : List Command} {node : Image}
    (finite : ∀ command ∈ commands, ∀ x ∈ command.literals, isFinite x = true)
    (reached : Reached defaults commands node) :
    ∀ value ∈ node.settings ((start defaults).run commands).store, value.Bounded := by
  obtain ⟨bounded, shown⟩ := (bounded_start defaults).run finite
  have nodeBounded : node.Bounded := by
    cases reached with
    | named bound within => exact (bounded.names _ _ bound).part within
    | shown isShown within => exact (shown _ isShown).part within
  exact nodeBounded.settings bounded.store

/-- A sum with a hue, which is given a position later. -/
theorem sum_with_hue_bounded :
    let commands : List Command :=
      [.line "n = noise(8) + hsv(0.5, 1, 2)", .line "n.position = [-3, 1 / 3]"]
    let session := (start .standard).run commands
    (∀ command ∈ commands, ∀ x ∈ command.literals, isFinite x = true) ∧
    ∃ sum, session.names.get? "n" = some sum ∧
      sum.value? session.store "position" = some (.point (-3) (1 / 3)) ∧
      ∀ value ∈ sum.settings session.store, value.Bounded := by
  intro commands session
  have finite : ∀ command ∈ commands, ∀ x ∈ command.literals, isFinite x = true := by
    decide +kernel
  obtain ⟨sum, bound, placed⟩ : ∃ sum, session.names.get? "n" = some sum ∧
      sum.value? session.store "position" = some (.point (-3) (1 / 3)) := by
    refine ⟨.merger (.stored 2) .blend (.generator (.stored 0) .noise ⟨8, 8⟩)
      (.generator (.stored 1) .color ⟨1, 1⟩), ?_, ?_⟩ <;> decide +kernel
  exact ⟨finite, sum, bound, placed,
    reached_values_bounded finite (.named bound sum.self_mem_parts)⟩

/-- A hue whose saturation and value are finite. One of its channels is minus two times the value. -/
def largeHue : List Char := "hsv(0.5, 3, 1".toList ++ List.replicate 308 '0' ++ [')']

theorem large_hue_trimmed : Text.trim (String.ofList largeHue) = String.ofList largeHue := by
  have kept : Text.trimList largeHue = largeHue := by decide +kernel
  rw [Text.trim, String.toList_ofList, kept]

/-- Whether the expression describes an image with a setting that is not finite. -/
def describesInfinite (expression : Expr) : Bool :=
  (expression.describe [] .standard).toOption.any fun image =>
    (image.settings #[]).any fun value => value.floats.any fun x => !isFinite x

theorem large_hue_read : ∃ expression, parse (String.ofList largeHue) = .ok expression ∧
    (∀ x ∈ expression.literals, isFinite x = true) ∧ describesInfinite expression = true := by
  -- The kernel takes long to go through a string, so it reads the characters instead.
  have read : ((Expr.readChars largeHue).toOption.any fun expression =>
      decide (∀ x ∈ expression.literals, isFinite x = true) && describesInfinite expression) =
        true := by
    decide +kernel
  obtain ⟨expression, isRead, checked⟩ := (Option.any_eq_true _ _).1 read
  rw [Bool.and_eq_true, decide_eq_true_eq] at checked
  exact ⟨expression, Expr.parse_of_chars isRead, checked⟩

/-- The channels of a hue are not examined, so they can be infinite although all literals are finite. -/
theorem hue_overflows :
    let command : Command := .assign "x" (String.ofList largeHue)
    (∀ x ∈ command.literals, isFinite x = true) ∧
    ∃ node, Reached .standard [command] node ∧
      ∃ value ∈ node.settings ((start .standard).run [command]).store, ¬ value.IsFinite := by
  intro command
  obtain ⟨expression, parsed, finite, infinite⟩ := large_hue_read
  obtain ⟨image, described, infinite⟩ := (Option.any_eq_true _ _).1 infinite
  have compiled : (start .standard).compile (String.ofList largeHue) = .ok image :=
    (compile_parsed parsed).trans (ok_of_option described)
  have sides : command.sides? = some ("x", String.ofList largeHue) := by
    rw [Command.sides?, large_hue_trimmed]
    rfl
  have begun : (String.ofList largeHue).isEmpty = false := by
    have charsBegun : (String.ofList largeHue).toList ≠ [] := by
      rw [String.toList_ofList]
      exact List.append_ne_nil_of_right_ne_nil _ (List.cons_ne_nil ')' [])
    simpa [String.isEmpty_iff] using charsBegun
  have stepped : (start .standard).run [command] = (start .standard).register "x" image := by
    rw [run, List.foldl_cons, step_of_named sides (by decide) begun, named_ok compiled]
    rfl
  have literals := Command.literals_parsed (Command.text_of_sides sides) parsed
  let node := (image.settle #[]).1
  have bound : ((start .standard).run [command]).names.get? "x" = some node := by
    rw [stepped, get_register, if_pos rfl]
    rfl
  have kept : node.settings ((start .standard).run [command]).store = image.settings #[] := by
    rw [stepped]
    exact image.settings_settled #[]
  obtain ⟨value, member, infinite⟩ := List.any_eq_true.1 infinite
  obtain ⟨x, isChannel, infinite⟩ := List.any_eq_true.1 infinite
  refine ⟨literals ▸ finite, node, .named bound node.self_mem_parts, value, ?_, ?_⟩
  · rw [kept]
    exact member
  intro isFinite
  rw [isFinite x isChannel] at infinite
  cases infinite

end Session

end ImageGraph
