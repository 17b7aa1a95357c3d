import ImageGraph.Proofs.Evaluation
import Mathlib.Data.List.Forall2

/-!
Allocation. Whatever evaluation builds is a node of its own from that moment on, and values hold
nodes by their handles only. Two places that hold the same handle share the node. Here evaluation is
told with handles, and it makes what the description of images says: the same error, or a node from
which the described image can be read off.
-/

set_option autoImplicit false

namespace ImageGraph

/-- A node, with handles of the nodes that it is made from. -/
structure Node where
  kind : Kind
  resolution? : Option Resolution
  inputs : List Address
  settings : Settings

/-- All nodes that there are. A node is never moved, so its place is its handle. -/
abbrev Heap := List Node

/-- Evaluation under way: it may build nodes, and it may fail. -/
abbrev Allocation (Result : Type) := StateT Heap (Except Error) Result

namespace Node

def fresh (kind : Kind) (resolution : Option Resolution) (inputs : List Address) : Node :=
  ⟨kind, resolution, inputs, Settings.initial kind.properties⟩

def withValue (node : Node) (property : String) (value : Property.Value) : Node :=
  { node with settings := Settings.put node.kind.properties node.settings property value }

def ofColor (defaults : Defaults) (shade : Color) : Node :=
  (fresh (.generator .color) (some defaults.constant) []).withValue "color" (.color shade)

def ofOperator (operator : Operator) (first second : Address) : Node :=
  let node := match operator with
    | .blend mode =>
        (fresh (.merger .blend) none [first, second]).withValue "mode" (.choice mode.name)
    | .displace => (fresh (.merger .displace) none [first, second]).withValue "distance" (.float 1)
  (node.withValue "placement" (.choice "aspectFill")).withValue "extend" (.choice "hold")

end Node

/-- The kind of a node. Handles are those of nodes, so it does not matter what is said elsewhere. -/
def Heap.kind (heap : Heap) (address : Address) : Kind :=
  match heap[address]? with
  | some node => node.kind
  | none => .generator .color

def Registry.handle? (names : Registry) (name : String) : Option Address :=
  (names.get? name).bind Image.address?

/-- A value in which an image is a handle. -/
inductive Raw where
  | number (value : Float)
  | numbers (items : List Float)
  | color (shade : Color)
  | node (address : Address)

namespace Raw

def found (heap : Heap) : Raw → Found
  | number value => .number value
  | numbers items => .numbers items.length
  | color shade => .color shade
  | node address => .image (heap.kind address)

def number? : Raw → Option Float
  | number value => some value
  | _ => none

/-- A color or a node for a value. -/
def coerce : Raw → Except Error (Color ⊕ Address)
  | node address => .ok (.inr address)
  | color shade => .ok (.inl shade)
  | number level => .ok (.inl (.gray level))
  | numbers [level, alpha] => .ok (.inl (.grayAlpha level alpha))
  | numbers [red, green, blue] => .ok (.inl (.opaqueOf red green blue))
  | numbers [red, green, blue, alpha] => .ok (.inl ⟨red, green, blue, alpha⟩)
  | numbers items => .error (.notAnImage (.numbers items.length))

end Raw

namespace Allocation

def allocate (node : Node) : Allocation Address := fun heap => .ok (heap.length, heap ++ [node])

/-- A node is taken as it is, and a color is wrapped in a new one. -/
def toNode (defaults : Defaults) (raw : Raw) : Allocation Address := do
  match ← raw.coerce with
  | .inl shade => allocate (.ofColor defaults shade)
  | .inr address => pure address

def asNumber (complaint : Found → Complaint) (raw : Raw) : Allocation Float := do
  match raw.number? with
  | some number => pure number
  | none => throw (.badArgument (complaint (raw.found (← get))))

def computedResolution (source : Generator) (side : Raw) : Allocation Resolution := do
  let number ← asNumber (.resolutionArgument source) side
  liftM ((Resolution.ofSide number).mapError Error.resolution)

def applyOperator (defaults : Defaults) (operator : Operator) (first second : Raw) :
    Allocation Raw :=
  match first.number?, second.number? with
  | some a, some b =>
      match operator.arithmetic? a b with
      | some result =>
          if operator = .blend .divide ∧ b == 0 then throw .divisionByZero
          else do pure (.number (← finite result))
      | none => combine
  | _, _ => combine
where
  combine : Allocation Raw := do
    let first ← toNode defaults first
    let second ← toNode defaults second
    pure (.node (← allocate (.ofOperator operator first second)))

mutual

/-- Evaluate an expression. Arguments come from the first to the last, each is made a node or a
number before the next one is evaluated, and the node of a call is built behind those of its
arguments. -/
def evaluate (names : Registry) (defaults : Defaults) : Expr → Allocation Raw
  | .number value _ => pure (.number value)
  | .identifier name _ =>
      match names.handle? name with
      | some address => pure (.node address)
      | none => if name = "pi" then pure (.number pi) else throw (.imageNotFound name)
  | .resolution width height _ => throw (.misplacedResolution width height)
  | .array items _ => do pure (.numbers (← evaluateNumbers names defaults .arrayItem items))
  | .call function arguments _ =>
      match Constructor.named? function with
      | some constructor =>
          if constructor.arity.accepts arguments.length then
            match constructor, arguments with
            | .color color, arguments => do
                let channels ← evaluateNumbers names defaults (.colorArgument color) arguments
                match color.shade? channels with
                | some shade => pure (.color shade)
                | none => throw (.argumentCount color.name color.arity channels.length)
            | .image (.generator source), argument :: _ => do
                let resolution ← (match writtenResolution? names defaults argument with
                  | some written => liftM written
                  | none => do computedResolution source (← evaluate names defaults argument))
                pure (.node (← allocate (.fresh (.generator source) (some resolution) [])))
            | .image kind, arguments => do
                let inputs ← evaluateNodes names defaults arguments
                pure (.node (← allocate (.fresh kind none inputs)))
          else throw (.argumentCount constructor.name constructor.arity arguments.length)
      | none =>
          match MathFunction.named? function with
          | none => throw (Scope.unknownFunction (.graph names defaults) function)
          | some math =>
              if math.arity.accepts arguments.length then do
                let numbers ← evaluateNumbers names defaults (.mathArgument function) arguments
                match math.value? numbers with
                | some result => do pure (.number (← finite result))
                | none => throw (.argumentCount function math.arity numbers.length)
              else throw (.argumentCount function math.arity arguments.length)
  | .negation operand _ => do
      let number ← asNumber .negated (← evaluate names defaults operand)
      pure (.number (-number))
  | .binary operator first second _ => do
      let first ← evaluate names defaults first
      let second ← evaluate names defaults second
      applyOperator defaults operator first second

def evaluateNumbers (names : Registry) (defaults : Defaults) (complaint : Found → Complaint) :
    List Expr → Allocation (List Float)
  | [] => pure []
  | first :: others => do
      let number ← asNumber complaint (← evaluate names defaults first)
      let numbers ← evaluateNumbers names defaults complaint others
      pure (number :: numbers)

def evaluateNodes (names : Registry) (defaults : Defaults) : List Expr → Allocation (List Address)
  | [] => pure []
  | first :: others => do
      let node ← toNode defaults (← evaluate names defaults first)
      let nodes ← evaluateNodes names defaults others
      pure (node :: nodes)

end

def compile (names : Registry) (defaults : Defaults) (text : String) : Allocation Address := do
  toNode defaults (← evaluate names defaults (← parse text))

end Allocation

/-- The image can be read off the node at an address: nodes below the limit were there before, and
those from the limit on are new and have their own settings. -/
inductive Heap.Shows (heap : Heap) (limit : Address) : Address → Image → Prop where
  | node {address : Address} {node : Node} {image : Image} (isNode : heap[address]? = some node)
      (kind : image.kind = node.kind) (resolution : image.resolution? = node.resolution?)
      (home : image.home = if address < limit then .stored address else .loose node.settings)
      (count : node.inputs.length = image.inputs.length)
      (inputs : ∀ below input, (below, input) ∈ node.inputs.zip image.inputs →
        Shows heap limit below input) : Shows heap limit address image

namespace Heap

variable {heap after : Heap} {limit address : Address} {image : Image}

theorem kept {node : Node} (isNode : heap[address]? = some node) (grows : heap <+: after) :
    after[address]? = some node := by
  obtain ⟨new, rfl⟩ := grows
  rw [List.getElem?_append_left (List.getElem?_eq_some_iff.1 isNode).1, isNode]

theorem Shows.grow (shows : heap.Shows limit address image) (grows : heap <+: after) :
    after.Shows limit address image := by
  induction shows with
  | node isNode kind resolution home count inputs induction =>
      exact .node (kept isNode grows) kind resolution home count induction

end Heap

/-- A value with handles stands for a value with images. -/
inductive Raw.Shows (heap : Heap) (limit : Address) : Raw → Value → Prop where
  | number (value : Float) : Shows heap limit (.number value) (.number value)
  | numbers (items : List Float) : Shows heap limit (.numbers items) (.numbers items)
  | color (shade : Color) : Shows heap limit (.color shade) (.color shade)
  | node {address : Address} {image : Image} (shows : heap.Shows limit address image) :
      Shows heap limit (.node address) (.image image)

/-- Every name has the handle of a node that shows its image. -/
def Heap.Holds (heap : Heap) (limit : Address) (names : Registry) : Prop :=
  ∀ name image, names.get? name = some image →
    ∃ address, names.handle? name = some address ∧ heap.Shows limit address image

theorem Heap.Holds.grow {heap after : Heap} {limit : Address} {names : Registry}
    (holds : heap.Holds limit names) (grows : heap <+: after) : after.Holds limit names := by
  intro name image bound
  obtain ⟨address, isHandle, shows⟩ := holds name image bound
  exact ⟨address, isHandle, shows.grow grows⟩

theorem Raw.Shows.grow {heap after : Heap} {limit : Address} {raw : Raw} {value : Value}
    (shows : raw.Shows heap limit value) (grows : heap <+: after) : raw.Shows after limit value := by
  cases shows with
  | number value => exact .number value
  | numbers items => exact .numbers items
  | color shade => exact .color shade
  | node shows => exact .node (shows.grow grows)

/-- The two ways of evaluating come to the same: both fail with the same error, or both succeed, no
node is lost, and the results are related in the heap that is left behind. -/
inductive Refines {First Second : Type} (related : Heap → Second → First → Prop) (heap : Heap) :
    Except Error First → Except Error (Second × Heap) → Prop where
  | ok {described : First} {result : Second} {after : Heap} (grows : heap <+: after)
      (holds : related after result described) :
      Refines related heap (.ok described) (.ok (result, after))
  | error (error : Error) : Refines related heap (.error error) (.error error)

namespace Refines

variable {First Second Third Fourth : Type} {related : Heap → Second → First → Prop}
  {further : Heap → Fourth → Third → Prop} {heap after : Heap}

theorem pure {described : First} {result : Second} (holds : related heap result described) :
    Refines related heap (.ok described) ((Pure.pure result : Allocation Second) heap) :=
  .ok (List.prefix_refl heap) holds

theorem throw (error : Error) :
    Refines related heap (.error error) ((MonadExcept.throw error : Allocation Second) heap) :=
  .error error

theorem lift (computed : Except Error First) :
    Refines (fun _ result value => result = value) heap computed
      ((liftM computed : Allocation First) heap) := by
  cases computed with
  | ok value => exact .ok (List.prefix_refl heap) rfl
  | error error => exact .error error

theorem widen {described : Except Error First} {ended : Except Error (Second × Heap)}
    (refines : Refines related after described ended) (grows : heap <+: after) :
    Refines related heap described ended := by
  cases refines with
  | ok further holds => exact .ok (grows.trans further) holds
  | error error => exact .error error

theorem bind {described : Except Error First} {action : Allocation Second}
    {next : First → Except Error Third} {goesOn : Second → Allocation Fourth}
    (before : Refines related heap described (action heap))
    (behind : ∀ value result after, heap <+: after → related after result value →
      Refines further after (next value) (goesOn result after)) :
    Refines further heap (described >>= next) ((action >>= goesOn) heap) := by
  change Refines further heap (described >>= next)
    (action heap >>= fun ended => goesOn ended.1 ended.2)
  generalize action heap = ended at before ⊢
  cases before with
  | ok grows holds => exact (behind _ _ _ grows holds).widen grows
  | error error => exact .error error

/-- What has no handles in it is the same on both sides. -/
theorem bind_same {computed : Except Error First} {action : Allocation First}
    {next : First → Except Error Third} {goesOn : First → Allocation Fourth}
    (before : Refines (fun _ result value => result = value) heap computed (action heap))
    (behind : ∀ value after, heap <+: after →
      Refines further after (next value) (goesOn value after)) :
    Refines further heap (computed >>= next) ((action >>= goesOn) heap) := by
  apply before.bind
  intro value result after grows same
  rw [same]
  exact behind value after grows

end Refines

namespace Allocation

variable {names : Registry} {defaults : Defaults} {heap : Heap} {limit : Address} {raw : Raw}
  {value : Value}

theorem number_of_shows (shows : raw.Shows heap limit value) : raw.number? = value.number? := by
  cases shows <;> rfl

theorem found_of_shows (shows : raw.Shows heap limit value) : raw.found heap = value.found := by
  cases shows with
  | node shows =>
      cases shows with
      | node isNode kind =>
          rw [Raw.found, Heap.kind, isNode, Value.found, kind]
  | _ => rfl

theorem allocate_refines {node : Node} {image : Image} (above : limit ≤ heap.length)
    (kind : image.kind = node.kind) (resolution : image.resolution? = node.resolution?)
    (home : image.home = .loose node.settings)
    (inputs : List.Forall₂ (heap.Shows limit) node.inputs image.inputs) :
    Refines (fun after address image => after.Shows limit address image) heap (.ok image)
      (allocate node heap) := by
  have grows : heap <+: heap ++ [node] := List.prefix_append heap [node]
  have isNew : ¬heap.length < limit := Nat.not_lt.2 above
  obtain ⟨count, each⟩ := List.forall₂_iff_zip.1 inputs
  refine .ok grows (.node List.getElem?_concat_length kind resolution ?_ count ?_)
  · rw [if_neg isNew, home]
  · intro below input member
    exact (each member).grow grows

theorem color_refines (above : limit ≤ heap.length) (shade : Color) :
    Refines (fun after address image => after.Shows limit address image) heap
      (.ok (.ofColor defaults shade)) (allocate (.ofColor defaults shade) heap) :=
  allocate_refines above rfl rfl rfl .nil

theorem to_node_refines (above : limit ≤ heap.length) (shows : raw.Shows heap limit value) :
    Refines (fun after address image => after.Shows limit address image) heap
      (value.toImage defaults) (toNode defaults raw heap) := by
  cases shows with
  | node shows => exact .pure shows
  | color shade => exact color_refines above shade
  | number level => exact color_refines above (.gray level)
  | numbers items =>
      match items with
      | [level, alpha] => exact color_refines above (.grayAlpha level alpha)
      | [red, green, blue] => exact color_refines above (.opaqueOf red green blue)
      | [red, green, blue, alpha] => exact color_refines above ⟨red, green, blue, alpha⟩
      | [] | [_] | _ :: _ :: _ :: _ :: _ :: _ => exact .error _

theorem as_number_refines (complaint : Found → Complaint) (shows : raw.Shows heap limit value) :
    Refines (fun _ result number => result = number) heap (value.asNumber complaint)
      (asNumber complaint raw heap) := by
  unfold Value.asNumber asNumber
  rw [number_of_shows shows, ← found_of_shows shows]
  cases value.number? with
  | some number => exact .pure rfl
  | none => exact .throw _

theorem node_refines {image : Image} {action : Allocation Address}
    (built : Refines (fun after address image => after.Shows limit address image) heap (.ok image)
      (action heap)) :
    Refines (fun after raw value => raw.Shows after limit value) heap (.ok (.image image))
      ((do pure (Raw.node (← action)) : Allocation Raw) heap) := by
  have goesOn : Refines (fun after raw value => raw.Shows after limit value) heap
      ((Except.ok image : Except Error Image) >>= fun image => .ok (.image image))
      ((do pure (Raw.node (← action)) : Allocation Raw) heap) := by
    refine .bind built ?_
    intro image node after _ shows
    exact .pure (.node shows)
  exact goesOn

theorem combine_refines (above : limit ≤ heap.length) (operator : Operator) {other : Raw}
    {second : Value} (shows : raw.Shows heap limit value) (showsOther : other.Shows heap limit second)
    (names : Registry) :
    Refines (fun after raw value => raw.Shows after limit value) heap
      (ImageGraph.applyOperator.combine (.graph names defaults) operator value second)
      (applyOperator.combine defaults operator raw other heap) := by
  refine .bind (to_node_refines above shows) ?_
  intro firstImage firstNode between growsFirst showsFirst
  have aboveBetween := Nat.le_trans above growsFirst.length_le
  refine .bind (to_node_refines aboveBetween (showsOther.grow growsFirst)) ?_
  intro secondImage secondNode after growsSecond showsSecond
  have aboveAfter := Nat.le_trans aboveBetween growsSecond.length_le
  have inputs : List.Forall₂ (Heap.Shows after limit) [firstNode, secondNode]
      [firstImage, secondImage] :=
    .cons (showsFirst.grow growsSecond) (.cons showsSecond .nil)
  have built : Refines (fun after address image => after.Shows limit address image) after
      (.ok (operator.combine firstImage secondImage))
      (allocate (.ofOperator operator firstNode secondNode) after) := by
    cases operator <;> exact allocate_refines aboveAfter rfl rfl rfl inputs
  exact node_refines built

/-- Evaluating an expression with handles comes to the same as describing its value. -/
def Evaluates (names : Registry) (defaults : Defaults) (limit : Address) (expression : Expr) :
    Prop :=
  ∀ heap : Heap, limit ≤ heap.length → heap.Holds limit names →
    Refines (fun after raw value => raw.Shows after limit value) heap
      (ImageGraph.evaluate (.graph names defaults) expression)
      (evaluate names defaults expression heap)

theorem numbers_refine (complaint : Found → Complaint) {items : List Expr}
    (each : ∀ item ∈ items, Evaluates names defaults limit item) (above : limit ≤ heap.length)
    (holds : heap.Holds limit names) :
    Refines (fun _ result numbers => result = numbers) heap
      (ImageGraph.evaluateNumbers (.graph names defaults) complaint items)
      (evaluateNumbers names defaults complaint items heap) := by
  induction items generalizing heap with
  | nil => exact .pure rfl
  | cons item items induction =>
      rw [List.forall_mem_cons] at each
      rw [ImageGraph.evaluateNumbers, evaluateNumbers]
      refine .bind (each.1 heap above holds) ?_
      intro value raw between grows shows
      refine .bind_same (as_number_refines complaint shows) ?_
      intro number after growsOn
      have grown := grows.trans growsOn
      refine .bind_same (induction each.2 (Nat.le_trans above grown.length_le) (holds.grow grown)) ?_
      intro numbers last _
      exact .pure rfl

theorem nodes_refine {arguments : List Expr}
    (each : ∀ argument ∈ arguments, Evaluates names defaults limit argument)
    (above : limit ≤ heap.length) (holds : heap.Holds limit names) :
    Refines (fun after nodes images =>
        images.length = arguments.length ∧ List.Forall₂ (Heap.Shows after limit) nodes images) heap
      (evaluateImages (.graph names defaults) defaults arguments)
      (evaluateNodes names defaults arguments heap) := by
  induction arguments generalizing heap with
  | nil => exact .pure ⟨rfl, .nil⟩
  | cons argument arguments induction =>
      rw [List.forall_mem_cons] at each
      rw [evaluateImages, evaluateNodes]
      refine .bind (each.1 heap above holds) ?_
      intro value raw between grows shows
      have aboveBetween := Nat.le_trans above grows.length_le
      refine .bind (to_node_refines aboveBetween shows) ?_
      intro image node after growsOn showsImage
      have grown := grows.trans growsOn
      refine .bind (induction each.2 (Nat.le_trans above grown.length_le) (holds.grow grown)) ?_
      intro images nodes last growsLast others
      exact .pure ⟨congrArg Nat.succ others.1, .cons (showsImage.grow growsLast) others.2⟩

theorem finite_refines (result : Float) :
    Refines (fun after raw value => raw.Shows after limit value) heap
      ((finite result).map .number)
      ((do pure (Raw.number (← finite result)) : Allocation Raw) heap) := by
  cases finite result with
  | ok number => exact .pure (.number number)
  | error error => exact .throw error

theorem resolution_refines (source : Generator) {argument : Expr}
    (evaluates : Evaluates names defaults limit argument) (above : limit ≤ heap.length)
    (holds : heap.Holds limit names) :
    Refines (fun _ result resolution => result = resolution) heap
      (resolutionOf names defaults source argument)
      ((match writtenResolution? names defaults argument with
        | some written => liftM written
        | none => do computedResolution source (← evaluate names defaults argument)) heap) := by
  unfold resolutionOf
  cases writtenResolution? names defaults argument with
  | some written => exact .lift written
  | none =>
      refine .bind (evaluates heap above holds) ?_
      intro value raw after grows shows
      refine .bind_same (as_number_refines _ shows) ?_
      intro number last _
      exact .lift _

theorem effect_refines {kind : Kind} {arguments : List Expr}
    (effect : ∀ source, kind ≠ .generator source)
    (accepted : kind.arity.accepts arguments.length = true)
    (each : ∀ argument ∈ arguments, Evaluates names defaults limit argument)
    (above : limit ≤ heap.length) (holds : heap.Holds limit names) :
    Refines (fun after raw value => raw.Shows after limit value) heap
      (do
        let images ← evaluateImages (.graph names defaults) defaults arguments
        match Image.ofKind? kind none images with
        | some image => pure (.image image)
        | none => .error (.argumentCount kind.name kind.arity images.length))
      ((do
        let inputs ← evaluateNodes names defaults arguments
        pure (Raw.node (← allocate (.fresh kind none inputs))) : Allocation Raw) heap) := by
  refine .bind (nodes_refine each above holds) ?_
  intro images nodes after grows built
  obtain ⟨count, shows⟩ := built
  rw [← count] at accepted
  obtain ⟨image, made, isKind, inputs, home⟩ := Image.of_kind_effect effect accepted
  have resolution : image.resolution? = none := by
    cases image with
    | generator home source resolution => exact absurd isKind.symm (effect source)
    | _ => rfl
  rw [← inputs] at shows
  rw [made]
  exact node_refines
    (allocate_refines (Nat.le_trans above grows.length_le) isKind resolution home shows)

theorem math_refines {function : String} {arguments : List Expr} {span : Span}
    (plain : Constructor.named? function = none)
    (each : ∀ argument ∈ arguments, Evaluates names defaults limit argument)
    (above : limit ≤ heap.length) (holds : heap.Holds limit names) :
    Refines (fun after raw value => raw.Shows after limit value) heap
      (ImageGraph.evaluate (.graph names defaults) (.call function arguments span))
      (evaluate names defaults (.call function arguments span) heap) := by
  rw [evaluate]
  simp only [plain]
  cases named : MathFunction.named? function with
  | none =>
      rw [evaluate_unknown plain named]
      exact .throw _
  | some math =>
      cases accepted : math.arity.accepts arguments.length with
      | false =>
          rw [evaluate_math_wrong_count plain named accepted]
          simp only [accepted]
          exact .throw _
      | true =>
          rw [evaluate_math plain named accepted]
          simp only [accepted, if_true]
          refine .bind_same (numbers_refine _ each above holds) ?_
          intro numbers after _
          cases math.value? numbers with
          | none => exact .throw _
          | some result => exact finite_refines result

theorem call_evaluates {function : String} {arguments : List Expr} {span : Span}
    (each : ∀ argument ∈ arguments, Evaluates names defaults limit argument) :
    Evaluates names defaults limit (.call function arguments span) := by
  intro heap above holds
  cases found : Constructor.named? function with
  | none => exact math_refines found each above holds
  | some constructor =>
      rw [evaluate]
      simp only [found]
      cases accepted : constructor.arity.accepts arguments.length with
      | false =>
          rw [evaluate_wrong_count found accepted]
          exact .throw _
      | true =>
          simp only [if_true]
          rcases constructor with kind | color
          · rcases kind with source | filter | merger | collage
            · obtain ⟨argument, rfl⟩ := List.length_eq_one_iff.1 (eq_of_beq accepted)
              rw [evaluate_generator argument found]
              have argumentEvaluates := each argument List.mem_cons_self
              refine .bind_same (resolution_refines source argumentEvaluates above holds) ?_
              intro resolution after grows
              exact node_refines
                (allocate_refines (Nat.le_trans above grows.length_le) rfl rfl rfl .nil)
            · rw [evaluate_effect found (by simp) accepted]
              exact effect_refines (by simp) accepted each above holds
            · rw [evaluate_effect found (by simp) accepted]
              exact effect_refines (by simp) accepted each above holds
            · rw [evaluate_effect found (by simp) accepted]
              exact effect_refines (by simp) accepted each above holds
          · rw [evaluate_color found accepted]
            refine .bind_same (numbers_refine _ each above holds) ?_
            intro channels after _
            cases color.shade? channels with
            | none => exact .throw _
            | some shade => exact .pure (.color shade)

theorem binary_evaluates {operator : Operator} {first second : Expr} {span : Span}
    (left : Evaluates names defaults limit first) (right : Evaluates names defaults limit second) :
    Evaluates names defaults limit (.binary operator first second span) := by
  intro heap above holds
  rw [ImageGraph.evaluate, evaluate]
  refine .bind (left heap above holds) ?_
  intro firstValue firstRaw between grows showsFirst
  have aboveBetween := Nat.le_trans above grows.length_le
  refine .bind (right between aboveBetween (holds.grow grows)) ?_
  intro secondValue secondRaw after growsOn showsSecond
  have aboveAfter := Nat.le_trans aboveBetween growsOn.length_le
  have combines : Refines (fun after raw value => raw.Shows after limit value) after
      (ImageGraph.applyOperator.combine (.graph names defaults) operator firstValue secondValue)
      (applyOperator.combine defaults operator firstRaw secondRaw after) :=
    combine_refines aboveAfter operator (showsFirst.grow growsOn) showsSecond names
  unfold ImageGraph.applyOperator applyOperator
  rw [number_of_shows showsFirst, number_of_shows showsSecond]
  cases firstValue.number? with
  | none => exact combines
  | some a =>
      cases secondValue.number? with
      | none => exact combines
      | some b =>
          cases computed : operator.arithmetic? a b with
          | none =>
              simp only [computed]
              exact combines
          | some result =>
              simp only [computed]
              by_cases zero : operator = .blend .divide ∧ (b == 0) = true
              · rw [if_pos zero, if_pos zero]
                exact .throw _
              · rw [if_neg zero, if_neg zero]
                exact finite_refines result

theorem evaluates (names : Registry) (defaults : Defaults) (limit : Address) (expression : Expr) :
    Evaluates names defaults limit expression := by
  induction expression using Expr.by_operands with
  | number value span => exact fun heap _ _ => .pure (.number value)
  | identifier name span =>
      intro heap above holds
      rw [ImageGraph.evaluate, evaluate, Scope.lookup]
      cases bound : names.get? name with
      | some image =>
          obtain ⟨address, isHandle, shows⟩ := holds name image bound
          rw [isHandle]
          exact .pure (.node shows)
      | none =>
          have unbound : names.handle? name = none := by rw [Registry.handle?, bound]; rfl
          rw [unbound]
          by_cases isPi : name = "pi"
          · simp only [if_pos isPi]
            exact .pure (.number pi)
          · simp only [if_neg isPi]
            exact .throw _
  | resolution width height span => exact fun heap _ _ => .throw _
  | array items span each =>
      intro heap above holds
      rw [ImageGraph.evaluate, evaluate]
      refine .bind_same (numbers_refine _ each above holds) ?_
      intro numbers after _
      exact .pure (.numbers numbers)
  | call function arguments span each => exact call_evaluates each
  | negation operand span evaluates =>
      intro heap above holds
      rw [ImageGraph.evaluate, evaluate]
      refine .bind (evaluates heap above holds) ?_
      intro value raw between _ shows
      refine .bind_same (as_number_refines _ shows) ?_
      intro number after _
      exact .pure (.number (-number))
  | binary operator first second span left right => exact binary_evaluates left right

/-- Compiling with handles fails with the error of compiling, or makes a node that shows the image. -/
theorem compile_refines (holds : heap.Holds heap.length names) (text : String) :
    Refines (fun after address image => after.Shows heap.length address image) heap
      (ImageGraph.compile names defaults text) (compile names defaults text heap) := by
  refine .bind_same (.lift (parse text)) ?_
  intro expression between grows
  refine .bind (evaluates names defaults heap.length _ between grows.length_le (holds.grow grows)) ?_
  intro value raw after growsOn shows
  exact to_node_refines (grows.trans growsOn).length_le shows

end Allocation

end ImageGraph
