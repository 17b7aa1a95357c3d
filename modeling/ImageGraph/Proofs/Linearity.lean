import ImageGraph.Proofs.Allocation
import ImageGraph.Proofs.Entries
import Mathlib.Algebra.Order.Group.Multiset

/-!
Linearity. Evaluation keeps account of handles: each that an identifier has given and each of a new
node is made use of once, as an input of a new node or in the result. This is kept by every part of
the evaluation, and parts in a row keep it together. So a new node is found at one place of what has
been built, and what was there before is found where it was named.
-/

set_option autoImplicit false

namespace ImageGraph

/-- Every node is made from nodes that were there before it. -/
def Heap.Grounded (heap : Heap) : Prop :=
  ∀ (address : Address) node, heap[address]? = some node → ∀ below ∈ node.inputs, below < address

/-- The account between two heaps: the handles that were held and those of the new nodes are the
inputs of the new nodes and the handles that are held now. -/
structure Ledger (heap : Heap) (held : Multiset Address) (after : Heap) (kept : Multiset Address) :
    Prop where
  balanced : ∃ new : List Node, after = heap ++ new ∧
    (new.flatMap Node.inputs : Multiset Address) + kept =
      held + (List.range' heap.length new.length : Multiset Address)
  grounded : (∀ address ∈ held, address < heap.length) → heap.Grounded → after.Grounded

namespace Ledger

variable {heap between after : Heap} {held kept last more : Multiset Address}

theorem refl (heap : Heap) (held : Multiset Address) : Ledger heap held heap held where
  balanced := ⟨[], by simp⟩
  grounded := fun _ grounded => grounded

theorem kept_lt (ledger : Ledger heap held after kept)
    (below : ∀ address ∈ held, address < heap.length) : ∀ address ∈ kept, address < after.length := by
  obtain ⟨new, rfl, balanced⟩ := ledger.balanced
  intro address member
  have within : address ∈ held + (List.range' heap.length new.length : Multiset Address) := by
    rw [← balanced]
    exact Multiset.mem_add.2 (.inr member)
  rw [List.length_append]
  rcases Multiset.mem_add.1 within with old | isNew
  · exact Nat.lt_add_right _ (below address old)
  · exact (List.mem_range'_1.1 (Multiset.mem_coe.1 isNew)).2

theorem trans (first : Ledger heap held between kept) (second : Ledger between kept after last) :
    Ledger heap held after last where
  balanced := by
    obtain ⟨new, rfl, balanced⟩ := first.balanced
    obtain ⟨newer, rfl, balancedBehind⟩ := second.balanced
    refine ⟨new ++ newer, List.append_assoc heap new newer, ?_⟩
    rw [List.length_append] at balancedBehind
    rw [List.flatMap_append, List.length_append, ← List.range'_append_1, ← Multiset.coe_add,
      ← Multiset.coe_add, add_assoc, balancedBehind, ← add_assoc, balanced, add_assoc]
  grounded := fun below grounded =>
    second.grounded (first.kept_lt below) (first.grounded below grounded)

theorem frame (ledger : Ledger heap held after kept) (more : Multiset Address) :
    Ledger heap (more + held) after (more + kept) where
  balanced := by
    obtain ⟨new, isAfter, balanced⟩ := ledger.balanced
    refine ⟨new, isAfter, ?_⟩
    rw [add_left_comm, balanced, add_assoc]
  grounded := fun below =>
    ledger.grounded fun address member => below address (Multiset.mem_add.2 (.inr member))

end Ledger

def Raw.handles : Raw → Multiset Address
  | node address => {address}
  | _ => 0

/-- The handles of the identifiers that are bound, from left to right. -/
def Expr.handles (names : Registry) (expression : Expr) : List Address :=
  (expression.bindings names).filterMap Image.address?

theorem Expr.handles_of_operands (names : Registry) {expression : Expr}
    (unnamed : expression.name? = none) :
    expression.handles names = expression.operands.flatMap (handles names) := by
  rw [handles, bindings_of_operands unnamed, List.filterMap_flatMap]
  rfl

theorem Expr.handles_of_identifier (names : Registry) (name : String) (span : Span) :
    (Expr.identifier name span).handles names = (names.handle? name).toList := by
  rw [handles, bindings_of_identifier, Registry.handle?]
  cases names.get? name with
  | none => rfl
  | some image => cases stored : image.address? <;> simp [stored]

namespace Allocation

/-- Whenever the action succeeds, it has accounted for what was held. -/
def Accounts {Result : Type} (action : Allocation Result) (held : Multiset Address)
    (kept : Result → Multiset Address) : Prop :=
  ∀ heap result after, action heap = .ok (result, after) → Ledger heap held after (kept result)

namespace Accounts

variable {Result Further : Type} {action : Allocation Result}
  {next : Result → Allocation Further} {held : Multiset Address}
  {kept : Result → Multiset Address} {last : Further → Multiset Address}

theorem ended {result : Result} (same : held = kept result) :
    Accounts (pure result) held kept := by
  intro heap other after isEnded
  cases isEnded
  rw [same]
  exact .refl heap _

theorem failed (error : Error) : Accounts (throw error : Allocation Result) held kept := by
  intro heap result after isEnded
  cases isEnded

theorem lift (computed : Except Error Result) :
    Accounts (liftM computed : Allocation Result) held fun _ => held := by
  intro heap result after ended
  cases computed with
  | ok value =>
      cases ended
      exact .refl heap held
  | error error => cases ended

theorem bind (first : Accounts action held kept)
    (behind : ∀ result, Accounts (next result) (kept result) last) :
    Accounts (action >>= next) held last := by
  intro heap result after ended
  obtain ⟨⟨value, between⟩, before, goesOn⟩ := bind_eq_ok ended
  exact (first heap value between before).trans (behind value between result after goesOn)

theorem frame (accounts : Accounts action held kept) (more : Multiset Address) :
    Accounts action (more + held) fun result => more + kept result :=
  fun heap result after ended => (accounts heap result after ended).frame more

theorem allocate (node : Node) :
    Accounts (Allocation.allocate node) (node.inputs : Multiset Address) fun address => {address} := by
  intro heap address after isEnded
  cases isEnded
  refine ⟨⟨[node], rfl, ?_⟩, ?_⟩
  · simp
  · intro below grounded other present isNode input isInput
    have bound := (List.getElem?_eq_some_iff.1 isNode).1
    rw [List.length_append, List.length_singleton] at bound
    rcases Nat.lt_or_eq_of_le (Nat.le_of_lt_succ bound) with old | rfl
    · rw [List.getElem?_append_left old] at isNode
      exact grounded other present isNode input isInput
    · rw [List.getElem?_concat_length] at isNode
      cases isNode
      exact below input (Multiset.mem_coe.2 isInput)

theorem frame_right (accounts : Accounts action held kept) (more : Multiset Address) :
    Accounts action (held + more) fun result => kept result + more := by
  have framed := accounts.frame more
  simp only [add_comm more] at framed
  exact framed

theorem as_number (complaint : Found → Complaint) (raw : Raw) :
    Accounts (asNumber complaint raw) raw.handles fun _ => 0 := by
  cases raw with
  | number value => exact .ended rfl
  | _ =>
      intro heap result after ended
      cases ended

theorem to_node (defaults : Defaults) (raw : Raw) :
    Accounts (toNode defaults raw) raw.handles fun address => {address} := by
  have color (shade : Color) :
      Accounts (Allocation.allocate (.ofColor defaults shade)) 0 fun address => {address} :=
    .allocate (.ofColor defaults shade)
  cases raw with
  | node address => exact .ended rfl
  | color shade => exact color shade
  | number level => exact color (.gray level)
  | numbers items =>
      match items with
      | [level, alpha] => exact color (.grayAlpha level alpha)
      | [red, green, blue] => exact color (.opaqueOf red green blue)
      | [red, green, blue, alpha] => exact color ⟨red, green, blue, alpha⟩
      | [] | [_] | _ :: _ :: _ :: _ :: _ :: _ =>
          intro heap result after ended
          cases ended

theorem built {action : Allocation Address}
    (accounts : Accounts action held fun address => {address}) :
    Accounts (do pure (Raw.node (← action)) : Allocation Raw) held Raw.handles :=
  .bind accounts fun _ => .ended rfl

theorem combine (defaults : Defaults) (operator : Operator) (first second : Raw) :
    Accounts (applyOperator.combine defaults operator first second) (first.handles + second.handles)
      Raw.handles := by
  refine .bind ((to_node defaults first).frame_right second.handles) ?_
  intro firstNode
  refine .bind ((to_node defaults second).frame {firstNode}) ?_
  intro secondNode
  have inputs : ((Node.ofOperator operator firstNode secondNode).inputs : Multiset Address) =
      {firstNode} + {secondNode} := by
    cases operator <;> rfl
  rw [← inputs]
  exact built (.allocate _)

theorem operator_applied (defaults : Defaults) (operator : Operator) (first second : Raw) :
    Accounts (applyOperator defaults operator first second) (first.handles + second.handles)
      Raw.handles := by
  have combines := combine defaults operator first second
  unfold applyOperator
  cases first with
  | number a =>
      cases second with
      | number b =>
          cases computed : operator.arithmetic? a b with
          | none =>
              simp only [Raw.number?, computed]
              exact combines
          | some result =>
              simp only [Raw.number?, computed]
              split
              · exact .failed _
              · exact .bind (.lift _) fun number => .ended rfl
      | _ => exact combines
  | _ => exact combines

variable {names : Registry} {defaults : Defaults}

/-- Every handle that an expression mentions is accounted for. -/
abbrev Evaluated (names : Registry) (defaults : Defaults) (expression : Expr) : Prop :=
  Accounts (evaluate names defaults expression) (expression.handles names) Raw.handles

theorem numbers {items : List Expr} (complaint : Found → Complaint)
    (each : ∀ item ∈ items, Evaluated names defaults item) :
    Accounts (evaluateNumbers names defaults complaint items) (items.flatMap (Expr.handles names))
      fun _ => 0 := by
  induction items with
  | nil => exact .ended rfl
  | cons item items induction =>
      rw [List.forall_mem_cons] at each
      rw [evaluateNumbers, List.flatMap_cons, ← Multiset.coe_add]
      refine .bind (each.1.frame_right _) ?_
      intro raw
      refine .bind ((as_number complaint raw).frame_right _) ?_
      intro number
      rw [zero_add]
      exact .bind (induction each.2) fun numbers => .ended rfl

theorem nodes {arguments : List Expr}
    (each : ∀ argument ∈ arguments, Evaluated names defaults argument) :
    Accounts (evaluateNodes names defaults arguments) (arguments.flatMap (Expr.handles names))
      fun nodes => nodes := by
  induction arguments with
  | nil => exact .ended rfl
  | cons argument arguments induction =>
      rw [List.forall_mem_cons] at each
      rw [evaluateNodes, List.flatMap_cons, ← Multiset.coe_add]
      refine .bind (each.1.frame_right _) ?_
      intro raw
      refine .bind ((to_node defaults raw).frame_right _) ?_
      intro node
      refine .bind ((induction each.2).frame {node}) ?_
      intro nodes
      exact .ended rfl

theorem resolution (source : Generator) {argument : Expr}
    (argumentEvaluated : Evaluated names defaults argument) :
    Accounts (match writtenResolution? names defaults argument with
        | some written => liftM written
        | none => do computedResolution source (← evaluate names defaults argument))
      (argument.handles names) fun _ => 0 := by
  cases isWritten : writtenResolution? names defaults argument with
  | some written =>
      rw [Expr.handles, Expr.bindings_of_written isWritten]
      exact .lift written
  | none =>
      refine .bind argumentEvaluated ?_
      intro side
      exact .bind (as_number _ side) fun number => .lift _

theorem image {kind : Kind} {arguments : List Expr}
    (each : ∀ argument ∈ arguments, Evaluated names defaults argument) :
    Accounts
      (do
        let inputs ← evaluateNodes names defaults arguments
        pure (Raw.node (← Allocation.allocate (.fresh kind none inputs))) : Allocation Raw)
      (arguments.flatMap (Expr.handles names)) Raw.handles :=
  .bind (nodes each) fun inputs => built (.allocate (.fresh kind none inputs))

theorem call {function : String} {arguments : List Expr} {span : Span}
    (each : ∀ argument ∈ arguments, Evaluated names defaults argument) :
    Evaluated names defaults (.call function arguments span) := by
  unfold Evaluated
  rw [Expr.handles_of_operands names rfl, Expr.operands, evaluate]
  cases Constructor.named? function with
  | none =>
      cases MathFunction.named? function with
      | none => exact .failed _
      | some math =>
          simp only
          split
          · refine .bind (numbers _ each) ?_
            intro results
            cases math.value? results with
            | none => exact .failed _
            | some result => exact .bind (.lift _) fun number => .ended rfl
          · exact .failed _
  | some constructor =>
      simp only
      split
      · rename_i accepted
        rcases constructor with kind | color
        · -- A generator has one argument, which need not have a value of its own.
          rcases kind with source | filter | merger | collage
          · obtain ⟨argument, rfl⟩ := List.length_eq_one_iff.1 (eq_of_beq accepted)
            rw [List.flatMap_singleton]
            refine .bind (resolution source (each argument List.mem_cons_self)) ?_
            intro size
            exact built (.allocate _)
          · exact image each
          · exact image each
          · exact image each
        · refine .bind (numbers _ each) ?_
          intro channels
          cases color.shade? channels with
          | none => exact .failed _
          | some shade => exact .ended rfl
      · exact .failed _

/-- Evaluation accounts for the handles of all identifiers. -/
theorem evaluated (names : Registry) (defaults : Defaults) (expression : Expr) :
    Evaluated names defaults expression := by
  induction expression using Expr.by_operands with
  | number value span => exact .ended rfl
  | identifier name span =>
      unfold Evaluated
      rw [Expr.handles_of_identifier, evaluate]
      cases names.handle? name with
      | some address => exact .ended rfl
      | none =>
          simp only
          split
          · exact .ended rfl
          · exact .failed _
  | resolution width height span => exact .failed _
  | array items span each =>
      unfold Evaluated
      rw [Expr.handles_of_operands names rfl, Expr.operands, evaluate]
      exact .bind (numbers _ each) fun results => .ended rfl
  | call function arguments span each => exact call each
  | negation operand span evaluated =>
      unfold Evaluated
      rw [Expr.handles_of_operands names rfl, Expr.operands, List.flatMap_singleton, evaluate]
      refine .bind evaluated ?_
      intro raw
      exact .bind (as_number _ raw) fun number => .ended rfl
  | binary operator first second span left right =>
      unfold Evaluated
      rw [Expr.handles_of_operands names rfl, Expr.operands, List.flatMap_cons,
        List.flatMap_singleton, ← Multiset.coe_add, evaluate]
      refine .bind (left.frame_right _) ?_
      intro firstRaw
      refine .bind (right.frame _) ?_
      intro secondRaw
      exact operator_applied defaults operator firstRaw secondRaw

theorem compiled {text : String} {expression : Expr} (parsed : parse text = .ok expression) :
    Accounts (compile names defaults text) (expression.handles names) fun root => {root} := by
  have same : compile names defaults text =
      evaluate names defaults expression >>= toNode defaults := by
    unfold compile
    rw [parsed]
    rfl
  rw [same]
  exact .bind (evaluated names defaults expression) fun raw => to_node defaults raw

end Accounts

end Allocation

end ImageGraph
