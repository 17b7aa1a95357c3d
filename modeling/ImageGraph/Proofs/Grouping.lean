import ImageGraph.Expr.Chain
import Mathlib.Data.List.Induction

/-!
The grouping of a chain. Read from left to right it is the chain again, and it is tiered: what stands
beside an operator binds tighter, or as tightly on the side to which the tier groups. A chain has only
one tiered grouping, so these two facts say which one it is, however it is built.
-/

set_option autoImplicit false

namespace ImageGraph

namespace Operator

/-- A join that may be the left operand of an operator. -/
def AdmitsLeft (operator left : Operator) : Prop :=
  operator.tier < left.tier ∨ operator.tier = left.tier ∧ left.groupsRight = false

/-- A join that may be the right operand of an operator. -/
def AdmitsRight (operator right : Operator) : Prop :=
  operator.tier < right.tier ∨ operator.tier = right.tier ∧ right.groupsRight = true

theorem groups_right_of_tier {operator other : Operator} (same : operator.tier = other.tier) :
    operator.groupsRight = other.groupsRight := by
  rw [groupsRight, groupsRight, same]

/-- An operator that is not admitted on the right of another takes it on its own left. -/
theorem admits_right_iff (operator right : Operator) :
    operator.AdmitsRight right ↔ ¬right.AdmitsLeft operator := by
  unfold AdmitsRight AdmitsLeft
  rcases Nat.lt_trichotomy operator.tier right.tier with below | same | above
  · omega
  · rw [groups_right_of_tier same]
    simp [same]
  · omega

theorem AdmitsRight.trans_left {operator right further : Operator}
    (admits : operator.AdmitsRight right) (deeper : right.AdmitsLeft further) :
    operator.AdmitsRight further := by
  rcases deeper with tighter | ⟨same, _⟩
  · exact .inl (by rcases admits with below | ⟨same, _⟩ <;> omega)
  · unfold AdmitsRight
    rwa [← same, ← groups_right_of_tier same]

theorem AdmitsRight.trans {operator right further : Operator}
    (admits : operator.AdmitsRight right) (deeper : right.AdmitsRight further) :
    operator.AdmitsRight further := by
  rcases deeper with tighter | ⟨same, _⟩
  · exact .inl (by rcases admits with below | ⟨same, _⟩ <;> omega)
  · unfold AdmitsRight
    rwa [← same, ← groups_right_of_tier same]

end Operator

namespace Expr

variable {Operand : Type}

namespace Chain

def append (left : Chain Operand) (operator : Operator) (right : Chain Operand) : Chain Operand :=
  ⟨left.first, left.rest ++ (operator, right.first) :: right.rest⟩

def extend (chain : Chain Operand) (operator : Operator) (next : Operand) : Chain Operand :=
  chain.append operator ⟨next, []⟩

theorem append_extend (left right : Chain Operand) (operator further : Operator)
    (next : Operand) :
    (left.append operator right).extend further next =
      left.append operator (right.extend further next) := by
  simp [append, extend]

theorem grouping_extend (chain : Chain Operand) (operator : Operator) (next : Operand) :
    (chain.extend operator next).grouping = chain.grouping.attach operator next := by
  simp [grouping, extend, append]

/-- What holds of a single operand and is kept by one more operator and operand holds of every
chain. -/
theorem by_extension {property : Chain Operand → Prop} (single : ∀ only, property ⟨only, []⟩)
    (extended : ∀ chain operator next, property chain → property (chain.extend operator next))
    (chain : Chain Operand) : property chain := by
  obtain ⟨first, rest⟩ := chain
  induction rest using List.reverseRecOn with
  | nil => exact single first
  | append_singleton rest link induction => exact extended ⟨first, rest⟩ link.1 link.2 induction

end Chain

namespace Grouping

def chain : Grouping Operand → Chain Operand
  | operand only => ⟨only, []⟩
  | join operator left right => left.chain.append operator right.chain

def operator? : Grouping Operand → Option Operator
  | operand _ => none
  | join operator _ _ => some operator

/-- Every join stands where the operator above it admits it. -/
def Tiered : Grouping Operand → Prop
  | operand _ => True
  | join operator left right =>
      (∀ below, left.operator? = some below → operator.AdmitsLeft below) ∧
        (∀ below, right.operator? = some below → operator.AdmitsRight below) ∧
        left.Tiered ∧ right.Tiered

theorem takes_iff (operator left : Operator) :
    takes operator left = true ↔ operator.AdmitsLeft left := by
  simp [takes, Operator.AdmitsLeft]

theorem chain_attach (grouping : Grouping Operand) (operator : Operator) (next : Operand) :
    (grouping.attach operator next).chain = grouping.chain.extend operator next := by
  induction grouping with
  | operand last => rfl
  | join upper left right _ induction =>
      rw [attach]
      split
      · rfl
      · rw [chain, induction, chain, Chain.append_extend]

theorem chain_grouping (chain : Chain Operand) : chain.grouping.chain = chain := by
  induction chain using Chain.by_extension with
  | single only => rfl
  | extended chain operator next induction =>
      rw [Chain.grouping_extend, chain_attach, induction]

theorem operator_attach (grouping : Grouping Operand) (operator : Operator) (next : Operand) :
    (grouping.attach operator next).operator? = some operator ∨
      (grouping.attach operator next).operator? = grouping.operator? := by
  cases grouping with
  | operand last => exact .inl rfl
  | join upper left right =>
      rw [attach]
      split
      · exact .inl rfl
      · exact .inr rfl

theorem tiered_attach {grouping : Grouping Operand} (tiered : grouping.Tiered)
    (operator : Operator) (next : Operand) : (grouping.attach operator next).Tiered := by
  induction grouping with
  | operand last => simp [attach, Tiered, operator?]
  | join upper left right _ induction =>
      rcases tiered with ⟨leftAdmitted, rightAdmitted, leftTiered, rightTiered⟩
      rw [attach]
      split
      · rename_i takes
        have admitted := (takes_iff operator upper).1 takes
        refine ⟨?_, by simp [operator?], ?_, trivial⟩
        · intro below isUpper
          cases isUpper
          exact admitted
        · exact ⟨leftAdmitted, rightAdmitted, leftTiered, rightTiered⟩
      · rename_i passes
        have admitted : upper.AdmitsRight operator := by
          rw [Operator.admits_right_iff, ← takes_iff]
          exact passes
        refine ⟨leftAdmitted, ?_, leftTiered, induction rightTiered⟩
        intro below isBelow
        rcases operator_attach right operator next with new | old
        · cases new.symm.trans isBelow
          exact admitted
        · exact rightAdmitted below (old.symm.trans isBelow)

theorem tiered_grouping (chain : Chain Operand) : chain.grouping.Tiered := by
  induction chain using Chain.by_extension with
  | single only => trivial
  | extended chain operator next induction =>
      rw [Chain.grouping_extend]
      exact tiered_attach induction operator next

theorem Tiered.admits_all {grouping : Grouping Operand} (tiered : grouping.Tiered)
    {operator : Operator}
    (admits : ∀ below, grouping.operator? = some below → operator.AdmitsRight below) :
    ∀ link ∈ grouping.chain.rest, operator.AdmitsRight link.1 := by
  induction grouping with
  | operand only => simp [chain]
  | join upper left right leftInduction rightInduction =>
      rcases tiered with ⟨leftAdmitted, rightAdmitted, leftTiered, rightTiered⟩
      have here := admits upper rfl
      have inLeft := leftInduction leftTiered fun below isBelow =>
        here.trans_left (leftAdmitted below isBelow)
      have inRight := rightInduction rightTiered fun below isBelow =>
        here.trans (rightAdmitted below isBelow)
      intro link member
      simp only [chain, Chain.append, List.mem_append, List.mem_cons] at member
      rcases member with early | rfl | late
      · exact inLeft link early
      · exact here
      · exact inRight link late

theorem attach_all (upper : Operator) (left right : Grouping Operand)
    (links : List (Operator × Operand)) (admits : ∀ link ∈ links, upper.AdmitsRight link.1) :
    links.foldl (fun tree link => tree.attach link.1 link.2) (join upper left right) =
      join upper left (links.foldl (fun tree link => tree.attach link.1 link.2) right) := by
  induction links generalizing right with
  | nil => rfl
  | cons link links induction =>
      have passes : ¬takes link.1 upper = true := by
        rw [takes_iff, ← Operator.admits_right_iff]
        exact admits link List.mem_cons_self
      rw [List.foldl_cons, attach, if_neg passes, List.foldl_cons]
      exact induction _ fun other member => admits other (List.mem_cons_of_mem _ member)

/-- A tiered grouping is the one that its chain is given. -/
theorem Tiered.eq_grouping {grouping : Grouping Operand} (tiered : grouping.Tiered) :
    grouping.chain.grouping = grouping := by
  induction grouping with
  | operand only => rfl
  | join operator left right leftInduction rightInduction =>
      rcases tiered with ⟨leftAdmitted, rightAdmitted, leftTiered, rightTiered⟩
      have attached : left.attach operator right.chain.first =
          join operator left (.operand right.chain.first) := by
        cases left with
        | operand last => rfl
        | join upper _ _ => exact if_pos ((takes_iff _ _).2 (leftAdmitted upper rfl))
      calc (join operator left right).chain.grouping
          = right.chain.rest.foldl (fun tree link => tree.attach link.1 link.2)
              (left.chain.grouping.attach operator right.chain.first) := by
            simp [chain, Chain.append, Chain.grouping]
        _ = right.chain.rest.foldl (fun tree link => tree.attach link.1 link.2)
              (join operator left (.operand right.chain.first)) := by
            rw [leftInduction leftTiered, attached]
        _ = join operator left right.chain.grouping :=
            attach_all operator left _ _ (rightTiered.admits_all rightAdmitted)
        _ = join operator left right := by rw [rightInduction rightTiered]

end Grouping

end Expr

end ImageGraph
