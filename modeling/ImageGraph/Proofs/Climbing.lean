import ImageGraph.Proofs.Building
import ImageGraph.Proofs.Precedence

/-!
The loop over binding powers builds the tree of a chain. What it has built so far always has tight
minus signs and admitted joins, it binds tighter than the power that was asked for, and the operator
in front of which the loop stops admits it on its left.
-/

set_option autoImplicit false

namespace ImageGraph

def Operator.power (operator : Operator) : Nat := 10 * (operator.tier + 1)

namespace Expr

theorem Rule.binding_symbol (operator : Operator) :
    (Rule.symbol operator).binding? =
      some (if operator.groupsRight then .right else .left, operator.power) := by
  rcases operator with mode | _
  · cases mode <;> rfl
  · rfl

theorem Rule.binding_minus : Rule.minus.binding? = some (.sign, 60) := rfl

theorem power_le (operator : Operator) : operator.power ≤ 50 := by
  rcases operator with mode | _
  · cases mode <;> decide
  · decide

namespace Item

/-- The symbol of a chain that an item shows. -/
inductive Shows : Item → Symbol → Prop where
  | minus {item : Item} (isMinus : item.pair.rule = .minus) :
      Shows item (.minus item.pair.span.start)
  | primary {item : Item} {value : Expr} (isOperand : item.pair.rule.binding? = none)
      (built : item.operand = pure value) : Shows item (.primary value)
  | operator {item : Item} {operator : Operator} (isSymbol : item.pair.rule = .symbol operator)
      (isText : item.pair.text = operator.symbol) : Shows item (.operator operator)

def Climbs (power : Nat) (items : List Item) (value : Except Misfit Expr) (rest : List Item) :
    Prop :=
  ∃ shorter, climb power items = some (value, ⟨rest, shorter⟩)

def Extends (power : Nat) (first : Except Misfit Expr) (items : List Item)
    (value : Except Misfit Expr) (rest : List Item) : Prop :=
  ∃ atMost, extend power first items = some (value, ⟨rest, atMost⟩)

section Loop

variable {power own : Nat} {item : Item} {items rest behind last : List Item}
  {first second operand whole : Except Misfit Expr}

theorem Climbs.of_sign (binding : item.pair.rule.binding? = some (.sign, own))
    (inner : Climbs (own - 1) rest operand behind)
    (outer : Extends power (item.sign operand) behind whole last) :
    Climbs power (item :: rest) whole last := by
  obtain ⟨shorter, climbed⟩ := inner
  obtain ⟨atMost, extended⟩ := outer
  refine ⟨by simp only [List.length_cons]; omega, ?_⟩
  simp [climb, binding, climbed, extended]

theorem Climbs.of_operand (isOperand : item.pair.rule.binding? = none)
    (built : item.operand.run = some operand) (outer : Extends power operand rest whole last) :
    Climbs power (item :: rest) whole last := by
  obtain ⟨atMost, extended⟩ := outer
  refine ⟨by simp only [List.length_cons]; omega, ?_⟩
  simp [climb, isOperand, built, extended]

theorem Extends.nil : Extends power first [] first [] :=
  ⟨Nat.le_refl _, by rw [extend]⟩

theorem Extends.stop {affix : Affix} (binding : item.pair.rule.binding? = some (affix, own))
    (looser : own ≤ power) : Extends power first (item :: rest) first (item :: rest) := by
  refine ⟨Nat.le_refl _, ?_⟩
  simp [extend, binding, Nat.not_lt.2 looser]

theorem Extends.of_left (binding : item.pair.rule.binding? = some (.left, own))
    (tighter : power < own) (inner : Climbs own rest second behind)
    (outer : Extends power (item.join first second) behind whole last) :
    Extends power first (item :: rest) whole last := by
  obtain ⟨shorter, climbed⟩ := inner
  obtain ⟨atMost, extended⟩ := outer
  refine ⟨by simp only [List.length_cons]; omega, ?_⟩
  simp [extend, binding, tighter, climbed, extended]

theorem Extends.of_right (binding : item.pair.rule.binding? = some (.right, own))
    (tighter : power < own) (inner : Climbs (own - 1) rest second behind)
    (outer : Extends power (item.join first second) behind whole last) :
    Extends power first (item :: rest) whole last := by
  obtain ⟨shorter, climbed⟩ := inner
  obtain ⟨atMost, extended⟩ := outer
  refine ⟨by simp only [List.length_cons]; omega, ?_⟩
  simp [extend, binding, tighter, climbed, extended]

end Loop

variable {items : List Item} {links : List (Operator × Operand)}

/-- The loop stops in front of operators that bind no tighter. -/
theorem stops_before (shows : List.Forall₂ Shows items (linkSymbols links)) {power : Nat}
    (looser : ∀ link, links.head? = some link → link.1.power ≤ power)
    (first : Except Misfit Expr) : Extends power first items first items := by
  cases links with
  | nil =>
      cases shows
      exact .nil
  | cons link links =>
      cases shows with
      | cons shown others =>
          cases shown with
          | operator isSymbol isText =>
              have binding := Rule.binding_symbol link.1
              rw [← isSymbol] at binding
              exact .stop binding (looser link rfl)

/-- An operand is taken with all its minus signs, which bind tighter than every operator. -/
theorem climbs_operand {operand : Operand}
    (shows : List.Forall₂ Shows items (operand.symbols ++ linkSymbols links)) :
    ∃ rest, List.Forall₂ Shows rest (linkSymbols links) ∧ rest.length < items.length ∧
      ∀ power value last,
        Extends power (.ok (Grouping.operand operand).tree.expr) rest value last →
          Climbs power items value last := by
  obtain ⟨minuses, primary⟩ := operand
  induction minuses generalizing items with
  | nil =>
      cases shows with
      | cons shown others =>
          cases shown with
          | primary isOperand built =>
              refine ⟨_, others, Nat.lt_succ_self _, ?_⟩
              intro power value last extends'
              exact .of_operand isOperand (congrArg ExceptT.run built) extends'
  | cons start minuses induction =>
      cases shows with
      | cons shown others =>
          cases shown with
          | minus isMinus =>
              obtain ⟨rest, behind, shorter, climbs⟩ := induction others
              have binding := Rule.binding_minus
              rw [← isMinus] at binding
              have looser : ∀ link, links.head? = some link → link.1.power ≤ 60 - 1 :=
                fun link _ => Nat.le_trans (power_le link.1) (by decide)
              refine ⟨rest, behind, Nat.lt_succ_of_lt shorter, ?_⟩
              intro power value last extends'
              exact .of_sign binding (climbs _ _ _ (stops_before behind looser _)) extends'

/-- What the loop over a power makes of a tree with links behind it: another tree that takes the
first of them, and the links that are left. -/
structure Grown (power : Nat) (tree : Tree) (links : List (Operator × Operand)) (whole : Tree)
    (left : List (Operator × Operand)) : Prop where
  symbols : whole.symbols ++ linkSymbols left = tree.symbols ++ linkSymbols links
  fewer : left.length ≤ links.length
  signs : whole.SignsTight
  tiered : whole.Tiered
  tight : ∀ below, whole.operator? = some below → power < below.power ∨ tree.operator? = some below
  loose : ∀ link, left.head? = some link → link.1.power ≤ power

/-- The power that an operator asks for on its right. -/
def rightPower (operator : Operator) : Nat :=
  if operator.groupsRight then operator.power - 1 else operator.power

theorem admits_right_of_power {operator below : Operator}
    (tighter : rightPower operator < below.power) : operator.AdmitsRight below := by
  unfold rightPower Operator.power at tighter
  by_cases same : operator.tier = below.tier
  · refine .inr ⟨same, ?_⟩
    rw [← Operator.groups_right_of_tier same]
    by_contra groupsLeft
    rw [if_neg groupsLeft] at tighter
    omega
  · refine .inl ?_
    split at tighter <;> omega

theorem admits_left_of_power {operator next : Operator}
    (looser : next.power ≤ rightPower operator) : next.AdmitsLeft operator := by
  unfold rightPower Operator.power at looser
  by_cases same : next.tier = operator.tier
  · refine .inr ⟨same, ?_⟩
    rw [Bool.eq_false_iff]
    intro groupsRight
    rw [if_pos groupsRight] at looser
    omega
  · refine .inl ?_
    split at looser <;> omega

theorem join_expr {item : Item} {operator : Operator} (isText : item.pair.text = operator.symbol)
    (left right : Tree) :
    item.join (.ok left.expr) (.ok right.expr) = .ok (Tree.join operator left right).expr := by
  rw [Tree.expr, join, isText]
  simp only [Operator.of_symbol]
  rfl

theorem Extends.of_operator {item : Item} {operator : Operator} {power : Nat}
    {rest behind last : List Item} {first second value : Except Misfit Expr}
    (isSymbol : item.pair.rule = .symbol operator) (tighter : power < operator.power)
    (inner : Climbs (rightPower operator) rest second behind)
    (outer : Extends power (item.join first second) behind value last) :
    Extends power first (item :: rest) value last := by
  have binding := Rule.binding_symbol operator
  rw [← isSymbol] at binding
  unfold rightPower at inner
  split at inner
  · rename_i groupsRight
    rw [if_pos groupsRight] at binding
    exact .of_right binding tighter inner outer
  · rename_i groupsLeft
    rw [if_neg groupsLeft] at binding
    exact .of_left binding tighter inner outer

theorem Grown.stay {power : Nat} {tree : Tree} (signs : tree.SignsTight) (tiered : tree.Tiered)
    (loose : ∀ link, links.head? = some link → link.1.power ≤ power) :
    Grown power tree links tree links where
  symbols := rfl
  fewer := Nat.le_refl _
  signs := signs
  tiered := tiered
  tight := fun _ isBelow => .inr isBelow
  loose := loose

/-- A join with what its operator takes on its right, and then whatever follows it. -/
theorem Grown.join {power : Nat} {operator : Operator} {operand : Operand} {tree right whole : Tree}
    {between left : List (Operator × Operand)} (tighter : power < operator.power)
    (inner : Grown (rightPower operator) (Grouping.operand operand).tree links right between)
    (outer : Grown power (.join operator tree right) between whole left) :
    Grown power tree ((operator, operand) :: links) whole left where
  symbols := by
    have own := (Grouping.operand operand).tree_symbols
    have behind := inner.symbols
    rw [own] at behind
    rw [outer.symbols, Tree.symbols, List.append_assoc, List.cons_append, behind]
    simp [linkSymbols, Grouping.chain, Chain.symbols]
  fewer := Nat.le_trans outer.fewer (Nat.le_succ_of_le inner.fewer)
  signs := outer.signs
  tiered := outer.tiered
  tight := by
    intro below isBelow
    rcases outer.tight below isBelow with tight | isJoin
    · exact .inl tight
    · cases isJoin
      exact .inl tighter
  loose := outer.loose

/-- The first of the links may take the tree on its left. -/
def Admitted (tree : Tree) (links : List (Operator × Operand)) : Prop :=
  ∀ link, links.head? = some link → ∀ below, tree.operator? = some below → link.1.AdmitsLeft below

theorem admitted_operand (operand : Operand) (links : List (Operator × Operand)) :
    Admitted (Grouping.operand operand).tree links := by
  intro link _ below isBelow
  cases (Grouping.operand_tree operand).2.1.symm.trans isBelow

/-- The loop goes on behind a tree with as many of the links as bind tighter. -/
def Grows (power : Nat) (tree : Tree) (links : List (Operator × Operand)) (items : List Item) :
    Prop :=
  ∃ whole left rest, Extends power (.ok tree.expr) items (.ok whole.expr) rest ∧
    List.Forall₂ Shows rest (linkSymbols left) ∧ Grown power tree links whole left

def GrowsWithin (count : Nat) : Prop :=
  ∀ power tree links items, links.length ≤ count → List.Forall₂ Shows items (linkSymbols links) →
    tree.SignsTight → tree.Tiered → Admitted tree links → Grows power tree links items

theorem Grows.stay {power : Nat} {tree : Tree} (shows : List.Forall₂ Shows items (linkSymbols links))
    (signs : tree.SignsTight) (tiered : tree.Tiered)
    (loose : ∀ link, links.head? = some link → link.1.power ≤ power) :
    Grows power tree links items :=
  ⟨tree, links, items, stops_before shows loose _, shows, .stay signs tiered loose⟩

/-- An operator that binds tighter is joined with what the loop takes behind its operand, and the loop
goes on behind the join. -/
theorem Grows.join {count power : Nat} {tree : Tree} {operator : Operator} {operand : Operand}
    {item : Item} (within : GrowsWithin count) (short : links.length ≤ count)
    (tighter : power < operator.power) (isSymbol : item.pair.rule = .symbol operator)
    (isText : item.pair.text = operator.symbol)
    (shows : List.Forall₂ Shows items (operand.symbols ++ linkSymbols links))
    (signs : tree.SignsTight) (tiered : tree.Tiered)
    (admitted : ∀ below, tree.operator? = some below → operator.AdmitsLeft below) :
    Grows power tree ((operator, operand) :: links) (item :: items) := by
  obtain ⟨noJoin, operandTiered⟩ := (Grouping.operand_tree operand).2
  obtain ⟨rest, behind, shorter, climbs⟩ := climbs_operand shows
  obtain ⟨right, between, last, inner, shown, grown⟩ :=
    within (rightPower operator) _ _ _ short behind (Grouping.tree_signs (.operand operand))
      operandTiered (admitted_operand operand links)
  have rightAdmits : ∀ below, right.operator? = some below → operator.AdmitsRight below := by
    intro below isBelow
    rcases grown.tight below isBelow with tight | isJoin
    · exact admits_right_of_power tight
    · cases noJoin.symm.trans isJoin
  have joinSigns : (Tree.join operator tree right).SignsTight := ⟨signs, grown.signs⟩
  have joinTiered : (Tree.join operator tree right).Tiered :=
    ⟨admitted, rightAdmits, tiered, grown.tiered⟩
  have nextAdmits : Admitted (.join operator tree right) between := by
    intro link isNext below isBelow
    cases isBelow
    exact admits_left_of_power (grown.loose link isNext)
  obtain ⟨whole, left, final, outer, shownLeft, grownLeft⟩ :=
    within power _ _ _ (Nat.le_trans grown.fewer short) shown joinSigns joinTiered nextAdmits
  refine ⟨whole, left, final, ?_, shownLeft, .join tighter grown grownLeft⟩
  rw [← join_expr isText] at outer
  exact .of_operator isSymbol tighter (climbs _ _ _ inner) outer

theorem grows_within (count : Nat) : GrowsWithin count := by
  -- The right side of a join takes some links by itself, so the induction is on how many there are.
  induction count with
  | zero =>
      intro power tree links items short shows signs tiered admitted
      obtain rfl := List.length_eq_zero_iff.1 (Nat.le_zero.1 short)
      exact .stay shows signs tiered (by simp)
  | succ count induction =>
      intro power tree links items short shows signs tiered admitted
      cases links with
      | nil => exact .stay shows signs tiered (by simp)
      | cons link links =>
          obtain ⟨operator, operand⟩ := link
          by_cases tighter : power < operator.power
          · cases shows with
            | cons shown others =>
                cases shown with
                | operator isSymbol isText =>
                    exact .join induction (Nat.le_of_succ_le_succ short) tighter isSymbol isText
                      others signs tiered (admitted _ rfl)
          · apply Grows.stay shows signs tiered
            intro link isFirst
            cases isFirst
            exact Nat.le_of_not_lt tighter

/-- The items of a chain are built into the tree that the chain has to be read as. -/
theorem whole_of_chain {chain : Chain Operand} (shows : List.Forall₂ Shows items chain.symbols) :
    ∃ tree : Tree, whole items = pure tree.expr ∧ tree.Groups chain := by
  have tiered := (Grouping.operand_tree chain.first).2.2
  obtain ⟨rest, behind, shorter, climbs⟩ := climbs_operand shows
  obtain ⟨tree, left, last, outer, -, grown⟩ :=
    grows_within chain.rest.length 0 _ _ _ (Nat.le_refl _) behind
      (Grouping.tree_signs (.operand chain.first)) tiered (admitted_operand chain.first chain.rest)
  obtain ⟨atMost, climbed⟩ := climbs _ _ _ outer
  refine ⟨tree, ?_, ?_, grown.signs, grown.tiered⟩
  · rw [whole, climbed]
    rfl
  · -- No operator binds as loosely as the power that the loop begins with.
    have none : left = [] := by
      cases left with
      | nil => rfl
      | cons link left =>
          have positive : 0 < link.1.power := Nat.mul_pos (by decide) (Nat.succ_pos _)
          exact absurd (grown.loose link rfl) (Nat.not_le.2 positive)
    have symbols := grown.symbols
    have own := (Grouping.operand chain.first).tree_symbols
    rw [none, own] at symbols
    simpa [linkSymbols, Grouping.chain, Chain.symbols] using symbols

end Item

end Expr

end ImageGraph
