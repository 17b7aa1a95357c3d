import ImageGraph.Expr.Reader
import ImageGraph.Proofs.Grouping

/-!
The grammar of expressions, on tokens. An expression is a chain of operands, an operand is a primary
behind any number of minus signs, and a primary is a single token or stands in brackets. The reader
follows the grammar: tokens that the grammar admits take it to the expression that the grammar gives
them, wherever they begin.
-/

set_option autoImplicit false

namespace ImageGraph.Expr

/-- A primary and the offsets of the minus signs in front of it, from left to right. -/
structure Operand where
  minuses : List Nat
  primary : Expr

def Operand.expr (operand : Operand) : Expr :=
  operand.minuses.foldr (fun start inner => inner.negate start) operand.primary

namespace Chain

def map {First Second : Type} (change : First → Second) (chain : Chain First) : Chain Second :=
  ⟨change chain.first, chain.rest.map fun link => (link.1, change link.2)⟩

theorem map_extend {First Second : Type} (change : First → Second) (chain : Chain First)
    (operator : Operator) (next : First) :
    (chain.extend operator next).map change = (chain.map change).extend operator (change next) := by
  simp [map, extend, append]

theorem of_links_cons {Operand : Type} (links : List (Operand × Operator)) (latest : Operand)
    (operator : Operator) (last : Operand) :
    ofLinks ((latest, operator) :: links) last = (ofLinks links latest).extend operator last := by
  have later (rest : List (Operator × Operand)) (links : List (Operand × Operator))
      (chain : Chain Operand) :
      links.foldl (fun chain link => ⟨link.1, (link.2, chain.first) :: chain.rest⟩)
          (⟨chain.first, chain.rest ++ rest⟩ : Chain Operand) =
        let whole := links.foldl
          (fun chain link => (⟨link.1, (link.2, chain.first) :: chain.rest⟩ : Chain Operand)) chain
        ⟨whole.first, whole.rest ++ rest⟩ := by
    induction links generalizing chain with
    | nil => rfl
    | cons link links induction => exact induction ⟨link.1, (link.2, chain.first) :: chain.rest⟩
  exact later [(operator, last)] links ⟨latest, []⟩

/-- The expression of a chain of operands, as the tiers of its operators group it. -/
def signedExpr (chain : Chain Operand) : Expr := (chain.map Operand.expr).expr

end Chain

/-- What a row of tokens is read as. -/
inductive Part where
  | primary (value : Expr)
  | operand (operand : Operand)
  | whole (chain : Chain Operand)
  | items (list : List Expr)

/-- The grammar: which tokens are which part of an expression. -/
inductive Reads : List Placed → Part → Prop where
  | atom {placed : Placed} {value : Expr}
      (isAtom : State.atom? placed.token placed.span = some value) :
      Reads [placed] (.primary value)
  | name (word : String) (span : Span) :
      Reads [⟨.word word, span⟩] (.primary (.identifier word span))
  | group {tokens : List Placed} {chain : Chain Operand} (left right : Span)
      (inside : Reads tokens (.whole chain)) :
      Reads (⟨.openParen, left⟩ :: (tokens ++ [⟨.closeParen, right⟩])) (.primary chain.signedExpr)
  | array {tokens : List Placed} {items : List Expr} (left right : Span)
      (inside : Reads tokens (.items items)) :
      Reads (⟨.openBracket, left⟩ :: (tokens ++ [⟨.closeBracket, right⟩]))
        (.primary (.array items ⟨left.start, right.stop⟩))
  | call {tokens : List Placed} {items : List Expr} (function : String) (name left right : Span)
      (inside : Reads tokens (.items items)) :
      Reads (⟨.word function, name⟩ :: ⟨.openParen, left⟩ :: (tokens ++ [⟨.closeParen, right⟩]))
        (.primary (.call function items ⟨name.start, right.stop⟩))
  | plain {tokens : List Placed} {value : Expr} (reads : Reads tokens (.primary value)) :
      Reads tokens (.operand ⟨[], value⟩)
  | minus {tokens : List Placed} {operand : Operand} (span : Span)
      (behind : Reads tokens (.operand operand)) :
      Reads (⟨.minus, span⟩ :: tokens)
        (.operand ⟨span.start :: operand.minuses, operand.primary⟩)
  | single {tokens : List Placed} {operand : Operand} (reads : Reads tokens (.operand operand)) :
      Reads tokens (.whole ⟨operand, []⟩)
  | extend {tokens more : List Placed} {chain : Chain Operand} {operand : Operand}
      (operator : Operator) (span : Span) (before : Reads tokens (.whole chain))
      (behind : Reads more (.operand operand)) :
      Reads (tokens ++ ⟨.operator operator, span⟩ :: more) (.whole (chain.extend operator operand))
  | none : Reads [] (.items [])
  | one {tokens : List Placed} {chain : Chain Operand} (reads : Reads tokens (.whole chain)) :
      Reads tokens (.items [chain.signedExpr])
  | comma {tokens more : List Placed} {first : Expr} {others : List Expr} {chain : Chain Operand}
      (span : Span) (before : Reads tokens (.items (first :: others)))
      (behind : Reads more (.whole chain)) :
      Reads (tokens ++ ⟨.comma, span⟩ :: more) (.items (first :: others ++ [chain.signedExpr]))

namespace State

/-- Tokens take a state to one behind an operand, in the same brackets. -/
def Takes (state : State) (tokens : List Placed) (meets : Level → Expr → Prop) : Prop :=
  ∃ after latest, tokens.foldlM step state = .ok after ∧ after.opened = state.opened ∧
    after.latest? = some latest ∧ meets after.level latest

/-- The innermost bracket holds a list, so commas may separate what stands in it. -/
def mayList : List Open → Bool
  | [] | ⟨.group, _, _⟩ :: _ => false
  | _ => true

variable {state middle : State} {tokens more : List Placed} {placed : Placed}

theorem fold_append (first : tokens.foldlM step state = .ok middle) :
    (tokens ++ more).foldlM step state = more.foldlM step middle := by
  rw [List.foldlM_append, first]
  rfl

theorem fold_cons (taken : state.step placed = .ok middle) :
    (placed :: tokens).foldlM step state = tokens.foldlM step middle := by
  rw [List.foldlM_cons, taken]
  rfl

theorem step_operand (awaits : state.phase = .operand)
    (taken : state.stepOperand placed = some middle) : state.step placed = .ok middle := by
  simp only [step, awaits, taken]

theorem step_operator {latest : Expr} (behind : state.latest? = some latest)
    (taken : state.stepOperator placed = some middle) : state.step placed = .ok middle := by
  unfold step
  cases phase : state.phase with
  | operand => simp [latest?, phase] at behind
  | word name span => simp only [taken]
  | operator latest => simp only [taken]

theorem step_close_paren {span : Span} (closes : state.closeParen? span.stop = some middle) :
    state.step ⟨.closeParen, span⟩ = .ok middle := by
  unfold step
  cases state.phase <;> simp only [stepOperand, stepOperator, closes]

theorem step_close_bracket {span : Span} (closes : state.closeBracket? span.stop = some middle) :
    state.step ⟨.closeBracket, span⟩ = .ok middle := by
  unfold step
  cases state.phase <;> simp only [stepOperand, stepOperator, closes]

theorem step_comma {latest : Expr} (behind : state.latest? = some latest)
    (lists : mayList state.opened = true) (span : Span) :
    state.step ⟨.comma, span⟩ =
      .ok { state with level := state.level.nextItem latest, phase := .operand } := by
  apply step_operator behind
  simp only [stepOperator, comma?]
  split
  · rename_i inGroup
    rw [inGroup] at lists
    cases lists
  · rename_i outside
    rw [outside] at lists
    cases lists
  · rw [behind, Option.map_some]

theorem step_infix {latest : Expr} (behind : state.latest? = some latest)
    (operator : Operator) (span : Span) :
    state.step ⟨.operator operator, span⟩ =
      .ok { state with level := state.level.extend latest operator, phase := .operand } := by
  apply step_operator behind
  simp only [stepOperator, behind, Option.map_some]

end State

namespace Part

/-- What reading does with tokens that are this part. -/
def Taken (tokens : List Placed) : Part → Prop
  | primary value => ∀ state : State, state.phase = .operand →
      state.Takes tokens fun level latest =>
        level = state.level ∧ latest = state.level.signed value
  | operand next => ∀ state : State, state.phase = .operand →
      state.Takes tokens fun level latest =>
        level.items = state.level.items ∧ level.links = state.level.links ∧
          latest = state.level.signed next.expr
  | whole chain => ∀ state : State, state.phase = .operand → state.level.isBegun = false →
      state.Takes tokens fun level latest =>
        level.items = state.level.items ∧
          Chain.ofLinks level.links latest = chain.map Operand.expr
  | items [] => tokens = []
  | items (first :: others) => ∀ state : State, state.phase = .operand → state.level = .fresh →
      State.mayList state.opened = true →
        state.Takes tokens fun level latest => level.allItems latest = first :: others

end Part

namespace Level

theorem chain_of_links {level : Level} {latest : Expr} {chain : Chain Operand}
    (links : Chain.ofLinks level.links latest = chain.map Operand.expr) :
    level.chain latest = chain.signedExpr := by
  rw [Level.chain, links, Chain.signedExpr]

theorem not_begun {level : Level} (unbegun : level.isBegun = false) :
    level.links = [] ∧ level.minuses = [] := by
  simpa [isBegun] using unbegun

end Level

namespace State

variable {tokens : List Placed}

/-- Behind the tokens of a list, the innermost bracket may be closed. -/
theorem closing_items {items : List Expr} (taken : (Part.items items).Taken tokens)
    (bracket : Bracket) (start : Nat) (outside : State)
    (lists : mayList (outside.enter bracket start).opened = true) :
    ∃ inside, tokens.foldlM step (outside.enter bracket start) = .ok inside ∧
      inside.opened = (outside.enter bracket start).opened ∧ inside.closing? = some items := by
  cases items with
  | nil =>
      obtain rfl : tokens = [] := taken
      exact ⟨_, rfl, rfl, rfl⟩
  | cons first others =>
      obtain ⟨inside, latest, folded, opened, behind, listed⟩ := taken _ rfl rfl lists
      refine ⟨inside, folded, opened, ?_⟩
      simp only [closing?, behind, listed]

end State

/-- The reader takes all that the grammar admits. -/
theorem Reads.taken {tokens : List Placed} {part : Part} (reads : Reads tokens part) :
    part.Taken tokens := by
  induction reads with
  | @atom placed value isAtom =>
      intro state awaits
      have taken : state.stepOperand placed = some (state.complete value) := by
        obtain ⟨token, span⟩ := placed
        cases token <;> simp_all [State.stepOperand, State.atom?]
      exact ⟨_, _, State.fold_cons (State.step_operand awaits taken), rfl, rfl, rfl, rfl⟩
  | name word span =>
      intro state awaits
      exact ⟨_, _, State.fold_cons (State.step_operand awaits rfl), rfl, rfl, rfl, rfl⟩
  | @group tokens chain left right inside taken =>
      intro state awaits
      have opens : state.step ⟨.openParen, left⟩ = .ok (state.enter .group left.start) :=
        State.step_operand awaits rfl
      obtain ⟨within, latest, folded, opened, behind, -, links⟩ :=
        taken (state.enter .group left.start) rfl rfl
      have closes : within.closeParen? right.stop =
          some (State.leave state.opened state.level chain.signedExpr) := by
        simp only [State.closeParen?, opened, State.enter, behind, Option.map_some,
          Level.chain_of_links links]
      refine ⟨State.leave state.opened state.level chain.signedExpr, _, ?_, rfl, rfl, rfl, rfl⟩
      rw [State.fold_cons opens, State.fold_append folded]
      exact State.fold_cons (State.step_close_paren closes)
  | @array tokens items left right inside taken =>
      intro state awaits
      have opens : state.step ⟨.openBracket, left⟩ = .ok (state.enter .array left.start) :=
        State.step_operand awaits rfl
      obtain ⟨within, folded, opened, closing⟩ :=
        State.closing_items taken .array left.start state rfl
      have closes : within.closeBracket? right.stop =
          some (State.leave state.opened state.level (.array items ⟨left.start, right.stop⟩)) := by
        simp only [State.closeBracket?, opened, State.enter, closing, Option.map_some]
      refine ⟨State.leave state.opened state.level (.array items ⟨left.start, right.stop⟩), _, ?_,
        rfl, rfl, rfl, rfl⟩
      rw [State.fold_cons opens, State.fold_append folded]
      exact State.fold_cons (State.step_close_bracket closes)
  | @call tokens items function name left right inside taken =>
      intro state awaits
      have named : state.step ⟨.word function, name⟩ =
          .ok { state with phase := .word function name } :=
        State.step_operand awaits rfl
      have opens : State.step { state with phase := .word function name } ⟨.openParen, left⟩ =
          .ok (state.enter (.call function) name.start) :=
        State.step_operator rfl rfl
      obtain ⟨within, folded, opened, closing⟩ :=
        State.closing_items taken (.call function) name.start state rfl
      have closes : within.closeParen? right.stop = some (State.leave state.opened state.level
          (.call function items ⟨name.start, right.stop⟩)) := by
        simp only [State.closeParen?, opened, State.enter, closing, Option.map_some]
      refine ⟨State.leave state.opened state.level
        (.call function items ⟨name.start, right.stop⟩), _, ?_, rfl, rfl, rfl, rfl⟩
      rw [State.fold_cons named, State.fold_cons opens, State.fold_append folded]
      exact State.fold_cons (State.step_close_paren closes)
  | plain reads taken =>
      intro state awaits
      obtain ⟨after, latest, folded, opened, behind, same, signed⟩ := taken state awaits
      exact ⟨after, latest, folded, opened, behind, by rw [same], by rw [same], signed⟩
  | minus span behind taken =>
      intro state awaits
      have signs : state.step ⟨.minus, span⟩ =
          .ok { state with level.minuses := span.start :: state.level.minuses } :=
        State.step_operand awaits rfl
      obtain ⟨after, latest, folded, opened, behind, items, links, signed⟩ :=
        taken { state with level.minuses := span.start :: state.level.minuses } awaits
      exact ⟨after, latest, (State.fold_cons signs).trans folded, opened, behind, items, links,
        signed⟩
  | single reads taken =>
      intro state awaits unbegun
      obtain ⟨after, latest, folded, opened, behind, items, links, signed⟩ := taken state awaits
      obtain ⟨noLinks, noMinuses⟩ := Level.not_begun unbegun
      refine ⟨after, latest, folded, opened, behind, items, ?_⟩
      rw [links, noLinks, signed, Level.signed, noMinuses]
      rfl
  | extend operator span before behind takenBefore takenBehind =>
      intro state awaits unbegun
      obtain ⟨middle, latest, folded, opened, reached, items, links⟩ :=
        takenBefore state awaits unbegun
      have joins := State.step_infix reached operator span
      obtain ⟨after, last, foldedMore, openedMore, reachedMore, itemsMore, linksMore, signed⟩ :=
        takenBehind { middle with level := middle.level.extend latest operator, phase := .operand }
          rfl
      refine ⟨after, last, ?_, openedMore.trans opened, reachedMore, itemsMore.trans items, ?_⟩
      · rw [State.fold_append folded, State.fold_cons joins, foldedMore]
      · rw [linksMore, signed]
        simp only [Level.extend, Level.signed, List.foldl_nil]
        rw [Chain.of_links_cons, links, Chain.map_extend]
  | none => rfl
  | one reads taken =>
      intro state awaits fresh _
      obtain ⟨after, latest, folded, opened, behind, items, links⟩ :=
        taken state awaits (by rw [fresh]; rfl)
      refine ⟨after, latest, folded, opened, behind, ?_⟩
      simp only [Level.allItems, items, fresh, Level.chain_of_links links]
      rfl
  | @comma tokens more first others chain span before behind takenBefore takenBehind =>
      intro state awaits fresh lists
      obtain ⟨middle, latest, folded, opened, reached, listed⟩ :=
        takenBefore state awaits fresh lists
      have separates := State.step_comma reached (by rwa [opened]) span
      obtain ⟨after, last, foldedMore, openedMore, reachedMore, itemsMore, linksMore⟩ :=
        takenBehind { middle with level := middle.level.nextItem latest, phase := .operand } rfl rfl
      refine ⟨after, last, ?_, openedMore.trans opened, reachedMore, ?_⟩
      · rw [State.fold_append folded, State.fold_cons separates, foldedMore]
      · simp only [Level.allItems, itemsMore, Level.chain_of_links linksMore, List.reverse_cons]
        exact congrArg (· ++ [chain.signedExpr]) listed

end ImageGraph.Expr
