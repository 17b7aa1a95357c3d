import ImageGraph.Proofs.Grammar

/-!
The reader admits nothing else than the grammar. What its state remembers is always what the grammar
gives for the tokens read so far: in each open bracket the finished items, the unfinished chain and the
minus signs before the next operand. So a text is read exactly if its tokens are a whole expression, and
the result is the expression of that chain.
-/

set_option autoImplicit false

namespace ImageGraph.Expr

/-- The tokens behind an opening bracket that a level has taken up. -/
inductive Level.Remembers : List Placed → Level → Prop where
  | fresh : Remembers [] .fresh
  | minus {tokens : List Placed} {level : Level} (span : Span) (earlier : Remembers tokens level) :
      Remembers (tokens ++ [⟨.minus, span⟩])
        { level with minuses := span.start :: level.minuses }
  | link {tokens more : List Placed} {level : Level} {value : Expr} (operator : Operator)
      (span : Span) (earlier : Remembers tokens level) (reads : Reads more (.primary value)) :
      Remembers (tokens ++ more ++ [⟨.operator operator, span⟩])
        (level.extend (level.signed value) operator)
  | item {tokens more : List Placed} {level : Level} {value : Expr} (span : Span)
      (earlier : Remembers tokens level) (reads : Reads more (.primary value)) :
      Remembers (tokens ++ more ++ [⟨.comma, span⟩]) (level.nextItem (level.signed value))

/-- The finished items of a level and the commas behind them. -/
def Level.Finished (tokens : List Placed) : List Expr → Prop
  | [] => tokens = []
  | latest :: earlier => ∃ listed span, tokens = listed ++ [⟨.comma, span⟩] ∧
      Reads listed (.items (latest :: earlier).reverse)

namespace Level

variable {tokens more : List Placed} {level : Level}

theorem Finished.append {items : List Expr} {chain : Chain Operand}
    (finished : Finished tokens items) (reads : Reads more (.whole chain)) :
    Reads (tokens ++ more) (.items (chain.signedExpr :: items).reverse) := by
  cases items with
  | nil =>
      obtain rfl : tokens = [] := finished
      exact .one reads
  | cons latest earlier =>
      obtain ⟨listed, span, rfl, before⟩ := finished
      obtain ⟨first, others, shape⟩ : ∃ first others, (latest :: earlier).reverse = first :: others :=
        List.exists_cons_of_ne_nil (by simp)
      rw [shape] at before
      rw [List.append_assoc, List.reverse_cons, shape]
      exact .comma span before reads

/-- An operand behind the tokens of a level ends a chain. In front of the chain stand the finished
items. -/
theorem Remembers.whole (remembers : Remembers tokens level) {operand : Operand}
    (reads : Reads more (.operand operand)) :
    ∃ front back chain, tokens ++ more = front ++ back ∧ Finished front level.items ∧
      Reads back (.whole chain) ∧
      Chain.ofLinks level.links (level.signed operand.expr) = chain.map Operand.expr := by
  induction remembers generalizing more operand with
  | fresh => exact ⟨[], more, _, rfl, rfl, .single reads, rfl⟩
  | minus span earlier induction =>
      obtain ⟨front, back, chain, split, finished, whole, links⟩ :=
        induction (Reads.minus span reads)
      exact ⟨front, back, chain, by rw [← split, List.append_assoc]; rfl, finished, whole, links⟩
  | link operator span earlier value induction =>
      obtain ⟨front, back, chain, split, finished, whole, links⟩ := induction (Reads.plain value)
      refine ⟨front, back ++ ⟨.operator operator, span⟩ :: more, chain.extend operator operand, ?_,
        finished, .extend operator span whole reads, ?_⟩
      · rw [split]
        simp
      · simp only [extend, signed, List.foldl_nil, Chain.of_links_cons, Chain.map_extend]
        rw [← links]
        rfl
  | @item _ _ level value span earlier reading induction =>
      obtain ⟨front, back, chain, split, finished, whole, links⟩ := induction (Reads.plain reading)
      refine ⟨front ++ back ++ [⟨.comma, span⟩], more, _, by rw [split], ?_, .single reads, rfl⟩
      have latest : level.chain (level.signed value) = chain.signedExpr := chain_of_links links
      refine ⟨front ++ back, span, rfl, ?_⟩
      rw [latest]
      exact finished.append whole

theorem Remembers.items_read (remembers : Remembers tokens level) {value : Expr}
    (reads : Reads more (.primary value)) :
    Reads (tokens ++ more) (.items (level.allItems (level.signed value))) := by
  obtain ⟨front, back, chain, split, finished, whole, links⟩ := remembers.whole (.plain reads)
  have latest : level.chain (level.signed value) = chain.signedExpr := chain_of_links links
  rw [split, allItems, latest]
  exact finished.append whole

theorem Remembers.chain_read (remembers : Remembers tokens level) {value : Expr}
    (reads : Reads more (.primary value)) (unlisted : level.items = []) :
    ∃ chain, Reads (tokens ++ more) (.whole chain) ∧
      level.chain (level.signed value) = chain.signedExpr := by
  obtain ⟨front, back, chain, split, finished, whole, links⟩ := remembers.whole (.plain reads)
  rw [unlisted] at finished
  obtain rfl : front = [] := finished
  exact ⟨chain, by rwa [split], chain_of_links links⟩

theorem Remembers.nothing (remembers : Remembers tokens level)
    (empty : level.mayCloseEmpty = true) : tokens = [] := by
  cases remembers with
  | fresh => rfl
  | minus span earlier => simp [mayCloseEmpty, isBegun] at empty
  | link operator span earlier reads => simp [mayCloseEmpty, isBegun, extend] at empty
  | item span earlier reads => simp [mayCloseEmpty, nextItem] at empty

end Level

/-- The tokens that open a bracket, and where they begin. -/
inductive Bracket.Opens : Bracket → List Placed → Nat → Prop where
  | group (span : Span) : Opens .group [⟨.openParen, span⟩] span.start
  | array (span : Span) : Opens .array [⟨.openBracket, span⟩] span.start
  | call (function : String) (name span : Span) :
      Opens (.call function) [⟨.word function, name⟩, ⟨.openParen, span⟩] name.start

/-- The tokens up to the innermost open bracket. Only in a list are there finished items. -/
inductive State.Encloses : List Placed → List Open → Prop where
  | outside : Encloses [] []
  | inside {tokens more bracketed : List Placed} {opened : List Open} {level : Level}
      {bracket : Bracket} {start : Nat} (further : Encloses tokens opened)
      (remembers : level.Remembers more)
      (unlisted : State.mayList opened = false → level.items = [])
      (opens : bracket.Opens bracketed start) :
      Encloses (tokens ++ more ++ bracketed) (⟨bracket, start, level⟩ :: opened)

namespace State

/-- The tokens read so far, as a state remembers them. -/
inductive Remembers : List Placed → State → Prop where
  | operand {outer inner : List Placed} {opened : List Open} {level : Level}
      (encloses : Encloses outer opened) (remembers : level.Remembers inner)
      (unlisted : mayList opened = false → level.items = []) :
      Remembers (outer ++ inner) ⟨opened, level, .operand⟩
  | word {outer inner : List Placed} {opened : List Open} {level : Level} (name : String)
      (span : Span) (encloses : Encloses outer opened) (remembers : level.Remembers inner)
      (unlisted : mayList opened = false → level.items = []) :
      Remembers (outer ++ inner ++ [⟨.word name, span⟩]) ⟨opened, level, .word name span⟩
  | operator {outer inner more : List Placed} {opened : List Open} {level : Level} {value : Expr}
      (encloses : Encloses outer opened) (remembers : level.Remembers inner)
      (unlisted : mayList opened = false → level.items = [])
      (reads : Reads more (.primary value)) :
      Remembers (outer ++ inner ++ more) ⟨opened, level, .operator (level.signed value)⟩

/-- Behind an operand, the latest tokens are a primary. -/
structure Behind (outer inner latest : List Placed) (value : Expr) (state : State) : Prop where
  encloses : Encloses outer state.opened
  remembers : state.level.Remembers inner
  unlisted : mayList state.opened = false → state.level.items = []
  reads : Reads latest (.primary value)

variable {tokens : List Placed} {state next : State}

theorem leave_eq (opened : List Open) (outside : Level) (operand : Expr) :
    leave opened outside operand = ⟨opened, outside, .operator (outside.signed operand)⟩ := rfl

theorem remembers_initial : initial.Remembers [] := by
  have fresh : Remembers ([] ++ []) initial := .operand .outside .fresh fun _ => rfl
  exact fresh

theorem Remembers.behind (remembers : state.Remembers tokens) {latest : Expr}
    (isLatest : state.latest? = some latest) :
    ∃ outer inner more value, tokens = outer ++ inner ++ more ∧
      state.Behind outer inner more value ∧ latest = state.level.signed value := by
  cases remembers with
  | operand encloses level unlisted => cases isLatest
  | word name span encloses level unlisted =>
      cases isLatest
      exact ⟨_, _, _, _, rfl, ⟨encloses, level, unlisted, .name name span⟩, rfl⟩
  | operator encloses level unlisted reads =>
      cases isLatest
      exact ⟨_, _, _, _, rfl, ⟨encloses, level, unlisted, reads⟩, rfl⟩

theorem Remembers.list_read (remembers : state.Remembers tokens) {items : List Expr}
    (closes : state.closing? = some items) :
    ∃ outer inside, tokens = outer ++ inside ∧ Encloses outer state.opened ∧
      Reads inside (.items items) := by
  unfold closing? at closes
  split at closes
  · rename_i latest isLatest
    obtain ⟨outer, inner, more, value, rfl, behind, rfl⟩ := remembers.behind isLatest
    cases closes
    exact ⟨outer, inner ++ more, List.append_assoc _ _ _, behind.encloses,
      behind.remembers.items_read behind.reads⟩
  · rename_i none
    split at closes
    · rename_i empty
      cases closes
      cases remembers with
      | @operand outer inner _ _ encloses level unlisted =>
          obtain rfl := level.nothing empty
          exact ⟨outer, [], rfl, encloses, .none⟩
      | word name span encloses level unlisted => cases none
      | operator encloses level unlisted reads => cases none
    · cases closes

theorem Remembers.close_paren (remembers : state.Remembers tokens) {span : Span}
    (closes : state.closeParen? span.stop = some next) :
    next.Remembers (tokens ++ [⟨.closeParen, span⟩]) := by
  unfold closeParen? at closes
  split at closes
  · rename_i function start level opened isOpen
    obtain ⟨items, closing, rfl⟩ := Option.map_eq_some_iff.1 closes
    obtain ⟨outer, inside, rfl, encloses, reads⟩ := remembers.list_read closing
    rw [isOpen] at encloses
    cases encloses with
    | inside further earlier unlisted opens =>
        cases opens with
        | call function name left =>
            have whole := Remembers.operator further earlier unlisted
              (.call function name left span reads)
            simpa [leave_eq] using whole
  · rename_i start level opened isOpen
    obtain ⟨latest, isLatest, rfl⟩ := Option.map_eq_some_iff.1 closes
    obtain ⟨outer, inner, more, value, rfl, behind, rfl⟩ := remembers.behind isLatest
    obtain ⟨chain, reads, same⟩ := behind.remembers.chain_read behind.reads
      (behind.unlisted (by rw [isOpen]; rfl))
    have encloses := behind.encloses
    rw [isOpen] at encloses
    cases encloses with
    | inside further earlier unlisted opens =>
        cases opens with
        | group left =>
            have whole := Remembers.operator further earlier unlisted (.group left span reads)
            rw [← same] at whole
            simpa [leave_eq] using whole
  · cases closes

theorem Remembers.close_bracket (remembers : state.Remembers tokens) {span : Span}
    (closes : state.closeBracket? span.stop = some next) :
    next.Remembers (tokens ++ [⟨.closeBracket, span⟩]) := by
  unfold closeBracket? at closes
  split at closes
  · rename_i start level opened isOpen
    obtain ⟨items, closing, rfl⟩ := Option.map_eq_some_iff.1 closes
    obtain ⟨outer, inside, rfl, encloses, reads⟩ := remembers.list_read closing
    rw [isOpen] at encloses
    cases encloses with
    | inside further earlier unlisted opens =>
        cases opens with
        | array left =>
            have whole := Remembers.operator further earlier unlisted (.array left span reads)
            simpa [leave_eq] using whole
  · cases closes

theorem Remembers.enter (remembers : state.Remembers tokens) (awaits : state.phase = .operand)
    {bracket : Bracket} {start : Nat} {bracketed : List Placed}
    (opens : bracket.Opens bracketed start) :
    (state.enter bracket start).Remembers (tokens ++ bracketed) := by
  cases remembers with
  | operand encloses level unlisted =>
      have inside := Remembers.operand (.inside encloses level unlisted opens) .fresh fun _ => rfl
      simpa [State.enter] using inside
  | word name span encloses level unlisted => cases awaits
  | operator encloses level unlisted reads => cases awaits

theorem Remembers.step_operand (remembers : state.Remembers tokens)
    (awaits : state.phase = .operand) {placed : Placed}
    (taken : state.stepOperand placed = some next) : next.Remembers (tokens ++ [placed]) := by
  obtain ⟨token, span⟩ := placed
  have atom {value : Expr} (isAtom : atom? token span = some value)
      (completes : state.complete value = next) : next.Remembers (tokens ++ [⟨token, span⟩]) := by
    subst completes
    cases remembers with
    | operand encloses level unlisted =>
        exact .operator encloses level unlisted (.atom isAtom)
    | word name span encloses level unlisted => cases awaits
    | operator encloses level unlisted reads => cases awaits
  cases token with
  | minus =>
      cases taken
      cases remembers with
      | operand encloses level unlisted =>
          rw [List.append_assoc]
          exact .operand encloses (.minus span level) unlisted
      | word name span encloses level unlisted => cases awaits
      | operator encloses level unlisted reads => cases awaits
  | word name =>
      cases taken
      cases remembers with
      | operand encloses level unlisted => exact .word name span encloses level unlisted
      | word name span encloses level unlisted => cases awaits
      | operator encloses level unlisted reads => cases awaits
  | openParen =>
      cases taken
      exact remembers.enter awaits (.group span)
  | openBracket =>
      cases taken
      exact remembers.enter awaits (.array span)
  | closeParen => exact remembers.close_paren taken
  | closeBracket => exact remembers.close_bracket taken
  | number decimal => exact atom rfl (Option.some.inj taken)
  | label name => exact atom rfl (Option.some.inj taken)
  | resolution width height => exact atom rfl (Option.some.inj taken)
  | operator operator => cases taken
  | comma => cases taken

theorem Remembers.step_operator (remembers : state.Remembers tokens) {placed : Placed}
    (taken : state.stepOperator placed = some next) : next.Remembers (tokens ++ [placed]) := by
  obtain ⟨token, span⟩ := placed
  cases token with
  | operator operator =>
      obtain ⟨latest, isLatest, rfl⟩ := Option.map_eq_some_iff.1 taken
      obtain ⟨outer, inner, more, value, rfl, behind, rfl⟩ := remembers.behind isLatest
      have joined := Remembers.operand behind.encloses
        (.link operator span behind.remembers behind.reads) behind.unlisted
      simpa using joined
  | comma =>
      simp only [stepOperator, comma?] at taken
      split at taken
      · cases taken
      · cases taken
      · rename_i notGroup notOutside
        obtain ⟨latest, isLatest, rfl⟩ := Option.map_eq_some_iff.1 taken
        obtain ⟨outer, inner, more, value, rfl, behind, rfl⟩ := remembers.behind isLatest
        have lists : mayList state.opened = true := by
          unfold mayList
          split
          · rename_i outside
            exact absurd outside notOutside
          · rename_i inGroup
            exact absurd inGroup (notGroup _ _ _)
          · rfl
        have separated := Remembers.operand behind.encloses
          (.item span behind.remembers behind.reads)
          fun unlisted => absurd (lists.symm.trans unlisted) (by decide)
        simpa using separated
  | openParen =>
      cases remembers with
      | operand encloses level unlisted => cases taken
      | word name wordSpan encloses level unlisted =>
          cases taken
          have inside := Remembers.operand
            (.inside encloses level unlisted (.call name wordSpan span)) .fresh fun _ => rfl
          simpa [State.enter] using inside
      | operator encloses level unlisted reads => cases taken
  | closeParen => exact remembers.close_paren taken
  | closeBracket => exact remembers.close_bracket taken
  | _ => cases taken

theorem Remembers.step (remembers : state.Remembers tokens) {placed : Placed}
    (taken : state.step placed = .ok next) : next.Remembers (tokens ++ [placed]) := by
  unfold State.step at taken
  cases phase : state.phase with
  | operand =>
      simp only [phase] at taken
      cases stepped : state.stepOperand placed with
      | none => simp [stepped] at taken
      | some after =>
          obtain rfl : after = next := by simpa [stepped] using taken
          exact remembers.step_operand phase stepped
  | _ =>
      simp only [phase] at taken
      cases stepped : state.stepOperator placed with
      | none => simp [stepped] at taken
      | some after =>
          obtain rfl : after = next := by simpa [stepped] using taken
          exact remembers.step_operator stepped

theorem Remembers.fold {more : List Placed} (remembers : state.Remembers tokens)
    (folded : more.foldlM State.step state = .ok next) : next.Remembers (tokens ++ more) := by
  induction more generalizing tokens state with
  | nil =>
      cases folded
      simpa using remembers
  | cons placed more induction =>
      rw [List.foldlM_cons] at folded
      cases taken : state.step placed with
      | error fault =>
          rw [taken] at folded
          cases folded
      | ok middle =>
          rw [taken] at folded
          simpa using induction (remembers.step taken) folded

theorem Remembers.result (remembers : state.Remembers tokens) {expression : Expr}
    (ended : state.result? = some expression) :
    ∃ chain, Reads tokens (.whole chain) ∧ chain.signedExpr = expression := by
  unfold result? at ended
  split at ended
  · rename_i outside
    obtain ⟨latest, isLatest, rfl⟩ := Option.map_eq_some_iff.1 ended
    obtain ⟨outer, inner, more, value, split, behind, rfl⟩ := remembers.behind isLatest
    have isOutside := List.isEmpty_iff.1 outside
    obtain ⟨chain, reads, same⟩ := behind.remembers.chain_read behind.reads
      (behind.unlisted (by rw [isOutside]; rfl))
    have encloses := behind.encloses
    rw [isOutside] at encloses
    cases encloses
    rw [List.nil_append] at split
    exact ⟨chain, split ▸ reads, same.symm⟩
  · cases ended

/-- The tokens of a whole expression take the reader to its result. -/
theorem result_of_reads {chain : Chain Operand} (reads : Reads tokens (.whole chain)) :
    ∃ final, tokens.foldlM State.step .initial = .ok final ∧
      final.result? = some chain.signedExpr := by
  obtain ⟨final, latest, folded, opened, behind, -, links⟩ := reads.taken .initial rfl rfl
  refine ⟨final, folded, ?_⟩
  rw [result?, opened, behind]
  simp [initial, Level.chain_of_links links]

theorem finish_ok_iff (state : State) (scan : Scan) (expression : Expr) :
    state.finish scan = .ok expression ↔
      scan.complete = true ∧ state.result? = some expression := by
  unfold finish
  cases scan.complete with
  | false => simp
  | true => cases state.result? <;> simp

end State

/-- A text is read exactly if its tokens are a whole expression, and as the expression of that
chain. -/
theorem read_chars_iff (chars : List Char) (expression : Expr) :
    readChars chars = .ok expression ↔ (Token.scan false 0 chars).complete = true ∧
      ∃ chain, Reads (Token.scan false 0 chars).tokens (.whole chain) ∧
        chain.signedExpr = expression := by
  unfold readChars
  simp only
  generalize Token.scan false 0 chars = scan
  constructor
  · intro read
    rcases folded : scan.tokens.foldlM State.step .initial with fault | final
    · rw [folded] at read
      cases read
    · rw [folded] at read
      obtain ⟨complete, ended⟩ := (State.finish_ok_iff final scan expression).1 read
      exact ⟨complete, (State.remembers_initial.fold folded).result ended⟩
  · intro admitted
    obtain ⟨complete, chain, reads, rfl⟩ := admitted
    obtain ⟨final, folded, ended⟩ := State.result_of_reads reads
    rw [folded]
    exact (State.finish_ok_iff final scan _).2 ⟨complete, ended⟩

end ImageGraph.Expr
