import ImageGraph.Proofs.Locality
import ImageGraph.Proofs.Mentions

/-!
Where the parts of an expression stand. The spans of the tokens lie one behind the other, and reading
keeps that up: a primary ranges over its tokens, a join from its first operand to its last, and a
negation from its minus sign. Parentheses around an expression are in no span of it.
-/

set_option autoImplicit false

namespace ImageGraph

/-- Spans that are not empty and lie one behind the other, between two offsets. -/
def Spread : Nat → List Span → Nat → Prop
  | start, [], stop => start ≤ stop
  | start, span :: others, stop =>
      start ≤ span.start ∧ span.start < span.stop ∧ Spread span.stop others stop

namespace Spread

variable {start stop : Nat} {spans front back : List Span}

theorem le (spread : Spread start spans stop) : start ≤ stop := by
  induction spans generalizing start with
  | nil => exact spread
  | cons span others induction =>
      obtain ⟨begins, nonempty, behind⟩ := spread
      have ends := induction behind
      omega

theorem weaken {lower upper : Nat} (spread : Spread start spans stop) (below : lower ≤ start)
    (above : stop ≤ upper) : Spread lower spans upper := by
  induction spans generalizing start lower with
  | nil => exact below.trans (Nat.le_trans spread above)
  | cons span others induction =>
      obtain ⟨begins, nonempty, behind⟩ := spread
      exact ⟨below.trans begins, nonempty, induction behind le_rfl⟩

theorem append_iff : Spread start (front ++ back) stop ↔
    ∃ middle, Spread start front middle ∧ Spread middle back stop := by
  induction front generalizing start with
  | nil =>
      constructor
      · intro spread
        exact ⟨start, Nat.le_refl start, spread⟩
      · rintro ⟨middle, before, behind⟩
        exact behind.weaken before le_rfl
  | cons span front induction =>
      simp only [List.cons_append, Spread, induction]
      constructor
      · rintro ⟨begins, nonempty, middle, before, behind⟩
        exact ⟨middle, ⟨begins, nonempty, before⟩, behind⟩
      · rintro ⟨middle, ⟨begins, nonempty, before⟩, behind⟩
        exact ⟨begins, nonempty, middle, before, behind⟩

theorem bounds (spread : Spread start spans stop) :
    ∀ span ∈ spans, start ≤ span.start ∧ span.stop ≤ stop := by
  induction spans generalizing start with
  | nil => exact List.forall_mem_nil _
  | cons span others induction =>
      obtain ⟨begins, nonempty, behind⟩ := spread
      refine List.forall_mem_cons.2 ⟨⟨begins, behind.le⟩, fun other member => ?_⟩
      have bounded := induction behind other member
      omega

theorem pairwise (spread : Spread start spans stop) :
    spans.Pairwise fun first second => first.stop ≤ second.start := by
  induction spans generalizing start with
  | nil => exact .nil
  | cons span others induction =>
      exact .cons (fun other member => (spread.2.2.bounds other member).1) (induction spread.2.2)

end Spread

namespace Expr

open Token

theorem scan_spread {afterOperand : Bool} {offset : Nat} {chars : List Char} {tokens : List Placed}
    (scans : (scan afterOperand offset chars).tokens = tokens) :
    Spread offset (tokens.map Placed.span) (offset + chars.length) := by
  induction tokens generalizing afterOperand offset chars with
  | nil => exact Nat.le_add_right offset chars.length
  | cons placed others induction =>
      obtain ⟨gap, token, spelling, behind, rfl, rfl, -, isRead, tail⟩ := scan_first scans
      rw [offset_behind]
      exact ⟨Nat.le_add_right _ _, Nat.lt_add_of_pos_right isRead.length_pos, induction tail⟩

namespace Chain

variable {Operand : Type}

def operands (chain : Chain Operand) : List Operand := chain.first :: chain.rest.map Prod.snd

theorem operands_append (left right : Chain Operand) (operator : Operator) :
    (left.append operator right).operands = left.operands ++ right.operands := by
  simp [operands, append]

theorem operands_extend (chain : Chain Operand) (operator : Operator) (next : Operand) :
    (chain.extend operator next).operands = chain.operands ++ [next] :=
  operands_append chain ⟨next, []⟩ operator

theorem operands_map {Other : Type} (change : Operand → Other) (chain : Chain Operand) :
    (chain.map change).operands = chain.operands.map change := by
  simp [operands, map]

end Chain

/-- The expressions that a part consists of so far, from left to right. -/
def Part.exprs : Part → List Expr
  | primary value => [value]
  | operand signed => [signed.expr]
  | whole chain => chain.operands.map Operand.expr
  | items list => list

/-- Tokens that are, behind opening parentheses, a token at some offset. -/
def Leads (tokens : List Placed) (start : Nat) : Prop :=
  ∃ parens next others, tokens = parens ++ next :: others ∧
    (∀ paren ∈ parens, paren.token = .openParen) ∧ next.span.start = start

/-- How a part of an expression is made of the tokens of the whole. -/
def IsMade (whole : List Placed) : Expr → Prop
  | negation operand span => span.stop = operand.span.stop ∧
      ∃ sign tokens, ⟨.minus, sign⟩ :: tokens <:+: whole ∧ sign.start = span.start ∧
        Leads tokens operand.span.start
  | binary _ first second span => span = ⟨first.span.start, second.span.stop⟩
  | part => ∃ tokens, tokens <:+: whole ∧ Reads tokens (.primary part) ∧ Fills tokens part.span

/-- Where a part of an expression stands among the tokens of the whole. -/
structure Stands (whole : List Placed) (part : Expr) : Prop where
  nonempty : part.span.start < part.span.stop
  spread : Spread part.span.start (part.operands.map Expr.span) part.span.stop
  made : part.IsMade whole

/-- An expression and all parts of it stand among the tokens of the whole. -/
def AllStand (whole : List Placed) (expression : Expr) : Prop :=
  ∀ part ∈ expression.parts, part.Stands whole

section Spread

variable {start stop : Nat} {whole tokens : List Placed} {part : Part}

theorem all_stand_iff (expression : Expr) : expression.AllStand whole ↔
    expression.Stands whole ∧ ∀ operand ∈ expression.operands, operand.AllStand whole := by
  unfold AllStand
  rw [parts_eq, List.forall_mem_cons, List.forall_mem_flatMap]

namespace Grouping

theorem spread (grouping : Grouping Expr)
    (inOrder : Spread start (grouping.chain.operands.map Expr.span) stop) :
    Spread start [grouping.expr.span] stop := by
  induction grouping generalizing start stop with
  | operand only => exact inOrder
  | join operator left right leftInduction rightInduction =>
      rw [chain, Chain.operands_append, List.map_append, Spread.append_iff] at inOrder
      obtain ⟨middle, before, behind⟩ := inOrder
      obtain ⟨begins, leftNonempty, leftEnds⟩ := leftInduction before
      obtain ⟨follows, rightNonempty, ends⟩ := rightInduction behind
      have leftEnds : left.expr.span.stop ≤ middle := leftEnds
      exact ⟨begins, show left.expr.span.start < right.expr.span.stop by omega, ends⟩

theorem starts (grouping : Grouping Expr) :
    grouping.chain.operands.head?.map (·.span.start) = some grouping.expr.span.start := by
  induction grouping with
  | operand only => rfl
  | join operator left right leftInduction _ => exact leftInduction

theorem stands (grouping : Grouping Expr)
    (inOrder : Spread start (grouping.chain.operands.map Expr.span) stop)
    (each : ∀ operand ∈ grouping.chain.operands, operand.AllStand whole) :
    grouping.expr.AllStand whole := by
  induction grouping generalizing start stop with
  | operand only => exact each only List.mem_cons_self
  | join operator left right leftInduction rightInduction =>
      rw [chain, Chain.operands_append] at each inOrder
      rw [List.map_append, Spread.append_iff] at inOrder
      obtain ⟨eachLeft, eachRight⟩ := List.forall_mem_append.1 each
      obtain ⟨middle, before, behind⟩ := inOrder
      obtain ⟨-, leftNonempty, leftEnds⟩ := left.spread before
      obtain ⟨follows, rightNonempty, -⟩ := right.spread behind
      have leftEnds : left.expr.span.stop ≤ middle := leftEnds
      have apart : left.expr.span.stop ≤ right.expr.span.start := by omega
      have operands : ∀ operand ∈ [left.expr, right.expr], operand.AllStand whole := by
        simp only [List.forall_mem_cons]
        exact ⟨leftInduction before eachLeft, rightInduction behind eachRight,
          List.forall_mem_nil _⟩
      refine (all_stand_iff _).2 ⟨⟨?_, ?_, rfl⟩, operands⟩
      · exact show left.expr.span.start < right.expr.span.stop by omega
      · exact ⟨Nat.le_refl _, leftNonempty, apart, rightNonempty, Nat.le_refl _⟩

end Grouping

theorem Chain.signed_operands (chain : Chain Operand) :
    (chain.map Operand.expr).grouping.chain.operands = (Part.whole chain).exprs := by
  rw [Grouping.chain_grouping, operands_map]
  rfl

theorem signed_spread {chain : Chain Operand}
    (inOrder : Spread start ((Part.whole chain).exprs.map Expr.span) stop) :
    Spread start [chain.signedExpr.span] stop :=
  Grouping.spread _ (by rwa [Chain.signed_operands])

theorem signed_stands {chain : Chain Operand}
    (inOrder : Spread start ((Part.whole chain).exprs.map Expr.span) stop)
    (each : ∀ operand ∈ (Part.whole chain).exprs, operand.AllStand whole) :
    chain.signedExpr.AllStand whole :=
  Grouping.stands _ (by rwa [Chain.signed_operands]) (by rwa [Chain.signed_operands])

theorem spread_enclosed {opening closing : Token} {left right : Span}
    (spread : Spread start
      ((⟨opening, left⟩ :: (tokens ++ [⟨closing, right⟩])).map Placed.span) stop) :
    start ≤ left.start ∧ left.start < left.stop ∧ Spread left.stop (tokens.map Placed.span)
      right.start ∧ right.start < right.stop ∧ right.stop ≤ stop := by
  rw [List.map_cons, List.map_append] at spread
  obtain ⟨begins, nonempty, behind⟩ := spread
  obtain ⟨middle, inside, follows, closes, ends⟩ := Spread.append_iff.1 behind
  exact ⟨begins, nonempty, inside.weaken le_rfl follows, closes, ends⟩

theorem spread_parted {more : List Placed} {between : Placed}
    (spread : Spread start ((tokens ++ between :: more).map Placed.span) stop) :
    ∃ middle, Spread start (tokens.map Placed.span) middle ∧
      Spread middle (more.map Placed.span) stop := by
  rw [List.map_append, Spread.append_iff] at spread
  obtain ⟨middle, front, follows, nonempty, back⟩ := spread
  exact ⟨middle, front, back.weaken (by omega) le_rfl⟩

theorem span_of_atom {placed : Placed} {value : Expr}
    (isAtom : State.atom? placed.token placed.span = some value) :
    value.span = placed.span := by
  obtain ⟨token, span⟩ := placed
  cases token with
  | number | label | resolution =>
      cases isAtom
      rfl
  | _ => cases isAtom

/-- What is read from tokens lies where the tokens lie, in the same order. -/
theorem Reads.spread (reads : Reads tokens part)
    (inOrder : Spread start (tokens.map Placed.span) stop) :
    Spread start (part.exprs.map Expr.span) stop := by
  induction reads generalizing start stop with
  | @atom placed value isAtom =>
      simpa only [Part.exprs, List.map_cons, List.map_nil, span_of_atom isAtom] using inOrder
  | name word span => exact inOrder
  | group left right inside induction =>
      obtain ⟨begins, opens, within, closes, ends⟩ := spread_enclosed inOrder
      exact (signed_spread (induction within)).weaken (by omega) (by omega)
  | array left right inside induction =>
      obtain ⟨begins, opens, within, closes, ends⟩ := spread_enclosed inOrder
      have reaches := within.le
      exact ⟨begins, show left.start < right.stop by omega, ends⟩
  | call function name left right inside induction =>
      obtain ⟨begins, named, behind⟩ := inOrder
      obtain ⟨follows, opens, within, closes, ends⟩ := spread_enclosed behind
      have reaches := within.le
      have follows : name.stop ≤ left.start := follows
      have named : name.start < name.stop := named
      exact ⟨begins, show name.start < right.stop by omega, ends⟩
  | plain reads induction => exact induction inOrder
  | @minus tokens operand span behind induction =>
      obtain ⟨begins, signed, behind⟩ := inOrder
      obtain ⟨follows, nonempty, ends⟩ := induction behind
      have signed : span.start < span.stop := signed
      have follows : span.stop ≤ operand.expr.span.start := follows
      exact ⟨begins, show span.start < operand.expr.span.stop by omega, ends⟩
  | single reads induction => exact induction inOrder
  | extend operator span before behind induction lastInduction =>
      obtain ⟨middle, front, back⟩ := spread_parted inOrder
      rw [Part.exprs, Chain.operands_extend, List.map_append, List.map_append, Spread.append_iff]
      exact ⟨middle, induction front, lastInduction back⟩
  | none => exact inOrder.le
  | one reads induction => exact signed_spread (induction inOrder)
  | comma span before behind induction lastInduction =>
      obtain ⟨middle, front, back⟩ := spread_parted inOrder
      rw [Part.exprs, List.map_append, Spread.append_iff]
      exact ⟨middle, induction front, signed_spread (lastInduction back)⟩

end Spread

section Leads

variable {tokens : List Placed} {start : Nat}

theorem Leads.of_first {first : Placed} (others : List Placed) (starts : first.span.start = start) :
    Leads (first :: others) start :=
  ⟨[], first, others, rfl, List.forall_mem_nil _, starts⟩

theorem Leads.append (leads : Leads tokens start) (more : List Placed) :
    Leads (tokens ++ more) start := by
  obtain ⟨parens, next, others, rfl, areParens, starts⟩ := leads
  exact ⟨parens, next, others ++ more, by rw [List.append_assoc, List.cons_append], areParens, starts⟩

theorem Leads.paren (leads : Leads tokens start) (span : Span) :
    Leads (⟨.openParen, span⟩ :: tokens) start := by
  obtain ⟨parens, next, others, rfl, areParens, starts⟩ := leads
  exact ⟨⟨.openParen, span⟩ :: parens, next, others, rfl, List.forall_mem_cons.2 ⟨rfl, areParens⟩,
    starts⟩

theorem Chain.signed_starts (chain : Chain Operand) :
    (Part.whole chain).exprs.head?.map (·.span.start) = some chain.signedExpr.span.start := by
  rw [← signed_operands]
  exact Grouping.starts _

/-- In front of what is read first there are only opening parentheses. -/
theorem Reads.leads {part : Part} (reads : Reads tokens part) :
    ∀ first ∈ part.exprs.head?, Leads tokens first.span.start := by
  have signed {tokens : List Placed} {chain : Chain Operand}
      (leads : ∀ first ∈ (Part.whole chain).exprs.head?, Leads tokens first.span.start) :
      Leads tokens chain.signedExpr.span.start := by
    obtain ⟨first, isFirst, same⟩ := Option.map_eq_some_iff.1 chain.signed_starts
    rw [← same]
    exact leads first isFirst
  induction reads with
  | atom isAtom =>
      rintro first ⟨⟩
      exact .of_first [] (by rw [span_of_atom isAtom])
  | name word span =>
      rintro first ⟨⟩
      exact .of_first [] rfl
  | group left right inside leads =>
      rintro first ⟨⟩
      exact ((signed leads).append _).paren left
  | array | call =>
      rintro first ⟨⟩
      exact .of_first _ rfl
  | plain reads leads | single reads leads => exact leads
  | minus span behind leads =>
      rintro first ⟨⟩
      exact .of_first _ rfl
  | extend operator span before behind leads =>
      intro first isFirst
      rw [Part.exprs, Chain.operands_extend] at isFirst
      exact (leads first isFirst).append _
  | none =>
      intro first isFirst
      cases isFirst
  | one reads leads =>
      rintro first ⟨⟩
      exact signed leads
  | comma span before behind leads =>
      rintro first ⟨⟩
      exact (leads _ rfl).append _

end Leads

section Stands

variable {whole tokens : List Placed} {part : Part}

theorem infix_enclosed {opening closing : Placed} (before : List Placed)
    (within : before ++ opening :: (tokens ++ [closing]) <:+: whole) : tokens <:+: whole :=
  List.IsInfix.trans ⟨before ++ [opening], [closing], by simp⟩ within

theorem infix_parted {more : List Placed} {between : Placed}
    (within : tokens ++ between :: more <:+: whole) : tokens <:+: whole ∧ more <:+: whole :=
  ⟨(List.prefix_append _ _).isInfix.trans within,
    ((List.suffix_cons _ _).trans (List.suffix_append _ _)).isInfix.trans within⟩

theorem fills_enclosed (opening : Placed) (between : List Placed) (closing : Placed) :
    Fills (opening :: (between ++ [closing])) ⟨opening.span.start, closing.span.stop⟩ := by
  constructor
  · rfl
  · rw [List.getLast?_cons, List.getLast?_append]
    rfl

/-- Every expression that is read stands among the tokens with all its parts, also if they are only
some of the tokens of a longer text. -/
theorem Reads.stand (reads : Reads tokens part) {start stop : Nat}
    (inOrder : Spread start (tokens.map Placed.span) stop) (within : tokens <:+: whole) :
    ∀ expression ∈ part.exprs, expression.AllStand whole := by
  induction reads generalizing start stop with
  | @atom placed value isAtom =>
      refine List.forall_mem_singleton.2 ((all_stand_iff value).2 ?_)
      obtain ⟨-, nonempty, -⟩ := inOrder
      have reads := Reads.atom isAtom
      obtain ⟨token, span⟩ := placed
      cases token with
      | number | label | resolution =>
          cases isAtom
          exact ⟨⟨nonempty, Nat.le_of_lt nonempty, _, within, reads, rfl, rfl⟩,
            List.forall_mem_nil _⟩
      | _ => cases isAtom
  | name word span =>
      refine List.forall_mem_singleton.2 ((all_stand_iff _).2 ?_)
      obtain ⟨-, nonempty, -⟩ := inOrder
      exact ⟨⟨nonempty, Nat.le_of_lt nonempty, _, within, .name word span, rfl, rfl⟩,
        List.forall_mem_nil _⟩
  | group left right inside induction =>
      -- The parentheses are no part of the expression, so nothing is to be shown of its tokens here.
      obtain ⟨-, -, inOrder, -, -⟩ := spread_enclosed inOrder
      exact List.forall_mem_singleton.2 (signed_stands (inside.spread inOrder)
        (induction inOrder (infix_enclosed [] within)))
  | array left right inside induction =>
      have reads := Reads.array left right inside
      obtain ⟨-, nonempty, -⟩ := reads.spread inOrder
      obtain ⟨-, opens, inOrder, closes, -⟩ := spread_enclosed inOrder
      have items := (inside.spread inOrder).weaken (Nat.le_of_lt opens) (Nat.le_of_lt closes)
      exact List.forall_mem_singleton.2 ((all_stand_iff _).2
        ⟨⟨nonempty, items, _, within, reads, fills_enclosed _ _ _⟩,
          induction inOrder (infix_enclosed [] within)⟩)
  | call function name left right inside induction =>
      have reads := Reads.call function name left right inside
      obtain ⟨-, nonempty, -⟩ := reads.spread inOrder
      obtain ⟨-, named, behind⟩ := inOrder
      obtain ⟨follows, opens, inOrder, closes, -⟩ := spread_enclosed behind
      have begins : name.start ≤ left.stop :=
        ((Nat.le_of_lt named).trans follows).trans (Nat.le_of_lt opens)
      have arguments := (inside.spread inOrder).weaken begins (Nat.le_of_lt closes)
      exact List.forall_mem_singleton.2 ((all_stand_iff _).2
        ⟨⟨nonempty, arguments, _, within, reads, fills_enclosed _ (_ :: _) _⟩,
          induction inOrder (infix_enclosed [⟨.word function, name⟩] within)⟩)
  | plain reads induction | single reads induction => exact induction inOrder within
  | @minus tokens operand span behind induction =>
      obtain ⟨-, nonempty, -⟩ := (Reads.minus span behind).spread inOrder
      obtain ⟨-, signed, inOrder⟩ := inOrder
      obtain ⟨follows, operandNonempty, -⟩ := behind.spread inOrder
      have inner : Spread span.start [operand.expr.span] operand.expr.span.stop :=
        ⟨(Nat.le_of_lt signed).trans follows, operandNonempty, Nat.le_refl _⟩
      have tokensWithin := (List.suffix_cons _ tokens).isInfix.trans within
      exact List.forall_mem_singleton.2 ((all_stand_iff _).2
        ⟨⟨nonempty, inner, rfl, span, tokens, within, rfl, behind.leads _ rfl⟩,
          induction inOrder tokensWithin⟩)
  | extend operator span before behind induction lastInduction =>
      obtain ⟨frontWithin, backWithin⟩ := infix_parted within
      obtain ⟨middle, front, back⟩ := spread_parted inOrder
      rw [Part.exprs, Chain.operands_extend, List.map_append]
      exact List.forall_mem_append.2 ⟨induction front frontWithin, lastInduction back backWithin⟩
  | none => exact List.forall_mem_nil _
  | one reads induction =>
      exact List.forall_mem_singleton.2 (signed_stands (reads.spread inOrder)
        (induction inOrder within))
  | comma span before behind induction lastInduction =>
      obtain ⟨frontWithin, backWithin⟩ := infix_parted within
      obtain ⟨middle, front, back⟩ := spread_parted inOrder
      have last := signed_stands (behind.spread back) (lastInduction back backWithin)
      exact List.forall_mem_append.2 ⟨induction front frontWithin, List.forall_mem_singleton.2 last⟩

theorem AllStand.reaches {expression : Expr} (stand : expression.AllStand whole) :
    ∀ part ∈ expression.parts, part.span.stop ≤ expression.span.stop := by
  have upper {expression : Expr} (below : ∀ operand ∈ expression.operands, operand.AllStand whole →
      ∀ part ∈ operand.parts, part.span.stop ≤ operand.span.stop)
      (stand : expression.AllStand whole) :
      ∀ part ∈ expression.parts, part.span.stop ≤ expression.span.stop := by
    obtain ⟨stands, each⟩ := (all_stand_iff expression).1 stand
    rw [parts_eq, List.forall_mem_cons, List.forall_mem_flatMap]
    refine ⟨Nat.le_refl _, fun operand isOperand part isPart => ?_⟩
    have inside := stands.spread.bounds _ (List.mem_map_of_mem isOperand)
    exact (below operand isOperand (each operand isOperand) part isPart).trans inside.2
  induction expression using by_operands with
  | number | identifier | resolution => exact upper (List.forall_mem_nil _) stand
  | array items span below | call function items span below => exact upper below stand
  | negation operand span below => exact upper (List.forall_mem_singleton.2 below) stand
  | binary operator first second span firstBelow secondBelow =>
      exact upper (List.forall_mem_cons.2 ⟨firstBelow, List.forall_mem_singleton.2 secondBelow⟩) stand

end Stands

end Expr

def Span.Marks (span : Span) (text inside : String) : Prop :=
  ∃ before behind, text = before ++ (inside ++ behind) ∧ before.utf8ByteSize = span.start ∧
    before.utf8ByteSize + inside.utf8ByteSize = span.stop

namespace Expr

open Token

/-- What the span of a part of an expression marks. A negation ranges from its minus sign, behind
which there are only blanks and opening parentheses up to the operand, and a join from its first
operand to its second. Every other part is read from the text of its span alone. -/
def Shows (text : String) : Expr → Prop
  | negation operand span => span.stop = operand.span.stop ∧
      ∃ gap, Span.Marks ⟨span.start, operand.span.start⟩ text ("-" ++ gap) ∧
        ∀ char ∈ gap.toList, isGap char = true ∨ char = '('
  | binary _ first second span => span = ⟨first.span.start, second.span.stop⟩
  | part => ∃ inside self, part.span.Marks text inside ∧ parse inside = .ok self ∧
      self.shift part.span.start = part

/-- How a part of an expression lies in the text that was read. Its operands are the items of an
array, the arguments of a call, and what an operator or a minus sign stands beside. -/
structure Located (text : String) (part : Expr) : Prop where
  nonempty : part.span.start < part.span.stop
  inside : part.span.stop ≤ text.utf8ByteSize
  covers : ∀ operand ∈ part.operands,
    part.span.start ≤ operand.span.start ∧ operand.span.stop ≤ part.span.stop
  ordered : part.operands.Pairwise fun first second => first.span.stop ≤ second.span.start
  shows : part.Shows text

theorem marks_of_chars {text : String} {before inside behind : List Char}
    (ascii : ∀ char ∈ text.toList, char.utf8Size = 1)
    (parts : text.toList = before ++ (inside ++ behind)) :
    Span.Marks ⟨before.length, before.length + inside.length⟩ text (.ofList inside) := by
  rw [parts, List.forall_mem_append, List.forall_mem_append] at ascii
  have whole : text = .ofList before ++ (.ofList inside ++ .ofList behind) := by
    rw [← String.ofList_append, ← String.ofList_append, ← parts, String.ofList_toList]
  refine ⟨_, _, whole, ?_, ?_⟩
  · rw [String.utf8ByteSize_ofList, utf8_len_of_ascii ascii.1]
  · rw [String.utf8ByteSize_ofList, String.utf8ByteSize_ofList, utf8_len_of_ascii ascii.1,
      utf8_len_of_ascii ascii.2.1]

theorem Row.parens {afterOperand final : Bool} {chars : List Char} {tokens : List Token}
    (row : Row afterOperand chars tokens final) (areParens : ∀ token ∈ tokens, token = .openParen) :
    ∀ char ∈ chars, isGap char = true ∨ char = '(' := by
  induction row with
  | blank gaps => exact fun char member => .inl (gaps char member)
  | token gaps read row induction =>
      obtain ⟨isParen, others⟩ := List.forall_mem_cons.1 areParens
      subst isParen
      obtain ⟨spelling, parts, spelled⟩ := read_spelled read
      rw [parts, List.forall_mem_append, List.forall_mem_append]
      refine ⟨fun char member => .inl (gaps char member), ?_, induction others⟩
      cases spelled with
      | punctuation isPunctuation =>
          exact List.forall_mem_singleton.2 (.inr (punctuation_injective rfl isPunctuation))

/-- The text from a minus sign to what it negates. -/
theorem sign_marked {chars : List Char} {front tokens back : List Placed} {sign : Span} {start : Nat}
    (parts : (scan false 0 chars).tokens = front ++ ⟨.minus, sign⟩ :: (tokens ++ back))
    (leads : Leads tokens start) :
    ∃ before gap behind, chars = before ++ ('-' :: gap ++ behind) ∧ before.length = sign.start ∧
      before.length + ('-' :: gap).length = start ∧
      ∀ char ∈ gap, isGap char = true ∨ char = '(' := by
  obtain ⟨parens, next, others, rfl, areParens, rfl⟩ := leads
  obtain ⟨before, rest, mode, rfl, solid, scans⟩ := scan_behind parts
  have begins := start_of_solid solid scans
  obtain ⟨blank, token, spelling, behind, rfl, isSign, -, isRead, tail⟩ := scan_first scans
  obtain ⟨rfl, rfl⟩ := Placed.mk.inj isSign
  obtain rfl : blank = [] := List.eq_nil_of_length_eq_zero (by simpa using begins)
  obtain rfl : spelling = ['-'] := by
    cases isRead.spelled with
    | minus => rfl
    | punctuation isPunctuation =>
        unfold punctuation? at isPunctuation
        split at isPunctuation <;> cases isPunctuation
  rw [List.append_assoc, List.cons_append] at tail
  -- Behind the sign, the text up to the operand is a row of parentheses.
  obtain ⟨gap, left, rfl, -, -, scansGap, starts⟩ := scan_front tail
  obtain ⟨final, row⟩ := row_of_scan (congrArg Scan.complete scansGap)
  rw [scansGap] at row
  refine ⟨before, gap, left, rfl, by simp, ?_, row.parens ?_⟩
  · have starts : next.span.start = 0 + before.length + 0 + 1 + gap.length := starts
    rw [starts, List.length_cons]
    omega
  · intro token member
    obtain ⟨paren, isParen, rfl⟩ := List.mem_map.1 member
    exact areParens paren isParen

theorem shows_of_made {text : String} {part : Expr}
    (ascii : ∀ char ∈ text.toList, char.utf8Size = 1)
    (made : part.IsMade (scan false 0 text.toList).tokens) : part.Shows text := by
  have alone (value : Expr) (made : ∃ tokens, tokens <:+: (scan false 0 text.toList).tokens ∧
      Reads tokens (.primary value) ∧ Fills tokens value.span) :
      ∃ inside self, value.span.Marks text inside ∧ parse inside = .ok self ∧
        self.shift value.span.start = value := by
    obtain ⟨tokens, ⟨front, back, parts⟩, reads, fills⟩ := made
    rw [List.append_assoc] at parts
    obtain ⟨before, inside, behind, self, whole, start, stop, read, same⟩ :=
      reads.alone parts.symm fills
    have marks := marks_of_chars ascii whole
    rw [stop, start] at marks
    exact ⟨.ofList inside, self, marks, by rwa [parse_ok_iff, String.toList_ofList], same⟩
  cases part with
  | negation operand span =>
      obtain ⟨stop, sign, tokens, ⟨front, back, parts⟩, start, leads⟩ := made
      rw [List.append_assoc] at parts
      obtain ⟨before, gap, behind, whole, begins, ends, gaps⟩ := sign_marked parts.symm leads
      have marks := marks_of_chars ascii whole
      have signed : String.ofList ('-' :: gap) = "-" ++ String.ofList gap := String.ofList_cons
      rw [ends, begins, start, signed] at marks
      exact ⟨stop, .ofList gap, marks, by rwa [String.toList_ofList]⟩
  | binary operator first second span => exact made
  | number | identifier | resolution | array | call => exact alone _ made

/-- Every part of what is read from a text is located in it. -/
theorem parts_located {text : String} {expression : Expr} (parsed : parse text = .ok expression) :
    ∀ part ∈ expression.parts, part.Located text := by
  rw [parse_ok_iff, read_chars_iff] at parsed
  obtain ⟨complete, chain, reads, rfl⟩ := parsed
  obtain ⟨final, row⟩ := row_of_scan complete
  have inOrder := reads.spread (scan_spread rfl)
  have stand := signed_stands inOrder (reads.stand (scan_spread rfl) List.infix_rfl)
  have size : text.utf8ByteSize = text.toList.length := by
    rw [← utf8_len_of_ascii row.ascii, ← String.utf8ByteSize_ofList, String.ofList_toList]
  obtain ⟨-, -, ends⟩ := signed_spread inOrder
  have ends : chain.signedExpr.span.stop ≤ 0 + text.toList.length := ends
  intro part isPart
  have stands := stand part isPart
  have reaches := stand.reaches part isPart
  exact {
    nonempty := stands.nonempty
    inside := by omega
    covers := fun operand isOperand => stands.spread.bounds _ (List.mem_map_of_mem isOperand)
    ordered := List.pairwise_map.1 stands.spread.pairwise
    shows := shows_of_made row.ascii stands.made
  }

/-- A negation in parentheses beside a call, as it is read from `-( (4k)) * f([2x, -a])`. -/
def signedProduct : Expr :=
  .binary (.blend .multiply) (.negation (.identifier "4k" ⟨4, 6⟩) ⟨0, 6⟩)
    (.call "f"
      [.array [.resolution "2" "" ⟨14, 16⟩, .negation (.identifier "a" ⟨19, 20⟩) ⟨18, 20⟩] ⟨13, 21⟩]
      ⟨11, 22⟩) ⟨0, 22⟩

theorem signed_product_located :
    parse "-( (4k)) * f([2x, -a])" = .ok signedProduct ∧
      ∀ part ∈ signedProduct.parts, part.Located "-( (4k)) * f([2x, -a])" := by
  have parsed : parse "-( (4k)) * f([2x, -a])" = .ok signedProduct := by cbv
  exact ⟨parsed, parts_located parsed⟩

end Expr

end ImageGraph
