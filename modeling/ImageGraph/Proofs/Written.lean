import ImageGraph.Proofs.Composition
import ImageGraph.Proofs.Numerals

/-!
Written expressions. Every expression whose names, halves of resolutions and numbers can be spelled has
a text with all operands in parentheses, and this text is read back as the expression. What is read
from a text can always be spelled again, except for a literal that is too large for a finite number.
-/

set_option autoImplicit false

namespace ImageGraph.Expr

open Token (Spelling isGap)

/-- An expression that can be written. Its numbers are finite and have no sign, its names and the
halves of its resolutions are spelled like tokens. -/
inductive Written : Expr → Prop where
  | number {value : Float} {span : Span} (finite : Number.isFinite value = true)
      (unsigned : Number.isNegative value = false) : Written (.number value span)
  | word {name : String} {span : Span} (spelled : Spelling (.word name) name.toList) :
      Written (.identifier name span)
  | label {name : String} {span : Span} (spelled : Spelling (.label name) name.toList) :
      Written (.identifier name span)
  | resolution {width height : String} {span : Span}
      (spelled : Spelling (.resolution width height) (width.toList ++ 'x' :: height.toList)) :
      Written (.resolution width height span)
  | array {items : List Expr} {span : Span} (written : ∀ item ∈ items, Written item) :
      Written (.array items span)
  | call {function : String} {arguments : List Expr} {span : Span}
      (spelled : Spelling (.word function) function.toList)
      (written : ∀ argument ∈ arguments, Written argument) :
      Written (.call function arguments span)
  | negation {operand : Expr} {span : Span} (written : Written operand) :
      Written (.negation operand span)
  | binary {operator : Operator} {first second : Expr} {span : Span}
      (firstWritten : Written first) (secondWritten : Written second) :
      Written (.binary operator first second span)

mutual

/-- The text of an expression, with every operand in parentheses and the same blanks around operators
and behind commas. -/
def chars (gap : List Char) : Expr → List Char
  | number value _ => (Number.text value).toList
  | identifier name _ => name.toList
  | resolution width height _ => width.toList ++ 'x' :: height.toList
  | array items _ => '[' :: (listChars gap items ++ [']'])
  | call function arguments _ => function.toList ++ '(' :: (listChars gap arguments ++ [')'])
  | negation operand _ => '-' :: '(' :: (operand.chars gap ++ [')'])
  | binary operator first second _ =>
      '(' :: (first.chars gap ++ ')' ::
        (gap ++ (operator.symbol.toList ++ (gap ++ '(' :: (second.chars gap ++ [')'])))))

def listChars (gap : List Char) : List Expr → List Char
  | [] => []
  | first :: others => first.chars gap ++ othersChars gap others

def othersChars (gap : List Char) : List Expr → List Char
  | [] => []
  | next :: others => ',' :: (gap ++ next.chars gap) ++ othersChars gap others

end

def text (gap : String) (expression : Expr) : String := .ofList (expression.chars gap.toList)

mutual

def literals : Expr → List Float
  | number value _ => [value]
  | identifier _ _ | resolution _ _ _ => []
  | array items _ => allLiterals items
  | call _ arguments _ => allLiterals arguments
  | negation operand _ => operand.literals
  | binary _ first second _ => first.literals ++ second.literals

def allLiterals : List Expr → List Float
  | [] => []
  | first :: others => first.literals ++ allLiterals others

end

theorem list_chars_eq (gap : List Char) (items : List Expr) :
    listChars gap items = List.intercalate (',' :: gap) (items.map (chars gap)) := by
  have others (items : List Expr) : othersChars gap items =
      (items.map (chars gap)).flatMap fun text => ',' :: gap ++ text := by
    induction items with
    | nil => rfl
    | cons next items induction =>
        rw [othersChars, induction, List.map_cons, List.flatMap_cons]
        rfl
  cases items with
  | nil => rfl
  | cons first items => rw [listChars, others, List.map_cons, intercalate_cons]

theorem list_readable {gap : List Char} (gaps : ∀ char ∈ gap, isGap char = true)
    {items : List Expr}
    (readable : ∀ item ∈ items, Readable (item.chars gap) (Part.IsWhole item)) :
    Readable (listChars gap items) (Part.IsItems items) := by
  rw [list_chars_eq]
  apply Readable.items gaps
  rw [List.forall₂_map_left_iff, List.forall₂_same]
  exact readable

theorem numeral_spelled (numeral : Number.Numeral) :
    Spelling (.number numeral.decimal) numeral.chars := by
  obtain ⟨whole, fraction, begun, wholeDigits, fractionDigits⟩ := numeral
  cases fraction with
  | nil =>
      rw [Number.Numeral.chars, Number.Numeral.pointed, List.append_nil]
      exact .whole ⟨begun, wholeDigits⟩
  | cons digit fraction => exact .pointed (.inl begun) wholeDigits fractionDigits

theorem number_readable {value : Float} (finite : Number.isFinite value = true)
    (unsigned : Number.isNegative value = false) (span : Span) :
    Readable (Number.text value).toList (Part.IsPrimary (.number value span)) := by
  obtain ⟨numeral, chars, reads⟩ := Number.text_unsigned finite unsigned
  rw [chars]
  refine .atom (numeral_spelled numeral) rfl fun place => ⟨_, .atom rfl, ?_⟩
  rw [bare, bare, reads]

namespace Written

theorem readable {gap : List Char} (gaps : ∀ char ∈ gap, isGap char = true) {expression : Expr}
    (written : expression.Written) :
    Readable (expression.chars gap) (Part.IsWhole expression) := by
  induction written with
  | number finite unsigned =>
      rw [chars]
      exact (number_readable finite unsigned _).whole
  | @word name span spelled =>
      rw [chars]
      exact (Readable.atom spelled rfl fun place => ⟨_, .name name place, by rw [bare, bare]⟩).whole
  | label spelled =>
      rw [chars]
      exact (Readable.atom spelled rfl fun place => ⟨_, .atom rfl, by rw [bare, bare]⟩).whole
  | resolution spelled =>
      rw [chars]
      exact (Readable.atom spelled rfl fun place => ⟨_, .atom rfl, by rw [bare, bare]⟩).whole
  | array written readable =>
      rw [chars]
      exact (Readable.array _ (list_readable gaps readable)).whole
  | call spelled written readable =>
      rw [chars]
      exact (Readable.call _ spelled (list_readable gaps readable)).whole
  | negation written readable =>
      rw [chars]
      exact .negation _ readable.group
  | binary firstWritten secondWritten firstReadable secondReadable =>
      rw [chars]
      exact .binary gaps _ _ firstReadable secondReadable

end Written

namespace Chain

def All {Operand : Type} (property : Operand → Prop) (chain : Chain Operand) : Prop :=
  property chain.first ∧ ∀ link ∈ chain.rest, property link.2

theorem all_append {Operand : Type} {property : Operand → Prop} (left right : Chain Operand)
    (operator : Operator) :
    (left.append operator right).All property ↔ left.All property ∧ right.All property := by
  simp only [All, append, List.forall_mem_append, List.forall_mem_cons]
  tauto

theorem all_extend {Operand : Type} {property : Operand → Prop} (chain : Chain Operand)
    (operator : Operator) (next : Operand) :
    (chain.extend operator next).All property ↔ chain.All property ∧ property next := by
  rw [extend, all_append]
  simp [All]

theorem grouping_of_all {property : Expr → Prop}
    (joined : ∀ operator left right, property left → property right →
      property (join operator left right))
    (grouping : Grouping Expr) (all : grouping.chain.All property) : property grouping.expr := by
  induction grouping with
  | operand only => exact all.1
  | join operator left right leftInduction rightInduction =>
      rw [Grouping.chain, all_append] at all
      exact joined operator _ _ (leftInduction all.1) (rightInduction all.2)

theorem signed_of_all {property : Expr → Prop}
    (joined : ∀ operator left right, property left → property right →
      property (join operator left right))
    (chain : Chain Operand) (all : chain.All fun operand => property operand.expr) :
    property chain.signedExpr := by
  apply grouping_of_all joined
  rw [Grouping.chain_grouping]
  refine ⟨all.1, fun link member => ?_⟩
  obtain ⟨original, inside, rfl⟩ := List.mem_map.1 member
  exact all.2 original inside

end Chain

theorem spelling_word {name : String} {chars : List Char} (spelled : Spelling (.word name) chars) :
    Spelling (.word name) name.toList := by
  cases spelled with
  | word start kept =>
      rw [String.toList_ofList]
      exact .word start kept
  | punctuation isPunctuation => cases Token.plain_of_punctuation isPunctuation

theorem spelling_label {name : String} {chars : List Char}
    (spelled : Spelling (.label name) chars) : Spelling (.label name) name.toList := by
  cases spelled with
  | label isDigits isFinal =>
      rw [String.toList_ofList]
      exact .label isDigits isFinal
  | punctuation isPunctuation => cases Token.plain_of_punctuation isPunctuation

theorem spelling_resolution {width height : String} {chars : List Char}
    (spelled : Spelling (.resolution width height) chars) :
    Spelling (.resolution width height) (width.toList ++ 'x' :: height.toList) := by
  cases spelled with
  | resolution digit widthChars heightChars =>
      rw [String.toList_ofList, String.toList_ofList]
      exact .resolution digit widthChars heightChars
  | punctuation isPunctuation => cases Token.plain_of_punctuation isPunctuation

def Part.All (property : Expr → Prop) : Part → Prop
  | primary value => property value
  | operand signed => property signed.expr
  | whole chain => chain.All fun signed => property signed.expr
  | items list => ∀ item ∈ list, property item

/-- A property that spelled tokens give and every form of expression keeps. -/
structure Inherited (property : Expr → Prop) : Prop where
  number (decimal : Number.Decimal) (span : Span) : property (.number decimal.toFloat span)
  word {name : String} (span : Span) (spelled : Spelling (.word name) name.toList) :
    property (.identifier name span)
  label {name : String} (span : Span) (spelled : Spelling (.label name) name.toList) :
    property (.identifier name span)
  resolution {width height : String} (span : Span)
    (spelled : Spelling (.resolution width height) (width.toList ++ 'x' :: height.toList)) :
    property (.resolution width height span)
  array {items : List Expr} (span : Span) (each : ∀ item ∈ items, property item) :
    property (.array items span)
  call {function : String} {arguments : List Expr} (span : Span)
    (spelled : Spelling (.word function) function.toList)
    (each : ∀ argument ∈ arguments, property argument) : property (.call function arguments span)
  negation {operand : Expr} (span : Span) (inner : property operand) :
    property (.negation operand span)
  binary {first second : Expr} (operator : Operator) (span : Span) (left : property first)
    (right : property second) : property (.binary operator first second span)

theorem parse_ok_iff (text : String) (result : Expr) :
    parse text = .ok result ↔ readChars text.toList = .ok result := by
  unfold parse read
  cases readChars text.toList <;> simp [Except.mapError]

theorem parse_of_chars {chars : List Char} {result : Expr}
    (isRead : (readChars chars).toOption = some result) : parse (.ofList chars) = .ok result := by
  rw [parse_ok_iff, String.toList_ofList]
  exact ok_of_option isRead

namespace Inherited

variable {property : Expr → Prop}

theorem signed (inherited : Inherited property) {chain : Chain Operand}
    (all : (Part.whole chain).All property) : property chain.signedExpr :=
  Chain.signed_of_all (fun operator _ _ left right => inherited.binary operator _ left right)
    chain all

/-- What spelled tokens are read as has every property that is inherited. -/
theorem reads (inherited : Inherited property) {placed : List Placed} {part : Part}
    (reads : Reads placed part)
    (spelled : ∀ token ∈ placed.map Placed.token, ∃ chars, Spelling token chars) :
    part.All property := by
  induction reads with
  | @atom placed value isAtom =>
      obtain ⟨token, span⟩ := placed
      obtain ⟨chars, spelling⟩ := spelled token (by simp)
      cases token with
      | number decimal =>
          cases isAtom
          exact inherited.number decimal span
      | label name =>
          cases isAtom
          exact inherited.label span (spelling_label spelling)
      | resolution width height =>
          cases isAtom
          exact inherited.resolution span (spelling_resolution spelling)
      | _ => cases isAtom
  | name word span =>
      obtain ⟨chars, spelling⟩ := spelled (.word word) (by simp)
      exact inherited.word span (spelling_word spelling)
  | group left right inside all =>
      exact inherited.signed (all fun token member => spelled token (by simp [member]))
  | array left right inside all =>
      exact inherited.array _ (all fun token member => spelled token (by simp [member]))
  | call function name left right inside all =>
      obtain ⟨chars, spelling⟩ := spelled (.word function) (by simp)
      exact inherited.call _ (spelling_word spelling)
        (all fun token member => spelled token (by simp [member]))
  | plain reads all => exact all spelled
  | minus span behind all =>
      exact inherited.negation _ (all fun token member => spelled token (List.mem_cons_of_mem _ member))
  | single reads all => exact ⟨all spelled, by simp⟩
  | extend operator span before behind beforeAll behindAll =>
      have first := beforeAll fun token member => spelled token (by simp [member])
      have last := behindAll fun token member => spelled token (by simp [member])
      rw [Part.All, Chain.all_extend]
      exact ⟨first, last⟩
  | none => simp [Part.All]
  | one reads all =>
      intro item member
      rw [List.mem_singleton.1 member]
      exact inherited.signed (all spelled)
  | comma span before behind beforeAll behindAll =>
      have first := beforeAll fun token member => spelled token (by simp [member])
      have last := behindAll fun token member => spelled token (by simp [member])
      intro item member
      rcases List.mem_append.1 member with early | final
      · exact first item early
      · rw [List.mem_singleton.1 final]
        exact inherited.signed last

theorem parsed (inherited : Inherited property) {text : String} {expression : Expr}
    (parsed : parse text = .ok expression) : property expression := by
  rw [parse_ok_iff, read_chars_iff] at parsed
  obtain ⟨complete, chain, reads, rfl⟩ := parsed
  obtain ⟨final, row⟩ := row_of_scan complete
  exact inherited.signed (inherited.reads reads row.tokens_spelled)

end Inherited

/-- What a literal is read as that is too large for a finite number. -/
def overflow : Float := Number.ofPattern false Number.infinityPattern

/-- An expression that can be written, unless one of its literals is too large. -/
def Sound (expression : Expr) : Prop := overflow ∉ expression.literals → expression.Written

theorem sound_number (decimal : Number.Decimal) (span : Span) :
    Sound (.number decimal.toFloat span) := by
  intro plain
  have number : decimal.nearest ≤ Number.infinityPattern := Number.nearest_le _ _
  have notInfinite : decimal.nearest ≠ Number.infinityPattern := by
    intro infinite
    apply plain
    rw [literals, List.mem_singleton, Number.Decimal.toFloat, infinite, overflow]
  refine .number ?_ ?_
  · rw [Number.isFinite, Number.Decimal.toFloat, Number.pattern_of_pattern false number]
    exact decide_eq_true (Nat.lt_of_le_of_ne number notInfinite)
  · exact Number.is_negative_of_pattern false number

theorem sound_all {items : List Expr} (sound : ∀ item ∈ items, item.Sound)
    (plain : overflow ∉ allLiterals items) : ∀ item ∈ items, item.Written := by
  induction items with
  | nil => simp
  | cons first others induction =>
      rw [allLiterals, List.mem_append, not_or] at plain
      intro item member
      rcases List.mem_cons.1 member with rfl | later
      · exact sound item List.mem_cons_self plain.1
      · exact induction (fun item member => sound item (List.mem_cons_of_mem _ member)) plain.2
          item later

theorem sound_inherited : Inherited Sound where
  number := sound_number
  word _ spelled _ := .word spelled
  label _ spelled _ := .label spelled
  resolution _ spelled _ := .resolution spelled
  array _ sound := by
    intro plain
    rw [literals] at plain
    exact .array (sound_all sound plain)
  call _ spelled sound := by
    intro plain
    rw [literals] at plain
    exact .call spelled (sound_all sound plain)
  negation _ sound := fun plain => .negation (sound plain)
  binary _ _ leftSound rightSound := by
    intro plain
    rw [literals, List.mem_append, not_or] at plain
    exact .binary (leftSound plain.1) (rightSound plain.2)

theorem Readable.parse {chars : List Char} {expression : Expr}
    (readable : Readable chars (Part.IsWhole expression)) :
    ∃ result, ImageGraph.parse (.ofList chars) = .ok result ∧ result.bare = expression.bare := by
  obtain ⟨tokens, final, row, reads⟩ := readable
  obtain ⟨complete, scanned⟩ := scan_of_row row 0
  obtain ⟨part, reads, means⟩ := reads _ scanned
  cases part with
  | whole chain =>
      refine ⟨chain.signedExpr, ?_, means⟩
      rw [parse_ok_iff, String.toList_ofList, read_chars_iff]
      exact ⟨complete, chain, reads, rfl⟩
  | _ => exact means.elim

/-- What can be written is read back, spans aside, and what is read can be written. -/
theorem written_read_back_and_read_written :
    (∀ gap : String, (∀ char ∈ gap.toList, isGap char = true) →
      ∀ expression : Expr, expression.Written →
        ∃ result, parse (expression.text gap) = .ok result ∧ result.bare = expression.bare) ∧
      ∀ text result, parse text = .ok result →
        result.Written ∨ overflow ∈ result.literals := by
  constructor
  · intro gap gaps expression written
    exact (written.readable gaps).parse
  · intro text result parsed
    have sound := sound_inherited.parsed parsed
    by_cases large : overflow ∈ result.literals
    · exact .inr large
    · exact .inl (sound large)

/-- An expression with a part of every kind. -/
def assorted : Expr :=
  .binary (.blend .gamma)
    (.call "blend"
      [.identifier "4k" nowhere,
        .array [.number 0.5 nowhere, .negation (.identifier "pi" nowhere) nowhere] nowhere] nowhere)
    (.resolution "1920" "1080." nowhere) nowhere

theorem assorted_written : assorted.Written := by
  have digits : Token.IsDigits ['4'] := ⟨by decide, List.all_eq_true.1 (by decide)⟩
  have label : Spelling (.label "4k") "4k".toList := .label digits (.inr rfl)
  have word : Spelling (.word "pi") "pi".toList :=
    .word (by decide) (List.all_eq_true.1 (by decide))
  have function : Spelling (.word "blend") "blend".toList :=
    .word (by decide) (List.all_eq_true.1 (by decide))
  have halves : Spelling (.resolution "1920" "1080.") ("1920".toList ++ 'x' :: "1080.".toList) :=
    .resolution (by decide) (List.all_eq_true.1 (by decide)) (List.all_eq_true.1 (by decide))
  refine .binary (.call function ?_) (.resolution halves)
  simp only [List.forall_mem_cons]
  refine ⟨.label label, .array ?_, by simp⟩
  simp only [List.forall_mem_cons]
  exact ⟨.number (by decide +kernel) (by decide +kernel), .negation (.word word), by simp⟩

theorem assorted_read_back :
    (∀ char ∈ " ".toList, isGap char = true) ∧ assorted.Written ∧
      (∃ result, parse (assorted.text " ") = .ok result ∧ result.bare = assorted.bare) ∧
      parse "-4k !** a" =
        .ok (.binary (.blend .gamma) (.negation (.identifier "4k" ⟨1, 3⟩) ⟨0, 3⟩)
          (.identifier "a" ⟨8, 9⟩) ⟨0, 9⟩) ∧
      (Written (.binary (.blend .gamma) (.negation (.identifier "4k" ⟨1, 3⟩) ⟨0, 3⟩)
          (.identifier "a" ⟨8, 9⟩) ⟨0, 9⟩) ∨
        overflow ∈ literals (.binary (.blend .gamma) (.negation (.identifier "4k" ⟨1, 3⟩) ⟨0, 3⟩)
          (.identifier "a" ⟨8, 9⟩) ⟨0, 9⟩)) := by
  have gaps : ∀ char ∈ " ".toList, isGap char = true := List.all_eq_true.1 (by decide)
  have parsed : parse "-4k !** a" =
      .ok (.binary (.blend .gamma) (.negation (.identifier "4k" ⟨1, 3⟩) ⟨0, 3⟩)
        (.identifier "a" ⟨8, 9⟩) ⟨0, 9⟩) := by cbv
  exact ⟨gaps, assorted_written,
    written_read_back_and_read_written.1 " " gaps assorted assorted_written, parsed,
    written_read_back_and_read_written.2 _ _ parsed⟩

end ImageGraph.Expr
