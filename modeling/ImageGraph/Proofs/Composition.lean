import ImageGraph.Proofs.Reading
import ImageGraph.Proofs.Scanning
import ImageGraph.Proofs.Spans

/-!
Texts put together. Brackets, minus signs, operators and commas are put around texts that can be read,
and what comes out can be read again, as the expression that is put together in the same way.
-/

set_option autoImplicit false

namespace ImageGraph.Expr

open Token

namespace Part

def IsPrimary (expression : Expr) : Part → Prop
  | primary value => value.bare = expression.bare
  | _ => False

def IsWhole (expression : Expr) : Part → Prop
  | whole chain => chain.signedExpr.bare = expression.bare
  | _ => False

def IsItems (expressions : List Expr) : Part → Prop
  | items list => bareAll list = bareAll expressions
  | _ => False

end Part

/-- A row of tokens that is read as some part of an expression, wherever the tokens stand. -/
def Readable (chars : List Char) (means : Part → Prop) : Prop :=
  ∃ tokens final, Row false chars tokens final ∧
    ∀ placed, placed.map Placed.token = tokens → ∃ part, Reads placed part ∧ means part

theorem placed_enclosed {placed : List Placed} {tokens more : List Token} {opening closing : Token}
    (same : placed.map Placed.token = opening :: (tokens ++ closing :: more)) :
    ∃ left right inside behind,
      placed = ⟨opening, left⟩ :: (inside ++ ⟨closing, right⟩ :: behind) ∧
        inside.map Placed.token = tokens ∧ behind.map Placed.token = more := by
  obtain ⟨⟨token, left⟩, others, rfl, isOpening, same⟩ := List.map_eq_cons_iff.1 same
  obtain ⟨inside, others, rfl, isInside, same⟩ := List.map_eq_append_iff.1 same
  obtain ⟨⟨token', right⟩, behind, rfl, isClosing, isBehind⟩ := List.map_eq_cons_iff.1 same
  cases isOpening
  cases isClosing
  exact ⟨left, right, inside, behind, rfl, isInside, isBehind⟩

theorem Row.enclosed {afterOperand middle final : Bool} {chars behind : List Char}
    {tokens more : List Token} {opening closing : Char} {openingToken closingToken : Token}
    (opens : punctuation? opening = some openingToken) (begins : openingToken.endsOperand = false)
    (closes : punctuation? closing = some closingToken) (stop : closing ∈ stops)
    (inside : Row false chars tokens middle)
    (row : Row closingToken.endsOperand behind more final) :
    Row afterOperand (opening :: (chars ++ closing :: behind))
      (openingToken :: (tokens ++ closingToken :: more)) final := by
  apply Row.punctuation opens
  rw [begins]
  apply inside.append (Row.punctuation closes row)
  intro char member
  cases member
  exact stop

theorem space_gap : ∀ char ∈ [' '], isGap char = true := List.all_eq_true.1 rfl

theorem intercalate_cons (separator text : List Char) (texts : List (List Char)) :
    List.intercalate separator (text :: texts) =
      text ++ texts.flatMap fun next => separator ++ next := by
  induction texts generalizing text with
  | nil => simp
  | cons next texts induction =>
      rw [List.intercalate_cons_cons, induction, List.flatMap_cons, List.append_assoc,
        List.append_assoc]

namespace Readable

variable {chars : List Char} {expression : Expr}

theorem whole (primary : Readable chars (Part.IsPrimary expression)) :
    Readable chars (Part.IsWhole expression) := by
  obtain ⟨tokens, final, row, reads⟩ := primary
  refine ⟨tokens, final, row, fun placed same => ?_⟩
  obtain ⟨part, reads, means⟩ := reads placed same
  cases part with
  | primary value => exact ⟨_, .single (.plain reads), means⟩
  | _ => exact means.elim

theorem group (inside : Readable chars (Part.IsWhole expression)) :
    Readable ('(' :: (chars ++ [')'])) (Part.IsPrimary expression) := by
  obtain ⟨tokens, final, row, reads⟩ := inside
  refine ⟨_, _, row.enclosed rfl rfl rfl (by decide) (.blank (by simp)), fun placed same => ?_⟩
  obtain ⟨left, right, inside, behind, rfl, isInside, isBehind⟩ := placed_enclosed same
  obtain rfl := List.map_eq_nil_iff.1 isBehind
  obtain ⟨part, reads, means⟩ := reads inside isInside
  cases part with
  | whole chain => exact ⟨_, .group left right reads, means⟩
  | _ => exact means.elim

theorem atom {token : Token} (spelled : Spelling token chars) (suits : token.suits false = true)
    (isAtom : ∀ span, ∃ value, Reads [⟨token, span⟩] (.primary value) ∧
      value.bare = expression.bare) : Readable chars (Part.IsPrimary expression) := by
  refine ⟨[token], _, .spelling spelled suits, fun placed same => ?_⟩
  obtain ⟨⟨token, span⟩, others, rfl, rfl, isEnd⟩ := List.map_eq_cons_iff.1 same
  obtain rfl := List.map_eq_nil_iff.1 isEnd
  obtain ⟨value, reads, means⟩ := isAtom span
  exact ⟨_, reads, means⟩

theorem negation (span : Span) (operand : Readable chars (Part.IsPrimary expression)) :
    Readable ('-' :: chars) (Part.IsWhole (.negation expression span)) := by
  obtain ⟨tokens, final, row, reads⟩ := operand
  refine ⟨_, _, row.minus, fun placed same => ?_⟩
  obtain ⟨⟨token, minus⟩, others, rfl, isMinus, isOperand⟩ := List.map_eq_cons_iff.1 same
  cases isMinus
  obtain ⟨part, reads, means⟩ := reads others isOperand
  cases part with
  | primary value =>
      refine ⟨_, .single (.minus minus (.plain reads)), ?_⟩
      exact congrArg (fun inner => Expr.negation inner nowhere) means
  | _ => exact means.elim

theorem binary {second : List Char} {right : Expr} {gap : List Char}
    (gaps : ∀ char ∈ gap, isGap char = true) (operator : Operator) (span : Span)
    (first : Readable chars (Part.IsWhole expression))
    (other : Readable second (Part.IsWhole right)) :
    Readable
      ('(' :: (chars ++ ')' ::
        (gap ++ (operator.symbol.toList ++ (gap ++ '(' :: (second ++ [')']))))))
      (Part.IsWhole (.binary operator expression right span)) := by
  obtain ⟨tokens, final, row, reads⟩ := first
  obtain ⟨more, last, others, readsOthers⟩ := other
  have rest : Row false (gap ++ '(' :: (second ++ [')']))
      (.openParen :: (more ++ .closeParen :: [])) true :=
    .gap gaps (others.enclosed rfl rfl rfl (by decide) (.blank (by simp)))
  have stops : Stops (gap ++ '(' :: (second ++ [')'])) := by
    cases gap with
    | nil =>
        intro char member
        cases member
        decide
    | cons char gap =>
        have stops := stops_of_gaps gaps
        exact stops
  have symbol : Row true operator.symbol.toList [.operator operator] false :=
    .spelling (.operator operator) rfl
  refine ⟨_, _, row.enclosed rfl rfl rfl (by decide) ((symbol.append rest stops).gap gaps),
    fun placed same => ?_⟩
  obtain ⟨open₁, close₁, inside, behind, rfl, isInside, isBehind⟩ := placed_enclosed same
  obtain ⟨⟨token, place⟩, others, rfl, isOperator, isOthers⟩ := List.map_eq_cons_iff.1 isBehind
  cases isOperator
  obtain ⟨open₂, close₂, inside₂, rest, rfl, isInside₂, isRest⟩ := placed_enclosed isOthers
  obtain rfl := List.map_eq_nil_iff.1 isRest
  obtain ⟨part, reads, means⟩ := reads inside isInside
  obtain ⟨part₂, reads₂, means₂⟩ := readsOthers inside₂ isInside₂
  cases part with
  | whole chain =>
      cases part₂ with
      | whole chain₂ =>
          have whole := Reads.extend operator place (.single (.plain (.group open₁ close₁ reads)))
            (.plain (.group open₂ close₂ reads₂))
          refine ⟨_, by simpa using whole, ?_⟩
          exact congrArg₂ (fun left right => Expr.binary operator left right nowhere) means means₂
      | _ => exact means₂.elim
  | _ => exact means.elim

variable {expressions : List Expr}

theorem none : Readable [] (Part.IsItems []) := by
  refine ⟨[], false, .blank (by simp), fun placed same => ?_⟩
  obtain rfl := List.map_eq_nil_iff.1 same
  exact ⟨_, .none, rfl⟩

theorem one (single : Readable chars (Part.IsWhole expression)) :
    Readable chars (Part.IsItems [expression]) := by
  obtain ⟨tokens, final, row, reads⟩ := single
  refine ⟨tokens, final, row, fun placed same => ?_⟩
  obtain ⟨part, reads, means⟩ := reads placed same
  cases part with
  | whole chain => exact ⟨_, .one reads, congrArg (fun inner => [inner]) means⟩
  | _ => exact means.elim

theorem comma {second : List Char} {last : Expr} {gap : List Char}
    (gaps : ∀ char ∈ gap, isGap char = true)
    (items : Readable chars (Part.IsItems (expression :: expressions)))
    (other : Readable second (Part.IsWhole last)) :
    Readable (chars ++ ',' :: (gap ++ second))
      (Part.IsItems (expression :: expressions ++ [last])) := by
  obtain ⟨tokens, final, row, reads⟩ := items
  obtain ⟨more, ends, others, readsOthers⟩ := other
  have rest : Row final (',' :: (gap ++ second)) (.comma :: more) ends :=
    .punctuation rfl (others.gap gaps)
  refine ⟨_, _, row.append rest ?_, fun placed same => ?_⟩
  · intro char member
    cases member
    decide
  obtain ⟨inside, behind, rfl, isInside, isBehind⟩ := List.map_eq_append_iff.1 same
  obtain ⟨⟨token, place⟩, others, rfl, isComma, isOthers⟩ := List.map_eq_cons_iff.1 isBehind
  cases isComma
  obtain ⟨part, reads, means⟩ := reads inside isInside
  obtain ⟨part₂, reads₂, means₂⟩ := readsOthers others isOthers
  cases part with
  | items list =>
      cases part₂ with
      | whole chain =>
          cases list with
          | nil => cases means
          | cons first list =>
              refine ⟨_, .comma place reads reads₂, ?_⟩
              exact bare_all_append means (congrArg (fun inner => [inner]) means₂)
      | _ => exact means₂.elim
  | _ => exact means.elim

theorem more {gap : List Char} (gaps : ∀ char ∈ gap, isGap char = true) {texts : List (List Char)}
    {others : List Expr}
    (readable : List.Forall₂ (fun text other => Readable text (Part.IsWhole other)) texts others)
    (items : Readable chars (Part.IsItems (expression :: expressions))) :
    Readable (chars ++ texts.flatMap fun text => ',' :: (gap ++ text))
      (Part.IsItems (expression :: (expressions ++ others))) := by
  induction readable generalizing chars expressions with
  | nil =>
      rw [List.flatMap_nil, List.append_nil, List.append_nil]
      exact items
  | @cons text other _ _ head tail induction =>
      have longer : Readable (chars ++ ',' :: (gap ++ text))
          (Part.IsItems (expression :: (expressions ++ [other]))) := items.comma gaps head
      have longer := induction longer
      rw [List.append_assoc, List.append_assoc] at longer
      rw [List.flatMap_cons]
      exact longer

theorem items {gap : List Char} (gaps : ∀ char ∈ gap, isGap char = true)
    {texts : List (List Char)}
    (readable : List.Forall₂ (fun text item => Readable text (Part.IsWhole item)) texts expressions) :
    Readable (List.intercalate (',' :: gap) texts) (Part.IsItems expressions) := by
  cases readable with
  | nil => exact none
  | cons head tail =>
      rw [intercalate_cons]
      exact more gaps tail head.one

theorem array (span : Span) (items : Readable chars (Part.IsItems expressions)) :
    Readable ('[' :: (chars ++ [']'])) (Part.IsPrimary (.array expressions span)) := by
  obtain ⟨tokens, final, row, reads⟩ := items
  refine ⟨_, _, row.enclosed rfl rfl rfl (by decide) (.blank (by simp)), fun placed same => ?_⟩
  obtain ⟨left, right, inside, behind, rfl, isInside, isBehind⟩ := placed_enclosed same
  obtain rfl := List.map_eq_nil_iff.1 isBehind
  obtain ⟨part, reads, means⟩ := reads inside isInside
  cases part with
  | items list =>
      refine ⟨_, .array left right reads, ?_⟩
      exact congrArg (fun items => Expr.array items nowhere) means
  | _ => exact means.elim

theorem call {function : String} (span : Span)
    (word : Spelling (.word function) function.toList)
    (items : Readable chars (Part.IsItems expressions)) :
    Readable (function.toList ++ '(' :: (chars ++ [')']))
      (Part.IsPrimary (.call function expressions span)) := by
  obtain ⟨tokens, final, row, reads⟩ := items
  have arguments : Row true ('(' :: (chars ++ [')'])) (.openParen :: (tokens ++ [.closeParen])) true :=
    row.enclosed rfl rfl rfl (by decide) (.blank (by simp))
  refine ⟨_, _, (Row.spelling word rfl).append arguments ?_, fun placed same => ?_⟩
  · intro char member
    cases member
    decide
  obtain ⟨⟨token, name⟩, others, rfl, isWord, isOthers⟩ := List.map_eq_cons_iff.1 same
  cases isWord
  obtain ⟨left, right, inside, behind, rfl, isInside, isBehind⟩ := placed_enclosed isOthers
  obtain rfl := List.map_eq_nil_iff.1 isBehind
  obtain ⟨part, reads, means⟩ := reads inside isInside
  cases part with
  | items list =>
      refine ⟨_, .call function name left right reads, ?_⟩
      exact congrArg (fun items => Expr.call function items nowhere) means
  | _ => exact means.elim

end Readable

end ImageGraph.Expr
