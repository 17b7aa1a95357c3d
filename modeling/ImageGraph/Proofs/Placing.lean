import ImageGraph.Proofs.Precedence
import ImageGraph.Proofs.Written

/-!
Where the tokens of an expression stand is of no account. The same tokens in other places are read as
the same expression, spans aside.
-/

set_option autoImplicit false

namespace ImageGraph.Expr

def Operand.bare (operand : Operand) : Operand :=
  ⟨operand.minuses.map fun _ => 0, operand.primary.bare⟩

theorem Operand.expr_bare (operand : Operand) :
    operand.expr.bare =
      operand.bare.minuses.foldr (fun _ inner => .negation inner nowhere) operand.bare.primary := by
  obtain ⟨minuses, primary⟩ := operand
  induction minuses with
  | nil => rfl
  | cons start minuses induction =>
      exact congrArg (fun inner => Expr.negation inner nowhere) induction

theorem Grouping.expr_bare {grouping other : Grouping Expr}
    (same : grouping.map Expr.bare = other.map Expr.bare) :
    grouping.expr.bare = other.expr.bare := by
  induction grouping generalizing other with
  | operand only =>
      cases other with
      | operand => exact Grouping.operand.inj same
      | join => cases same
  | join operator left right leftInduction rightInduction =>
      cases other with
      | operand => cases same
      | join operator' left' right' =>
          obtain ⟨rfl, sameLeft, sameRight⟩ := Grouping.join.inj same
          exact congrArg₂ (fun first second => Expr.binary operator first second nowhere)
            (leftInduction sameLeft) (rightInduction sameRight)

theorem Chain.signed_bare {chain other : Chain Operand}
    (same : chain.map Operand.bare = other.map Operand.bare) :
    chain.signedExpr.bare = other.signedExpr.bare := by
  have bared (chain : Chain Operand) : (chain.map Operand.expr).map Expr.bare =
      (chain.map Operand.bare).map fun operand =>
        operand.minuses.foldr (fun _ inner => Expr.negation inner nowhere) operand.primary := by
    simp only [map, List.map_map, Function.comp_def, Operand.expr_bare]
  apply Grouping.expr_bare
  rw [Grouping.map_grouping, Grouping.map_grouping, bared, bared, same]

/-- Two parts that are alike but for their spans. -/
def Part.Matches : Part → Part → Prop
  | primary value, primary other => value.bare = other.bare
  | operand signed, operand other => signed.bare = other.bare
  | whole chain, whole other => chain.map Operand.bare = other.map Operand.bare
  | items list, items others => bareAll list = bareAll others
  | _, _ => False

theorem atom_bare {token : Token} {span place : Span} {value : Expr}
    (isAtom : State.atom? token span = some value) :
    ∃ other, State.atom? token place = some other ∧ other.bare = value.bare := by
  cases token with
  | number decimal =>
      cases isAtom
      exact ⟨_, rfl, rfl⟩
  | label name =>
      cases isAtom
      exact ⟨_, rfl, rfl⟩
  | resolution width height =>
      cases isAtom
      exact ⟨_, rfl, rfl⟩
  | _ => cases isAtom

/-- Wherever the same tokens stand, they are read as a part that is alike. -/
def Movable (tokens : List Placed) (part : Part) : Prop :=
  ∀ placed : List Placed, placed.map Placed.token = tokens.map Placed.token →
    ∃ again, Reads placed again ∧ again.Matches part

theorem Movable.enclosed {tokens placed : List Placed} {part : Part} {opening closing : Token}
    {left right : Span} (movable : Movable tokens part)
    (same : placed.map Placed.token =
      (⟨opening, left⟩ :: (tokens ++ [⟨closing, right⟩])).map Placed.token) :
    ∃ start stop inside again, placed = ⟨opening, start⟩ :: (inside ++ [⟨closing, stop⟩]) ∧
      Reads inside again ∧ again.Matches part := by
  rw [List.map_cons, List.map_append] at same
  obtain ⟨start, stop, inside, behind, rfl, isInside, isBehind⟩ := placed_enclosed same
  obtain rfl := List.map_eq_nil_iff.1 isBehind
  obtain ⟨again, reads, alike⟩ := movable inside isInside
  exact ⟨start, stop, inside, again, rfl, reads, alike⟩

theorem Movable.parted {tokens more placed : List Placed} {part last : Part} {token : Token}
    {span : Span} (movable : Movable tokens part) (lastMovable : Movable more last)
    (same : placed.map Placed.token = (tokens ++ ⟨token, span⟩ :: more).map Placed.token) :
    ∃ before place behind again lastAgain, placed = before ++ ⟨token, place⟩ :: behind ∧
      Reads before again ∧ again.Matches part ∧ Reads behind lastAgain ∧
      lastAgain.Matches last := by
  rw [List.map_append, List.map_cons] at same
  obtain ⟨before, others, rfl, isBefore, same⟩ := List.map_eq_append_iff.1 same
  obtain ⟨⟨token', place⟩, behind, rfl, isToken, isBehind⟩ := List.map_eq_cons_iff.1 same
  cases isToken
  obtain ⟨again, reads, alike⟩ := movable before isBefore
  obtain ⟨lastAgain, lastReads, lastAlike⟩ := lastMovable behind isBehind
  exact ⟨before, place, behind, again, lastAgain, rfl, reads, alike, lastReads, lastAlike⟩

theorem Reads.movable {tokens : List Placed} {part : Part} (reads : Reads tokens part) :
    Movable tokens part := by
  induction reads with
  | @atom original value isAtom =>
      intro placed same
      obtain ⟨⟨token, place⟩, others, rfl, rfl, isEnd⟩ := List.map_eq_cons_iff.1 same
      obtain rfl := List.map_eq_nil_iff.1 isEnd
      obtain ⟨other, isOther, alike⟩ := atom_bare isAtom
      exact ⟨_, .atom isOther, alike⟩
  | name word span =>
      intro placed same
      obtain ⟨⟨token, place⟩, others, rfl, isWord, isEnd⟩ := List.map_eq_cons_iff.1 same
      obtain rfl := List.map_eq_nil_iff.1 isEnd
      cases isWord
      exact ⟨_, .name word place, rfl⟩
  | group left right inside movable =>
      intro placed same
      obtain ⟨start, stop, inside, part, rfl, reads, alike⟩ := movable.enclosed same
      cases part with
      | whole chain => exact ⟨_, .group start stop reads, Chain.signed_bare alike⟩
      | _ => exact alike.elim
  | array left right inside movable =>
      intro placed same
      obtain ⟨start, stop, inside, part, rfl, reads, alike⟩ := movable.enclosed same
      cases part with
      | items list =>
          refine ⟨_, .array start stop reads, ?_⟩
          exact congrArg (fun items => Expr.array items nowhere) alike
      | _ => exact alike.elim
  | call function name left right inside movable =>
      intro placed same
      obtain ⟨⟨token, place⟩, others, rfl, isWord, enclosed⟩ := List.map_eq_cons_iff.1 same
      cases isWord
      obtain ⟨start, stop, inside, part, rfl, reads, alike⟩ := movable.enclosed enclosed
      cases part with
      | items list =>
          refine ⟨_, .call function place start stop reads, ?_⟩
          exact congrArg (fun items => Expr.call function items nowhere) alike
      | _ => exact alike.elim
  | plain reads movable =>
      intro placed same
      obtain ⟨part, reads, alike⟩ := movable placed same
      cases part with
      | primary value => exact ⟨_, .plain reads, congrArg (Operand.mk []) alike⟩
      | _ => exact alike.elim
  | minus span behind movable =>
      intro placed same
      obtain ⟨⟨token, place⟩, others, rfl, isMinus, isBehind⟩ := List.map_eq_cons_iff.1 same
      cases isMinus
      obtain ⟨part, reads, alike⟩ := movable others isBehind
      cases part with
      | operand signed =>
          refine ⟨_, .minus place reads, ?_⟩
          exact congrArg (fun signed : Operand => Operand.mk (0 :: signed.minuses) signed.primary)
            alike
      | _ => exact alike.elim
  | single reads movable =>
      intro placed same
      obtain ⟨part, reads, alike⟩ := movable placed same
      cases part with
      | operand signed =>
          exact ⟨_, .single reads, congrArg (fun operand => Chain.mk operand []) alike⟩
      | _ => exact alike.elim
  | extend operator span before behind movable lastMovable =>
      intro placed same
      obtain ⟨_, place, _, part, last, rfl, reads, alike, lastReads, lastAlike⟩ :=
        movable.parted lastMovable same
      cases part with
      | whole chain =>
          cases last with
          | operand signed =>
              refine ⟨_, .extend operator place reads lastReads, ?_⟩
              rw [Part.Matches, Chain.map_extend, Chain.map_extend, alike, lastAlike]
          | _ => exact lastAlike.elim
      | _ => exact alike.elim
  | none =>
      intro placed same
      obtain rfl := List.map_eq_nil_iff.1 same
      exact ⟨_, .none, rfl⟩
  | one reads movable =>
      intro placed same
      obtain ⟨part, reads, alike⟩ := movable placed same
      cases part with
      | whole chain =>
          exact ⟨_, .one reads, congrArg (fun item => [item]) (Chain.signed_bare alike)⟩
      | _ => exact alike.elim
  | comma span before behind movable lastMovable =>
      intro placed same
      obtain ⟨_, place, _, part, last, rfl, reads, alike, lastReads, lastAlike⟩ :=
        movable.parted lastMovable same
      cases part with
      | items list =>
          cases last with
          | whole chain =>
              cases list with
              | nil => cases alike
              | cons first others =>
                  refine ⟨_, .comma place reads lastReads, ?_⟩
                  exact bare_all_append alike
                    (congrArg (fun item => [item]) (Chain.signed_bare lastAlike))
          | _ => exact lastAlike.elim
      | _ => exact alike.elim

theorem readable_of_parsed {text : String} {result : Expr} (parsed : parse text = .ok result) :
    Readable text.toList (Part.IsWhole result) := by
  rw [parse_ok_iff, read_chars_iff] at parsed
  obtain ⟨complete, chain, reads, rfl⟩ := parsed
  obtain ⟨final, row⟩ := row_of_scan complete
  refine ⟨_, final, row, fun placed same => ?_⟩
  obtain ⟨part, readsAgain, alike⟩ := reads.movable placed same
  cases part with
  | whole other => exact ⟨_, readsAgain, Chain.signed_bare alike⟩
  | _ => exact alike.elim

theorem parse_of_row {first second : List Char} {tokens : List Token} {final last : Bool}
    {result : Expr} (row : Row false first tokens final) (other : Row false second tokens last)
    (parsed : parse (.ofList first) = .ok result) :
    ∃ again, parse (.ofList second) = .ok again ∧ again.bare = result.bare := by
  rw [parse_ok_iff, String.toList_ofList, read_chars_iff] at parsed
  obtain ⟨-, chain, reads, rfl⟩ := parsed
  have scanned := (scan_of_row row 0).2
  obtain ⟨complete, scannedAgain⟩ := scan_of_row other 0
  obtain ⟨part, readsAgain, alike⟩ := reads.movable _ (scannedAgain.trans scanned.symm)
  cases part with
  | whole chain =>
      refine ⟨chain.signedExpr, ?_, Chain.signed_bare alike⟩
      rw [parse_ok_iff, String.toList_ofList, read_chars_iff]
      exact ⟨complete, chain, readsAgain, rfl⟩
  | _ => exact alike.elim

end ImageGraph.Expr
