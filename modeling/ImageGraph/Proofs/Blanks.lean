import ImageGraph.Proofs.Completion
import ImageGraph.Proofs.Locality
import ImageGraph.Proofs.Placing
import Mathlib.Logic.Relation

/-!
Blanks between tokens. A blank that is put into a text outside of its tokens ends no token early and
joins none with the next, so the text is scanned into the same tokens again and read as the same
expression, and so it is with any number of blanks.
-/

set_option autoImplicit false

namespace ImageGraph.Expr

open Token

/-- Whether a position is not inside of a token that is scanned from the text. -/
def IsOutside (chars : List Char) (position : Nat) : Prop :=
  ∀ placed ∈ (scan false 0 chars).tokens,
    position ≤ placed.span.start ∨ placed.span.stop ≤ position

/-- The second text has one blank more than the first: at its beginning, at its end or anywhere else
outside of the tokens. -/
inductive Widens : String → String → Prop where
  | blank {before behind : List Char} {blank : Char} (isBlank : isGap blank = true)
      (outside : IsOutside (before ++ behind) before.length) :
      Widens (.ofList (before ++ behind)) (.ofList (before ++ blank :: behind))

def tokensOf (text : String) : List Token := (scan false 0 text.toList).tokens.map Placed.token

section Rows

variable {mode : Bool} {before behind gap spelling left : List Char} {blank : Char} {token : Token}

theorem gaps_widened (isBlank : isGap blank = true)
    (gaps : ∀ char ∈ before ++ behind, isGap char = true) :
    ∀ char ∈ before ++ blank :: behind, isGap char = true := by
  intro char member
  rcases List.mem_append.1 member with earlier | later
  · exact gaps char (List.mem_append_left _ earlier)
  · rcases List.mem_cons.1 later with rfl | later
    · exact isBlank
    · exact gaps char (List.mem_append_right _ later)

theorem outside_cases (parts : before ++ behind = gap ++ (spelling ++ left))
    (outside : before.length ≤ gap.length ∨ gap.length + spelling.length ≤ before.length) :
    (∃ more, gap = before ++ more ∧ behind = more ++ (spelling ++ left)) ∨
      ∃ more, before = gap ++ (spelling ++ more) ∧ left = more ++ behind := by
  have inFront : before <+: gap ++ (spelling ++ left) := parts ▸ List.prefix_append _ _
  rcases outside with early | late
  · obtain ⟨more, rfl⟩ :=
      List.prefix_of_prefix_length_le inFront (List.prefix_append _ _) early
    rw [List.append_assoc] at parts
    exact .inl ⟨more, rfl, List.append_cancel_left parts⟩
  · rw [← List.append_assoc] at inFront parts
    rw [← List.length_append] at late
    obtain ⟨more, rfl⟩ :=
      List.prefix_of_prefix_length_le (List.prefix_append _ _) inFront late
    rw [List.append_assoc (gap ++ spelling)] at parts
    exact .inr ⟨more, List.append_assoc _ _ _, (List.append_cancel_left parts).symm⟩

theorem Row.read {final : Bool} {others : List Token} (gaps : ∀ char ∈ gap, isGap char = true)
    (isRead : IsRead mode token spelling behind)
    (row : Row token.endsOperand behind others final) :
    Row mode (gap ++ (spelling ++ behind)) (token :: others) final := by
  obtain ⟨first, rest, begins, read⟩ := isRead
  rw [begins]
  exact .token gaps read row

theorem Token.IsRead.widened (isBlank : isGap blank = true)
    (isRead : IsRead mode token spelling (before ++ behind))
    (begins : Begins token.endsOperand (before ++ behind)) :
    IsRead mode token spelling (before ++ blank :: behind) := by
  have front : Begins token.endsOperand before := by
    intro char member
    apply begins char
    rw [List.head?_append, Option.mem_def.1 member]
    rfl
  have ends : Stops [blank] := stops_of_gaps (by simpa using isBlank)
  have stops : Stops (blank :: behind) := ends
  exact (isRead.without front).append stops

/-- With a blank more outside of its tokens, a text is a row of the same tokens. -/
theorem row_widened (isBlank : isGap blank = true) {offset : Nat}
    (complete : (scan mode offset (before ++ behind)).complete = true)
    (outside : ∀ placed ∈ (scan mode offset (before ++ behind)).tokens,
      offset + before.length ≤ placed.span.start ∨ placed.span.stop ≤ offset + before.length) :
    ∃ final, Row mode (before ++ blank :: behind)
      ((scan mode offset (before ++ behind)).tokens.map Placed.token) final := by
  induction size : before.length using Nat.strong_induction_on
    generalizing before mode offset with
  | _ size induction =>
  subst size
  obtain ⟨gap, rest, parts, gaps, -, following⟩ := scan_cases mode (before ++ behind)
  rcases following with ⟨ended, isEnd, ends⟩ | ⟨token, spelling, left, rfl, isRead⟩
  · rw [ends] at complete ⊢
    rw [isEnd complete, List.append_nil] at parts
    rw [← parts] at gaps
    exact ⟨mode, .blank (gaps_widened isBlank gaps)⟩
  · rw [parts, scan_read gaps isRead] at complete outside
    rw [parts, scan_read gaps isRead, List.map_cons]
    have position : before.length ≤ gap.length ∨ gap.length + spelling.length ≤ before.length := by
      have first := outside _ List.mem_cons_self
      simp only at first
      omega
    rcases outside_cases parts position with ⟨more, rfl, rfl⟩ | ⟨more, rfl, rfl⟩
    · -- The blank is one of those in front of the token.
      obtain ⟨final, row⟩ := row_of_scan complete
      have row := Row.read (gaps_widened isBlank gaps) isRead row
      rw [List.append_assoc] at row
      exact ⟨final, row⟩
    · -- The blank stands behind the token, in the rest of the text.
      have positive := isRead.length_pos
      have shorter : more.length < (gap ++ (spelling ++ more)).length := by
        simp only [List.length_append]
        omega
      rw [offset_behind] at outside
      obtain ⟨final, row⟩ := induction _ shorter complete
        (fun placed member => outside placed (List.mem_cons_of_mem _ member)) rfl
      have row := Row.read gaps (isRead.widened isBlank (begins_of_scan complete)) row
      rw [List.append_assoc, List.append_assoc]
      exact ⟨final, row⟩

end Rows

/-- One blank more changes neither the tokens of a text that is read nor what it is read as. -/
theorem Widens.parsed {text wider : String} {result : Expr} (widens : Widens text wider)
    (parsed : parse text = .ok result) :
    ∃ again, parse wider = .ok again ∧ again.bare = result.bare ∧ tokensOf wider = tokensOf text := by
  obtain ⟨isBlank, outside⟩ := widens
  rename_i before behind blank
  have complete : (scan false 0 (before ++ behind)).complete = true := by
    rw [parse_ok_iff, String.toList_ofList, read_chars_iff] at parsed
    exact parsed.1
  obtain ⟨final, row⟩ := row_of_scan complete
  obtain ⟨last, widened⟩ := row_widened isBlank complete
    (by simpa only [IsOutside, Nat.zero_add] using outside)
  obtain ⟨again, parsedAgain, same⟩ := parse_of_row row widened parsed
  refine ⟨again, parsedAgain, same, ?_⟩
  rw [tokensOf, tokensOf, String.toList_ofList, String.toList_ofList]
  exact (scan_of_row widened 0).2

/-- Any number of blanks may be put into a text outside of its tokens. -/
theorem blanks_insignificant {text wider : String} {result : Expr} (parsed : parse text = .ok result)
    (widens : Relation.ReflTransGen Widens text wider) :
    ∃ again, parse wider = .ok again ∧ again.bare = result.bare ∧ tokensOf wider = tokensOf text := by
  induction widens with
  | refl => exact ⟨result, parsed, rfl, rfl⟩
  | tail _ widens induction =>
      obtain ⟨middle, parsed, same, tokens⟩ := induction
      obtain ⟨again, parsed, sameAgain, tokensAgain⟩ := widens.parsed parsed
      exact ⟨again, parsed, sameAgain.trans same, tokensAgain.trans tokens⟩

/-- A blank is put behind the label, and then one behind the minus sign. -/
theorem displaced_label_widened :
    parse "4k->-pi" = .ok (.binary .displace (.identifier "4k" ⟨0, 2⟩)
        (.negation (.identifier "pi" ⟨5, 7⟩) ⟨4, 7⟩) ⟨0, 7⟩) ∧
      Relation.ReflTransGen Widens "4k->-pi" "4k ->- pi" ∧
      ∃ again, parse "4k ->- pi" = .ok again ∧
        again.bare = Expr.bare (.binary .displace (.identifier "4k" ⟨0, 2⟩)
          (.negation (.identifier "pi" ⟨5, 7⟩) ⟨4, 7⟩) ⟨0, 7⟩) ∧
        tokensOf "4k ->- pi" = tokensOf "4k->-pi" := by
  have parsed : parse "4k->-pi" = .ok (.binary .displace (.identifier "4k" ⟨0, 2⟩)
      (.negation (.identifier "pi" ⟨5, 7⟩) ⟨4, 7⟩) ⟨0, 7⟩) := by cbv
  have space : isGap ' ' = true := rfl
  have behindLabel : Widens "4k->-pi" "4k ->-pi" := by
    have tokens : (scan false 0 ("4k".toList ++ "->-pi".toList)).tokens =
        [⟨.label "4k", ⟨0, 2⟩⟩, ⟨.operator .displace, ⟨2, 4⟩⟩, ⟨.minus, ⟨4, 5⟩⟩,
          ⟨.word "pi", ⟨5, 7⟩⟩] := by cbv
    have outside : IsOutside ("4k".toList ++ "->-pi".toList) 2 := by
      rw [IsOutside, tokens]
      decide
    exact .blank space outside
  have behindMinus : Widens "4k ->-pi" "4k ->- pi" := by
    have tokens : (scan false 0 ("4k ->-".toList ++ "pi".toList)).tokens =
        [⟨.label "4k", ⟨0, 2⟩⟩, ⟨.operator .displace, ⟨3, 5⟩⟩, ⟨.minus, ⟨5, 6⟩⟩,
          ⟨.word "pi", ⟨6, 8⟩⟩] := by cbv
    have outside : IsOutside ("4k ->-".toList ++ "pi".toList) 6 := by
      rw [IsOutside, tokens]
      decide
    exact .blank space outside
  have widens := (Relation.ReflTransGen.single behindLabel).tail behindMinus
  exact ⟨parsed, widens, blanks_insignificant parsed widens⟩

end ImageGraph.Expr
