import ImageGraph.Proofs.Spelling
import ImageGraph.Text

/-!
Scanning. A text is scanned to its end exactly if it is a row of tokens with blanks between them,
and then into these tokens. Blanks at its ends are of no account, and rows can be joined where the
second one does not go on with the last token of the first one.
-/

set_option autoImplicit false

namespace ImageGraph.Expr

open Token

/-- A text that is a row of tokens, and whether an operand has ended before it and at its end.
Blanks may stand before each token and behind the last one. -/
inductive Row : Bool → List Char → List Token → Bool → Prop where
  | blank {afterOperand : Bool} {gap : List Char} (gaps : ∀ char ∈ gap, isGap char = true) :
      Row afterOperand gap [] afterOperand
  | token {afterOperand final : Bool} {gap rest behind : List Char} {first : Char} {token : Token}
      {others : List Token} (gaps : ∀ char ∈ gap, isGap char = true)
      (read : read? afterOperand first rest = some (token, behind))
      (row : Row token.endsOperand behind others final) :
      Row afterOperand (gap ++ first :: rest) (token :: others) final

/-- Characters that are no blanks and have no meaning for the commands around an expression. -/
def isSolid (char : Char) : Bool := !Text.isBlank char && char != '=' && char != '#'

theorem not_blank_of_solid {char : Char} (solid : isSolid char = true) :
    Text.isBlank char = false := by
  simp only [isSolid, Bool.and_eq_true, Bool.not_eq_true'] at solid
  exact solid.1.1

theorem code_of_height {char : Char} (kept : isHeightChar char = true) :
    46 ≤ char.toNat ∧ char.toNat ≤ 57 ∨ 65 ≤ char.toNat ∧ char.toNat ≤ 122 := by
  simp only [isHeightChar, Char.isAlphanum, Bool.or_eq_true, beq_iff_eq] at kept
  rcases kept with ((letter | digit) | rfl) | rfl
  · have codes := code_of_letter letter
    omega
  · have code := code_of_digit digit
    omega
  · decide
  · decide

theorem solid_of_height {char : Char} (kept : isHeightChar char = true) : isSolid char = true := by
  have code := code_of_height kept
  have notEquals : char ≠ '=' := by
    rintro rfl
    exact absurd code (by decide)
  have notHash : char ≠ '#' := by
    rintro rfl
    exact absurd code (by decide)
  have notBlank : Text.isBlank char = false := by
    simp [Text.isBlank]
    omega
  simp [isSolid, notBlank, notEquals, notHash]

/-- Tokens that are written with letters, digits, points and underscores. -/
def Token.isPlain : Token → Bool
  | number _ | word _ | label _ | resolution _ _ => true
  | _ => false

theorem Token.plain_of_punctuation {char : Char} {token : Token}
    (isPunctuation : punctuation? char = some token) : token.isPlain = false := by
  unfold punctuation? at isPunctuation
  split at isPunctuation <;> cases isPunctuation <;> rfl

theorem height_of_spelling {token : Token} {chars : List Char} (spelled : Spelling token chars)
    (plain : token.isPlain = true) : ∀ char ∈ chars, isHeightChar char = true := by
  intro char member
  cases spelled with
  | minus => cases plain
  | operator operator => cases plain
  | whole isDigits => exact height_of_digit (isDigits.2 char member)
  | pointed begun wholeDigits fractionDigits =>
      rcases List.mem_append.1 member with digit | later
      · exact height_of_digit (wholeDigits char digit)
      · rcases List.mem_cons.1 later with rfl | digit
        · decide
        · exact height_of_digit (fractionDigits char digit)
  | word start kept =>
      rcases List.mem_cons.1 member with rfl | later
      · exact height_of_start start
      · exact height_of_word (kept char later)
  | label isDigits isFinal =>
      rcases List.mem_append.1 member with digit | last
      · exact height_of_digit (isDigits.2 char digit)
      · rw [List.mem_singleton.1 last]
        rcases isFinal with rfl | rfl <;> decide
  | resolution digit widthChars heightChars =>
      rcases List.mem_append.1 member with width | later
      · rcases List.mem_cons.1 width with rfl | kept
        · exact height_of_digit digit
        · exact height_of_width (widthChars char kept)
      · rcases List.mem_cons.1 later with rfl | kept
        · decide
        · exact heightChars char kept
  | punctuation isPunctuation =>
      rw [plain_of_punctuation isPunctuation] at plain
      cases plain

theorem solid_of_spelling {token : Token} {chars : List Char} (spelled : Spelling token chars) :
    ∀ char ∈ chars, isSolid char = true := by
  have solidOfPlain (plain : token.isPlain = true) : ∀ char ∈ chars, isSolid char = true :=
    fun char member => solid_of_height (height_of_spelling spelled plain char member)
  cases spelled with
  | minus => exact List.all_eq_true.1 (by decide)
  | operator operator =>
      rcases operator with mode | _
      · cases mode <;> exact List.all_eq_true.1 (by decide)
      · exact List.all_eq_true.1 (by decide)
  | punctuation isPunctuation =>
      unfold punctuation? at isPunctuation
      split at isPunctuation
      case h_6 => cases isPunctuation
      all_goals exact List.all_eq_true.1 (by decide)
  | whole | pointed | word | label | resolution => exact solidOfPlain rfl

theorem row_of_scan {afterOperand : Bool} {offset : Nat} {chars : List Char}
    (complete : (scan afterOperand offset chars).complete = true) :
    ∃ final, Row afterOperand chars
      ((scan afterOperand offset chars).tokens.map Placed.token) final := by
  fun_induction scan afterOperand offset chars with
  | case1 afterOperand offset chars start blank =>
      exact ⟨afterOperand, .blank (List.dropWhile_eq_nil_iff.1 blank)⟩
  | case2 => cases complete
  | case3 afterOperand offset chars start first rest begins token behind read stop others
      induction =>
      obtain ⟨final, row⟩ := induction complete
      rw [← List.takeWhile_append_dropWhile (p := isGap) (l := chars), begins]
      exact ⟨final, .token (fun char member => List.mem_takeWhile_imp member) read row⟩

theorem not_gap_of_read {afterOperand : Bool} {first : Char} {rest : List Char}
    {reading : Reading} (read : read? afterOperand first rest = some reading) :
    isGap first = false := by
  have shorter := length_read _ _ _ _ read
  obtain ⟨chars, parts, spelled⟩ := read_spelled read
  have solid : isSolid first = true := by
    apply solid_of_spelling spelled
    cases chars with
    | nil =>
        rw [parts, List.nil_append] at shorter
        exact absurd shorter (Nat.lt_irrefl _)
    | cons other more =>
        cases parts
        exact List.mem_cons_self
  rw [Bool.eq_false_iff]
  intro gap
  rcases Bool.or_eq_true_iff.1 gap with space | tab
  · rw [beq_iff_eq.1 space] at solid
    exact absurd solid (by decide)
  · rw [beq_iff_eq.1 tab] at solid
    exact absurd solid (by decide)

section Scan

variable {afterOperand : Bool} {chars rest behind : List Char} {first : Char} {token : Token}

theorem scan_blank (blank : chars.dropWhile isGap = []) (offset : Nat) :
    scan afterOperand offset chars = ⟨[], offset + (chars.takeWhile isGap).length, true⟩ := by
  rw [scan]
  split
  · rfl
  · rename_i begins
    rw [blank] at begins
    cases begins

theorem scan_fault (begins : chars.dropWhile isGap = first :: rest)
    (fault : read? afterOperand first rest = none) (offset : Nat) :
    scan afterOperand offset chars = ⟨[], offset + (chars.takeWhile isGap).length, false⟩ := by
  rw [scan]
  split
  · rename_i blank
    rw [begins] at blank
    cases blank
  · rename_i first' rest' begins'
    rw [begins] at begins'
    cases begins'
    split
    · rfl
    · rename_i found
      rw [fault] at found
      cases found

theorem scan_token (begins : chars.dropWhile isGap = first :: rest)
    (read : read? afterOperand first rest = some (token, behind)) (offset : Nat) :
    scan afterOperand offset chars =
      let start := offset + (chars.takeWhile isGap).length
      let stop := start + ((first :: rest).length - behind.length)
      { scan token.endsOperand stop behind with
        tokens := ⟨token, ⟨start, stop⟩⟩ :: (scan token.endsOperand stop behind).tokens } := by
  rw [scan]
  split
  · rename_i blank
    rw [begins] at blank
    cases blank
  · rename_i first' rest' begins'
    rw [begins] at begins'
    cases begins'
    split
    · rename_i fault
      rw [read] at fault
      cases fault
    · rename_i found
      rw [read] at found
      cases found
      rfl

end Scan

/-- A row of tokens is scanned into these tokens, wherever it begins. -/
theorem scan_of_row {afterOperand final : Bool} {chars : List Char} {tokens : List Token}
    (row : Row afterOperand chars tokens final) (offset : Nat) :
    (scan afterOperand offset chars).complete = true ∧
      (scan afterOperand offset chars).tokens.map Placed.token = tokens := by
  induction row generalizing offset with
  | blank gaps =>
      rw [scan_blank (List.dropWhile_eq_nil_iff.2 gaps)]
      exact ⟨rfl, rfl⟩
  | @token afterOperand final gap rest behind first token others gaps read row induction =>
      have begins : (gap ++ first :: rest).dropWhile isGap = first :: rest := by
        rw [List.dropWhile_append_of_pos gaps, List.dropWhile_cons, not_gap_of_read read]
        rfl
      rw [scan_token begins read]
      exact ⟨(induction _).1, congrArg (token :: ·) (induction _).2⟩

theorem stops_of_gaps {gap : List Char} (gaps : ∀ char ∈ gap, isGap char = true) : Stops gap := by
  intro char member
  rcases Bool.or_eq_true_iff.1 (gaps char (List.mem_of_mem_head? member)) with space | tab
  · rw [beq_iff_eq.1 space]
    decide
  · rw [beq_iff_eq.1 tab]
    decide

namespace Row

variable {afterOperand final : Bool} {chars behind : List Char} {tokens : List Token}

theorem gap {gap : List Char} (gaps : ∀ char ∈ gap, isGap char = true)
    (row : Row afterOperand chars tokens final) :
    Row afterOperand (gap ++ chars) tokens final := by
  cases row with
  | blank more =>
      exact .blank fun char member => (List.mem_append.1 member).elim (gaps char) (more char)
  | token more read row =>
      rw [← List.append_assoc]
      exact .token (fun char member => (List.mem_append.1 member).elim (gaps char) (more char))
        read row

theorem begin {first : Char} {rest : List Char} {token : Token}
    (read : read? afterOperand first rest = some (token, behind))
    (row : Row token.endsOperand behind tokens final) :
    Row afterOperand (first :: rest) (token :: tokens) final := by
  have noGap : ∀ char ∈ ([] : List Char), isGap char = true := by simp
  exact .token noGap read row

theorem spelling {token : Token} (spelled : Spelling token chars)
    (suits : token.suits afterOperand = true) :
    Row afterOperand chars [token] token.endsOperand := by
  obtain ⟨first, rest, rfl, read⟩ := read_of_spelling spelled suits
  exact begin read (.blank (by simp))

theorem punctuation {char : Char} {token : Token} (isPunctuation : punctuation? char = some token)
    (row : Row token.endsOperand behind tokens final) :
    Row afterOperand (char :: behind) (token :: tokens) final :=
  begin (by rw [read?, isPunctuation]) row

theorem minus (row : Row false behind tokens final) :
    Row false ('-' :: behind) (.minus :: tokens) final :=
  begin rfl row

theorem append {middle : Bool} {more : List Token} (row : Row afterOperand chars tokens middle)
    (others : Row middle behind more final) (stops : Stops behind) :
    Row afterOperand (chars ++ behind) (tokens ++ more) final := by
  induction row with
  | blank gaps => exact others.gap gaps
  | @token afterOperand middle gap rest left first token tokens gaps read row induction =>
      rw [List.append_assoc, List.cons_append]
      have read : read? afterOperand first (rest ++ behind) = some (token, left ++ behind) := by
        rw [read_append stops, read]
        rfl
      exact .token gaps read (induction others)

theorem chars_solid (row : Row afterOperand chars tokens final) :
    ∀ char ∈ chars, isGap char = true ∨ isSolid char = true := by
  induction row with
  | blank gaps => exact fun char member => .inl (gaps char member)
  | token gaps read row induction =>
      obtain ⟨spelling, parts, spelled⟩ := read_spelled read
      rw [parts]
      intro char member
      rcases List.mem_append.1 member with before | later
      · exact .inl (gaps char before)
      · rcases List.mem_append.1 later with inside | behind
        · exact .inr (solid_of_spelling spelled char inside)
        · exact induction char behind

theorem tokens_spelled (row : Row afterOperand chars tokens final) :
    ∀ token ∈ tokens, ∃ chars, Spelling token chars := by
  induction row with
  | blank gaps => simp
  | token gaps read row induction =>
      obtain ⟨spelling, -, spelled⟩ := read_spelled read
      intro token member
      rcases List.mem_cons.1 member with rfl | later
      · exact ⟨spelling, spelled⟩
      · exact induction token later

theorem trim_start {gap : List Char} (gaps : ∀ char ∈ gap, isGap char = true)
    (row : Row afterOperand (gap ++ chars) tokens final) :
    Row afterOperand chars tokens final := by
  generalize whole : gap ++ chars = all at row
  cases row with
  | blank more =>
      subst whole
      exact .blank fun char member => more char (List.mem_append_right _ member)
  | @token _ _ before rest _ first token others more read row =>
      rcases List.append_eq_append_iff.1 whole with ⟨later, rfl, rfl⟩ | ⟨later, rfl, begins⟩
      · exact .token (fun char member => more char (List.mem_append_right _ member)) read row
      · cases later with
        | nil =>
            rw [List.nil_append] at begins
            rw [← begins]
            exact begin read row
        | cons other later =>
            cases begins
            have isGap := gaps first (List.mem_append_right _ List.mem_cons_self)
            rw [not_gap_of_read read] at isGap
            cases isGap

theorem trim_end {gap : List Char} (gaps : ∀ char ∈ gap, isGap char = true)
    (row : Row afterOperand (chars ++ gap) tokens final) :
    Row afterOperand chars tokens final := by
  have stops : Stops gap := stops_of_gaps gaps
  generalize whole : chars ++ gap = all at row
  induction row generalizing chars with
  | blank more =>
      subst whole
      exact .blank fun char member => more char (List.mem_append_left _ member)
  | @token _ _ before rest behind first token others more read row induction =>
      have noGap := not_gap_of_read read
      rcases List.append_eq_append_iff.1 whole with ⟨later, rfl, rfl⟩ | ⟨later, rfl, begins⟩
      · have isGap := gaps first (by simp)
        rw [noGap] at isGap
        cases isGap
      · cases later with
        | nil =>
            rw [List.nil_append] at begins
            have isGap := gaps first (by simp [← begins])
            rw [noGap] at isGap
            cases isGap
        | cons other later =>
            cases begins
            have read := (read_append stops _ first later).symm.trans read
            obtain ⟨⟨_, left⟩, found, same⟩ := Option.map_eq_some_iff.1 read
            cases same
            exact .token more found (induction rfl)

end Row

end ImageGraph.Expr
