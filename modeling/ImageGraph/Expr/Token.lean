import ImageGraph.Expr

/-!
Tokens of expressions. Which tokens can be read depends on whether an operand has just ended:
only behind an operand there are operators, and only elsewhere there are operands and minus signs.
Spaces and tabs may stand before any token. All tokens are ASCII, so their length in characters is
their length in bytes.
-/

set_option autoImplicit false

namespace ImageGraph.Expr

open Number (Decimal)

/-- A token. A label is a name that begins with a digit, such as the names of some resolutions; it
never names a function. -/
inductive Token where
  | minus
  | operator (operator : Operator)
  | number (decimal : Decimal)
  | word (name : String)
  | label (name : String)
  | resolution (width height : String)
  | openParen
  | closeParen
  | openBracket
  | closeBracket
  | comma
  deriving DecidableEq, Repr

namespace Token

def isGap (char : Char) : Bool := char == ' ' || char == '\t'

def isWordChar (char : Char) : Bool := char.isAlphanum || char == '_'

def isWordStart (char : Char) : Bool := char.isAlpha || char == '_'

/-- Characters of a resolution's width behind its first digit. -/
def isWidthChar (char : Char) : Bool := char != 'x' && (char.isAlphanum || char == '.')

def isHeightChar (char : Char) : Bool := char.isAlphanum || char == '.' || char == '_'

/-- Whether a binary operator may stand behind the token. -/
def endsOperand : Token → Bool
  | number _ | word _ | label _ | resolution _ _ | closeParen | closeBracket => true
  | _ => false

/-- A token and the text behind it. -/
abbrev Reading := Token × List Char

/-- Two halves around an `x`. The width ends at the first `x` and the height is as long as it can
be, so that a faulty half can be reported later. -/
def resolution? (chars : List Char) : Option Reading :=
  match chars.dropWhile isWidthChar with
  | 'x' :: behind =>
      some (resolution (String.ofList (chars.takeWhile isWidthChar))
        (String.ofList (behind.takeWhile isHeightChar)), behind.dropWhile isHeightChar)
  | _ => none

/-- Digits and a final `p` or `k`, with no further character of a word behind them. -/
def label? (chars : List Char) : Option Reading :=
  match chars.dropWhile Char.isDigit with
  | final :: behind =>
      if (final == 'p' || final == 'k') && !(behind.head?.any isWordChar) then
        some (label (String.ofList (chars.takeWhile Char.isDigit ++ [final])), behind)
      else none
  | [] => none

/-- Digits with an optional fraction, which may be empty behind its point. -/
def number? (chars : List Char) : Reading :=
  let whole := chars.takeWhile Char.isDigit
  match chars.dropWhile Char.isDigit with
  | '.' :: behind =>
      (number (Decimal.ofText whole (behind.takeWhile Char.isDigit)), behind.dropWhile Char.isDigit)
  | behind => (number (Decimal.ofText whole []), behind)

/-- A text that begins with a digit: a resolution if an `x` follows, else a label, else a number. -/
def digitLed (chars : List Char) : Reading :=
  ((resolution? chars).or (label? chars)).getD (number? chars)

/-- Parentheses, brackets and commas are read in every place. -/
def punctuation? : Char → Option Token
  | '(' => some openParen
  | ')' => some closeParen
  | '[' => some openBracket
  | ']' => some closeBracket
  | ',' => some comma
  | _ => none

/-- Where an operand may begin. -/
def operand? (first : Char) (rest : List Char) : Option Reading :=
  if first == '-' then some (minus, rest)
  else if first.isDigit then some (digitLed (first :: rest))
  else if isWordStart first then
    some (word (String.ofList (first :: rest.takeWhile isWordChar)), rest.dropWhile isWordChar)
  else if first == '.' && rest.head?.any Char.isDigit then
    some (number (Decimal.ofText [] (rest.takeWhile Char.isDigit)), rest.dropWhile Char.isDigit)
  else none

def operator? (chars : List Char) : Option Reading :=
  (Operator.all.find? fun candidate => candidate.symbol.toList.isPrefixOf chars).map fun found =>
    (operator found, chars.drop found.symbol.length)

def read? (afterOperand : Bool) (first : Char) (rest : List Char) : Option Reading :=
  match punctuation? first with
  | some token => some (token, rest)
  | none => if afterOperand then operator? (first :: rest) else operand? first rest

end Token

structure Placed where
  token : Token
  span : Span
  deriving DecidableEq, Repr

structure Scan where
  tokens : List Placed
  /-- The offset behind the last token and the blanks that follow it. -/
  stop : Nat
  /-- Whether the text ends there. -/
  complete : Bool
  deriving DecidableEq, Repr

namespace Token

private theorem length_dropped (keep : Char → Bool) (chars : List Char) :
    (chars.dropWhile keep).length ≤ chars.length := (List.dropWhile_sublist keep).length_le

theorem length_resolution (chars : List Char) (reading : Reading)
    (found : resolution? chars = some reading) : reading.2.length < chars.length := by
  unfold resolution? at found
  split at found
  · rename_i behind separator
    have shorter := length_dropped isWidthChar chars
    have height := length_dropped isHeightChar behind
    rw [separator, List.length_cons] at shorter
    cases found
    simp only
    omega
  · cases found

theorem length_label (chars : List Char) (reading : Reading)
    (found : label? chars = some reading) : reading.2.length < chars.length := by
  unfold label? at found
  split at found
  · rename_i final behind separator
    have shorter := length_dropped Char.isDigit chars
    rw [separator, List.length_cons] at shorter
    split at found
    · cases found
      simp only
      omega
    · cases found
  · cases found

theorem length_number (first : Char) (rest : List Char) (digit : first.isDigit = true) :
    (number? (first :: rest)).2.length < (first :: rest).length := by
  have shorter := length_dropped Char.isDigit rest
  unfold number?
  simp only [List.dropWhile, digit]
  split
  · rename_i behind separator
    have fractionShorter := length_dropped Char.isDigit behind
    rw [separator, List.length_cons] at shorter
    simp only [List.length_cons]
    omega
  · simp only [List.length_cons]
    omega

theorem length_digit_led (first : Char) (rest : List Char) (digit : first.isDigit = true) :
    (digitLed (first :: rest)).2.length < (first :: rest).length := by
  unfold digitLed
  cases asResolution : resolution? (first :: rest) with
  | some reading => simpa using length_resolution _ _ asResolution
  | none =>
      cases asLabel : label? (first :: rest) with
      | some reading => simpa using length_label _ _ asLabel
      | none => simpa using length_number first rest digit

theorem length_operand (first : Char) (rest : List Char) (reading : Reading)
    (found : operand? first rest = some reading) : reading.2.length < (first :: rest).length := by
  have digits := length_dropped Char.isDigit rest
  have word := length_dropped isWordChar rest
  unfold operand? at found
  split at found
  · cases found
    simp
  · split at found
    · rename_i digit
      cases found
      exact length_digit_led first rest digit
    · split at found
      · cases found
        simp only [List.length_cons]
        omega
      · split at found
        · cases found
          simp only [List.length_cons]
          omega
        · cases found

theorem length_operator (first : Char) (rest : List Char) (reading : Reading)
    (found : operator? (first :: rest) = some reading) :
    reading.2.length < (first :: rest).length := by
  unfold operator? at found
  obtain ⟨operator, _, rfl⟩ := Option.map_eq_some_iff.1 found
  have nonempty : 0 < operator.symbol.length := by
    rcases operator with mode | _
    · cases mode <;> decide
    · decide
  simp only [List.length_drop, List.length_cons]
  omega

theorem length_read (afterOperand : Bool) (first : Char) (rest : List Char) (reading : Reading)
    (found : read? afterOperand first rest = some reading) :
    reading.2.length < (first :: rest).length := by
  unfold read? at found
  split at found
  · cases found
    simp
  · split at found
    · exact length_operator first rest reading found
    · exact length_operand first rest reading found

/-- Read tokens until none can be read any more. Blanks are skipped before each token. -/
def scan (afterOperand : Bool) (offset : Nat) (chars : List Char) : Scan :=
  let start := offset + (chars.takeWhile isGap).length
  match _rest : chars.dropWhile isGap with
  | [] => { tokens := [], stop := start, complete := true }
  | first :: rest =>
      match _found : read? afterOperand first rest with
      | none => { tokens := [], stop := start, complete := false }
      | some (token, behind) =>
          let stop := start + ((first :: rest).length - behind.length)
          let others := scan token.endsOperand stop behind
          { others with tokens := ⟨token, ⟨start, stop⟩⟩ :: others.tokens }
termination_by chars.length
decreasing_by
  have shorter := length_dropped isGap chars
  have token := length_read afterOperand first rest (token, behind) _found
  rw [_rest] at shorter
  exact Nat.lt_of_lt_of_le token shorter

end Token

end ImageGraph.Expr
