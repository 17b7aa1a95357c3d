import ImageGraph.Proofs.Truncation

/-!
Numerals. The text of a decimal is a row of digits, with a point and more digits where it is broken.
It stands for the same ratio as the decimal, although final zeros are not written. So a double and a
whole number that a double can hold are read back from their texts.
-/

set_option autoImplicit false

namespace ImageGraph.Number

/-- Digits, and the digits behind the point, if there is a point. -/
structure Numeral where
  whole : List Char
  fraction : List Char
  begun : whole ≠ []
  whole_digits : ∀ char ∈ whole, char.isDigit = true
  fraction_digits : ∀ char ∈ fraction, char.isDigit = true

namespace Numeral

def pointed : List Char → List Char
  | [] => []
  | fraction => '.' :: fraction

def chars (numeral : Numeral) : List Char := numeral.whole ++ pointed numeral.fraction

def decimal (numeral : Numeral) : Decimal := .ofText numeral.whole numeral.fraction

end Numeral

theorem is_digit_of_repr (number : Nat) : ∀ char ∈ (Nat.repr number).toList, char.isDigit = true := by
  intro char member
  rw [Nat.repr_eq_ofList_toDigits, String.toList_ofList] at member
  exact Nat.isDigit_of_mem_toDigits (by decide) (by decide) member

theorem read_digits_repr (number : Nat) : readDigits (Nat.repr number).toList = number := by
  rw [readDigits, Nat.repr_eq_ofList_toDigits, String.toList_ofList, Nat.ofDigitChars_ten_toDigits]

theorem read_digits_append (digits more : List Char) :
    readDigits (digits ++ more) = readDigits digits * 10 ^ more.length + readDigits more := by
  rw [readDigits, Nat.ofDigitChars_append, Nat.ofDigitChars_eq_ofDigitChars_zero, Nat.mul_comm]
  rfl

theorem read_digits_zeros (count : Nat) : readDigits (List.replicate count '0') = 0 := by
  rw [readDigits, Nat.ofDigitChars_replicate_zero, Nat.mul_zero]

namespace Decimal

/-- The digits behind the point with all their final zeros. -/
def paddedDigits (decimal : Decimal) : List Char :=
  let digits := (Nat.repr (decimal.digits % 10 ^ decimal.places)).toList
  List.replicate (decimal.places - digits.length) '0' ++ digits

theorem is_digit_of_padded (decimal : Decimal) :
    ∀ char ∈ decimal.paddedDigits, char.isDigit = true := by
  intro char member
  rcases List.mem_append.1 member with zero | digit
  · rw [List.eq_of_mem_replicate zero]
    decide
  · exact is_digit_of_repr _ char digit

theorem read_digits_padded (decimal : Decimal) :
    readDigits decimal.paddedDigits = decimal.digits % 10 ^ decimal.places := by
  rw [paddedDigits, read_digits_append, read_digits_zeros, read_digits_repr, Nat.zero_mul,
    Nat.zero_add]

theorem length_padded {decimal : Decimal} (broken : 0 < decimal.places) :
    decimal.paddedDigits.length = decimal.places := by
  have fits := (Nat.length_toDigits_le_iff (by decide) broken).2
    (Nat.mod_lt decimal.digits (Nat.pow_pos (by decide : 0 < 10)))
  rw [paddedDigits, Nat.repr_eq_ofList_toDigits, String.toList_ofList, List.length_append,
    List.length_replicate]
  omega

theorem fraction_padded (decimal : Decimal) :
    ∃ zeros, decimal.paddedDigits = decimal.fractionDigits ++ List.replicate zeros '0' := by
  let final := decimal.paddedDigits.reverse.takeWhile (· == '0')
  have zeros : final = List.replicate final.length '0' :=
    List.eq_replicate_of_mem fun char member => by simpa using List.mem_takeWhile_imp member
  have parts : decimal.paddedDigits =
      (decimal.paddedDigits.reverse.dropWhile (· == '0')).reverse ++ final.reverse := by
    rw [← List.reverse_append, List.takeWhile_append_dropWhile, List.reverse_reverse]
  refine ⟨final.length, ?_⟩
  rw [parts, zeros, List.reverse_replicate, List.length_replicate]
  rfl

theorem fraction_unbroken {decimal : Decimal} (unbroken : decimal.places = 0) :
    decimal.fractionDigits = [] := by
  rw [fractionDigits, unbroken, Nat.pow_eq, Nat.pow_zero, Nat.mod_one]
  decide

/-- How a decimal is written. -/
def numeral (decimal : Decimal) : Numeral where
  whole := (Nat.repr (decimal.digits / 10 ^ decimal.places)).toList
  fraction := decimal.fractionDigits
  begun := by
    rw [Nat.repr_eq_ofList_toDigits, String.toList_ofList]
    exact Nat.toDigits_ne_nil
  whole_digits := is_digit_of_repr _
  fraction_digits := by
    obtain ⟨zeros, padded⟩ := decimal.fraction_padded
    intro char member
    exact decimal.is_digit_of_padded char (padded ▸ List.mem_append_left _ member)

theorem text_to_list (decimal : Decimal) : decimal.text.toList = decimal.numeral.chars := by
  unfold text Numeral.chars numeral
  simp only
  cases decimal.fractionDigits with
  | nil => simp [Numeral.pointed]
  | cons digit fraction => simp [Numeral.pointed]

theorem numeral_digits (decimal : Decimal) :
    decimal.numeral.decimal.digits =
      decimal.digits / 10 ^ decimal.places * 10 ^ decimal.fractionDigits.length +
        readDigits decimal.fractionDigits := by
  simp only [Numeral.decimal, ofText, numeral]
  rw [read_digits_append, read_digits_repr]

theorem numeral_places (decimal : Decimal) :
    decimal.numeral.decimal.places = decimal.fractionDigits.length := by
  simp only [Numeral.decimal, ofText, numeral]

theorem numeral_scaled (decimal : Decimal) :
    ∃ factor, 0 < factor ∧ decimal.digits = decimal.numeral.decimal.digits * factor ∧
      10 ^ decimal.places = 10 ^ decimal.numeral.decimal.places * factor := by
  have parts := Nat.div_add_mod decimal.digits (10 ^ decimal.places)
  rw [numeral_digits, numeral_places]
  rcases Nat.eq_zero_or_pos decimal.places with unbroken | broken
  · refine ⟨1, Nat.one_pos, ?_, ?_⟩
    · rw [fraction_unbroken unbroken, unbroken]
      simp [readDigits]
    · rw [fraction_unbroken unbroken, unbroken]
      rfl
  · obtain ⟨zeros, padded⟩ := decimal.fraction_padded
    have places : decimal.places = decimal.fractionDigits.length + zeros := by
      rw [← length_padded broken, padded, List.length_append, List.length_replicate]
    have fraction := decimal.read_digits_padded
    rw [padded, read_digits_append, read_digits_zeros, List.length_replicate, Nat.add_zero]
      at fraction
    have powers : 10 ^ decimal.places = 10 ^ decimal.fractionDigits.length * 10 ^ zeros := by
      rw [← Nat.pow_add, ← places]
    refine ⟨10 ^ zeros, Nat.pow_pos (by decide), ?_, powers⟩
    rw [Nat.add_mul, Nat.mul_assoc, ← powers, fraction, Nat.mul_comm]
    exact parts.symm

theorem nearest_numeral (decimal : Decimal) :
    decimal.numeral.decimal.nearest = decimal.nearest := by
  obtain ⟨factor, positive, digits, places⟩ := decimal.numeral_scaled
  calc decimal.numeral.decimal.nearest
      = nearestPattern (decimal.numeral.decimal.digits * factor)
          (10 ^ decimal.numeral.decimal.places * factor) := (nearest_scaled _ _ positive).symm
    _ = decimal.nearest := by
      rw [← digits, ← places]
      rfl

theorem value_of_pattern {bits : Nat} (number : bits ≤ infinityPattern) :
    (shortest bits).numeral.decimal.toFloat = Number.ofPattern false bits := by
  rw [toFloat, nearest_numeral, nearest_shortest number]

theorem value_of_digits (chars : List Char) :
    (ofText chars []).toFloat = ofWhole false (readDigits chars) := by
  have value : (ofText chars []).digits = readDigits chars := by
    simp only [ofText, List.append_nil]
  rw [toFloat, nearest, value]
  rfl

end Decimal

namespace Numeral

def ofNat (number : Nat) : Numeral where
  whole := (Nat.repr number).toList
  fraction := []
  begun := by
    rw [Nat.repr_eq_ofList_toDigits, String.toList_ofList]
    exact Nat.toDigits_ne_nil
  whole_digits := is_digit_of_repr number
  fraction_digits := by simp

theorem value_of_nat (number : Nat) : (ofNat number).decimal.toFloat = ofWhole false number := by
  have value := Decimal.value_of_digits (Nat.repr number).toList
  rw [read_digits_repr] at value
  exact value

/-- A numeral behind a minus sign, if it is negative. -/
def signedChars (negative : Bool) (numeral : Numeral) : List Char :=
  if negative then '-' :: numeral.chars else numeral.chars

def signedValue (negative : Bool) (numeral : Numeral) : Float :=
  if negative then -numeral.decimal.toFloat else numeral.decimal.toFloat

end Numeral

/-- A row of characters that is a numeral, signed or not, and the double that it stands for. -/
def Spells (chars : List Char) (x : Float) : Prop :=
  ∃ negative numeral, chars = Numeral.signedChars negative numeral ∧
    Numeral.signedValue negative numeral = x

theorem signed_of_pattern (negative : Bool) {bits : Nat} (number : bits ≤ infinityPattern) :
    (if negative then -ofPattern false bits else ofPattern false bits) =
      ofPattern negative bits := by
  cases negative with
  | false => rfl
  | true => exact neg_of_pattern number

theorem text_to_list {x : Float} (finite : isFinite x = true) :
    (text x).toList =
      Numeral.signedChars (isNegative x) (Decimal.shortest (pattern x)).numeral := by
  have number : isNumber x = true :=
    decide_eq_true (Nat.le_of_lt (of_decide_eq_true finite))
  rw [text, number, finite]
  simp only [Bool.not_true, Bool.false_eq_true, if_true, if_false, Numeral.signedChars]
  split
  · simp [Decimal.text_to_list]
  · exact Decimal.text_to_list _

theorem value_of_text {x : Float} (finite : isFinite x = true) :
    Numeral.signedValue (isNegative x) (Decimal.shortest (pattern x)).numeral = x := by
  have number := Nat.le_of_lt (of_decide_eq_true finite)
  rw [Numeral.signedValue, Decimal.value_of_pattern number, signed_of_pattern _ number,
    of_pattern_pattern]

theorem text_spells {x : Float} (finite : isFinite x = true) : Spells (text x).toList x :=
  ⟨_, _, text_to_list finite, value_of_text finite⟩

theorem text_unsigned {x : Float} (finite : isFinite x = true) (unsigned : isNegative x = false) :
    ∃ numeral : Numeral, (text x).toList = numeral.chars ∧ numeral.decimal.toFloat = x := by
  have chars := text_to_list finite
  have value := value_of_text finite
  rw [unsigned] at chars value
  exact ⟨_, chars, value⟩

theorem repr_spells (number : Int) :
    Spells (Int.repr number).toList (ofWhole (decide (number < 0)) number.natAbs) := by
  refine ⟨decide (number < 0), .ofNat number.natAbs, ?_, ?_⟩
  · cases number with
    | ofNat whole => simp [Int.repr, Numeral.signedChars, Numeral.chars, Numeral.ofNat, Numeral.pointed]
    | negSucc whole =>
        simp [Int.repr, Numeral.signedChars, Numeral.chars, Numeral.ofNat, Numeral.pointed]
  · rw [Numeral.signedValue, Numeral.value_of_nat]
    exact signed_of_pattern _ (nearest_le _ 1)

end ImageGraph.Number
