import ImageGraph.Expr.Reader
import Mathlib.Logic.Relation

/-!
The rules of the grammar, on characters. They can be read in two ways. As a plain grammar, a choice
may take any of its alternatives and a repetition may stop anywhere. As a program, a choice takes
the first alternative that matches and never comes back to it, and a repetition goes on as long as
it can. The program also keeps track of the furthest place where rules have been tried in vain and
of the rules that were tried there, which is what it reports when it fails. What the program matches
is derivable, and it can end in one way only.
-/

set_option autoImplicit false

namespace ImageGraph.Expr

/-- The rules that have a name, in the order in which they are reported. -/
inductive Rule where
  | ended
  | input
  | expression
  | call
  | array
  | resolution
  | width
  | height
  | label
  | number
  | word
  | minus
  | symbol (operator : Operator)
  deriving DecidableEq, Repr

namespace Rule

def all : List Rule :=
  [ended, input, expression, call, array, resolution, width, height, label, number, word, minus] ++
    Operator.all.map symbol

def name : Rule → String
  | ended => "EOI"
  | input => "input"
  | expression => "expr"
  | call => "call"
  | array => "array"
  | resolution => "resolution"
  | width => "res_width"
  | height => "res_height"
  | label => "res_name"
  | number => "number"
  | word => "ident"
  | minus => "neg"
  | symbol meaning => Expected.operatorTerm meaning

end Rule

/-- What the right side of a rule is made of. -/
inductive Piece where
  | text (symbol : List Char)
  | one (keep : Char → Bool)
  /-- A look at the next character, which must not be one of these. -/
  | absent (keep : Char → Bool)
  | ended
  | rule (name : Rule)
  | both (first second : Piece)
  | either (first second : Piece)
  | maybe (piece : Piece)
  | star (piece : Piece)

namespace Piece

def plus (piece : Piece) : Piece := both piece (star piece)

def oneOf : List Piece → Piece
  | [] => one fun _ => false
  | [last] => last
  | first :: others => either first (oneOf others)

def gap : Piece := star (one Token.isGap)

/-- One piece behind the other, with any blanks between them. -/
def spaced (first second : Piece) : Piece := both first (both gap second)

/-- Any number of pieces, with any blanks between them. -/
def spacedStar (piece : Piece) : Piece := maybe (both piece (star (both gap piece)))

def signs : Piece := spacedStar (rule .minus)

def group : Piece := spaced (text ['(']) (spaced (rule .expression) (text [')']))

def primary : Piece :=
  oneOf [rule .call, rule .array, rule .resolution, rule .label, rule .number, rule .word, group]

def operand : Piece := spaced signs primary

def anyOperator : Piece := oneOf (Operator.all.map fun operator => rule (.symbol operator))

/-- One or more expressions with commas between them. -/
def list : Piece :=
  spaced (rule .expression) (spacedStar (spaced (text [',']) (rule .expression)))

def digits : Piece := plus (one Char.isDigit)

end Piece

/-- The right side of each rule. Blanks may stand between the pieces of the rules for whole
expressions, calls and arrays. All other rules are for single tokens. -/
def Rule.body : Rule → Piece
  | ended => .ended
  | input => .both .gap (.spaced (.rule expression) (.rule ended))
  | expression => .spaced .operand (.spacedStar (.spaced .anyOperator .operand))
  | call => .spaced (.rule word) (.spaced (.text ['(']) (.spaced (.maybe .list) (.text [')'])))
  | array => .spaced (.text ['[']) (.spaced (.maybe .list) (.text [']']))
  | resolution => .both (.rule width) (.both (.text ['x']) (.rule height))
  | width =>
      .both (.one Char.isDigit)
        (.star (.both (.absent (· == 'x')) (.one fun char => char.isAlphanum || char == '.')))
  | height => .star (.one Token.isHeightChar)
  | label =>
      .both .digits
        (.both (.one fun char => char == 'p' || char == 'k') (.absent Token.isWordChar))
  | number =>
      .either (.both .digits (.maybe (.both (.text ['.']) (.star (.one Char.isDigit)))))
        (.both (.text ['.']) .digits)
  | word => .both (.one Token.isWordStart) (.star (.one Token.isWordChar))
  | minus => .text ['-']
  | symbol operator => .text operator.symbol.toList

/-- The rules as a plain grammar: the piece stands for what is in front of the rest of the text. -/
inductive Derives : Piece → List Char → List Char → Prop where
  | text {symbol : List Char} (rest : List Char) : Derives (.text symbol) (symbol ++ rest) rest
  | one {keep : Char → Bool} {char : Char} (rest : List Char) (kept : keep char = true) :
      Derives (.one keep) (char :: rest) rest
  | absent {keep : Char → Bool} {chars : List Char} (none : chars.head?.any keep = false) :
      Derives (.absent keep) chars chars
  | ended : Derives .ended [] []
  | rule {name : Rule} {chars rest : List Char} (body : Derives name.body chars rest) :
      Derives (.rule name) chars rest
  | both {first second : Piece} {chars middle rest : List Char}
      (before : Derives first chars middle) (behind : Derives second middle rest) :
      Derives (.both first second) chars rest
  | first {first second : Piece} {chars rest : List Char} (taken : Derives first chars rest) :
      Derives (.either first second) chars rest
  | second {first second : Piece} {chars rest : List Char} (taken : Derives second chars rest) :
      Derives (.either first second) chars rest
  | none {piece : Piece} (chars : List Char) : Derives (.maybe piece) chars chars
  | some {piece : Piece} {chars rest : List Char} (taken : Derives piece chars rest) :
      Derives (.maybe piece) chars rest
  | stop {piece : Piece} (chars : List Char) : Derives (.star piece) chars chars
  | further {piece : Piece} {chars middle rest : List Char} (once : Derives piece chars middle)
      (again : Derives (.star piece) middle rest) : Derives (.star piece) chars rest

/-- The furthest place where rules have been tried in vain, and these rules. -/
structure Attempts where
  furthest : Nat
  rules : List Rule
  deriving DecidableEq, Repr

namespace Attempts

def none : Attempts := ⟨0, []⟩

/-- How many rules have been tried in vain at a place, if no place further on is known. -/
def count (attempts : Attempts) (offset : Nat) : Nat :=
  if attempts.furthest = offset then attempts.rules.length else 0

/-- A rule has failed. It stands for all that was tried for it at the place where it began, of which
there were so many attempts before. But if that was a single rule, this one is kept; and if
something was tried further on, only that counts. -/
def miss (attempts : Attempts) (rule : Rule) (offset before : Nat) : Attempts :=
  if attempts.count offset = before + 1 then attempts
  else if attempts.furthest = offset then ⟨offset, attempts.rules.take before ++ [rule]⟩
  else if attempts.furthest < offset then ⟨offset, [rule]⟩
  else attempts

/-- The names of the rules that were tried in vain at the furthest place. -/
def terms (attempts : Attempts) : List String :=
  (Rule.all.filter fun rule => attempts.rules.contains rule).map Rule.name

end Attempts

/-- How the program ends: with the place behind what was matched and the text that is left there, or
without a match. -/
inductive Ending where
  | matched (stop : Nat) (rest : List Char) (attempts : Attempts)
  | failed (attempts : Attempts)

def byteCount : List Char → Nat
  | [] => 0
  | char :: chars => char.utf8Size + byteCount chars

/-- The rules as a program, from a place in a text that is counted in bytes. -/
inductive Runs : Piece → Nat → List Char → Attempts → Ending → Prop where
  | text {symbol : List Char} (offset : Nat) (rest : List Char) (attempts : Attempts) :
      Runs (.text symbol) offset (symbol ++ rest) attempts
        (.matched (offset + byteCount symbol) rest attempts)
  | otherText {symbol chars : List Char} (offset : Nat) (attempts : Attempts)
      (other : ¬symbol <+: chars) : Runs (.text symbol) offset chars attempts (.failed attempts)
  | one {keep : Char → Bool} {char : Char} (offset : Nat) (rest : List Char) (attempts : Attempts)
      (kept : keep char = true) :
      Runs (.one keep) offset (char :: rest) attempts
        (.matched (offset + char.utf8Size) rest attempts)
  | otherOne {keep : Char → Bool} {chars : List Char} (offset : Nat) (attempts : Attempts)
      (none : chars.head?.any keep = false) :
      Runs (.one keep) offset chars attempts (.failed attempts)
  | absent {keep : Char → Bool} {chars : List Char} (offset : Nat) (attempts : Attempts)
      (none : chars.head?.any keep = false) :
      Runs (.absent keep) offset chars attempts (.matched offset chars attempts)
  | present {keep : Char → Bool} {chars : List Char} (offset : Nat) (attempts : Attempts)
      (some : chars.head?.any keep = true) :
      Runs (.absent keep) offset chars attempts (.failed attempts)
  | ended (offset : Nat) (attempts : Attempts) :
      Runs .ended offset [] attempts (.matched offset [] attempts)
  | more (char : Char) (rest : List Char) (offset : Nat) (attempts : Attempts) :
      Runs .ended offset (char :: rest) attempts (.failed attempts)
  | rule {name : Rule} {offset stop : Nat} {chars rest : List Char} {attempts after : Attempts}
      (body : Runs name.body offset chars attempts (.matched stop rest after)) :
      Runs (.rule name) offset chars attempts (.matched stop rest after)
  | otherRule {name : Rule} {offset : Nat} {chars : List Char} {attempts after : Attempts}
      (body : Runs name.body offset chars attempts (.failed after)) :
      Runs (.rule name) offset chars attempts
        (.failed (after.miss name offset (attempts.count offset)))
  | both {first second : Piece} {offset middle : Nat} {chars rest : List Char}
      {attempts after : Attempts} {ending : Ending}
      (before : Runs first offset chars attempts (.matched middle rest after))
      (behind : Runs second middle rest after ending) :
      Runs (.both first second) offset chars attempts ending
  | notFirst {first second : Piece} {offset : Nat} {chars : List Char}
      {attempts after : Attempts} (before : Runs first offset chars attempts (.failed after)) :
      Runs (.both first second) offset chars attempts (.failed after)
  | first {first second : Piece} {offset stop : Nat} {chars rest : List Char}
      {attempts after : Attempts}
      (taken : Runs first offset chars attempts (.matched stop rest after)) :
      Runs (.either first second) offset chars attempts (.matched stop rest after)
  | second {first second : Piece} {offset : Nat} {chars : List Char}
      {attempts after : Attempts} {ending : Ending}
      (refused : Runs first offset chars attempts (.failed after))
      (taken : Runs second offset chars after ending) :
      Runs (.either first second) offset chars attempts ending
  | some {piece : Piece} {offset stop : Nat} {chars rest : List Char} {attempts after : Attempts}
      (taken : Runs piece offset chars attempts (.matched stop rest after)) :
      Runs (.maybe piece) offset chars attempts (.matched stop rest after)
  | none {piece : Piece} {offset : Nat} {chars : List Char} {attempts after : Attempts}
      (refused : Runs piece offset chars attempts (.failed after)) :
      Runs (.maybe piece) offset chars attempts (.matched offset chars after)
  | further {piece : Piece} {offset middle : Nat} {chars rest : List Char}
      {attempts after : Attempts} {ending : Ending}
      (once : Runs piece offset chars attempts (.matched middle rest after))
      (again : Runs (.star piece) middle rest after ending) :
      Runs (.star piece) offset chars attempts ending
  | stop {piece : Piece} {offset : Nat} {chars : List Char} {attempts after : Attempts}
      (refused : Runs piece offset chars attempts (.failed after)) :
      Runs (.star piece) offset chars attempts (.matched offset chars after)

variable {piece first second : Piece} {offset : Nat} {chars rest : List Char}
  {attempts : Attempts} {ending other : Ending}

theorem Derives.suffix (derives : Derives piece chars rest) : rest <:+ chars := by
  induction derives with
  | text | one => simp
  | absent | ended | none | stop => exact List.suffix_rfl
  | rule body induction => exact induction
  | both before behind beforeInduction behindInduction =>
      exact behindInduction.trans beforeInduction
  | first taken induction => exact induction
  | second taken induction => exact induction
  | some taken induction => exact induction
  | further once again onceInduction againInduction => exact againInduction.trans onceInduction

/-- The program can end in one way only. -/
theorem Runs.deterministic (runs : Runs piece offset chars attempts ending)
    (again : Runs piece offset chars attempts other) : other = ending := by
  induction runs generalizing other with
  | @text symbol offset rest attempts =>
      generalize whole : symbol ++ rest = all at again
      cases again with
      | text offset other attempts =>
          obtain rfl := List.append_cancel_left whole
          rfl
      | otherText offset attempts different =>
          exact absurd ⟨rest, whole⟩ different
  | otherText offset attempts different =>
      cases again with
      | text offset other attempts => exact absurd (List.prefix_append _ _) different
      | otherText => rfl
  | one offset rest attempts kept =>
      cases again with
      | one => rfl
      | otherOne offset attempts none =>
          have noChar := none
          simp [kept] at noChar
  | otherOne offset attempts none =>
      cases again with
      | one offset rest attempts kept => simp [kept] at none
      | otherOne => rfl
  | absent offset attempts none =>
      cases again with
      | absent => rfl
      | present offset attempts some => exact absurd (none.symm.trans some) (by decide)
  | present offset attempts some =>
      cases again with
      | absent offset attempts none => exact absurd (none.symm.trans some) (by decide)
      | present => rfl
  | ended offset attempts =>
      cases again with
      | ended => rfl
  | more char rest offset attempts =>
      cases again with
      | more => rfl
  | rule body induction =>
      cases again with
      | rule body => exact induction body
      | otherRule body => cases induction body
  | otherRule body induction =>
      cases again with
      | rule body => cases induction body
      | otherRule body =>
          cases induction body
          rfl
  | both before behind beforeInduction behindInduction =>
      cases again with
      | both before behind =>
          cases beforeInduction before
          exact behindInduction behind
      | notFirst before => cases beforeInduction before
  | notFirst before induction =>
      cases again with
      | both before behind => cases induction before
      | notFirst before => exact induction before
  | first taken induction =>
      cases again with
      | first taken => exact induction taken
      | second refused taken => cases induction refused
  | second refused taken refusedInduction takenInduction =>
      cases again with
      | first taken => cases refusedInduction taken
      | second refused taken =>
          cases refusedInduction refused
          exact takenInduction taken
  | some taken induction =>
      cases again with
      | some taken => exact induction taken
      | none refused => cases induction refused
  | none refused induction =>
      cases again with
      | some taken => cases induction taken
      | none refused =>
          cases induction refused
          rfl
  | further once again' onceInduction againInduction =>
      cases again with
      | further once again =>
          cases onceInduction once
          exact againInduction again
      | stop refused => cases onceInduction refused
  | stop refused induction =>
      cases again with
      | further once again => cases induction once
      | stop refused =>
          cases induction refused
          rfl

/-- What the program matches is derivable. -/
theorem Runs.derives {stop : Nat} {after : Attempts}
    (runs : Runs piece offset chars attempts (.matched stop rest after)) :
    Derives piece chars rest := by
  generalize isEnding : Ending.matched stop rest after = ending at runs
  induction runs generalizing stop rest after with
  | text => cases isEnding; exact .text _
  | one offset rest attempts kept => cases isEnding; exact .one _ kept
  | absent offset attempts none => cases isEnding; exact .absent none
  | ended => cases isEnding; exact .ended
  | rule body induction => cases isEnding; exact .rule (induction rfl)
  | both before behind beforeInduction behindInduction =>
      exact .both (beforeInduction rfl) (behindInduction isEnding)
  | first taken induction => exact .first (induction isEnding)
  | second refused taken refusedInduction takenInduction =>
      exact .second (takenInduction isEnding)
  | some taken induction => exact .some (induction isEnding)
  | none refused induction => cases isEnding; exact .none _
  | further once again onceInduction againInduction =>
      exact .further (onceInduction rfl) (againInduction isEnding)
  | stop refused induction => cases isEnding; exact .stop _
  | otherText | otherOne | present | more | otherRule | notFirst => cases isEnding

end ImageGraph.Expr
