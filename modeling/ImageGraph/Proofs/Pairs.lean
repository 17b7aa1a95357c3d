import ImageGraph.Proofs.Matching

/-!
Pairs. What the program for the rules matches is a tree. Every rule that has a name gives one pair:
the stretch of text that it has matched, and the pairs of the rules inside, in their order. A piece
without a name gives the pairs inside it and none of its own. Every run that matches has its pairs.
-/

set_option autoImplicit false

namespace ImageGraph.Expr

inductive Pair where
  | node (rule : Rule) (span : Span) (text : String) (inner : List Pair)

namespace Pair

def rule : Pair → Rule
  | node rule _ _ _ => rule

def span : Pair → Span
  | node _ span _ _ => span

def text : Pair → String
  | node _ _ text _ => text

def inner : Pair → List Pair
  | node _ _ _ inner => inner

end Pair

/-- What of a text stands in front of the rest of it. -/
def consumed (chars rest : List Char) : List Char := chars.take (chars.length - rest.length)

theorem consumed_append (spelling rest : List Char) :
    consumed (spelling ++ rest) rest = spelling := by
  simp [consumed]

/-- The runs of the program that match, with the pairs that they give. Alternatives and repetitions
that have been refused on the way give none. -/
inductive Matches : Piece → Nat → List Char → Attempts → Nat → List Char → Attempts → List Pair →
    Prop where
  | text {symbol : List Char} (offset : Nat) (rest : List Char) (attempts : Attempts) :
      Matches (.text symbol) offset (symbol ++ rest) attempts (offset + byteCount symbol) rest
        attempts []
  | one {keep : Char → Bool} {char : Char} (offset : Nat) (rest : List Char) (attempts : Attempts)
      (kept : keep char = true) :
      Matches (.one keep) offset (char :: rest) attempts (offset + char.utf8Size) rest attempts []
  | absent {keep : Char → Bool} {chars : List Char} (offset : Nat) (attempts : Attempts)
      (none : chars.head?.any keep = false) :
      Matches (.absent keep) offset chars attempts offset chars attempts []
  | ended (offset : Nat) (attempts : Attempts) :
      Matches .ended offset [] attempts offset [] attempts []
  | rule {name : Rule} {offset stop : Nat} {chars rest : List Char} {attempts after : Attempts}
      {inner : List Pair} (body : Matches name.body offset chars attempts stop rest after inner) :
      Matches (.rule name) offset chars attempts stop rest after
        [.node name ⟨offset, stop⟩ (.ofList (consumed chars rest)) inner]
  | both {first second : Piece} {offset middle stop : Nat} {chars between rest : List Char}
      {attempts early after : Attempts} {pairs more : List Pair}
      (before : Matches first offset chars attempts middle between early pairs)
      (behind : Matches second middle between early stop rest after more) :
      Matches (.both first second) offset chars attempts stop rest after (pairs ++ more)
  | first {first second : Piece} {offset stop : Nat} {chars rest : List Char}
      {attempts after : Attempts} {pairs : List Pair}
      (taken : Matches first offset chars attempts stop rest after pairs) :
      Matches (.either first second) offset chars attempts stop rest after pairs
  | second {first second : Piece} {offset stop : Nat} {chars rest : List Char}
      {attempts early after : Attempts} {pairs : List Pair}
      (refused : Runs first offset chars attempts (.failed early))
      (taken : Matches second offset chars early stop rest after pairs) :
      Matches (.either first second) offset chars attempts stop rest after pairs
  | some {piece : Piece} {offset stop : Nat} {chars rest : List Char} {attempts after : Attempts}
      {pairs : List Pair} (taken : Matches piece offset chars attempts stop rest after pairs) :
      Matches (.maybe piece) offset chars attempts stop rest after pairs
  | none {piece : Piece} {offset : Nat} {chars : List Char} {attempts after : Attempts}
      (refused : Runs piece offset chars attempts (.failed after)) :
      Matches (.maybe piece) offset chars attempts offset chars after []
  | further {piece : Piece} {offset middle stop : Nat} {chars between rest : List Char}
      {attempts early after : Attempts} {pairs more : List Pair}
      (once : Matches piece offset chars attempts middle between early pairs)
      (again : Matches (.star piece) middle between early stop rest after more) :
      Matches (.star piece) offset chars attempts stop rest after (pairs ++ more)
  | stop {piece : Piece} {offset : Nat} {chars : List Char} {attempts after : Attempts}
      (refused : Runs piece offset chars attempts (.failed after)) :
      Matches (.star piece) offset chars attempts offset chars after []

variable {piece first second : Piece} {name : Rule} {offset stop : Nat} {chars rest : List Char}
  {attempts after : Attempts} {pairs : List Pair}

theorem Matches.runs (matched : Matches piece offset chars attempts stop rest after pairs) :
    Runs piece offset chars attempts (.matched stop rest after) := by
  induction matched with
  | text offset rest attempts => exact .text offset rest attempts
  | one offset rest attempts kept => exact .one offset rest attempts kept
  | absent offset attempts none => exact .absent offset attempts none
  | ended offset attempts => exact .ended offset attempts
  | rule body runs => exact .rule runs
  | both before behind runsBefore runsBehind => exact .both runsBefore runsBehind
  | first taken runs => exact .first runs
  | second refused taken runs => exact .second refused runs
  | some taken runs => exact .some runs
  | none refused => exact .none refused
  | further once again runsOnce runsAgain => exact .further runsOnce runsAgain
  | stop refused => exact .stop refused

/-- Every run that matches gives pairs. -/
theorem Runs.matches (runs : Runs piece offset chars attempts (.matched stop rest after)) :
    ∃ pairs, Matches piece offset chars attempts stop rest after pairs := by
  generalize isEnding : Ending.matched stop rest after = ending at runs
  induction runs generalizing stop rest after with
  | text => cases isEnding; exact ⟨_, .text _ _ _⟩
  | one offset rest attempts kept => cases isEnding; exact ⟨_, .one _ _ _ kept⟩
  | absent offset attempts none => cases isEnding; exact ⟨_, .absent _ _ none⟩
  | ended => cases isEnding; exact ⟨_, .ended _ _⟩
  | rule body induction =>
      cases isEnding
      obtain ⟨inner, matched⟩ := induction rfl
      exact ⟨_, .rule matched⟩
  | both before behind beforeInduction behindInduction =>
      obtain ⟨pairs, matched⟩ := beforeInduction rfl
      obtain ⟨more, matchedBehind⟩ := behindInduction isEnding
      exact ⟨_, .both matched matchedBehind⟩
  | first taken induction =>
      obtain ⟨pairs, matched⟩ := induction isEnding
      exact ⟨_, .first matched⟩
  | second refused taken refusedInduction takenInduction =>
      obtain ⟨pairs, matched⟩ := takenInduction isEnding
      exact ⟨_, .second refused matched⟩
  | some taken induction =>
      obtain ⟨pairs, matched⟩ := induction isEnding
      exact ⟨_, .some matched⟩
  | none refused induction => cases isEnding; exact ⟨_, .none refused⟩
  | further once again onceInduction againInduction =>
      obtain ⟨pairs, matched⟩ := onceInduction rfl
      obtain ⟨more, matchedAgain⟩ := againInduction isEnding
      exact ⟨_, .further matched matchedAgain⟩
  | stop refused induction => cases isEnding; exact ⟨_, .stop refused⟩
  | otherText | otherOne | present | more | otherRule | notFirst => cases isEnding

/-- No rule occurs in the piece. -/
def Piece.isBare : Piece → Bool
  | text _ | one _ | absent _ | ended => true
  | rule _ => false
  | both first second | either first second => first.isBare && second.isBare
  | maybe piece | star piece => piece.isBare

theorem Matches.bare (matched : Matches piece offset chars attempts stop rest after pairs)
    (isBare : piece.isBare = true) : pairs = [] := by
  induction matched with
  | text | one | absent | ended | none | stop => rfl
  | rule => cases isBare
  | both before behind beforeInduction behindInduction =>
      obtain ⟨first, second⟩ := Bool.and_eq_true_iff.1 isBare
      rw [beforeInduction first, behindInduction second]
      rfl
  | first taken induction => exact induction (Bool.and_eq_true_iff.1 isBare).1
  | second refused taken induction => exact induction (Bool.and_eq_true_iff.1 isBare).2
  | some taken induction => exact induction isBare
  | further once again onceInduction againInduction =>
      rw [onceInduction isBare, againInduction isBare]
      rfl

/-- A run gives its pairs and no others. -/
theorem Matches.unique {otherStop : Nat} {otherRest : List Char} {otherAfter : Attempts}
    {others : List Pair} (matched : Matches piece offset chars attempts stop rest after pairs)
    (again : Matches piece offset chars attempts otherStop otherRest otherAfter others) :
    others = pairs := by
  induction matched generalizing otherStop otherRest otherAfter others with
  | text | one | absent | ended => exact again.bare rfl
  | rule body induction =>
      cases again with
      | rule other =>
          cases body.runs.deterministic other.runs
          rw [induction other]
  | both before behind beforeInduction behindInduction =>
      cases again with
      | both otherBefore otherBehind =>
          cases before.runs.deterministic otherBefore.runs
          rw [beforeInduction otherBefore, behindInduction otherBehind]
  | first taken induction =>
      cases again with
      | first other => exact induction other
      | second refused other => cases taken.runs.deterministic refused
  | second refused taken induction =>
      cases again with
      | first other => cases refused.deterministic other.runs
      | second otherRefused other =>
          cases refused.deterministic otherRefused
          exact induction other
  | some taken induction =>
      cases again with
      | some other => exact induction other
      | none refused => cases taken.runs.deterministic refused
  | none refused =>
      cases again with
      | some other => cases refused.deterministic other.runs
      | none => rfl
  | further once more onceInduction moreInduction =>
      cases again with
      | further otherOnce otherMore =>
          cases once.runs.deterministic otherOnce.runs
          rw [onceInduction otherOnce, moreInduction otherMore]
      | stop refused => cases once.runs.deterministic refused
  | stop refused =>
      cases again with
      | further other more => cases refused.deterministic other.runs
      | stop => rfl

theorem Matches.rule_parts
    (matched : Matches (.rule name) offset chars attempts stop rest after pairs) :
    ∃ inner, Matches name.body offset chars attempts stop rest after inner ∧
      pairs = [.node name ⟨offset, stop⟩ (.ofList (consumed chars rest)) inner] := by
  cases matched with
  | rule body => exact ⟨_, body, rfl⟩

theorem Matches.both_parts
    (matched : Matches (.both first second) offset chars attempts stop rest after pairs) :
    ∃ middle between early front back,
      Matches first offset chars attempts middle between early front ∧
        Matches second middle between early stop rest after back ∧ pairs = front ++ back := by
  cases matched with
  | both before behind => exact ⟨_, _, _, _, _, before, behind, rfl⟩

theorem Matches.single (matched : Matches (.rule name) offset chars attempts stop rest after pairs)
    (isBare : name.body.isBare = true) :
    pairs = [.node name ⟨offset, stop⟩ (.ofList (consumed chars rest)) []] := by
  obtain ⟨inner, body, rfl⟩ := matched.rule_parts
  rw [body.bare isBare]

theorem Matches.single_of_takes {spelling behind : List Char}
    (matched : Matches (.rule name) offset chars attempts stop rest after pairs)
    (isBare : name.body.isBare = true) (parts : chars = spelling ++ behind)
    (takes : (Piece.rule name).Takes spelling behind) :
    stop = offset + spelling.length ∧ rest = behind ∧
      pairs = [.node name ⟨offset, offset + spelling.length⟩ (.ofList spelling) []] := by
  subst parts
  cases matched.runs.deterministic (takes offset attempts)
  refine ⟨rfl, rfl, ?_⟩
  rw [matched.single isBare, consumed_append]

theorem Matches.gap_parts (matched : Matches .gap offset chars attempts stop rest after pairs) :
    stop = offset + blanks chars ∧ rest = unpadded chars ∧ after = attempts ∧ pairs = [] := by
  cases matched.runs.deterministic (runs_gap offset chars attempts)
  exact ⟨rfl, rfl, rfl, matched.bare rfl⟩

theorem Matches.spaced_parts
    (matched : Matches (.spaced first second) offset chars attempts stop rest after pairs) :
    ∃ middle between early front back,
      Matches first offset chars attempts middle between early front ∧
        Matches second (middle + blanks between) (unpadded between) early stop rest after back ∧
        pairs = front ++ back := by
  obtain ⟨_, _, _, _, _, before, padded, rfl⟩ := matched.both_parts
  obtain ⟨_, _, _, _, _, gap, behind, rfl⟩ := padded.both_parts
  obtain ⟨rfl, rfl, rfl, rfl⟩ := gap.gap_parts
  exact ⟨_, _, _, _, _, before, behind, rfl⟩

theorem Matches.text_parts {symbol : List Char}
    (matched : Matches (.text symbol) offset chars attempts stop rest after pairs) :
    chars = symbol ++ rest ∧ stop = offset + byteCount symbol ∧ after = attempts ∧ pairs = [] := by
  cases matched
  exact ⟨rfl, rfl, rfl, rfl⟩

theorem Matches.shorter {char : Char}
    (matched : Matches (.text [char]) offset chars attempts stop rest after pairs) :
    rest.length < chars.length := by
  obtain ⟨rfl, -⟩ := matched.text_parts
  exact Nat.lt_succ_self _

/-- Matches of a piece, one behind the other and each with any blanks before it. -/
inductive Rows (piece : Piece) : Nat → List Char → Nat → List Char → List Pair → Prop where
  | done (offset : Nat) (chars : List Char) : Rows piece offset chars offset chars []
  | again {offset middle stop : Nat} {chars between rest : List Char} {attempts early : Attempts}
      {pairs more : List Pair}
      (once : Matches piece (offset + blanks chars) (unpadded chars) attempts middle between early
        pairs)
      (others : Rows piece middle between stop rest more) :
      Rows piece offset chars stop rest (pairs ++ more)

theorem Matches.star_rows
    (matched : Matches (.star (.both .gap piece)) offset chars attempts stop rest after pairs) :
    Rows piece offset chars stop rest pairs := by
  generalize isStar : Piece.star (.both .gap piece) = repeated at matched
  induction matched with
  | further once again _ againInduction =>
      cases isStar
      cases once with
      | both gap once =>
          obtain ⟨rfl, rfl, rfl, rfl⟩ := gap.gap_parts
          exact .again once (againInduction rfl)
  | stop => exact .done _ _
  | _ => cases isStar

theorem Matches.rows
    (matched : Matches (.spacedStar piece) offset chars attempts stop rest after pairs)
    (begins : ∀ middle between early front,
      Matches piece offset chars attempts middle between early front →
        Token.Leaves Token.isGap chars) :
    Rows piece offset chars stop rest pairs := by
  cases matched with
  | some taken =>
      cases taken with
      | both once again =>
          have solid := begins _ _ _ _ once
          have unpadded := unpadded_of_solid solid
          have blanks := blanks_of_solid solid
          rw [← unpadded, ← Nat.add_zero offset, ← blanks] at once
          exact .again once again.star_rows
  | none => exact .done _ _

end ImageGraph.Expr
