import ImageGraph.Proofs.Operands
import ImageGraph.Proofs.Climbing

/-!
Building follows reading. Wherever the rule for expressions matches, its pairs show the symbols of a
chain, and the tokens in the same stretch of the text are read as that chain. The induction is on the
length of the text, and none of the cases asks what comes behind the match.
-/

set_option autoImplicit false

namespace ImageGraph.Expr

open Token

/-- The tokens that are scanned on the way from one place of a text to another. -/
def Scans (tokens : List Placed) (afterOperand : Bool) (offset : Nat) (chars : List Char)
    (final : Bool) (stop : Nat) (rest : List Char) : Prop :=
  scan afterOperand offset chars =
    { scan final stop rest with tokens := tokens ++ (scan final stop rest).tokens }

namespace Scans

variable {afterOperand final : Bool} {offset stop : Nat} {chars rest behind spelling : List Char}
  {tokens : List Placed} {token : Token}

theorem skip (scans : Scans tokens afterOperand offset chars final stop rest) :
    Scans tokens afterOperand offset chars final (stop + blanks rest) (unpadded rest) := by
  unfold Scans at scans ⊢
  rw [State.scan_unpadded]
  exact scans

theorem pad
    (scans : Scans tokens afterOperand (offset + blanks chars) (unpadded chars) final stop
      rest) : Scans tokens afterOperand offset chars final stop rest := by
  unfold Scans at scans ⊢
  rw [State.scan_unpadded] at scans
  exact scans

theorem append {middle : Bool} {between : Nat} {more : List Placed}
    (first : Scans tokens afterOperand offset chars middle between behind)
    (second : Scans more middle between behind final stop rest) :
    Scans (tokens ++ more) afterOperand offset chars final stop rest := by
  unfold Scans at first second ⊢
  rw [first, second, List.append_assoc]

theorem single (isRead : IsRead afterOperand token spelling behind) (offset : Nat) :
    Scans [⟨token, ⟨offset, offset + spelling.length⟩⟩] afterOperand offset (spelling ++ behind)
      token.endsOperand (offset + spelling.length) behind := by
  obtain ⟨first, rest, begins, read⟩ := isRead
  have solid := not_gap_of_read read
  have dropped : (first :: rest).dropWhile isGap = first :: rest := by simp [solid]
  have none : (first :: rest).takeWhile isGap = [] := by simp [solid]
  have length : (first :: rest).length - behind.length = spelling.length := by
    rw [← begins, List.length_append]
    omega
  unfold Scans
  rw [begins, scan_token dropped read]
  simp only [none, List.length_nil, Nat.add_zero, length]
  rfl

end Scans

theorem Matches.punctuation_scans {char : Char} {token : Token} {offset stop : Nat}
    {chars rest : List Char} {attempts after : Attempts} {pairs : List Pair}
    (matched : Matches (.text [char]) offset chars attempts stop rest after pairs)
    (isPunctuation : punctuation? char = Option.some token) (afterOperand : Bool) :
    Scans [⟨token, ⟨offset, stop⟩⟩] afterOperand offset chars token.endsOperand stop rest ∧
      pairs = [] := by
  obtain ⟨rfl, rfl, -, rfl⟩ := matched.text_parts
  have ascii : byteCount [char] = 1 := by
    unfold punctuation? at isPunctuation
    split at isPunctuation <;> first | rfl | cases isPunctuation
  have isRead : IsRead afterOperand token [char] rest :=
    ⟨char, rest, rfl, by rw [read?, isPunctuation]⟩
  rw [ascii]
  exact ⟨.single isRead offset, rfl⟩

theorem Pair.items_append (pairs more : List Pair) :
    items (pairs ++ more) = items pairs ++ items more := by
  induction pairs with
  | nil => rfl
  | cons pair pairs induction =>
      rw [List.cons_append, items, items, induction, List.cons_append]

theorem Item.whole_signed {items : List Item} {chain : Chain Operand}
    (shows : List.Forall₂ Shows items chain.symbols) : whole items = pure chain.signedExpr := by
  obtain ⟨tree, built, groups⟩ := whole_of_chain shows
  rw [built, Grouping.eq_of_groups groups, tree_grouping_expr]

/-- The pairs of a stretch of text show symbols, and its tokens are read as a part. -/
structure Built (offset : Nat) (chars : List Char) (stop : Nat) (rest : List Char)
    (pairs : List Pair) (symbols : List Symbol) (part : Part) : Prop where
  shows : List.Forall₂ Item.Shows (Pair.items pairs) symbols
  reads : ∃ tokens, Reads tokens part ∧ Scans tokens false offset chars true stop rest

def OperandBuilt (offset : Nat) (chars : List Char) (stop : Nat) (rest : List Char)
    (pairs : List Pair) : Prop :=
  ∃ operand : Operand, Built offset chars stop rest pairs operand.symbols (.operand operand)

def ChainBuilt (offset : Nat) (chars : List Char) (stop : Nat) (rest : List Char)
    (pairs : List Pair) : Prop :=
  ∃ chain : Chain Operand, Built offset chars stop rest pairs chain.symbols (.whole chain)

/-- Some pairs are built into a list of expressions, and their tokens are read as that list. -/
def Listed (offset : Nat) (chars : List Char) (final : Bool) (stop : Nat) (rest : List Char)
    (pairs : List Pair) (items : List Expr) : Prop :=
  Pair.expressions pairs = pure items ∧
    ∃ tokens, Reads tokens (.items items) ∧ Scans tokens false offset chars final stop rest

/-- Whole expressions up to some length are built as they are read. -/
def BuiltWithin (length : Nat) : Prop :=
  ∀ offset chars attempts stop rest after pairs, chars.length < length →
    Matches (.rule .expression) offset chars attempts stop rest after pairs →
      ∃ text inner, pairs = [.node .expression ⟨offset, stop⟩ text inner] ∧
        ChainBuilt offset chars stop rest inner

variable {length offset stop : Nat} {chars rest : List Char} {attempts after : Attempts}
  {pairs more : List Pair}

namespace Built

variable {symbols : List Symbol} {part : Part} {value : Expr} {operand : Operand}
  {chain : Chain Operand}

theorem pad
    (built : Built (offset + blanks chars) (unpadded chars) stop rest pairs symbols
      part) : Built offset chars stop rest pairs symbols part := by
  obtain ⟨tokens, reads, scans⟩ := built.reads
  exact ⟨built.shows, tokens, reads, scans.pad⟩

theorem skip (built : Built offset chars stop rest pairs symbols part) :
    Built offset chars (stop + blanks rest) (unpadded rest) pairs symbols part := by
  obtain ⟨tokens, reads, scans⟩ := built.reads
  exact ⟨built.shows, tokens, reads, scans.skip⟩

theorem pair {rule : Rule} {span : Span} {text : String} {inner : List Pair}
    {tokens : List Placed} (isOperand : rule.binding? = none)
    (built : (Pair.node rule span text inner).operand = pure value)
    (reads : Reads tokens (.primary value)) (scans : Scans tokens false offset chars true stop rest) :
    Built offset chars stop rest [.node rule span text inner] [.primary value] (.primary value) :=
  ⟨.cons (.primary isOperand built) .nil, tokens, reads, scans⟩

theorem atom {rule : Rule} {text : String} {inner : List Pair} {token : Token}
    {spelling behind : List Char} (isRead : IsRead false token spelling behind)
    (ends : token.endsOperand = true)
    (isAtom : State.atom? token ⟨offset, offset + spelling.length⟩ = some value)
    (isOperand : rule.binding? = none)
    (built : (Pair.node rule ⟨offset, offset + spelling.length⟩ text inner).operand = pure value) :
    Built offset (spelling ++ behind) (offset + spelling.length) behind
      [.node rule ⟨offset, offset + spelling.length⟩ text inner] [.primary value]
      (.primary value) := by
  have scans := Scans.single isRead offset
  rw [ends] at scans
  exact .pair isOperand built (.atom isAtom) scans

theorem plain (built : Built offset chars stop rest pairs [.primary value] (.primary value)) :
    Built offset chars stop rest pairs (Operand.symbols ⟨[], value⟩) (.operand ⟨[], value⟩) := by
  obtain ⟨tokens, reads, scans⟩ := built.reads
  exact ⟨built.shows, tokens, .plain reads, scans⟩

theorem minus {text : String} {inner : List Pair}
    (built : Built (offset + 1) chars stop rest pairs operand.symbols (.operand operand)) :
    Built offset ('-' :: chars) stop rest
      (.node .minus ⟨offset, offset + 1⟩ text inner :: pairs)
      (Operand.symbols ⟨offset :: operand.minuses, operand.primary⟩)
      (.operand ⟨offset :: operand.minuses, operand.primary⟩) := by
  obtain ⟨tokens, reads, scans⟩ := built.reads
  have isRead : IsRead false .minus ['-'] chars := ⟨'-', chars, rfl, rfl⟩
  exact ⟨.cons (.minus rfl) built.shows, _, .minus ⟨offset, offset + 1⟩ reads,
    (Scans.single isRead offset).append scans⟩

theorem single (built : Built offset chars stop rest pairs operand.symbols (.operand operand)) :
    Built offset chars stop rest pairs (Chain.symbols ⟨operand, []⟩) (.whole ⟨operand, []⟩) := by
  obtain ⟨tokens, reads, scans⟩ := built.reads
  refine ⟨?_, tokens, .single reads, scans⟩
  rw [Chain.symbols, linkSymbols, List.flatMap_nil, List.append_nil]
  exact built.shows

theorem extend {operator : Operator} {middle : Nat} {behind : List Char} {text : String}
    {inner : List Pair} (isText : text = operator.symbol)
    (isRead : IsRead true (.operator operator) operator.symbol.toList behind)
    (before : Built offset chars middle (operator.symbol.toList ++ behind) pairs chain.symbols
      (.whole chain))
    (built : Built (middle + operator.symbol.toList.length) behind stop rest more operand.symbols
      (.operand operand)) {span : Span} :
    Built offset chars stop rest (pairs ++ .node (.symbol operator) span text inner :: more)
      (chain.extend operator operand).symbols (.whole (chain.extend operator operand)) := by
  obtain ⟨tokens, reads, scans⟩ := before.reads
  obtain ⟨others, readsBehind, scansBehind⟩ := built.reads
  have symbols : (chain.extend operator operand).symbols =
      chain.symbols ++ .operator operator :: operand.symbols := by
    rw [Chain.extend, Chain.symbols_append]
    simp [Chain.symbols, linkSymbols]
  refine ⟨?_, _, .extend operator _ reads readsBehind,
    scans.append ((Scans.single isRead middle).append scansBehind)⟩
  rw [Pair.items_append, symbols]
  exact List.rel_append before.shows (.cons (.operator rfl isText) built.shows)

end Built

theorem Rows.signs_built (rows : Rows (.rule .minus) offset chars stop rest pairs) {final : Nat}
    {left : List Char} (behind : OperandBuilt stop rest final left more) :
    OperandBuilt offset chars final left (pairs ++ more) := by
  induction rows with
  | done => exact behind
  | @again offset _ _ chars _ _ _ _ _ _ once others induction =>
      obtain ⟨operand, built⟩ := induction behind
      obtain ⟨inner, body, rfl⟩ := once.rule_parts
      obtain ⟨begins, rfl, -, rfl⟩ := body.text_parts
      refine ⟨⟨(offset + blanks chars) :: operand.minuses, operand.primary⟩, .pad ?_⟩
      rw [begins]
      exact built.minus

/-- Operands up to some length are built as they are read. -/
def OperandsWithin (length : Nat) : Prop :=
  ∀ offset chars attempts stop rest after pairs, chars.length ≤ length →
    Matches .operand offset chars attempts stop rest after pairs →
      OperandBuilt offset chars stop rest pairs

theorem Rows.links_built (within : OperandsWithin length) {start : Nat} {whole : List Char}
    {front : List Pair} (rows : Rows (.spaced .anyOperator .operand) offset chars stop rest pairs)
    (short : chars.length ≤ length) (before : ChainBuilt start whole offset chars front) :
    ChainBuilt start whole stop rest (front ++ pairs) := by
  induction rows generalizing front with
  | done =>
      rw [List.append_nil]
      exact before
  | @again _ _ _ chars _ _ _ _ _ _ once others induction =>
      obtain ⟨chain, built⟩ := before
      obtain ⟨_, behind, _, _, _, symbol, next, rfl⟩ := once.spaced_parts
      obtain ⟨operator, parts, rfl, isRead, rfl⟩ := symbol.operator_read
      have shorter := once.runs.derives.suffix.length_le
      have shorterBehind := next.runs.derives.suffix.length_le
      have shorterOperand := symbol.runs.derives.suffix.length_le
      have padded := length_unpadded behind
      have paddedChars := length_unpadded chars
      obtain ⟨operand, builtOperand⟩ := within _ _ _ _ _ _ _ (by omega) next
      have goesOn := built.skip
      rw [parts] at goesOn
      rw [← List.append_assoc]
      exact induction (by omega) ⟨_, goesOn.extend rfl isRead builtOperand.pad⟩

section Within

variable (within : BuiltWithin length)

include within

theorem expression_built (short : chars.length < length)
    (matched : Matches (.rule .expression) offset chars attempts stop rest after pairs) :
    ∃ pair, ∃ chain : Chain Operand, pairs = [pair] ∧ pair.rule = .expression ∧
      pair.expression = pure chain.signedExpr ∧
      ∃ tokens, Reads tokens (.whole chain) ∧ Scans tokens false offset chars true stop rest := by
  obtain ⟨text, inner, rfl, chain, built⟩ := within _ _ _ _ _ _ _ short matched
  obtain ⟨tokens, reads, scans⟩ := built.reads
  exact ⟨_, chain, rfl, rfl, Item.whole_signed built.shows, tokens, reads, scans⟩

/-- Items behind commas go on with a list. -/
theorem Rows.items_built {start : Nat} {whole : List Char} {front : List Placed} {first : Expr}
    {items : List Expr}
    (rows : Rows (.spaced (.text [',']) (.rule .expression)) offset chars stop rest pairs)
    (short : chars.length ≤ length) (reads : Reads front (.items (first :: items)))
    (scans : Scans front false start whole true offset chars) :
    ∃ others tokens, Pair.expressions pairs = pure others ∧
      Reads tokens (.items (first :: items ++ others)) ∧
      Scans tokens false start whole true stop rest := by
  induction rows generalizing items front with
  | done =>
      rw [← List.append_nil (first :: items)] at reads
      exact ⟨[], front, rfl, reads, scans⟩
  | @again offset _ _ chars _ _ _ _ _ _ once others induction =>
      obtain ⟨_, behind, _, _, _, comma, expression, rfl⟩ := once.spaced_parts
      obtain ⟨separates, rfl⟩ := comma.punctuation_scans rfl true
      have shorterComma := comma.shorter
      have padded := length_unpadded behind
      have paddedChars := length_unpadded chars
      have shorterBehind := expression.runs.derives.suffix.length_le
      obtain ⟨pair, chain, rfl, -, built, tokens, readsItem, scansItem⟩ :=
        expression_built within (by omega) expression
      obtain ⟨more, row, builtMore, readsMore, scansMore⟩ :=
        induction (by omega) (.comma _ reads readsItem)
          (scans.skip.append (separates.append scansItem.pad))
      refine ⟨chain.signedExpr :: more, row, ?_, ?_, scansMore⟩
      · simp [Pair.expressions, built, builtMore]
      · simpa using readsMore

theorem list_built (short : chars.length < length)
    (matched : Matches .list offset chars attempts stop rest after pairs) :
    ∃ items, Listed offset chars true stop rest pairs items := by
  obtain ⟨_, behind, _, _, _, expression, others, rfl⟩ := matched.spaced_parts
  have shorter := expression.runs.derives.suffix.length_le
  have padded := length_unpadded behind
  obtain ⟨pair, chain, rfl, -, built, tokens, reads, scans⟩ :=
    expression_built within short expression
  have rows := others.rows fun _ _ _ _ _ => unpadded_solid behind
  obtain ⟨items, all, builtOthers, readsAll, scansAll⟩ :=
    rows.items_built within (by omega) (.one reads) scans.skip
  refine ⟨chain.signedExpr :: items, ?_, all, readsAll, scansAll⟩
  simp [Pair.expressions, built, builtOthers]

/-- A list between brackets, which may be empty. -/
theorem enclosed_built {left right : Char} {opens closes : Token}
    (isLeft : punctuation? left = some opens) (begins : opens.endsOperand = false)
    (isRight : punctuation? right = some closes) (ends : closes.endsOperand = true)
    (short : chars.length ≤ length)
    (matched : Matches (.spaced (.text [left]) (.spaced (.maybe .list) (.text [right]))) offset chars
      attempts stop rest after pairs) (afterOperand : Bool) :
    ∃ items tokens first last, Pair.expressions pairs = pure items ∧ Reads tokens (.items items) ∧
      Scans (⟨opens, ⟨offset, first⟩⟩ :: (tokens ++ [⟨closes, ⟨last, stop⟩⟩])) afterOperand
        offset chars true stop rest := by
  obtain ⟨_, inside, _, _, _, opening, more, rfl⟩ := matched.spaced_parts
  obtain ⟨_, behind, _, _, _, list, closing, rfl⟩ := more.spaced_parts
  obtain ⟨scansOpening, rfl⟩ := opening.punctuation_scans isLeft afterOperand
  have closingScans (final : Bool) := closing.punctuation_scans isRight final
  have shorter := opening.shorter
  have padded := length_unpadded inside
  rw [begins] at scansOpening
  rw [ends] at closingScans
  cases list with
  | none refused =>
      obtain ⟨scansClosing, rfl⟩ := closingScans false
      exact ⟨[], [], _, _, rfl, .none, scansOpening.skip.skip.append scansClosing⟩
  | some list =>
      obtain ⟨scansClosing, rfl⟩ := closingScans true
      obtain ⟨items, built, tokens, reads, scans⟩ := list_built within (by omega) list
      rw [List.append_nil]
      exact ⟨items, tokens, _, _, built, reads,
        scansOpening.skip.append (scans.skip.append scansClosing)⟩

theorem call_built (short : chars.length ≤ length)
    (matched : Matches (.rule .call) offset chars attempts stop rest after pairs) :
    ∃ value, Built offset chars stop rest pairs [.primary value] (.primary value) := by
  obtain ⟨inner, body, rfl⟩ := matched.rule_parts
  obtain ⟨_, behind, _, _, _, word, enclosed, rfl⟩ := body.spaced_parts
  obtain ⟨spelling, parts, rfl, isRead, rfl⟩ := word.word_read
  have shorter := word.runs.derives.suffix.length_le
  have padded := length_unpadded behind
  obtain ⟨items, tokens, _, _, built, reads, scans⟩ :=
    enclosed_built within rfl rfl rfl rfl (by omega) enclosed true
  have scansWord := Scans.single isRead offset
  rw [← parts] at scansWord
  refine ⟨.call (.ofList spelling) items ⟨offset, stop⟩,
    .pair rfl ?_ (.call _ _ _ _ reads) (scansWord.skip.append scans)⟩
  simp [Pair.operand, built]

theorem array_built (short : chars.length ≤ length)
    (matched : Matches (.rule .array) offset chars attempts stop rest after pairs) :
    ∃ value, Built offset chars stop rest pairs [.primary value] (.primary value) := by
  obtain ⟨inner, body, rfl⟩ := matched.rule_parts
  obtain ⟨items, tokens, _, _, built, reads, scans⟩ :=
    enclosed_built within rfl rfl rfl rfl short body false
  refine ⟨.array items ⟨offset, stop⟩, .pair rfl ?_ (.array _ _ reads) scans⟩
  simp [Pair.operand, built]

theorem group_built (short : chars.length ≤ length)
    (matched : Matches .group offset chars attempts stop rest after pairs) :
    ∃ value, Built offset chars stop rest pairs [.primary value] (.primary value) := by
  obtain ⟨_, inside, _, _, _, opening, more, rfl⟩ := matched.spaced_parts
  obtain ⟨_, behind, _, _, _, expression, closing, rfl⟩ := more.spaced_parts
  obtain ⟨scansOpening, rfl⟩ := opening.punctuation_scans rfl false
  obtain ⟨scansClosing, rfl⟩ := closing.punctuation_scans rfl true
  have shorter := opening.shorter
  have padded := length_unpadded inside
  obtain ⟨⟨_, _, _, _⟩, chain, rfl, rfl, built, tokens, reads, scans⟩ :=
    expression_built within (by omega) expression
  exact ⟨chain.signedExpr, .pair rfl built (.group _ _ reads)
    (scansOpening.skip.append (scans.skip.append scansClosing))⟩

theorem primary_built (short : chars.length ≤ length)
    (matched : Matches .primary offset chars attempts stop rest after pairs) :
    ∃ value, Built offset chars stop rest pairs [.primary value] (.primary value) := by
  cases matched with
  | first call => exact call_built within short call
  | second noCall matched =>
  cases matched with
  | first array => exact array_built within short array
  | second noArray matched =>
  cases matched with
  | first resolution =>
      obtain ⟨spelling, width, height, text, inner, rfl, rfl, isRead, rfl, rfl, rfl⟩ :=
        resolution.resolution_read
      exact ⟨_, .atom isRead rfl rfl rfl rfl⟩
  | second noResolution matched =>
  cases matched with
  | first label =>
      obtain ⟨spelling, rfl, rfl, isRead, rfl⟩ := label.label_read noResolution
      exact ⟨_, .atom isRead rfl rfl rfl rfl⟩
  | second noLabel matched =>
  cases matched with
  | first number =>
      obtain ⟨spelling, decimal, rfl, rfl, isRead, spelled, rfl⟩ :=
        number.number_read noResolution noLabel
      refine ⟨.number decimal.toFloat _, .atom isRead rfl rfl rfl ?_⟩
      simp [Pair.operand, spelled]
  | second noNumber matched =>
  cases matched with
  | first word =>
      obtain ⟨spelling, rfl, rfl, isRead, rfl⟩ := word.word_read
      exact ⟨_, .pair rfl rfl (.name _ _) (Scans.single isRead offset)⟩
  | second noWord group => exact group_built within short group

theorem operands_within : OperandsWithin length := by
  intro offset chars attempts stop rest after pairs short matched
  obtain ⟨_, behind, _, _, _, signs, primary, rfl⟩ := matched.spaced_parts
  have shorter := signs.runs.derives.suffix.length_le
  have padded := length_unpadded behind
  obtain ⟨value, built⟩ := primary_built within (by omega) primary
  have rows := signs.rows fun _ _ _ _ minus => by
    obtain ⟨inner, body, -⟩ := minus.rule_parts
    obtain ⟨rfl, -⟩ := body.text_parts
    exact fun char member => by cases member; rfl
  exact rows.signs_built ⟨_, built.pad.plain⟩

end Within

theorem built_within (length : Nat) : BuiltWithin length := by
  induction length with
  | zero => exact fun _ chars _ _ _ _ _ short => absurd short (Nat.not_lt_zero _)
  | succ length within =>
      intro offset chars attempts stop rest after pairs short matched
      have operands := operands_within within
      obtain ⟨inner, body, rfl⟩ := matched.rule_parts
      obtain ⟨_, behind, _, _, _, operand, links, rfl⟩ := body.spaced_parts
      have shorter := operand.runs.derives.suffix.length_le
      have padded := length_unpadded behind
      obtain ⟨first, built⟩ := operands _ _ _ _ _ _ _ (by omega) operand
      have rows := links.rows fun _ _ _ _ _ => unpadded_solid behind
      exact ⟨_, _, rfl, rows.links_built operands (by omega) ⟨_, built.single.skip⟩⟩

theorem Scans.read_from {tokens : List Placed} {state after : State} {final : Bool}
    (scans : Scans tokens state.isBehind offset chars final stop rest)
    (folded : tokens.foldlM State.step state = .ok after) (isBehind : after.isBehind = final) :
    state.readFrom offset chars = after.readFrom stop rest := by
  unfold State.readFrom
  unfold Scans at scans
  subst isBehind
  rw [scans]
  simp only [State.fold_append folded]
  rfl

theorem State.is_behind_of_latest {state : State} {latest : Expr}
    (isLatest : state.latest? = some latest) : state.isBehind = true := by
  unfold State.latest? at isLatest
  unfold State.isBehind
  split at isLatest
  · cases isLatest
  · rename_i phase
    rw [phase]
  · rename_i phase
    rw [phase]

theorem State.read_from_finished {state : State} {latest : Expr} (outside : state.opened = [])
    (isLatest : state.latest? = some latest) (blank : unpadded rest = []) (offset : Nat) :
    state.readFrom offset rest = .ok (state.level.chain latest) := by
  unfold State.readFrom
  rw [scan_blank blank]
  simp [State.finish, State.result?, outside, isLatest, pure, Except.pure, bind, Except.bind]

namespace Built

variable {symbols : List Symbol} {chain : Chain Operand}

/-- Wherever an expression may begin, the reader takes the chain up to the end of the match. -/
theorem read_from (built : Built offset chars stop rest pairs symbols (.whole chain))
    {state : State} (awaits : state.phase = .operand) (begins : state.level.isBegun = false) :
    ∃ last : State, ∃ latest, state.readFrom offset chars = last.readFrom stop rest ∧
      last.opened = state.opened ∧ last.latest? = some latest ∧
      last.level.chain latest = chain.signedExpr := by
  obtain ⟨tokens, reads, scans⟩ := built.reads
  obtain ⟨last, latest, folded, opened, isLatest, -, links⟩ := reads.taken state awaits begins
  have isBehind : state.isBehind = false := by rw [State.isBehind, awaits]
  rw [← isBehind] at scans
  exact ⟨last, latest, scans.read_from folded (State.is_behind_of_latest isLatest), opened,
    isLatest, Level.chain_of_links links⟩

theorem parsed {text : String}
    (built : Built (blanks text.toList) (unpadded text.toList) stop rest pairs symbols
      (.whole chain)) (blank : unpadded rest = []) : parse text = .ok chain.signedExpr := by
  have awaits : State.initial.phase = .operand := rfl
  obtain ⟨last, latest, reached, outside, isLatest, isChain⟩ := built.read_from awaits rfl
  have padded := State.read_from_unpadded .initial 0 text.toList
  rw [Nat.zero_add] at padded
  rw [parse_ok_iff, State.read_chars_eq, ← padded, reached,
    State.read_from_finished outside isLatest blank, isChain]

end Built

/-- A match of the rule for expressions is one pair. It shows the symbols of a chain, and the loop
over binding powers builds the expression of the only tree that keeps these symbols in their places,
applies every minus sign to the next primary and joins as the tiers admit. The reader makes the same
expression of the text wherever an expression may begin, and so does parsing if there is no more
text. -/
theorem expression_read_as_only_tiered_tree
    (matched : Matches (.rule .expression) offset chars attempts stop rest after pairs) :
    ∃ pair, ∃ chain : Chain Operand, ∃ tree : Tree, pairs = [pair] ∧
      List.Forall₂ Item.Shows (Pair.items pair.inner) chain.symbols ∧
      pair.expression = pure tree.expr ∧ tree.Groups chain ∧
      (∀ other : Tree, other.Groups chain → other = tree) ∧
      (∀ state : State, state.phase = .operand → state.level.isBegun = false →
        ∃ last : State, ∃ latest, state.readFrom offset chars = last.readFrom stop rest ∧
          last.opened = state.opened ∧ last.latest? = some latest ∧
          last.level.chain latest = tree.expr) ∧
      ∀ text : String, offset = blanks text.toList → chars = unpadded text.toList →
        unpadded rest = [] → parse text = .ok tree.expr := by
  obtain ⟨text, inner, rfl, chain, built⟩ :=
    built_within _ _ _ _ _ _ _ _ (Nat.lt_succ_self _) matched
  obtain ⟨tree, whole, groups⟩ := Item.whole_of_chain built.shows
  have only := Grouping.eq_of_groups groups
  have isSigned : tree.expr = chain.signedExpr := by rw [only, tree_grouping_expr]
  refine ⟨_, chain, tree, rfl, built.shows, whole, groups, ?_, ?_, ?_⟩
  · intro other groupsOther
    rw [Grouping.eq_of_groups groupsOther, only]
  · intro state awaits begins
    rw [isSigned]
    exact built.read_from awaits begins
  · intro text atBegin whole blank
    subst atBegin whole
    rw [isSigned]
    exact built.parsed blank

theorem Matches.input_parts
    (matched : Matches (.rule .input) 0 chars attempts stop rest after pairs) :
    ∃ middle between early front span text back,
      Matches (.rule .expression) (blanks chars) (unpadded chars) attempts middle between early
        front ∧
      unpadded between = [] ∧ rest = [] ∧ pairs = [.node .input span text (front ++ back)] := by
  obtain ⟨inner, body, rfl⟩ := matched.rule_parts
  obtain ⟨_, _, _, _, _, gap, more, rfl⟩ := body.both_parts
  obtain ⟨rfl, rfl, rfl, rfl⟩ := gap.gap_parts
  obtain ⟨_, between, _, _, _, expression, ended, rfl⟩ := more.spaced_parts
  obtain ⟨blank, rfl⟩ := Derives.ended_iff.1 (Derives.rule_iff.1 ended.runs.derives)
  rw [Nat.zero_add] at expression
  exact ⟨_, between, _, _, _, _, _, expression, blank, rfl, rfl⟩

def signedPower : Expr :=
  .binary (.blend .add)
    (.binary (.blend .power) (.negation (.identifier "a" ⟨1, 2⟩) ⟨0, 2⟩) (.identifier "b" ⟨6, 7⟩)
      ⟨0, 7⟩)
    (.identifier "c" ⟨10, 11⟩) ⟨0, 11⟩

theorem signed_power_read_as_only_tiered_tree :
    ∃ stop rest after pairs,
      Matches (.rule .expression) 0 "-a ** b + c".toList .none stop rest after pairs ∧
      ∃ pair, ∃ chain : Chain Operand, ∃ tree : Tree, pairs = [pair] ∧
        List.Forall₂ Item.Shows (Pair.items pair.inner) chain.symbols ∧
        pair.expression = pure signedPower ∧ tree.expr = signedPower ∧ tree.Groups chain ∧
        ∀ other : Tree, other.Groups chain → other = tree := by
  have isParsed : parse "-a ** b + c" = .ok signedPower := by cbv
  have isRead := (parse_ok_iff _ _).1 isParsed
  obtain ⟨_, _, _, -, runs⟩ | ⟨fault, faults, -⟩ := runs_input "-a ** b + c".toList
  · obtain ⟨pairs, whole⟩ := runs.matches
    obtain ⟨stop, rest, after, front, _, _, _, matched, blank, -, -⟩ := whole.input_parts
    obtain ⟨pair, chain, tree, isPair, shows, built, groups, only, -, parsed⟩ :=
      expression_read_as_only_tiered_tree matched
    have same := isParsed.symm.trans (parsed _ rfl rfl blank)
    rw [← Except.ok.inj same] at built
    exact ⟨stop, rest, after, front, matched, pair, chain, tree, isPair, shows, built,
      (Except.ok.inj same).symm, groups, only⟩
  · cases isRead.symm.trans faults

/-- The pairs of a whole text are built into what the text is read as. -/
theorem Matches.input_built {text : String}
    (matched : Matches (.rule .input) 0 text.toList attempts stop rest after pairs) :
    rest = [] ∧ ∃ expression, Pair.build pairs = pure expression ∧
      parse text = .ok expression := by
  obtain ⟨_, _, _, _, _, _, _, expression, blank, ends, rfl⟩ := matched.input_parts
  obtain ⟨_, inner, rfl, chain, built⟩ :=
    built_within _ _ _ _ _ _ _ _ (Nat.lt_succ_self _) expression
  exact ⟨ends, chain.signedExpr, Item.whole_signed built.shows, built.parsed blank⟩

/-- A text is read exactly if the grammar derives it, and exactly if the program for the rules
matches it. What is read is what the pairs of the match are built into, and building them never
fails. -/
theorem parsed_iff_derived_and_iff_matched (text : String) :
    ((∃ expression, parse text = .ok expression) ↔ Derives (.rule .input) text.toList []) ∧
      ((∃ expression, parse text = .ok expression) ↔
        ∃ stop after, Runs (.rule .input) 0 text.toList .none (.matched stop [] after)) ∧
      (∀ expression, parse text = .ok expression ↔
        ∃ stop after pairs, Matches (.rule .input) 0 text.toList .none stop [] after pairs ∧
          Pair.build pairs = pure expression) ∧
      ∀ stop rest after pairs,
        Matches (.rule .input) 0 text.toList .none stop rest after pairs →
          rest = [] ∧ ∃ expression, Pair.build pairs = pure expression := by
  have parsed : (∃ expression, parse text = .ok expression) ↔
      ∃ expression, readChars text.toList = .ok expression := by
    simp only [parse_ok_iff]
  have runs {expression : Expr} (reads : readChars text.toList = .ok expression) :
      ∃ stop after, Runs (.rule .input) 0 text.toList .none (.matched stop [] after) := by
    obtain ⟨_, stop, after, -, runs⟩ | ⟨fault, faults, -⟩ := runs_input text.toList
    · exact ⟨stop, after, runs⟩
    · cases reads.symm.trans faults
  rw [parsed]
  refine ⟨⟨?_, read_of_derives⟩, ⟨?_, ?_⟩, ?_, ?_⟩
  · intro isRead
    obtain ⟨expression, reads⟩ := isRead
    obtain ⟨stop, after, matched⟩ := runs reads
    exact matched.derives
  · intro isRead
    obtain ⟨expression, reads⟩ := isRead
    exact runs reads
  · intro isMatched
    obtain ⟨stop, after, matched⟩ := isMatched
    exact read_of_derives matched.derives
  · intro expression
    refine ⟨?_, ?_⟩
    · intro isParsed
      obtain ⟨stop, after, matched⟩ := runs ((parse_ok_iff _ _).1 isParsed)
      obtain ⟨pairs, gives⟩ := matched.matches
      obtain ⟨-, result, built, isResult⟩ := gives.input_built
      cases isParsed.symm.trans isResult
      exact ⟨stop, after, pairs, gives, built⟩
    · intro isBuilt
      obtain ⟨stop, after, pairs, gives, built⟩ := isBuilt
      obtain ⟨-, result, builtResult, isResult⟩ := gives.input_built
      cases builtResult.symm.trans built
      exact isResult
  · intro stop rest after pairs gives
    obtain ⟨ends, expression, built, -⟩ := gives.input_built
    exact ⟨ends, expression, built⟩

end ImageGraph.Expr
