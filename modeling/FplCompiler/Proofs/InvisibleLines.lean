import FplCompiler.Proofs.TokenTiling

/-!
Comments and blank lines are invisible. Two texts that differ by them at a line end are scanned side by side: up to that
line end the scanners are before the same characters, and behind it they are before the same rest of the text.
-/

namespace FplCompiler

variable {text tail padding lines rest : List Char}

/-- What may stand before a line end without being seen: blanks, and then a comment. -/
inductive Padding : List Char → Prop
  | nil : Padding []
  | blank {character : Char} {rest : List Char} (isBlank : character ∈ [' ', '\t', '\r']) (more : Padding rest) :
      Padding (character :: rest)
  | comment {text : List Char} (oneLine : '\n' ∉ text) : Padding ('#' :: text)

inductive EmptyLines : List Char → Prop
  | nil : EmptyLines []
  | line {padding lines : List Char} (pads : Padding padding) (more : EmptyLines lines) :
      EmptyLines (padding ++ '\n' :: lines)

def TokenKind.isQuoted (kind : TokenKind) : Bool :=
  kind == .stringLit || kind == .charLit

/-- What is seen of a scan: the kinds and lexemes of its tokens, and the causes of its diagnostics. -/
def Scan.seen (scan : Scan) : List (TokenKind × String) × List Cause :=
  (scan.tokens.map fun token => (token.kind, token.lexeme), scan.diagnostics.map (·.cause))

theorem comment_text (joinLines : Bool) (oneLine : '\n' ∉ text) (rest : List Char) :
    comment joinLines (text ++ rest) = text ++ comment joinLines rest := by
  induction text with
  | nil => rfl
  | cons character text ih =>
    rw [List.mem_cons, not_or] at oneLine
    rw [List.cons_append, comment, if_neg (Ne.symm oneLine.1), ih oneLine.2, List.cons_append]

theorem comment_lineEnd (joinLines : Bool) (rest : List Char) :
    comment joinLines ('\n' :: rest) = blanks joinLines ('\n' :: rest) := by
  simp [comment, blanks]

theorem Padding.blanks (joinLines : Bool) (pads : Padding padding) (rest : List Char) :
    blanks joinLines (padding ++ '\n' :: rest) = padding ++ blanks joinLines ('\n' :: rest) := by
  induction pads with
  | nil => rfl
  | @blank character more isBlank _ ih =>
    rw [List.cons_append, FplCompiler.blanks, if_pos (by simpa [or_assoc] using isBlank), ih, List.cons_append]
  | comment oneLine =>
    rw [List.cons_append, FplCompiler.blanks, if_neg (by decide), if_pos rfl, comment_text joinLines oneLine,
      comment_lineEnd, List.cons_append]

theorem Padding.oneLine (pads : Padding padding) : '\n' ∉ padding := by
  induction pads with
  | nil => simp
  | blank isBlank _ ih =>
    rintro (_ | ⟨_, member⟩)
    · simp at isBlank
    · exact ih member
  | comment oneLine => simp [oneLine]

theorem EmptyLines.blanks (empty : EmptyLines lines) (rest : List Char) :
    blanks true (lines ++ rest) = lines ++ blanks true rest := by
  induction empty with
  | nil => rfl
  | line pads _ ih =>
    rw [List.append_assoc, List.cons_append, pads.blanks, FplCompiler.blanks, if_neg (by decide), if_neg (by decide),
      if_pos (by decide), ih, List.append_assoc, List.cons_append]

theorem EmptyLines.column (empty : EmptyLines lines) : lines.foldl Cursor.columnAfter 1 = 1 := by
  induction empty with
  | nil => rfl
  | line _ _ ih =>
    rw [List.foldl_append]
    exact ih

/-- Skipping stops within a text whatever follows it, or goes through it and on as blanks or as a comment do. -/
def Splits (joinLines : Bool) (skip : List Char → List Char) (text : List Char) : Prop :=
  (∃ gap word rest, text = gap ++ word :: rest ∧ ∀ tail, skip (text ++ tail) = gap) ∨
    (∀ tail, skip (text ++ tail) = text ++ blanks joinLines tail) ∨
      ∀ tail, skip (text ++ tail) = text ++ comment joinLines tail

theorem Splits.cons {joinLines : Bool} {skip go : List Char → List Char} {character : Char}
    (splits : Splits joinLines go text) (steps : ∀ rest, skip (character :: rest) = character :: go rest) :
    Splits joinLines skip (character :: text) := by
  rcases splits with ⟨gap, word, rest, rfl, stops⟩ | passes | passes
  · exact .inl ⟨character :: gap, word, rest, rfl, fun tail => by rw [List.cons_append, steps, stops]⟩
  · exact .inr (.inl fun tail => by rw [List.cons_append, steps, passes, List.cons_append])
  · exact .inr (.inr fun tail => by rw [List.cons_append, steps, passes, List.cons_append])

theorem skip_splits (joinLines : Bool) (text : List Char) :
    Splits joinLines (blanks joinLines) text ∧ Splits joinLines (comment joinLines) text := by
  induction text with
  | nil => exact ⟨.inr (.inl fun _ => rfl), .inr (.inr fun _ => rfl)⟩
  | cons character text ih =>
    constructor
    · by_cases isBlank : character = ' ' || character = '\t' || character = '\r'
      · exact ih.1.cons fun rest => by rw [blanks, if_pos isBlank]
      by_cases hash : character = '#'
      · exact ih.2.cons fun rest => by rw [blanks, if_neg isBlank, if_pos hash]
      by_cases joined : character = '\n' && joinLines
      · exact ih.1.cons fun rest => by rw [blanks, if_neg isBlank, if_neg hash, if_pos joined]
      exact .inl ⟨[], character, text, rfl, fun tail => by
        rw [List.cons_append, blanks, if_neg isBlank, if_neg hash, if_neg joined]⟩
    · by_cases newline : character = '\n'
      · cases joinLines with
        | true => exact ih.1.cons fun rest => by rw [comment, if_pos newline, if_pos rfl]
        | false => exact .inl ⟨[], character, text, rfl, fun tail => by
            rw [List.cons_append, comment, if_pos newline, if_neg Bool.false_ne_true]⟩
      · exact ih.2.cons fun rest => by rw [comment, if_neg newline]

/-- Up to a line end, skipping stops before a character of the text or goes through to the line end, padded or not. -/
theorem blanks_to_lineEnd (joinLines : Bool) (text : List Char) :
    (∃ gap word rest, text = gap ++ word :: rest ∧ ∀ tail, blanks joinLines (text ++ tail) = gap) ∨
      ∀ padding, Padding padding → ∀ rest,
        blanks joinLines (text ++ (padding ++ '\n' :: rest)) = text ++ (padding ++ blanks joinLines ('\n' :: rest)) := by
  refine (skip_splits joinLines text).1.imp id fun passes padding pads rest => ?_
  rcases passes with passes | passes
  · rw [passes, pads.blanks]
  · rw [passes, comment_text joinLines pads.oneLine, comment_lineEnd]

/-- What follows begins with a character that ends every token but a quoted one. -/
def Apart (tail : List Char) : Prop :=
  ∃ character rest, tail = character :: rest ∧ character ∈ [' ', '\t', '\r', '#', '\n']

theorem Padding.apart (pads : Padding padding) (rest : List Char) :
    Apart (padding ++ '\n' :: rest) := by
  cases pads with
  | nil => exact ⟨_, _, rfl, by simp⟩
  | blank isBlank => exact ⟨_, _, rfl, List.mem_append_left ['#', '\n'] isBlank⟩
  | comment => exact ⟨_, _, rfl, by simp⟩

theorem takeWhile_apart {test : Char → Bool} (apart : Apart tail)
    (ends : ∀ character ∈ [' ', '\t', '\r', '#', '\n'], test character = false) (text : List Char) :
    (text ++ tail).takeWhile test = text.takeWhile test ∧ (text ++ tail).dropWhile test = text.dropWhile test ++ tail := by
  obtain ⟨character, rest, rfl, member⟩ := apart
  have stops := ends character member
  induction text with
  | nil => simp [stops]
  | cons first text ih => by_cases holds : test first = true <;> simp [holds, ih]

theorem numberText_apart (apart : Apart tail) (text : List Char) :
    numberText (text ++ tail) = numberText text := by
  have ends : ∀ character ∈ [' ', '\t', '\r', '#', '\n'], Text.isLetterOrNumber character = false := by
    simp only [List.mem_cons, List.not_mem_nil, or_false, forall_eq_or_imp, forall_eq]
    decide
  obtain ⟨taken, dropped⟩ := takeWhile_apart apart ends text
  simp only [numberText, taken, dropped]
  generalize text.dropWhile Text.isLetterOrNumber = rest
  obtain ⟨character, others, rfl, member⟩ := id apart
  have stops := ends character member
  have other : character ≠ '.' := by rintro rfl; simp at member
  rcases rest with _ | ⟨point, _ | ⟨digit, digits⟩⟩
  · simp [other]
  · by_cases dot : point = '.' <;> simp [dot, stops]
  · have more := (takeWhile_apart apart ends (digit :: digits)).1
    by_cases dot : point = '.' <;> simp_all

theorem punctuationText_apart (apart : Apart tail) (first : Char) (rest : List Char) :
    punctuationText (first :: rest ++ tail) = punctuationText (first :: rest) := by
  obtain ⟨character, others, rfl, member⟩ := apart
  have single : isPair first character = false := by
    unfold isPair
    split <;> simp_all
  rcases rest with _ | ⟨second, _ | ⟨third, rest⟩⟩
  · unfold punctuationText
    split <;> simp_all
  · unfold punctuationText
    split <;> simp_all
  · have three (more : List Char) : punctuationText (first :: second :: third :: more) =
        if first = '.' ∧ second = '.' ∧ third = '.' then ['.', '.', '.']
        else if isPair first second then [first, second] else [first] := by
      by_cases dots : first = '.' ∧ second = '.' ∧ third = '.'
      · simp [dots, punctuationText]
      · unfold punctuationText
        split <;> simp_all
    exact (three _).trans (three _).symm

theorem quotedText_closed {quote : Char} (closed : (quotedText quote text).closed = true)
    (tail : List Char) : quotedText quote (text ++ tail) = quotedText quote text := by
  fun_induction quotedText quote text with
  | case1 => cases closed
  | case2 => cases closed
  | case3 next rest => simp [quotedText]
  | case4 next rest other ih =>
    rw [List.cons_append, List.cons_append, quotedText, if_neg other, if_pos rfl, ih closed]
  | case5 character next rest other plain ih =>
    rw [List.cons_append, List.cons_append, quotedText, if_neg other, if_neg plain, ← List.cons_append, ih closed]
  | case6 => cases tail <;> simp [quotedText]
  | case7 => cases closed

theorem quotedText_moves (quote first : Char) (rest : List Char) :
    0 < (quotedText quote (first :: rest)).source.length := by
  unfold quotedText
  split
  next same => cases same
  next => simp
  next =>
    split
    · simp
    · split <;> simp [QuotedText.prepend]
  next => split <;> simp

theorem quotedText_within {quote next : Char} {after : List Char} (plain : quote ≠ '\\')
    (within : (quotedText quote (text ++ next :: after)).source.length ≤ text.length) :
    (quotedText quote text).closed = true := by
  fun_induction quotedText quote text with
  | case1 => exact absurd within (Nat.not_le.mpr (quotedText_moves quote next after))
  | case2 => simp [quotedText, Ne.symm plain, QuotedText.prepend] at within
  | case3 => rfl
  | case4 second rest other ih =>
    simp only [List.cons_append, quotedText, if_neg other, QuotedText.prepend] at within
    exact ih (by simpa [Nat.add_comm] using within)
  | case5 first second rest other notEscape ih =>
    simp only [List.cons_append, quotedText, if_neg other, if_neg notEscape, QuotedText.prepend] at within
    exact ih (by simpa [Nat.add_comm 1] using within)
  | case6 => rfl
  | case7 first notEscape other =>
    have moves := quotedText_moves quote next after
    rw [List.singleton_append, quotedText, if_neg other, if_neg notEscape] at within
    simp only [QuotedText.prepend, List.length_append] at within
    omega

/-- What is scanned before an end of the line does not depend on what follows, unless it is a literal that goes on. -/
theorem scanText_apart {first : Char} (apart : Apart tail)
    (within : (scanText (first :: text ++ tail)).kind.isQuoted = true →
      (scanText (first :: text ++ tail)).source.length ≤ text.length + 1) {other : List Char} (otherApart : Apart other) :
    scanText (first :: text ++ other) = scanText (first :: text) := by
  have words : ∀ character ∈ [' ', '\t', '\r', '#', '\n'], isWordCharacter character = false := by
    simp only [List.mem_cons, List.not_mem_nil, or_false, forall_eq_or_imp, forall_eq]
    decide
  -- Only a literal could run past the end of the line, and this one is closed before it.
  have literal {quote : Char} (plain : quote ≠ '\\')
      (within : (quote :: (quotedText quote (text ++ tail)).source).length ≤ text.length + 1) :
      quotedText quote (text ++ other) = quotedText quote text := by
    obtain ⟨character, rest, rfl, -⟩ := apart
    exact quotedText_closed (quotedText_within plain (Nat.le_of_succ_le_succ within)) other
  rw [List.cons_append] at within ⊢
  rw [scanText, scanText]
  by_cases newline : first = '\n'
  · simp only [newline, ↓reduceIte]
  simp only [newline] at within ⊢
  by_cases letter : (Text.isLetter first || first == '_') = true
  · simp only [letter, ↓reduceIte, ← List.cons_append, (takeWhile_apart otherApart words _).1]
  simp only [letter, Bool.false_eq_true] at within ⊢
  by_cases digit : first.isDigit = true
  · simp only [digit, ↓reduceIte, ← List.cons_append, numberText_apart otherApart]
  simp only [digit, Bool.false_eq_true] at within ⊢
  by_cases double : first = '"'
  · simp only [double, ↓reduceIte] at within ⊢
    rw [literal (by decide) (within rfl)]
  simp only [double] at within ⊢
  by_cases single : first = '\''
  · simp only [single, ↓reduceIte] at within ⊢
    rw [literal (by decide) (within rfl)]
  simp only [single, ↓reduceIte, ← List.cons_append, punctuationText_apart otherApart]

theorem Cursor.advance_eq {cursor : Cursor} {taken : List Char} (left : cursor.rest = taken ++ tail) :
    cursor.advance taken = ⟨tail, cursor.offset + byteCount taken, taken.foldl columnAfter cursor.column⟩ := by
  simp [advance, left]

namespace Scanner

variable {second first : Scanner}

def found (scanner : Scanner) : Scanned × List Nat :=
  classify scanner.lineStart scanner.indents scanner.start

/-- Before the same rest of the text, in the same column. -/
structure Alike (first second : Scanner) : Prop where
  rest : second.start.rest = first.start.rest
  column : second.start.column = first.start.column
  lineStart : second.lineStart = first.lineStart
  indents : second.indents = first.indents

theorem Alike.found (alike : Alike first second) : second.found = first.found := by
  simp only [Scanner.found, classify, alike.rest, alike.column, alike.lineStart, alike.indents]

theorem Alike.ofCursor (rest : second.cursor.rest = first.cursor.rest)
    (column : second.cursor.column = first.cursor.column) (joinLines : second.joinLines = first.joinLines)
    (lineStart : second.lineStart = first.lineStart) (indents : second.indents = first.indents) :
    Alike first second where
  rest := by simp only [start, Cursor.advance, rest, joinLines]
  column := by simp only [start, Cursor.advance, rest, column, joinLines]
  lineStart := lineStart
  indents := indents

def after (scanner : Scanner) : Scanner :=
  ⟨scanner.start.advance scanner.found.1.source, scanner.found.1.kind.lineContinues,
    scanner.found.1.kind == .eol || scanner.found.1.kind == .dedent, scanner.found.2⟩

theorem Alike.after (alike : Alike first second) : Alike first.after second.after := by
  refine .ofCursor ?_ ?_ ?_ ?_ ?_ <;> simp only [Scanner.after, Cursor.advance, alike.found, alike.rest, alike.column]

/-- Before the same characters up to a line end, which is padded and followed by empty lines in the second text. -/
structure Before (padding lines rest text : List Char) (first second : Scanner) : Prop where
  left : first.cursor.rest = text ++ '\n' :: rest
  padded : second.cursor.rest = text ++ (padding ++ '\n' :: (lines ++ rest))
  column : second.cursor.column = first.cursor.column
  joinLines : second.joinLines = first.joinLines
  lineStart : second.lineStart = first.lineStart
  indents : second.indents = first.indents
  joins : first.lineStart = true → first.joinLines = true

theorem found_layout_or_text (some : first.start.rest ≠ []) (otherSome : second.start.rest ≠ [])
    (column : second.start.column = first.start.column) (lineStart : second.lineStart = first.lineStart)
    (indents : second.indents = first.indents) : (second.found = first.found ∧ first.found.1.source = []) ∨
      (first.found = (scanText first.start.rest, first.indents) ∧
        second.found = (scanText second.start.rest, first.indents)) := by
  simp only [found, classify, List.isEmpty_iff, otherSome, column, lineStart, indents, ↓reduceIte]
  split
  next => exact .inl ⟨rfl, rfl⟩
  next =>
    split
    next => exact .inl ⟨rfl, by split <;> rfl⟩
    next => exact .inr ⟨rfl, rfl⟩

variable {padding lines text : List Char} {first second : Scanner}

theorem Before.within (before : Before padding lines rest text first second) (pads : Padding padding)
    {gap remaining : List Char} {word : Char} (same : text = gap ++ word :: remaining)
    (stops : ∀ tail, blanks first.joinLines (text ++ tail) = gap)
    (outside : first.found.1.kind.isQuoted = true → ¬ (first.start.offset ≤ first.cursor.offset + byteCount text ∧
      first.cursor.offset + byteCount text < first.after.cursor.offset)) :
    second.found = first.found ∧ ∃ later, Before padding lines rest later first.after second.after ∧
      first.after.cursor.offset + byteCount later = first.cursor.offset + byteCount text := by
  have starts {scanner : Scanner} {tail : List Char} (joins : scanner.joinLines = first.joinLines)
      (left : scanner.cursor.rest = text ++ tail) : scanner.start = ⟨word :: remaining ++ tail,
        scanner.cursor.offset + byteCount gap, gap.foldl Cursor.columnAfter scanner.cursor.column⟩ := by
    rw [start, joins, left, stops]
    exact Cursor.advance_eq (by rw [left, same, List.append_assoc])
  have one := starts rfl before.left
  have two := starts before.joinLines before.padded
  have bytes : byteCount text = byteCount gap + byteCount (word :: remaining) := by rw [same, byteCount_append]
  have both : second.found = first.found ∧ first.found.1.source <+: word :: remaining := by
    rcases found_layout_or_text (show first.start.rest ≠ [] by simp [one]) (show second.start.rest ≠ [] by simp [two])
      (by rw [one, two, before.column]) before.lineStart before.indents with ⟨layout, idle⟩ | ⟨here, there⟩
    · exact ⟨layout, by rw [idle]; exact List.nil_prefix⟩
    · have stop : first.after.cursor.offset = first.start.offset + byteCount first.found.1.source := rfl
      have covered := (scanText_isText word (remaining ++ '\n' :: rest)).source
      have apart : Apart ('\n' :: rest) := Padding.nil.apart rest
      rw [one] at here stop outside
      rw [here] at outside stop
      have short (quoted : (scanText (word :: remaining ++ '\n' :: rest)).kind.isQuoted = true) :
          (scanText (word :: remaining ++ '\n' :: rest)).source.length ≤ remaining.length + 1 := by
        refine Nat.le_of_not_lt fun long => outside quoted ?_
        obtain ⟨more, split⟩ := List.prefix_of_prefix_length_le (List.prefix_append (word :: remaining) _) covered
          (Nat.le_of_lt long)
        have some : more ≠ [] := by
          rintro rfl
          simp [← split] at long
        have positive := byteCount_pos some
        dsimp only at stop ⊢
        rw [List.cons_append, ← split, byteCount_append] at stop
        omega
      rw [here, there, two, scanText_apart apart short (pads.apart _), scanText_apart apart short apart]
      exact ⟨rfl, (scanText_isText word remaining).source⟩
  obtain ⟨later, split⟩ := both.2
  have ends : first.after.cursor = _ := Cursor.advance_eq (by rw [one, ← split, List.append_assoc])
  have otherEnds : second.after.cursor = _ := Cursor.advance_eq (by rw [two, both.1, ← split, List.append_assoc])
  have continues : (first.found.1.kind == .eol || first.found.1.kind == .dedent) = true →
      first.found.1.kind.lineContinues = true := by cases first.found.1.kind <;> decide
  refine ⟨both.1, later, ⟨?_, ?_, ?_, ?_, ?_, ?_, continues⟩, ?_⟩
  · rw [ends]
  · rw [otherEnds]
  · rw [ends, otherEnds, one, two, before.column, both.1]
  · simp only [after, both.1]
  · simp only [after, both.1]
  · simp only [after, both.1]
  · rw [← split, byteCount_append] at bytes
    rw [ends, one]
    dsimp only
    omega

theorem start_past (scanner : Scanner) (ahead rest : List Char) (left : scanner.cursor.rest = ahead ++ rest)
    (skips : blanks scanner.joinLines (ahead ++ rest) = ahead ++ blanks true rest)
    (column : ahead.foldl Cursor.columnAfter scanner.cursor.column = 1) :
    scanner.start.rest = rest.drop (blanks true rest).length ∧
      scanner.start.column = (blanks true rest).foldl Cursor.columnAfter 1 := by
  simp [start, Cursor.advance, left, skips, column]

theorem found_lineEnd {scanner : Scanner} {ahead tail : List Char} (left : scanner.cursor.rest = ahead ++ '\n' :: tail)
    (stops : blanks scanner.joinLines (ahead ++ '\n' :: tail) = ahead) (within : scanner.lineStart = false) :
    scanner.found = (.layout .eol ['\n'], scanner.indents) ∧
      scanner.after.cursor.rest = tail ∧ scanner.after.cursor.column = 1 := by
  have starts := Cursor.advance_eq left
  rw [← stops, ← left] at starts
  change scanner.start = _ at starts
  have found : scanner.found = (.layout .eol ['\n'], scanner.indents) := by
    simp [found, classify, starts, within, scanText]
  simp [after, found, starts, Cursor.advance, Cursor.columnAfter, Scanned.layout]

theorem Before.past (before : Before padding lines rest text first second) (pads : Padding padding)
    (empty : EmptyLines lines)
    (passes : ∀ padding, Padding padding → ∀ rest, blanks first.joinLines (text ++ (padding ++ '\n' :: rest)) =
      text ++ (padding ++ blanks first.joinLines ('\n' :: rest))) :
    second.found = first.found ∧ Alike first.after second.after := by
  have skips := passes [] .nil rest
  have padSkips := passes padding pads (lines ++ rest)
  cases joined : first.joinLines with
  | true =>
    -- The newline is a blank itself, and what both texts find next stands behind the lines.
    have joins (tail : List Char) : blanks true ('\n' :: tail) = '\n' :: blanks true tail := by simp [blanks]
    have one := first.start_past (text ++ ['\n']) rest (by simp [before.left]) (by simpa [joined, joins] using skips)
      (by simp [Cursor.columnAfter])
    have two := second.start_past (text ++ (padding ++ '\n' :: lines)) rest (by simp [before.padded])
      (by simpa [before.joinLines, joined, joins, empty.blanks] using padSkips)
      (by simp [Cursor.columnAfter, empty.column])
    have alike : Alike first second := ⟨two.1.trans one.1.symm, two.2.trans one.2.symm, before.lineStart, before.indents⟩
    exact ⟨alike.found, alike.after⟩
  | false =>
    -- The newline is a token, behind which newlines are blanks: the lines are skipped in the next step.
    have within : first.lineStart = false := by
      rw [← Bool.not_eq_true]
      intro begins
      simp [before.joins begins] at joined
    have stops (tail : List Char) : blanks false ('\n' :: tail) = [] := by simp [blanks]
    obtain ⟨here, left, column⟩ := found_lineEnd before.left (by simpa [joined, stops] using skips) within
    obtain ⟨there, otherLeft, otherColumn⟩ := found_lineEnd (before.padded.trans (List.append_assoc ..).symm)
      (by simpa [before.joinLines, joined, stops] using padSkips) (before.lineStart.trans within)
    rw [before.indents, ← here] at there
    have continues : first.after.joinLines = true := by
      simp only [after, here]
      rfl
    have one := first.after.start_past [] rest left (by rw [continues]; rfl) column
    have two := second.after.start_past lines rest otherLeft
      (by simpa [after, there] using continues ▸ empty.blanks rest) (by rw [otherColumn, empty.column])
    refine ⟨there, two.1.trans one.1.symm, two.2.trans one.2.symm, ?_, ?_⟩ <;> simp only [after, there]

/-- A step before the line end finds the same in both texts, and stays before it or goes past it in both. -/
theorem Before.step (before : Before padding lines rest text first second) (pads : Padding padding)
    (empty : EmptyLines lines)
    (outside : first.found.1.kind.isQuoted = true → ¬ (first.start.offset ≤ first.cursor.offset + byteCount text ∧
      first.cursor.offset + byteCount text < first.after.cursor.offset)) :
    second.found = first.found ∧ (Alike first.after second.after ∨
      ∃ later, Before padding lines rest later first.after second.after ∧
        first.after.cursor.offset + byteCount later = first.cursor.offset + byteCount text) := by
  rcases blanks_to_lineEnd first.joinLines text with ⟨gap, word, remaining, same, stops⟩ | passes
  · exact (before.within pads same stops outside).imp id .inr
  · exact (before.past pads empty passes).imp id .inl

theorem next_eq (scanner : Scanner) (file : FileId) :
    scanner.next file =
      (⟨scanner.found.1.kind, scanner.found.1.lexeme, ⟨scanner.start.offset, scanner.after.cursor.offset, file⟩⟩,
        scanner.found.1.problem.map fun cause => ⟨cause, ⟨scanner.start.offset, scanner.after.cursor.offset, file⟩⟩,
        scanner.after) :=
  rfl

/-- Both texts are before the line end at the given place of the first, or both are past it. -/
def Together (padding lines rest : List Char) (place : Nat) (first second : Scanner) : Prop :=
  Alike first second ∨ ∃ text, Before padding lines rest text first second ∧ first.cursor.offset + byteCount text = place

theorem Together.step {place : Nat} (together : Together padding lines rest place first second) (pads : Padding padding)
    (empty : EmptyLines lines) (outside : first.found.1.kind.isQuoted = true →
      ¬ (first.start.offset ≤ place ∧ place < first.after.cursor.offset)) :
    second.found = first.found ∧ Together padding lines rest place first.after second.after := by
  rcases together with alike | ⟨text, before, rfl⟩
  · exact ⟨alike.found, .inl alike.after⟩
  · exact before.step pads empty outside

end Scanner

theorem seen_scanFrom (file : FileId) (bound : Nat) (scanner : Scanner) :
    (scanFrom file (bound + 1) scanner).seen =
      if scanner.found.1.kind = .eof then ([(scanner.found.1.kind, scanner.found.1.lexeme)], scanner.found.1.problem.toList)
      else ((scanner.found.1.kind, scanner.found.1.lexeme) :: (scanFrom file bound scanner.after).seen.1,
        scanner.found.1.problem.toList ++ (scanFrom file bound scanner.after).seen.2) := by
  rw [scanFrom, Scanner.next_eq]
  dsimp only
  cases scanner.found.1.problem <;> split <;> rfl

theorem scanFrom_together (pads : Padding padding) (empty : EmptyLines lines)
    (file : FileId) (place bound : Nat) : ∀ (other : Nat) (first second : Scanner), first.left < bound →
      second.left < other → 1 ≤ first.cursor.column → 1 ≤ second.cursor.column →
      first.Together padding lines rest place second →
      (∀ token ∈ (scanFrom file bound first).tokens, token.kind.isQuoted = true →
        ¬ (token.span.start ≤ place ∧ place < token.span.stop)) →
      (scanFrom file other second).seen = (scanFrom file bound first).seen := by
  induction bound with
  | zero => exact fun _ first _ few => absurd few (Nat.not_lt_zero _)
  | succ bound ih =>
    intro other first second few otherFew column otherColumn together outside
    obtain _ | other := other
    · exact absurd otherFew (Nat.not_lt_zero _)
    -- One step of both scans; the texts differ in length, so that each scan has a bound of its own.
    have outsideFirst := outside (first.next file).1 (by rw [scanFrom]; dsimp only; split <;> exact List.mem_cons_self)
    obtain ⟨same, more⟩ := together.step pads empty outsideFirst
    rw [seen_scanFrom, seen_scanFrom, same]
    split
    next => rfl
    next notEnd =>
      have fewer := first.next_left_lt file column notEnd
      have otherFewer := second.next_left_lt file otherColumn (by rw [Scanner.next_eq, same]; exact notEnd)
      have later := ih other first.after second.after (Nat.lt_of_lt_of_le fewer (Nat.le_of_lt_succ few))
        (Nat.lt_of_lt_of_le otherFewer (Nat.le_of_lt_succ otherFew))
        (Scanner.columnAfter_pos (Scanner.columnAfter_pos column _) _)
        (Scanner.columnAfter_pos (Scanner.columnAfter_pos otherColumn _) _) more (by
          intro token member
          refine outside token ?_
          rw [scanFrom, Scanner.next_eq]
          dsimp only
          rw [if_neg notEnd]
          exact List.mem_cons_of_mem _ member)
      rw [later]

/--
Padding a line end with blanks and a comment, and putting empty and comment lines behind it, is not seen, unless the line
end lies within a string or a character literal: the tokens have the same kinds and lexemes, with the same indentation,
and the diagnostics the same causes.
-/
theorem comments_and_empty_lines_unseen (file : FileId) (before padding lines after : String)
    (pads : Padding padding.toList) (empty : EmptyLines lines.toList)
    (outside : ∀ token ∈ (scan file (before ++ "\n" ++ after)).tokens, token.kind.isQuoted = true →
      ¬ (token.span.start ≤ byteCount before.toList ∧ byteCount before.toList < token.span.stop)) :
    (scan file (before ++ padding ++ "\n" ++ lines ++ after)).seen = (scan file (before ++ "\n" ++ after)).seen := by
  have both : Scanner.Before padding.toList lines.toList after.toList before.toList
      (Scanner.ofText (before ++ "\n" ++ after)) (Scanner.ofText (before ++ padding ++ "\n" ++ lines ++ after)) := by
    refine ⟨?_, ?_, rfl, rfl, rfl, rfl, fun _ => rfl⟩ <;> simp [Scanner.ofText, Cursor.ofText]
  exact scanFrom_together pads empty file (byteCount before.toList) _ _ _ _ (ofText_left_lt _) (ofText_left_lt _)
    (Nat.le_refl 1) (Nat.le_refl 1) (.inr ⟨_, both, Nat.zero_add _⟩) outside

/-- A comment behind the head of a block, a blank line and a comment line of another indentation. -/
theorem unseen_in_a_block :
    (scan 0 ("fun f():" ++ " \t# one" ++ "\n" ++ "\n  # two\n" ++ "    \"a\"\n")).seen =
      (scan 0 ("fun f():" ++ "\n" ++ "    \"a\"\n")).seen := by
  have lines : "\n  # two\n".toList = [] ++ '\n' :: ([' ', ' ', '#', ' ', 't', 'w', 'o'] ++ '\n' :: []) := by decide
  refine comments_and_empty_lines_unseen 0 _ _ _ _ ?_ ?_ (by decide +kernel)
  · exact .blank (by decide) (.blank (by decide) (.comment (by decide)))
  · rw [lines]
    exact .line .nil (.line (.blank (by decide) (.blank (by decide) (.comment (by decide)))) .nil)

end FplCompiler
