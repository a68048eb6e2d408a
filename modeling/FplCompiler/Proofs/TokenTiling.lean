import FplCompiler.Token.Scanner

/-!
Tokens tile their text. Each one covers the characters behind those of the one before and behind blanks and comments;
the last one is the end of the file, where nothing is left. Layout tokens may cover nothing, so the scanner's progress
is measured by the text left, the open indentations and whether a line begins.
-/

namespace FplCompiler

/-- Text that no token covers, with what follows it: blanks, line ends and comments up to the end of their line. -/
inductive Gap : List Char → List Char → Prop
  | nil {rest : List Char} : Gap [] rest
  | blank {character : Char} {gap rest : List Char} (isBlank : character ∈ [' ', '\t', '\r', '\n'])
      (more : Gap gap rest) : Gap (character :: gap) rest
  | comment {text gap rest : List Char} (oneLine : '\n' ∉ text) (ends : ∀ next ∈ (gap ++ rest).head?, next = '\n')
      (more : Gap gap rest) : Gap ('#' :: (text ++ gap)) rest

def TokenKind.isLayout : TokenKind → Bool
  | eol | indent | dedent | eof => true
  | _ => false

def TokenKind.isVerbatim (kind : TokenKind) : Bool :=
  !kind.isLayout && kind != .stringLit && kind != .charLit

/-- The tokens of a text from an offset on: a gap and what the token covers, time and again, and the end of the file
after a last gap. -/
inductive Tiles (file : FileId) : Nat → List Char → List Token → Prop
  | last {offset : Nat} {gap : List Char} {token : Token} (blank : Gap gap []) (kind : token.kind = .eof)
      (span : token.span = ⟨offset + byteCount gap, offset + byteCount gap, file⟩) : Tiles file offset gap [token]
  | cons {offset : Nat} {gap source rest : List Char} {token : Token} {tokens : List Token}
      (blank : Gap gap (source ++ rest)) (kind : token.kind ≠ .eof)
      (span : token.span = ⟨offset + byteCount gap, offset + byteCount gap + byteCount source, file⟩)
      (covers : token.kind.isLayout = false → source ≠ [])
      (lexeme : token.kind.isVerbatim = true → token.lexeme = String.ofList source)
      (more : Tiles file (offset + byteCount gap + byteCount source) rest tokens) :
      Tiles file offset (gap ++ (source ++ rest)) (token :: tokens)

theorem blanks_gap (joinLines : Bool) (characters : List Char) :
    (∃ rest, characters = blanks joinLines characters ++ rest ∧ Gap (blanks joinLines characters) rest) ∧
      ∃ text gap rest, comment joinLines characters = text ++ gap ∧ characters = text ++ gap ++ rest ∧ '\n' ∉ text ∧
        (∀ next ∈ (gap ++ rest).head?, next = '\n') ∧ Gap gap rest := by
  induction characters with
  | nil => exact ⟨⟨[], rfl, .nil⟩, [], [], [], rfl, rfl, by simp, by simp, .nil⟩
  | cons character rest ih =>
    obtain ⟨⟨left, same, gap⟩, text, more, after, isComment, whole, oneLine, ends, blank⟩ := ih
    constructor
    · rw [blanks]
      split
      next isBlank =>
        refine ⟨left, by rw [List.cons_append, ← same], .blank ?_ gap⟩
        simp only [Bool.or_eq_true, decide_eq_true_eq] at isBlank
        rcases isBlank with (rfl | rfl) | rfl <;> simp
      next =>
        split
        next hash =>
          subst hash
          rw [isComment]
          exact ⟨after, by rw [List.cons_append, ← whole], .comment oneLine ends blank⟩
        next =>
          split
          next joined =>
            simp only [Bool.and_eq_true, decide_eq_true_eq] at joined
            exact ⟨left, by rw [List.cons_append, ← same], .blank (by simp [joined.1]) gap⟩
          next => exact ⟨_, rfl, .nil⟩
    · rw [comment]
      split
      next newline =>
        split
        next =>
          refine ⟨[], character :: blanks joinLines rest, left, rfl, ?_, by simp, by simp [newline], ?_⟩
          · rw [List.nil_append, List.cons_append, ← same]
          · exact .blank (by simp [newline]) gap
        next => exact ⟨[], [], character :: rest, rfl, rfl, by simp, by simp [newline], .nil⟩
      next other =>
        refine ⟨character :: text, more, after, by rw [isComment, List.cons_append], ?_, ?_, ends, blank⟩
        · rw [List.cons_append, List.cons_append, ← whole]
        · simp [oneLine, Ne.symm other]

theorem byteCount_append (first second : List Char) :
    byteCount (first ++ second) = byteCount first + byteCount second := by
  have fromZero (characters : List Char) : ∀ bytes,
      characters.foldl (fun bytes character => bytes + character.utf8Size) bytes = bytes + byteCount characters := by
    induction characters with
    | nil => exact fun _ => rfl
    | cons character rest ih =>
      intro bytes
      rw [byteCount, List.foldl_cons, List.foldl_cons, ih, ih, Nat.zero_add, Nat.add_assoc]
  rw [byteCount, List.foldl_append, fromZero second]
  rfl

theorem byteCount_pos {characters : List Char} (some : characters ≠ []) : 0 < byteCount characters := by
  obtain ⟨character, rest, rfl⟩ := List.exists_cons_of_ne_nil some
  have size : byteCount [character] = character.utf8Size := Nat.zero_add _
  have positive := character.utf8Size_pos
  rw [← List.singleton_append, byteCount_append]
  omega

theorem numberText_takes (characters : List Char) : numberText characters <+: characters := by
  have whole := List.takeWhile_append_dropWhile (p := Text.isLetterOrNumber) (l := characters)
  unfold numberText
  split
  next next rest after =>
    split
    next =>
      rw [after] at whole
      conv => rhs; rw [← whole]
      exact (List.prefix_append_right_inj _).mpr (List.cons_prefix_cons.mpr ⟨rfl, List.takeWhile_prefix _⟩)
    next => exact List.takeWhile_prefix _
  next => exact List.takeWhile_prefix _

theorem quotedText_takes (quote : Char) (characters : List Char) :
    (quotedText quote characters).source <+: characters := by
  fun_induction quotedText quote characters <;> simp_all [QuotedText.prepend]

theorem punctuationText_takes (characters : List Char) : punctuationText characters <+: characters := by
  unfold punctuationText
  split
  · simp
  · split <;> simp
  · exact List.prefix_rfl

def Cause.isIndentation : Cause → Bool
  | .indentation _ _ => true
  | _ => false

structure Scanned.IsText (scanned : Scanned) (characters : List Char) : Prop where
  source : scanned.source <+: characters
  moves : scanned.source ≠ []
  kind : scanned.kind = .eol ∨ scanned.kind.isLayout = false
  lexeme : scanned.kind.isVerbatim = true → scanned.lexeme = String.ofList scanned.source
  problem : ∀ cause ∈ scanned.problem, cause.isIndentation = false

theorem takeWhile_ne_nil {α : Type} {test : α → Bool} {first : α} (rest : List α) (holds : test first = true) :
    (first :: rest).takeWhile test ≠ [] := by
  simp [holds]

theorem numberText_ne_nil {first : Char} (rest : List Char) (digit : first.isDigit = true) :
    numberText (first :: rest) ≠ [] := by
  have ascii : first.toNat < 128 := by
    simp only [Char.isDigit, Bool.and_eq_true, decide_eq_true_eq] at digit
    have above : first.toNat ≤ 57 := digit.2
    omega
  have whole : (first :: rest).takeWhile Text.isLetterOrNumber ≠ [] :=
    takeWhile_ne_nil rest (by simp [Text.isLetterOrNumber, Text.isNumber, ascii, digit])
  simp only [numberText]
  split
  · split <;> simp_all
  · exact whole

theorem punctuationText_ne_nil (first : Char) (rest : List Char) : punctuationText (first :: rest) ≠ [] := by
  unfold punctuationText
  split
  · simp
  · split <;> simp
  · simp

theorem ofKeyword?_isLayout (word : String) : ((TokenKind.ofKeyword? word).getD .id).isLayout = false := by
  cases found : TokenKind.ofKeyword? word with
  | none => rfl
  | some kind =>
    have plain : ∀ kind ∈ TokenKind.keywords, kind.isLayout = false := by decide
    exact plain kind (List.mem_of_find?_eq_some found)

theorem ofPunctuation?_isLayout {word : String} {kind : TokenKind} (found : TokenKind.ofPunctuation? word = some kind) :
    kind.isLayout = false := by
  have plain : ∀ kind ∈ TokenKind.punctuation, kind.isLayout = false := by decide
  exact plain kind (List.mem_of_find?_eq_some found)

theorem literal_isText {kind : TokenKind} {cause : Cause} (quote : Char) (rest : List Char)
    (quoted : kind.isVerbatim = false) (plain : kind.isLayout = false) (other : cause.isIndentation = false) :
    (Scanned.literal kind cause quote (quotedText quote rest)).IsText (quote :: rest) where
  source := List.cons_prefix_cons.mpr ⟨rfl, quotedText_takes quote rest⟩
  moves := List.cons_ne_nil _ _
  kind := .inr plain
  lexeme verbatim := by simp [Scanned.literal, quoted] at verbatim
  problem := by
    unfold Scanned.literal
    split <;> simp [other]

theorem scanText_isText (first : Char) (rest : List Char) : (scanText (first :: rest)).IsText (first :: rest) := by
  simp only [scanText]
  split
  next newline =>
    exact ⟨List.prefix_append [first] rest, List.cons_ne_nil _ _, .inl rfl, by simp [Scanned.layout, TokenKind.isVerbatim,
      TokenKind.isLayout], by simp [Scanned.layout]⟩
  next =>
    split
    next letter =>
      refine ⟨List.takeWhile_prefix _, takeWhile_ne_nil rest ?_, .inr (ofKeyword?_isLayout _), fun _ => rfl, by simp⟩
      simp only [Bool.or_eq_true] at letter
      rcases letter with letter | underscore
      · simp [isWordCharacter, Text.isLetterOrNumber, letter]
      · simp [isWordCharacter, underscore]
    next =>
      split
      next digit =>
        refine ⟨numberText_takes _, numberText_ne_nil rest digit, .inr ?_, fun _ => rfl, by simp⟩
        split <;> rfl
      next =>
        split
        next => exact literal_isText _ _ rfl rfl rfl
        next =>
          split
          next => exact literal_isText _ _ rfl rfl rfl
          next =>
            have takes := punctuationText_takes (first :: rest)
            have moves := punctuationText_ne_nil first rest
            split
            next found => exact ⟨takes, moves, .inr (ofPunctuation?_isLayout found), fun _ => rfl, by simp⟩
            next => exact ⟨takes, moves, .inr rfl, fun _ => rfl, by simp [Cause.isIndentation]⟩

namespace Scanner

def start (scanner : Scanner) : Cursor :=
  scanner.cursor.advance (blanks scanner.joinLines scanner.cursor.rest)

inductive Finds (lineStart : Bool) (indents : List Nat) (cursor : Cursor) : Scanned → List Nat → Prop
  | lineEnd (empty : cursor.rest = []) (within : lineStart = false) :
      Finds lineStart indents cursor (.layout .eol []) indents
  | fileEnd (empty : cursor.rest = []) (begins : lineStart = true) (closed : indents = []) :
      Finds lineStart indents cursor (.layout .eof []) indents
  | lastClosed {inner : Nat} {outer : List Nat} (empty : cursor.rest = []) (begins : lineStart = true)
      (isOpen : indents = inner :: outer) : Finds lineStart indents cursor (.layout .dedent []) outer
  | opened (present : cursor.rest ≠ []) (begins : lineStart = true) (deeper : indentation indents < cursor.column) :
      Finds lineStart indents cursor (.layout .indent []) (cursor.column :: indents)
  | closed {inner : Nat} {outer : List Nat} (present : cursor.rest ≠ []) (begins : lineStart = true)
      (isOpen : indents = inner :: outer) (less : cursor.column < inner) (fits : cursor.column ≤ indentation outer) :
      Finds lineStart indents cursor (.layout .dedent []) outer
  | misplaced {inner : Nat} {outer : List Nat} (present : cursor.rest ≠ []) (begins : lineStart = true)
      (isOpen : indents = inner :: outer) (less : cursor.column < inner) (deeper : indentation outer < cursor.column) :
      Finds lineStart indents cursor
        { Scanned.layout .dedent [] with problem := some (.indentation cursor.column (indentation outer)) }
        (cursor.column :: outer)
  | text {scanned : Scanned} (isText : scanned.IsText cursor.rest)
      (aligned : lineStart = true → cursor.column = indentation indents) : Finds lineStart indents cursor scanned indents

theorem classify_finds (lineStart : Bool) (indents : List Nat) {cursor : Cursor} (column : 1 ≤ cursor.column) :
    Finds lineStart indents cursor (classify lineStart indents cursor).1 (classify lineStart indents cursor).2 := by
  have isOpen : cursor.column < indentation indents → ∃ inner outer, indents = inner :: outer ∧ cursor.column < inner := by
    intro less
    cases indents with
    | nil => exact absurd less (Nat.not_lt.mpr column)
    | cons inner outer => exact ⟨inner, outer, rfl, less⟩
  unfold classify
  split
  next empty =>
    rw [List.isEmpty_iff] at empty
    split
    next within => exact .lineEnd empty (by simpa using within)
    next begins =>
      have begins : lineStart = true := by simpa using begins
      split
      · exact .fileEnd empty begins rfl
      · exact .lastClosed empty begins rfl
  next present =>
    rw [List.isEmpty_iff] at present
    split
    next deeper =>
      simp only [Bool.and_eq_true, decide_eq_true_eq] at deeper
      exact .opened present deeper.1 deeper.2
    next notDeeper =>
      split
      next shallower =>
        simp only [Bool.and_eq_true, decide_eq_true_eq] at shallower
        obtain ⟨inner, outer, rfl, less⟩ := isOpen shallower.2
        dsimp only
        split
        next deeper => exact .misplaced present shallower.1 rfl less deeper
        next fits => exact .closed present shallower.1 rfl less (Nat.not_lt.mp fits)
      next notLess =>
        refine .text ?_ fun begins => ?_
        · cases given : cursor.rest with
          | nil => exact absurd given present
          | cons first rest => exact scanText_isText first rest
        · simp only [begins, Bool.true_and, decide_eq_true_eq] at notDeeper notLess
          omega

theorem columnAfter_pos {column : Nat} (positive : 1 ≤ column) (characters : List Char) :
    1 ≤ characters.foldl Cursor.columnAfter column := by
  refine List.foldlRecOn _ _ positive fun _ _ _ _ => ?_
  unfold Cursor.columnAfter
  split <;> omega

def leftAt (lineStart : Bool) (indents : List Nat) (cursor : Cursor) : Nat :=
  indents.length +
    if cursor.rest.length = 0 then if lineStart then 1 else 2
    else 4 * cursor.rest.length + if !lineStart then 1 else if cursor.column = indentation indents then 2 else 3

def left (scanner : Scanner) : Nat :=
  leftAt scanner.lineStart scanner.indents scanner.start

theorem leftAt_le (lineStart : Bool) (indents : List Nat) (cursor : Cursor) :
    leftAt lineStart indents cursor ≤ indents.length + 4 * cursor.rest.length + 3 := by
  grind [leftAt]

theorem start_rest_le (scanner : Scanner) : scanner.start.rest.length ≤ scanner.cursor.rest.length := by
  simp [start, Cursor.advance]

theorem left_idle (cursor : Cursor) (joinLines lineStart : Bool) (indents : List Nat) :
    left ⟨cursor.advance [], joinLines, lineStart, indents⟩ ≤ leftAt lineStart indents cursor := by
  change leftAt lineStart indents (cursor.advance (blanks joinLines cursor.rest)) ≤ _
  cases blanks joinLines cursor.rest with
  | nil => exact Nat.le_refl _
  | cons character rest =>
    have shorter : (cursor.advance (character :: rest)).rest.length = cursor.rest.length - (rest.length + 1) := by
      simp [Cursor.advance]
    grind [leftAt]

theorem left_shorter {scanner : Scanner} (lineStart : Bool) {cursor : Cursor}
    (shorter : scanner.cursor.rest.length < cursor.rest.length) :
    scanner.left < leftAt lineStart scanner.indents cursor := by
  have further := start_rest_le scanner
  have bound : scanner.left ≤ _ := leftAt_le scanner.lineStart scanner.indents scanner.start
  grind [leftAt]

theorem next_finds (scanner : Scanner) (file : FileId) (column : 1 ≤ scanner.cursor.column) :
    ∃ scanned indents, Finds scanner.lineStart scanner.indents scanner.start scanned indents ∧
      scanner.next file =
        (⟨scanned.kind, scanned.lexeme, ⟨scanner.start.offset, (scanner.start.advance scanned.source).offset, file⟩⟩,
          scanned.problem.map fun cause =>
            ⟨cause, ⟨scanner.start.offset, (scanner.start.advance scanned.source).offset, file⟩⟩,
          ⟨scanner.start.advance scanned.source, scanned.kind.lineContinues,
            scanned.kind == .eol || scanned.kind == .dedent, indents⟩) :=
  ⟨_, _, classify_finds scanner.lineStart scanner.indents (columnAfter_pos column _), rfl⟩

theorem next_left_lt (scanner : Scanner) (file : FileId) (column : 1 ≤ scanner.cursor.column)
    (notEnd : (scanner.next file).1.kind ≠ .eof) : (scanner.next file).2.2.left < scanner.left := by
  obtain ⟨scanned, indents, finds, same⟩ := scanner.next_finds file column
  rw [same] at notEnd ⊢
  change _ < leftAt scanner.lineStart scanner.indents scanner.start
  cases finds with
  | lineEnd empty within =>
    refine Nat.lt_of_le_of_lt (left_idle ..) ?_
    simp [leftAt, empty, within, Scanned.layout]
  | fileEnd => exact absurd rfl notEnd
  | lastClosed empty begins isOpen =>
    refine Nat.lt_of_le_of_lt (left_idle ..) ?_
    simp [leftAt, empty, begins, isOpen, Scanned.layout]
  | opened present begins deeper =>
    refine Nat.lt_of_le_of_lt (left_idle ..) ?_
    simp [leftAt, present, begins, Nat.ne_of_gt deeper, Scanned.layout]
    omega
  | closed present begins isOpen less fits =>
    have wrong : scanner.start.column ≠ indentation scanner.indents := by
      rw [isOpen]
      exact Nat.ne_of_lt less
    refine Nat.lt_of_le_of_lt (Nat.le_trans (left_idle ..) (leftAt_le ..)) ?_
    simp [leftAt, present, begins, wrong]
    simp [isOpen]
    omega
  | misplaced present begins isOpen less deeper =>
    have wrong : scanner.start.column ≠ indentation scanner.indents := by
      rw [isOpen]
      exact Nat.ne_of_lt less
    refine Nat.lt_of_le_of_lt (left_idle ..) ?_
    simp only [leftAt, begins, if_neg wrong]
    simp [present, isOpen, indentation, Scanned.layout]
  | text isText aligned =>
    refine left_shorter _ ?_
    have covered := List.length_pos_iff.mpr isText.moves
    have within := isText.source.length_le
    simp only [Cursor.advance, List.length_drop]
    omega

end Scanner

theorem scanFrom_tiles (file : FileId) (bound : Nat) : ∀ scanner : Scanner, scanner.left < bound →
    1 ≤ scanner.cursor.column →
      Tiles file scanner.cursor.offset scanner.cursor.rest (scanFrom file bound scanner).tokens := by
  induction bound with
  | zero => exact fun scanner few => absurd few (Nat.not_lt_zero _)
  | succ bound ih =>
    intro scanner few column
    have fewer := scanner.next_left_lt file column
    obtain ⟨scanned, indents, finds, same⟩ := scanner.next_finds file column
    have source : scanned.source <+: scanner.start.rest := by
      cases finds with
      | text isText => exact isText.source
      | _ => exact List.nil_prefix
    obtain ⟨⟨rest, text, blank⟩, -⟩ := blanks_gap scanner.joinLines scanner.cursor.rest
    have start : scanner.start.rest = rest := by
      change scanner.cursor.rest.drop (blanks scanner.joinLines scanner.cursor.rest).length = rest
      generalize blanks scanner.joinLines scanner.cursor.rest = gap at text
      rw [text]
      exact List.drop_left
    rw [start] at source
    rw [scanFrom]
    simp only [same] at fewer ⊢
    split
    next ends =>
      obtain ⟨rfl, nothing⟩ : rest = [] ∧ scanned.source = [] := by
        cases finds with
        | fileEnd empty => exact ⟨start.symm.trans empty, rfl⟩
        | text isText => rcases isText.kind with kind | kind <;> simp [ends, TokenKind.isLayout] at kind
        | _ => cases ends
      rw [text, List.append_nil]
      exact .last blank ends (by rw [nothing]; rfl)
    next notEnd =>
      obtain ⟨after, rfl⟩ := source
      have more := ih _ (Nat.lt_of_lt_of_le (fewer notEnd) (Nat.le_of_lt_succ few))
        (Scanner.columnAfter_pos (Scanner.columnAfter_pos column _) _)
      have rest : (scanner.start.advance scanned.source).rest = after := by
        change scanner.start.rest.drop _ = after
        rw [start]
        exact List.drop_left
      rw [rest] at more
      rw [text]
      obtain ⟨moves, lexeme⟩ : (scanned.kind.isLayout = false → scanned.source ≠ []) ∧
          (scanned.kind.isVerbatim = true → scanned.lexeme = String.ofList scanned.source) := by
        cases finds with
        | text isText => exact ⟨fun _ => isText.moves, isText.lexeme⟩
        | _ => exact ⟨by rintro ⟨⟩, by rintro ⟨⟩⟩
      exact .cons blank notEnd rfl moves lexeme more

theorem ofText_left_lt (text : String) : (Scanner.ofText text).left < 4 * text.length + 4 := by
  have further := (Scanner.ofText text).start_rest_le
  have bound : (Scanner.ofText text).left ≤ _ := Scanner.leftAt_le true [] (Scanner.ofText text).start
  have length : (Scanner.ofText text).cursor.rest.length = text.length := rfl
  simp only [List.length_nil] at bound
  omega

/-- The tokens of every text tile it. -/
theorem scan_tiles (file : FileId) (text : String) : Tiles file 0 text.toList (scan file text).tokens :=
  scanFrom_tiles file _ (Scanner.ofText text) (ofText_left_lt text) (Nat.le_refl 1)

end FplCompiler
