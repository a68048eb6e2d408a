import FplCompiler.Proofs.TokenTiling
import Mathlib.Data.List.Chain

/-!
Indentations are balanced. Each step opens one, closes one, or moves the innermost one to another column, and the end of
the file is reached when all are closed.
-/

namespace FplCompiler

namespace Scan

def opened (scan : Scan) : Nat :=
  scan.tokens.countP (·.kind == .indent)

def closed (scan : Scan) : Nat :=
  scan.tokens.countP (·.kind == .dedent)

def misplaced (scan : Scan) : Nat :=
  scan.diagnostics.countP (·.cause.isIndentation)

end Scan

namespace Scanner

def stack (scanner : Scanner) : List Nat :=
  scanner.indents ++ [1]

def steps (file : FileId) : Nat → Scanner → Scan × Scanner
  | 0, scanner => (⟨[], []⟩, scanner)
  | count + 1, scanner =>
    let step := scanner.next file
    let rest := step.2.2.steps file count
    (⟨step.1 :: rest.1.tokens, step.2.1.toList ++ rest.1.diagnostics⟩, rest.2)

structure Nested (scanner : Scanner) : Prop where
  column : 1 ≤ scanner.cursor.column
  increasing : scanner.stack.Pairwise (· > ·)

theorem pairwise_push {indents : List Nat} {column : Nat} (increasing : (indents ++ [1]).Pairwise (· > ·))
    (deeper : indentation indents < column) : (column :: indents ++ [1]).Pairwise (· > ·) := by
  refine List.pairwise_cons.mpr ⟨fun outer member => ?_, increasing⟩
  cases indents with
  | nil =>
    rw [List.mem_singleton.mp member]
    exact deeper
  | cons inner rest =>
    rcases List.mem_cons.mp member with rfl | member
    · exact deeper
    · exact Nat.lt_trans ((List.pairwise_cons.mp increasing).1 outer member) deeper

theorem Nested.next {scanner : Scanner} (nested : scanner.Nested) (file : FileId) :
    (scanner.next file).2.2.Nested ∧
      (scanner.next file).2.2.stack.length + (if (scanner.next file).1.kind == .dedent then 1 else 0) =
        scanner.stack.length + (if (scanner.next file).1.kind == .indent then 1 else 0) +
          (scanner.next file).2.1.toList.countP (·.cause.isIndentation) ∧
      ((scanner.next file).1.kind = .indent ∨ (scanner.next file).1.kind = .dedent → scanner.lineStart = true) ∧
      ((scanner.next file).1.kind = .eof → (scanner.next file).2.2.stack = [1]) := by
  obtain ⟨scanned, indents, finds, same⟩ := scanner.next_finds file nested.column
  have column : 1 ≤ (scanner.start.advance scanned.source).column := columnAfter_pos (columnAfter_pos nested.column _) _
  have increasing : (scanner.indents ++ [1]).Pairwise (· > ·) := nested.increasing
  rw [same]
  cases finds with
  | lineEnd => exact ⟨⟨column, increasing⟩, rfl, by rintro (⟨⟨⟩⟩ | ⟨⟨⟩⟩), by rintro ⟨⟩⟩
  | fileEnd _ _ closed => exact ⟨⟨column, increasing⟩, rfl, by rintro (⟨⟨⟩⟩ | ⟨⟨⟩⟩), fun _ => by rw [closed]; rfl⟩
  | lastClosed _ begins isOpen =>
    rw [isOpen] at increasing
    refine ⟨⟨column, (List.pairwise_cons.mp increasing).2⟩, ?_, fun _ => begins, by rintro ⟨⟩⟩
    simp [stack, isOpen, Scanned.layout]
  | opened _ begins deeper =>
    refine ⟨⟨column, pairwise_push increasing deeper⟩, ?_, fun _ => begins, by rintro ⟨⟩⟩
    simp [stack, Scanned.layout]
  | closed _ begins isOpen =>
    rw [isOpen] at increasing
    refine ⟨⟨column, (List.pairwise_cons.mp increasing).2⟩, ?_, fun _ => begins, by rintro ⟨⟩⟩
    simp [stack, isOpen, Scanned.layout]
  | misplaced _ begins isOpen _ deeper =>
    rw [isOpen] at increasing
    refine ⟨⟨column, pairwise_push (List.pairwise_cons.mp increasing).2 deeper⟩, ?_, fun _ => begins, by rintro ⟨⟩⟩
    simp [stack, isOpen, Scanned.layout, Cause.isIndentation]
  | text isText =>
    have plain : ∀ kind ∈ [TokenKind.indent, .dedent, .eof], scanned.kind ≠ kind := by
      rintro kind member rfl
      have isLayout : scanned.kind.isLayout = true ∧ scanned.kind ≠ .eol := by
        revert member
        cases scanned.kind <;> simp [TokenKind.isLayout]
      simpa [isLayout] using isText.kind
    refine ⟨⟨column, increasing⟩, ?_, by simp [plain], by simp [plain]⟩
    have problem := isText.problem
    cases given : scanned.problem <;> simp_all [stack]

theorem steps_balanced (file : FileId) (count : Nat) : ∀ {scanner : Scanner}, scanner.Nested →
    (scanner.steps file count).2.Nested ∧
      (scanner.steps file count).2.stack.length + (scanner.steps file count).1.closed =
        scanner.stack.length + (scanner.steps file count).1.opened + (scanner.steps file count).1.misplaced := by
  induction count with
  | zero => exact fun nested => ⟨nested, rfl⟩
  | succ count ih =>
    intro scanner nested
    obtain ⟨following, balance, -⟩ := nested.next file
    obtain ⟨last, rest⟩ := ih following
    refine ⟨last, ?_⟩
    simp only [steps, Scan.closed, Scan.opened, Scan.misplaced, List.countP_cons, List.countP_append] at rest ⊢
    omega

theorem steps_take (file : FileId) (count : Nat) : ∀ (scanner : Scanner) (length : Nat),
    length ≤ (scanner.steps file count).1.tokens.length →
      (scanner.steps file length).1.tokens = (scanner.steps file count).1.tokens.take length ∧
        (scanner.steps file length).1.misplaced ≤ (scanner.steps file count).1.misplaced := by
  induction count with
  | zero =>
    rintro scanner length less
    obtain rfl := Nat.le_zero.mp less
    exact ⟨rfl, Nat.le_refl _⟩
  | succ count ih =>
    rintro scanner (_ | length) less
    · exact ⟨rfl, Nat.zero_le _⟩
    · obtain ⟨tokens, fewer⟩ := ih (scanner.next file).2.2 length (Nat.le_of_succ_le_succ less)
      simp only [steps, Scan.misplaced, List.countP_append, List.take_succ_cons, tokens] at fewer ⊢
      exact ⟨trivial, Nat.add_le_add_left fewer _⟩

end Scanner

def StartsLine (previous token : Token) : Prop :=
  token.kind = .indent ∨ token.kind = .dedent → previous.kind = .eol ∨ previous.kind = .dedent

theorem scanFrom_steps (file : FileId) (bound : Nat) : ∀ {scanner : Scanner}, scanner.left < bound → scanner.Nested →
    (∃ count last, scanner.steps file count = (scanFrom file bound scanner, last) ∧ last.stack = [1]) ∧
      (scanFrom file bound scanner).tokens.IsChain StartsLine ∧
      ∀ token ∈ (scanFrom file bound scanner).tokens.head?, token.kind = .indent ∨ token.kind = .dedent →
        scanner.lineStart = true := by
  induction bound with
  | zero => exact fun few => absurd few (Nat.not_lt_zero _)
  | succ bound ih =>
    intro scanner few nested
    obtain ⟨following, -, begins, ends⟩ := nested.next file
    have fewer := scanner.next_left_lt file nested.column
    have lineStart : (scanner.next file).2.2.lineStart =
      ((scanner.next file).1.kind == .eol || (scanner.next file).1.kind == .dedent) := rfl
    rw [scanFrom]
    dsimp only at following begins ends ⊢
    split
    next isEnd => exact ⟨⟨1, _, by simp [Scanner.steps], ends isEnd⟩, by simp, by simpa using begins⟩
    next notEnd =>
      obtain ⟨⟨count, last, same, closed⟩, chain, first⟩ := ih (Nat.lt_of_lt_of_le (fewer notEnd) (Nat.le_of_lt_succ few))
        following
      refine ⟨⟨count + 1, last, by simp [Scanner.steps, same], closed⟩, ?_, by simpa using begins⟩
      refine List.isChain_cons.mpr ⟨fun token member isLayout => ?_, chain⟩
      simpa [lineStart] using first token member isLayout

/-- Indentations are balanced at every step and closed at the end. -/
theorem indentations_balanced (file : FileId) (text : String) :
    (∀ count scan scanner, (Scanner.ofText text).steps file count = (scan, scanner) →
      scanner.stack.Pairwise (· > ·) ∧ scanner.stack.length + scan.closed = 1 + scan.opened + scan.misplaced) ∧
    (∃ count, ((Scanner.ofText text).steps file count).1 = scan file text) ∧
    (scan file text).closed = (scan file text).opened + (scan file text).misplaced ∧
    ((scan file text).misplaced = 0 → ∀ tokens, tokens <+: (scan file text).tokens →
      tokens.countP (·.kind == .dedent) ≤ tokens.countP (·.kind == .indent)) ∧
    (scan file text).tokens.IsChain StartsLine := by
  have start : (Scanner.ofText text).Nested := ⟨Nat.le_refl 1, List.pairwise_singleton _ _⟩
  obtain ⟨⟨count, last, same, closed⟩, chain, -⟩ := scanFrom_steps file _ (ofText_left_lt text) start
  change _ = (scan file text, last) at same
  have balanced : ∀ count scan scanner, (Scanner.ofText text).steps file count = (scan, scanner) →
      scanner.stack.Pairwise (· > ·) ∧ scanner.stack.length + scan.closed = 1 + scan.opened + scan.misplaced := by
    intro count scan scanner same
    obtain ⟨nested, balance⟩ := Scanner.steps_balanced file count start
    rw [same] at nested balance
    exact ⟨nested.increasing, balance⟩
  refine ⟨balanced, ⟨count, congrArg Prod.fst same⟩, ?_, ?_, chain⟩
  · have all := (balanced count _ _ same).2
    rw [closed] at all
    exact Nat.add_left_cancel (all.trans (Nat.add_assoc ..))
  · intro none tokens before
    obtain ⟨taken, fewer⟩ := Scanner.steps_take file count (Scanner.ofText text) tokens.length
      (by rw [same]; exact before.length_le)
    have balance := (balanced tokens.length _ _ rfl).2
    rw [same] at taken fewer
    rw [← List.prefix_iff_eq_take.mp before] at taken
    rw [Scan.closed, Scan.opened, taken, Scanner.stack, List.length_append, List.length_singleton] at balance
    dsimp only at fewer
    omega

end FplCompiler
