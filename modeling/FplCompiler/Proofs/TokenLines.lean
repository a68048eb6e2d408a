import FplCompiler.Proofs.Numerals
import FplCompiler.Proofs.PrintedSyntax

/-!
What is printed is read back. The rules of the grammar are followed from a stream that spells a text; the loops over
operators and over suffixes are entered with the operand that was read last, so that a chain is read link by link.
-/

namespace FplCompiler.Syntax

variable {rank : Nat} {lexeme : String} {after rest : List Piece} {stream : TokenStream}

structure LineEnd where
  stop : Token
  later : List Token
  reported : List Diagnostic
  ends : stop.kind = .eol

structure Left (line : LineEnd) (pieces : List Piece) (stream : TokenStream) : Prop where
  reported : stream.diagnostics = line.reported
  tokens : ∃ tokens : List Token, (tokens.map fun token => (token.kind, token.lexeme)) = fuse pieces ∧
    stream.current :: stream.rest = tokens ++ line.stop :: line.later

/-- A stream spells a text; half of a `>>` may have been read. -/
inductive Spells (line : LineEnd) : List Piece → TokenStream → Prop
  | whole {pieces : List Piece} {stream : TokenStream} (ready : stream.pendingGreater = none)
      (left : Left line pieces stream) : Spells line pieces stream
  | half {pieces : List Piece} {stream : TokenStream} {span : Span} (waits : stream.pendingGreater = some span)
      (left : Left line pieces stream) : Spells line (.close :: pieces) stream

def shows : List Piece → List TokenKind
  | [] => [.eol]
  | .token kind _ :: _ => [kind]
  | .close :: _ => [.gt, .right]

def weight (pieces : List Piece) : Nat :=
  pieces.countP fun
    | .token _ _ => true
    | .close => false

@[simp]
theorem weight_append (first second : List Piece) : weight (first ++ second) = weight first + weight second :=
  List.countP_append

@[simp]
theorem weight_token (kind : TokenKind) (lexeme : String) (rest : List Piece) :
    weight (.token kind lexeme :: rest) = weight rest + 1 := by
  simp [weight]

@[simp]
theorem weight_close (rest : List Piece) : weight (.close :: rest) = weight rest := by
  simp [weight]

@[simp]
theorem weight_nil : weight [] = 0 :=
  rfl

theorem weight_le_fuse (pieces : List Piece) : weight pieces ≤ (fuse pieces).length := by
  fun_induction fuse pieces <;> simp_all <;> omega

section Streams

variable {line : LineEnd} {pieces : List Piece} {kind : TokenKind}

theorem fuse_close (rest : List Piece) :
    fuse (.close :: rest) = (.gt, ">") :: fuse rest ∨
      ∃ others, rest = .close :: others ∧ fuse (.close :: rest) = (.right, ">>") :: fuse others := by
  rcases rest with _ | ⟨_ | _, others⟩
  · exact Or.inl rfl
  · exact Or.inl rfl
  · exact Or.inr ⟨others, rfl, rfl⟩

theorem Left.step (left : Left line pieces stream) (head : fuse pieces = (kind, lexeme) :: fuse rest) :
    ∃ span next later, stream.current = ⟨kind, lexeme, span⟩ ∧ stream.rest = next :: later ∧
      ∀ waiting, Left line rest { stream with current := next, rest := later, pendingGreater := waiting } := by
  obtain ⟨tokens, same, all⟩ := left.tokens
  rw [head] at same
  obtain ⟨⟨_, _, span⟩, others, rfl, first, more⟩ := List.map_eq_cons_iff.mp same
  obtain ⟨rfl, rfl⟩ := first
  obtain ⟨current, tail⟩ := List.cons.inj all
  obtain ⟨next, later, moved⟩ : ∃ next later, stream.rest = next :: later := by
    cases others <;> exact ⟨_, _, tail⟩
  exact ⟨span, next, later, current, moved, fun _ => ⟨left.reported, others, more, moved ▸ tail⟩⟩

theorem Spells.kind_mem (spells : Spells line pieces stream) : stream.kind ∈ shows pieces := by
  cases spells with
  | half waits left => simp [TokenStream.kind, waits, shows]
  | whole ready left =>
    simp only [TokenStream.kind, ready]
    rcases pieces with _ | ⟨_ | _, rest⟩
    · obtain ⟨tokens, same, all⟩ := left.tokens
      obtain rfl : tokens = [] := by simpa [fuse] using same
      rw [(List.cons.inj all).1, line.ends]
      simp [shows]
    · obtain ⟨span, _, _, current, _⟩ := left.step rfl
      simp [current, shows]
    · rcases fuse_close rest with single | ⟨others, rfl, double⟩
      · obtain ⟨span, _, _, current, _⟩ := left.step single
        simp [current, shows]
      · obtain ⟨span, _, _, current, _⟩ := left.step double
        simp [current, shows]

theorem Spells.bump (spells : Spells line (.token kind lexeme :: rest) stream) :
    ∃ span later, stream.bump = (⟨kind, lexeme, span⟩, later) ∧ Spells line rest later := by
  cases spells with
  | whole ready left =>
    obtain ⟨span, next, later, current, moved, further⟩ := left.step rfl
    refine ⟨span, _, ?_, .whole rfl (further none)⟩
    simp [TokenStream.bump, ready, moved, current]

theorem Spells.expectGreater (spells : Spells line (.close :: rest) stream) :
    ∃ later, expectGreater.run stream = (.ok (), later) ∧ Spells line rest later := by
  cases spells with
  | half waits left =>
    refine ⟨{ stream with pendingGreater := none }, ?_, .whole rfl ⟨left.reported, left.tokens⟩⟩
    cases stream
    cases waits
    rfl
  | whole ready left =>
    rcases fuse_close rest with single | ⟨others, rfl, double⟩
    · obtain ⟨span, next, later, current, moved, further⟩ := left.step single
      refine ⟨_, ?_, .whole rfl (further none)⟩
      cases stream
      cases ready
      cases current
      cases moved
      rfl
    · obtain ⟨span, next, later, current, moved, further⟩ := left.step double
      refine ⟨_, ?_, .half rfl (further (some span))⟩
      cases stream
      cases ready
      cases current
      cases moved
      rfl

theorem Spells.weight_le (spells : Spells line pieces stream) : weight pieces ≤ stream.remaining + 1 := by
  have count : ∀ {pieces}, Left line pieces stream → weight pieces ≤ stream.rest.length := by
    intro pieces left
    obtain ⟨tokens, same, all⟩ := left.tokens
    have lengths := congrArg List.length all
    have fewer := weight_le_fuse pieces
    rw [← same, List.length_map] at fewer
    simp only [List.length_cons, List.length_append] at lengths
    omega
  unfold TokenStream.remaining
  cases spells with
  | whole ready left => exact Nat.le_trans (count left) (by omega)
  | half waits left =>
    rw [weight_close]
    exact Nat.le_trans (count left) (by omega)

theorem Spells.count (spells : Spells line pieces stream) :
    Spells line pieces { stream with expressionCount := stream.expressionCount + 1 } := by
  cases spells with
  | whole ready left => exact .whole ready ⟨left.reported, left.tokens⟩
  | half waits left => exact .half waits ⟨left.reported, left.tokens⟩

end Streams

def Reads {α : Type} (parser : Parser α) (pieces rest : List Piece) (post : α → Prop) : Prop :=
  ∀ line stream, Spells line pieces stream →
    ∃ value later, parser.run stream = (.ok value, later) ∧ post value ∧ Spells line rest later

section Reads

variable {α β : Type} {pieces middle : List Piece} {parser : Parser α} {good post : α → Prop}

theorem Reads.bind {next : α → Parser β} {post : β → Prop} (first : Reads parser pieces middle good)
    (second : ∀ value, good value → Reads (next value) middle rest post) : Reads (parser >>= next) pieces rest post := by
  intro line stream spells
  obtain ⟨value, between_, run, holds, left⟩ := first line stream spells
  obtain ⟨result, later, lastRun, last⟩ := second value holds line between_ left
  refine ⟨result, later, ?_, last⟩
  rw [← lastRun]
  change (ExceptT.bindCont next (parser.run stream).1) (parser.run stream).2 = _
  rw [run]
  rfl

theorem Reads.pure {value : α} (holds : post value) : Reads (Pure.pure value) pieces pieces post :=
  fun _ stream spells => ⟨value, stream, rfl, holds, spells⟩

theorem Reads.mono (reads : Reads parser pieces rest good)
    (implies : ∀ value, good value → post value) : Reads parser pieces rest post := by
  intro line stream spells
  obtain ⟨value, later, run, holds, left⟩ := reads line stream spells
  exact ⟨value, later, run, implies value holds, left⟩

theorem Reads.discard (reads : Reads parser pieces rest good) :
    Reads (discard parser) pieces rest fun _ => True := by
  have mapped : Reads (parser >>= fun _ => Pure.pure ()) pieces rest fun _ => True := reads.bind fun _ _ => .pure trivial
  exact mapped

theorem reads_kind : Reads (liftM kind) pieces pieces (· ∈ shows pieces) :=
  fun _ stream spells => ⟨stream.kind, stream, rfl, spells.kind_mem, spells⟩

theorem reads_remaining {next : Nat → Parser α}
    (each : ∀ bound, weight pieces ≤ bound → Reads (next bound) pieces rest post) :
    Reads (do next ((← get).remaining + 1)) pieces rest post :=
  fun line stream spells => each _ spells.weight_le line stream spells

variable {kind : TokenKind}

theorem reads_bump :
    Reads (liftM bump) (.token kind lexeme :: rest) rest fun token => token.kind = kind ∧ token.lexeme = lexeme := by
  intro line stream spells
  obtain ⟨span, later, run, left⟩ := spells.bump
  refine ⟨⟨kind, lexeme, span⟩, later, ?_, ⟨rfl, rfl⟩, left⟩
  change ((Except.ok stream.bump.1 : Except Diagnostic Token), stream.bump.2) = _
  rw [run]

section Decisions

variable {next : TokenKind → Parser β} {decide : Bool → Parser β} {post : β → Prop}

theorem Reads.first (reads : Reads (next kind) (.token kind lexeme :: rest) after post) :
    Reads (liftM Syntax.kind >>= next) (.token kind lexeme :: rest) after post := by
  refine reads_kind.bind fun shown member => ?_
  obtain rfl := List.mem_singleton.mp member
  exact reads

theorem Reads.look (reads : Reads (decide true) (.token kind lexeme :: rest) after post) :
    Reads (liftM (looksAt kind) >>= decide) (.token kind lexeme :: rest) after post := by
  have looks : Reads (liftM (looksAt kind)) (.token kind lexeme :: rest) (.token kind lexeme :: rest) (· = true) :=
    fun _ stream spells => ⟨_, stream, rfl, beq_iff_eq.mpr (List.mem_singleton.mp spells.kind_mem), spells⟩
  exact looks.bind fun _ same => same ▸ reads

theorem Reads.notLook (other : ∀ shown ∈ shows pieces, shown ≠ kind) (reads : Reads (decide false) pieces after post) :
    Reads (liftM (looksAt kind) >>= decide) pieces after post := by
  have looks : Reads (liftM (looksAt kind)) pieces pieces (· = false) :=
    fun _ stream spells => ⟨_, stream, rfl, beq_eq_false_iff_ne.mpr (other _ spells.kind_mem), spells⟩
  exact looks.bind fun _ same => same ▸ reads

theorem eat_apply (kind : TokenKind) (stream : TokenStream) :
    ExceptT.run (liftM (eat kind) : Parser Bool) stream =
      if stream.kind == kind then (.ok true, stream.bump.2) else (.ok false, stream) := by
  have chosen : eat kind stream =
      (if stream.kind == kind then (do discard bump; return true : Reader Bool) else return false) stream := rfl
  change ((Except.ok (eat kind stream).1 : Except Diagnostic Bool), (eat kind stream).2) = _
  rw [chosen]
  split <;> rfl

theorem Reads.eat (reads : Reads (decide true) rest after post) :
    Reads (liftM (eat kind) >>= decide) (.token kind lexeme :: rest) after post := by
  have eats : Reads (liftM (Syntax.eat kind)) (.token kind lexeme :: rest) rest (· = true) := by
    intro line stream spells
    obtain ⟨span, later, run, left⟩ := spells.bump
    have shown : stream.kind = kind := List.mem_singleton.mp spells.kind_mem
    exact ⟨true, later, by simp [eat_apply, shown, run], rfl, left⟩
  exact eats.bind fun _ same => same ▸ reads

theorem Reads.notEat (other : ∀ shown ∈ shows pieces, shown ≠ kind) (reads : Reads (decide false) pieces after post) :
    Reads (liftM (Syntax.eat kind) >>= decide) pieces after post := by
  have eats : Reads (liftM (Syntax.eat kind)) pieces pieces (· = false) :=
    fun line stream spells => ⟨false, stream, by simp [eat_apply, other _ spells.kind_mem], rfl, spells⟩
  exact eats.bind fun _ same => same ▸ reads

variable {further : Parser β}

theorem Reads.step (reads : Reads further rest after post) :
    Reads (liftM (Functor.discard bump) >>= fun _ => further) (.token kind lexeme :: rest) after post :=
  (show Reads (liftM (Functor.discard bump)) _ _ _ from reads_bump.discard).bind fun _ _ => reads

theorem Reads.expect (reads : Reads further rest after post) :
    Reads (Functor.discard (Syntax.expect kind) >>= fun _ => further) (.token kind lexeme :: rest) after post := by
  have expects : Reads (Syntax.expect kind) (.token kind lexeme :: rest) rest fun _ => True :=
    .look (reads_bump.mono fun _ _ => trivial)
  exact expects.discard.bind fun _ _ => reads

end Decisions

theorem reads_expectGreater : Reads expectGreater (.close :: rest) rest fun _ => True := by
  intro line stream spells
  obtain ⟨later, run, left⟩ := spells.expectGreater
  exact ⟨(), later, run, trivial, left⟩

theorem reads_peek : Reads (liftM peek) pieces pieces fun _ => True :=
  fun _ stream spells => ⟨stream.current, stream, rfl, trivial, spells⟩

theorem reads_count :
    Reads (modify fun stream => { stream with expressionCount := stream.expressionCount + 1 }) pieces pieces
      fun _ => True := by
  intro line stream spells
  exact ⟨(), _, rfl, trivial, spells.count⟩

theorem reads_newExpr (shape : ExprShape) (span : Span) :
    Reads (liftM (newExpr shape span)) pieces pieces (· = .mk shape span) := by
  intro line stream spells
  exact ⟨_, _, rfl, rfl, spells.count⟩

theorem Reads.made {shape same : ExprShape} {span place : Span} (equal : same.bare = shape.bare) :
    Reads (liftM (newExpr same place)) pieces pieces (·.bare = (Expr.mk shape span).bare) :=
  (reads_newExpr same place).mono fun _ isNew => by rw [isNew, Expr.bare, Expr.bare, equal]

end Reads

def operatorsAt : Nat → TokenKind → Option BinaryOp
  | 2 => disjunction
  | 3 => conjunction
  | 4 => comparison
  | 6 => additive
  | 7 => multiplicative
  | _ => fun _ => none

def parserAt (grammar : Grammar) : Nat → Parser Expr
  | 0 => expressionRule grammar
  | 1 => castOrTest grammar
  | 2 => logical grammar
  | 3 => level conjunction (level comparison (rangeOrSum grammar))
  | 4 => level comparison (rangeOrSum grammar)
  | 5 => rangeOrSum grammar
  | 6 => sum grammar
  | 7 => level multiplicative (unary grammar)
  | 8 => unary grammar
  | 9 => suffixed grammar
  | _ => primary grammar

/-- What a rule does after its first operand. Where operators do not form chains this is nothing. -/
def loop (grammar : Grammar) (rank bound : Nat) (operand : Expr) : Parser Expr :=
  if rank = 9 then suffixes grammar bound operand
  else leftAssociated (operatorsAt rank) (parserAt grammar (rank + 1)) bound operand

def tight : TokenKind → Nat
  | .openSquare | .dot | .openRound => 9
  | .star | .slash | .percent | .left | .right | .amp => 7
  | .plus | .minus | .bar | .caret | .dotDot => 6
  | .lt | .gt | .lte | .gte | .eq | .neq => 4
  | .andKw => 3
  | .orKw | .asKw | .isKw | .question | .bang => 2
  | .openCurly => 11
  | _ => 0

theorem operatorsAt_eq_some {kind : TokenKind} {operator : BinaryOp} :
    operatorsAt rank kind = some operator ↔ rank = operator.rank ∧ kind = operator.kind := by
  constructor
  · intro found
    unfold operatorsAt at found
    split at found <;>
      cases kind <;>
        simp_all [disjunction, conjunction, comparison, additive, multiplicative] <;> subst operator <;> decide
  · rintro ⟨rfl, rfl⟩
    cases operator <;> rfl

theorem tight_operator (operator : BinaryOp) : tight operator.kind = operator.rank := by
  cases operator <;> rfl

def Stops (rank : Nat) (kind : TokenKind) : Prop :=
  operatorsAt rank kind = none ∧ (rank = 9 → tight kind ≠ 9)

theorem stops_of_lt {kind : TokenKind} (less : tight kind < rank) : Stops rank kind := by
  refine ⟨?_, by omega⟩
  cases found : operatorsAt rank kind with
  | none => rfl
  | some operator =>
    obtain ⟨rfl, rfl⟩ := operatorsAt_eq_some.mp found
    rw [tight_operator] at less
    omega

theorem fits_below (fits : ∀ kind ∈ shows after, tight kind ≤ rank) :
    ∀ kind ∈ shows after, tight kind ≤ rank + 1 ∧ Stops (rank + 1) kind := fun kind shown =>
  ⟨Nat.le_succ_of_le (fits kind shown), stops_of_lt (Nat.lt_succ_of_le (fits kind shown))⟩

theorem stops_idle (idle : operatorsAt rank = fun _ => none) (notLast : rank ≠ 9) (kind : TokenKind) :
    Stops rank kind :=
  ⟨congrFun idle kind, fun last => absurd last notLast⟩

variable {grammar : Grammar} {rank : Nat}

theorem run_kind_bind {α : Type} (next : TokenKind → Parser α) (stream : TokenStream) :
    ((liftM kind : Parser TokenKind) >>= next).run stream = (next stream.kind).run stream :=
  rfl

theorem loop_run (bound : Nat) (operand : Expr) (stops : Stops rank stream.kind) :
    (loop grammar rank bound operand).run stream = (.ok operand, stream) := by
  obtain ⟨noOperator, noSuffix⟩ := stops
  unfold loop
  cases bound with
  | zero => split <;> rfl
  | succ bound =>
    split
    case isTrue last =>
      rw [suffixes, run_kind_bind]
      split <;> rename_i shown <;> first | rfl | (rw [shown] at noSuffix; exact absurd rfl (noSuffix last))
    case isFalse =>
      rw [leftAssociated, run_kind_bind, noOperator]
      rfl

def Yields (grammar : Grammar) (follow : TokenKind → Prop) (rank : Nat) (text : List Piece) (expr : Expr) : Prop :=
  ∀ (after rest : List Piece) (post : Expr → Prop), (∀ kind ∈ shows after, follow kind) →
    (∀ same bound, same.bare = expr.bare → weight after ≤ bound → Reads (loop grammar rank bound same) after rest post) →
    Reads (parserAt grammar rank) (text ++ after) rest post

section Yields

variable {follow : TokenKind → Prop} {text : List Piece} {expr : Expr} {more : List Piece} {kind : TokenKind}

theorem Yields.reads (yields : Yields grammar follow rank text expr)
    (fits : ∀ kind ∈ shows after, follow kind ∧ Stops rank kind) :
    Reads (parserAt grammar rank) (text ++ after) after (·.bare = expr.bare) := by
  refine yields after after _ (fun kind shown => (fits kind shown).1) ?_
  intro same bound equal _ line stream spells
  exact ⟨same, stream, loop_run bound same (fits _ spells.kind_mem).2, equal, spells⟩

theorem Reads.ofLoop {post : Expr → Prop} {bound : Nat}
    (reads : Reads (loop grammar rank bound expr) after rest post) (stops : ∀ kind ∈ shows after, Stops rank kind) :
    Reads (Pure.pure expr) after rest post := by
  intro line stream spells
  obtain ⟨value, later, run, last⟩ := reads line stream spells
  rw [loop_run bound expr (stops _ spells.kind_mem)] at run
  exact ⟨value, later, run, last⟩

theorem Yields.ofReads (stops : ∀ kind, follow kind → Stops rank kind)
    (reads : ∀ after, (∀ kind ∈ shows after, follow kind) →
      Reads (parserAt grammar rank) (text ++ after) after (·.bare = expr.bare)) :
    Yields grammar follow rank text expr := by
  intro after rest post fits goesOn
  have whole := (reads after fits).bind fun same equal =>
    (goesOn same (weight after) equal (Nat.le_refl _)).ofLoop fun kind shown => stops kind (fits kind shown)
  rwa [bind_pure] at whole

theorem Yields.weaken {fewer : TokenKind → Prop} (yields : Yields grammar follow rank text expr)
    (implies : ∀ kind, fewer kind → follow kind) : Yields grammar fewer rank text expr :=
  fun after rest post fits => yields after rest post fun kind shown => implies kind (fits kind shown)

theorem shows_append (head : text = .token kind lexeme :: more)
    (after : List Piece) : shows (text ++ after) = [kind] := by
  rw [head]
  rfl

theorem Yields.descend (yields : Yields grammar follow (rank + 1) text expr) (small : rank < 10)
    (loose : ∀ kind, follow kind → tight kind ≤ rank)
    (head : text = .token kind lexeme :: more) (unsigned : rank = 8 → unaryOperator kind = none)
    (unconditional : rank = 0 → kind ≠ .ifKw) : Yields grammar follow rank text expr := by
  intro after rest post fits goesOn
  have inner := yields.reads fun kind shown =>
    ⟨fits kind shown, stops_of_lt (Nat.lt_succ_of_le (loose kind (fits kind shown)))⟩
  have chain : parserAt grammar rank = level (operatorsAt rank) (parserAt grammar (rank + 1)) → rank ≠ 9 →
      Reads (parserAt grammar rank) (text ++ after) rest post := by
    intro isLevel notLast
    rw [isLevel]
    refine inner.bind fun same equal => ?_
    have further : ∀ bound, weight after ≤ bound →
        Reads (leftAssociated (operatorsAt rank) (parserAt grammar (rank + 1)) bound same) after rest post := by
      intro bound enough
      simpa only [loop, if_neg notLast] using goesOn same bound equal enough
    exact reads_remaining further
  have pass : operatorsAt rank = (fun _ => none) → rank ≠ 9 → ∀ same : Expr, same.bare = expr.bare →
      Reads (Pure.pure same) after rest post := by
    intro noOperators notLast same equal
    exact (goesOn same (weight after) equal (Nat.le_refl _)).ofLoop fun kind _ => stops_idle noOperators notLast kind
  have avoids : ∀ other : TokenKind, rank < tight other → ∀ shown ∈ shows after, shown ≠ other := by
    rintro other tighter shown member rfl
    exact absurd (loose shown (fits shown member)) (Nat.not_le.mpr tighter)
  have shown := shows_append head after
  obtain rfl | rfl | rfl | rfl | rfl | rfl | rfl | rfl | rfl | rfl : rank = 0 ∨ rank = 1 ∨ rank = 2 ∨ rank = 3 ∨ rank = 4 ∨
    rank = 5 ∨ rank = 6 ∨ rank = 7 ∨ rank = 8 ∨ rank = 9 := by omega
  · refine .notEat (by simpa [shown] using unconditional rfl) ?_
    have passed := inner.bind (pass rfl (by decide))
    rwa [bind_pure] at passed
  · refine inner.bind fun same equal => .notLook (avoids .asKw (by decide)) ?_
    refine .notLook (avoids .isKw (by decide)) ?_
    exact pass rfl (by decide) same equal
  · exact chain rfl (by decide)
  · exact chain rfl (by decide)
  · exact chain rfl (by decide)
  · refine inner.bind fun same equal => .notLook (avoids .dotDot (by decide)) ?_
    exact pass rfl (by decide) same equal
  · exact chain rfl (by decide)
  · exact chain rfl (by decide)
  · refine reads_kind.bind fun first member => ?_
    obtain rfl : first = kind := by simpa [shown] using member
    have passed := inner.bind (pass rfl (by decide))
    rw [bind_pure] at passed
    simp only [unsigned rfl]
    exact passed
  · refine inner.bind fun same equal => ?_
    have further : ∀ bound, weight after ≤ bound → Reads (suffixes grammar bound same) after rest post :=
      (goesOn same · equal)
    exact reads_remaining further

theorem Yields.descendTo (yields : Yields grammar follow rank text expr) (small : rank ≤ 10) {position : Nat}
    (below : position ≤ rank) (loose : ∀ kind, follow kind → tight kind ≤ position)
    (head : text = .token kind lexeme :: more) (unsigned : 8 < rank → unaryOperator kind = none)
    (unconditional : 0 < rank → kind ≠ .ifKw) : Yields grammar follow position text expr := by
  induction rank with
  | zero =>
    obtain rfl := Nat.le_zero.mp below
    exact yields
  | succ rank ih =>
    rcases Nat.le_succ_iff.mp below with lower | rfl
    · have next := yields.descend small (fun kind follows => Nat.le_trans (loose kind follows) lower) head
        (fun last => unsigned (by omega)) (fun first => unconditional (by omega))
      exact ih next (by omega) lower (fun last => unsigned (by omega)) (fun first => unconditional (by omega))
    · exact yields

end Yields

theorem wordLiteral?_repr {value : Int32} (plain : 0 ≤ value) : wordLiteral? value.toNatClampNeg.repr = some value := by
  have each : ∀ digit ∈ Nat.toDigits 10 value.toNatClampNeg, digit.isDigit = true :=
    fun _ member => Nat.isDigit_of_mem_toDigits (by decide) (by decide) member
  have decimal : wordLiteral?.decimal (Nat.toDigits 10 value.toNatClampNeg) = some value := by
    have small : value.toNatClampNeg < UInt32.size / 2 := by
      exact Int32.toNatClampNeg_lt value
    have same : Int32.ofNat value.toNatClampNeg = value := Int32.ofNat_toNatClampNeg value plain
    rw [wordLiteral?.decimal, numeral?_toDigits (by decide) (by decide), Option.bind_some, if_pos small, same]
  rw [wordLiteral?, Nat.repr_eq_ofList_toDigits, String.toList_ofList]
  split
  · rename_i mark digits same
    rw [same] at each decimal
    have isDigit := each mark (by simp)
    rw [if_neg, decimal]
    rintro isMark
    simp only [Bool.or_eq_true, decide_eq_true_eq] at isMark
    rcases isMark with rfl | rfl <;> simp [Char.isDigit] at isDigit
  · exact decimal

end FplCompiler.Syntax
