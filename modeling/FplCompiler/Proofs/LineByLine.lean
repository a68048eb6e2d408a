import FplCompiler.Proofs.DeclaredPlaces
import FplCompiler.Proofs.PairedReading

/-! Reading statements side by side. A statement leads on, it leaves no half of a `>>` behind, and one that cannot have a
block leaves exactly its line, whether or not it can be read. -/

namespace FplCompiler

namespace Syntax

open TokenStream (Passes ofTokens)

variable {stream : TokenStream} {later : List Token} {stop : Token} {tracks : Tracks}

theorem dropLine_words (ends : stop.kind.endsLine = true) (words : List Token) :
    ∀ current rest, current :: rest = words ++ stop :: later →
      (TokenStream.dropLine current rest).1 :: (TokenStream.dropLine current rest).2 =
        words.dropWhile (!·.kind.endsLine) ++ stop :: later := by
  have test (token : Token) : (token.kind = .eol || token.kind = .eof) = token.kind.endsLine := by
    cases token with | mk kind => cases kind <;> rfl
  induction words with
  | nil =>
    rintro current rest ⟨⟩
    cases later with
    | nil => rfl
    | cons next more => simp [TokenStream.dropLine, test, ends]
  | cons word words ih =>
    intro current rest same
    obtain ⟨rfl, rfl⟩ := List.cons_eq_cons.mp same
    rcases tail : words ++ stop :: later with _ | ⟨next, more⟩
    · simp at tail
    · have inner := ih next more tail.symm
      cases ended : current.kind.endsLine
      · simpa [TokenStream.dropLine, test, ended, tail] using inner
      · simp [TokenStream.dropLine, test, ended, tail]

theorem skipLine_tokens {words : List Token}
    (tokens : stream.tokens = words ++ stop :: later) (ends : stop.kind.endsLine = true) :
    stream.skipLine.tokens = stepOver (words.dropWhile (!·.kind.endsLine) ++ stop :: later) := by
  rw [← dropLine_words ends words _ _ tokens]
  exact (bump_idle rfl).2.1

theorem dropLine_suffix (rest : List Token) : ∀ current,
    (TokenStream.dropLine current rest).1 :: (TokenStream.dropLine current rest).2 <:+ current :: rest := by
  induction rest with
  | nil => exact fun _ => List.suffix_refl _
  | cons next rest ih =>
    intro current
    rw [TokenStream.dropLine]
    split
    · exact List.suffix_refl _
    · exact (ih next).trans (List.suffix_cons _ _)

theorem skipLine_passes (stream : TokenStream) : Passes [] stream stream.skipLine :=
  Passes.trans (Passes.ofTokens (dropLine_suffix stream.rest stream.current) : Passes [] stream
    { stream with current := _, rest := _, pendingGreater := none }) (bump_passes _)

/-- What was left of a line is left on both sides: another line of the words begins, or the stop is left too. -/
structure Skipped (tracks : Tracks) (width : Nat) (s t : TokenStream) : Prop where
  place : (∃ count, s.tokens = tracks.after tracks.later count ∧ t.tokens = tracks.after tracks.later' count ∧
      tracks.words.length - count < width ∧ ∃ word ∈ tracks.words, word.kind.endsLine = true) ∨
    s.tokens = stepOver (tracks.stop :: tracks.later) ∧ t.tokens = stepOver (tracks.stop :: tracks.later')
  none : s.pendingGreater = none ∧ t.pendingGreater = none
  reports : ∃ more, s.diagnostics = tracks.reported ++ more ∧ t.diagnostics = tracks.reported' ++ more

variable {width : Nat} {before after failed : Pairing}

instance : Widens (Skipped tracks) where
  widen le skipped := by
    refine ⟨?_, skipped.none, skipped.reports⟩
    obtain ⟨count, left, right, near, ended⟩ | past := skipped.place
    · exact .inl ⟨count, left, right, by omega, ended⟩
    · exact .inr past

theorem skipLine_alike : ReadsAlike (Abreast tracks width) Nothing (fun _ => Skipped tracks width) skipLine skipLine := by
  intro s t abreast
  obtain ⟨⟨count, left, right, near⟩, -, more, reported, reported'⟩ := abreast
  have left := skipLine_tokens left tracks.ends
  have right := skipLine_tokens right tracks.ends
  change _ ∧ Skipped tracks width s.skipLine t.skipLine ∧ _
  refine ⟨rfl, ⟨?_, ⟨bump_none _, bump_none _⟩, more, (bump_idle rfl).2.2.trans reported,
    (bump_idle rfl).2.2.trans reported'⟩, [], rfl, skipLine_passes s⟩
  cases kept : (tracks.words.drop count).dropWhile (!·.kind.endsLine) with
  | nil =>
    rw [kept] at left right
    exact .inr ⟨left, right⟩
  | cons word more =>
    rw [kept, List.cons_append, stepOver_append] at left right
    have ended := List.head?_dropWhile_not (fun token : Token => !token.kind.endsLine) (tracks.words.drop count)
    have suffix : word :: more <:+ tracks.words.drop count := kept ▸ List.dropWhile_suffix _
    obtain ⟨front, same⟩ := suffix.trans (List.drop_suffix _ _)
    have short := suffix.length_le
    rw [kept] at ended
    rw [List.length_cons, List.length_drop] at short
    have rest : tracks.words.drop (front.length + 1) = more := by rw [← same]; simp
    have size : tracks.words.length = front.length + (more.length + 1) := by rw [← same]; simp
    refine .inl ⟨front.length + 1, ?_, ?_, by omega, word, ?_, by simpa using ended⟩
    · rw [left, Tracks.after, rest]
    · rw [right, Tracks.after, rest]
    · rw [← same]
      exact List.mem_append_right _ List.mem_cons_self

theorem reportHere_alike {cause : Cause} :
    Keeps (Abreast tracks width) Nothing (reportHere cause) (reportHere cause) :=
  peek_alike.bind fun token => report_alike cause token.span

theorem expectEndOfLine_alike :
    ReadsAlike (Abreast tracks width) Nothing (fun _ => Skipped tracks width) expectEndOfLine expectEndOfLine := by
  refine (looksAt_alike .eol).bind fun found => ?_
  cases found
  · change ReadsAlike (Abreast tracks width) _ _ _ _
    exact peek_alike.bind fun token => (report_alike _ _).bind fun _ => skipLine_alike
  · exact skipLine_alike.given fun _ _ => And.left

class Uncounted (goal : Nat → Pairing) : Prop where
  recount {width count count' : Nat} {s t : TokenStream} : goal width s t →
    goal width { s with statementCount := count } { t with statementCount := count' }

instance : Uncounted (Skipped tracks) := ⟨fun skipped => ⟨skipped.place, skipped.none, skipped.reports⟩⟩
instance : Uncounted (Ready tracks) := ⟨fun ready => ⟨⟨ready.place, ready.waiting, ready.reports⟩, ready.none⟩⟩

variable {shape : StmtShape} {span : Span} {fact : Stmt → List Span → Prop}

theorem newStmt_alike {goal : Nat → Pairing} [Uncounted goal] (found : fact (.mk shape span) []) :
    Keeps (goal width) fact (newStmt shape span) (newStmt shape span) :=
  .same found (fun _ _ start => Uncounted.recount start) fun _ => rfl

theorem ParsesAlike.endLine (found : fact (.mk shape span) []) : Reaches tracks fact (Skipped tracks) width
    (do expectEndOfLine; newStmt shape span) (do expectEndOfLine; newStmt shape span) :=
  .read expectEndOfLine_alike fun _ => .lift (newStmt_alike found)

theorem statement_zero [OnWords tracks width before] (grammar other : Grammar) :
    ReadsAlike before Stands (fun _ => Skipped tracks width) (statement grammar 0) (statement other 0) :=
  peek_alike.bind fun _ => (skipLine_alike.given fun _ _ => OnWords.abreast).bind fun _ => newStmt_alike ⟨rfl, trivial⟩

theorem recovered_alike {parser other : Parser Stmt} (span : Span)
    (alike : ParsesAlike before Stands after (Abreast tracks width) parser other)
    (leaves : ∀ s t, Skipped tracks width s t → after s t) :
    ReadsAlike before Stands (fun _ => after) (recovered span parser) (recovered span other) := by
  -- What was taken for a statement that fails in the end is not declared.
  have begins : ReadsAlike before
      (fun result taken => OnSuccess Stands result taken ∧ (result.isOk = false → taken = []))
      (fun result => if result.isOk then after else Abreast tracks width) parser.run other.run := by
    intro s t start
    obtain ⟨same, holds, taken, found, passes⟩ := alike s t start
    refine ⟨same, holds, ?_⟩
    cases result : (parser.run s).1 with
    | error fault => exact ⟨[], ⟨by rintro _ ⟨⟩, fun _ => rfl⟩, passes.none⟩
    | ok value => exact ⟨taken, ⟨result ▸ found, by rintro ⟨⟩⟩, passes⟩
  refine begins.take fun result taken found => ?_
  cases result with
  | error fault =>
    rw [found.2 rfl]
    have counted : Keeps (Abreast tracks width) Nothing
        (modify fun stream => { stream with recoveries := stream.recoveries ++ [fault.cause] } : Reader Unit)
        (modify fun stream => { stream with recoveries := stream.recoveries ++ [fault.cause] }) :=
      .same rfl (fun _ _ abreast => ⟨abreast.place, abreast.waiting, abreast.reports⟩) fun _ => rfl
    refine counted.bind fun _ => (report_alike _ _).bind fun _ => skipLine_alike.bind fun _ => ?_
    exact (newStmt_alike ⟨rfl, trivial⟩).mono (fun _ _ => id) fun _ => leaves
  | ok value => exact .pure (by rw [List.append_nil]; exact found.1 value rfl) fun _ _ => id

def LineRule (tracks : Tracks) (kind : TokenKind) (parser : Grammar → Parser Stmt) : Prop :=
  ∀ ⦃width : Nat⦄ ⦃grammar other : Grammar⦄, Agree tracks width grammar other →
    ReachesAt tracks kind Stands (Skipped tracks) width (parser grammar)
      (parser other)

theorem optionalType_rule : Rule tracks optionalType :=
  fun agree => .eats (tracks.inner rfl) (fun narrow less => (agree.type narrow less).bind fun _ => .pure) .pure

theorem variableStatement_rule {kind : TokenKind} (plain : kind.endsLine = false) :
    LineRule tracks kind variableStatement := by
  intro _ _ _ agree
  refine .step plain fun narrow less token => ParsesAlike.bind (.token rfl) fun name => ?_
  refine (optionalType_rule (agree.closer (by omega))).bind fun type => ?_
  refine .eats (tracks.inner rfl) (fun closer nearer => ?_) (.endLine ⟨rfl, trivial⟩)
  exact ParsesAlike.bind ((agree.expression closer (by omega)).bind fun _ => .pure) fun value => .endLine ⟨rfl, trivial⟩

theorem constStatement_rule : LineRule tracks .constKw constStatement := by
  intro _ _ _ agree
  refine .step rfl fun narrow less token => ParsesAlike.bind (.token rfl) fun name => ?_
  refine (optionalType_rule (agree.closer (by omega))).bind fun type => .pass rfl fun closer nearer => ?_
  exact (agree.expression closer (by omega)).bind fun value => .endLine ⟨rfl, trivial⟩

theorem parameterKind_alike (forConstructor : Bool) : Keeps (Abreast tracks width) Nothing
    (parameterKind forConstructor) (parameterKind forConstructor) := by
  change ReadsAlike _ _ _ (kind >>= fun kind => if kind == .valKw || kind == .varKw then _ else _)
    (kind >>= fun kind => if kind == .valKw || kind == .varKw then _ else _)
  refine kind_alike.bind fun kind => ?_
  split
  next found =>
    have plain : kind.endsLine = false := by
      rcases Bool.or_eq_true_iff.mp found with is | is <;> rw [eq_of_beq is] <;> rfl
    refine ReadsAlike.bind (bump_alike (tracks.inner plain)) fun token => ?_
    cases forConstructor
    · exact ((report_alike _ _).given fun _ _ nearer => nearer.wide.toAbreast).bind fun _ => .pure rfl fun _ _ => id
    · exact .pure rfl fun _ _ nearer => nearer.wide.toAbreast
  next => exact .pure rfl fun _ _ => And.left

theorem parameter_rule (forConstructor : Bool) : Rule tracks (parameter · forConstructor) :=
  fun agree => .read (parameterKind_alike forConstructor) fun _ => ParsesAlike.bind (.token rfl) fun _ =>
    .pass rfl fun narrow less => (agree.type narrow less).bind fun _ => .pure

theorem parameterList_rule (forConstructor : Bool) : Rule tracks (parameterList · forConstructor) := by
  intro _ _ _ agree
  refine .pass rfl fun narrow less => ?_
  change ParsesAlike _ _ _ _ ((liftM kind : Parser TokenKind) >>= fun kind =>
    if kind == .closeRound || kind == .dotDotDot then _ else _)
    ((liftM kind : Parser TokenKind) >>= fun kind => if kind == .closeRound || kind == .dotDotDot then _ else _)
  have none : Walks tracks narrow (pure [] : Parser (List Parameter)) (pure []) := .pure
  have some := separated_walks fun closer (le : closer ≤ narrow) =>
    parameter_rule forConstructor (agree.closer (Nat.le_of_lt (Nat.lt_of_le_of_lt le less)))
  refine .ofKind fun kind => ?_
  split
  case' isTrue => refine (none.bind fun parameters => ?_).known
  case' isFalse => refine (some.bind fun parameters => ?_).known
  all_goals
    refine (eat_walks rfl).bind fun isVararg => .pass rfl fun closer nearer => ?_
    split
    · exact ParsesAlike.bind (.lift reportHere_alike) fun _ => .pure
    · exact .pure

theorem optionalParameters_rule : Rule tracks optionalParameters :=
  fun agree => .choose ((parameterList_rule true agree).bind fun _ => .pure).known .pure

theorem typeParameters_walks : Walks tracks width typeParameters typeParameters :=
  .eats (tracks.inner rfl) (fun _ _ => (separated_walks fun _ _ => .token rfl).bind fun _ =>
    expectGreater_walks.bind fun _ => .pure) .pure

theorem enumValue_rule : Rule tracks enumValue :=
  fun agree => ParsesAlike.bind (.token rfl) fun _ =>
    .choose ((delimited_strides rfl rfl agree.expression).wide.bind fun _ => .pure).known .pure

theorem enumStatement_rule : LineRule tracks .enumKw enumStatement := by
  intro _ _ _ agree
  refine .step rfl fun narrow less token => ParsesAlike.bind (.token rfl) fun name => ?_
  refine (optionalParameters_rule (agree.closer (by omega))).bind fun parameters => ?_
  exact (delimited_strides rfl rfl fun closer nearer => enumValue_rule (agree.closer (by omega))).wide.bind fun _ =>
    .endLine ⟨rfl, trivial⟩

theorem expressionStatement_rule {kind : TokenKind} : LineRule tracks kind expressionStatement := by
  intro _ _ _ agree
  refine (ParsesAlike.ofPeek fun token => (suffixed_rule agree).bind fun target => .ofKind fun kind => ?_).known
  split
  next => exact (ParsesAlike.endLine ⟨rfl, trivial⟩).known
  next operator found =>
    refine .step (plain_of_found ⟨rfl, rfl⟩ found) fun narrow less token => ?_
    exact (agree.expression narrow less).bind fun value => .endLine ⟨rfl, trivial⟩

theorem printStatement_rule : LineRule tracks .printKw printStatement :=
  fun _ _ _ agree => .step rfl fun _ less _ =>
    (delimited_strides rfl rfl (agree.closer (Nat.le_of_lt less)).expression).wide.bind fun _ => .endLine ⟨rfl, trivial⟩

theorem freeStatement_rule : LineRule tracks .freeKw freeStatement :=
  fun _ _ _ agree => .step rfl fun narrow less _ => (agree.expression narrow less).bind fun _ => .endLine ⟨rfl, trivial⟩

structure Tracks.Closed (tracks : Tracks) : Prop where
  eof : tracks.stop.kind = .eof
  left : tracks.later = []
  right : tracks.later' = []

theorem At.ready {kind : TokenKind} {s t : TokenStream} (place : At (Abreast tracks width) kind s t) (other : kind ≠ .gt) :
    Ready tracks width s t := by
  refine ⟨place.1, Option.eq_none_iff_forall_ne_some.mpr fun span waits => other ?_⟩
  rw [← place.2, TokenStream.kind, waits]
  rfl

theorem report_ready (cause : Cause) (span : Span) :
    Keeps (Ready tracks width) Nothing (report cause span) (report cause span) := by
  intro s t ready
  obtain ⟨same, place, passes⟩ := report_alike cause span s t ready.toAbreast
  exact ⟨same, ⟨place, ready.none⟩, passes⟩

section

variable (closed : tracks.Closed)
variable {grammar' grammar : Grammar} {bound narrow : Nat} {limit : Nat}

include closed

theorem Tracks.Closed.inner {kind : TokenKind} (other : kind ≠ .eof) : kind ≠ tracks.stop.kind :=
  closed.eof ▸ other

theorem Skipped.ready {s t : TokenStream} (skipped : Skipped tracks width s t) : Ready tracks (width - 1) s t := by
  obtain ⟨place, ⟨left, right⟩, reports⟩ := skipped
  refine ⟨⟨?_, right.trans left.symm, reports⟩, left⟩
  rw [left]
  obtain ⟨count, first, second, near, -⟩ | ⟨first, second⟩ := place
  · exact ⟨count, first, second, by simp; omega⟩
  · refine ⟨tracks.words.length, ?_, ?_, by simp⟩
    · rw [first, Tracks.after, closed.left, List.drop_length]
      rfl
    · rw [second, Tracks.after, closed.right, List.drop_length]
      rfl

theorem bump_closed : Keeps (Ready tracks width) Nothing bump bump := by
  intro s t ready
  obtain ⟨left, leftTokens, leftReports⟩ := bump_idle ready.none
  obtain ⟨right, rightTokens, rightReports⟩ := bump_idle (ready.waiting.trans ready.none)
  obtain ⟨count, first, second, near⟩ := ready.place
  obtain ⟨more, reported, reported'⟩ := ready.reports
  refine ⟨right.trans (ready.current.trans left.symm), ⟨⟨?_, (bump_none t).trans (bump_none s).symm, more,
    leftReports.trans reported, rightReports.trans reported'⟩, bump_none s⟩, [], rfl, bump_passes s⟩
  change ∃ count, s.bump.2.tokens = _ ∧ t.bump.2.tokens = _ ∧ _ + (if s.bump.2.pendingGreater.isSome then 1 else 0) ≤ _
  rw [ready.none] at near
  rw [leftTokens, rightTokens, first, second, bump_none s]
  rcases tracks.ahead count with ⟨word, -, next⟩ | ⟨-, next⟩
  · have step (later : List Token) : stepOver (tracks.after later count) = tracks.after later (count + 1) :=
      (congrArg stepOver (next later)).trans (stepOver_append _ _ _ _)
    exact ⟨count + 1, step _, step _, Nat.le_trans (Nat.add_le_add_right (by omega) _) near⟩
  · refine ⟨count, ?_, ?_, near⟩
    · rw [next, closed.left]
      rfl
    · rw [next, closed.right]
      rfl

theorem expectEndOfLine_ready :
    ReadsAlike (Abreast tracks width) Nothing (fun _ => Ready tracks width) expectEndOfLine expectEndOfLine :=
  expectEndOfLine_alike.mono (fun _ _ => id) fun _ _ _ skipped => Widens.widen (Nat.sub_le _ _) (skipped.ready closed)

theorem closeWith_alike (kind : TokenKind) :
    Keeps (Ready tracks width) Nothing (closeWith kind) (closeWith kind) := by
  refine .choose ?_ (.pure rfl fun _ _ => id)
  refine ReadsAlike.bind (bump_alike (tracks.inner rfl)) fun stop => ?_
  refine ((bump_closed closed).given fun _ _ => Nearer.wide).bind fun closing => ?_
  have ends : Keeps (Ready tracks width) Nothing expectEndOfLine expectEndOfLine :=
    (expectEndOfLine_ready closed).given fun _ _ => Ready.toAbreast
  split
  · split
    · exact (report_ready _ _).bind fun _ => ends
    · exact ends
  · exact .pure rfl fun _ _ => id

theorem ParsesAlike.close {kind : TokenKind} (found : fact (.mk shape span) []) : ParsesAlike (Ready tracks width) fact
    (Ready tracks width) failed (do closeWith kind; newStmt shape span) (do closeWith kind; newStmt shape span) :=
  .read (closeWith_alike closed kind) fun _ => .lift (newStmt_alike found)

omit closed in
def Items (tracks : Tracks) (width : Nat) (item other : Reader Stmt) : Prop :=
  ∀ narrow < width, ReadsAlike (Abreast tracks narrow) Stands (fun _ => Ready tracks (narrow - 1)) item other

variable {item other : Reader Stmt}

omit closed in
theorem Items.closer (items : Items tracks width item other) (le : narrow ≤ width) :
    Items tracks narrow item other :=
  fun closer less => items closer (by omega)

omit closed in
theorem Items.single (items : Items tracks width item other) (less : narrow < width) :
    ReadsAlike (Abreast tracks narrow) StandIn (fun _ => Ready tracks narrow) (do pure [← item]) (do pure [← other]) :=
  (items narrow less).take fun _ _ one => .pure (.cons one ⟨rfl, trivial⟩) fun _ _ => Widens.widen (Nat.sub_le _ _)

theorem loop_alike (loop : Reader Stmt → Nat → Reader (List Stmt)) (ends : TokenKind → Bool)
    (goal : Nat → Pairing) [Widens goal] (unfolds : ∀ item bound, loop item (bound + 1) =
      kind >>= fun kind => if ends kind then pure [] else do return (← item) :: (← loop item bound))
    (eof : ends .eof = true) (leaves : ∀ {width s t}, Abreast tracks width s t → ends s.kind = true → goal width s t)
    (items : Items tracks (width + 1) item other) (enough : width < bound) (enough' : width < limit) :
    ReadsAlike (Abreast tracks width) StandIn (fun _ => goal width) (loop item bound) (loop other limit) := by
  induction bound generalizing width limit with
  | zero => omega
  | succ bound ih =>
    obtain ⟨limit, rfl⟩ : ∃ less, limit = less + 1 := ⟨limit - 1, by omega⟩
    rw [unfolds, unfolds]
    refine kind_alike.bind fun kind => ?_
    split
    next found => exact .pure ⟨rfl, trivial⟩ fun s t place => leaves place.1 (place.2 ▸ found)
    next missing =>
      have inner : kind ≠ tracks.stop.kind := closed.inner fun is => missing (is ▸ eof)
      rcases width with _ | width
      · exact fun s t place => absurd (place.1.bump (place.2 ▸ inner)).2.1 (Nat.lt_irrefl 0)
      · refine ((items _ (by omega)).given fun _ _ => And.left).take fun first taken one => ?_
        have rests := ih (items.closer (by omega)) (show width < bound by omega) (show width < limit by omega)
        refine (rests.given fun _ _ => Ready.toAbreast).take fun rest more others => ?_
        exact .pure (by rw [List.append_nil]; exact .cons one others) fun _ _ => Widens.widen (Nat.le_succ _)

theorem untilDedent_alike (items : Items tracks (width + 1) item other) (enough : width < bound)
    (enough' : width < limit) : ReadsAlike (Abreast tracks width) StandIn (fun _ => Ready tracks width)
      (untilDedent item bound) (untilDedent other limit) := by
  refine loop_alike closed untilDedent (fun kind => kind == .dedent || kind == .eof) (Ready tracks) (fun _ _ => rfl) rfl
    (fun {_ s _} place found => At.ready ⟨place, rfl⟩ ?_) items enough enough'
  intro is
  rw [is] at found
  cases found

theorem untilEndOfFile_alike (items : Items tracks (width + 1) item other) (enough : width < bound)
    (enough' : width < limit) : ReadsAlike (Abreast tracks width) StandIn (fun _ => At (Abreast tracks width) .eof)
      (untilEndOfFile item bound) (untilEndOfFile other limit) :=
  loop_alike closed untilEndOfFile (· == .eof) (fun width => At (Abreast tracks width) .eof) (fun _ _ => rfl) rfl
    (fun place found => ⟨place, eq_of_beq found⟩) items enough enough'

theorem indented_alike (items : Items tracks (width + 1) item other) :
    Keeps (Ready tracks width) StandIn (indented item) (indented other) := by
  refine .choose ?_ ((peek_alike.bind fun token => report_ready _ _).bind fun _ => .pure ⟨rfl, trivial⟩ fun _ _ => id)
  refine ReadsAlike.bind (bump_alike (tracks.inner rfl)).discard fun _ => .ofGet fun s t nearer => ?_
  obtain ⟨narrow, near, left, right, place⟩ := nearer.wide.toAbreast.narrow
  have inside := untilDedent_alike closed (items.closer (by omega)) (Nat.lt_succ_of_le left) (Nat.lt_succ_of_le right)
  refine (inside.given (by rintro _ _ ⟨rfl, rfl⟩; exact place)).take fun body taken stand => ?_
  have last : StandIn body (taken ++ []) := by rwa [List.append_nil]
  have ends : ReadsAlike (Ready tracks narrow) Nothing
      (fun result => if result.isOk then Nearer (Ready tracks) narrow else Ready tracks narrow) (expect .dedent).run
      (expect .dedent).run :=
    (ParsesAlike.expect rfl).run
  refine ends.bind fun result => ?_
  cases result with
  | error fault => exact (report_ready _ _).bind fun _ => .pure last fun _ _ => Widens.widen near
  | ok token => exact .pure last fun _ _ nearer => Widens.widen near nearer.wide

theorem thenOrBlock_reaches (items : Items tracks (width + 1) item other) :
    Reaches tracks StandIn (Ready tracks) width (thenOrBlock item) (thenOrBlock other) := by
  refine .eats (tracks.inner rfl) (fun narrow less => .lift (items.single (by omega))) ?_
  refine ParsesAlike.read (eat_alike (closed.inner (by decide))) fun found => ?_
  cases found
  · change ParsesAlike (Abreast tracks width) _ _ _ _ _
    exact .failHere fun _ => .expectedThenOrEndOfLine
  · exact .lift ((indented_alike closed items).given fun _ _ => Nearer.wide)

def BlockRule (tracks : Tracks) (kind : TokenKind) (parser : Grammar → Reader Stmt → Parser Stmt) : Prop :=
  ∀ ⦃width : Nat⦄ ⦃grammar other : Grammar⦄ ⦃item item' : Reader Stmt⦄, Agree tracks width grammar other →
    Items tracks width item item' →
      ReachesAt tracks kind Stands (Nearer (Ready tracks)) width (parser grammar item) (parser other item')

theorem conditionClauses_reaches (agree : Agree tracks width grammar grammar')
    (items : Items tracks width item other) {kind : TokenKind} (plain : kind.endsLine = false)
    (enough : width < bound) (enough' : width < limit) :
    ReachesAt tracks kind LeadClauses (Nearer (Ready tracks)) width
      (conditionClauses grammar item bound) (conditionClauses grammar' other limit) := by
  induction bound generalizing width limit kind with
  | zero => omega
  | succ bound ih =>
    obtain ⟨limit, rfl⟩ : ∃ less, limit = less + 1 := ⟨limit - 1, by omega⟩
    refine .stride plain fun narrow less token => (agree.expression narrow less).bind fun condition => ?_
    refine ParsesAlike.take (thenOrBlock_reaches closed (items.closer less)) fun body taken stand => ?_
    have rest := ih (agree.closer (Nat.le_of_lt less)) (items.closer (by omega)) (rfl : TokenKind.elsifKw.endsLine = false)
      (show narrow < bound by omega) (show narrow < limit by omega)
    refine .choose ((rest.wide.given fun _ _ place => ⟨place.1.toAbreast, place.2⟩).take fun clauses more lead => .done ?_)
      (.done (.cons stand fun _ _ others => others))
    rw [List.append_nil]
    exact .cons stand lead

theorem elseClause_alike (items : Items tracks (width + 1) item other) :
    Keeps (Ready tracks width) StandInClauses (elseClause item) (elseClause other) := by
  refine .choose ?_ (.pure ⟨rfl, trivial⟩ fun _ _ => id)
  refine ReadsAlike.bind (bump_alike (tracks.inner rfl)) fun token => ?_
  refine ReadsAlike.bind ((eat_alike (closed.inner (by decide))).given fun _ _ => Nearer.wide) fun found => ?_
  cases found
  · refine ReadsAlike.take ((items width (Nat.lt_succ_self _)).given fun _ _ => Ready.toAbreast) fun stmt taken one => ?_
    exact .pure one.single.closes fun _ _ => Widens.widen (Nat.sub_le _ _)
  · refine ReadsAlike.take ((indented_alike closed items).given fun _ _ => Nearer.wide) fun body taken stand => ?_
    exact .pure stand.closes fun _ _ => id

theorem ifStatement_rule : BlockRule tracks .ifKw ifStatement := by
  intro _ _ _ _ _ agree items
  refine .ofPeek fun token => .boundedAt fun narrow le s t left right => ?_
  refine ParsesAlike.take (conditionClauses_reaches closed (agree.closer le) (items.closer le) rfl (Nat.lt_succ_of_le left)
    (Nat.lt_succ_of_le right)) fun clauses taken lead => .nearer fun closer less => ?_
  refine ParsesAlike.take (.lift (elseClause_alike closed (items.closer (by omega)))) fun last more others =>
    .close closed ?_
  rw [List.append_nil]
  exact lead last more others

theorem whileStatement_rule : BlockRule tracks .whileKw whileStatement :=
  fun _ _ _ _ _ agree items => .stride rfl fun narrow less _ => (agree.expression narrow less).bind fun _ =>
    ParsesAlike.take (thenOrBlock_reaches closed (items.closer less)) fun _ _ stand => .close closed (.of stand)

theorem repeatStatement_rule : BlockRule tracks .repeatKw repeatStatement := by
  intro _ _ _ _ _ agree items
  refine .stride rfl fun narrow less token => .read (expectEndOfLine_ready closed) fun _ => ?_
  refine ParsesAlike.take (.lift (indented_alike closed (items.closer less))) fun body taken stand => ParsesAlike.ready ?_
  refine .pass rfl fun closer nearer => (agree.expression closer (by omega)).bind fun condition => ?_
  exact .read (expectEndOfLine_ready closed) fun _ => .lift (newStmt_alike (.of stand))

theorem forStatement_rule : BlockRule tracks .forKw forStatement := by
  intro _ _ _ _ _ agree items
  refine .stride rfl fun narrow less token => ParsesAlike.bind (.token rfl) fun name => .pass rfl fun closer nearer => ?_
  refine (agree.expression closer (by omega)).bind fun iterable => ?_
  exact ParsesAlike.take (thenOrBlock_reaches closed (items.closer (by omega))) fun _ _ stand => .close closed (.of stand)

theorem functionStatement_rule : BlockRule tracks .funKw functionStatement := by
  intro _ _ _ _ _ agree items
  refine .declare rfl fun narrow less token => expectName_walks.bind fun name => ?_
  refine (parameterList_rule false (agree.closer (Nat.le_of_lt less))).bind fun head => ?_
  obtain ⟨parameters, isVararg⟩ := head
  have none : Walks tracks narrow (pure none : Parser (Option TypeExpr)) (pure none) := .pure
  refine .eats (tracks.inner rfl)
    (fun closer nearer => ParsesAlike.bind ((agree.type closer (by omega)).bind fun _ => .pure)
    fun type => ?_) (none.bind fun type => ?_)
  all_goals
    refine .read (expectEndOfLine_ready closed) fun _ => ?_
    refine ParsesAlike.take (.lift (indented_alike closed (items.closer (by omega)))) fun body taken stand =>
      .close closed ?_
    exact stand.declares (by rw [Stmt.places]) (by rw [Stmt.ElseLast])

theorem LineRule.leave {kind : TokenKind} {parser : Grammar → Parser Stmt} (rule : LineRule tracks kind parser)
    (agree : Agree tracks width grammar grammar') :
    ParsesAlike (At (Abreast tracks width) kind) Stands (Ready tracks (width - 1)) (Abreast tracks width) (parser grammar)
      (parser grammar') :=
  (rule agree).mono (fun _ _ => id) (fun _ _ => Skipped.ready closed) (fun _ _ => id)

omit closed in
theorem BlockRule.lead {kind : TokenKind} {parser : Grammar → Reader Stmt → Parser Stmt}
    (rule : BlockRule tracks kind parser)
    (agree : Agree tracks width grammar grammar') (items : Items tracks width item other) :
    ParsesAlike (At (Abreast tracks width) kind) Stands (Ready tracks (width - 1)) (Abreast tracks width)
      (parser grammar item) (parser grammar' other) :=
  (rule agree items).mono (fun _ _ => id) (fun _ _ => And.right) (fun _ _ => id)

theorem classMember_items (agree : Agree tracks width grammar grammar')
    (items : Items tracks width item other) :
    Items tracks width (classMember grammar item) (classMember grammar' other) := by
  intro narrow less
  have agree := agree.closer (Nat.le_of_lt less)
  refine ReadsAlike.bind peek_alike fun token => recovered_alike token.span
    (?_ : ParsesAlike _ _ _ (Abreast tracks narrow) _ _) fun s t => Skipped.ready closed
  refine .ofKind fun kind => ?_
  split
  case h_1 | h_2 => exact (variableStatement_rule rfl).leave closed agree
  · exact (functionStatement_rule closed).lead agree (items.closer (Nat.le_of_lt less))
  · exact ParsesAlike.mono (.failHere fun token => .notAllowedInClass token.lexeme) (fun _ _ => id) (fun _ _ => id)
      fun _ _ => And.left

theorem classStatement_rule : BlockRule tracks .classKw classStatement := by
  intro _ _ _ _ _ agree items
  refine .declare rfl fun narrow less token => ParsesAlike.bind (.token rfl) fun name =>
    typeParameters_walks.bind fun names => ?_
  refine (optionalParameters_rule (agree.closer (Nat.le_of_lt less))).bind fun parameters => ?_
  have members := (classMember_items closed agree items).closer less
  refine .read (expectEndOfLine_ready closed) fun _ => .choose ?_ (.close closed ⟨rfl, trivial⟩)
  refine ParsesAlike.take (.lift ((indented_alike closed members).given fun _ _ => And.left)) fun body taken stand => ?_
  exact .close closed (stand.declares (by rw [Stmt.places]) (by rw [Stmt.ElseLast]))

theorem whenClause_reaches (agree : Agree tracks (width + 1) grammar grammar') (items : Items tracks width item other) :
    Reaches tracks LeadCase (Nearer (Ready tracks)) width (whenClause grammar item) (whenClause grammar' other) := by
  refine .ofPeek fun token => .eats (tracks.inner rfl) (fun narrow less => ?_) ?_
  case' refine_1 =>
    have none : Walks tracks narrow (pure [] : Parser (List Expr)) (pure []) := .pure
    refine none.bind fun values => ?_
  case' refine_2 =>
    refine (separated_walks fun narrow le => agree.expression narrow (by omega)).bind fun values => ?_
  all_goals
    refine .passed rfl fun closer nearer => .choose ?_ ?_
    · refine .read ((expectEndOfLine_ready closed).given fun _ _ => And.left) fun _ => ?_
      exact ParsesAlike.take (.lift (indented_alike closed (items.closer (by omega)))) fun body taken stand =>
        .done stand.leadCase
    · refine ParsesAlike.take (.lift ((items closer (by omega)).mono (fun _ _ => id) fun _ _ _ => ?_)) fun stmt taken one =>
        .done one.single.leadCase
      exact Widens.widen (Nat.sub_le _ _)

theorem whenClauses_reaches (agree : Agree tracks (width + 1) grammar grammar')
    (items : Items tracks width item other) (enough : width < bound) (enough' : width < limit) :
    Reaches tracks StandInCases (Ready tracks) width (whenClauses grammar item bound)
        (whenClauses grammar' other limit) := by
  induction bound generalizing width limit with
  | zero => omega
  | succ bound ih =>
    obtain ⟨limit, rfl⟩ : ∃ less, limit = less + 1 := ⟨limit - 1, by omega⟩
    change Reaches _ _ _ _ ((liftM kind : Parser TokenKind) >>= fun kind =>
      if kind == .dedent || kind == .eof then _ else _)
      ((liftM kind : Parser TokenKind) >>= fun kind => if kind == .dedent || kind == .eof then _ else _)
    refine .ofKind fun kind => ?_
    split
    next found =>
      refine ParsesAlike.given (.done ⟨rfl, trivial⟩) fun s t place => place.ready ?_
      rcases Bool.or_eq_true_iff.mp found with is | is <;> rw [eq_of_beq is] <;> decide
    next missing =>
      refine ParsesAlike.known (ParsesAlike.wide ?_)
      refine ParsesAlike.take (whenClause_reaches closed agree items) fun first taken lead => .nearer fun narrow less => ?_
      have rest := ih (agree.closer (by omega)) (items.closer (Nat.le_of_lt less)) (show narrow < bound by omega)
        (show narrow < limit by omega)
      refine ParsesAlike.take rest.ready fun clauses more others => .done ?_
      rw [List.append_nil]
      exact lead clauses more others

theorem whenStatement_rule : BlockRule tracks .whenKw whenStatement := by
  intro _ _ _ _ _ agree items
  refine .stride rfl fun narrow less token => (agree.expression narrow less).bind fun subject => ?_
  refine .read (expectEndOfLine_ready closed) fun _ => .read (eat_alike (tracks.inner rfl)) fun found => ?_
  cases found
  · change ParsesAlike (Ready tracks narrow) _ _ _ _ _
    exact .read (peek_alike.bind fun token => report_ready _ _) fun _ => .close closed ⟨rfl, trivial⟩
  · refine (ParsesAlike.nearer fun closer nearer => ParsesAlike.ready (.bounded fun closest le s t left right => ?_)).wide
    refine ParsesAlike.take (whenClauses_reaches closed (agree.closer (by omega)) (items.closer (by omega))
      (Nat.lt_succ_of_le left) (Nat.lt_succ_of_le right)) fun clauses taken stand => ?_
    refine ParsesAlike.bind (ParsesAlike.mono (ParsesAlike.expect rfl).discard (fun _ _ => id) (fun _ _ => Nearer.wide)
      fun _ _ => Ready.toAbreast) fun _ => .close closed ?_
    rw [List.append_nil]
    exact stand

theorem statementRule_alike (agree : Agree tracks width grammar grammar')
    (items : Items tracks width item other) : ReadsAlike (Abreast tracks width) Stands (fun _ => Ready tracks (width - 1))
      (statementRule grammar item) (statementRule grammar' other) := by
  refine ReadsAlike.bind peek_alike fun token => recovered_alike token.span
    (?_ : ParsesAlike _ _ _ (Abreast tracks width) _ _) fun s t => Skipped.ready closed
  refine .ofKind fun kind => ?_
  split
  · exact (variableStatement_rule rfl).leave closed agree
  · exact (variableStatement_rule rfl).leave closed agree
  · exact constStatement_rule.leave closed agree
  · exact (functionStatement_rule closed).lead agree items
  · exact (classStatement_rule closed).lead agree items
  · exact enumStatement_rule.leave closed agree
  · exact (ifStatement_rule closed).lead agree items
  · exact (whileStatement_rule closed).lead agree items
  · exact (repeatStatement_rule closed).lead agree items
  · exact (forStatement_rule closed).lead agree items
  · exact (whenStatement_rule closed).lead agree items
  · exact printStatement_rule.leave closed agree
  · exact freeStatement_rule.leave closed agree
  · exact expressionStatement_rule.leave closed agree

theorem statement_items (agree : Agree tracks width grammar grammar') {depth depth' : Nat}
    (enough : depth = depth' ∨ width ≤ depth ∧ width ≤ depth') :
    Items tracks width (statement grammar depth) (statement grammar' depth') := by
  induction depth generalizing width depth' with
  | zero =>
    rcases enough with rfl | none
    · exact fun narrow less => (statement_zero grammar grammar').mono (fun _ _ => id) fun _ _ _ => Skipped.ready closed
    · exact fun _ _ => by omega
  | succ depth ih =>
    rcases depth' with _ | depth'
    · exact fun _ _ => by omega
    · exact fun narrow less => statementRule_alike closed (agree.closer (Nat.le_of_lt less))
        (ih (agree.closer (Nat.le_of_lt less)) (by omega))

end

theorem ofTokens_ends (tokens : List Token) : ∃ front stop, (ofTokens tokens).tokens = front ++ [stop] ∧
    stop.kind = .eof ∧ (tokens = front ++ [stop] ∨ tokens = front) := by
  unfold ofTokens TokenStream.tokens
  split
  next ends =>
    obtain ⟨stop, last, kind⟩ := Option.map_eq_some_iff.mp ends
    obtain ⟨front, same⟩ := List.getLast?_eq_some_iff.mp last
    refine ⟨front, stop, ?_, kind, .inl same⟩
    cases tokens with
    | nil => cases last
    | cons first rest => exact same
  next =>
    refine ⟨tokens, ⟨.eof, TokenKind.eof.text, (tokens.getLast?.map Token.span).getD Span.nowhere⟩, ?_, rfl, .inr rfl⟩
    cases tokens <;> rfl

def TokenStream.EndsFile (stream : TokenStream) : Prop :=
  ∃ words stop, stream.tokens = words ++ [stop] ∧ stop.kind = .eof

theorem TokenStream.EndsFile.abreast {s t : TokenStream} (ends : s.EndsFile) (same : t.tokens = s.tokens)
    (waiting : t.pendingGreater = s.pendingGreater) : ∃ tracks : Tracks, tracks.Closed ∧ tracks.reported = s.diagnostics ∧
      tracks.reported' = t.diagnostics ∧ Abreast tracks s.remaining s t := by
  obtain ⟨words, stop, tokens, eof⟩ := ends
  refine ⟨⟨words, stop, by rw [eof]; rfl, [], [], s.diagnostics, t.diagnostics⟩, ⟨eof, rfl, rfl⟩, rfl, rfl,
    ⟨0, tokens, same.trans tokens, ?_⟩, waiting, [], (List.append_nil _).symm, (List.append_nil _).symm⟩
  have size := congrArg List.length tokens
  simp only [TokenStream.tokens, List.length_cons, List.length_append, List.length_nil] at size
  unfold TokenStream.remaining
  simp only [Nat.sub_zero]
  omega

theorem statements_alike {tokens : List Token} {depth nesting bound : Nat}
    (enough : (ofTokens tokens).rest.length < min depth (min nesting bound)) :
    ((untilEndOfFile (statement (grammar depth) nesting) bound (ofTokens tokens)).1 = (statements tokens).1 ∧
      (untilEndOfFile (statement (grammar depth) nesting) bound (ofTokens tokens)).2.diagnostics =
        (statements tokens).2.diagnostics ∧ (statements tokens).2.kind = .eof) ∧
      ∃ taken, StandIn (statements tokens).1 taken ∧ Passes taken (ofTokens tokens) (statements tokens).2 := by
  obtain ⟨words, stop, same, eof, -⟩ := ofTokens_ends tokens
  have ends : (ofTokens tokens).EndsFile := ⟨words, stop, same, eof⟩
  obtain ⟨tracks, closed, left, right, abreast⟩ := ends.abreast rfl rfl
  have items : Items tracks ((ofTokens tokens).rest.length + 1)
      (statement (grammar ((ofTokens tokens).rest.length + 1)) ((ofTokens tokens).rest.length + 1))
      (statement (grammar depth) nesting) :=
    statement_items closed (grammar_agree (.inr (by omega))) (.inr (by omega))
  have bounds : (ofTokens tokens).rest.length < bound := by omega
  obtain ⟨trees, ended, stand⟩ := untilEndOfFile_alike closed items (Nat.lt_succ_self _) bounds _ _ abreast
  obtain ⟨more, reported, reported'⟩ := ended.1.reports
  exact ⟨⟨trees, (reported'.trans (by rw [left, right])).trans reported.symm, ended.2⟩, stand⟩

def lineEnd : Token :=
  ⟨.eol, "", .nowhere⟩

end Syntax

end FplCompiler
