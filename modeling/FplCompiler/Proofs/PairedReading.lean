import FplCompiler.Syntax.StmtParser

/-! Two readings side by side. Texts with the same words up to the end of a line are read alike, whatever stands behind
it and however deep the rules may nest: no bound is reached before the words are used up. The keywords at which something
is declared are taken one after the other. -/

namespace FplCompiler

namespace TokenKind

def endsLine : TokenKind → Bool
  | .eol | .eof => true
  | _ => false

def declares : TokenKind → Bool
  | .funKw | .classKw => true
  | _ => false

theorem plain_of_declares {kind : TokenKind} (keyword : kind.declares = true) : kind.endsLine = false := by
  cases kind <;> first | rfl | cases keyword

end TokenKind

namespace Syntax

def keywordPlaces (tokens : List Token) : List Span :=
  (tokens.filter (·.kind.declares)).map Token.span

theorem keywordPlaces_cons {token : Token} {rest : List Token} (keyword : token.kind.declares = true) :
    keywordPlaces (token :: rest) = token.span :: keywordPlaces rest := by
  simp [keywordPlaces, keyword]

namespace TokenStream

def tokens (stream : TokenStream) : List Token :=
  stream.current :: stream.rest

def Passes (taken : List Span) (before after : TokenStream) : Prop :=
  (taken ++ keywordPlaces after.tokens).Sublist (keywordPlaces before.tokens)

namespace Passes

variable {first second : List Span} {before between after : TokenStream}

theorem ofTokens (tokens : after.tokens <:+ before.tokens) : Passes [] before after :=
  (tokens.sublist.filter _).map _

theorem refl (stream : TokenStream) : Passes [] stream stream :=
  .ofTokens (List.suffix_refl _)

theorem trans (one : Passes first before between) (two : Passes second between after) :
    Passes (first ++ second) before after := by
  rw [Passes, List.append_assoc]
  exact ((List.Sublist.refl first).append two).trans one

theorem none (passes : Passes first before after) : Passes [] before after :=
  (List.sublist_append_right _ _).trans passes

end Passes

end TokenStream

open TokenStream (Passes)

def stepOver : List Token → List Token
  | [] => []
  | [last] => [last]
  | _ :: next :: rest => next :: rest

theorem stepOver_append (word stop : Token) (more later : List Token) :
    stepOver (word :: (more ++ stop :: later)) = more ++ stop :: later := by
  cases more <;> rfl

theorem bump_idle {stream : TokenStream} (idle : stream.pendingGreater = none) :
    stream.bump.1 = stream.current ∧ stream.bump.2.tokens = stepOver stream.tokens ∧
      stream.bump.2.diagnostics = stream.diagnostics := by
  obtain ⟨current, rest, pending, _⟩ := stream
  cases idle
  cases rest <;> exact ⟨rfl, rfl, rfl⟩

theorem bump_none (stream : TokenStream) : stream.bump.2.pendingGreater = none := by
  obtain ⟨current, rest, pending, _⟩ := stream
  cases pending <;> cases rest <;> rfl

theorem bump_passes (stream : TokenStream) : Passes [] stream stream.bump.2 := by
  obtain ⟨current, rest, pending, _⟩ := stream
  cases pending with
  | some place => exact .refl _
  | none =>
    cases rest with
    | nil => exact .refl _
    | cons next rest => exact .ofTokens (List.suffix_cons _ _)

structure Tracks where
  words : List Token
  stop : Token
  ends : stop.kind.endsLine = true
  later : List Token
  later' : List Token
  reported : List Diagnostic
  reported' : List Diagnostic

namespace Tracks

variable (tracks : Tracks)

def after (later : List Token) (count : Nat) : List Token :=
  tracks.words.drop count ++ tracks.stop :: later

theorem ahead (count : Nat) :
    (∃ word, count < tracks.words.length ∧ ∀ later, tracks.after later count = word :: tracks.after later (count + 1)) ∨
    tracks.words.length ≤ count ∧ ∀ later, tracks.after later count = tracks.stop :: later := by
  unfold after
  rcases Nat.lt_or_ge count tracks.words.length with inside | beyond
  · rw [List.drop_eq_getElem_cons inside]
    exact .inl ⟨_, inside, fun _ => rfl⟩
  · rw [List.drop_eq_nil_of_le beyond]
    exact .inr ⟨beyond, fun _ => rfl⟩

theorem inner {kind : TokenKind} (plain : kind.endsLine = false) : kind ≠ tracks.stop.kind := by
  rintro rfl
  exact absurd tracks.ends (by rw [plain]; decide)

end Tracks

/-- Both readings stand after the same number of words and have reported the same on the way; at most `width` steps lead
to the stop. -/
structure Abreast (tracks : Tracks) (width : Nat) (s t : TokenStream) : Prop where
  place : ∃ count, s.tokens = tracks.after tracks.later count ∧ t.tokens = tracks.after tracks.later' count ∧
    tracks.words.length - count + (if s.pendingGreater.isSome then 1 else 0) ≤ width
  waiting : t.pendingGreater = s.pendingGreater
  reports : ∃ more, s.diagnostics = tracks.reported ++ more ∧ t.diagnostics = tracks.reported' ++ more

structure Ready (tracks : Tracks) (width : Nat) (s t : TokenStream) : Prop extends Abreast tracks width s t where
  none : s.pendingGreater = none

variable {tracks : Tracks} {width : Nat}

namespace Abreast

variable {s t : TokenStream}

theorem mono {wider : Nat} (le : width ≤ wider) (abreast : Abreast tracks width s t) : Abreast tracks wider s t := by
  obtain ⟨⟨count, left, right, near⟩, waiting, reports⟩ := abreast
  exact ⟨⟨count, left, right, Nat.le_trans near le⟩, waiting, reports⟩

theorem current (abreast : Abreast tracks width s t) : t.current = s.current := by
  obtain ⟨count, left, right, -⟩ := abreast.place
  rcases tracks.ahead count with ⟨word, -, next⟩ | ⟨-, next⟩
  all_goals rw [(List.cons_eq_cons.mp (left.trans (next _))).1, (List.cons_eq_cons.mp (right.trans (next _))).1]

theorem kind (abreast : Abreast tracks width s t) : t.kind = s.kind := by
  unfold TokenStream.kind
  rw [abreast.waiting, abreast.current]

theorem bump (abreast : Abreast tracks width s t) (inner : s.kind ≠ tracks.stop.kind) :
    t.bump.1 = s.bump.1 ∧ 0 < width ∧ Ready tracks (width - 1) s.bump.2 t.bump.2 := by
  suffices t.bump.1 = s.bump.1 ∧ 0 < width ∧ Abreast tracks (width - 1) s.bump.2 t.bump.2 from
    ⟨this.1, this.2.1, this.2.2, bump_none s⟩
  obtain ⟨⟨count, left, right, near⟩, waiting, reports⟩ := abreast
  unfold TokenStream.kind at inner
  unfold TokenStream.bump
  rw [waiting]
  cases greater : s.pendingGreater with
  | none =>
    simp only [greater] at inner near
    rcases tracks.ahead count with ⟨word, inside, next⟩ | ⟨-, next⟩
    · obtain ⟨rfl, rest⟩ := List.cons_eq_cons.mp (left.trans (next _))
      obtain ⟨same, rest'⟩ := List.cons_eq_cons.mp (right.trans (next _))
      have more (later : List Token) : ∃ first tail, tracks.after later (count + 1) = first :: tail :=
        List.exists_cons_of_ne_nil (by simp [Tracks.after])
      obtain ⟨_, _, left'⟩ := more tracks.later
      obtain ⟨_, _, right'⟩ := more tracks.later'
      rw [rest, rest', left', right']
      refine ⟨same, by omega, ⟨count + 1, left'.symm, right'.symm, ?_⟩, rfl, reports⟩
      simp only [Option.isSome_none, Bool.false_eq_true, if_false]
      omega
    · exact absurd (congrArg Token.kind (List.cons_eq_cons.mp (left.trans (next _))).1) inner
  | some place =>
    simp only [greater, Option.isSome_some, if_true] at near
    refine ⟨rfl, by omega, ⟨count, left, right, ?_⟩, rfl, reports⟩
    simp only [Option.isSome_none, Bool.false_eq_true, if_false]
    omega

theorem declares (abreast : Abreast tracks width s t) (keyword : s.kind.declares = true) :
    Passes [s.bump.1.span] s s.bump.2 := by
  obtain ⟨count, left, -, -⟩ := abreast.place
  have idle : s.pendingGreater = none := by
    unfold TokenStream.kind at keyword
    cases waits : s.pendingGreater with
    | none => rfl
    | some place => rw [waits] at keyword; cases keyword
  rw [TokenStream.kind, idle] at keyword
  change s.current.kind.declares = true at keyword
  obtain ⟨first, rest, -⟩ := bump_idle idle
  rw [Passes, first, rest, left]
  rcases tracks.ahead count with ⟨word, -, next⟩ | ⟨-, next⟩
  · rw [(List.cons_eq_cons.mp (left.trans (next _))).1] at keyword ⊢
    rw [next, Tracks.after, stepOver_append, keywordPlaces_cons keyword]
    exact List.Sublist.refl _
  · rw [(List.cons_eq_cons.mp (left.trans (next _))).1] at keyword
    exact absurd tracks.ends (by rw [TokenKind.plain_of_declares keyword]; decide)

theorem wait {place : Span} (abreast : Abreast tracks (width - 1) s t) (some : 0 < width) :
    Abreast tracks width { s with pendingGreater := .some place } { t with pendingGreater := .some place } := by
  obtain ⟨⟨count, left, right, near⟩, -, reports⟩ := abreast
  refine ⟨⟨count, left, right, ?_⟩, rfl, reports⟩
  simp only [Option.isSome_some, if_true]
  omega

theorem narrow (abreast : Abreast tracks width s t) :
    ∃ narrow ≤ width, narrow ≤ s.remaining ∧ narrow ≤ t.remaining ∧ Abreast tracks narrow s t := by
  obtain ⟨⟨count, left, right, near⟩, waiting, reports⟩ := abreast
  have left' := congrArg List.length left
  have right' := congrArg List.length right
  simp only [TokenStream.tokens, Tracks.after, List.length_cons, List.length_append, List.length_drop] at left' right'
  refine ⟨_, near, ?_, ?_, ⟨⟨count, left, right, Nat.le_refl _⟩, waiting, reports⟩⟩
  · unfold TokenStream.remaining
    omega
  · unfold TokenStream.remaining
    rw [waiting]
    omega

end Abreast

/-! What two readers do from places that stand in a relation, where that leaves them, and which places of keywords are
taken for what they read. -/

abbrev Pairing := TokenStream → TokenStream → Prop

variable {α β : Type} {before after last failed before' : Pairing} {expected : TokenKind} {value : α}
  {finish : β → Pairing} {post : α → Pairing}

def ReadsAlike (before : Pairing) (fact : α → List Span → Prop) (post : α → Pairing) (reader other : Reader α) : Prop :=
  ∀ s t, before s t → (other t).1 = (reader s).1 ∧ post (reader s).1 (reader s).2 (other t).2 ∧
    ∃ taken, fact (reader s).1 taken ∧ Passes taken s (reader s).2

def Nothing (_ : α) (taken : List Span) : Prop :=
  taken = []

def OnSuccess (fact : α → List Span → Prop) (result : Except Diagnostic α) (taken : List Span) : Prop :=
  ∀ value, result = .ok value → fact value taken

def ParsesAlike (before : Pairing) (fact : α → List Span → Prop) (after failed : Pairing)
    (parser other : Parser α) : Prop :=
  ReadsAlike before (OnSuccess fact) (fun result => if result.isOk then after else failed) parser.run other.run

abbrev Keeps (place : Pairing) (fact : α → List Span → Prop) (reader other : Reader α) : Prop :=
  ReadsAlike place fact (fun _ => place) reader other

def At (before : Pairing) (kind : TokenKind) (s t : TokenStream) : Prop :=
  before s t ∧ s.kind = kind

class OnWords (tracks : outParam Tracks) (width : outParam Nat) (before : Pairing) : Prop where
  abreast {s t : TokenStream} : before s t → Abreast tracks width s t

instance : OnWords tracks width (Abreast tracks width) := ⟨id⟩
instance : OnWords tracks width (Ready tracks width) := ⟨Ready.toAbreast⟩
instance {kind : TokenKind} [OnWords tracks width before] : OnWords tracks width (At before kind) :=
  ⟨fun place => OnWords.abreast place.1⟩

namespace ReadsAlike

variable {reader other : Reader α} {next further : α → Reader β} {fact : α → List Span → Prop}
  {goal : β → List Span → Prop}

theorem take (begins : ReadsAlike before fact post reader other) (goesOn : ∀ value taken, fact value taken →
      ReadsAlike (post value) (fun result more => goal result (taken ++ more)) finish (next value) (further value)) :
    ReadsAlike before goal finish (reader >>= next) (other >>= further) := by
  intro s t start
  obtain ⟨same, holds, taken, found, passes⟩ := begins s t start
  obtain ⟨same', holds', more, found', passes'⟩ := goesOn _ taken found _ _ holds
  change (further (other t).1 (other t).2).1 = _ ∧ finish _ _ (further (other t).1 (other t).2).2 ∧ _
  rw [same]
  exact ⟨same', holds', taken ++ more, found', passes.trans passes'⟩

theorem bind (begins : ReadsAlike before Nothing post reader other)
    (goesOn : ∀ value, ReadsAlike (post value) goal finish (next value) (further value)) :
    ReadsAlike before goal finish (reader >>= next) (other >>= further) :=
  begins.take fun value taken nothing => by
    rw [show taken = [] from nothing]
    exact goesOn value

theorem same {step : TokenStream → TokenStream} (found : fact value [])
    (leads : ∀ s t, before s t → post value (step s) (step t)) (tokens : ∀ s, (step s).tokens = s.tokens) :
    ReadsAlike before fact post (fun s => (value, step s)) (fun s => (value, step s)) :=
  fun s t start => ⟨rfl, leads s t start, [], found, .ofTokens (tokens s ▸ List.suffix_refl _)⟩

theorem pure (found : fact value []) (leads : ∀ s t, before s t → post value s t) :
    ReadsAlike before fact post (Pure.pure value) (Pure.pure value) :=
  .same found leads fun _ => rfl

theorem mono {post' : α → Pairing} (alike : ReadsAlike before fact post reader other)
    (starts : ∀ s t, before' s t → before s t) (ends : ∀ value s t, post value s t → post' value s t) :
    ReadsAlike before' fact post' reader other :=
  fun s t start => (alike s t (starts s t start)).imp_right (And.imp_left (ends _ _ _))

theorem given (alike : ReadsAlike before fact post reader other)
    (starts : ∀ s t, before' s t → before s t) : ReadsAlike before' fact post reader other :=
  alike.mono starts fun _ _ _ => id

theorem discard (alike : ReadsAlike before Nothing (fun _ => after) reader other) :
    ReadsAlike before Nothing (fun _ => after) (discard reader) (discard other) :=
  fun s t start => ⟨rfl, (alike s t start).2⟩

theorem ofGet {next further : TokenStream → Reader β} (goesOn : ∀ s t, before s t →
      ReadsAlike (fun s' t' => s' = s ∧ t' = t) goal finish (next s) (further t)) :
    ReadsAlike before goal finish (get >>= next) (get >>= further) :=
  fun s t start => goesOn s t start s t ⟨rfl, rfl⟩

end ReadsAlike

section

variable [stands : OnWords tracks width before]
include stands

theorem kind_alike : ReadsAlike before Nothing (At before) kind kind :=
  fun s _ start => ⟨(OnWords.abreast start).kind, ⟨start, rfl⟩, [], rfl, .refl s⟩

theorem peek_alike : ReadsAlike before Nothing (fun _ => before) peek peek :=
  fun s _ start => ⟨(OnWords.abreast start).current, start, [], rfl, .refl s⟩

theorem looksAt_alike (expected : TokenKind) : ReadsAlike before Nothing
    (fun found => if found then At before expected else before) (looksAt expected) (looksAt expected) := by
  intro s t start
  refine ⟨congrArg (· == expected) (OnWords.abreast start).kind, ?_, [], rfl, .refl s⟩
  change (if s.kind == expected then At before expected else before) s t
  split
  next found => exact ⟨start, eq_of_beq found⟩
  next => exact start

theorem ReadsAlike.choose {first second first' second' : Reader β} {goal : β → List Span → Prop}
    (found : ReadsAlike (At before expected) goal finish first first')
    (missing : ReadsAlike before goal finish second second') :
    ReadsAlike before goal finish (looksAt expected >>= fun found => if found then first else second)
      (looksAt expected >>= fun found => if found then first' else second') := by
  refine (looksAt_alike expected).bind fun value => ?_
  cases value
  · exact missing
  · exact found

end

namespace ParsesAlike

variable {parser other : Parser α} {next further : α → Parser β} {first second first' second' : Parser β}
  {fact : α → List Span → Prop} {goal : β → List Span → Prop}

theorem take (begins : ParsesAlike before fact after failed parser other) (goesOn : ∀ value taken, fact value taken →
      ParsesAlike after (fun result more => goal result (taken ++ more)) last failed (next value) (further value)) :
    ParsesAlike before goal last failed (parser >>= next) (other >>= further) := by
  change ReadsAlike before _ _ (parser.run >>= ExceptT.bindCont next) (other.run >>= ExceptT.bindCont further)
  refine ReadsAlike.take begins fun result taken found => ?_
  cases result with
  | error fault => exact ReadsAlike.pure (by rintro value ⟨⟩) fun _ _ holds => holds
  | ok value => exact goesOn value taken (found value rfl)

theorem bind (begins : ParsesAlike before Nothing after failed parser other)
    (goesOn : ∀ value, ParsesAlike after goal last failed (next value) (further value)) :
    ParsesAlike before goal last failed (parser >>= next) (other >>= further) :=
  begins.take fun value taken nothing => by
    rw [show taken = [] from nothing]
    exact goesOn value

theorem done (found : fact value []) :
    ParsesAlike before fact before failed (Pure.pure value) (Pure.pure value) :=
  ReadsAlike.pure (by rintro _ ⟨⟩; exact found) fun _ _ start => start

theorem pure : ParsesAlike before Nothing before failed (Pure.pure value) (Pure.pure value) :=
  .done rfl

theorem discard (alike : ParsesAlike before Nothing after failed parser other) :
    ParsesAlike before Nothing after failed (discard parser) (discard other) :=
  alike.bind fun _ => .pure

theorem run (alike : ParsesAlike before Nothing after failed parser other) :
    ReadsAlike before Nothing (fun result => if result.isOk then after else failed) parser.run other.run := by
  intro s t start
  obtain ⟨same, holds, taken, -, passes⟩ := alike s t start
  exact ⟨same, holds, [], rfl, passes.none⟩

theorem read {reader other : Reader α} (begins : ReadsAlike before Nothing post reader other)
    (goesOn : ∀ value, ParsesAlike (post value) goal last failed (next value) (further value)) :
    ParsesAlike before goal last failed ((liftM reader : Parser α) >>= next) ((liftM other : Parser α) >>= further) :=
  ReadsAlike.bind begins goesOn

theorem lift {reader other : Reader α} (alike : ReadsAlike before fact (fun _ => after) reader other) :
    ParsesAlike before fact after failed (liftM reader : Parser α) (liftM other : Parser α) := by
  intro s t start
  obtain ⟨same, holds, taken, found, passes⟩ := alike s t start
  exact ⟨congrArg Except.ok same, holds, taken, by rintro _ ⟨⟩; exact found, passes⟩

theorem ofGet {next further : TokenStream → Parser β} (goesOn : ∀ s t, before s t →
      ParsesAlike (fun s' t' => s' = s ∧ t' = t) goal last failed (next s) (further t)) :
    ParsesAlike before goal last failed (get >>= next) (get >>= further) :=
  fun s t start => goesOn s t start s t ⟨rfl, rfl⟩

theorem mono {after' failed' : Pairing} (alike : ParsesAlike before fact after failed parser other)
    (starts : ∀ s t, before' s t → before s t) (ends : ∀ s t, after s t → after' s t)
    (fails : ∀ s t, failed s t → failed' s t) : ParsesAlike before' fact after' failed' parser other := by
  refine ReadsAlike.mono alike starts fun result s t holds => ?_
  cases result
  · exact fails _ _ holds
  · exact ends _ _ holds

theorem given (alike : ParsesAlike before fact after failed parser other)
    (starts : ∀ s t, before' s t → before s t) : ParsesAlike before' fact after failed parser other :=
  ReadsAlike.given alike starts

theorem known {kind : TokenKind} (alike : ParsesAlike before fact after failed parser other) :
    ParsesAlike (At before kind) fact after failed parser other :=
  alike.given fun _ _ => And.left

section

variable [stands : OnWords tracks width before]
include stands

theorem ofKind {next further : TokenKind → Parser β}
    (goesOn : ∀ kind, ParsesAlike (At before kind) goal after failed (next kind) (further kind)) :
    ParsesAlike before goal after failed ((liftM kind : Parser TokenKind) >>= next)
      ((liftM kind : Parser TokenKind) >>= further) :=
  .read kind_alike goesOn

theorem ofPeek {next further : Token → Parser β}
    (goesOn : ∀ token, ParsesAlike before goal after failed (next token) (further token)) :
    ParsesAlike before goal after failed ((liftM peek : Parser Token) >>= next) ((liftM peek : Parser Token) >>= further) :=
  .read peek_alike goesOn

theorem choose (found : ParsesAlike (At before expected) goal after failed first first')
    (missing : ParsesAlike before goal after failed second second') : ParsesAlike before goal after failed
      ((liftM (looksAt expected) : Parser Bool) >>= fun found => if found then first else second)
      ((liftM (looksAt expected) : Parser Bool) >>= fun found => if found then first' else second') := by
  refine .read (looksAt_alike expected) fun value => ?_
  cases value
  · exact missing
  · exact found

theorem failHere (cause : Token → Cause) :
    ParsesAlike before fact after before (failHere cause : Parser α) (Syntax.failHere cause) :=
  .read peek_alike fun _ => ReadsAlike.pure (by rintro _ ⟨⟩) fun _ _ place => place

end

end ParsesAlike

def Nearer (goal : Nat → Pairing) (width : Nat) (s t : TokenStream) : Prop :=
  0 < width ∧ goal (width - 1) s t

class Widens (goal : Nat → Pairing) : Prop where
  widen {narrow width : Nat} {s t : TokenStream} : narrow ≤ width → goal narrow s t → goal width s t

instance : Widens (Abreast tracks) := ⟨.mono⟩
instance : Widens (Ready tracks) := ⟨fun le ready => ⟨ready.mono le, ready.none⟩⟩
instance {goal : Nat → Pairing} [Widens goal] : Widens (Nearer goal) :=
  ⟨fun le nearer => ⟨Nat.lt_of_lt_of_le nearer.1 le, Widens.widen (Nat.sub_le_sub_right le 1) nearer.2⟩⟩
instance {goal : Nat → Pairing} [Widens goal] {kind : TokenKind} : Widens fun width => At (goal width) kind :=
  ⟨fun le place => ⟨Widens.widen le place.1, place.2⟩⟩

theorem Nearer.wide {goal : Nat → Pairing} [Widens goal] {s t : TokenStream} (nearer : Nearer goal width s t) :
    goal width s t :=
  Widens.widen (Nat.sub_le _ _) nearer.2

variable {kind : TokenKind} {operators : TokenKind → Option BinaryOp}

theorem bump_alike [OnWords tracks width before] (inner : kind ≠ tracks.stop.kind) :
    ReadsAlike (At before kind) Nothing (fun _ => Nearer (Ready tracks) width) bump bump := by
  intro s t place
  obtain ⟨same, nearer⟩ := (OnWords.abreast place.1).bump (place.2 ▸ inner)
  exact ⟨same, nearer, [], rfl, bump_passes s⟩

theorem eat_alike [OnWords tracks width before] (inner : expected ≠ tracks.stop.kind) :
    ReadsAlike before Nothing (fun found => if found then Nearer (Ready tracks) width else before) (eat expected)
      (eat expected) :=
  .choose ((bump_alike inner).discard.bind fun _ => .pure rfl fun _ _ => id) (.pure rfl fun _ _ => id)

theorem report_alike (cause : Cause) (span : Span) :
    Keeps (Abreast tracks width) Nothing (report cause span) (report cause span) := by
  refine .same rfl (fun s t abreast => ?_) fun _ => rfl
  obtain ⟨more, left, right⟩ := abreast.reports
  refine ⟨abreast.place, abreast.waiting, more ++ [⟨cause, span⟩], ?_, ?_⟩
  · exact (congrArg (· ++ _) left).trans (List.append_assoc _ _ _)
  · exact (congrArg (· ++ _) right).trans (List.append_assoc _ _ _)

abbrev Reaches (tracks : Tracks) (fact : α → List Span → Prop) (goal : Nat → Pairing) (width : Nat)
    (parser other : Parser α) : Prop :=
  ParsesAlike (Abreast tracks width) fact (goal width) (Abreast tracks width) parser other

abbrev ReachesAt (tracks : Tracks) (kind : TokenKind) (fact : α → List Span → Prop) (goal : Nat → Pairing) (width : Nat)
    (parser other : Parser α) : Prop :=
  ParsesAlike (At (Abreast tracks width) kind) fact (goal width) (Abreast tracks width) parser other

abbrev Walks (tracks : Tracks) (width : Nat) (parser other : Parser α) : Prop :=
  Reaches tracks Nothing (Abreast tracks) width parser other

namespace ParsesAlike

variable {goal start : Nat → Pairing} {kind : TokenKind} {parser other : Parser α} {next further : α → Parser β}
  {first second first' second' : Parser β} {fact : α → List Span → Prop} {aim : β → List Span → Prop}

theorem nearer
    (walks : ∀ narrow < width, ParsesAlike (start narrow) fact (goal narrow) (Abreast tracks narrow) parser other) :
    ParsesAlike (Nearer start width) fact (Nearer goal width) (Abreast tracks width) parser other := by
  rintro s t ⟨some, place⟩
  exact (walks (width - 1) (by omega)).mono (fun _ _ => id) (fun _ _ after => ⟨some, after⟩)
    (fun _ _ => .mono (Nat.sub_le _ _)) s t place

theorem ready (reaches : Reaches tracks fact goal width parser other) :
    ParsesAlike (Ready tracks width) fact (goal width) (Abreast tracks width) parser other :=
  reaches.given fun _ _ => Ready.toAbreast

theorem stride {next further : Token → Parser β} (plain : kind.endsLine = false)
    (goesOn : ∀ narrow < width, ∀ token, Reaches tracks aim goal narrow (next token) (further token)) :
    ReachesAt tracks kind aim (Nearer goal) width
      ((liftM bump : Parser Token) >>= next) ((liftM bump : Parser Token) >>= further) :=
  .read (bump_alike (tracks.inner plain)) fun token => .nearer fun narrow less => (goesOn narrow less token).ready

theorem declare {next further : Token → Parser β} (keyword : kind.declares = true)
    (goesOn : ∀ narrow < width, ∀ token, Reaches tracks (fun result more => aim result (token.span :: more)) goal narrow
      (next token) (further token)) :
    ReachesAt tracks kind aim (Nearer goal) width
      ((liftM bump : Parser Token) >>= next) ((liftM bump : Parser Token) >>= further) := by
  have begins : ReadsAlike (At (Abreast tracks width) kind) (fun token taken => taken = [token.span])
      (fun _ => Nearer (Ready tracks) width) bump bump := by
    intro s t place
    obtain ⟨same, nearer⟩ := place.1.bump (place.2 ▸ tracks.inner (TokenKind.plain_of_declares keyword))
    exact ⟨same, nearer, _, rfl, place.1.declares (place.2 ▸ keyword)⟩
  refine ParsesAlike.take (.lift begins) fun token taken here => .nearer fun narrow less => ?_
  subst here
  exact (goesOn narrow less token).ready

theorem expect [OnWords tracks width before] (plain : expected.endsLine = false) :
    ParsesAlike before Nothing (Nearer (Ready tracks) width) before (expect expected) (Syntax.expect expected) :=
  .choose (.lift (bump_alike (tracks.inner plain))) (.failHere _)

theorem passed {next further : Unit → Parser β} (plain : expected.endsLine = false)
    (goesOn : ∀ narrow < width, Reaches tracks aim goal narrow (next ()) (further ())) :
    Reaches tracks aim (Nearer goal) width
      (Functor.discard (Syntax.expect expected) >>= next) (Functor.discard (Syntax.expect expected) >>= further) :=
  .bind (expect plain).discard fun _ => .nearer fun narrow less => (goesOn narrow less).ready

theorem token (plain : expected.endsLine = false) : Walks tracks width (Syntax.expect expected) (Syntax.expect expected) :=
  (expect plain).mono (fun _ _ => id) (fun _ _ nearer => nearer.wide.toAbreast) (fun _ _ => id)

variable [Widens goal]

theorem wide (alike : ParsesAlike before fact (Nearer goal width) failed parser other) :
    ParsesAlike before fact (goal width) failed parser other :=
  alike.mono (fun _ _ => id) (fun _ _ => Nearer.wide) (fun _ _ => id)

theorem step {next further : Token → Parser β} (plain : kind.endsLine = false)
    (goesOn : ∀ narrow < width, ∀ token, Reaches tracks aim goal narrow (next token) (further token)) :
    ReachesAt tracks kind aim goal width
      ((liftM bump : Parser Token) >>= next) ((liftM bump : Parser Token) >>= further) :=
  (stride plain goesOn).wide

theorem skip {next further : Unit → Parser β} (plain : kind.endsLine = false)
    (goesOn : ∀ narrow < width, Reaches tracks aim goal narrow (next ()) (further ())) :
    ReachesAt tracks kind aim goal width
      ((liftM (Functor.discard bump) : Parser Unit) >>= next) ((liftM (Functor.discard bump) : Parser Unit) >>= further) :=
  @step _ _ _ _ _ _ _ (fun _ => next ()) (fun _ => further ()) plain fun narrow less _ => goesOn narrow less

theorem pass {next further : Unit → Parser β} (plain : expected.endsLine = false)
    (goesOn : ∀ narrow < width, Reaches tracks aim goal narrow (next ()) (further ())) : Reaches tracks aim goal width
      (Functor.discard (Syntax.expect expected) >>= next) (Functor.discard (Syntax.expect expected) >>= further) :=
  (passed plain goesOn).wide

theorem eats (inner : expected ≠ tracks.stop.kind) (found : ∀ narrow < width, Reaches tracks aim goal narrow first first')
    (missing : Reaches tracks aim goal width second second') :
    Reaches tracks aim goal width ((liftM (eat expected) : Parser Bool) >>= fun found => if found then first else second)
      ((liftM (eat expected) : Parser Bool) >>= fun found => if found then first' else second') := by
  refine .read (eat_alike inner) fun value => ?_
  cases value
  · exact missing
  · exact (nearer fun narrow less => (found narrow less).ready).wide

theorem boundedAt {next further : TokenStream → Parser β} (goesOn : ∀ narrow ≤ width, ∀ s t : TokenStream,
      narrow ≤ s.remaining → narrow ≤ t.remaining →
        ReachesAt tracks kind aim goal narrow (next s) (further t)) :
    ReachesAt tracks kind aim goal width (get >>= next) (get >>= further) := by
  refine .ofGet fun s t place => ?_
  obtain ⟨narrow, near, left, right, abreast⟩ := place.1.narrow
  refine (goesOn narrow near s t left right).mono ?_ (fun _ _ => Widens.widen near) (fun _ _ => .mono near)
  rintro _ _ ⟨rfl, rfl⟩
  exact ⟨abreast, place.2⟩

theorem bounded {next further : TokenStream → Parser β} (goesOn : ∀ narrow ≤ width, ∀ s t : TokenStream,
      narrow ≤ s.remaining → narrow ≤ t.remaining → Reaches tracks aim goal narrow (next s) (further t)) :
    Reaches tracks aim goal width (get >>= next) (get >>= further) :=
  fun s t place => boundedAt (fun narrow near s t left right => (goesOn narrow near s t left right).known) s t ⟨place, rfl⟩

end ParsesAlike

theorem eat_walks (plain : expected.endsLine = false) :
    Walks tracks width (liftM (eat expected)) (liftM (eat expected)) := by
  refine .lift ((eat_alike (tracks.inner plain)).mono (fun _ _ => id) fun found s t holds => ?_)
  cases found
  · exact holds
  · exact holds.wide.toAbreast

theorem expectName_walks : Walks tracks width expectName expectName :=
  .choose (.step rfl fun _ _ _ => .pure) (.token rfl)

theorem expectGreater_walks : Walks tracks width expectGreater expectGreater := by
  refine .ofGet fun s t abreast => ?_
  rw [abreast.waiting]
  split
  · rintro _ _ ⟨rfl, rfl⟩
    obtain ⟨⟨count, left, right, near⟩, -, reports⟩ := abreast
    exact ⟨rfl, ⟨⟨count, left, right, Nat.le_trans (Nat.add_le_add_left (Nat.zero_le _) _) near⟩, rfl, reports⟩, [],
      by rintro _ ⟨⟩; rfl, .ofTokens (List.suffix_refl _)⟩
  · have halves (token : Token) : ParsesAlike (Nearer (Ready tracks) width) Nothing (Abreast tracks width)
        (Abreast tracks width) (modify fun stream => { stream with pendingGreater := some token.span })
        (modify fun stream => { stream with pendingGreater := some token.span }) :=
      .lift (.same rfl (fun _ _ nearer => nearer.2.toAbreast.wait nearer.1) fun _ => rfl)
    refine ParsesAlike.given (.choose (.read (bump_alike (tracks.inner rfl)) halves) (ParsesAlike.discard (.token rfl))) ?_
    rintro _ _ ⟨rfl, rfl⟩
    exact abreast

section

variable {item other : Parser α}

theorem afterCommas_walks {bound limit : Nat} (items : ∀ narrow < width, Walks tracks narrow item other)
    (enough : width < bound) (enough' : width < limit) :
    Walks tracks width (afterCommas item bound) (afterCommas other limit) := by
  induction bound generalizing width limit with
  | zero => omega
  | succ bound ih =>
    obtain ⟨limit, rfl⟩ : ∃ less, limit = less + 1 := ⟨limit - 1, by omega⟩
    refine .eats (tracks.inner rfl) (fun narrow less => (items narrow less).bind fun first => ?_) .pure
    exact (ih (fun closer nearer => items closer (by omega)) (by omega) (by omega)).bind fun rest => .pure

theorem separated_walks (items : ∀ narrow ≤ width, Walks tracks narrow item other) :
    Walks tracks width (separated item) (separated other) :=
  (items width (Nat.le_refl _)).bind fun first => .bounded fun narrow le s t left right =>
    (afterCommas_walks (fun closer less => items closer (by omega)) (by omega) (by omega)).bind fun rest => .pure

theorem delimited_strides {opening closing : TokenKind} (opens : opening.endsLine = false)
    (closes : closing.endsLine = false) (items : ∀ narrow < width, Walks tracks narrow item other) :
    Reaches tracks Nothing (Nearer (Abreast tracks)) width (delimited opening closing item)
        (delimited opening closing other) := by
  have close {width : Nat} (found : List α) : Walks tracks width (do discard (expect closing); return found)
      (do discard (expect closing); return found) :=
    .pass closes fun _ _ => .pure
  refine .passed opens fun narrow less => .choose ((close []).given fun _ _ => And.left) ?_
  exact (separated_walks fun closer le => items closer (by omega)).bind close

end

structure Agree (tracks : Tracks) (width : Nat) (grammar other : Grammar) : Prop where
  expression : ∀ narrow < width, Walks tracks narrow grammar.expression other.expression
  type : ∀ narrow < width, Walks tracks narrow grammar.type other.type

theorem Agree.closer {narrow : Nat} {grammar other : Grammar} (agree : Agree tracks width grammar other)
    (le : narrow ≤ width) : Agree tracks narrow grammar other where
  expression closer less := agree.expression closer (by omega)
  type closer less := agree.type closer (by omega)

def Rule (tracks : Tracks) (parser : Grammar → Parser α) : Prop :=
  ∀ {width : Nat} {grammar other : Grammar}, Agree tracks width grammar other →
    Walks tracks width (parser grammar) (parser other)

theorem newExpr_alike (shape : ExprShape) (span : Span) :
    Keeps (Abreast tracks width) Nothing (newExpr shape span) (newExpr shape span) :=
  .same rfl (fun _ _ abreast => ⟨abreast.place, abreast.waiting, abreast.reports⟩) fun _ => rfl

theorem ParsesAlike.made {shape : ExprShape} {span : Span} :
    Walks tracks width (liftM (newExpr shape span)) (liftM (newExpr shape span)) :=
  .lift (newExpr_alike shape span)

theorem counted_walks : Walks tracks width
    (modify fun stream => { stream with expressionCount := stream.expressionCount + 1 })
    (modify fun stream => { stream with expressionCount := stream.expressionCount + 1 }) :=
  .lift (.same rfl (fun _ _ abreast => ⟨abreast.place, abreast.waiting, abreast.reports⟩) fun _ => rfl)

theorem ParsesAlike.literal {value : Option Literal} {cause : Cause} {default : Literal} {span : Span} :
    Walks tracks width (liftM (literalOr value cause default span)) (liftM (literalOr value cause default span)) := by
  cases value with
  | some value => exact .made
  | none => exact .lift ((report_alike cause span).bind fun _ => newExpr_alike (.literal default) span)

theorem creation_rule (plain : kind.endsLine = false) {grammar other : Grammar}
    (agree : Agree tracks width grammar other) :
    ReachesAt tracks kind Nothing (Abreast tracks) width (creation grammar) (creation other) := by
  refine .step plain fun narrow less token => (agree.type narrow less).bind fun type => ?_
  have items := (agree.closer (Nat.le_of_lt less)).expression
  refine .choose ((delimited_strides rfl rfl items).wide.bind fun elements => .made).known (.choose
    ((delimited_strides rfl rfl items).wide.bind fun arguments => ?_).known ?_)
  all_goals
    refine .choose (.step rfl fun closer nearer brace =>
      (items closer nearer).bind fun body => .pass rfl fun _ _ => ?_) .made
    exact counted_walks.bind fun _ => .made

theorem primary_rule : Rule tracks primary := by
  refine fun agree => .ofKind fun kind => ?_
  split
  · exact .step rfl fun _ _ _ => .made
  · exact .step rfl fun _ _ _ => .literal
  · exact .step rfl fun _ _ _ => .literal
  · exact .step rfl fun _ _ _ => .literal
  · exact .step rfl fun _ _ _ => .made
  · exact .skip rfl fun narrow less => (agree.expression narrow less).bind fun _ => .pass rfl fun _ _ => .pure
  · refine .step rfl fun narrow less token => .ofKind fun kind => ?_
    split
    · exact ParsesAlike.made.known
    · exact ((agree.expression narrow less).bind fun _ => .made).known
  · exact .step rfl fun _ _ _ => .made
  · exact .step rfl fun _ _ _ => .made
  · exact creation_rule rfl agree
  · exact creation_rule rfl agree
  · exact (ParsesAlike.failHere _).known

theorem suffixes_walks {grammar other : Grammar} (agree : Agree tracks width grammar other) {bound limit : Nat}
    (enough : width < bound) (enough' : width < limit) (expression : Expr) :
    Walks tracks width (suffixes grammar bound expression) (suffixes other limit expression) := by
  induction bound generalizing width limit expression with
  | zero => omega
  | succ bound ih =>
    obtain ⟨limit, rfl⟩ : ∃ less, limit = less + 1 := ⟨limit - 1, by omega⟩
    refine .ofKind fun kind => ?_
    split
    · refine .skip rfl fun narrow less => (agree.expression narrow less).bind fun index => .pass rfl fun closer nearer => ?_
      exact ParsesAlike.made.bind (ih (agree.closer (by omega)) (by omega) (by omega))
    · refine .skip rfl fun narrow less => expectName_walks.bind fun name => ?_
      exact ParsesAlike.made.bind (ih (agree.closer (by omega)) (by omega) (by omega))
    · refine ((delimited_strides rfl rfl agree.expression).bind fun arguments => .nearer fun narrow less => ?_).wide.known
      exact ParsesAlike.made.bind (ih (agree.closer (by omega)) (by omega) (by omega))
    · exact ParsesAlike.pure.known

theorem suffixed_rule : Rule tracks suffixed :=
  fun agree => (primary_rule agree).bind fun _ => .bounded fun _ le _ _ left right =>
    suffixes_walks (agree.closer le) (by omega) (by omega) _

theorem plain_of_found {ρ : Type} {table : TokenKind → Option ρ} {entry : ρ}
    (plain : table .eol = none ∧ table .eof = none) (found : table kind = some entry) : kind.endsLine = false := by
  unfold TokenKind.endsLine
  split
  · exact absurd (plain.1 ▸ found) (by simp)
  · exact absurd (plain.2 ▸ found) (by simp)
  · rfl

theorem unary_rule : Rule tracks unary := by
  refine fun agree => .ofKind fun kind => ?_
  split
  next operator found =>
    refine .step (plain_of_found ⟨rfl, rfl⟩ found) fun narrow less token => ?_
    exact (suffixed_rule (agree.closer (by omega))).bind fun _ => .made
  next => exact (suffixed_rule agree).known

theorem leftAssociated_walks (plain : operators .eol = none ∧ operators .eof = none)
    {operand operand' : Parser Expr} (operands : ∀ narrow ≤ width, Walks tracks narrow operand operand') {bound limit : Nat}
    (enough : width < bound) (enough' : width < limit) (left : Expr) :
    Walks tracks width (leftAssociated operators operand bound left) (leftAssociated operators operand' limit left) := by
  induction bound generalizing width limit left with
  | zero => omega
  | succ bound ih =>
    obtain ⟨limit, rfl⟩ : ∃ less, limit = less + 1 := ⟨limit - 1, by omega⟩
    refine .ofKind fun kind => ?_
    split
    next operator found =>
      refine .step (plain_of_found plain found) fun narrow less token => ?_
      refine (operands narrow (by omega)).bind fun right => ParsesAlike.made.bind ?_
      exact ih (fun closer le => operands closer (by omega)) (by omega) (by omega)
    next => exact ParsesAlike.pure.known

theorem level_rule (plain : operators .eol = none ∧ operators .eof = none)
    {operand : Grammar → Parser Expr} (operands : Rule tracks operand) :
    Rule tracks fun grammar => level operators (operand grammar) :=
  fun agree => (operands agree).bind fun _ => .bounded fun _ le _ _ left right =>
    leftAssociated_walks plain (fun closer nearer => operands (agree.closer (by omega))) (by omega) (by omega) _

theorem sum_rule : Rule tracks sum :=
  level_rule ⟨rfl, rfl⟩ (level_rule ⟨rfl, rfl⟩ unary_rule)

theorem rangeOrSum_rule : Rule tracks rangeOrSum := by
  refine fun agree => (sum_rule agree).bind fun start =>
    .choose (.step rfl fun narrow less token => .ofKind fun kind => ?_) .pure
  split
  next operator found =>
    refine .skip (plain_of_found ⟨rfl, rfl⟩ found) fun closer nearer => ?_
    exact (sum_rule (agree.closer (by omega))).bind fun _ => .made
  next => exact ((sum_rule (agree.closer (by omega))).bind fun _ => .made).known

theorem castOrTest_rule : Rule tracks castOrTest := by
  have operands : Rule tracks logical :=
    level_rule ⟨rfl, rfl⟩ (level_rule ⟨rfl, rfl⟩ (level_rule ⟨rfl, rfl⟩ rangeOrSum_rule))
  intro _ _ _ agree
  refine (operands agree).bind fun operand => .choose ?_ (.choose ?_ .pure)
  all_goals exact .step rfl fun narrow less token => (agree.type narrow less).bind fun _ => .made

theorem expressionRule_rule : Rule tracks expressionRule := by
  refine fun agree => .eats (tracks.inner rfl) (fun narrow less => ?_) (castOrTest_rule agree)
  refine (castOrTest_rule (agree.closer (by omega))).bind fun condition => ?_
  refine .pass rfl fun closer nearer => (agree.expression closer (by omega)).bind fun first => ?_
  exact .pass rfl fun closest next => (agree.expression closest (by omega)).bind fun second => .made

theorem typeArgument_rule : Rule tracks typeArgument :=
  fun agree => .pass rfl fun narrow less => (agree.type narrow less).bind fun _ => expectGreater_walks.bind fun _ => .pure

theorem plainType_rule : Rule tracks plainType := by
  refine fun agree => .ofKind fun kind => ?_
  split
  · refine .step rfl fun narrow less token => .eats (tracks.inner rfl) (fun closer nearer => ?_) .pure
    refine (separated_walks fun closest le => agree.type closest (by omega)).bind fun arguments => ?_
    exact expectGreater_walks.bind fun _ => .pure
  · refine .skip rfl fun narrow less => .eats (tracks.inner rfl) (fun closer nearer => ?_) .pure
    exact (agree.type closer (by omega)).bind fun _ => expectGreater_walks.bind fun _ => .pure
  · exact .skip rfl fun narrow less => (typeArgument_rule (agree.closer (by omega))).bind fun _ => .pure
  · refine .skip rfl fun narrow less => (typeArgument_rule (agree.closer (by omega))).bind fun element => ?_
    refine .pass rfl fun closer nearer => (agree.expression closer (by omega)).bind fun _ => ?_
    exact .pass rfl fun _ _ => .pure
  · exact (ParsesAlike.failHere _).known

theorem typeRule_rule : Rule tracks typeRule :=
  fun agree => .ofPeek fun _ => (plainType_rule agree).bind fun _ =>
    .eats (tracks.inner rfl) (fun _ _ => .pure) (.eats (tracks.inner rfl) (fun _ _ => .pure) .pure)

theorem grammar_agree {depth depth' : Nat} (enough : depth = depth' ∨ width ≤ depth ∧ width ≤ depth') :
    Agree tracks width (grammar depth) (grammar depth') := by
  induction depth generalizing width depth' with
  | zero =>
    rcases enough with rfl | none
    · exact ⟨fun _ _ => .failHere _, fun _ _ => .failHere _⟩
    · exact ⟨fun _ _ => by omega, fun _ _ => by omega⟩
  | succ depth ih =>
    rcases depth' with _ | depth'
    · exact ⟨fun _ _ => by omega, fun _ _ => by omega⟩
    · exact ⟨fun narrow less => expressionRule_rule (ih (by omega)), fun narrow less => typeRule_rule (ih (by omega))⟩

end Syntax

end FplCompiler
