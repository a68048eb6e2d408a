import FplCompiler.Proofs.TokenLines

/-!
What is printed is read back: every form of expression and of type, from its parts being read back, and so every tree.
-/

namespace FplCompiler.Syntax

variable {text after : List Piece} {follow : TokenKind → Prop} {arguments exprs : List Expr} {expr : Expr}
  {kind : TokenKind} {rank : Nat}

theorem Begins.shows (opens : Begins rank text) (shown : kind ∈ shows (text ++ after)) : begins rank kind = true := by
  obtain ⟨first, lexeme, more, rfl, allowed⟩ := opens
  rwa [List.mem_singleton.mp shown]

theorem Begins.weight_pos (opens : Begins rank text) : 0 < weight text := by
  obtain ⟨kind, lexeme, more, rfl, _⟩ := opens
  simp

theorem between_append (opening closing : TokenKind) (text after : List Piece) :
    between opening closing text ++ after = mark opening :: (text ++ mark closing :: after) := by
  simp [between]

theorem Expr.rank_le (expr : Expr) : expr.rank ≤ 10 := by
  unfold Expr.rank
  split <;> first | decide | (rename_i operator _ _ _; cases operator <;> decide)

theorem Expr.endsBare_eq_false (tighter : 0 < expr.rank) : expr.endsBare = false := by
  unfold Expr.endsBare
  split <;> first | rfl | (simp [Expr.rank] at tighter)

def Expr.Follow (expr : Expr) (kind : TokenKind) : Prop :=
  tight kind ≤ expr.rank ∧ (expr.endsBare = true → endsReturn kind = true)

def ReadsBack (expr : Expr) : Prop :=
  ∀ depth, weight expr.text ≤ depth + 1 → Yields (Syntax.grammar depth) expr.Follow expr.rank expr.text expr

section ReadsBack

variable {depth position : Nat} {type element : TypeExpr} {object operand : Expr}

theorem Yields.lower {grammar : Grammar}
    (yields : Yields grammar follow expr.rank expr.text expr) (below : position ≤ expr.rank)
    (loose : ∀ kind, follow kind → tight kind ≤ position) : Yields grammar follow position expr.text expr := by
  obtain ⟨kind, lexeme, more, head, allowed⟩ := expr.begins_text
  refine yields.descendTo expr.rank_le below loose head ?_ ?_
  · cases kind <;> simp_all [begins, unaryOperator]
  · rintro tighter rfl
    simp only [begins, decide_eq_true_eq] at allowed
    omega

theorem ReadsBack.inner (back : ReadsBack expr) (enough : weight expr.text ≤ depth)
    (fits : ∀ kind ∈ shows after, tight kind = 0 ∧ (expr.endsBare = true → endsReturn kind = true)) :
    Reads (Syntax.grammar depth).expression (expr.text ++ after) after (·.bare = expr.bare) := by
  have positive := expr.begins_text.weight_pos
  obtain ⟨depth, rfl⟩ : ∃ less, depth = less + 1 := ⟨depth - 1, by omega⟩
  have yields : Yields (Syntax.grammar depth)
      (fun kind => tight kind = 0 ∧ (expr.endsBare = true → endsReturn kind = true)) 0 expr.text expr := by
    refine ((back depth enough).weaken ?_).lower (Nat.zero_le _) fun _ both => Nat.le_of_eq both.1
    exact fun kind both => ⟨by omega, both.2⟩
  exact yields.reads fun kind shown => ⟨fits kind shown, stops_idle rfl (by decide) kind⟩

theorem fits_mark (kind : TokenKind) (given : follow kind) :
    ∀ shown ∈ shows (mark kind :: after), follow shown := by
  rintro shown member
  rwa [List.mem_singleton.mp member]

theorem ReadsBack.before (back : ReadsBack expr) (enough : weight expr.text ≤ depth) {closing : TokenKind}
    (closes : endsReturn closing = true) :
    Reads (Syntax.grammar depth).expression (expr.text ++ mark closing :: after) (mark closing :: after)
      (·.bare = expr.bare) := by
  refine back.inner enough (fits_mark _ ⟨?_, fun _ => closes⟩)
  cases closing <;> simp_all [endsReturn, tight]

theorem ReadsBack.wrapped (back : ReadsBack expr) (positive : 0 < position) (small : position ≤ 10)
    (enough : weight (wrap position expr.rank expr.text) ≤ depth + 1) :
    Yields (Syntax.grammar depth) (tight · ≤ position) position (wrap position expr.rank expr.text) expr := by
  unfold wrap at enough ⊢
  split
  case isTrue looser =>
    rw [if_pos looser] at enough
    have bracketed : Yields (Syntax.grammar depth) (tight · ≤ position) 10
        (between .openRound .closeRound expr.text) expr := by
      refine .ofReads (fun kind _ => stops_idle rfl (by decide) kind) fun after _ => ?_
      rw [between_append]
      refine .first (.step ?_)
      simp only [between, mark, weight_token, weight_append] at enough
      exact (back.before (by omega) rfl).bind fun same equal => .expect (.pure equal)
    exact bracketed.descendTo (Nat.le_refl _) small (fun _ => id) rfl (fun _ => rfl) (fun _ => by decide)
  case isFalse tighter =>
    rw [if_neg tighter] at enough
    have bareless := expr.endsBare_eq_false (by omega)
    refine ((back depth enough).weaken ?_).lower (by omega) fun _ => id
    exact fun kind less => ⟨by omega, by simp [bareless]⟩

theorem ReadsBack.ofReads (rank : Nat) (isRank : expr.rank = rank) (idle : operatorsAt rank = fun _ => none)
    (notLast : rank ≠ 9) (reads : ∀ depth after, weight expr.text ≤ depth + 1 →
      (∀ kind ∈ shows after, tight kind ≤ rank ∧ (expr.endsBare = true → endsReturn kind = true)) →
      Reads (parserAt (Syntax.grammar depth) rank) (expr.text ++ after) after (·.bare = expr.bare)) : ReadsBack expr := by
  subst rank
  exact fun depth enough => .ofReads (fun kind _ => stops_idle idle notLast kind) fun after => reads depth after enough

theorem loop_operator (grammar : Grammar) (operator : BinaryOp) (bound : Nat) (left : Expr) :
    loop grammar operator.rank bound left =
      leftAssociated (operatorsAt operator.rank) (parserAt grammar (operator.rank + 1)) bound left :=
  if_neg (by cases operator <;> decide)

theorem readsBack_binary {left right : Expr} (leftBack : ReadsBack left) (rightBack : ReadsBack right)
    (operator : BinaryOp) (span : Span) : ReadsBack (.mk (.binary operator left right) span) := by
  intro depth enough after rest post fits goesOn
  have ranks : 0 < operator.rank ∧ operator.rank < 10 := by cases operator <;> decide
  simp only [Expr.text, mark, weight_append, weight_token] at enough
  simp only [Expr.text, List.append_assoc]
  have first := leftBack.wrapped ranks.1 (Nat.le_of_lt ranks.2) (show _ ≤ depth + 1 by omega)
  have second := rightBack.wrapped (show 0 < operator.rank + 1 by omega) ranks.2 (show _ ≤ depth + 1 by omega)
  refine first _ rest post (by simp [shows, mark, tight_operator]) fun sameLeft bound leftEqual further => ?_
  obtain ⟨bound, rfl⟩ : ∃ less, bound = less + 1 := ⟨bound - 1, by simp [mark] at further; omega⟩
  rw [loop_operator]
  refine .first ?_
  rw [operatorsAt_eq_some.mpr ⟨rfl, rfl⟩]
  refine reads_bump.bind fun token _ => ?_
  refine (second.reads (fits_below fun kind shown => (fits kind shown).1)).bind fun sameRight rightEqual =>
    (reads_newExpr _ _).bind ?_
  rintro _ rfl
  have last := goesOn (.mk (.binary operator sameLeft sameRight) token.span) bound
    (by simp [leftEqual, rightEqual])
    (by simp [mark] at further; omega)
  rwa [Expr.rank, loop_operator] at last

theorem readsBack_suffix (objectBack : ReadsBack object) {suffix : List Piece}
    (isSuffix : expr.rank = 9) (text : expr.text = wrap 9 object.rank object.text ++ suffix)
    (heavy : 0 < weight suffix) (fits : ∀ after, ∀ kind ∈ shows (suffix ++ after), tight kind ≤ 9)
    (reads : ∀ depth bound same after, weight suffix ≤ depth → same.bare = object.bare → ∀ rest post,
      (∀ whole, whole.bare = expr.bare → Reads (suffixes (Syntax.grammar depth) bound whole) after rest post) →
      Reads (suffixes (Syntax.grammar depth) (bound + 1) same) (suffix ++ after) rest post) :
    ReadsBack expr := by
  intro depth enough after rest post follows goesOn
  rw [text, weight_append] at enough
  have positive := (object.begins_text.wrap 9).weight_pos
  rw [isSuffix] at goesOn ⊢
  rw [text, List.append_assoc]
  refine (objectBack.wrapped (by decide) (by decide) (by omega)) _ rest post (fits after) ?_
  intro same bound equal further
  obtain ⟨bound, rfl⟩ : ∃ less, bound = less + 1 := ⟨bound - 1, by simp at further; omega⟩
  refine reads depth bound same after (by omega) equal rest post fun whole wholeEqual => ?_
  exact goesOn whole bound wholeEqual (by simp at further; omega)

theorem readsBack_index {index : Expr} (objectBack : ReadsBack object) (indexBack : ReadsBack index) (span : Span) :
    ReadsBack (.mk (.index object index) span) := by
  refine readsBack_suffix objectBack rfl rfl (by simp [between, mark]) (fun _ => fits_mark _ (by decide)) ?_
  intro depth bound same after enough equal rest post goesOn
  rw [between_append]
  refine .first (.step ?_)
  simp only [between, mark, weight_token, weight_append] at enough
  refine (indexBack.before (by omega) rfl).bind fun sameIndex indexEqual => .expect <| (reads_newExpr _ _).bind ?_
  rintro _ rfl
  exact goesOn _ (by simp [equal, indexEqual])

theorem readsBack_member (objectBack : ReadsBack object) (name : String) (span : Span) :
    ReadsBack (.mk (.member object name) span) := by
  refine readsBack_suffix objectBack rfl rfl (by simp [mark]) (fun _ => fits_mark _ (by decide)) ?_
  intro depth bound same after enough equal rest post goesOn
  refine .first (.step ?_)
  have named : Reads expectName (.token (if name = "free" then .freeKw else .id) name :: after) after
      (·.lexeme = name) := by
    split
    · exact .look <| reads_bump.bind fun token both => .pure both.2
    · exact .notLook (by simp [shows]) <| .look <| reads_bump.mono fun _ both => both.2
  refine named.bind fun token same => (reads_newExpr _ _).bind ?_
  rintro _ rfl
  exact goesOn _ (by simp [equal, same])

section Lists

variable {α : Type} {item : Parser α} {text : α → List Piece} {bare : α → α}

def further (text : α → List Piece) (items : List α) : List Piece :=
  items.flatMap fun item => mark .comma :: text item

theorem further_cons (first : α) (rest : List α) :
    further text (first :: rest) ++ after = mark .comma :: (text first ++ (further text rest ++ after)) := by
  simp [further]

theorem reads_afterCommas {items : List α} (each : ∀ one rest, one :: rest <:+ items →
      Reads item (text one ++ (further text rest ++ after)) (further text rest ++ after) (bare · = bare one))
    (ends : ∀ kind ∈ shows after, kind ≠ .comma) {bound : Nat} (enough : weight (further text items ++ after) ≤ bound) :
    Reads (afterCommas item bound) (further text items ++ after) after (·.map bare = items.map bare) := by
  induction items generalizing bound with
  | nil =>
    cases bound with
    | zero => exact .pure rfl
    | succ bound =>
      exact .notEat ends (.pure rfl)
  | cons first rest ih =>
    rw [further_cons] at enough ⊢
    simp only [mark, weight_token, weight_append] at enough
    obtain ⟨bound, rfl⟩ : ∃ less, bound = less + 1 := ⟨bound - 1, by omega⟩
    refine .eat ?_
    refine (each first rest (List.suffix_refl _)).bind fun value equal => ?_
    have others := ih (fun one rest suffix => each one rest (suffix.trans (List.suffix_cons _ _)))
      (show weight (further text rest ++ after) ≤ bound by simp only [weight_append]; omega)
    exact others.bind fun values equals => .pure (by simp [equal, equals])

theorem reads_separated {first : α} {others : List α} (each : ∀ one rest, one :: rest <:+ first :: others →
      Reads item (text one ++ (further text rest ++ after)) (further text rest ++ after) (bare · = bare one))
    (ends : ∀ kind ∈ shows after, kind ≠ .comma) :
    Reads (separated item) (commas ((first :: others).map text) ++ after) after
      (·.map bare = (first :: others).map bare) := by
  have split : commas ((first :: others).map text) ++ after = text first ++ (further text others ++ after) := by
    simp [commas, further, List.flatMap_map]
  rw [split]
  refine (each first others (List.suffix_refl _)).bind fun value equal => ?_
  have rest : ∀ bound, weight (further text others ++ after) ≤ bound →
      Reads (do return value :: (← afterCommas item bound)) (further text others ++ after) after
        (·.map bare = (first :: others).map bare) := by
    intro bound enough
    refine (reads_afterCommas (fun one rest suffix => each one rest (suffix.trans (List.suffix_cons _ _))) ends enough).bind
      fun values equals => .pure (by simp [equal, equals])
  exact reads_remaining rest

end Lists

theorem arePlain_suffix {rest : List Expr} (plain : arePlain exprs = true) (suffix : expr :: rest <:+ exprs) :
    expr.isPlain = true ∧ (rest = [] ∨ expr.endsBare = false) := by
  induction exprs with
  | nil => simp at suffix
  | cons first others ih =>
    simp only [arePlain, Bool.and_eq_true, Bool.or_eq_true, List.isEmpty_iff, Bool.not_eq_eq_eq_not] at plain
    rcases List.suffix_cons_iff.mp suffix with same | inner
    · obtain ⟨rfl, rfl⟩ := List.cons.inj same
      exact plain.1
    · exact ih plain.2 inner

theorem weight_le_commas {texts : List (List Piece)} {text : List Piece} (member : text ∈ texts) :
    weight text ≤ weight (commas texts) := by
  have later : ∀ rest : List (List Piece), text ∈ rest → weight text ≤ weight (rest.flatMap (mark .comma :: ·)) := by
    intro rest member
    induction rest with
    | nil => cases member
    | cons first rest ih =>
      simp only [List.flatMap_cons, mark, weight_token, weight_append]
      rcases List.mem_cons.mp member with rfl | inside
      · omega
      · have := ih inside
        simp only [mark] at this
        omega
  cases texts with
  | nil => cases member
  | cons first rest =>
    simp only [commas, weight_append]
    rcases List.mem_cons.mp member with rfl | inside
    · omega
    · have := later rest inside
      omega

theorem reads_arguments (back : ∀ expr ∈ exprs, ReadsBack expr) (plain : arePlain exprs = true)
    {opening closing : TokenKind} (closes : endsReturn closing = true)
    (enough : weight (between opening closing (commas (texts exprs))) ≤ depth + 1) :
    Reads (delimited opening closing (Syntax.grammar depth).expression)
      (between opening closing (commas (texts exprs)) ++ after) after (bareAll · = bareAll exprs) := by
  rw [between_append]
  refine .expect ?_
  simp only [between, mark, weight_token, weight_append] at enough
  rw [texts_eq_map] at enough ⊢
  simp only [bareAll_eq_map]
  cases exprs with
  | nil =>
    exact .look <| .expect (.pure rfl)
  | cons first others =>
    have opens : Begins 0 (commas ((first :: others).map Expr.text)) :=
      (first.begins_text.mono (Nat.zero_le _)).append _
    have inside : ∀ kind ∈ shows (commas ((first :: others).map Expr.text) ++ mark closing :: after), kind ≠ closing := by
      rintro kind shown rfl
      have allowed := opens.shows shown
      cases kind <;> simp_all [begins, endsReturn]
    refine .notLook inside ?_
    have each : ∀ one rest, one :: rest <:+ first :: others → Reads (Syntax.grammar depth).expression
        (one.text ++ (further Expr.text rest ++ mark closing :: after)) (further Expr.text rest ++ mark closing :: after)
        (·.bare = one.bare) := by
      intro one rest suffix
      have member := suffix.subset (List.mem_cons_self ..)
      have fewer := weight_le_commas (List.mem_map_of_mem (f := Expr.text) member)
      rcases (arePlain_suffix plain suffix).2 with rfl | quiet
      · exact (back one member).before (by omega) closes
      · cases rest with
        | nil => exact (back one member).before (by omega) closes
        | cons next rest => exact (back one member).inner (by omega) (fits_mark _ ⟨rfl, by simp [quiet]⟩)
    have ends : ∀ kind ∈ shows (mark closing :: after), kind ≠ .comma :=
      fits_mark _ fun isComma => by simp [isComma, endsReturn] at closes
    exact (reads_separated each ends).bind fun values equal => .expect (.pure equal)

theorem readsBack_call {callee : Expr} (calleeBack : ReadsBack callee)
    (back : ∀ argument ∈ arguments, ReadsBack argument) (plain : arePlain arguments = true) (span : Span) :
    ReadsBack (.mk (.call callee arguments) span) := by
  refine readsBack_suffix calleeBack rfl rfl (by simp [between, mark]) (fun _ => fits_mark _ (by decide)) ?_
  intro depth bound same after enough equal rest post goesOn
  refine .first ?_
  refine (reads_arguments back plain rfl (by omega)).bind fun values equals => (reads_newExpr _ _).bind ?_
  rintro _ rfl
  exact goesOn _ (by simp [equal, equals])

theorem readsBack_unary (back : ReadsBack operand) (operator : UnaryOp) (span : Span) :
    ReadsBack (.mk (.unary operator operand) span) := by
  refine .ofReads 8 rfl rfl (by decide) fun depth after enough fits => ?_
  simp only [Expr.text, mark, weight_token] at enough
  refine .first ?_
  have known : unaryOperator operator.kind = some operator := by cases operator <;> rfl
  rw [known]
  refine reads_bump.bind fun token _ => ?_
  have inner := (back.wrapped (show 0 < 9 by decide) (by decide) (show _ ≤ depth + 1 by omega)).reads
    (fits_below fun kind shown => (fits kind shown).1)
  refine inner.bind fun same equal => .made (by simp [equal])

theorem readsBack_range {start stop : Expr} (startBack : ReadsBack start) (stopBack : ReadsBack stop)
    (operator : RangeOp) (span : Span) : ReadsBack (.mk (.range start stop operator) span) := by
  refine .ofReads 5 rfl rfl (by decide) fun depth after enough fits => ?_
  simp only [Expr.text, mark, weight_append, weight_token] at enough
  simp only [Expr.text, List.append_assoc]
  have first := startBack.wrapped (show 0 < 6 by decide) (by decide) (show _ ≤ depth + 1 by omega)
  have second := (stopBack.wrapped (show 0 < 6 by decide) (by decide) (show _ ≤ depth + 1 by omega)).reads
    (fits_below fun kind shown => (fits kind shown).1)
  refine (first.reads (fits_mark .dotDot ⟨Nat.le_refl 6, rfl, by decide⟩)).bind fun sameStart startEqual => .look ?_
  refine reads_bump.bind fun token _ => ?_
  cases operator with
  | lte =>
    refine reads_kind.bind fun kind shown => ?_
    have unwritten : rangeOperator kind = none := by
      have allowed := (stop.begins_text.wrap 6).shows shown
      cases kind <;> simp_all [begins, rangeOperator]
    rw [unwritten]
    refine second.bind fun sameStop stopEqual => .made (by simp [startEqual, stopEqual])
  | _ =>
    refine .first <| .step <| second.bind fun sameStop stopEqual => .made (by simp [startEqual, stopEqual])

def EndsType (kind : TokenKind) : Prop :=
  kind ≠ .lt ∧ kind ≠ .question ∧ kind ≠ .bang

def TypeReadsBack (type : TypeExpr) : Prop :=
  ∀ depth after, weight type.text ≤ depth + 1 → (∀ kind ∈ shows after, EndsType kind) →
    Reads (typeRule (Syntax.grammar depth)) (type.text ++ after) after (·.bare = type.bare)

theorem TypeExpr.weight_pos (type : TypeExpr) : 0 < weight type.text := by
  unfold TypeExpr.text
  split <;> simp [mark]

theorem TypeReadsBack.inner (back : TypeReadsBack type) (enough : weight type.text ≤ depth)
    (fits : ∀ kind ∈ shows after, EndsType kind) :
    Reads (Syntax.grammar depth).type (type.text ++ after) after (·.bare = type.bare) := by
  have positive := type.weight_pos
  obtain ⟨depth, rfl⟩ : ∃ less, depth = less + 1 := ⟨depth - 1, by omega⟩
  exact back depth after enough fits

theorem readsBack_target {target : TypeExpr} (back : ReadsBack operand) (typeBack : TypeReadsBack target)
    (span : Span) : ReadsBack (.mk (.cast operand target) span) ∧ ReadsBack (.mk (.isTest operand target) span) := by
  have ends : ∀ {kind}, tight kind ≤ 1 → EndsType kind := by
    intro kind loose
    refine ⟨?_, ?_, ?_⟩ <;> rintro rfl <;> simp [tight] at loose
  constructor <;> refine .ofReads 1 rfl rfl (by decide) fun depth after enough fits => ?_
  all_goals
    simp only [Expr.text, mark, weight_append, weight_token] at enough
    simp only [Expr.text, List.append_assoc]
    have first := back.wrapped (show 0 < 2 by decide) (by decide) (show _ ≤ depth + 1 by omega)
    have second := typeBack.inner (show _ ≤ depth by omega) fun kind shown => ends (fits kind shown).1
  · refine (first.reads (fits_mark .asKw ⟨Nat.le_refl 2, rfl, by decide⟩)).bind fun same equal => .look ?_
    refine reads_bump.bind fun token _ => second.bind fun sameType typeEqual =>
      .made (by simp [equal, typeEqual])
  · refine (first.reads (fits_mark .isKw ⟨Nat.le_refl 2, rfl, by decide⟩)).bind fun same equal => ?_
    refine .notLook (fits_mark _ (by decide)) (.look ?_)
    refine reads_bump.bind fun token _ => second.bind fun sameType typeEqual =>
      .made (by simp [equal, typeEqual])

/-! Conditions, and what begins with a keyword, a name or a literal. -/

theorem readsBack_conditional {condition thenBranch elseBranch : Expr} (conditionBack : ReadsBack condition)
    (thenBack : ReadsBack thenBranch) (elseBack : ReadsBack elseBranch) (quiet : thenBranch.endsBare = false)
    (span : Span) : ReadsBack (.mk (.conditional condition thenBranch elseBranch) span) := by
  refine .ofReads 0 rfl rfl (by decide) fun depth after enough fits => ?_
  simp only [Expr.text, mark, weight_append, weight_token] at enough
  simp only [Expr.text, List.append_assoc, List.cons_append]
  refine .eat ?_
  have first := conditionBack.wrapped (show 0 < 1 by decide) (by decide) (show _ ≤ depth + 1 by omega)
  refine (first.reads (fits_mark .thenKw ⟨Nat.zero_le 1, stops_idle rfl (by decide) _⟩)).bind fun same equal => ?_
  refine .expect ?_
  refine (thenBack.inner (by omega) (fits_mark _ ⟨rfl, by simp [quiet]⟩)).bind fun sameThen thenEqual => ?_
  refine .expect ?_
  refine (elseBack.inner (by omega) fun kind shown => ⟨Nat.le_zero.mp (fits kind shown).1, (fits kind shown).2⟩).bind
    fun sameElse elseEqual => .made (by simp [equal, thenEqual, elseEqual])

theorem ReadsBack.ofPrimary {lexeme : String} {more : List Piece}
    (head : expr.text = .token kind lexeme :: more) (unsigned : unaryOperator kind = none) (unconditional : kind ≠ .ifKw)
    (reads : ∀ depth after, weight expr.text ≤ depth + 1 → (∀ kind ∈ shows after, expr.Follow kind) →
      Reads (primary (Syntax.grammar depth)) (expr.text ++ after) after (·.bare = expr.bare)) : ReadsBack expr := by
  intro depth enough
  have whole : Yields (Syntax.grammar depth) expr.Follow 10 expr.text expr :=
    .ofReads (fun kind _ => stops_idle rfl (by decide) kind) fun after => reads depth after enough
  exact whole.descendTo (Nat.le_refl _) expr.rank_le (fun _ follows => follows.1) head (fun _ => unsigned)
    (fun _ => unconditional)

theorem readsBack_literal {value : Literal} (plain : value.isPlain = true) (span : Span) :
    ReadsBack (.mk (.literal value) span) := by
  cases value with
  | real value => cases plain
  | int value =>
    refine .ofPrimary rfl rfl (by decide) fun depth after _ _ => .first <|
      reads_bump.bind fun token both => ?_
    rw [both.2, wordLiteral?_repr (by simpa [Literal.isPlain] using plain)]
    exact .made rfl
  | char value =>
    refine .ofPrimary rfl rfl (by decide) fun depth after _ _ => .first <|
      reads_bump.bind fun token both => ?_
    have single : token.lexeme.toList = [value] := by simp [both.2]
    simp only [charLiteral, single]
    exact .made rfl
  | string value =>
    refine .ofPrimary rfl rfl (by decide) fun depth after _ _ => .first <|
      reads_bump.bind fun token both => ?_
    exact .made (by simp [both.2])

theorem readsBack_name (name : String) (span : Span) : ReadsBack (.mk (.name name) span) := by
  refine .ofPrimary rfl rfl (by decide) fun depth after _ _ => .first <|
    reads_bump.bind fun token both => .made (by simp [both.2])

theorem readsBack_leave (span : Span) : ReadsBack (.mk .breakExpr span) ∧ ReadsBack (.mk .continueExpr span) := by
  constructor <;> refine .ofPrimary rfl rfl (by decide) fun depth after _ _ => .first ?_
  all_goals exact reads_bump.bind fun token _ => .made rfl

theorem readsBack_return (span : Span) : ReadsBack (.mk (.returnExpr none) span) := by
  refine .ofPrimary rfl rfl (by decide) fun depth after _ fits => .first <|
    reads_bump.bind fun token _ => reads_kind.bind fun kind shown => ?_
  rw [if_pos ((fits kind shown).2 rfl)]
  exact .made rfl

theorem readsBack_returnValue {value : Expr} (back : ReadsBack value) (span : Span) :
    ReadsBack (.mk (.returnExpr (some value)) span) := by
  refine .ofPrimary rfl rfl (by decide) fun depth after enough fits => .first ?_
  simp only [Expr.text, mark, weight_token] at enough
  refine reads_bump.bind fun token _ => reads_kind.bind fun kind shown => ?_
  have starts : endsReturn kind = false := by
    have allowed := (value.begins_text.mono (Nat.zero_le _)).shows shown
    cases kind <;> simp_all [begins, endsReturn]
  simp only [starts, Bool.false_eq_true]
  refine (back.inner (by omega) fun kind shown => ⟨Nat.le_zero.mp (fits kind shown).1, (fits kind shown).2⟩).bind
    fun same equal => .made (by simp [equal])

theorem readsBack_createList {elements : List Expr} (typeBack : TypeReadsBack type)
    (back : ∀ element ∈ elements, ReadsBack element) (plain : arePlain elements = true) (onStack : Bool) (span : Span) :
    ReadsBack (.mk (.createList type elements onStack) span) := by
  refine .ofPrimary rfl (by cases onStack <;> rfl) (by cases onStack <;> decide) fun depth after enough _ => ?_
  simp only [Expr.text, mark, weight_token, weight_append] at enough
  simp only [Expr.text, List.append_assoc, List.cons_append]
  refine .first ?_
  have made : Reads (creation (Syntax.grammar depth)) (mark (if onStack then .localKw else .newKw) ::
      (type.text ++ (between .openSquare .closeSquare (commas (texts elements)) ++ after))) after
      (·.bare = (Expr.mk (.createList type elements onStack) span).bare) := by
    refine reads_bump.bind fun token both => ?_
    have stack : (token.kind == .localKw) = onStack := by cases onStack <;> simp [both.1]
    refine (typeBack.inner (by omega) (fits_mark _ (by simp [EndsType]))).bind fun sameType typeEqual => .look ?_
    refine (reads_arguments back plain rfl (by omega)).bind fun values equals =>
      .made (by simp [typeEqual, equals, stack])
  cases onStack <;> exact made

theorem readsBack_create {fill : Fill} (typeBack : TypeReadsBack type)
    (back : ∀ argument ∈ arguments, ReadsBack argument) (plain : arePlain arguments = true)
    (fillBack : ∀ body span, fill = .each body span → ReadsBack body) (onStack : Bool) (span : Span) :
    ReadsBack (.mk (.create type arguments fill onStack) span) := by
  refine .ofPrimary rfl (by cases onStack <;> rfl) (by cases onStack <;> decide) fun depth after enough fits => ?_
  simp only [Expr.text, mark, weight_token, weight_append] at enough
  simp only [Expr.text, List.append_assoc, List.cons_append]
  refine .first ?_
  have made : Reads (creation (Syntax.grammar depth)) (mark (if onStack then .localKw else .newKw) ::
      (type.text ++ (between .openRound .closeRound (commas (texts arguments)) ++ (fill.text ++ after)))) after
      (·.bare = (Expr.mk (.create type arguments fill onStack) span).bare) := by
    refine reads_bump.bind fun token both => ?_
    have stack : (token.kind == .localKw) = onStack := by cases onStack <;> simp [both.1]
    refine (typeBack.inner (by omega) (fits_mark _ (by simp [EndsType]))).bind fun sameType typeEqual => ?_
    refine .notLook (fits_mark _ (by decide)) (.look ?_)
    refine (reads_arguments back plain rfl (by omega)).bind fun values equals => ?_
    cases fill with
    | none =>
      refine .notLook ?_ (.made (by simp [typeEqual, equals, stack]))
      rintro _ shown rfl
      exact absurd (fits _ shown).1 (by simp [tight, Expr.rank])
    | each body place =>
      simp only [Fill.text, between, mark, weight_token, weight_append] at enough
      rw [Fill.text, between_append]
      refine .look ?_
      refine reads_bump.bind fun brace _ => ?_
      refine ((fillBack body place rfl).before (by omega) rfl).bind fun same equal => ?_
      refine .expect (reads_count.bind fun _ _ =>
        .made (by simp [typeEqual, equals, equal, stack]))
  cases onStack <;> exact made

def ShapeReadsBack (type : TypeExpr) : Prop :=
  ∀ depth after, weight type.text ≤ depth + 1 → (∀ kind ∈ shows after, kind ≠ .lt) →
    Reads (plainType (Syntax.grammar depth)) (type.text ++ after) after fun shape =>
      ∀ span, (TypeExpr.mk shape span).bare = type.bare

theorem ShapeReadsBack.unmarked (back : ShapeReadsBack type) : TypeReadsBack type := by
  intro depth after enough fits
  refine reads_peek.bind fun token _ => ?_
  refine (back depth after enough fun kind shown => (fits kind shown).1).bind fun shape equal => ?_
  refine .notEat (fun kind shown => (fits kind shown).2.1) ?_
  refine .notEat (fun kind shown => (fits kind shown).2.2) ?_
  exact .pure (equal _)

theorem ShapeReadsBack.marked (back : ShapeReadsBack type) (span : Span) :
    TypeReadsBack (.mk (.nullable type) span) ∧ TypeReadsBack (.mk (.errorUnion type) span) := by
  constructor <;> intro depth after enough _
  all_goals
    simp only [TypeExpr.text, weight_append] at enough
    simp only [TypeExpr.text, List.append_assoc, List.cons_append]
    refine reads_peek.bind fun token _ => ?_
  · refine (back depth _ (by omega) (fits_mark .question (by decide))).bind fun shape equal => .eat ?_
    exact .pure (by simp [← equal token.span])
  · refine (back depth _ (by omega) (fits_mark .bang (by decide))).bind fun shape equal => ?_
    refine .notEat (fits_mark .bang (by decide)) (.eat ?_)
    exact .pure (by simp [← equal token.span])

theorem ends_close : ∀ kind ∈ shows (.close :: after), EndsType kind := by
  simp [shows, EndsType]

theorem reads_typeArgument (back : TypeReadsBack type) (enough : weight type.text ≤ depth) :
    Reads (typeArgument (Syntax.grammar depth)) (mark .lt :: (type.text ++ .close :: after)) after
        (·.bare = type.bare) := by
  refine .expect <| (back.inner enough ends_close).bind fun same equal => ?_
  exact reads_expectGreater.bind fun _ _ => .pure equal

theorem shapeReadsBack_named {arguments : List TypeExpr} (back : ∀ type ∈ arguments, TypeReadsBack type) (name : String)
    (span : Span) : ShapeReadsBack (.mk (.named name arguments) span) := by
  intro depth after enough fits
  cases arguments with
  | nil =>
    refine .first <| reads_bump.bind fun token both => .notEat fits ?_
    exact .pure fun _ => by simp [both.2]
  | cons first others =>
    have written : first.text :: typeTexts others = (first :: others).map TypeExpr.text := by simp [typeTexts_eq_map]
    rw [TypeExpr.text, written] at enough ⊢
    simp only [mark, weight_token, weight_append] at enough
    simp only [List.cons_append, List.append_assoc]
    refine .first <| reads_bump.bind fun token both => .eat ?_
    have each : ∀ one rest, one :: rest <:+ first :: others → Reads (Syntax.grammar depth).type
        (one.text ++ (further TypeExpr.text rest ++ .close :: after)) (further TypeExpr.text rest ++ .close :: after)
        (·.bare = one.bare) := by
      intro one rest suffix
      have member := suffix.subset (List.mem_cons_self ..)
      have fewer := weight_le_commas (List.mem_map_of_mem (f := TypeExpr.text) member)
      refine (back one member).inner (by omega) ?_
      cases rest with
      | nil => exact ends_close
      | cons next rest => exact fits_mark .comma (by simp [EndsType])
    refine (reads_separated each (by simp [shows])).bind fun values equals => reads_expectGreater.bind fun _ _ => .pure ?_
    exact fun _ => by simp [both.2, bareTypes_eq_map, equals]

theorem shapeReadsBack_array (span : Span) : ShapeReadsBack (.mk (.array none) span) := by
  intro depth after enough fits
  refine .first <| .step <| .notEat fits ?_
  exact .pure fun _ => by simp

theorem shapeReadsBack_arrayOf (back : TypeReadsBack element) (span : Span) :
    ShapeReadsBack (.mk (.array (some element)) span) := by
  intro depth after enough _
  simp only [TypeExpr.text, mark, weight_token, weight_append] at enough
  simp only [TypeExpr.text, List.cons_append, List.append_assoc]
  refine .first <| .step <| .eat ?_
  refine (back.inner (by omega) ends_close).bind fun same equal => reads_expectGreater.bind fun _ _ => .pure ?_
  exact fun _ => by simp [equal]

theorem shapeReadsBack_range (back : TypeReadsBack element) (span : Span) :
    ShapeReadsBack (.mk (.range element) span) := by
  intro depth after enough _
  simp only [TypeExpr.text, mark, weight_token, weight_append] at enough
  simp only [TypeExpr.text, List.cons_append, List.append_assoc]
  refine .first <| .step <| (reads_typeArgument back (by omega)).bind fun same equal => .pure ?_
  exact fun _ => by simp [equal]

theorem shapeReadsBack_fixedArray {size : Expr} (back : TypeReadsBack element)
    (sizeBack : ReadsBack size) (span : Span) : ShapeReadsBack (.mk (.fixedArray element size) span) := by
  intro depth after enough _
  simp only [TypeExpr.text, between, mark, weight_token, weight_append, weight_close] at enough
  simp only [TypeExpr.text, List.cons_append, List.append_assoc, between_append]
  refine .first <| .step <| (reads_typeArgument back (by omega)).bind fun same equal => ?_
  refine .expect <| (sizeBack.before (by omega) rfl).bind fun sameSize sizeEqual => ?_
  refine .expect <| .pure ?_
  exact fun _ => by simp [equal, sizeEqual]

theorem ShapeReadsBack.both (back : ShapeReadsBack type) :
    TypeReadsBack type ∧ (type.isMarked = false → ShapeReadsBack type) :=
  ⟨back.unmarked, fun _ => back⟩

mutual

theorem Expr.readsBack (expr : Expr) (plain : expr.isPlain = true) : ReadsBack expr := by
  obtain ⟨shape, span⟩ := expr
  cases shape with
  | literal value => exact readsBack_literal plain span
  | name name => exact readsBack_name name span
  | breakExpr => exact (readsBack_leave span).1
  | continueExpr => exact (readsBack_leave span).2
  | unary operator operand => exact readsBack_unary (operand.readsBack plain) operator span
  | member object name => exact readsBack_member (object.readsBack plain) name span
  | binary operator left right =>
    obtain ⟨leftPlain, rightPlain⟩ := Bool.and_eq_true_iff.mp plain
    exact readsBack_binary (left.readsBack leftPlain) (right.readsBack rightPlain) operator span
  | index object index =>
    obtain ⟨objectPlain, indexPlain⟩ := Bool.and_eq_true_iff.mp plain
    exact readsBack_index (object.readsBack objectPlain) (index.readsBack indexPlain) span
  | range start stop operator =>
    obtain ⟨startPlain, stopPlain⟩ := Bool.and_eq_true_iff.mp plain
    exact readsBack_range (start.readsBack startPlain) (stop.readsBack stopPlain) operator span
  | call callee arguments =>
    obtain ⟨calleePlain, argumentsPlain⟩ := Bool.and_eq_true_iff.mp plain
    exact readsBack_call (callee.readsBack calleePlain) (allReadBack arguments argumentsPlain) argumentsPlain span
  | cast operand target =>
    obtain ⟨operandPlain, targetPlain⟩ := Bool.and_eq_true_iff.mp plain
    exact (readsBack_target (operand.readsBack operandPlain) (target.readsBack targetPlain).1 span).1
  | isTest operand target =>
    obtain ⟨operandPlain, targetPlain⟩ := Bool.and_eq_true_iff.mp plain
    exact (readsBack_target (operand.readsBack operandPlain) (target.readsBack targetPlain).1 span).2
  | conditional condition thenBranch elseBranch =>
    simp only [Expr.isPlain, Bool.and_eq_true, Bool.not_eq_eq_eq_not, Bool.not_true] at plain
    obtain ⟨⟨⟨conditionPlain, thenPlain⟩, quiet⟩, elsePlain⟩ := plain
    exact readsBack_conditional (condition.readsBack conditionPlain) (thenBranch.readsBack thenPlain)
      (elseBranch.readsBack elsePlain) quiet span
  | create type arguments fill onStack =>
    simp only [Expr.isPlain, Bool.and_eq_true] at plain
    obtain ⟨⟨typePlain, argumentsPlain⟩, fillPlain⟩ := plain
    have fillBack : ∀ body place, fill = .each body place → ReadsBack body := by
      cases fill with
      | none => simp
      | each body place =>
        rintro _ _ ⟨⟩
        exact body.readsBack fillPlain
    exact readsBack_create (type.readsBack typePlain).1 (allReadBack arguments argumentsPlain) argumentsPlain fillBack
      onStack span
  | createList type elements onStack =>
    obtain ⟨typePlain, elementsPlain⟩ := Bool.and_eq_true_iff.mp plain
    exact readsBack_createList (type.readsBack typePlain).1 (allReadBack elements elementsPlain) elementsPlain onStack span
  | returnExpr value =>
    cases value with
    | none => exact readsBack_return span
    | some value => exact readsBack_returnValue (value.readsBack plain) span

theorem allReadBack (exprs : List Expr) (plain : arePlain exprs = true) : ∀ expr ∈ exprs, ReadsBack expr := by
  cases exprs with
  | nil => simp
  | cons first rest =>
    simp only [arePlain, Bool.and_eq_true] at plain
    exact List.forall_mem_cons.mpr ⟨first.readsBack plain.1.1, allReadBack rest plain.2⟩

theorem TypeExpr.readsBack (type : TypeExpr) (plain : type.isPlain = true) :
    TypeReadsBack type ∧ (type.isMarked = false → ShapeReadsBack type) := by
  obtain ⟨shape, span⟩ := type
  cases shape with
  | named name arguments => exact (shapeReadsBack_named (allTypesReadBack arguments plain) name span).both
  | range element => exact (shapeReadsBack_range (element.readsBack plain).1 span).both
  | array element =>
    cases element with
    | none => exact (shapeReadsBack_array span).both
    | some element => exact (shapeReadsBack_arrayOf (element.readsBack plain).1 span).both
  | fixedArray element size =>
    obtain ⟨elementPlain, sizePlain⟩ := Bool.and_eq_true_iff.mp plain
    exact (shapeReadsBack_fixedArray (element.readsBack elementPlain).1 (size.readsBack sizePlain) span).both
  | nullable inner =>
    obtain ⟨innerPlain, unmarked⟩ := Bool.and_eq_true_iff.mp plain
    exact ⟨((inner.readsBack innerPlain).2 (by simpa using unmarked)).marked span |>.1, by simp [TypeExpr.isMarked]⟩
  | errorUnion inner =>
    obtain ⟨innerPlain, unmarked⟩ := Bool.and_eq_true_iff.mp plain
    exact ⟨((inner.readsBack innerPlain).2 (by simpa using unmarked)).marked span |>.2, by simp [TypeExpr.isMarked]⟩

theorem allTypesReadBack (types : List TypeExpr) (plain : arePlainTypes types = true) :
    ∀ type ∈ types, TypeReadsBack type := by
  cases types with
  | nil => simp
  | cons first rest =>
    simp only [arePlainTypes, Bool.and_eq_true] at plain
    exact List.forall_mem_cons.mpr ⟨(first.readsBack plain.1).1, allTypesReadBack rest plain.2⟩

end

end ReadsBack

/-- From a line that holds the tokens of a text and nothing else, a rule reads the text: it stops at the end of the line
with no half of a `>>` left over, and it reports nothing. The rules may nest as deep as there are tokens. -/
def ReadsLine {α : Type} (rule : Grammar → Parser α) (text : List Piece) (post : α → Prop) : Prop :=
  ∀ (stream : TokenStream) (tokens later : List Token) (stop : Token) (depth : Nat),
    (tokens.map fun token => (token.kind, token.lexeme)) = fuse text →
    stream.current :: stream.rest = tokens ++ stop :: later → stop.kind = .eol → stream.pendingGreater = none →
    stream.rest.length ≤ depth →
    ∃ value last, (rule (Syntax.grammar depth)).run stream = (.ok value, last) ∧ post value ∧
      last.current = stop ∧ last.rest = later ∧ last.pendingGreater = none ∧ last.diagnostics = stream.diagnostics

theorem Reads.line {α : Type} {rule : Grammar → Parser α} {post : α → Prop}
    (reads : ∀ depth, weight text ≤ depth → Reads (rule (Syntax.grammar depth)) text [] post) :
    ReadsLine rule text post := by
  intro stream tokens later stop depth printed line ends ready deep
  have enough : weight text ≤ depth := by
    have fewer := weight_le_fuse text
    have lengths := congrArg List.length line
    rw [← printed, List.length_map] at fewer
    simp only [List.length_cons, List.length_append] at lengths
    omega
  obtain ⟨value, last, run, holds, spells⟩ :=
    reads depth enough ⟨stop, later, stream.diagnostics, ends⟩ stream (.whole ready ⟨rfl, tokens, printed, line⟩)
  cases spells with
  | whole ready left =>
    obtain ⟨others, same, all⟩ := left.tokens
    obtain rfl : others = [] := by simpa [fuse] using same
    obtain ⟨current, rest⟩ := List.cons.inj all
    exact ⟨value, last, run, holds, current, rest, ready, left.reported⟩

/-- Reading undoes printing. -/
theorem reading_undoes_printing :
    (∀ expr : Expr, expr.isPlain = true → ReadsLine Grammar.expression expr.text (·.bare = expr.bare)) ∧
      ∀ type : TypeExpr, type.isPlain = true → ReadsLine Grammar.type type.text (·.bare = type.bare) := by
  refine ⟨fun expr plain => Reads.line fun depth enough => ?_, fun type plain => Reads.line fun depth enough => ?_⟩
  · have back : ReadsBack expr := expr.readsBack plain
    have whole : Reads (Syntax.grammar depth).expression (expr.text ++ []) [] (·.bare = expr.bare) :=
      back.inner enough (by simp [shows, tight, endsReturn])
    rwa [List.append_nil] at whole
  · have back : TypeReadsBack type := (type.readsBack plain).1
    have whole : Reads (Syntax.grammar depth).type (type.text ++ []) [] (·.bare = type.bare) :=
      back.inner enough (by simp [shows, EndsType])
    rwa [List.append_nil] at whole

def spelled (text : List Piece) : List Token :=
  (fuse text).map fun token => ⟨token.1, token.2, .nowhere⟩

def nestedBrackets : Expr :=
  let named (name : String) : Expr := .mk (.name name) .nowhere
  let plain (name : String) : TypeExpr := .mk (.named name []) .nowhere
  let optional : TypeExpr := .mk (.nullable (plain "T")) .nowhere
  let ranges : TypeExpr := .mk (.array (some (.mk (.range optional) .nowhere))) .nowhere
  let target : TypeExpr := .mk (.named "Map" [plain "Int", ranges]) .nowhere
  let difference : Expr := .mk (.binary .minus (named "b") (.mk (.literal (.int 1)) .nowhere)) .nowhere
  let bound : Expr := .mk (.conditional (named "c") (.mk (.returnExpr (some (named "d"))) .nowhere)
    (.mk (.returnExpr none) .nowhere)) .nowhere
  .mk (.binary .star (.mk (.unary .minus (.mk (.binary .minus (named "a") difference) .nowhere)) .nowhere)
    (.mk (.index (.mk (.cast (named "x") target) .nowhere) (.mk (.range (named "i") bound .lt) .nowhere)) .nowhere))
    .nowhere

theorem reading_undoes_printing_nestedBrackets :
    nestedBrackets.isPlain = true ∧ (fuse nestedBrackets.text).countP (·.1 = .right) = 1 ∧
      ∃ parsed last, ((grammar 50).expression.run
          (.ofTokens (spelled nestedBrackets.text ++ [⟨.eol, "", .nowhere⟩]))) = (.ok parsed, last) ∧
        parsed.bare = nestedBrackets.bare ∧ last.current.kind = .eol ∧ last.pendingGreater = none ∧
        last.diagnostics = [] := by
  obtain ⟨parsed, last, run, same, current, _, ready, silent⟩ := reading_undoes_printing.1 nestedBrackets rfl
    (.ofTokens (spelled nestedBrackets.text ++ [⟨.eol, "", .nowhere⟩])) (spelled nestedBrackets.text) _
    ⟨.eol, "", .nowhere⟩ 50 rfl rfl rfl rfl (by decide)
  exact ⟨rfl, by decide, parsed, last, run, same, by rw [current], ready, silent⟩

def markedTwice : Expr :=
  .mk (.cast (.mk (.name "x") .nowhere)
    (.mk (.nullable (.mk (.nullable (.mk (.named "T" []) .nowhere)) .nowhere)) .nowhere)) .nowhere

def returnBeforeElse : Expr :=
  .mk (.conditional (.mk (.name "x") .nowhere) (.mk (.returnExpr none) .nowhere)
    (.mk (.literal (.int 1)) .nowhere)) .nowhere

def returnBeforeComma : Expr :=
  .mk (.call (.mk (.name "f") .nowhere) [.mk (.returnExpr none) .nowhere, .mk (.literal (.int 1)) .nowhere]) .nowhere

def printedLine (expr : Expr) : TokenStream :=
  .ofTokens (spelled expr.text ++ [⟨.eol, "", .nowhere⟩])

theorem not_readsLine {expr : Expr} {later : List Token}
    (line : (printedLine expr).current :: (printedLine expr).rest = spelled expr.text ++ ⟨.eol, "", .nowhere⟩ :: later)
    (deep : (printedLine expr).rest.length ≤ 10)
    (stops : ((grammar 10).expression.run (printedLine expr)).2.current.kind ≠ .eol) :
    ¬ ReadsLine Grammar.expression expr.text (·.bare = expr.bare) := by
  intro reads
  have printed : ((spelled expr.text).map fun token => (token.kind, token.lexeme)) = fuse expr.text :=
    List.map_map.trans (List.map_id _)
  obtain ⟨parsed, last, run, _, current, _⟩ := reads (printedLine expr) _ later _ 10 printed line rfl rfl deep
  rw [run, current] at stops
  exact stops rfl

/-- A second mark is left over, and what follows a return is taken for its value. -/
theorem unplain_not_read :
    ¬ ReadsLine Grammar.expression markedTwice.text (·.bare = markedTwice.bare) ∧
    ¬ ReadsLine Grammar.expression returnBeforeElse.text (·.bare = returnBeforeElse.bare) ∧
    ¬ ReadsLine Grammar.expression returnBeforeComma.text (·.bare = returnBeforeComma.bare) :=
  ⟨not_readsLine rfl (by decide) (by decide), not_readsLine rfl (by decide) (by decide),
    not_readsLine rfl (by decide) (by decide)⟩

end FplCompiler.Syntax
