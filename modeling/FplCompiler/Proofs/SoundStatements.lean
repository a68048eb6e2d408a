import FplCompiler.Proofs.Coverage
import FplCompiler.Proofs.SoundExpressions

/-!
All nodes in the statements of checked bodies are sound, and the check goes to all that a body defines, also where the
program is rejected.
-/

namespace FplCompiler.Analysis

open Check

open Syntax (Definition)

open Typed (loweredBy loweredByClauses loweredByCases stmtsWithin clausesWithin casesWithin)

section

variable {basis : Basis} {given condition : Prop} {value target : Typed.Expr} {facts : Facts Ty} {α β : Type}
  {final : State} {closed : Prop} {definitions : List Definition} {stmt : Typed.Stmt} {body : Check (List Typed.Stmt)}
  {cause : Cause} {expected type : Ty} {expected? : Option Ty} {span : Span}

namespace Basis

theorem HoldsAll.ofOption {expr? : Option Typed.Expr} (holds : ∀ expr, expr? = some expr → basis.Holds expr) :
    basis.HoldsAll expr?.toList := by
  intro expr member
  exact holds expr (Option.mem_toList.mp member)

theorem holdsStmt_iff : basis.HoldsStmt stmt ↔ (∀ message, stmt ≠ .error message) ∧
    basis.HoldsAll stmt.parts ∧ ∀ subject clauses, stmt = .whenCases subject clauses → Typed.Chooses subject clauses := by
  cases stmt with
  | error message => simp [HoldsStmt]
  | whenCases subject clauses => simp [HoldsStmt]
  | _ => simp [HoldsStmt]

namespace HoldsStmts

theorem nil : basis.HoldsStmts [] :=
  fun _ member => nomatch member

theorem append {first second : List Typed.Stmt} (one : basis.HoldsStmts first) (two : basis.HoldsStmts second) :
    basis.HoldsStmts (first ++ second) :=
  List.forall_mem_append.mpr ⟨one, two⟩

theorem around {inner : List Typed.Stmt} (holds : basis.HoldsStmt stmt)
    (inside : basis.HoldsStmts inner) : basis.HoldsStmts (stmt :: inner) :=
  List.forall_mem_cons.mpr ⟨holds, inside⟩

theorem ofAppended {first second : List Typed.Stmt} (one : basis.HoldsBody first)
    (two : basis.HoldsBody second) : basis.HoldsBody (first ++ second) := by
  rw [HoldsBody, Typed.stmtsWithin_append]
  exact one.append two

end HoldsStmts

end Basis

theorem sound_countNode : basis.Gives given countNode fun _ => True :=
  .marking fun _ => .marks fun _ => ⟨id, rfl, rfl, rfl, rfl, rfl⟩

theorem sound_note (line : String) : basis.Gives given (note line) fun _ => True :=
  .marking fun _ => .marks fun _ => ⟨id, rfl, rfl, rfl, rfl, rfl⟩

theorem sound_statement (holds : given → basis.HoldsWithin stmt) :
    basis.Gives given (statement stmt) basis.HoldsWithin :=
  sound_countNode.andThen fun _ => .pure holds

theorem sound_made (holds : given → basis.HoldsWithin stmt) :
    basis.Gives given (do return some (← statement stmt)) fun stmt? => basis.HoldsBody stmt?.toList :=
  (sound_statement holds).bind fun _ => .pure fun given => .append given.2 .nil

theorem sound_errorStatement (span : Span) (severe : cause.severity = .error) :
    basis.Gives given (errorStatement cause span) basis.HoldsWithin :=
  (sound_report cause span).bind fun _ => sound_statement fun given => absurd severe given.2

theorem Basis.Gives.reportIf [Decidable condition]
    {next : Unit → Check α} {last : α → Prop} (goesOn : ∀ reported, basis.Gives given (next reported) last) :
    basis.Gives given (if condition then report cause span >>= next else next ()) last := by
  split
  · exact (sound_report _ _).andThen goesOn
  · exact goesOn ()

/-- What a check of statements gives. In all states that lead to the final one its result also has what holds always. -/
structure Basis.Checks {α : Type} (basis : Basis) (final : State) (given : Prop) (check : Check α)
    (post always : α → Prop) : Prop extends basis.Gives given check post where
  always : final.PlainFields → ∀ state, Keeps (check state).2 final → always (check state).1

theorem Basis.Gives.keeps {check : Check α} {post : α → Prop} (gives : basis.Gives given check post) (state : State) :
    Keeps state (check state).2 :=
  .ofGrows ⟨(gives.develops state).accepted, (gives.develops state).table, gives.registry state⟩

section

variable {check first : Check α} {next : α → Check β} {post always : α → Prop} {last certain : β → Prop}

namespace Basis.Checks

theorem under {more : Prop} (checks : basis.Checks final given check post always) (holds : more → given) :
    basis.Checks final more check post always :=
  ⟨checks.toGives.under holds, checks.always⟩

theorem implies {weaker : α → Prop} (checks : basis.Checks final given check post always)
    (implied : ∀ result, always result → weaker result) : basis.Checks final given check post weaker :=
  ⟨checks.toGives, fun plain state leads => implied _ (checks.always plain state leads)⟩

theorem pure {result : α} (holds : given → post result) (surely : always result) :
    basis.Checks final given (Pure.pure result) post always :=
  ⟨.pure holds, fun _ _ _ => surely⟩

theorem bind (begins : basis.Checks final given first post always)
    (goesOn : ∀ result, basis.Checks final (given ∧ post result) (next result) last
      fun value => always result → certain value) :
    basis.Checks final given (first >>= next) last certain where
  toGives := begins.toGives.bind fun result => (goesOn result).toGives
  always plain state leads := (goesOn _).always plain _ leads
    (begins.always plain state (((goesOn _).toGives.keeps _).trans leads))

theorem ofState (same : ∀ state, ∃ (other : Check α) (known : Prop) (certain : α → Prop),
      check state = other state ∧ basis.Checks final known other post certain ∧ (given → basis.Fits state → known) ∧
        (Keeps state final → ∀ result, certain result → always result)) : basis.Checks final given check post always where
  toGives := .ofState fun state => by
    obtain ⟨other, known, _, run, checks, implied, _⟩ := same state
    exact ⟨other, known, run, checks.toGives, fun given fits _ => implied given fits⟩
  always plain state := by
    obtain ⟨other, _, _, run, checks, _, implied⟩ := same state
    rw [run]
    exact fun leads => implied ((checks.toGives.keeps state).trans leads) _ (checks.always plain state leads)

theorem read (view : State → α) (reads : ∀ state, first state = (view state, state))
    (goesOn : ∀ state, basis.Checks final (given ∧ basis.Fits state) (next (view state)) last fun value =>
      Keeps state final → certain value) : basis.Checks final given (first >>= next) last certain :=
  .ofState fun state => ⟨next (view state), _, _, by rw [bind_apply, reads], goesOn state,
    fun given fits => ⟨given, fits⟩, fun leads _ certain => certain leads⟩

end Basis.Checks

namespace Basis.Gives

theorem bindTo (begins : basis.Gives given first post)
    (goesOn : ∀ result, basis.Checks final (given ∧ post result) (next result) last certain) :
    basis.Checks final given (first >>= next) last certain :=
  ⟨begins.bind fun result => (goesOn result).toGives, fun plain _ leads => (goesOn _).always plain _ leads⟩

theorem andThenTo (begins : basis.Gives given first post)
    (goesOn : ∀ result, basis.Checks final given (next result) last certain) :
    basis.Checks final given (first >>= next) last certain :=
  begins.bindTo fun result => (goesOn result).under And.left

end Basis.Gives

theorem Basis.Checks.rejectIf [Decidable condition] {next : Unit → Check β} (severe : cause.severity = .error)
    (goesOn : ∀ reported, basis.Checks final (given ∧ ¬ condition) (next reported) last certain) :
    basis.Checks final given (if condition then report cause span >>= next else next ()) last certain := by
  split
  · exact (sound_report _ _).bindTo fun reported => (goesOn reported).under fun given => absurd severe given.2
  · rename_i passed
    exact (goesOn ()).under fun given => ⟨given, passed⟩

end

abbrev Basis.ChecksStmt (basis : Basis) (final : State) (given closed : Prop) (definitions : List Definition)
    (check : Check Typed.Stmt) : Prop :=
  basis.Checks final given check basis.HoldsWithin fun stmt =>
    Covers final closed definitions stmt.lowered stmt.within

abbrev Basis.ChecksStmt? (basis : Basis) (final : State) (given closed : Prop) (definitions : List Definition)
    (check : Check (Option Typed.Stmt)) : Prop :=
  basis.Checks final given check (fun stmt? => basis.HoldsBody stmt?.toList) fun stmt? =>
    Covers final closed definitions (loweredBy stmt?.toList) (stmtsWithin stmt?.toList)

abbrev Basis.ChecksStmts (basis : Basis) (final : State) (given closed : Prop) (definitions : List Definition)
    (check : Check (List Typed.Stmt)) : Prop :=
  basis.Checks final given check basis.HoldsBody fun stmts =>
    Covers final closed definitions (loweredBy stmts) (stmtsWithin stmts)

theorem checks_statement {always : Typed.Stmt → Prop} (holds : given → basis.HoldsWithin stmt)
    (surely : always stmt) :
    basis.Checks final given (statement stmt) basis.HoldsWithin always :=
  ⟨sound_statement holds, fun _ _ _ => surely⟩

theorem checks_made {always : Option Typed.Stmt → Prop} (holds : given → basis.HoldsWithin stmt)
    (surely : always (some stmt)) :
    basis.Checks final given (do return some (← statement stmt))
      (fun stmt? => basis.HoldsBody stmt?.toList) always :=
  ⟨sound_made holds, fun _ _ _ => surely⟩

theorem Basis.Gives.plain {check : Check Typed.Stmt} (gives : basis.Gives given check basis.HoldsWithin)
    (plain : Always check Typed.Stmt.Plain) : basis.ChecksStmt final given closed [] check :=
  ⟨gives, fun _ state _ => .plain (plain state)⟩

theorem sound_checkValue (expr : Syntax.Expr) : basis.Gives given (checkValue expr) basis.Holds :=
  (checkExpr_sound expr).valueHere

theorem sound_resolveType (type : Syntax.TypeExpr) : basis.Gives given (resolveType type) fun type => type.isBuilt = true :=
  (checkType_sound type).resolved.under fun _ => trivial

theorem Basis.Gives.mapOption {item : Option α} {check : α → Check β} {post : β → Prop}
    (gives : ∀ value, item = some value → basis.Gives given (check value) post) :
    basis.Gives given (item.mapM check) fun result? => ∀ result, result? = some result → post result := by
  cases item with
  | none => exact .pure fun _ _ same => nomatch same
  | some value =>
    refine (gives value rfl).bind fun result => .pure fun given other same => ?_
    exact Option.some.inj same ▸ given.2

theorem checkDeclared_sound (decl : Syntax.VariableDecl) (span : Span) :
    basis.Gives given (checkDeclared decl span) fun declared =>
      (∀ value, declared.1 = some value → basis.Holds value) ∧ declared.2.isBuilt = true := by
  refine (Basis.Gives.mapOption fun value _ => sound_checkValue value).bind fun value => ?_
  have typed : basis.Gives (given ∧ ∀ result, value = some result → basis.Holds result)
      (declaredType decl.name decl.type value span) fun type => type.isBuilt = true := by
    unfold declaredType
    split
    · exact sound_resolveType _
    · exact .pure fun given => (given.2 _ rfl).built
    · exact errorType_sound _ rfl
  refine typed.bind fun type => (Basis.Gives.mapOption fun item same =>
    sound_coerce fun given => ⟨given.2, given.1.2 item same⟩).bind fun _ => .pure fun given => ?_
  exact ⟨given.2, given.1.2⟩

theorem sound_reserveGlobal (type : Ty) : basis.Gives given (reserveGlobal type) fun _ => True :=
  .marking fun _ => .marks fun _ => ⟨id, rfl, rfl, rfl, rfl, rfl⟩

theorem BuiltFacts.reassign (built : BuiltFacts facts) (symbol : SymbolId) :
    BuiltFacts (facts.reassign symbol) :=
  built

theorem BuiltFacts.factsAfterAssign (built : BuiltFacts facts) (symbol : SymbolId) {declared : Ty}
    (stored : Ty) (type : declared.isBuilt = true) :
    BuiltFacts (Analysis.factsAfterAssign facts symbol declared stored) := by
  have assigned : BuiltFacts ((facts.markSet symbol).reassign symbol) := (built.markSet symbol).reassign symbol
  have inner : ∀ inner, declared = .nullable inner ∨ declared = .errorUnion inner → inner.isBuilt = true := by
    rintro inner (rfl | rfl)
    all_goals exact (Bool.and_eq_true_iff.mp type).1
  unfold Analysis.factsAfterAssign
  split
  · exact assigned.widen symbol
  split
  · exact assigned.narrow symbol rfl
  · split
    · exact assigned.narrow symbol (inner _ (.inl rfl))
    · exact assigned.widen symbol
  · split
    · exact assigned.narrow symbol (inner _ (.inr rfl))
    · exact assigned.widen symbol
  · exact assigned.widen symbol

theorem BuiltFacts.declareUnset (built : BuiltFacts facts) (symbol : SymbolId) :
    BuiltFacts (facts.declareUnset symbol) :=
  built

theorem noteVariable_sound {value : Option Typed.Expr} (id : SymbolId)
    (sound : given → (∀ expr, value = some expr → basis.Holds expr) ∧ type.isBuilt = true) :
    basis.Gives given (noteVariable value type id) basis.HoldsWithin := by
  refine (sound_modifyFacts fun given facts built => ?_).andThen fun _ => sound_statement fun given => ?_
  · split
    · exact built.factsAfterAssign id _ (sound given).2
    · exact built.declareUnset id
  · exact .around (.ofOption (sound given).1) .nil

theorem checkVariable_sound (decl : Syntax.VariableDecl) (span : Span) :
    basis.Gives given (checkVariable decl span) basis.HoldsWithin := by
  refine (checkDeclared_sound decl span).bind fun typed => sound_get.andThen fun state => ?_
  obtain ⟨value, type⟩ := typed
  have noted : ∀ {kind}, (kind = .localVar ∨ ∃ offset, kind = .globalVar offset) → basis.Gives
      (given ∧ (∀ expr, (value, type).1 = some expr → basis.Holds expr) ∧ (value, type).2.isBuilt = true)
      (define ⟨decl.name, span, type, decl.isMutable, kind⟩ >>= noteVariable value type) basis.HoldsWithin := fun stored =>
    (sound_define fun given => fits_variable given.2.2 stored).andThen fun id => noteVariable_sound id fun given => given.2
  dsimp only
  split
  · exact (sound_reserveGlobal type).andThen fun offset => noted (.inr ⟨offset, rfl⟩)
  · exact noted (.inl rfl)

theorem defineKnown_sound (decl : Syntax.ConstDecl) (span : Span) (holds : given → basis.Holds value) :
    basis.Gives given (defineKnown decl span value) fun _ => True := by
  unfold defineKnown
  have defined : ∀ {given : Prop} (known : Constant × Ty), (given → known.2.isBuilt = true ∧ ∀ word type,
      known.1 = .int word type → type.isCounted = true) → basis.Gives given (do
        let _ ← define ⟨decl.name, span, known.2, false, .constant known.1⟩) fun _ => True := fun known built =>
    (sound_define fun given => ⟨(built given).1, fun _ same => SymbolKind.noConfusion same, fun word type same =>
      (built given).2 word type (SymbolKind.constant.inj same)⟩).andThen fun _ => .pure fun _ => trivial
  split
  · rename_i constant known
    refine defined (constant, value.type) fun given => ⟨(holds given).built, fun word type same => ?_⟩
    obtain ⟨rfl, counted⟩ := (holds given).hasType (known.trans (congrArg some same))
    exact counted
  · have unknown : basis.Gives False _ fun _ => True := defined (.int 0 .error, .error) fun given => given.elim
    split
    · exact (sound_report _ _).bind fun _ => unknown.under fun given => absurd rfl given.2
    · rename_i silent
      exact unknown.under fun given => silent (by simp [(holds given).isError])

theorem defineConstant_sound (decl : Syntax.ConstDecl) (span : Span) :
    basis.Gives given (defineConstant decl span) fun _ => True := by
  refine (inContext_sound (fun _ => builtContext_none) (sound_checkValue _)).bind fun value => ?_
  split
  · exact (sound_resolveType _).bind fun type => (sound_coerce fun given => ⟨given.2, given.1.2⟩).bind fun _ =>
      defineKnown_sound decl span fun given => given.2
  · exact defineKnown_sound decl span fun given => given.2

theorem assignNode_sound (op : Typed.AssignOp) (span : Span) (sound : given → basis.Holds target ∧ basis.Holds value) :
    basis.Gives given (assignNode op target value span) basis.HoldsWithin := by
  have stored : ∀ type, (given → type.isBuilt = true) →
      basis.Gives given (do statement (.assign op target (← coerce type value))) basis.HoldsWithin := fun type built =>
    (sound_coerce fun given => ⟨built given, (sound given).2⟩).bind fun _ => sound_statement fun given =>
      .around (List.forall_mem_cons.mpr ⟨(sound given.1).1, List.forall_mem_singleton.mpr given.2⟩) .nil
  unfold assignNode
  split
  · exact stored _ fun given => (sound given).1.built
  · split
    · exact stored _ fun given => built_promoted (sound given).1.built
    · exact stored _ fun given => built_promoted (sound given).1.built
    · exact sound_errorStatement _ rfl

theorem targetError?_sound (sound : given → basis.Holds target) :
    basis.Gives given (targetError? target) fun error? => ∀ error, error? = some error → basis.HoldsStmts error.within := by
  have none : ∀ {given : Prop}, basis.Gives given (Pure.pure none) fun error? : Option Typed.Stmt =>
      ∀ error, error? = some error → basis.HoldsStmts error.within := .pure fun _ _ same => nomatch same
  have failed : ∀ {given : Prop} {cause : Cause}, cause.severity = .error →
      basis.Gives given (do return some (← errorStatement cause target.span)) fun error? =>
        ∀ error, error? = some error → basis.HoldsStmts error.within := fun severe =>
    (sound_errorStatement target.span severe).bind fun error => .pure fun given other same =>
      Option.some.inj same ▸ given.2
  unfold targetError?
  split
  · refine Basis.Gives.andThen (.marking fun _ => yields_getSymbol _) fun field => ?_
    split
    · exact none
    · exact failed rfl
  · split
    · exact failed rfl
    · exact none
  · rename_i message shape
    refine .pure fun given => ?_
    have named := (sound given).sound.names
    rw [shape] at named
    exact named.elim
  · exact failed rfl

theorem assignPlace_sound (op : Typed.AssignOp) (span : Span) (sound : given → basis.Holds target ∧ basis.Holds value) :
    basis.Gives given (assignPlace op target value span) basis.HoldsWithin := by
  refine (targetError?_sound fun given => (sound given).1).bind fun error? => ?_
  split
  · exact .pure fun given => given.2 _ rfl
  · exact assignNode_sound op span fun given => sound given.1

theorem assignVariable_sound (op : Typed.AssignOp) (id : SymbolId) {symbol : Symbol}
    (targetSpan span : Span) (sound : given → symbol.type.isBuilt = true ∧ basis.Holds value) :
    basis.Gives given (assignVariable op id symbol value targetSpan span) basis.HoldsWithin := by
  refine Basis.Gives.andThen (.marking fun _ => yields_reportReassignment id symbol targetSpan) fun _ => ?_
  split
  · refine (sound_node fun given => holds_variable id symbol targetSpan (sound given).1).bind fun target =>
      (assignNode_sound _ span fun given => ⟨given.2, (sound given.1).2⟩).bind fun result => ?_
    split
    · exact (sound_modifyFacts fun given facts built => built.factsAfterAssign id _ (sound given.1.1).1).andThen
        fun _ => .pure fun given => given.2
    · exact .pure fun given => given.2
  · refine (sound_readVariable id targetSpan false fun given => (sound given).1).bind fun target =>
      (assignNode_sound _ span fun given => ⟨given.2, (sound given.1).2⟩).bind fun result => ?_
    exact Basis.Gives.andThen (sound_modifyFacts fun _ facts built => BuiltFacts.reassign built id) fun _ =>
      .pure fun given => given.2

theorem assignName_sound (op : Typed.AssignOp) (name : String) {value : Check Typed.Expr} (targetSpan span : Span)
    (gives : basis.Gives True value basis.Holds) :
    basis.Gives given (assignName op name value targetSpan span) basis.HoldsWithin := by
  have valueHere : ∀ {given : Prop}, basis.Gives given value basis.Holds := gives.under fun _ => trivial
  refine sound_lookupSymbol name (fun _ => rfl) (valueHere.andThen fun _ => sound_errorStatement _ rfl) fun id symbol => ?_
  have stored : basis.Gives (given ∧ basis.Knows id symbol) (do
      assignVariable op id symbol (← value) targetSpan span) basis.HoldsWithin :=
    valueHere.bind fun _ => assignVariable_sound _ _ _ _ fun given => ⟨given.1.2.built, given.2⟩
  have field : basis.Gives (given ∧ basis.Knows id symbol) (do
      let target ← checkName name targetSpan true
      assignPlace op target (← value) span) basis.HoldsWithin :=
    (sound_checkName _ _ _).bind fun _ => valueHere.bind fun _ => assignPlace_sound _ _ fun given => ⟨given.1.2, given.2⟩
  split
  · exact stored
  · exact stored
  · exact field
  · exact field
  · exact valueHere.andThen fun _ => sound_errorStatement _ rfl

theorem checkAssign_sound (operator : Syntax.AssignOp) (target value : Syntax.Expr) (span : Span) :
    basis.Gives given (checkAssign operator target value span) basis.HoldsWithin := by
  have place : basis.Gives given (do
      let place ← checkValue target
      assignPlace (assignOp operator) place (← checkValue value) span) basis.HoldsWithin :=
    (sound_checkValue _).bind fun _ => (sound_checkValue _).bind fun _ =>
      assignPlace_sound _ _ fun given => ⟨given.1.2, given.2⟩
  unfold checkAssign
  split
  · exact assignName_sound _ _ _ _ (sound_checkValue value)
  · exact place
  · exact place
  · exact (sound_checkValue _).andThen fun _ => sound_errorStatement _ rfl

theorem forgetAssigned_sound (body : List Syntax.Stmt) : basis.Gives given (forgetAssigned body) fun _ => True := by
  unfold forgetAssigned
  induction assignedNames body with
  | nil => exact .pure fun _ => trivial
  | cons name rest ih =>
    refine Basis.Gives.andThen (?_ : basis.Gives given _ fun _ => True) fun _ => ih
    refine Basis.Gives.andThen (.marking fun _ => yields_lookup name) fun found => ?_
    split
    · exact sound_modifyFacts fun _ facts built => built.widen _
    · exact .pure fun _ => trivial

theorem inBlock_sound (kind : ScopeKind) {post always : List Typed.Stmt → Prop}
    (checks : basis.Checks final given body post always) : basis.Checks final given (inBlock kind body) post always :=
  (sound_openScope kind).andThenTo fun _ => checks.bind fun _ => sound_closeScope.andThenTo fun _ =>
    .pure (fun given => given.2) id

theorem Basis.Checks.inBlock (checks : basis.ChecksStmts final True closed definitions body) (given : Prop) :
    basis.ChecksStmts final given closed definitions (Analysis.inBlock .block body) :=
  inBlock_sound .block (checks.under fun _ => trivial)

theorem builtFrame_none : BuiltFrame {} :=
  ⟨fun _ member => (nomatch member), fun _ member => (nomatch member)⟩

theorem inLoop_sound {body : Check α} {post always : α → Prop} (checks : basis.Checks final given body post always) :
    basis.Checks final given (inLoop body) (fun looped => post looped.1 ∧ BuiltFrame looped.2) fun looped =>
        always looped.1 where
  toGives := by
    have opened : ∀ {given : Prop}, basis.Gives given (setFrame (some {})) fun _ => True :=
      sound_setFrame fun _ => builtFrame_none
    refine sound_getContext.bind fun outer => opened.andThen fun _ => (checks.toGives.under And.left).bind fun _ =>
      sound_getContext.bind fun inner => ?_
    exact (sound_setFrame fun given => given.1.1.2.frame).andThen fun _ => .pure fun given => ⟨given.1.2, given.2.frame⟩
  always plain state leads :=
    checks.always plain { state with context := ⟨state.context.returnType, some {}⟩ } { leads with }

theorem sound_condition (condition : Syntax.Expr) :
    basis.Gives given (checkExpr condition).condition basis.HoldsBranches :=
  (checkExpr_sound condition).conditionHere

theorem checkIterable_sound (iterable : Syntax.Expr) : basis.Gives given (checkIterable iterable) basis.Holds := by
  unfold checkIterable
  split
  · exact (sound_checkValue _).bind fun _ => (sound_checkValue _).bind fun _ =>
      sound_rangeNode _ _ fun given => ⟨given.1.2, given.2⟩
  · exact sound_checkValue _

theorem elementOfClass?_sound (cls : ClassRef) :
    basis.Gives given (elementOfClass? cls) fun element? =>
      ∀ element, element? = some element → element.isBuilt = true := by
  refine (sound_classMember? cls "size").andThen fun size? => (sound_classMember? cls "get").bind fun get? => ?_
  split
  · split
    · rename_i kind
      refine .pure fun given element same => ?_
      obtain ⟨function, chosen, rfl⟩ := Option.map_eq_some_iff.mp same
      exact ((given.2 _ rfl).overloads _ kind function (List.mem_of_find?_eq_some chosen)).result
    · exact .pure fun _ _ same => nomatch same
  · exact .pure fun _ _ same => nomatch same

theorem iterationElement?_sound (built : given → type.isBuilt = true) :
    basis.Gives given (iterationElement? type) fun element? =>
      ∀ element, element? = some element → element.isBuilt = true := by
  unfold iterationElement?
  split
  · exact .pure fun given => nomatch built given
  · exact .pure fun given _ same => Option.some.inj same ▸ built given
  · exact .pure fun given _ same => Option.some.inj same ▸ built given
  · exact .pure fun given _ same => Option.some.inj same ▸ built given
  · exact .pure fun _ _ same => Option.some.inj same ▸ rfl
  · exact elementOfClass?_sound _
  · exact .pure fun _ _ same => nomatch same

theorem loopVariableType_sound {iterable : Typed.Expr} (span : Span) (built : given → iterable.type.isBuilt = true) :
    basis.Checks final given (loopVariableType iterable span) (fun type => type.isBuilt = true) fun _ =>
      final.Accepted → iterable.type.Iterable final.table where
  toGives := by
    refine (iterationElement?_sound built).bind fun element? => ?_
    split
    · exact .pure fun given => given.2 _ rfl
    · exact (sound_report _ _).bind fun _ => .pure fun given => absurd rfl given.2
  always plain state leads accepted := by
    have yields : Yields state (loopVariableType iterable span) _ := yields_iterable iterable span
    have keeps : Keeps state _ := .ofGrows yields.marked.grows
    exact (keeps.trans leads).iterable (yields.holds (leads.accepted accepted))

section

variable (checks : basis.ChecksStmts final True closed definitions body)

include checks

theorem checkWhile_sound (condition : Syntax.Expr) (assigned : List Syntax.Stmt) :
    basis.ChecksStmt final given closed definitions (checkWhile condition assigned body) := by
  refine (forgetAssigned_sound _).andThenTo fun _ => (sound_condition condition).bindTo fun branches =>
    (sound_setFacts fun given => given.2.whenTrue).andThenTo fun _ =>
      (inLoop_sound (inBlock_sound .loop (checks.under fun _ => trivial))).bind fun looped => ?_
  refine sound_getFacts.bindTo fun facts => (sound_setFacts fun given => ?_).andThenTo fun _ =>
    checks_statement (fun given => ?_) fun covers => covers.around rfl nofun
  · obtain ⟨⟨⟨_, branches⟩, _, frame⟩, facts⟩ := given
    refine .merge (List.forall_mem_append.mpr ⟨List.forall_mem_cons.mpr ⟨branches.whenFalse, frame.breaks⟩, ?_⟩)
    split
    · exact fun _ member => nomatch member
    · exact List.forall_mem_singleton.mpr (.merge (List.forall_mem_cons.mpr ⟨facts, frame.continues⟩))
  · exact .around (List.forall_mem_singleton.mpr given.1.1.2.condition) given.1.2.1

theorem checkRepeat_sound (condition : Syntax.Expr) (assigned : List Syntax.Stmt) :
    basis.ChecksStmt final given closed definitions (checkRepeat condition assigned body) := by
  refine (forgetAssigned_sound _).andThenTo fun _ =>
    (inLoop_sound ((sound_openScope .loop).andThenTo fun _ => checks.under fun _ => trivial)).bind fun looped => ?_
  refine (sound_modifyFacts fun given facts built => ?_).andThenTo fun _ => 
      (sound_condition condition).bindTo fun branches =>
    sound_closeScope.andThenTo fun _ => (sound_setFacts fun given => ?_).andThenTo fun _ =>
      checks_statement (fun given => ?_) fun covers => covers.around rfl nofun
  · exact .merge (List.forall_mem_cons.mpr ⟨built, given.2.2.continues⟩)
  · exact .merge (List.forall_mem_cons.mpr ⟨given.2.whenTrue, given.1.2.2.breaks⟩)
  · exact .around (List.forall_mem_singleton.mpr given.2.condition) given.1.2.1

theorem checkFor_sound (name : String) (iterable : Syntax.Expr) (span : Span) (assigned : List Syntax.Stmt) :
    basis.ChecksStmt final given closed definitions (checkFor name iterable span assigned body) := by
  refine (checkIterable_sound iterable).bindTo fun sequence =>
    (loopVariableType_sound _ fun given => given.2.built).bind fun element =>
      (forgetAssigned_sound _).andThenTo fun _ => sound_getFacts.bindTo fun entry => ?_
  refine (inLoop_sound (?_ : basis.Checks final _ _ (fun looped => basis.HoldsBody looped.2) fun looped =>
    Covers final closed definitions (loweredBy looped.2) (stmtsWithin looped.2))).bind fun looped => ?_
  · exact (sound_openScope .loop).andThenTo fun _ =>
      (sound_define fun given => fits_variable given.1.2 (.inl rfl)).andThenTo
      fun _ => (checks.under fun _ => trivial).bind fun _ => sound_closeScope.andThenTo fun _ =>
        .pure (fun given => given.2) id
  · refine (sound_modifyFacts fun given facts built => ?_).andThenTo fun _ =>
      checks_statement (fun given => ?_) fun covers overSequence => ?_
    · refine .merge (List.forall_mem_cons.mpr ⟨given.1.2, List.forall_mem_cons.mpr ⟨built, ?_⟩⟩)
      exact List.forall_mem_append.mpr ⟨given.2.2.continues, given.2.2.breaks⟩
    · exact .around (List.forall_mem_singleton.mpr given.1.1.1.2) given.2.1
    · refine covers.around rfl fun accepted symbol sequence body same => ?_
      cases same
      exact overSequence accepted

end

theorem checkPrinted_sound (argument : Syntax.Expr) : basis.Gives given (checkPrinted argument) basis.Holds := by
  refine (sound_checkValue argument).bind fun value => ?_
  split
  · exact .pure fun given => given.2
  · exact sound_errorNode _ _ rfl

theorem freeChecked_sound (freed? : Option SymbolId) (holds : given → basis.Holds value) :
    basis.Gives given (freeChecked freed? value) basis.HoldsWithin := by
  have last : basis.Gives given (statement (.free value)) basis.HoldsWithin :=
    sound_statement fun given => .around (List.forall_mem_singleton.mpr (holds given)) .nil
  unfold freeChecked
  dsimp only
  split
  · exact (sound_errorNode _ basis.Holds rfl).bind fun _ => sound_statement fun given =>
      .around (List.forall_mem_singleton.mpr given.2) .nil
  · split
    · rename_i id
      have freed : basis.Gives given (modifyFacts (·.free id)) fun _ => True := sound_modifyFacts fun _ _ built => built
      exact sound_getFacts.andThen fun facts => .reportIf fun _ => freed.andThen fun _ => last
    · exact last

theorem checkFree_sound (operand : Syntax.Expr) :
    basis.Gives given (checkFree operand) basis.HoldsWithin := by
  unfold checkFree
  split
  · exact Basis.Gives.andThen (.marking fun _ => yields_lookupVariable _)
      fun found => (sound_checkName _ _ _).bind fun value => freeChecked_sound found fun given => given.2
  · exact (sound_checkValue operand).bind fun value => freeChecked_sound none fun given => given.2

/-- What the values of a clause are known as. The newest value comes first. -/
structure Basis.Recognises (basis : Basis) (expected : Ty) (seen : List Constant) (values : List Typed.Expr)
    (newest : List Constant) : Prop where
  holds : basis.HoldsAll values
  typed : ∀ value ∈ values, ∃ constant, value.constant? = some constant ∧ constant.HasType expected
  known : newest = (values.filterMap Typed.Expr.constant?).reverse ++ seen
  distinct : Typed.IsDistinct seen → Typed.IsDistinct newest

theorem hasType_of_accepts {constant : Constant} (built : expected.isBuilt = true)
    (choosable : isChoosable expected.promoted = true) (accepted : expected.accepts value.type = true)
    (holds : basis.Holds value)
    (known : value.constant? = some constant) : constant.HasType expected := by
  have typed := holds.hasType known
  have proper := holds.not_error
  by_cases same : expected = value.type
  · exact same ▸ typed
  have nothing : value.type = .nothing := by
    unfold Ty.accepts at accepted
    simp only [same, decide_false, Bool.false_or] at accepted
    have usual : expected ≠ .error := by
      rintro rfl
      cases built
    unfold Ty.promoted at choosable
    split at choosable
    · split at accepted <;> simp_all
    · unfold isChoosable at choosable
      split at choosable <;> split at accepted <;> simp_all
  rw [nothing] at typed
  cases constant <;> simp [Constant.HasType, Ty.isCounted] at typed

theorem goThroughWhen_sound {rest : List Syntax.Expr} (seen : List Constant)
    (later : ∀ seen, basis.Gives given (checkWhenValues expected? rest seen) fun checked =>
      basis.Recognises expected seen checked.1 checked.2)
    (sound : given → (isChoosable expected.promoted = true ∧ expected.isBuilt = true) ∧
      expected.accepts value.type = true ∧ basis.Holds value) :
    basis.Gives given (goThroughWhen expected? rest seen value) fun checked =>
      basis.Recognises expected seen checked.1 checked.2 ∧ checked.1 ≠ [] := by
  have newest : basis.Gives given (checkDistinct seen value) (IsNewest seen value) :=
    .ofYields (fun _ => yields_checkDistinct _ _) fun given _ _ _ _ newest => newest (sound given).2.2.isError
  refine newest.bind fun known => ((later known).under And.left).bind fun checked => .pure fun given => ?_
  obtain ⟨⟨given, constant, found, rfl, new⟩, others⟩ := given
  obtain ⟨⟨choosable, built⟩, accepted, holds⟩ := sound given
  refine ⟨⟨List.forall_mem_cons.mpr ⟨holds, others.holds⟩, List.forall_mem_cons.mpr ⟨?_, others.typed⟩, ?_,
    fun distinct => ?_⟩, List.cons_ne_nil _ _⟩
  · exact ⟨constant, found, hasType_of_accepts built choosable accepted holds found⟩
  · simp [others.known, found]
  · exact others.distinct (List.pairwise_cons.mpr ⟨new, distinct⟩)

theorem checkWhenValues_sound (values : List Syntax.Expr) (seen : List Constant)
    (sound : given → expected? = some expected ∧ isChoosable expected.promoted = true ∧ expected.isBuilt = true) :
    basis.Gives given (checkWhenValues expected? values seen) fun checked =>
      basis.Recognises expected seen checked.1 checked.2 ∧ (values ≠ [] → checked.1 ≠ []) := by
  induction values generalizing seen with
  | nil => exact .pure fun _ => ⟨⟨.nil, by simp, rfl, id⟩, fun some => absurd rfl some⟩
  | cons value rest ih =>
    have later : ∀ {more : Prop}, (more → given) → ∀ seen, basis.Gives more (checkWhenValues expected? rest seen)
        fun checked => basis.Recognises expected seen checked.1 checked.2 :=
      fun less seen => (ih seen).mono less fun _ _ => And.left
    refine (sound_checkValue value).bind fun checked => ?_
    split
    · rename_i actual
      have same : given → actual = expected := fun given => Option.some.inj (sound given).1
      refine (sound_coerceTo fun given => ⟨same given.1 ▸ (sound given.1).2.2, given.2⟩).bind fun value => ?_
      refine (goThroughWhen_sound seen (later fun given => given.1.1) fun given => ?_).mono id fun _ _ checked =>
        checked.imp_right fun some _ => some
      exact ⟨(sound given.1.1).2, same given.1.1 ▸ given.2.2, given.2.1⟩
    · refine (goThroughWhen_sound seen (later And.left) fun given => ?_).mono id fun _ _ checked =>
        checked.imp_right fun some _ => some
      cases (sound given.1).1

def bodyChecked (id : FunctionId) (scope : ScopeId) (body : Check (List Typed.Stmt)) (function : FunctionDef) :
    Check Typed.Stmt := do
  note ("checking " ++ function.label)
  let facts ← getFacts
  let outer := (← get).scopes.current
  setFacts .start
  enterScope scope
  let body ← inContext { returnType := some function.returnType } body
  if !(← getFacts).unreachable && function.returnType.isReturned then
    report (.missingReturn function.name) function.span
  setFacts facts
  enterScope outer
  statement (.functionBody id body)

theorem bodyChecked_sound (id : FunctionId) (scope : ScopeId) {function : FunctionDef}
    (checks : basis.ChecksStmts final True closed definitions body) (built : given → function.returnType.isBuilt = true) :
    basis.Checks final given (bodyChecked id scope body function) basis.HoldsWithin fun stmt =>
      ∀ definition, final.definedAt definition = some id →
        Covers final closed (definition :: definitions) stmt.lowered stmt.within := by
  have inside : ∀ {given : Prop} {context : Context}, (given → BuiltContext context) →
      basis.ChecksStmts final given closed definitions (inContext context body) := fun {given context} built =>
    ⟨inContext_sound built (checks.toGives.under fun _ => trivial), fun plain state leads =>
      checks.always plain { state with context := context } { leads with }⟩
  refine (sound_note _).andThenTo fun _ => sound_getFacts.bindTo fun facts =>
    sound_get.andThenTo fun state => (sound_setFacts fun _ => ?_).andThenTo fun _ => (sound_enterScope scope).andThenTo
      fun _ => (inside fun given => ?_).bind fun checked => sound_getFacts.andThenTo fun _ => ?_
  · exact fun _ member => nomatch member
  · exact ⟨fun type same => Option.some.inj same ▸ built given.1, builtContext_none.breaks, builtContext_none.continues⟩
  · refine .rejectIf rfl fun _ => (sound_setFacts fun given => given.1.1.2).andThenTo fun _ =>
      (sound_enterScope _).andThenTo fun _ => checks_statement (fun given => .around .nil given.1.2)
        fun covers definition defined => ?_
    refine (covers.define defined (List.subset_append_left _ _) ?_).around rfl nofun
    exact List.mem_append_right _ (List.mem_singleton_self id)

theorem sound_functionAt? (span : Span) {next : Option (FunctionId × ScopeId) → Check β}
    {post always : β → Prop} (goesOn : FunctionId → ScopeId → FunctionDef → Check β)
    (reads : ∀ id scope, next (some (id, scope)) = getFunction id >>= goesOn id scope)
    (unknown : basis.Checks final given (next none) post fun value =>
      final.definedAt (.function span) = none → always value)
    (found : ∀ id scope function, basis.Checks final (given ∧ function.returnType.isBuilt = true) (goesOn id scope function)
      post fun value => final.definedAt (.function span) = some id → always value) :
    basis.Checks final given (functionAt? span >>= next) post always := by
  refine .ofState fun state => ?_
  have run : (functionAt? span >>= next) state = next (state.functionAt.lookup span) state := rfl
  have registered : Keeps state final →
      final.definedAt (.function span) = (state.functionAt.lookup span).map Prod.fst := fun leads => leads.definedAt _
  rw [run]
  rcases at? : state.functionAt.lookup span with _ | ⟨id, scope⟩
  · exact ⟨_, _, _, rfl, unknown, fun given _ => given, fun leads _ holds => holds (by rw [registered leads, at?]; rfl)⟩
  · rw [reads]
    refine ⟨goesOn id scope (state.table.function id), _, _, rfl, found id scope _, fun given fits => ⟨given, ?_⟩,
      fun leads _ holds => holds (by rw [registered leads, at?]; rfl)⟩
    exact fits.result id (fits.found (span, id, scope) (mem_of_lookup at?))

theorem Basis.Fits.fieldsOf {state : State} (fits : basis.Fits state) (id : ClassId) :
    basis.HoldsBody ((state.fieldStatements.lookup id).getD []) := by
  cases found : state.fieldStatements.lookup id with
  | none => exact .nil
  | some stmts => exact fits.fields (id, stmts) (mem_of_lookup found)

theorem holds_ifChain {clauses : List Typed.IfClause}
    (holds : ∀ clause ∈ clauses, ∀ condition, clause.condition = some condition → basis.Holds condition) :
    basis.HoldsAll (Typed.Stmt.ifChain clauses).parts := by
  intro expr member
  obtain ⟨clause, inside, same⟩ := List.mem_filterMap.mp member
  exact holds clause inside expr same

theorem holds_whenCases {subject : Typed.Expr} {clauses : List Typed.WhenClause} (first : basis.Holds subject)
    (holds : ∀ clause ∈ clauses, basis.HoldsAll clause.values) :
    basis.HoldsAll (Typed.Stmt.whenCases subject clauses).parts := by
  refine List.forall_mem_cons.mpr ⟨first, fun expr member => ?_⟩
  obtain ⟨clause, inside, value⟩ := List.mem_flatMap.mp member
  exact holds clause inside expr value

structure Basis.HoldsClauses (basis : Basis) (checked : List Typed.IfClause × List (Facts Ty)) : Prop where
  conditions : ∀ clause ∈ checked.1, ∀ condition, clause.condition = some condition → basis.Holds condition
  bodies : basis.HoldsStmts (clausesWithin checked.1)
  ends : ∀ facts ∈ checked.2, BuiltFacts facts

structure Basis.HoldsCases (basis : Basis) (expected : Ty) (seen : List Constant) (clauses : List Syntax.WhenClause)
    (checked : List Typed.WhenClause × List (Facts Ty)) : Prop where
  values : ∀ clause ∈ checked.1, basis.HoldsAll clause.values
  typed : ∀ clause ∈ checked.1, ∀ value ∈ clause.values, ∃ constant, value.constant? = some constant ∧
    constant.HasType expected
  distinct : Typed.IsDistinct seen →
    Typed.IsDistinct (((checked.1.flatMap Typed.WhenClause.values).filterMap Typed.Expr.constant?).reverse ++ seen)
  elseLast : checked.1.Pairwise fun earlier _ => earlier.values ≠ []
  none : clauses = [] → checked.1 = []
  bodies : basis.HoldsStmts (casesWithin checked.1)
  ends : ∀ facts ∈ checked.2, BuiltFacts facts

mutual

theorem checkStmts_sound (ofFile : Bool) (stmts : List Syntax.Stmt) (whole : closed → Syntax.ElseLastIn stmts) :
    basis.ChecksStmts final True closed (Syntax.definitionsIn ofFile stmts) (checkStmts stmts) := by
  cases stmts with
  | nil => exact .pure (fun _ => .nil) .nil
  | cons stmt rest =>
    refine (checkStmt_sound ofFile stmt (And.left ∘ whole)).bind fun _ =>
      ((checkStmts_sound ofFile rest fun isClosed => (whole isClosed).2).under fun _ => trivial).bind fun _ =>
        .pure (fun given => .ofAppended given.1.2 given.2) fun later earlier => ?_
    rw [Typed.loweredBy_append, Typed.stmtsWithin_append]
    exact earlier.append later

theorem checkStmt_sound (ofFile : Bool) (stmt : Syntax.Stmt) (whole : closed → stmt.ElseLast) :
    basis.ChecksStmt? final True closed (stmt.definitions ofFile) (checkStmt stmt) := by
  have once : ∀ {given : Prop} {definitions : List Definition} {check : Check Typed.Stmt},
      basis.ChecksStmt final given closed definitions check →
      basis.ChecksStmt? final given closed definitions (do return some (← check)) :=
    fun checks => checks.bind fun _ => .pure (fun given => .append given.2 .nil) Covers.toList
  have nothing : ∀ {given : Prop}, basis.ChecksStmt? final given closed [] (pure none) := .pure (fun _ => .nil) .nil
  cases stmt with
  | mk shape span =>
    cases shape with
    | expression expression =>
      exact (sound_checkValue _).bindTo fun _ => checks_made
        (fun given => .around (List.forall_mem_singleton.mpr given.2) .nil) (Covers.toList (.plain trivial))
    | assign operator target value => exact once ((checkAssign_sound _ _ _ _).plain (plain_checkAssign _ _ _ _))
    | variableDecl decl => exact once ((checkVariable_sound decl span).plain (plain_checkVariable _ _))
    | constDecl decl =>
      refine sound_get.andThenTo fun state => ?_
      split
      · exact (defineConstant_sound decl span).andThenTo fun _ => nothing
      · exact nothing
    | functionDecl head body =>
      refine sound_functionAt? span (fun id scope function => do
        return some (← bodyChecked id scope (checkStmts body) function)) (fun _ _ => rfl) ?_ fun id scope function => ?_
      · refine (sound_report _ _).andThenTo fun _ => .pure (fun _ => .nil) fun unknown => ?_
        cases ofFile with
        | true => exact .absent .nil unknown
        | false => exact .nil
      · refine (bodyChecked_sound _ _ (checkStmts_sound false body whole) fun given => given.2).bind fun _ =>
          .pure (fun given => .append given.2 .nil) fun covers defined => ?_
        cases ofFile with
        | true => exact (covers _ defined).toList
        | false => exact (covers _ defined).forget.toList
    | classDecl head body =>
      refine .read _ get_apply fun state => ?_
      cases isFound : state.foundClasses.find? (·.span = span) with
      | none =>
        exact .pure (fun _ => .nil) fun leads => .absent .nil (by rw [leads.definedAt, State.definedAt, isFound]; rfl)
      | some found =>
      have readsClass : ∀ state, getClass found.ref.id state = (state.table.classDef found.ref.id, state) := fun _ => rfl
      refine .read _ readsClass fun inner => ?_
      have registered : Keeps inner final → Keeps state final →
          final.definedAt (.constructor span) = (inner.table.classDef found.ref.id).constructor? := fun leads earlier => by
        rw [State.definedAt, earlier.foundClasses, isFound, Option.bind_some, leads.classDef]
      cases made : (inner.table.classDef found.ref.id).constructor? with
      | none => exact .pure (fun _ => .nil) fun leads earlier => .absent .nil (by rw [registered leads earlier, made])
      | some constructor =>
      refine (checkMethods_sound body whole).under (fun _ => trivial) |>.bind fun methods =>
        .read _ get_apply fun state => ?_
      refine ⟨sound_made fun given => .around .nil (.append (given.2.fieldsOf _) given.1.2),
        fun plain _ _ leads covers leadsInner earlier => ?_⟩
      have fields : ∀ stmt ∈ (state.fieldStatements.lookup found.ref.id).getD [], stmt.Plain := by
        intro stmt member
        cases looked : state.fieldStatements.lookup found.ref.id with
        | none =>
          rw [looked] at member
          cases member
        | some stmts =>
          rw [looked] at member
          exact plain (found.ref.id, stmts) (by rw [leads.fieldStatements]; exact mem_of_lookup looked) stmt member
      have inside : Covers final closed ([] ++ _) _ _ := (Covers.ofPlain fields).append covers
      refine Covers.toList ((inside.define ((registered leadsInner earlier).trans made) ?_ ?_).around rfl nofun)
      · exact List.append_subset.mpr ⟨List.subset_append_of_subset_left _ (List.subset_append_left _ _),
          List.subset_append_right _ _⟩
      · exact List.mem_append_left _ (List.mem_append_right _ (List.mem_singleton_self constructor))
    | enumDecl decl => exact nothing
    | ifChain clauses =>
      refine (checkIfClauses_sound clauses whole).bind fun checked => ?_
      exact (sound_setFacts fun given => .merge given.2.ends).andThenTo fun _ =>
        checks_made (fun given => .around (holds_ifChain given.2.conditions) given.2.bodies)
          fun covers => Covers.toList (covers.around rfl nofun)
    | whileLoop condition body => exact once (checkWhile_sound (checkStmts_sound false body whole) condition body)
    | repeatLoop body condition => exact once (checkRepeat_sound (checkStmts_sound false body whole) condition body)
    | forLoop name iterable body => exact once (checkFor_sound (checkStmts_sound false body whole) name iterable span body)
    | whenCases subject clauses =>
      refine (sound_checkValue subject).bindTo fun subject => ?_
      dsimp only
      refine .rejectIf rfl fun _ => sound_getFacts.bindTo fun entry => ?_
      refine ((checkWhenClauses_sound subject.type _ entry [] clauses whole).under fun given => ⟨?_, given.2⟩).bind
        fun checked => ?_
      · have choosable : isChoosable subject.type.promoted = true := by simpa using given.1.2
        exact ⟨if_pos choosable, choosable, given.1.1.2.built⟩
      · refine (sound_setFacts fun given => .merge ?_).andThenTo fun _ => checks_made
          (fun given => .around ?_ given.2.bodies) fun covers => Covers.toList (covers.around rfl nofun)
        · split
          · exact given.2.ends
          · exact List.forall_mem_append.mpr ⟨given.2.ends, List.forall_mem_singleton.mpr given.1.2⟩
        · obtain ⟨⟨⟨⟨_, holds⟩, choosable⟩, _⟩, cases_⟩ := given
          have distinct := cases_.distinct List.Pairwise.nil
          rw [List.append_nil] at distinct
          exact ⟨holds_whenCases holds cases_.values, by simpa using choosable, cases_.typed, distinct, cases_.elseLast⟩
    | print arguments =>
      exact (Basis.Gives.mapM fun argument _ => checkPrinted_sound argument).bindTo fun _ =>
        checks_made (fun given => .around given.2 .nil) (Covers.toList (.plain trivial))
    | free operand => exact once ((checkFree_sound operand).plain (plain_checkFree operand))
    | missing => exact checks_made (fun _ => .around .nil .nil) (Covers.toList (.plain trivial))

theorem checkMethods_sound (stmts : List Syntax.Stmt) (whole : closed → Syntax.ElseLastIn stmts) :
    basis.ChecksStmts final True closed (Syntax.definitionsOfMethods stmts) (checkMethods stmts) := by
  cases stmts with
  | nil => exact .pure (fun _ => .nil) .nil
  | cons stmt rest =>
    have others := checkMethods_sound rest fun isClosed => (whole isClosed).2
    obtain ⟨shape, span⟩ := stmt
    cases shape with
    | functionDecl head body =>
      refine sound_functionAt? span (fun id scope function => do
        let method ← bodyChecked id scope (checkStmts body) function
        return method :: (← checkMethods rest)) (fun _ _ => rfl)
        (others.implies fun _ covers unknown => covers.absent unknown) fun id scope function => ?_
      exact (bodyChecked_sound _ _ (checkStmts_sound false body (And.left ∘ whole)) fun given => given.2).bind
        fun method => (others.under fun _ => trivial).bind fun _ =>
          .pure (fun given => .append given.1.2 given.2) fun later covers defined => (covers _ defined).append later
    | _ => exact others

theorem checkIfClauses_sound (clauses : List Syntax.IfClause) (whole : closed → Syntax.ElseLastInClauses clauses) :
    basis.Checks final True (checkIfClauses clauses) basis.HoldsClauses fun checked =>
      Covers final closed (Syntax.definitionsInClauses clauses) (loweredByClauses checked.1) (clausesWithin checked.1) := by
  cases clauses with
  | nil =>
    exact sound_getFacts.bindTo fun _ => .pure (fun given =>
      ⟨fun _ member => (nomatch member), .nil, List.forall_mem_singleton.mpr given.2⟩) .nil
  | cons clause rest =>
    obtain ⟨condition, body, span⟩ := clause
    have block {given : Prop} := (checkStmts_sound false body (And.left ∘ whole)).inBlock given
    cases condition with
    | none =>
      have last : closed → Syntax.definitionsInClauses (.mk none body span :: rest) =
          Syntax.definitionsIn false body ++ [] :=
        fun isClosed => by rw [(whole isClosed).2.1 rfl, Syntax.definitionsInClauses, Syntax.definitionsInClauses]
      exact block.bind fun _ => sound_getFacts.bindTo fun _ => sound_countNode.andThenTo fun _ => .pure (fun given =>
        ⟨List.forall_mem_singleton.mpr fun _ same => (nomatch same), .append given.1.2 .nil,
          List.forall_mem_singleton.mpr given.2⟩) fun covers => (covers.append .nil).whenClosed last
    | some condition =>
      refine (sound_condition condition).bindTo fun branches =>
        (sound_setFacts fun given => given.2.whenTrue).andThenTo fun _ =>
          block.bind fun _ => sound_getFacts.bindTo fun _ => sound_countNode.andThenTo fun _ =>
            (sound_setFacts fun given => given.1.1.2.whenFalse).andThenTo fun _ =>
              ((checkIfClauses_sound rest (And.right ∘ And.right ∘ whole)).under fun _ => trivial).bind fun _ =>
                .pure (fun given => ?_) fun later covers => covers.append later
      obtain ⟨⟨⟨⟨_, branches⟩, body⟩, facts⟩, later⟩ := given
      refine ⟨List.forall_mem_cons.mpr ⟨fun _ same => Option.some.inj same ▸ branches.condition, later.conditions⟩,
        .append body later.bodies, List.forall_mem_cons.mpr ⟨facts, later.ends⟩⟩

theorem checkWhenClauses_sound (expected : Ty) (expected? : Option Ty) (entry : Facts Ty) (seen : List Constant)
    (clauses : List Syntax.WhenClause) (whole : closed → Syntax.ElseLastInCases clauses) :
    basis.Checks final ((expected? = some expected ∧ isChoosable expected.promoted = true ∧ expected.isBuilt = true) ∧
        BuiltFacts entry)
      (checkWhenClauses expected? entry seen clauses) (basis.HoldsCases expected seen clauses) fun checked =>
      Covers final closed (Syntax.definitionsInCases clauses) (loweredByCases checked.1) (casesWithin checked.1) := by
  cases clauses with
  | nil =>
    exact .pure (fun given => ⟨by simp, by simp, id, .nil, fun _ => rfl, .nil, by simp⟩) .nil
  | cons clause rest =>
    obtain ⟨values, body, span⟩ := clause
    have block {given : Prop} := (checkStmts_sound false body (And.left ∘ whole)).inBlock given
    unfold checkWhenClauses
    refine .rejectIf rfl fun _ => (sound_setFacts fun given => given.1.2).andThenTo fun _ =>
      (checkWhenValues_sound values seen fun given => given.1.1).bindTo fun checked => ?_
    refine block.bind fun _ => sound_getFacts.bindTo fun _ => sound_countNode.andThenTo fun _ =>
      ((checkWhenClauses_sound expected expected? entry _ rest fun isClosed => (whole isClosed).2).under
        fun given => given.1.1.1.1).bind fun later => .pure (fun given => ?_) fun later covers => covers.append later
    obtain ⟨⟨⟨⟨_, last⟩, recognised, some⟩, body⟩, facts⟩ := given.1
    have others := given.2
    refine ⟨List.forall_mem_cons.mpr ⟨recognised.holds, others.values⟩,
      List.forall_mem_cons.mpr ⟨recognised.typed, others.typed⟩,
      fun distinct => ?_, List.pairwise_cons.mpr ⟨fun _ member => some fun none => ?_, others.elseLast⟩,
      fun none => absurd none (List.cons_ne_nil _ _), .append body others.bodies,
      List.forall_mem_cons.mpr ⟨facts, others.ends⟩⟩
    · have known := others.distinct (recognised.distinct distinct)
      rw [recognised.known] at known
      simpa [Typed.WhenClause.values] using known
    · refine last ?_
      have more : rest ≠ [] := fun empty => by simp [others.none empty] at member
      simp [none, more]

end

theorem checkStmts_gives (stmts : List Syntax.Stmt) :
    basis.Gives True (checkStmts stmts) basis.HoldsBody :=
  (checkStmts_sound false stmts False.elim : basis.ChecksStmts { sources := .empty } True False _ _).toGives

end

end FplCompiler.Analysis
