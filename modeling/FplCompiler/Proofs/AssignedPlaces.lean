import FplCompiler.Proofs.DeclaredProgram
import FplCompiler.Proofs.TypedTree

/-!
Statements without others in them. What an analysed program assigns to are variables, members and elements, also where
the fields of a new object are set.
-/

namespace FplCompiler

namespace Typed

def Expr.IsPlace (expr : Expr) : Prop :=
  match expr.shape with
  | .localVar _ | .globalVar _ | .member _ _ | .index _ _ => True
  | .unwrap operand =>
    match operand.shape with
    | .localVar _ | .globalVar _ => True
    | _ => False
  | _ => False

/-- Statements without others in them, which define nothing. What they assign to is a place. -/
def Stmt.Plain : Stmt → Prop
  | .assign _ target _ => target.IsPlace
  | .expression _ | .declare _ _ | .free _ | .print _ | .missing | .error _ => True
  | _ => False

end Typed

namespace Analysis

open Check

variable {α β : Type} {post : α → Prop} {next : Unit → Check α} {first : Check α}

def Always {α : Type} (check : Check α) (post : α → Prop) : Prop :=
  ∀ state, post (check state).1

theorem Always.bind {next : α → Check β} {post : β → Prop}
    (goesOn : ∀ result, Always (next result) post) : Always (first >>= next) post :=
  fun _ => goesOn _ _

theorem Always.bindTo {next : α → Check β} {last : β → Prop}
    (begins : Always first post) (goesOn : ∀ result, post result → Always (next result) last) :
    Always (first >>= next) last :=
  fun state => goesOn _ (begins state) _

theorem Always.reportIf {given : Prop} [Decidable given] {cause : Cause} {span : Span}
    (goesOn : ∀ reported, Always (next reported) post) :
    Always (if given then report cause span >>= next else next ()) post := by
  split
  · exact .bind goesOn
  · exact goesOn ()

theorem Always.reportEither {given otherwise : Prop} [Decidable given] [Decidable otherwise] {first second : Cause}
    {span : Span} (goesOn : ∀ reported, Always (next reported) post) :
    Always (if given then report first span >>= next
      else if otherwise then report second span >>= next else next ()) post := by
  split
  · exact .bind goesOn
  · exact .reportIf goesOn

theorem plain_assignNode (op : Typed.AssignOp) {target : Typed.Expr} (place : target.IsPlace) (value : Typed.Expr)
    (span : Span) : Always (assignNode op target value span) Typed.Stmt.Plain := by
  unfold assignNode
  split
  · exact .bind fun _ _ => place
  · split
    · exact .bind fun _ _ => place
    · exact .bind fun _ _ => place
    · exact fun _ => trivial

theorem plain_targetError? (target : Typed.Expr) : Always (targetError? target) fun error? =>
    (error? = none → target.IsPlace) ∧ ∀ error, error? = some error → error.Plain := by
  have failed : ∀ cause, Always (do return some (← errorStatement cause target.span)) fun error? =>
      (error? = none → target.IsPlace) ∧ ∀ error, error? = some error → error.Plain :=
    fun _ _ => ⟨fun same => (by cases same), fun _ same => Option.some.inj same ▸ trivial⟩
  unfold targetError?
  split
  case h_1 object field shape =>
    refine .bind fun field => ?_
    split
    · exact fun _ => ⟨fun _ => by simp [Typed.Expr.IsPlace, shape], fun _ same => (by cases same)⟩
    · exact failed _
  case h_2 array index shape =>
    split
    · exact failed _
    · exact fun _ => ⟨fun _ => by simp [Typed.Expr.IsPlace, shape], fun _ same => (by cases same)⟩
  case h_3 => exact fun _ => ⟨fun same => (by cases same), fun _ same => Option.some.inj same ▸ trivial⟩
  case h_4 => exact failed _

theorem plain_assignPlace (op : Typed.AssignOp) (target value : Typed.Expr) (span : Span) :
    Always (assignPlace op target value span) Typed.Stmt.Plain := by
  refine (plain_targetError? target).bindTo fun error? judged => ?_
  split
  · exact fun _ => judged.2 _ rfl
  · exact plain_assignNode op (judged.1 rfl) value span

theorem variableShape_isPlace (id : SymbolId) (symbol : Symbol) (span : Span) (type : Ty) :
    (Typed.Expr.mk (variableShape id symbol) span type).IsPlace ∧
      (Typed.Expr.mk (.unwrap (.mk (variableShape id symbol) span symbol.type)) span type).IsPlace := by
  unfold variableShape
  cases symbol.kind <;> exact ⟨trivial, trivial⟩

theorem readVariable_isPlace (id : SymbolId) (symbol : Symbol) (span : Span) (maybeFreed : Bool) :
    Always (readVariable id symbol span maybeFreed) Typed.Expr.IsPlace := by
  have places := variableShape_isPlace id symbol span
  refine .bind fun facts => ?_
  dsimp only
  refine .reportEither fun _ => .reportIf fun _ => ?_
  split
  · split
    · exact fun _ => (places _).1
    · exact fun _ => (places _).2
  · exact fun _ => (places _).1

theorem plain_assignVariable (op : Typed.AssignOp) (id : SymbolId) (symbol : Symbol) (value : Typed.Expr)
    (targetSpan span : Span) : Always (assignVariable op id symbol value targetSpan span) Typed.Stmt.Plain := by
  refine .bind fun _ => ?_
  split
  · have target : Always (node (variableShape id symbol) targetSpan symbol.type) Typed.Expr.IsPlace :=
      fun _ => (variableShape_isPlace id symbol targetSpan symbol.type).1
    refine target.bindTo fun target place => (plain_assignNode .replace place value span).bindTo fun result plain => ?_
    split <;> exact fun _ => plain
  · exact (readVariable_isPlace _ _ _ _).bindTo fun target place =>
      (plain_assignNode op place value span).bindTo fun result plain _ => plain

theorem plain_checkAssign (operator : Syntax.AssignOp) (target value : Syntax.Expr) (span : Span) :
    Always (checkAssign operator target value span) Typed.Stmt.Plain := by
  have error : ∀ cause span, Always (errorStatement cause span) Typed.Stmt.Plain := fun _ _ _ => trivial
  unfold checkAssign assignName
  split
  · refine .bind fun found => ?_
    split
    · exact .bind fun _ => error _ _
    · refine .bind fun symbol => ?_
      split
      · exact .bind fun _ => plain_assignVariable _ _ _ _ _ _
      · exact .bind fun _ => plain_assignVariable _ _ _ _ _ _
      · exact .bind fun _ => .bind fun _ => plain_assignPlace _ _ _ _
      · exact .bind fun _ => .bind fun _ => plain_assignPlace _ _ _ _
      · exact .bind fun _ => error _ _
  · exact .bind fun _ => .bind fun _ => plain_assignPlace _ _ _ _
  · exact .bind fun _ => .bind fun _ => plain_assignPlace _ _ _ _
  · exact .bind fun _ => error _ _

theorem plain_checkVariable (decl : Syntax.VariableDecl) (span : Span) :
    Always (checkVariable decl span) Typed.Stmt.Plain := by
  refine .bind fun declared => .bind fun state => ?_
  by_cases inFile : state.scopes.currentKind = .file
  · rw [if_pos inFile]
    exact fun _ => trivial
  · rw [if_neg inFile]
    exact fun _ => trivial

theorem plain_checkFree (operand : Syntax.Expr) : Always (checkFree operand) Typed.Stmt.Plain := by
  have freed : ∀ freed? value, Always (freeChecked freed? value) Typed.Stmt.Plain := by
    intro freed? value
    unfold freeChecked
    dsimp only
    split
    · exact fun _ => trivial
    · split
      · refine .bind fun facts => ?_
        split <;> exact fun _ => trivial
      · exact fun _ => trivial
  unfold checkFree
  split
  · exact .bind fun found => .bind fun value => freed found value
  · exact .bind fun found => .bind fun value => freed found value

def State.PlainFields (state : State) : Prop :=
  ∀ entry ∈ state.fieldStatements, ∀ stmt ∈ entry.2, stmt.Plain

theorem filterMapM_plain {items : List α} {check : α → Check (Option Typed.Stmt)}
    (each : ∀ item state, ∀ stmt ∈ (check item state).1, stmt.Plain) (state : State) :
    ∀ stmt ∈ (items.filterMapM check state).1, stmt.Plain := by
  induction items generalizing state with
  | nil => exact fun _ member => by cases member
  | cons item rest ih =>
    rw [List.filterMapM_cons, bind_apply]
    cases made : (check item state).1 with
    | none => exact ih _
    | some stmt => exact List.forall_mem_cons.mpr ⟨each item state stmt made, ih _⟩

theorem fieldStatements_plain (found : FoundClass) (constructor : FunctionDef) (state : State) :
    ∀ stmt ∈ (fieldStatements found constructor state).1, stmt.Plain := by
  refine List.forall_mem_append.mpr ⟨filterMapM_plain (fun item state stmt made => ?_) _,
    filterMapM_plain (fun item state stmt made => ?_) _⟩
  · obtain ⟨parameter, symbol⟩ := item
    unfold declareParameterField at made
    cases kind : parameter.kind <;> simp only [kind] at made
    · cases made
    · exact Option.some.inj made ▸ trivial
    · exact Option.some.inj made ▸ trivial
  · obtain ⟨decl, span⟩ := item
    simp only [declareVariableField, bind_apply] at made
    generalize (checkDeclared decl span state).1 = declared at made
    obtain ⟨value?, type⟩ := declared
    cases value? with
    | none => cases made
    | some value => exact Option.some.inj made ▸ trivial

end Analysis

end FplCompiler
