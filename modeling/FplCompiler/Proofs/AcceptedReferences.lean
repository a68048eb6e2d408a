import FplCompiler.Proofs.LoweredFunctions
import FplCompiler.Proofs.OrderlyPrograms

/-!
In a program that is accepted all that code refers to is declared, and each function that is declared has code.
-/

namespace FplCompiler

namespace Syntax

mutual

theorem definitions_places (ofFile : Bool) (stmt : Stmt) :
    ((stmt.definitions ofFile).map Definition.span).Sublist stmt.places := by
  obtain ⟨shape, span⟩ := stmt
  cases shape with
  | functionDecl head body =>
    cases ofFile with
    | false => exact List.nil_sublist _
    | true => exact (definitionsIn_places false body).cons_cons span
  | classDecl head body => exact (definitionsOfMethods_places body).cons_cons span
  | whileLoop condition body => exact definitionsIn_places false body
  | repeatLoop body condition => exact definitionsIn_places false body
  | forLoop name iterable body => exact definitionsIn_places false body
  | ifChain clauses => exact definitionsInClauses_places clauses
  | whenCases subject clauses => exact definitionsInCases_places clauses
  | _ => exact List.nil_sublist _

theorem definitionsIn_places (ofFile : Bool) (stmts : List Stmt) :
    ((definitionsIn ofFile stmts).map Definition.span).Sublist (placesIn stmts) := by
  cases stmts with
  | nil => exact .slnil
  | cons stmt rest =>
    rw [definitionsIn, placesIn, List.map_append]
    exact (definitions_places ofFile stmt).append (definitionsIn_places ofFile rest)

theorem definitionsOfMethods_places (stmts : List Stmt) :
    ((definitionsOfMethods stmts).map Definition.span).Sublist (placesIn stmts) := by
  cases stmts with
  | nil => exact .slnil
  | cons stmt rest =>
    have others := definitionsOfMethods_places rest
    obtain ⟨shape, span⟩ := stmt
    cases shape with
    | functionDecl head body =>
      rw [definitionsOfMethods, placesIn, List.map_append]
      exact ((definitionsIn_places false body).cons_cons span).append others
    | _ => exact others.trans (List.sublist_append_right _ _)

theorem definitionsInClauses_places (clauses : List IfClause) :
    ((definitionsInClauses clauses).map Definition.span).Sublist (placesInClauses clauses) := by
  cases clauses with
  | nil => exact .slnil
  | cons clause rest =>
    obtain ⟨condition, body, span⟩ := clause
    rw [definitionsInClauses, placesInClauses, List.map_append]
    exact (definitionsIn_places false body).append (definitionsInClauses_places rest)

theorem definitionsInCases_places (clauses : List WhenClause) :
    ((definitionsInCases clauses).map Definition.span).Sublist (placesInCases clauses) := by
  cases clauses with
  | nil => exact .slnil
  | cons clause rest =>
    obtain ⟨values, body, span⟩ := clause
    rw [definitionsInCases, placesInCases, List.map_append]
    exact (definitionsIn_places false body).append (definitionsInCases_places rest)

end

end Syntax

namespace Analysis

open Check

open Syntax (Definition)

open Codegen (IsNamed IsLowered Iterates IsFunctionLabel)

variable {state : State}

theorem definitionsOf_places (files : List Syntax.FileTree) :
    ((definitionsOf files).map Definition.span).Sublist (files.flatMap fun file => Syntax.placesIn file.statements) := by
  induction files with
  | nil => exact .slnil
  | cons file rest ih =>
    rw [definitionsOf, List.flatMap_cons, List.map_append]
    exact (Syntax.definitionsIn_places true file.statements).append ih

def State.TopLast (functions : Array FunctionDef) (state : State) : Prop :=
  (state.topFunction = none ∧ state.table.functions = functions) ∨
    state.topFunction = some functions.size ∧
      state.table.functions = functions.push ⟨topName, topName, .nowhere, [], none, false, .unit, none, false⟩

variable {functions : Array FunctionDef}

theorem State.TopLast.noteTop (top : state.TopLast functions) (file : Syntax.FileTree) :
    (noteTop file state).2.TopLast functions := by
  have ensured : (ensureTopFunction state).2.TopLast functions := by
    unfold ensureTopFunction
    rw [bind_apply, get_apply]
    rcases top with ⟨missing, same⟩ | ⟨known, same⟩
    · rw [missing]
      refine .inr ⟨congrArg some (congrArg Array.size same), ?_⟩
      exact congrArg (Array.push · _) same
    · rw [known]
      exact .inr ⟨known, same⟩
  unfold Analysis.noteTop
  split
  · exact ensured
  · exact top

theorem State.TopLast.checkFile (top : state.TopLast functions) (file : Syntax.FileTree) (scope : ScopeId) :
    (checkFile file scope state).2.TopLast functions := by
  have noted := top.noteTop file
  have same := (checkStmts_steps file.statements ((Analysis.noteTop file state).2.insideFile scope)).registry
  simp only [State.registry, Prod.mk.injEq] at same
  obtain ⟨_, _, _, _, _, _, _, _, sameFunctions, sameTop⟩ := same
  rw [checkFile_apply]
  unfold State.TopLast at noted ⊢
  rw [sameFunctions, sameTop]
  exact noted

theorem State.TopLast.checkFiles (top : state.TopLast functions) (files : List (Syntax.FileTree × ScopeId)) :
    (checkFiles files state).2.TopLast functions := by
  unfold Analysis.checkFiles
  induction files generalizing state with
  | nil => exact top
  | cons file rest ih =>
    rw [List.mapM_cons]
    exact ih (top.checkFile file.1 file.2)

theorem Basis.Sound.isNamed {analyzed : Analyzed} {node : Typed.Expr} (sound : (Basis.ofAnalyzed analyzed).Sound node) :
    IsNamed analyzed.table node := by
  obtain ⟨shape, span, type⟩ := node
  have names := sound.names
  cases shape <;> first | exact names | trivial

theorem Basis.Fits.iterates {basis : Basis} (fits : basis.Fits state) (same : state.table = basis.table)
    {iterable : Typed.Expr} (goesOver : iterable.type.Iterable basis.table) (built : iterable.type.isBuilt = true) :
    Iterates basis.table iterable := by
  obtain ⟨shape, span, type⟩ := iterable
  have goes : type.Iterable basis.table := goesOver
  unfold Iterates
  split
  case h_1 => trivial
  case h_2 cls arguments notRange given =>
    cases given
    obtain ⟨⟨size, get⟩, found⟩ := Option.isSome_iff_exists.mp goes
    refine ⟨size, get, found, ?_⟩
    unfold Codegen.iteration? at found
    simp only [Option.bind_eq_bind, Option.bind_eq_some_iff] at found
    obtain ⟨sizeId, _, getId, member, found⟩ := found
    split at found
    case h_1 =>
      rename_i first _ _ kind
      have known : getId < state.table.symbols.size :=
        fits.members cls.id ("get", getId) (same ▸ mem_of_lookup member)
      have overloads := (fits.symbol getId known).overloads _ (same ▸ kind)
      exact ⟨_, (overloads first List.mem_cons_self).known, (Prod.mk.inj (Option.some.inj found)).2 ▸ rfl⟩
    case h_2 => cases found
  case h_3 notRange notObject given =>
    cases given
    unfold Ty.Iterable at goes
    split at goes
    · exact (notObject _ _ rfl).elim
    · refine goes.resolve_right fun error => ?_
      subst error
      cases built

/-- In a program that is accepted each statement can be lowered, and each function is. The labels of functions have a slash
in them, but for the one of the statements of files. -/
theorem analyze_lowered (sources : SourceMap) (files : List Syntax.FileTree)
    (apart : (files.flatMap fun file => Syntax.placesIn file.statements).Nodup)
    (closed : ∀ file ∈ files, Syntax.ElseLastIn file.statements) (accepted : (analyze sources files).hasErrors = false) :
    (∀ stmt ∈ (analyze sources files).program.statements, IsLowered (analyze sources files).table stmt) ∧
      (∀ id < (analyze sources files).table.functions.size, id ∈ (analyze sources files).lowered) ∧
      ∀ function ∈ (analyze sources files).table.functions, '/' ∈ function.label.toList ∨ function.label = topName := by
  obtain ⟨scopes, noTop, declaredAll, allDeclared, labelled⟩ :=
    declaredState_definitions sources files ((definitionsOf_places files).nodup apart)
  obtain ⟨nodes, -⟩ := analyze_sound sources files accepted
  obtain ⟨-, state, sameTable, fits⟩ := analyze_fits sources files accepted
  obtain ⟨program, table, diagnostics⟩ := analyze_apply sources files
  have topFunction : (analyze sources files).topFunction =
      (checkFiles (files.zip (declaredState sources files).fileScopes) (declaredState sources files)).2.topFunction := by
    unfold analyze
    rw [StateT.run, checkProgram_apply]
  obtain ⟨-, -, -, -, plain⟩ := declaredState_complete sources files
  generalize analyze sources files = analyzed at accepted nodes sameTable fits program table diagnostics topFunction ⊢
  generalize declaredState sources files = declared at *
  have quiet : (checkFiles (files.zip declared.fileScopes) declared).2.Accepted := by
    intro diagnostic member
    simpa using List.any_eq_false.mp accepted diagnostic (diagnostics ▸ member)
  have topLast := State.TopLast.checkFiles (.inl ⟨noTop, rfl⟩) (files.zip declared.fileScopes)
  have definitions : ((files.zip declared.fileScopes).flatMap fun file => Syntax.definitionsIn true file.1.statements) =
      definitionsOf files := by
    conv => rhs; rw [definitionsOf, ← List.map_fst_zip scopes, List.flatMap_map]
  obtain ⟨keeps, covers⟩ := checkFiles_covers plain (files.zip declared.fileScopes) fun _ : True =>
    fun file member => closed file.1 (List.of_mem_zip member).1
  rw [← program, definitions] at covers
  refine ⟨fun stmt member => ⟨fun node part => ?_, ?_⟩, fun id bound => ?_, fun function member => ?_⟩
  · exact (nodes node (List.mem_flatMap.mpr ⟨stmt, member, part⟩)).isNamed
  · rintro symbol iterable body rfl
    have goesOver := covers.loops quiet _ member symbol iterable body rfl
    rw [← table] at goesOver
    have inside : iterable ∈ Typed.exprsWithin [iterable] := by simp [Typed.exprsWithin, Typed.Expr.mem_within_self]
    exact fits.iterates sameTable goesOver (nodes iterable (List.mem_flatMap.mpr ⟨_, member, inside⟩)).built
  · have lowered : id < declared.table.functions.size → id ∈ analyzed.lowered := fun old => by
      obtain ⟨definition, isDefinition, same⟩ := allDeclared id old
      refine List.mem_append_right _ (covers.lowered trivial (fun definition member => ?_) definition isDefinition id ?_)
      · rw [keeps.definedAt]
        exact declaredAll definition member
      · rw [keeps.definedAt, same]
    rw [table] at bound
    rcases topLast with ⟨_, same⟩ | ⟨top, same⟩
    · rw [same] at bound
      exact lowered bound
    · rw [same, Array.size_push] at bound
      rcases Nat.lt_succ_iff_lt_or_eq.mp bound with old | rfl
      · exact lowered old
      · refine List.mem_append_left _ ?_
        rw [topFunction, top]
        exact List.mem_singleton_self _
  · rw [table] at member
    rcases topLast with ⟨_, same⟩ | ⟨_, same⟩
    · exact .inl (labelled function (same ▸ member))
    · rw [same] at member
      rcases Array.mem_push.mp member with old | rfl
      · exact .inl (labelled function old)
      · exact .inr rfl

end Analysis

end FplCompiler
