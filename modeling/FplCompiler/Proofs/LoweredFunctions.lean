import FplCompiler.Proofs.DefinedFunctions

/-!
Functions of files, methods and constructors are defined where they stand, and the check of statements goes to each of
them, so that all have code. Loops go over what code can be made for, and what is assigned to is a place.
-/

namespace FplCompiler.Analysis

open Check

open Typed (loweredBy stmtsWithin)

variable {final : State} {closed : Prop}

theorem keeps_noteTop (file : Syntax.FileTree) (state : State) : Keeps state (noteTop file state).2 := by
  have ensured : Keeps state (ensureTopFunction state).2 := by
    unfold ensureTopFunction
    rw [bind_apply]
    split
    · exact ⟨id, state.table.addFunction_extends _, rfl, rfl, rfl, rfl⟩
    · exact .refl state
  unfold noteTop
  split
  · exact ensured
  · exact .refl state

theorem checkFile_covers (plain : final.PlainFields) (file : Syntax.FileTree) (scope : ScopeId)
    (whole : closed → Syntax.ElseLastIn file.statements) (state : State) :
    Keeps state (checkFile file scope state).2 ∧ (Keeps (checkFile file scope state).2 final →
      Covers final closed (Syntax.definitionsIn true file.statements) (loweredBy (checkFile file scope state).1.statements)
        (stmtsWithin (checkFile file scope state).1.statements)) := by
  rw [checkFile_apply]
  have checks : (Basis.mk state.table (fun _ => []) 0 0).ChecksStmts final True closed _ _ :=
    checkStmts_sound true file.statements whole
  have keeps := checks.toGives.keeps ((noteTop file state).2.insideFile scope)
  exact ⟨(keeps_noteTop file state).trans { keeps with }, fun leads => checks.always plain _ { leads with }⟩

theorem eachFile_covers (plain : final.PlainFields) (files : List (Syntax.FileTree × ScopeId))
    (whole : closed → ∀ file ∈ files, Syntax.ElseLastIn file.1.statements) (state : State) :
    Keeps state (checkFiles files state).2 ∧ (Keeps (checkFiles files state).2 final →
      Covers final closed (files.flatMap fun file => Syntax.definitionsIn true file.1.statements)
        ((checkFiles files state).1.flatMap fun tree => loweredBy tree.statements)
        ((checkFiles files state).1.flatMap fun tree => stmtsWithin tree.statements)) := by
  unfold checkFiles
  induction files generalizing state with
  | nil => exact ⟨.refl state, fun _ => .nil⟩
  | cons file rest ih =>
    rw [List.mapM_cons]
    obtain ⟨keeps, covers⟩ := checkFile_covers plain file.1 file.2
      (fun isClosed => (List.forall_mem_cons.mp (whole isClosed)).1) state
    obtain ⟨later, others⟩ := ih (fun isClosed => (List.forall_mem_cons.mp (whole isClosed)).2)
      (checkFile file.1 file.2 state).2
    exact ⟨keeps.trans later, fun leads => (covers (later.trans leads)).append (others leads)⟩

theorem checkStmts_steps (stmts : List Syntax.Stmt) : Steps (checkStmts stmts) :=
  .ofGives fun _ => (checkStmts_gives stmts).under False.elim

theorem checkFiles_covers {declared : State} (plain : declared.PlainFields)
    (files : List (Syntax.FileTree × ScopeId)) (whole : closed → ∀ file ∈ files, Syntax.ElseLastIn file.1.statements) :
    let checked := checkFiles files declared
    Keeps declared checked.2 ∧ Covers checked.2 closed
      (files.flatMap fun file => Syntax.definitionsIn true file.1.statements)
      (checked.1.flatMap fun tree => loweredBy tree.statements)
      (checked.1.flatMap fun tree => stmtsWithin tree.statements) := by
  -- What is kept does not depend on the final state.
  have empty : State.PlainFields { sources := .empty } := fun _ member => by cases member
  have keeps := (eachFile_covers empty files whole declared).1
  have stillPlain : (checkFiles files declared).2.PlainFields := by
    unfold State.PlainFields
    rw [keeps.fieldStatements]
    exact plain
  exact ⟨keeps, (eachFile_covers stillPlain files whole declared).2 (.refl _)⟩

theorem analyze_targets (sources : SourceMap) (files : List Syntax.FileTree) :
    ∀ target ∈ (analyze sources files).program.targets, target.IsPlace := by
  obtain ⟨-, -, -, -, plain⟩ := declaredState_complete sources files
  intro target member
  obtain ⟨stmt, inProgram, assigned⟩ := List.mem_filterMap.mp member
  rw [(analyze_apply sources files).1] at inProgram
  obtain ⟨_, covers⟩ := checkFiles_covers plain (files.zip (declaredState sources files).fileScopes) False.elim
  exact covers.places stmt inProgram target assigned

end FplCompiler.Analysis
