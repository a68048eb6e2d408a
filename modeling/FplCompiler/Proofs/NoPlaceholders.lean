import FplCompiler.Proofs.SmallTrees
import FplCompiler.Proofs.SoundProgram

/-! Nodes and types that stand in place of an error are only left where an error was reported. -/

namespace FplCompiler

namespace Ty

mutual

def mentionsError : Ty → Bool
  | .primitive kind => kind = .error
  | .array element | .range element | .nullable element | .errorUnion element | .vararg element
  | .inlineArray element _ => mentionsError element
  | .function parameters result _ => anyMentionsError parameters || mentionsError result
  | .object _ arguments => anyMentionsError arguments
  | .parameter _ _ _ | .enumeration _ => false

def anyMentionsError : List Ty → Bool
  | [] => false
  | type :: rest => mentionsError type || anyMentionsError rest

end

mutual

theorem mentionsError_of_isBuilt : ∀ type : Ty, type.isBuilt = true → type.mentionsError = false
  | .primitive kind, built => by simpa [isBuilt, mentionsError] using built
  | .array element, built | .range element, built | .vararg element, built | .inlineArray element _, built =>
    mentionsError_of_isBuilt element built
  | .nullable inner, built | .errorUnion inner, built =>
    mentionsError_of_isBuilt inner (Bool.and_eq_true_iff.mp built).1
  | .function parameters result _, built => by
    obtain ⟨first, second⟩ := Bool.and_eq_true_iff.mp built
    simp [mentionsError, anyMentionsError_of_allBuilt parameters first, mentionsError_of_isBuilt result second]
  | .object _ arguments, built => anyMentionsError_of_allBuilt arguments built
  | .parameter _ _ _, _ | .enumeration _, _ => rfl

theorem anyMentionsError_of_allBuilt : ∀ types : List Ty, allBuilt types = true → anyMentionsError types = false
  | [], _ => rfl
  | type :: rest, built => by
    obtain ⟨first, others⟩ := Bool.and_eq_true_iff.mp built
    simp [anyMentionsError, mentionsError_of_isBuilt type first, anyMentionsError_of_allBuilt rest others]

end

end Ty

namespace Analysis

def standsForError : Typed.Expr → Bool
  | .mk (.error _) _ _ => true
  | .mk _ _ type => type.mentionsError

def statesError : Typed.Stmt → Bool
  | .error _ => true
  | _ => false

theorem Basis.Sound.standsForError {basis : Basis} {node : Typed.Expr} (sound : basis.Sound node) :
    Analysis.standsForError node = false := by
  obtain ⟨shape, span, type⟩ := node
  cases shape with
  | error message => exact sound.names.elim
  | _ => exact type.mentionsError_of_isBuilt sound.built

theorem Basis.HoldsStmt.statesError {basis : Basis} {stmt : Typed.Stmt} (holds : basis.HoldsStmt stmt) :
    Analysis.statesError stmt = false := by
  cases stmt with
  | error message => exact holds.elim
  | _ => rfl

/-- In a program that is accepted nothing stands in place of an error: no statement and no expression, and in no part of
the type of an expression, a symbol, a result or a column of an enum. The parameters of functions are symbols. -/
theorem accepted_has_no_placeholders (sources : SourceMap) (files : List Syntax.FileTree)
    (accepted : (analyze sources files).hasErrors = false) :
    let analyzed := analyze sources files
    let table := analyzed.table
    (∀ stmt ∈ analyzed.program.statements, statesError stmt = false) ∧
      (∀ node ∈ analyzed.program.exprs, standsForError node = false) ∧
      (∀ id < table.symbols.size, (table.symbol id).type.mentionsError = false) ∧
      (∀ id < table.functions.size, (table.function id).returnType.mentionsError = false ∧
        ∀ parameter ∈ (table.function id).received, parameter < table.symbols.size) ∧
      ∀ id, ∀ column ∈ (table.enumDef id).columns, column.type.mentionsError = false := by
  obtain ⟨holds, state, ended, fits⟩ := analyze_fits sources files accepted
  obtain ⟨nodes, symbols⟩ := analyze_sound sources files accepted
  generalize analyze sources files = result at holds ended fits nodes symbols
  intro analyzed table
  have same : state.table = table := ended
  refine ⟨fun stmt member => (holds stmt member).statesError, fun node member => (nodes node member).standsForError,
    fun id known => Ty.mentionsError_of_isBuilt _ (symbols id known).built, fun id known => ⟨?_, ?_⟩,
      fun id column member => ?_⟩
  · exact Ty.mentionsError_of_isBuilt _ (same ▸ fits.result id (same ▸ known))
  · exact same ▸ fits.parameters id
  · exact Ty.mentionsError_of_isBuilt _ (fits.columnTypes id column member)

def freesTwice : List Syntax.FileTree :=
  Syntax.oneFile
    [.at_ .missing,
      .function 2 "drop" [("text", .simple "String")] none [.at_ (.free (.named "text")), .at_ (.free (.named "text"))]]

/-- A warning does not count, and a statement that could not be read leaves nothing erroneous to the analysis. -/
theorem freesTwice_has_no_placeholders :
    (analyze .empty freesTwice).hasErrors = false ∧ (analyze .empty freesTwice).diagnostics ≠ [] ∧
      ∀ node ∈ (analyze .empty freesTwice).program.exprs, standsForError node = false := by
  have accepted : (analyze .empty freesTwice).hasErrors = false := by decide +kernel
  have warned : (analyze .empty freesTwice).diagnostics.isEmpty = false := by decide +kernel
  refine ⟨accepted, fun none => ?_, (accepted_has_no_placeholders .empty freesTwice accepted).2.1⟩
  rw [none] at warned
  cases warned

end Analysis

end FplCompiler
