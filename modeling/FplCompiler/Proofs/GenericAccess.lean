import FplCompiler.Proofs.SmallTrees
import FplCompiler.Proofs.SoundProgram

/-!
A generic class has one body for all its instances, in which a type parameter takes one word. The code outside of the class
reaches for the same bytes as the body as long as all type arguments are words.
-/

namespace FplCompiler.Analysis

open Codegen

/-- For an instance whose type arguments are words, all types of an accepted program are laid out as in the body of the
class, and its members lie where the class has them. Other type arguments are laid out differently. -/
theorem generic_access (sources : SourceMap) (files : List Syntax.FileTree)
    (accepted : (analyze sources files).hasErrors = false) (cls : ClassRef) (arguments : List Ty) :
    let analyzed := analyze sources files
    let bindings := (Ty.object cls arguments).bindings
    ((∀ type : Ty, type.isBuilt = true → SameAccess bindings type) ↔ Ty.Words bindings) ∧
      (Ty.Words bindings →
        (∀ id, SameAccess bindings (analyzed.table.symbol id).type) ∧
        ∀ node ∈ analyzed.program.exprs, SameAccess bindings node.type ∧
          ∀ object field, node.shape = .member object field → object.type = .object cls arguments → ∀ code,
            memberPlace analyzed.table node.type code field =
              memberPlace analyzed.table (analyzed.table.symbol field).type code field) := by
  obtain ⟨nodes, symbols⟩ := analyze_sound sources files accepted
  generalize analyze sources files = result at nodes symbols
  intro analyzed bindings
  have declared : Ty.Words bindings → ∀ id, SameAccess bindings (result.table.symbol id).type := by
    intro words id
    by_cases known : id < result.table.symbols.size
    · exact sameAccess_of_words words (symbols id known).built
    · have none : (default : Symbol).type.element? = none := rfl
      rw [Declarations.symbol_outside known]
      exact ⟨rfl, rfl, fun _ _ _ => rfl, by simp [none], by simp [none], by simp [none]⟩
  refine ⟨sameAccess_iff_words cls arguments, fun words => ⟨declared words, fun node member => ⟨?_, ?_⟩⟩⟩
  · exact sameAccess_of_words words (nodes node member).built
  · intro object field shape type code
    have named := (nodes node member).names
    rw [shape] at named
    rcases named cls arguments type with same | same
    · rw [same]
      rfl
    · rw [same, type]
      exact (declared words field).member analyzed.table code field

def boxReader (argument : String) : List Syntax.FileTree :=
  let box : Syntax.TypeExpr := .mk (.named "Box" [.simple argument]) .nowhere
  Syntax.oneFile
    [.mk (.classDecl ⟨"Box", ["T"], [⟨.var, "value", .simple "T", .nowhere⟩]⟩ []) (Syntax.line 1),
      .function 2 "read" [("box", box)] (some (.simple argument))
        [.at_ (.expression (.at_ (.returnExpr (some (.at_ (.member (.named "box") "value"))))))]]

def readsOtherWidth (table : Declarations) (node : Typed.Expr) : Bool :=
  match node.shape with
  | .member _ field => memSize node.type ≠ memSize (table.symbol field).type
  | _ => false

/-- The field of a box of numbers is read as the constructor wrote it. -/
theorem intBox_access :
    (analyze .empty (boxReader "Int")).hasErrors = false ∧
      ∀ node ∈ (analyze .empty (boxReader "Int")).program.exprs,
        SameAccess (Ty.object ⟨0, "Box", ["T"]⟩ [.int]).bindings node.type := by
  have accepted : (analyze .empty (boxReader "Int")).hasErrors = false := by decide +kernel
  have words : Ty.Words (Ty.object ⟨0, "Box", ["T"]⟩ [.int]).bindings := List.forall_mem_singleton.mpr rfl
  exact ⟨accepted, fun node member => ((generic_access .empty (boxReader "Int") accepted _ _).2 words).2 node member |>.1⟩

/-- The field of a box of characters is read as one byte, while the constructor wrote a word. -/
theorem charBox_reads_other_width :
    (analyze .empty (boxReader "Char")).hasErrors = false ∧
      ∃ node ∈ (analyze .empty (boxReader "Char")).program.exprs,
        readsOtherWidth (analyze .empty (boxReader "Char")).table node = true := by
  decide +kernel

end FplCompiler.Analysis
