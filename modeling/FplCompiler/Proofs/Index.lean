import FplCompiler.Ir.Index
import FplCompiler.Proofs.Machine
import Mathlib.Data.List.Find
import Mathlib.Data.List.Induction

/-!
The index of a function that was made anew says exactly what its code holds: how often registers are read, where they
are written, where labels stand and how often they are jumped to.
-/

namespace FplCompiler.Ir

theorem getD_modify {α : Type} (values : Array α) (index other : Nat) (change : α → α) (fallback : α)
    (bound : other < values.size) :
    (values.modify index change).getD other fallback =
      if index = other then change (values.getD other fallback) else values.getD other fallback := by
  simp only [Array.getD_eq_getD_getElem?, Array.getElem?_modify, Array.getElem?_eq_getElem bound]
  split <;> simp

def Instr.label? : Instr → Option Label
  | .label place | .jump place | .branch _ _ _ place => some place
  | _ => none

def Instr.passed : Instr → Nat
  | .call _ arguments _ | .callRegister _ arguments _ => arguments
  | _ => 0

structure Function.Valid (function : Function) : Prop where
  machine : Reg.machineCount ≤ function.registers.size
  reads : ∀ instr ∈ function.code, ∀ register : Nat, register ∈ instr.uses → register < function.registers.size
  writes : ∀ instr ∈ function.code, ∀ register : Nat, instr.def? = some register → register < function.registers.size
  labels : ∀ instr ∈ function.code, ∀ label : Nat, instr.label? = some label → label < function.labelCount

variable {register label : Nat} {function source : Function}

theorem Instr.mem_argumentRegisters {count : Nat} :
    register ∈ Instr.argumentRegisters count ↔ 1 ≤ register ∧ register ≤ count := by
  simp only [Instr.argumentRegisters, List.mem_map, List.mem_range, Reg.argument]
  constructor
  · omega
  · rintro ⟨lower, upper⟩
    exact ⟨register - 1, by omega, by omega⟩

namespace Index

def add (index : Index) (entry : Instr × Nat) : Index :=
  let placed := index.addLabel entry.2 entry.1
  entry.1.uses.foldl countUse
    (match entry.1.def? with
      | some register => placed.addDefinition register entry.2
      | none => placed)

theorem addCode_eq_foldl {kind : Reg → RegKind} {code : List Instr} {place : Nat} {index result : Index}
    (done : addCode kind code place index = (result, none)) : result = (code.zipIdx place).foldl add index := by
  induction code generalizing place index with
  | nil =>
    simp only [addCode, Prod.mk.injEq] at done
    simp [done]
  | cons instr rest ih =>
    simp only [addCode] at done
    simp only [List.zipIdx_cons]
    split at done
    · rename_i register defined
      split at done
      · simp at done
      · rw [ih done]
        simp [add, defined]
    · rename_i undefined
      rw [ih done]
      simp [add, undefined]

theorem foldl_countUse_eq (registers : List Reg) (index : Index) :
    registers.foldl countUse index =
      { index with uses := registers.foldl (fun uses register => uses.modify register (· + 1)) index.uses } := by
  induction registers generalizing index with
  | nil => rfl
  | cons register rest ih => simp only [List.foldl_cons, ih, countUse]

theorem size_foldl_modify (registers : List Reg) (uses : Array Nat) :
    (registers.foldl (fun uses register => uses.modify register (· + 1)) uses).size = uses.size := by
  induction registers generalizing uses with
  | nil => rfl
  | cons register rest ih => simp only [List.foldl_cons, ih, Array.size_modify]

theorem getD_foldl_modify (registers : List Reg) (uses : Array Nat) (register : Reg) (bound : register < uses.size) :
    (registers.foldl (fun uses register => uses.modify register (· + 1)) uses).getD register 0 =
      uses.getD register 0 + registers.count register := by
  induction registers generalizing uses with
  | nil => simp
  | cons first rest ih =>
    have firstBound : register < (uses.modify first (· + 1)).size := by simpa using bound
    rw [List.foldl_cons, ih _ firstBound, getD_modify _ _ _ _ _ bound]
    by_cases same : first = register <;> simp [same]
    omega

theorem uses_add (index : Index) (instr : Instr) (place : Nat) :
    (index.add (instr, place)).uses =
      instr.uses.foldl (fun uses register => uses.modify register (· + 1)) index.uses := by
  simp only [add, foldl_countUse_eq]
  cases instr <;> split <;> rfl

theorem defs_add (index : Index) (instr : Instr) (place : Nat) :
    (index.add (instr, place)).defs =
      match instr.def? with
      | some register => index.defs.modify register (· ++ [place])
      | none => index.defs := by
  simp only [add, foldl_countUse_eq]
  cases instr <;> split <;> rfl

theorem labelAt_add (index : Index) (instr : Instr) (place : Nat) :
    (index.add (instr, place)).labelAt =
      match instr with
      | .label label => index.labelAt.modify label fun _ => some place
      | _ => index.labelAt := by
  simp only [add, foldl_countUse_eq]
  cases instr <;> split <;> rfl

theorem labelUses_add (index : Index) (instr : Instr) (place : Nat) :
    (index.add (instr, place)).labelUses =
      match instr.target? with
      | some label => index.labelUses.modify label (· + 1)
      | none => index.labelUses := by
  simp only [add, foldl_countUse_eq]
  cases instr <;> split <;> rfl

theorem useCount_add (index : Index) (instr : Instr) (place register : Nat) (bound : register < index.uses.size) :
    (index.add (instr, place)).useCount register = index.useCount register + instr.uses.count register := by
  rw [useCount, uses_add, getD_foldl_modify _ _ _ bound, useCount]

theorem definitions_add (index : Index) (instr : Instr) (place register : Nat) (bound : register < index.defs.size) :
    (index.add (instr, place)).definitions register =
      index.definitions register ++ if instr.def? = some register then [place] else [] := by
  rw [definitions, defs_add]
  cases defined : instr.def? with
  | none => simp [definitions]
  | some dest =>
    rw [getD_modify _ _ _ _ _ bound]
    by_cases same : dest = register <;> simp [same, definitions]

theorem position?_add (index : Index) (instr : Instr) (place label : Nat) (bound : label < index.labelAt.size) :
    (index.add (instr, place)).position? label =
      if instr = .label label then some place else index.position? label := by
  rw [position?, labelAt_add]
  split
  · rw [getD_modify _ _ _ _ _ bound]
    simp [position?]
  · rename_i different
    rw [if_neg (different label), position?]

theorem jumpCount_add (index : Index) (instr : Instr) (place label : Nat) (bound : label < index.labelUses.size) :
    (index.add (instr, place)).jumpCount label =
      index.jumpCount label + if instr.target? = some label then 1 else 0 := by
  rw [jumpCount, labelUses_add]
  cases jumps : instr.target? with
  | none => simp [jumpCount]
  | some target =>
    rw [getD_modify _ _ _ _ _ bound]
    by_cases same : target = label <;> simp [same, jumpCount]

def ofCode (registers labels : Nat) (code : List Instr) : Index :=
  code.zipIdx.foldl add (blank registers labels)

theorem ofCode_append (registers labels : Nat) (code : List Instr) (instr : Instr) :
    ofCode registers labels (code ++ [instr]) = (ofCode registers labels code).add (instr, code.length) := by
  simp [ofCode, List.zipIdx_append]

theorem ofCode_sizes (registers labels : Nat) (code : List Instr) :
    (ofCode registers labels code).uses.size = registers ∧ (ofCode registers labels code).defs.size = registers ∧
      (ofCode registers labels code).labelAt.size = labels ∧
      (ofCode registers labels code).labelUses.size = labels := by
  induction code using List.reverseRecOn with
  | nil => simp [ofCode, blank]
  | append_singleton code instr ih =>
    obtain ⟨uses, defs, labelAt, labelUses⟩ := ih
    rw [ofCode_append]
    refine ⟨?_, ?_, ?_, ?_⟩
    · rw [uses_add, size_foldl_modify, uses]
    · rw [defs_add]
      split <;> simp [defs]
    · rw [labelAt_add]
      split <;> simp [labelAt]
    · rw [labelUses_add]
      split <;> simp [labelUses]

end Index

theorem labelPlace?_push (code : Array Instr) (instr : Instr) (label : Label) :
    labelPlace? (code.push instr) label = if instr = .label label then some code.size else labelPlace? code label := by
  have same : ∀ place ∈ (List.range code.size).reverse,
      (decide ((code.push instr)[place]? = some (.label label))) = decide (code[place]? = some (.label label)) := by
    intro place member
    have bound : place < code.size := by simpa using member
    rw [Array.getElem?_push_lt bound, Array.getElem?_eq_getElem bound]
  simp only [labelPlace?, Array.size_push, List.range_succ, List.reverse_append, List.reverse_singleton,
    List.singleton_append, List.find?_cons, Array.getElem?_push_size]
  by_cases placed : instr = .label label
  · simp [placed]
  · simp only [placed, Option.some.injEq, decide_false]
    exact List.find?_congr same

namespace Index

variable {registers labels : Nat}

theorem ofCode_useCount (bound : register < registers) (code : List Instr) :
    (ofCode registers labels code).useCount register = (code.flatMap Instr.uses).count register := by
  induction code using List.reverseRecOn with
  | nil => simp [ofCode, blank, useCount, bound]
  | append_singleton code instr ih =>
    have inside : register < (ofCode registers labels code).uses.size := by
      rw [(ofCode_sizes registers labels code).1]
      exact bound
    rw [ofCode_append, useCount_add _ _ _ _ inside, ih]
    simp

theorem mem_ofCode_definitions (bound : register < registers) (code : List Instr) (place : Nat) :
    place ∈ (ofCode registers labels code).definitions register ↔
      ∃ instr, code[place]? = some instr ∧ instr.def? = some register := by
  induction code using List.reverseRecOn with
  | nil => simp [ofCode, blank, definitions, bound]
  | append_singleton code instr ih =>
    have inside : register < (ofCode registers labels code).defs.size := by
      rw [(ofCode_sizes registers labels code).2.1]
      exact bound
    rw [ofCode_append, definitions_add _ _ _ _ inside, List.mem_append, ih]
    rcases Nat.lt_trichotomy place code.length with before | last | after
    · have other : place ≠ code.length := by omega
      rw [List.getElem?_append_left before]
      simp [other]
    · simp [last]
    · have short : code.length ≤ place := by omega
      have other : place ≠ code.length := by omega
      rw [List.getElem?_eq_none short, List.getElem?_eq_none (by simp; omega)]
      simp [other]

theorem ofCode_position (bound : label < labels) (code : List Instr) :
    (ofCode registers labels code).position? label = labelPlace? code.toArray label := by
  induction code using List.reverseRecOn with
  | nil => simp [ofCode, blank, position?, bound, labelPlace?]
  | append_singleton code instr ih =>
    have inside : label < (ofCode registers labels code).labelAt.size := by
      rw [(ofCode_sizes registers labels code).2.2.1]
      exact bound
    have pushed : (code ++ [instr]).toArray = code.toArray.push instr := by simp
    rw [ofCode_append, position?_add _ _ _ _ inside, ih, pushed, labelPlace?_push]
    simp

theorem ofCode_jumpCount (bound : label < labels) (code : List Instr) : (ofCode registers labels code).jumpCount label =
      code.countP fun instr => instr.target? = some label := by
  induction code using List.reverseRecOn with
  | nil => simp [ofCode, blank, jumpCount, bound]
  | append_singleton code instr ih =>
    have inside : label < (ofCode registers labels code).labelUses.size := by
      rw [(ofCode_sizes registers labels code).2.2.2]
      exact bound
    rw [ofCode_append, jumpCount_add _ _ _ _ inside, ih]
    simp [List.countP_append]

end Index

namespace Function

structure Indexed (function : Function) : Prop where
  useCount : ∀ register < function.registers.size,
    function.index.useCount register = (function.code.toList.flatMap Instr.uses).count register
  definitions : ∀ register < function.registers.size, ∀ place,
    place ∈ function.index.definitions register ↔
      ∃ instr, function.code[place]? = some instr ∧ instr.def? = some register
  position : ∀ label < function.labelCount,
    function.index.position? label = labelPlace? function.code label
  jumpCount : ∀ label < function.labelCount,
    function.index.jumpCount label = function.code.toList.countP fun instr => instr.target? = some label

theorem rebuild_eq (done : source.rebuild = .ok function) :
    function = { source with
      code := source.code.filter (· ≠ .nop)
      index := .ofCode source.registers.size source.labelCount (source.code.filter (· ≠ .nop)).toList } := by
  simp only [rebuild] at done
  split at done
  · rename_i index added
    simp only [Except.ok.injEq] at done
    rw [← done, Index.addCode_eq_foldl added, Index.ofCode]
  · simp at done

theorem rebuild_indexed (done : source.rebuild = .ok function) : function.Indexed := by
  rw [rebuild_eq done]
  constructor
  · intro register bound
    exact Index.ofCode_useCount bound _
  · intro register bound place
    rw [← Array.getElem?_toList]
    exact Index.mem_ofCode_definitions bound _ place
  · intro label bound
    rw [Index.ofCode_position bound]
  · intro label bound
    exact Index.ofCode_jumpCount bound _

namespace Indexed

variable (indexed : function.Indexed)

include indexed

theorem useCount_pos_iff (bound : register < function.registers.size) :
    0 < function.index.useCount register ↔ ∃ instr ∈ function.code, register ∈ instr.uses := by
  rw [indexed.useCount register bound]
  simp

theorem jumpCount_pos_iff (bound : label < function.labelCount) :
    0 < function.index.jumpCount label ↔ ∃ instr ∈ function.code, instr.target? = some label := by
  rw [indexed.jumpCount label bound]
  simp

end Indexed

end Function

end FplCompiler.Ir
