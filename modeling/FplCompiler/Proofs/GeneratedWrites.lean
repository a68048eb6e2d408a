import FplCompiler.Proofs.SingleWrites

/-!
Which registers generated code writes. Temporaries are made together with the one instruction that writes them; other
instructions write variables, or machine registers that pass arguments.
-/

namespace FplCompiler.Codegen

open Ir

variable {register : Nat} {function : Ir.Function} {known later : List RegInfo}

def Held (known : List RegInfo) (register : Nat) : Prop :=
  register = Reg.zero ∨ (Reg.machineCount ≤ register ∧ register < known.length)

def HoldsVariable (known : List RegInfo) (register : Nat) : Prop :=
  Reg.machineCount ≤ register ∧ ∃ name, known[register]? = some ⟨name, .variable_⟩

theorem getElem?_of_begins {α : Type} {first second : List α} (longer : first <+: second) {index : Nat} {value : α}
    (found : first[index]? = some value) : second[index]? = some value := by
  obtain ⟨bound, rfl⟩ := List.getElem?_eq_some_iff.mp found
  exact List.prefix_iff_getElem?.mp longer index bound

theorem Held.mono (longer : known <+: later) (held : Held known register) : Held later register := by
  have length := longer.length_le
  rcases held with zero | ⟨large, bound⟩
  · exact Or.inl zero
  · exact Or.inr ⟨large, by omega⟩

theorem HoldsVariable.mono (longer : known <+: later)
    (isVariable : HoldsVariable known register) : HoldsVariable later register :=
  ⟨isVariable.1, isVariable.2.imp fun _ found => getElem?_of_begins longer found⟩

theorem HoldsVariable.held (isVariable : HoldsVariable known register) :
    Held known register := by
  obtain ⟨large, name, found⟩ := isVariable
  exact Or.inr ⟨large, (List.getElem?_eq_some_iff.mp found).1⟩

structure ArgumentLimit where
  count : Nat
  result : Reg.result ≤ count
  machine : count < Reg.machineCount

section Writes

variable (limit : ArgumentLimit) (single : Prop)

/-- A register that any instruction may write. Where temporaries are to be written once it is no temporary. -/
def Writable (known : List RegInfo) (register : Nat) : Prop :=
  register ≤ limit.count ∨
    (Reg.machineCount ≤ register ∧ ∃ info, known[register]? = some info ∧ (single → info.kind ≠ .temp))

structure Tidy (function : Ir.Function) : Prop where
  fit : function.WritesFit limit.count
  once : single → function.WritesOnce
  entered : .start ∉ function.code.toList.tail

end Writes

variable {limit : ArgumentLimit} {single : Prop} {known : List RegInfo} {info : RegInfo} {instr : Instr}

theorem Writable.mono (longer : known <+: later)
    (writable : Writable limit single known register) : Writable limit single later register := by
  rcases writable with small | ⟨large, info, found, kind⟩
  · exact Or.inl small
  · exact Or.inr ⟨large, info, getElem?_of_begins longer found, kind⟩

theorem HoldsVariable.writable (isVariable : HoldsVariable known register) :
    Writable limit single known register := by
  obtain ⟨large, name, found⟩ := isVariable
  exact Or.inr ⟨large, _, found, fun _ => by simp⟩

theorem Held.writable (many : ¬ single) (held : Held known register) :
    Writable limit single known register := by
  rcases held with rfl | ⟨large, bound⟩
  · exact Or.inl (Nat.zero_le _)
  · exact Or.inr ⟨large, _, List.getElem?_eq_getElem bound, fun once => absurd once many⟩

theorem info_of_getElem?
    (found : function.registers.toList[register]? = some info) : function.info register = info := by
  rw [Array.getElem?_toList] at found
  simp [Function.info, found]

theorem Tidy.push (tidy : Tidy limit single function) (fits : ∀ register, instr.def? = some register →
      register ≤ limit.count ∨ (Reg.machineCount ≤ register ∧ register < function.registers.size))
    (fresh : single → ∀ register, instr.def? = some register → (function.info register).kind = .temp →
      ∀ old ∈ function.code, old.def? ≠ some register)
    (entered : instr ≠ .start) : Tidy limit single { function with code := function.code.push instr } := by
  constructor
  case fit =>
    refine ⟨tidy.fit.machine, tidy.fit.highest, tidy.fit.kinds, ?_⟩
    intro other member
    rcases Array.mem_push.mp member with old | rfl
    · exact tidy.fit.writes other old
    · exact fits
  case once =>
    intro once
    have before := tidy.once once
    simp only [Function.WritesOnce, Array.toList_push] at before ⊢
    refine List.pairwise_append.mpr ⟨before, List.pairwise_singleton _ _, ?_⟩
    intro old oldMember last member register temporary oldWrites writes
    rw [List.mem_singleton.mp member] at writes
    exact fresh once register writes temporary old (Array.mem_toList_iff.mp oldMember) oldWrites
  case entered =>
    intro member
    have inTail : Instr.start ∈ function.code.toList.tail ++ [instr] := by
      cases code : function.code.toList with
      | nil => simp [code] at member
      | cons first rest => simpa [code] using member
    rcases List.mem_append.mp inTail with old | last
    · exact tidy.entered old
    · exact entered (List.mem_singleton.mp last).symm

theorem Tidy.pushWritable (tidy : Tidy limit single function)
    (writes : ∀ register, instr.def? = some register → Writable limit single function.registers.toList register)
    (entered : instr ≠ .start) : Tidy limit single { function with code := function.code.push instr } := by
  refine tidy.push ?_ ?_ entered
  · intro register writesIt
    rcases writes register writesIt with small | ⟨large, info, found, _⟩
    · exact Or.inl small
    · exact Or.inr ⟨large, by simpa using (List.getElem?_eq_some_iff.mp found).1⟩
  · intro once register writesIt temporary
    rcases writes register writesIt with small | ⟨large, info, found, kind⟩
    · rw [tidy.fit.kinds register (Nat.lt_of_le_of_lt small limit.machine)] at temporary
      cases temporary
    · rw [info_of_getElem? found] at temporary
      exact absurd temporary (kind once)

theorem Tidy.withRegister {later : Ir.Function} (tidy : Tidy limit single function)
    (registers : later.registers = function.registers.push info) (code : later.code = function.code)
    (highest : later.maxRegister = function.maxRegister) : Tidy limit single later := by
  have longer : function.registers.toList <+: later.registers.toList := by
    rw [registers, Array.toList_push]
    exact List.prefix_append _ _
  have size : later.registers.size = function.registers.size + 1 := by rw [registers, Array.size_push]
  have machine := tidy.fit.machine
  have infos : ∀ register < function.registers.size, later.info register = function.info register := by
    intro register bound
    have old : function.registers.toList[register]? = some (function.registers[register]) := by
      rw [Array.getElem?_toList, Array.getElem?_eq_getElem bound]
    rw [info_of_getElem? old, info_of_getElem? (getElem?_of_begins longer old)]
  have written : ∀ instr ∈ function.code, ∀ register, instr.def? = some register →
      register < function.registers.size := by
    intro instr member register writes
    rcases tidy.fit.writes instr member register writes with small | ⟨_, bound⟩
    · exact Nat.lt_of_le_of_lt small (Nat.lt_of_lt_of_le limit.machine machine)
    · exact bound
  constructor
  case fit =>
    refine ⟨by omega, highest ▸ tidy.fit.highest, ?_, ?_⟩
    · intro register small
      rw [infos register (by omega)]
      exact tidy.fit.kinds register small
    · intro instr member register writes
      rw [code] at member
      rcases tidy.fit.writes instr member register writes with small | ⟨large, bound⟩
      · exact Or.inl small
      · exact Or.inr ⟨large, by omega⟩
  case once =>
    intro once
    have before := tidy.once once
    simp only [Function.WritesOnce, Index.Apart, code] at before ⊢
    refine before.imp_of_mem ?_
    intro first second firstMember _ apart register temporary firstWrites
    rw [infos register (written first (Array.mem_toList_iff.mp firstMember) register firstWrites)] at temporary
    exact apart register temporary firstWrites
  case entered =>
    rw [code]
    exact tidy.entered

def enteredFunction (name : String) (returnsValue : Bool) : Ir.Function :=
  { Ir.Function.empty name returnsValue with code := #[.start] }

theorem tidy_new (name : String) (returnsValue : Bool) {code : Array Instr} (few : code = #[] ∨ code = #[.start]) :
    Tidy limit single { Ir.Function.empty name returnsValue with code := code } := by
  constructor
  case fit =>
    refine ⟨by simp [Function.empty], by simp [Function.empty], ?_, ?_⟩
    · intro register small
      simp [Function.info, Function.empty, small]
    · intro instr member register writes
      obtain rfl : instr = .start := by
        rcases few with rfl | rfl
        · cases List.not_mem_nil (Array.mem_def.mp member)
        · simpa using member
      cases writes
  case once =>
    intro _
    rcases few with rfl | rfl
    · exact List.Pairwise.nil
    · exact List.pairwise_singleton _ _
  case entered => rcases few with rfl | rfl <;> simp

theorem Tidy.begins (tidy : Tidy limit single function)
    (longer : [Instr.start] <+: function.code.toList) : function.Begins := by
  obtain ⟨rest, code⟩ := longer
  have entered := tidy.entered
  rw [← code] at entered
  exact ⟨rest, code.symm, entered⟩

end FplCompiler.Codegen
