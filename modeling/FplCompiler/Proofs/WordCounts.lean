import FplCompiler.Analysis.Program
import FplCompiler.Codegen.Creation
import FplCompiler.Proofs.MemoryLayout
import FplCompiler.Proofs.SmallTrees

/-!
Sizes in words of 32 bits. What is counted in words is the number of bytes up to a multiple of the limit of a word: it is
exact for all that is smaller than this limit. The number of elements of an array is all that the analysis looks at, so
that larger values are accepted.
-/

namespace FplCompiler.Codegen

open Ir

theorem toNat_word_eq_iff {number : Nat} : (UInt32.ofNat number).toNat = number ↔ number < UInt32.size := by
  exact Nat.mod_eq_iff_lt (by decide)

theorem reserveStack_reserved (function : Function) (bytes : Nat) :
    (function.reserveStack bytes).2.reserved = UInt32.ofNat (function.stackSize + (bytes + 3) / 4 * 4) := by
  have rounded : (bytes + 3) / 4 * 4 = (bytes + 3) - ((bytes + 3) &&& 3) := by
    rw [Nat.and_two_pow_sub_one_eq_mod (bytes + 3) 2]
    omega
  rw [Function.reserveStack, Area.and_not_word, UInt32.ofNat_add, rounded, UInt32.ofNat_sub Nat.and_le_left,
    UInt32.ofNat_and, UInt32.ofNat_add, Function.stackSize, UInt32.ofNat_toNat]
  rfl

/-- What is reserved on the stack is counted exactly as long as a word can count it. -/
theorem reserveStack_stackSize {function : Function} {bytes : Nat} :
    (function.reserveStack bytes).2.stackSize = function.stackSize + (bytes + 3) / 4 * 4 ↔
      function.stackSize + (bytes + 3) / 4 * 4 < UInt32.size := by
  rw [Function.stackSize, reserveStack_reserved, toNat_word_eq_iff]

/-- The bytes of an array in a stack frame, with the word in front of it. -/
def arrayWord (number : Nat) (element : Ty) : UInt32 :=
  UInt32.ofNat number * max element.wordSize 1 + UInt32.ofNat headerSize

theorem arrayWord_eq {number : Nat} {element : Ty}
    (small : number * slotSize (.array element) + headerSize < UInt32.size) :
    arrayWord number element = UInt32.ofNat (number * slotSize (.array element) + headerSize) := by
  rw [arrayWord, UInt32.ofNat_add, UInt32.ofNat_mul]
  cases number with
  | zero => simp
  | succ number =>
    have wider : element.size ≤ slotSize (.array element) := Nat.le_max_left _ _
    have whole : slotSize (.array element) ≤ (number + 1) * slotSize (.array element) := Nat.le_mul_of_pos_left _ (by omega)
    have slot : max element.wordSize 1 = UInt32.ofNat (slotSize (.array element)) := by
      have elementExact : (UInt32.ofNat element.size).toNat = element.size := UInt32.toNat_ofNat_of_lt (by omega)
      have slotExact : (UInt32.ofNat (slotSize (.array element))).toNat = slotSize (.array element) :=
        UInt32.toNat_ofNat_of_lt (by omega)
      rw [element.wordSize_eq, ← UInt32.toNat_inj, UInt32.toNat_max, elementExact, slotExact]
      rfl
    rw [slot]

/-- The size of a type, the offsets of fields and globals, the stack of a function and the block of an array are exact in
words of 32 bits if, and only if, they are below the limit of a word. -/
theorem word_counts_exact (type element : Ty) (area : Area) (types : List Ty) (function : Function) (bytes number : Nat) :
    (type.wordSize.toNat = type.size ↔ type.size < UInt32.size) ∧
    ((Area.reserveWords (UInt32.ofNat area.used) types).1.map UInt32.toNat = (area.reserveAll types).1 ∧
        (Area.reserveWords (UInt32.ofNat area.used) types).2.toNat = (area.reserveAll types).2.used ↔
      (area.reserveAll types).2.used < UInt32.size) ∧
    ((function.reserveStack bytes).2.stackSize = function.stackSize + (bytes + 3) / 4 * 4 ↔
      function.stackSize + (bytes + 3) / 4 * 4 < UInt32.size) ∧
    ((arrayWord number element).toNat = number * slotSize (.array element) + headerSize ↔
      number * slotSize (.array element) + headerSize < UInt32.size) := by
  refine ⟨?_, ⟨fun exact_ => ?_, Area.reserveWords_toNat⟩, reserveStack_stackSize, fun exact_ => ?_, fun small => ?_⟩
  · rw [type.wordSize_eq, toNat_word_eq_iff]
  · exact exact_.2 ▸ UInt32.toNat_lt_size _
  · exact exact_ ▸ UInt32.toNat_lt_size _
  · rw [arrayWord_eq small, toNat_word_eq_iff.mpr small]

/-- A function with a parameter of 4294967296 bytes. -/
def wideParameter : List Syntax.FileTree :=
  Syntax.oneFile [.function 1 "f" [("a", .mk (.fixedArray (.simple "Int") (.number 1073741824)) .nowhere)] none []]

theorem wide_array_counted_as_empty :
    (Analysis.analyze .empty wideParameter).diagnostics = [] ∧
      ∃ symbol ∈ (Analysis.analyze .empty wideParameter).table.symbols, symbol.name = "a" ∧ symbol.type.size = 4294967296 ∧
        symbol.type.wordSize.toNat = 0 := by
  decide +kernel

end FplCompiler.Codegen
