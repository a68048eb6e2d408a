import FplCompiler.Proofs.Index

/-!
Instructions do the same under other names of the registers and at other places, as long as the state holds the same
values under the new names.
-/

namespace FplCompiler.Ir

variable {μ : Type} {around : Surroundings μ}

def Change.rename (name : Reg → Reg) : Change → Change
  | .set register value => .set (name register) value
  | other => other

def Effect.rename (name : Reg → Reg) (moved : Nat → Nat) (effect : Effect μ) : Effect μ :=
  { effect with next := moved effect.next, change := effect.change.rename name }

@[simp]
theorem Change.rename_id (change : Change) : change.rename id = change := by
  cases change <;> rfl

@[simp]
theorem Effect.rename_id (effect : Effect μ) : effect.rename id id = effect := by
  simp [rename]

@[simp]
theorem Instr.mapRegisters_id (instr : Instr) : instr.mapRegisters id = instr := by
  cases instr <;> rfl

theorem effect_mapRegisters {target newTarget : Label → Option Nat} {name : Reg → Reg} {moved : Nat → Nat}
    {state renamed : MachineState μ} {instr : Instr}
    (following : renamed.place + 1 = moved (state.place + 1))
    (targets : ∀ label : Nat, instr.target? = some label → newTarget label = (target label).map moved)
    (memory : renamed.memory = state.memory)
    (reads : ∀ register ∈ instr.uses, renamed.read (name register) = state.read register)
    (arguments : ∀ register ∈ Instr.argumentRegisters instr.passed, name register = register) :
    effect around newTarget renamed (instr.mapRegisters name) =
      (effect around target state instr).map (Effect.rename name moved) := by
  have sameArguments : (Instr.argumentRegisters instr.passed).map renamed.read =
      (Instr.argumentRegisters instr.passed).map state.read := by
    apply List.map_congr_left
    intro register member
    have used : register ∈ instr.uses := by
      cases instr <;> simp_all [Instr.uses, Instr.passed, Instr.argumentRegisters]
    rw [← reads register used, arguments register member]
  have jumps : Effect.rename name moved ∘ Effect.jump state = Effect.jump renamed ∘ moved := by
    funext place
    simp [Effect.rename, Effect.jump, Change.rename, memory]
  cases instr with
  | call callee count returns =>
    simp only [Instr.passed] at sameArguments
    simp [effect, Instr.mapRegisters, callEffect, sameArguments, memory, following, Effect.rename, Change.rename,
      Function.comp_def]
  | callRegister callee count returns =>
    simp only [Instr.passed] at sameArguments
    have sameCallee := reads callee (by simp [Instr.uses])
    simp [effect, Instr.mapRegisters, callEffect, sameArguments, memory, following, sameCallee, Effect.rename,
      Change.rename, Function.comp_def]
  | branch op left right label =>
    have sameLeft := reads left (by simp [Instr.uses])
    have sameRight := reads right (by simp [Instr.uses])
    simp only [effect, Instr.mapRegisters, sameLeft, sameRight]
    cases op.evaluate? (state.read left) (state.read right) with
    | none => rfl
    | some value =>
      by_cases taken : value = 0
      · simp [taken, Effect.plain, Effect.rename, Change.rename, following, memory]
      · simp [taken, targets label rfl, jumps]
  | jump label => simp [effect, Instr.mapRegisters, targets label rfl, jumps]
  | _ =>
    simp only [Instr.uses] at reads
    simp [effect, Instr.mapRegisters, loadEffect, storeEffect, Effect.plain, Effect.rename, Change.rename,
      Function.comp_def, following, memory, reads]

theorem labelPlace?_congr {first second : Array Instr} {label : Label} (size : first.size = second.size)
    (same : ∀ place : Nat, first[place]? = some (.label label) ↔ second[place]? = some (.label label)) :
    labelPlace? first label = labelPlace? second label := by
  simp only [labelPlace?, size, same]

theorem labelPlace?_mapRegisters (code : Array Instr) (name : Reg → Reg) :
    labelPlace? (code.map (Instr.mapRegisters name)) = labelPlace? code := by
  funext label
  apply labelPlace?_congr (by simp)
  intro place
  rw [Array.getElem?_map]
  cases code[place]? with
  | none => simp
  | some instr => cases instr <;> simp [Instr.mapRegisters]

end FplCompiler.Ir
