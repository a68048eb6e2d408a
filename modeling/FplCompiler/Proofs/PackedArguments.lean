import FplCompiler.Proofs.Assignability
import FplCompiler.Proofs.SoundNodes

/-!
The arguments of a call fit the function that is chosen for it: there is one for each of its parameters, of a type that
the parameter accepts, and converting them reports nothing.
-/

namespace FplCompiler

/-- The arguments that a call of the tree passes. -/
def Typed.Expr.passed? (expr : Typed.Expr) : Option (List Typed.Expr) :=
  match expr.shape with
  | .call _ arguments | .methodCall _ _ arguments | .callValue _ arguments | .createObject _ _ arguments _ => some arguments
  | _ => none

/-- The types that a function gets. It gets the remaining arguments of a vararg call as an array. -/
def FunctionInstance.receivedTypes (function : FunctionInstance) : List Ty :=
  if function.isVararg then function.parameterTypes.dropLast ++ (function.parameterTypes.getLast?.map Ty.array).toList
  else function.parameterTypes

namespace Analysis

open Check

variable {arguments entries : List Typed.Expr} {function : FunctionInstance} {parameters : List Ty}

/-- An argument is passed as it is or in a union, and as a value that the parameter accepts. -/
structure Fitted (parameter : Ty) (argument entry : Typed.Expr) : Prop where
  value : entry = argument ∨ entry = .mk (.makeUnion argument) argument.span parameter
  type : entry.type.isError = true ∨ parameter.accepts entry.type = true

inductive FittedEach : List Ty → List Typed.Expr → List Typed.Expr → Prop
  | nil : FittedEach [] [] []
  | cons {parameter : Ty} {argument entry : Typed.Expr} {parameters : List Ty} {arguments entries : List Typed.Expr}
      (first : Fitted parameter argument entry) (rest : FittedEach parameters arguments entries) :
      FittedEach (parameter :: parameters) (argument :: arguments) (entry :: entries)

structure Packed (function : FunctionInstance) (arguments : List Typed.Expr) (span : Span) (packed : List Typed.Expr) :
    Prop where
  count : packed.length = function.parameterTypes.length
  types : ∀ received ∈ function.receivedTypes.zip packed,
    received.2.type.isError = true ∨ received.1.accepts received.2.type = true
  fixed : function.isVararg = false → FittedEach function.parameterTypes arguments packed
  gathered : function.isVararg = true → ∃ fixed element first elements, function.parameterTypes = fixed ++ [element] ∧
    packed = first ++ [.mk (.arrayLiteral elements true) span (.array element)] ∧
    FittedEach fixed (arguments.take fixed.length) first ∧
    FittedEach (List.replicate (arguments.length - fixed.length) element) (arguments.drop fixed.length) elements

/-- Checking goes on without a report, and changes only the number of nodes. -/
def Counts {α : Type} (state : State) (check : Check α) (post : α → Prop) : Prop :=
  ∃ result count, check state = (result, { state with nodeCount := count }) ∧ post result

namespace Counts

variable {α β : Type} {state : State} {post : α → Prop}

theorem pure {result : α} (holds : post result) : Counts state (Pure.pure result) post :=
  ⟨result, state.nodeCount, rfl, holds⟩

theorem node {post : Typed.Expr → Prop} {shape : Typed.ExprShape} {span : Span} {type : Ty}
    (holds : post (.mk shape span type)) : Counts state (node shape span type) post :=
  ⟨_, state.nodeCount + 1, rfl, holds⟩

theorem bind {first : Check α} {next : α → Check β} {last : β → Prop} (begins : Counts state first post)
    (goesOn : ∀ result count, post result → Counts { state with nodeCount := count } (next result) last) :
    Counts state (first >>= next) last := by
  obtain ⟨result, count, run, holds⟩ := begins
  obtain ⟨ended, more, ends, holds⟩ := goesOn result count holds
  exact ⟨ended, more, by rw [bind_apply, run]; exact ends, holds⟩

end Counts

variable {state : State} {candidates : List FunctionInstance}

theorem coerce_accepted {parameter : Ty} {argument : Typed.Expr} (accepted : parameter.accepts argument.type = true) :
    Counts state (coerce parameter argument) (Fitted parameter argument) := by
  have same : Fitted parameter argument argument := ⟨.inl rfl, .inr accepted⟩
  unfold coerce
  dsimp only
  split
  · exact .pure same
  rw [if_neg (by simp [accepted])]
  split
  · exact .pure same
  · exact .node ⟨.inr rfl, .inr (Ty.accepts_self _)⟩
  · exact .pure same

theorem coerceEach_accepted (more : List Typed.Expr)
    (accepted : FunctionInstance.acceptsEach parameters (arguments.map Typed.Expr.type) = true) :
    Counts state (coerceEach parameters (arguments ++ more)) (FittedEach parameters arguments) := by
  induction parameters generalizing arguments state with
  | nil =>
    cases arguments with
    | nil => exact .pure .nil
    | cons argument rest => simp [FunctionInstance.acceptsEach] at accepted
  | cons parameter parameters ih =>
    cases arguments with
    | nil => simp [FunctionInstance.acceptsEach] at accepted
    | cons argument rest =>
      simp only [FunctionInstance.acceptsEach, List.map_cons, List.length_cons, Nat.add_right_cancel_iff,
        List.zip_cons_cons, List.all_cons, Bool.and_eq_true] at accepted ih
      exact (coerce_accepted accepted.2.1).bind fun entry count first => (ih ⟨accepted.1, accepted.2.2⟩).bind
        fun entries count others => .pure (.cons first others)

theorem coerceAll_accepted {element : Ty} (accepted : (arguments.map Typed.Expr.type).all element.accepts = true) :
    Counts state (coerceAll element arguments) (FittedEach (List.replicate arguments.length element) arguments) := by
  unfold coerceAll
  induction arguments generalizing state with
  | nil => exact .pure .nil
  | cons argument rest ih =>
    simp only [List.map_cons, List.all_cons, Bool.and_eq_true] at accepted
    rw [List.mapM_cons]
    exact (coerce_accepted accepted.1).bind fun entry count first => (ih accepted.2).bind fun entries count others =>
      .pure (.cons first others)

theorem FittedEach.length (fitted : FittedEach parameters arguments entries) : entries.length = parameters.length := by
  induction fitted with
  | nil => rfl
  | cons _ _ ih => rw [List.length_cons, List.length_cons, ih]

theorem FittedEach.types (fitted : FittedEach parameters arguments entries) : ∀ received ∈ parameters.zip entries,
      received.2.type.isError = true ∨ received.1.accepts received.2.type = true := by
  induction fitted with
  | nil => simp
  | cons first _ ih => exact List.forall_mem_cons.mpr ⟨first.type, ih⟩

theorem packArguments_fits (span : Span) (fits : function.fits (arguments.map Typed.Expr.type) = true) :
    Counts state (packArguments function arguments span) (Packed function arguments span) := by
  unfold FunctionInstance.fits at fits
  unfold packArguments
  cases vararg : function.isVararg with
  | false =>
    rw [vararg] at fits
    have each : Counts state _ _ := coerceEach_accepted [] fits
    rw [List.append_nil] at each
    obtain ⟨packed, count, run, fitted⟩ := each
    refine ⟨packed, count, run, fitted.length, ?_, fun _ => fitted, fun wrong => by simp [vararg] at wrong⟩
    rw [FunctionInstance.receivedTypes, vararg]
    exact fitted.types
  | true =>
    rw [vararg] at fits
    rcases List.eq_nil_or_concat function.parameterTypes with none | ⟨fixed, element, parameters⟩
    · simp [none] at fits
    -- The arguments for the fixed parameters are as many as these; all others are elements of the array.
    rw [List.concat_eq_append] at parameters
    simp only [parameters, ↓reduceIte, List.getLast?_concat, List.dropLast_concat, Bool.and_eq_true] at fits ⊢
    rw [← List.map_take, ← List.map_drop] at fits
    have each : Counts state _ _ := coerceEach_accepted (arguments.drop fixed.length) fits.1
    rw [List.take_append_drop] at each
    refine each.bind fun first _ fixedFit => (coerceAll_accepted fits.2).bind fun elements count elementsFit => ?_
    have array : Counts { state with nodeCount := count } (node (.arrayLiteral elements true) span (.array element))
        (· = .mk (.arrayLiteral elements true) span (.array element)) := .node rfl
    refine array.bind fun _ _ same => .pure ?_
    rw [List.length_drop] at elementsFit
    refine ⟨by simp [parameters, fixedFit.length], ?_, fun wrong => by simp [vararg] at wrong,
      fun _ => ⟨fixed, element, first, elements, parameters, by rw [same], fixedFit, elementsFit⟩⟩
    have received : function.receivedTypes = fixed ++ [.array element] := by
      simp [FunctionInstance.receivedTypes, vararg, parameters]
    rw [received, List.zip_append fixedFit.length.symm, List.forall_mem_append, same]
    exact ⟨fixedFit.types, List.forall_mem_singleton.mpr (.inr (Ty.accepts_self _))⟩

theorem resolveCall_found (state : State) (name : String) (span : Span)
    (found : resolveOverload candidates (arguments.map Typed.Expr.type) = .found function) :
    Counts state (resolveCall name candidates arguments span) fun resolved => ∃ packed, resolved = .ok (function, packed) ∧
      function ∈ candidates ∧ Packed function arguments span packed := by
  have chosen := List.mem_filter.mp (chosen_of_found found)
  unfold resolveCall
  dsimp only
  rw [found]
  exact (packArguments_fits span chosen.2).bind fun packed _ fits => .pure ⟨packed, rfl, chosen.1, fits⟩

theorem found_of_accepted {name : String} {packed : List Typed.Expr} {span : Span} {after : State}
    (accepted : resolveCall name candidates arguments span state = (.ok (function, packed), after)) :
    resolveOverload candidates (arguments.map Typed.Expr.type) = .found function := by
  unfold resolveCall at accepted
  cases resolved : resolveOverload candidates (arguments.map Typed.Expr.type) with
  | found chosen =>
    rw [resolved] at accepted
    cases congrArg Prod.fst accepted
    rfl
  | noMatch =>
    rw [resolved] at accepted
    dsimp only at accepted
    split at accepted <;> cases congrArg Prod.fst accepted
  | ambiguous functions =>
    rw [resolved] at accepted
    cases congrArg Prod.fst accepted

/-- A call chooses a function among candidates, once its arguments are checked. -/
inductive Chooses : Check Typed.Expr → State → String → List FunctionInstance → List Typed.Expr → Span → State → Prop
  | function {state : State} (symbol : SymbolId) (name : String) (overloads : List FunctionInstance)
      (arguments : List Typed.Expr) (nameSpan span : Span) :
      Chooses (callFunction symbol name overloads arguments nameSpan span) state name overloads arguments span state
  | value {state : State} {callee : Typed.Expr} {parameters : List Ty} {result : Ty} {isVararg : Bool}
      (type : callee.type = .function parameters result isVararg) (arguments : List Typed.Expr) (span : Span) :
      Chooses (callValue callee arguments span) state callee.type.text [⟨0, "", parameters, none, isVararg, result, []⟩]
        arguments span state
  | method {state opened checked found : State} {object : Typed.Expr} {name : String} {memberSpan : Span}
      {checkArguments : Check (List Typed.Expr)} {arguments : List Typed.Expr} {methods : List FunctionInstance}
      (allowed : accessError? object name memberSpan state = (none, opened))
      (checks : checkArguments opened = (arguments, checked))
      (finds : methods? object.type name checked = (some methods, found)) (span : Span) :
      Chooses (callMember object name memberSpan span checkArguments) state name
        (methods.map (·.mapType object.type.bindings)) arguments span found
  | object {state checked : State} {cls : ClassRef} {typeArguments : List Ty} {constructor : FunctionId}
      {checkArguments : Check (List Typed.Expr)} {arguments : List Typed.Expr} {bindings : Substitution}
      (constructed : (state.table.classDef cls.id).constructor? = some constructor)
      (checks : checkArguments state = (arguments, checked))
      (binds : bindings = if !cls.parameters.isEmpty && cls.typeParameters = typeArguments then
          inferBindings (checked.table.instantiate constructor []).parameterTypes (arguments.map Typed.Expr.type)
        else (Ty.object cls typeArguments).bindings) (onStack : Bool) (span : Span) :
      Chooses (createObject cls typeArguments onStack span checkArguments) state cls.name
        [(checked.table.instantiate constructor []).mapType bindings] arguments span checked

/--
A call is accepted exactly if a function is chosen for it. Then its tree passes what fits the chosen function, and nothing
is reported; only a method that is called by its name alone where there is no object is not called.
-/
theorem accepted_calls_fit {form : Check Typed.Expr} {state checked : State} {name : String}
    {candidates : List FunctionInstance} {arguments : List Typed.Expr} {span : Span}
    (chooses : Chooses form state name candidates arguments span checked) (function : FunctionInstance) :
    ((∃ packed after, resolveCall name candidates arguments span checked = (.ok (function, packed), after)) ↔
      resolveOverload candidates (arguments.map Typed.Expr.type) = .found function) ∧
    ∀ packed after, resolveCall name candidates arguments span checked = (.ok (function, packed), after) →
      function ∈ candidates ∧ Packed function arguments span packed ∧
      (∃ count, after = { checked with nodeCount := count }) ∧
      ((∃ tree count, form state = (tree, { checked with nodeCount := count }) ∧ tree.passed? = some packed) ∨
        (after.table.function function.function).owner.isSome = true ∧ (lookupThis after).1 = none ∧
          ∃ place, form state = errorNode (.notAValue name) place after) := by
  refine ⟨⟨?_, fun found => ?_⟩, fun packed after accepted => ?_⟩
  · rintro ⟨_, _, accepted⟩
    exact found_of_accepted accepted
  · obtain ⟨_, _, run, packed, rfl, -⟩ := resolveCall_found checked name span found
    exact ⟨packed, _, run⟩
  obtain ⟨_, count, run, _, rfl, member, fits⟩ := resolveCall_found checked name span (found_of_accepted accepted)
  cases accepted.symm.trans run
  refine ⟨member, fits, ⟨count, rfl⟩, ?_⟩
  cases chooses with
  | function symbol name overloads arguments nameSpan span =>
    have declared (id : FunctionId) (after : State) : getFunction id after = (after.table.function id, after) := rfl
    rw [callFunction, bind_apply, run]
    dsimp only
    rw [bind_apply, declared]
    split
    next owned =>
      -- The object of a method that is called by its name alone is looked for when the arguments are packed already.
      obtain ⟨this?, looks, -⟩ := lookupThis_apply { state with nodeCount := count }
      rw [bind_apply, looks]
      cases this? with
      | none => exact .inr ⟨owned, rfl, nameSpan, rfl⟩
      | some this => exact .inl ⟨_, _, rfl, rfl⟩
    next => exact .inl ⟨_, _, rfl, rfl⟩
  | value type =>
    rw [callValue]
    simp only [type] at run ⊢
    rw [bind_apply, run]
    exact .inl ⟨_, _, rfl, rfl⟩
  | method allowed checks finds =>
    rw [callMember, bind_apply, allowed, bind_apply, checks]
    dsimp only
    rw [bind_apply, finds]
    dsimp only
    rw [bind_apply, run]
    exact .inl ⟨_, _, rfl, rfl⟩
  | object constructed checks binds =>
    have declared (id : ClassId) : getClass id state = (state.table.classDef id, state) := rfl
    rw [createObject]
    rw [bind_apply, declared, constructed]
    dsimp only
    rw [bind_apply, checks, bind_apply, get_apply]
    rw [← binds, bind_apply, run]
    exact .inl ⟨_, _, rfl, rfl⟩

/-- A vararg function takes a number and an erroneous value as one array. -/
theorem vararg_call_packed : ∃ packed, packed.length = 1 ∧ Packed ⟨0, "", [.int], none, true, .int, []⟩
    [.mk (.int 1) default .int, .mk (.error "") default .error] default packed := by
  have chooses : Chooses (callValue (.mk (.localVar 0) default (.function [.int] .int true)) _ _) { sources := .empty }
    _ _ [.mk (.int 1) default .int, .mk (.error "") default .error] default _ := .value rfl _ _
  have fits := accepted_calls_fit chooses ⟨0, "", [.int], none, true, .int, []⟩
  obtain ⟨packed, after, accepted⟩ := fits.1.mpr rfl
  have packs := (fits.2 packed after accepted).2.1
  exact ⟨packed, packs.count, packs⟩

end Analysis

end FplCompiler
