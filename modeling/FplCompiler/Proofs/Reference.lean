import FplCompiler.Codegen.Statement
import FplCompiler.Proofs.Machine

/-!
What a function of the structured language of integers means: operands from left to right in words that wrap, conditions
that are decided as early as possible, and jumps to the innermost loop around them. The evaluation of a loop gives up
after a number of passes; one that gives up for every number never ends.
-/

namespace FplCompiler.Reference

open Typed (Expr ExprShape Stmt IfClause WhenClause AssignOp)

structure Store (μ : Type) where
  locals : SymbolId → Option Int32
  memory : μ
  trace : List Ir.Event

def Store.set {μ : Type} (store : Store μ) (symbol : SymbolId) (value : Option Int32) : Store μ :=
  { store with locals := fun other => if other = symbol then value else store.locals other }

@[simp]
theorem Store.set_set {μ : Type} (store : Store μ) (symbol : SymbolId) (first second : Option Int32) :
    (store.set symbol first).set symbol second = store.set symbol second := by
  simp only [Store.set, Store.mk.injEq, and_true]
  funext other
  split <;> rfl

def Store.receive {μ : Type} (store : Store μ) (parameters : List (SymbolId × Int32)) : Store μ :=
  parameters.foldl (fun store parameter => store.set parameter.1 (some parameter.2)) store

inductive Jump where
  | leaveLoop
  | nextPass
  | leaveFunction (value : Option Int32)

inductive Outcome (μ α : Type) where
  | done (value : α) (store : Store μ)
  | jump (jump : Jump) (store : Store μ)
  | wrong
  | timeout (store : Store μ)

def Outcome.andThen {μ α β : Type} (outcome : Outcome μ α) (next : α → Store μ → Outcome μ β) : Outcome μ β :=
  match outcome with
  | done value store => next value store
  | jump kind store => jump kind store
  | wrong => wrong
  | timeout store => timeout store

def Eval (μ α : Type) : Type :=
  Store μ → Outcome μ α

namespace Eval

variable {μ α β : Type}

instance : Monad (Eval μ) where
  pure value store := .done value store
  bind first next store := (first store).andThen next

theorem bind_apply (first : Eval μ α) (next : α → Eval μ β) (store : Store μ) :
    (first >>= next) store = (first store).andThen next :=
  rfl

instance : LawfulMonad (Eval μ) := by
  refine LawfulMonad.mk' (Eval μ) ?_ (fun _ _ => rfl) ?_
  · intro α step
    funext store
    change (step store).andThen Outcome.done = step store
    cases step store <;> rfl
  · intro α β γ step next last
    funext store
    simp only [bind_apply]
    cases step store <;> rfl

def wrong : Eval μ α :=
  fun _ => .wrong

def jump (jump : Jump) : Eval μ α :=
  fun store => .jump jump store

def timeout : Eval μ α :=
  fun store => .timeout store

def ofOption : Option α → Eval μ α
  | some value => pure value
  | none => wrong

def readVariable (symbol : SymbolId) : Eval μ Int32 :=
  fun store => ofOption (store.locals symbol) store

def setVariable (symbol : SymbolId) (value : Option Int32) : Eval μ Unit :=
  fun store => .done () (store.set symbol value)

def call (around : Ir.Surroundings μ) (label : String) (returns : Bool) (arguments : List Int32) : Eval μ Int32 :=
  fun store =>
    match around.call store.memory (.named label) arguments with
    | some answer =>
      .done (if returns then answer.contents Ir.Reg.result else 0)
        { store with memory := answer.memory, trace := .called (.named label) arguments :: store.trace }
    | none => .wrong

def pass (body : Eval μ Unit) : Eval μ Bool :=
  fun store =>
    match body store with
    | .done _ store | .jump .nextPass store => .done true store
    | .jump .leaveLoop store => .done false store
    | .jump (.leaveFunction value) store => .jump (.leaveFunction value) store
    | .wrong => .wrong
    | .timeout store => .timeout store

def whileLoop (condition : Eval μ Int32) (body : Eval μ Unit) : Nat → Eval μ Unit
  | 0 => timeout
  | passes + 1 => do
    if (← condition) ≠ 0 then
      if ← pass body then whileLoop condition body passes else pure ()
    else pure ()

def repeatLoop (condition : Eval μ Int32) (body : Eval μ Unit) : Nat → Eval μ Unit
  | 0 => timeout
  | passes + 1 => do
    if ← pass body then
      if (← condition) ≠ 0 then pure () else repeatLoop condition body passes
    else pure ()

def countedLoop (symbol : SymbolId) (limit : Int32) (op : AluOp) (body : Eval μ Unit) : Nat → Eval μ Unit
  | 0 => timeout
  | passes + 1 => do
    if (← ofOption (op.evaluate? (← readVariable symbol) limit)) ≠ 0 then
      if ← pass body then
        setVariable symbol (some ((← readVariable symbol) + Codegen.rangeStep op))
        countedLoop symbol limit op body passes
      else pure ()
    else pure ()

end Eval

open Eval

section

variable {μ : Type} (around : Ir.Surroundings μ) (table : Declarations)

def shortCircuit (decisive : Bool) (left right : Eval μ Int32) : Eval μ Int32 := do
  if decide ((← left) ≠ 0) = decisive then return AluOp.truth decisive
  else return AluOp.truth ((← right) ≠ 0)

def negation (operand : Int32) : Eval μ Int32 :=
  if operand = 0 then pure 1 else if operand = 1 then pure 0 else wrong

mutual

def evalExpr : Expr → Eval μ Int32
  | .mk shape _ _ => evalShape shape

def evalShape : ExprShape → Eval μ Int32
  | .int value => pure value
  | .localVar symbol => readVariable symbol
  | .binary op left right => do
    let left ← evalExpr left
    let right ← evalExpr right
    ofOption (op.evaluate? left right)
  | .and left right => shortCircuit false (evalExpr left) (evalExpr right)
  | .or left right => shortCircuit true (evalExpr left) (evalExpr right)
  | .not operand => do negation (← evalExpr operand)
  | .minus operand => do return -(← evalExpr operand)
  | .returnExpr (some value) => do jump (.leaveFunction (some (← evalExpr value)))
  | .returnExpr none => jump (.leaveFunction none)
  | .breakExpr => jump .leaveLoop
  | .continueExpr => jump .nextPass
  | .conditional condition thenBranch elseBranch => do
    if (← evalExpr condition) ≠ 0 then evalExpr thenBranch else evalExpr elseBranch
  | .call (.mk (.functionName _ function) _ _) arguments => do
    let arguments ← evalExprs arguments
    call around (table.function function).label (table.function function).returnType.isReturned arguments
  | _ => wrong

def evalExprs : List Expr → Eval μ (List Int32)
  | [] => pure []
  | expr :: rest => do
    let value ← evalExpr expr
    return value :: (← evalExprs rest)

end

def stored (symbol : SymbolId) (op : AssignOp) (value : Eval μ Int32) : Eval μ Int32 :=
  match op with
  | .replace => value
  | .add | .subtract => do
    let current ← readVariable symbol
    ofOption (op.alu.evaluate? current (← value))

def evalPrint : List Expr → Eval μ Unit
  | [] => pure ()
  | argument :: rest => do
    match Codegen.printRoutine? argument.type with
    | some routine =>
      let value ← evalExpr around table argument
      let _ ← call around routine.name false [value]
      evalPrint rest
    | none => wrong

def evalCandidates (subject : Int32) : List Expr → Eval μ Bool
  | [] => pure false
  | candidate :: rest => do
    if subject = (← evalExpr around table candidate) then pure true else evalCandidates subject rest

mutual

def evalStmt (passes : Nat) : Stmt → Eval μ Unit
  | .expression expr => do
    let _ ← evalExpr around table expr
  | .assign op (.mk (.localVar symbol) _ _) value => do
    setVariable symbol (some (← stored symbol op (evalExpr around table value)))
  | .declare symbol (some value) => do setVariable symbol (some (← evalExpr around table value))
  | .declare symbol none => setVariable symbol none
  | .print arguments => evalPrint around table arguments
  | .ifChain clauses => evalIf passes clauses
  | .whileLoop condition body => whileLoop (evalExpr around table condition) (evalBlock passes body) passes
  | .repeatLoop condition body => repeatLoop (evalExpr around table condition) (evalBlock passes body) passes
  | .forLoop symbol (.mk (.range start stop op) _ _) body => do
    let first ← evalExpr around table start
    setVariable symbol none
    let limit ← evalExpr around table stop
    setVariable symbol (some first)
    countedLoop symbol limit op (evalBlock passes body) passes
  | .whenCases subject clauses => do evalWhen passes (← evalExpr around table subject) clauses
  | _ => wrong

def evalBlock (passes : Nat) : List Stmt → Eval μ Unit
  | [] => pure ()
  | stmt :: rest => do
    evalStmt passes stmt
    evalBlock passes rest

def evalIf (passes : Nat) : List IfClause → Eval μ Unit
  | [] => pure ()
  | .mk none body :: _ => evalBlock passes body
  | .mk (some condition) body :: rest => do
    if (← evalExpr around table condition) ≠ 0 then evalBlock passes body else evalIf passes rest

def evalWhen (passes : Nat) (subject : Int32) : List WhenClause → Eval μ Unit
  | [] => pure ()
  | .mk candidates body :: rest => do
    if candidates.isEmpty then evalBlock passes body
    else if ← evalCandidates around table subject candidates then evalBlock passes body
    else evalWhen passes subject rest

end

/-- Evaluates a function with the values of its parameters. It gives a value if it returns with one. -/
def evalFunction (passes : Nat) (parameters : List (SymbolId × Int32)) (memory : μ) (body : List Stmt) :
    Outcome μ (Option Int32) :=
  match evalBlock around table passes body (Store.receive ⟨fun _ => none, memory, []⟩ parameters) with
  | .done _ store => .done none store
  | .jump (.leaveFunction value) store => .done value store
  | .timeout store => .timeout store
  | .jump _ _ | .wrong => .wrong

section

variable {around table} {passes : Nat} {parameters : List (SymbolId × Int32)} {memory : μ} {body : List Stmt}
  {store : Store μ}

theorem block_of_evalFunction_done {value : Option Int32}
    (done : evalFunction around table passes parameters memory body = .done value store) :
    evalBlock around table passes body (Store.receive ⟨fun _ => none, memory, []⟩ parameters) = .done () store ∧
      value = none ∨
    evalBlock around table passes body (Store.receive ⟨fun _ => none, memory, []⟩ parameters) =
      .jump (.leaveFunction value) store := by
  rw [evalFunction] at done
  split at done <;> simp_all

theorem block_of_evalFunction_timeout
    (timeout : evalFunction around table passes parameters memory body = .timeout store) :
    evalBlock around table passes body (Store.receive ⟨fun _ => none, memory, []⟩ parameters) = .timeout store := by
  rw [evalFunction] at timeout
  split at timeout <;> simp_all

end

end

section

variable (table : Declarations)

mutual

def isStructured (inLoop : Bool) : Expr → Bool
  | .mk shape _ type => shapeIsStructured inLoop type shape

def shapeIsStructured (inLoop : Bool) (type : Ty) : ExprShape → Bool
  | .int _ | .localVar _ => true
  | .binary op left right => op.isInteger && isStructured inLoop left && isStructured inLoop right
  | .and left right | .or left right => isStructured inLoop left && isStructured inLoop right
  | .not operand => isStructured inLoop operand
  | .minus operand => type ≠ .real && isStructured inLoop operand
  | .returnExpr (some value) => isStructured inLoop value
  | .returnExpr none => true
  | .breakExpr | .continueExpr => inLoop
  | .conditional condition thenBranch elseBranch =>
    isStructured inLoop condition && isStructured inLoop thenBranch && isStructured inLoop elseBranch
  | .call (.mk (.functionName _ _) _ _) arguments =>
    arguments.length ≤ Ir.Reg.result && allStructured inLoop arguments
  | _ => false

def allStructured (inLoop : Bool) : List Expr → Bool
  | [] => true
  | expr :: rest => isStructured inLoop expr && allStructured inLoop rest

end

def isLocal (symbol : Symbol) : Bool :=
  match symbol.kind with
  | .globalVar _ => false
  | _ => true

def isPrintable (inLoop : Bool) (argument : Expr) : Bool :=
  (Codegen.printRoutine? argument.type).isSome && isStructured inLoop argument

def isRangeOperation : AluOp → Bool
  | .ltI | .lteI | .gtI | .gteI => true
  | _ => false

mutual

/-- Whether a statement is one of the language. The conditions and bounds of a loop stand outside of it. -/
def stmtIsStructured (inLoop : Bool) : Stmt → Bool
  | .expression expr => isStructured inLoop expr
  | .assign _ (.mk (.localVar _) _ _) value => isStructured inLoop value
  | .declare symbol value =>
    isLocal (table.symbol symbol) && (value.map (isStructured inLoop)).getD true
  | .print arguments => arguments.all (isPrintable inLoop)
  | .ifChain clauses => ifIsStructured inLoop clauses
  | .whileLoop condition body | .repeatLoop condition body =>
    isStructured inLoop condition && blockIsStructured true body
  | .forLoop _ (.mk (.range start stop op) _ _) body =>
    isRangeOperation op && isStructured inLoop start && isStructured inLoop stop && blockIsStructured true body
  | .whenCases subject clauses =>
    subject.type ≠ .string && isStructured inLoop subject && whenIsStructured inLoop clauses
  | _ => false

def blockIsStructured (inLoop : Bool) : List Stmt → Bool
  | [] => true
  | stmt :: rest => stmtIsStructured inLoop stmt && blockIsStructured inLoop rest

def ifIsStructured (inLoop : Bool) : List IfClause → Bool
  | [] => true
  | .mk none body :: rest => blockIsStructured inLoop body && rest.isEmpty
  | .mk (some condition) body :: rest =>
    isStructured inLoop condition && blockIsStructured inLoop body && ifIsStructured inLoop rest

def whenIsStructured (inLoop : Bool) : List WhenClause → Bool
  | [] => true
  | .mk candidates body :: rest =>
    allStructured inLoop candidates && blockIsStructured inLoop body && whenIsStructured inLoop rest

end

end

end FplCompiler.Reference
