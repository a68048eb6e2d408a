import FplCompiler.Syntax.Tree

/-! Where the statements of a tree declare functions and classes, and where its chains of clauses have their `else`. -/

namespace FplCompiler.Syntax

variable {taken : List Span} {body : List Stmt} {span : Span} {stmt : Stmt}

mutual

def Stmt.places : Stmt → List Span
  | .mk (.functionDecl _ body) span | .mk (.classDecl _ body) span => span :: placesIn body
  | .mk (.whileLoop _ body) _ | .mk (.repeatLoop body _) _ | .mk (.forLoop _ _ body) _ => placesIn body
  | .mk (.ifChain clauses) _ => placesInClauses clauses
  | .mk (.whenCases _ clauses) _ => placesInCases clauses
  | _ => []

def placesIn : List Stmt → List Span
  | [] => []
  | stmt :: rest => stmt.places ++ placesIn rest

def placesInClauses : List IfClause → List Span
  | [] => []
  | .mk _ body _ :: rest => placesIn body ++ placesInClauses rest

def placesInCases : List WhenClause → List Span
  | [] => []
  | .mk _ body _ :: rest => placesIn body ++ placesInCases rest

end

mutual

def Stmt.ElseLast : Stmt → Prop
  | .mk (.functionDecl _ body) _ | .mk (.classDecl _ body) _ | .mk (.whileLoop _ body) _ | .mk (.repeatLoop body _) _
  | .mk (.forLoop _ _ body) _ => ElseLastIn body
  | .mk (.ifChain clauses) _ => ElseLastInClauses clauses
  | .mk (.whenCases _ clauses) _ => ElseLastInCases clauses
  | _ => True

def ElseLastIn : List Stmt → Prop
  | [] => True
  | stmt :: rest => stmt.ElseLast ∧ ElseLastIn rest

def ElseLastInClauses : List IfClause → Prop
  | [] => True
  | .mk condition body _ :: rest =>
    ElseLastIn body ∧ (condition = none → rest = []) ∧ ElseLastInClauses rest

def ElseLastInCases : List WhenClause → Prop
  | [] => True
  | .mk _ body _ :: rest => ElseLastIn body ∧ ElseLastInCases rest

end

def Stands (stmt : Stmt) (taken : List Span) : Prop :=
  stmt.places = taken ∧ stmt.ElseLast

def StandIn (stmts : List Stmt) (taken : List Span) : Prop :=
  placesIn stmts = taken ∧ ElseLastIn stmts

def StandInClauses (clauses : List IfClause) (taken : List Span) : Prop :=
  placesInClauses clauses = taken ∧ ElseLastInClauses clauses

def StandInCases (clauses : List WhenClause) (taken : List Span) : Prop :=
  placesInCases clauses = taken ∧ ElseLastInCases clauses

def LeadClauses (clauses : List IfClause) (taken : List Span) : Prop :=
  ∀ last more, StandInClauses last more → StandInClauses (clauses ++ last) (taken ++ more)

def LeadCase (clause : WhenClause) (taken : List Span) : Prop :=
  ∀ rest more, StandInCases rest more → StandInCases (clause :: rest) (taken ++ more)

theorem StandIn.declares {shape : StmtShape} (stand : StandIn body taken)
    (places : (Stmt.mk shape span).places = span :: placesIn body)
    (last : (Stmt.mk shape span).ElseLast = ElseLastIn body) :
    Stands (.mk shape span) (span :: (taken ++ [])) := by
  constructor
  · rw [places, stand.1, List.append_nil]
  · rw [last]
    exact stand.2

theorem StandIn.cons {rest : List Stmt} {first second : List Span} (one : Stands stmt first)
    (others : StandIn rest second) : StandIn (stmt :: rest) (first ++ second) := by
  constructor
  · rw [placesIn, one.1, others.1]
  · exact ⟨one.2, others.2⟩

theorem Stands.of (stands : Stands stmt taken) : Stands stmt (taken ++ []) := by
  rwa [List.append_nil]

theorem Stands.single (stands : Stands stmt taken) : StandIn [stmt] taken := by
  rw [← List.append_nil taken]
  exact .cons stands ⟨rfl, trivial⟩

theorem LeadClauses.cons {condition : Expr} {rest : List IfClause} {first second : List Span}
    (stand : StandIn body first) (lead : LeadClauses rest second) :
    LeadClauses (.mk (some condition) body span :: rest) (first ++ second) := by
  intro last more others
  obtain ⟨places, elseLast⟩ := lead last more others
  constructor
  · rw [List.cons_append, placesInClauses, stand.1, places, List.append_assoc]
  · exact ⟨stand.2, by simp, elseLast⟩

theorem StandIn.leadCase {values : List Expr}
    (stand : StandIn body taken) : LeadCase (.mk values body span) (taken ++ []) := by
  intro rest more others
  constructor
  · rw [placesInCases, stand.1, others.1, List.append_nil]
  · exact ⟨stand.2, others.2⟩

theorem StandIn.closes (stand : StandIn body taken) :
    StandInClauses [.mk none body span] (taken ++ []) := by
  constructor
  · rw [placesInClauses, stand.1, placesInClauses]
  · exact ⟨stand.2, fun _ => rfl, trivial⟩

end FplCompiler.Syntax
