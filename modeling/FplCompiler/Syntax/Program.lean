import FplCompiler.Syntax.Dump
import FplCompiler.Syntax.StmtParser

/-! Whole programs: every file of a compilation as a tree, with what is wrong with its tokens and its syntax. -/

namespace FplCompiler.Syntax

structure ParsedFile where
  tokens : List Token
  tree : FileTree
  diagnostics : List Diagnostic
  recoveries : List Cause
  statementCount : Nat
  expressionCount : Nat

def parseFile (sources : SourceMap) (file : FileId) : ParsedFile :=
  let source := sources.get file
  let scanned := scan file source.text
  let (statements, stream) := statements scanned.tokens
  { tokens := scanned.tokens
    tree := ⟨source.moduleName, file, statements⟩
    diagnostics := (scanned.diagnostics ++ stream.diagnostics).mergeSort
      fun first second => first.span.start ≤ second.span.start
    recoveries := stream.recoveries
    statementCount := stream.statementCount
    expressionCount := stream.expressionCount }

structure Program where
  files : List ParsedFile

namespace Program

def ofSources (sources : SourceMap) (files : List FileId) : Program :=
  ⟨files.map (parseFile sources)⟩

def trees (program : Program) : List FileTree :=
  program.files.map ParsedFile.tree

def diagnostics (program : Program) : List Diagnostic :=
  program.files.flatMap ParsedFile.diagnostics

def statementCount (program : Program) : Nat :=
  program.files.foldl (fun count file => count + file.statementCount) 0

def expressionCount (program : Program) : Nat :=
  program.files.foldl (fun count file => count + file.expressionCount) 0

def dump (program : Program) : String :=
  String.join (program.trees.map FileTree.dump)

end Program

end FplCompiler.Syntax
