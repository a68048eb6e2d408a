/-! The stages of a compilation, the texts that may be dumped on the way and the parts that may be traced. -/

namespace FplCompiler

inductive Stage where
  | parse | typecheck | codegen | regalloc | assembly
  deriving DecidableEq, Repr

namespace Stage

def all : List Stage :=
  [parse, typecheck, codegen, regalloc, assembly]

def name : Stage → String
  | parse => "parse"
  | typecheck => "typecheck"
  | codegen => "codegen"
  | regalloc => "regalloc"
  | assembly => "assembly"

def title : Stage → String
  | parse => "Parse"
  | typecheck => "Typecheck"
  | codegen => "Codegen"
  | regalloc => "RegAlloc"
  | assembly => "Assembly"

def ofName? (name : String) : Option Stage :=
  all.find? (·.name == name)

end Stage

inductive DumpKind where
  | ast | tst | ir | regalloc | symbols
  deriving DecidableEq, Repr

namespace DumpKind

def all : List DumpKind :=
  [ast, tst, ir, regalloc, symbols]

def name : DumpKind → String
  | ast => "ast"
  | tst => "tst"
  | ir => "ir"
  | regalloc => "regalloc"
  | symbols => "symbols"

def ofName? (name : String) : Option DumpKind :=
  all.find? (·.name == name)

def fileName (kind : DumpKind) : String :=
  "dump-" ++ kind.name ++ ".txt"

end DumpKind

inductive TraceKind where
  | lexer | parser | analyzer | codegen | backend | regalloc
  deriving DecidableEq, Repr

namespace TraceKind

def all : List TraceKind :=
  [lexer, parser, analyzer, codegen, backend, regalloc]

def name : TraceKind → String
  | lexer => "lexer"
  | parser => "parser"
  | analyzer => "analyzer"
  | codegen => "codegen"
  | backend => "backend"
  | regalloc => "regalloc"

def ofName? (name : String) : Option TraceKind :=
  all.find? (·.name == name)

end TraceKind

end FplCompiler
