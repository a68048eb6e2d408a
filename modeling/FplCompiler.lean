import FplCompiler.CommandLine.Disk
import FplCompiler.Main
import FplCompiler.Proofs.AllocatedRun
import FplCompiler.Proofs.ElementBytes
import FplCompiler.Proofs.Finishing
import FplCompiler.Proofs.FoldedCode
import FplCompiler.Proofs.FunctionViews
import FplCompiler.Proofs.GenericAccess
import FplCompiler.Proofs.Indentation
import FplCompiler.Proofs.InferredArguments
import FplCompiler.Proofs.InvisibleLines
import FplCompiler.Proofs.JoinedPaths
import FplCompiler.Proofs.LinePositions
import FplCompiler.Proofs.LinkedAssembly
import FplCompiler.Proofs.LivePaths
import FplCompiler.Proofs.LoopGetters
import FplCompiler.Proofs.NoPlaceholders
import FplCompiler.Proofs.NormalForms
import FplCompiler.Proofs.PackedArguments
import FplCompiler.Proofs.ReadBack
import FplCompiler.Proofs.RegisterPressure
import FplCompiler.Proofs.ScopeChains
import FplCompiler.Proofs.SequenceLoops
import FplCompiler.Proofs.StackFrames
import FplCompiler.Proofs.StringData
import FplCompiler.Proofs.TypeStore
