import Lila.Main
import Lila.Scope.Operation
import Lila.SymbolPool
import Lila.Verifier
import Lila.Proofs.Scope.Frames
import Lila.Proofs.Parser.Runs
import Lila.Proofs.Parser.Frame
import Lila.Proofs.Parser.Agreement
import Lila.Proofs.Grammar.Grouping
import Lila.Proofs.Grammar.Derivation
import Lila.Proofs.Parser.Environment
import Lila.Proofs.Parser.Operators
import Lila.Proofs.Grammar.Lines
import Lila.Proofs.Grammar.Weakening
import Lila.Proofs.Grammar.Soundness
import Lila.Proofs.Grammar.Completeness
import Lila.Proofs.Parser.Places
import Lila.Proofs.Grammar.Continuation
import Lila.Proofs.Grammar.Composition
import Lila.Proofs.Grammar.Scoping
import Lila.Proofs.Tree.Scoping
import Lila.Proofs.Token.Steps
import Lila.Proofs.Token.Reading
import Lila.Proofs.Tree.Printing
import Lila.Proofs.Grammar.Printing
import Lila.Proofs.Token.Nesting
import Lila.Proofs.Token.Tiling
import Lila.Proofs.Grammar.Yield
import Lila.Proofs.Grammar.Shape
import Lila.Proofs.Grammar.Brackets
import Lila.Proofs.Grammar.Depths
import Lila.Proofs.Scope.Layers
import Lila.Proofs.Parser.Climbing
import Lila.Proofs.Token.Longest
import Lila.Proofs.Parser.Stepwise
import Lila.Proofs.Parser.Restoring
import Lila.Proofs.Parser.BlankLines
import Lila.Proofs.Grammar.Enclosing
import Lila.Proofs.Scope.Balance
import Lila.Proofs.Token.Joining
import Lila.Proofs.Token.Streaming
import Lila.Proofs.Token.Respacing
import Lila.Proofs.Number.Nearest
import Lila.Proofs.Token.Literals
import Lila.Proofs.Parser.ScopeLog
import Lila.Proofs.Parser.Recursion
import Lila.Proofs.Parser.Progress
import Lila.Proofs.Verifier.Reports
import Lila.Proofs.SymbolPool.Interning
