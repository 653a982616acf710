import Unflatten.LogFormat
import Unflatten.Main
import Unflatten.Proofs.Binding.Classes
import Unflatten.Proofs.Canonical.Assigning
import Unflatten.Proofs.Canonical.Form
import Unflatten.Proofs.Canonical.Inlining
import Unflatten.Proofs.Canonical.Lowered
import Unflatten.Proofs.Canonical.Scoping
import Unflatten.Proofs.Dispatch.ChainRuns
import Unflatten.Proofs.Dispatch.Faithful
import Unflatten.Proofs.Dispatch.Histograms
import Unflatten.Proofs.Dispatch.KeyReads
import Unflatten.Proofs.Dispatch.MergeEnds
import Unflatten.Proofs.Dispatch.Refusals
import Unflatten.Proofs.Dispatch.Unrolling
import Unflatten.Proofs.Evaluation.Bounded
import Unflatten.Proofs.Parser.Lookahead
import Unflatten.Proofs.Parser.Verbatim
import Unflatten.Proofs.Program.Advancing
import Unflatten.Proofs.Program.Duplicates
import Unflatten.Proofs.Program.Jumps
import Unflatten.Proofs.Program.KeptComments
import Unflatten.Proofs.Program.Leftovers
import Unflatten.Proofs.Parser.Sentence
import Unflatten.Proofs.Program.UniqueNames
import Unflatten.Proofs.Token.Patterns
import Unflatten.Syntax.Outline
