import Fexpr.Proofs.Combiner.Binding
import Fexpr.Proofs.Combiner.Defects
import Fexpr.Proofs.Environment.History
import Fexpr.Proofs.Evaluator.Audit
import Fexpr.Proofs.Evaluator.Conditional
import Fexpr.Proofs.Evaluator.Growth
import Fexpr.Proofs.Evaluator.Invisibility
import Fexpr.Proofs.Evaluator.Passes
import Fexpr.Proofs.Evaluator.Reflection
import Fexpr.Proofs.Reader.Completion
import Fexpr.Proofs.Reader.LineBreaks
import Fexpr.Proofs.Reader.Positions
import Fexpr.Proofs.Reader.Progress
import Fexpr.Proofs.Reader.RoundTrip
import Fexpr.Proofs.Reader.Storage
import Fexpr.Proofs.Session.Concatenation
import Fexpr.Proofs.Session.Isolation
import Fexpr.Proofs.Session.Soundness
