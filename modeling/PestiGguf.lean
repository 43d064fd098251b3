import PestiGguf.Framework.LittleEndian
import PestiGguf.Framework.Reader
import PestiGguf.Framework.Emit
import PestiGguf.Framework.Layout
import PestiGguf.Framework.Events
import PestiGguf.Framework.Progress
import PestiGguf.Framework.Errors
import PestiGguf.Framework.Ranking
import PestiGguf.Framework.Wrap
import PestiGguf.Framework.Streaming
import PestiGguf.Framework.Verdict
import PestiGguf.Framework.Twins
import PestiGguf.Framework.Runs
import PestiGguf.Framework.Grouping
import PestiGguf.Impl.Error
import PestiGguf.Impl.Types
import PestiGguf.Impl.Parser
import PestiGguf.Impl.Writer
import PestiGguf.Impl.CorpusConformance
import PestiGguf.Impl.FormatInference
import PestiGguf.Impl.DtypeProof
import PestiGguf.Spec.Grammar
import PestiGguf.Spec.Content
import PestiGguf.Spec.Value
import PestiGguf.Proof.Parser
import PestiGguf.Proof.Acceptance
import PestiGguf.Proof.Elements
import PestiGguf.Proof.Allocation
import PestiGguf.Proof.StoredSize
import PestiGguf.Proof.Writer
import PestiGguf.Proof.Encoding
import PestiGguf.Proof.RoundTrip
import PestiGguf.Proof.ReadBack
import PestiGguf.Proof.Size
import PestiGguf.Proof.Prediction
import PestiGguf.Proof.Emission
import PestiGguf.Proof.DataSection
import PestiGguf.Proof.Conformance
import PestiGguf.Proof.Placement
import PestiGguf.Proof.Agreement
import PestiGguf.Proof.Rewrite
import PestiGguf.Proof.Conversion
import PestiGguf.Proof.Rejection
import PestiGguf.Proof.Failure
import PestiGguf.Proof.Extraction
import PestiGguf.Proof.HyperParameters
import PestiGguf.Proof.Progress
import PestiGguf.Proof.TypeErrors
import PestiGguf.Proof.Alignment
import PestiGguf.Proof.CopyLoop
import PestiGguf.Proof.Score
import PestiGguf.Proof.Inference
import PestiGguf.Proof.DtypeProof
import PestiGguf.Proof.Checked
import PestiGguf.Proof.Streaming
import PestiGguf.Proof.Refusal
import PestiGguf.Proof.Complete
import PestiGguf.Proof.Copying
import PestiGguf.Proof.Frame
import PestiGguf.Proof.Rewriting
import PestiGguf.Proof.Catalog
import PestiGguf.Proof.Session
import PestiGguf.Proof.Widths
import PestiGguf.Proof.ElementSize
import PestiGguf.Proof.TensorSizes
