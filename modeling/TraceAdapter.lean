import TraceAdapter.Core.SparseArray
import TraceAdapter.Core.JsNumber
import TraceAdapter.Core.JsObject
import TraceAdapter.Native.Schema
import TraceAdapter.Native.Value
import TraceAdapter.Native.Lifetime
import TraceAdapter.Native.ReadTrace
import TraceAdapter.Interpretation.Stack
import TraceAdapter.Interpretation.FrameRows
import TraceAdapter.Correctness.Events
import TraceAdapter.Correctness.Locality
import TraceAdapter.Correctness.Monotone
import TraceAdapter.Correctness.Soundness
import TraceAdapter.Correctness.Decoder
import TraceAdapter.Correctness.Numbers
import TraceAdapter.Correctness.CallStack
import TraceAdapter.Correctness.EndOfLifetime
