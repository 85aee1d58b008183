import SigmaRust.SignedInt
import SigmaRust.Value
import SigmaRust.Eval
import SigmaRust.Laziness
import SigmaRust.Arithmetic
import SigmaRust.Ensures
import SigmaRust.Typing
import SigmaRust.Panic
import SigmaRust.Ceiling
import SigmaRust.Refinement
import SigmaRust.Accumulator
import SigmaRust.Result
import SigmaRust.UnsignedTx
import SigmaRust.Bindings
import SigmaRust.Vlq
import SigmaRust.DataCodec
import SigmaRust.Codec
import SigmaRust.Accepts
import SigmaRust.Hir
import SigmaRust.PeerAddr
import SigmaRust.HttpUrl
