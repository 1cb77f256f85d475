import LazyCall.Text.Standalone
import LazyCall.Text.Blank
import LazyCall.Text.Quoted
import LazyCall.Text.Address
import LazyCall.Decimal.Shortest
import LazyCall.Decimal.Style
import LazyCall.Decimal.Read
import LazyCall.Numeral
import LazyCall.Json.Basic
import LazyCall.Json.Cursor
import LazyCall.Json.Reader
import LazyCall.Fault
import LazyCall.Limits
import LazyCall.Counters
import LazyCall.Limits.Text
import LazyCall.Limits.Environment
import LazyCall.Script.Expr
import LazyCall.Value
import LazyCall.Machine
import LazyCall.Show
import LazyCall.Resolver
import LazyCall.Script.Eval
import LazyCall.Session
import LazyCall.Script.Decode
import LazyCall.Service
import LazyCall.Proofs.Run
import LazyCall.Proofs.Turns
import LazyCall.Proofs.Calls
import LazyCall.Proofs.Sound
import LazyCall.Proofs.Force
import LazyCall.Proofs.Soundness
import LazyCall.Proofs.Sessions
import LazyCall.Proofs.MemoCells
import LazyCall.Proofs.Rename
import LazyCall.Proofs.Equivariance
import LazyCall.Proofs.Currying
import LazyCall.Proofs.Threads
import LazyCall.Proofs.Whnf
import LazyCall.Proofs.ChainDepth
import LazyCall.Proofs.CellChains
import LazyCall.Proofs.Formed
import LazyCall.Proofs.ExactArity
import LazyCall.Proofs.Equality
import LazyCall.Proofs.Pool
import LazyCall.Proofs.LimitsText
import LazyCall.Proofs.Accounting
import LazyCall.Proofs.LimitsEnvironment
