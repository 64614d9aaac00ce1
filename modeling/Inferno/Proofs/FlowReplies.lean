import Inferno.Lib.Trace
import Inferno.Spec.FlowsTransact

/-! A flow transaction takes only the transmitter's answer to itself. The network may lose,
delay, repeat and reorder what the transmitter sends, and a late answer to an earlier
call may reach a later call's socket: the number and the opcode tell them apart for as
long as the sixteen bits of the number do. -/

namespace Inferno

open Lib

end Inferno
