import Inferno.Spec.EthTx
import Inferno.Spec.FlowsClient

/-! `transact` of `flows_client.c`: one numbered request, and up to four datagrams for the
reply to it. -/

namespace Inferno

structure FlowsDiag where
  lastOpcode : ℕ
  lastCode : ℕ
  refused : ℕ
  timeouts : ℕ
  deriving DecidableEq, Repr

structure FlowsClient where
  sSeq : ℕ
  diag : FlowsDiag
  deriving DecidableEq, Repr

/-- A call of `transact`, with what the board makes of it: whether there is a socket, whether
the packet goes out, and what each `recv` brings, `none` being a timeout or an error. A
caller that wants the response says how much it takes. -/
structure FlowCall where
  sock : Bool
  sends : Bool
  opcode1 : UInt16
  body : List UInt8
  respCap : Option ℕ
  arrives : List (Option (List UInt8))

def FlowCall.sent (c : FlowsClient) (a : FlowCall) : Option (List UInt8) :=
  if a.sock = true ∧ a.sends = true then (transactPacket c.sSeq a.opcode1.toNat a.body).toOption.join else none

end Inferno
