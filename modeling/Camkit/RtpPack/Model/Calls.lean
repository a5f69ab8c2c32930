import Camkit.Common.Machine
import Camkit.RtpPack.Model.Sender
/-!
# RTP packetiser — a handle's life

`pack_put` and `pack_get` in any order, as a machine over the handle and as
one over the sender. A call that faults has no step.
-/

namespace Camkit

namespace RtpPack

/-- A call on a handle. A `get` comes with the memory it reads and the
clock it may read. -/
inductive Call where
  | put (inbuf : Ptr) (isize : ℤ)
  | get (mem : Mem) (tb : Timeb)

/-- `pack_get`. -/
def Call.IsGet : Call → Prop
  | .put .. => False
  | .get .. => True

/-- Every call after the one at `i`, up to the one at `j`, is a
`pack_get`. -/
def GetsAfter (cs : List Call) (i j : ℕ) : Prop :=
  ∀ k, i < k → k ≤ j → ∀ c, cs[k]? = some c → c.IsGet

/-- What a call returns. -/
inductive Reply (α : Type*) where
  /-- `pack_put` -/
  | void
  /-- `pack_get` returned 0 -/
  | zero
  | packet (p : α)

/-- The packet a call returned, if any. -/
def Reply.packet? {α : Type*} : Reply α → Option α
  | .packet p => some p
  | _ => none

/-- A reply with its packet translated. -/
def Reply.map {α β : Type*} (f : α → β) : Reply α → Reply β
  | .void => .void
  | .zero => .zero
  | .packet p => .packet (f p)

/-- The packets returned, in order. -/
def packets {α : Type*} (rs : List (Reply α)) : List α := rs.filterMap Reply.packet?

/-- The calls on a handle. -/
def calls (T : Target) : Machine PacHandle Call (Reply (List UInt8)) where
  step h
    | .put inbuf isize => some (packPut h inbuf isize, .void)
    | .get mem tb =>
      match packGet T mem tb h with
      | .error _ => none
      | .ok (h', none) => some (h', .zero)
      | .ok (h', some outsize) => some (h', .packet (h'.packet outsize))

/-- The sender, between any two calls. -/
structure Sender where
  session : Session
  phase : Phase
  seq : UInt16

/-- The sender given a buffer. -/
def Sender.put (s : Sender) (inbuf : Ptr) (isize : ℤ) : Sender where
  session := { s.session with inbuf := inbuf.addr, size := isize }
  phase := .unit inbuf
  seq := s.seq

/-- The calls on the sender. -/
def senderCalls (T : Target) : Machine Sender Call (Reply Packet) where
  step s
    | .put inbuf isize => some (s.put inbuf isize, .void)
    | .get mem tb =>
      match s.session.get T mem tb s.seq s.phase with
      | .error _ => none
      | .ok (ph, none) => some ({ s with phase := ph }, .zero)
      | .ok (ph, some p) => some (⟨s.session, ph, s.seq + 1⟩, .packet p)

/-- The handle is where the sender is. -/
def Simulates (s : Sender) (h : PacHandle) : Prop :=
  Runs s.session s.seq h ∧ InPhase s.session h s.phase

/-- The sender of a handle that has just been given its first buffer. -/
def firstSender (params : PacParam) (tb : Timeb) (inbuf : Ptr) (isize : ℤ)
    (hM : 0 < params.maxPktLen.toNat) : Sender where
  session := {
    inbuf := inbuf.addr
    size := isize
    maxPktLen := params.maxPktLen.toNat
    ssrc := params.ssrc
    start := getCurrentMillisec tb
    maxPktLen_pos := hM }
  phase := .unit inbuf
  seq := 0

end RtpPack

end Camkit
