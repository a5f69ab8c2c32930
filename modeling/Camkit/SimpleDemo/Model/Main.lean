import Camkit.Cktool.Model.Main
/-!
# The demo — its stream loop

The `while` loop of `simple_demo.c`: capture, convert, encode, pack and send,
with every stage on and its parameters fixed. The handles and what the calls
of an iteration come back with are those of the tool; the demo draws no time
stamp and has no output file.
-/

namespace Camkit

namespace SimpleDemo

open RtpPack (Target Timeb PacHandle PacParam packPut drain)
open Cktool (Buffer Iteration Tool)

/-- `encp` of the demo. -/
def encp : Vpu.EncParam where
  srcPicwidth := 640
  srcPicheight := 480
  encPicwidth := 640
  encPicheight := 480
  fps := 15
  bitrate := 800
  gop := 30
  chromaInterleave := 0

/-- `pacp` of the demo. -/
def pacp : PacParam where
  maxPktLen := 1400
  ssrc := 10

/-- `pack_put` of a buffer, and `net_send` of each packet, with at most
`fuel` calls of `pack_get`; `none` is a loop not done by then, and a
fault. -/
def send (T : Target) (fuel : ℕ) (pac : PacHandle) (b : Buffer) (clock : ℕ → Timeb) :
    Option (PacHandle × List (List UInt8)) :=
  let drained := drain T b.mem fuel clock (packPut pac b.addr b.len)
  match drained.stop with
  | .zero => some (drained.handle, drained.packets)
  | _ => none

/-- The loop over `encode_get_headers`, while it returns 1. -/
def sendHeaders (T : Target) (fuel : ℕ) (it : Iteration) (h : Vpu.EncHandle) :
    ℕ → Vpu.Statics → PacHandle → Option (Vpu.Statics × PacHandle × List (List UInt8))
  | 0, _, _ => none
  | n + 1, st, pac =>
    match Vpu.encodeGetHeaders it.give st h with
    | (st', none) => some (st', pac, [])
    | (st', some header) =>
      match send T fuel pac (it.header header) (it.headerClock header.headerType) with
      | none => none
      | some (pac', sent) =>
        match sendHeaders T fuel it h n st' pac' with
        | none => none
        | some (st'', pac'', sent') => some (st'', pac'', sent ++ sent')

/-- An iteration from `encode_get_headers` on. -/
def sendImage (T : Target) (fuel : ℕ) (s : Tool) (it : Iteration) :
    Option (Tool × List (List UInt8)) :=
  match sendHeaders T fuel it s.enc.handle fuel s.enc.statics s.pac with
  | none => none
  | some (st, pac, sent) =>
    match Vpu.encodeDo it.env s.enc.handle it.cvt.len with
    | .error _ => none
    | .ok result =>
      match result.frame with
      | none => some (⟨⟨st, result.handle⟩, pac, true⟩, sent)
      | some frame =>
        if frame.len ≤ 0 then some (⟨⟨st, result.handle⟩, pac, false⟩, sent)
        else
          match send T fuel pac (it.frame frame) it.frameClock with
          | none => none
          | some (pac', sent') => some (⟨⟨st, result.handle⟩, pac', false⟩, sent ++ sent')

/-- One iteration; `break` sets `quit`. -/
def iterate (T : Target) (fuel : ℕ) (s : Tool) (it : Iteration) :
    Option (Tool × List (List UInt8)) :=
  if it.capRet ≠ 0 then
    if it.capRet < 0 then some ({ s with quit := true }, [])
    else some (s, [])
  else if it.cap.len ≤ 0 then some (s, [])
  else if it.cvtRet < 0 then some ({ s with quit := true }, [])
  else if it.cvt.len ≤ 0 then some (s, [])
  else sendImage T fuel s it

/-- The loop. Once it is left an iteration does nothing. -/
def loop (T : Target) (fuel : ℕ) : Machine Tool Iteration (List (List UInt8)) where
  step s it := if s.quit then some (s, []) else iterate T fuel s it

end SimpleDemo

end Camkit
