import Camkit.Common.Shared
import Camkit.Vpu.Model.Encode
/-!
# VPU encoder — the handles of a process

Every handle has a state of its own, and all of them walk through their
headers by the two statics of `encode_get_headers`. A process is its
handles as clients of these statics, with any calls in any order.
-/

namespace Camkit

namespace Vpu

/-- A handle of a process. -/
inductive Slot where
  | unborn
  | opened (h : EncHandle)
  | closed

/-- A call of a process that has to do with one handle. -/
inductive Call where
  | open (env : Env) (param : EncParam)
  | close
  | getHeaders (give : HeaderType → EncHeaderParam)
  | encode (env : DoEnv) (ilen : ℤ)
  | set (x : Setting)

/-- What a call returns. -/
inductive Reply where
  /-- a call without a result -/
  | void
  /-- `encode_get_headers`: `none` where it returns 0 -/
  | header (r : Option Header)
  /-- `encode_do`: `none` where it returns -1 -/
  | frame (r : Option Frame)
  deriving DecidableEq, Repr

/-- What a call does to its handle. A failed `encode_open` returns none,
and a call that aborts, or has no open handle, does not happen. -/
def nextSlot : Slot → Call → Option Slot
  | .unborn, .open env param => (encodeOpen env param).1.map .opened
  | .opened _, .close => some .closed
  | .opened h, .getHeaders _ => some (.opened h)
  | .opened h, .encode env ilen =>
    match encodeDo env h ilen with
    | .error _ => none
    | .ok res => some (.opened res.handle)
  | .opened h, .set x => some (.opened (x.apply h))
  | _, _ => none

/-- What a call adds to the log of its handle. -/
def nextLog (log : List Event) : Slot → Call → List Event
  | .unborn, .open env param => log ++ (encodeOpen env param).2
  | .opened h, .close => (encodeClose ⟨h, log⟩).log
  | _, _ => log

/-- The calls on one handle, with what is acquired and released. -/
def lives : Machine (Slot × List Event) Call Unit where
  step s c := (nextSlot s.1 c).map fun slot => ((slot, nextLog s.2 s.1 c), ())

/-- What a call does to the statics, and returns. -/
def accessStatics : Slot → Call → Statics → Statics × Reply
  | .opened h, .getHeaders give, st =>
    let got := encodeGetHeaders give st h
    (got.1, .header got.2)
  | .opened h, .encode env ilen, st =>
    match encodeDo env h ilen with
    | .error _ => (st, .void)
    | .ok res => (st, .frame res.frame)
  | _, _, st => (st, .void)

/-- A handle as a client of the statics. -/
def handleClient : Client Statics Slot Call Reply := ⟨nextSlot, accessStatics⟩

/-- The process, whose handles have names in `ι`. -/
def process {ι : Type} [DecidableEq ι] :
    Machine (Statics × (ι → Slot)) (ι × Call) (ι × Reply) := handleClient.shared

/-- A process just started. -/
def freshProcess {ι : Type} : Statics × (ι → Slot) := (.fresh, fun _ => .unborn)

/-- The return code and the header type of an `encode_get_headers`, 0 being
`none`. -/
def observed : Reply → Option (Option PicT)
  | .header r => some (r.map Header.type)
  | _ => none

end Vpu

end Camkit
