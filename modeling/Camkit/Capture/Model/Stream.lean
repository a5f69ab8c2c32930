import Camkit.Capture.Model.Open
import Camkit.Common.Machine
/-!
# V4L2 capture — the driver and the streaming calls

`capture_start`, `capture_stop` and `capture_get_data` over a driver that
owns a buffer from `VIDIOC_QBUF` to `VIDIOC_DQBUF` and fills queued ones on
its own, between the calls of the program and during them.
-/

namespace Camkit

namespace Capture

/-! ## The driver -/

/-- Who has a buffer, and what the driver has done with it. -/
inductive Slot where
  | user
  | queued
  | filled
  deriving DecidableEq, Repr

/-- The driver of an open device, with `count` buffers requested. -/
structure Driver where
  count : ℕ
  slots : ℕ → Slot
  streaming : Bool

namespace Driver

/-- The driver after `VIDIOC_REQBUFS`. -/
def fresh (count : ℕ) : Driver := ⟨count, fun _ => .user, false⟩

/-- The driver owns a buffer. -/
def Owns (d : Driver) (i : ℕ) : Prop := d.slots i ≠ .user

instance (d : Driver) (i : ℕ) : Decidable (d.Owns i) := by
  unfold Owns
  infer_instance

/-- A buffer in another slot. -/
def set (d : Driver) (i : ℕ) (slot : Slot) : Driver :=
  { d with slots := Function.update d.slots i slot }

/-- A frame captured into a buffer, where it waits for one. -/
def complete (d : Driver) (i : ℕ) : Driver :=
  if d.streaming ∧ d.slots i = .queued then d.set i .filled else d

/-- Frames captured in order. -/
def completeAll (d : Driver) (l : List ℕ) : Driver := l.foldl complete d

/-- `VIDIOC_QBUF`: `none` where it fails, and `ok` where nothing else is
wrong. -/
def qbuf (d : Driver) (ok : Bool) (i : ℕ) : Option Driver :=
  if ok ∧ i < d.count ∧ ¬ d.Owns i then some (d.set i .queued) else none

/-- `VIDIOC_STREAMON`. -/
def streamOn (d : Driver) : Driver := { d with streaming := true }

/-- `VIDIOC_STREAMOFF`, which takes every buffer out of the queue. -/
def streamOff (d : Driver) : Driver := { d with slots := fun _ => .user, streaming := false }

end Driver

/-! ## The calls -/

/-- A device opened: the handle and the driver behind it. -/
structure Device where
  handle : CapHandle
  driver : Driver

/-- The device of a handle just opened. -/
def Device.opened (h : CapHandle) : Device := ⟨h, .fresh h.nbuffers⟩

/-- What the driver answers during one `capture_start`. -/
structure StartEnv where
  qbuf : ℕ → Bool
  streamOn : Bool

/-- The `for` loop of `capture_start` over the `n` buffers from `i` on:
`false` where a `VIDIOC_QBUF` fails. -/
def queueLoop (env : StartEnv) : ℕ → ℕ → Driver → Driver × Bool
  | 0, _, d => (d, true)
  | n + 1, i, d =>
    match d.qbuf (env.qbuf i) i with
    | none => (d, false)
    | some d => queueLoop env n (i + 1) d

/-- `capture_start`, with what it returns. -/
def captureStart (env : StartEnv) (s : Device) : Device × ℤ :=
  let queued := queueLoop env s.handle.nbuffers 0 s.driver
  if queued.2 then
    if env.streamOn then ({ s with driver := queued.1.streamOn }, 0)
    else ({ s with driver := queued.1 }, -1)
  else ({ s with driver := queued.1 }, -1)

/-- `capture_stop`. -/
def captureStop (s : Device) : Device := { s with driver := s.driver.streamOff }

/-- How `select` returns. -/
inductive SelectAnswer where
  | failed
  | timeout
  | ready
  deriving DecidableEq, Repr

/-- How `VIDIOC_DQBUF` returns. -/
inductive DqbufAnswer where
  | buffer (i : ℕ)
  | eagain
  | error
  deriving DecidableEq, Repr

/-- What the driver does during one `capture_get_data`, frames captured
before `VIDIOC_QBUF` and before `VIDIOC_DQBUF` included. -/
structure GetDataEnv where
  select : SelectAnswer
  beforeQbuf : List ℕ
  qbuf : Bool
  beforeDqbuf : List ℕ
  dqbuf : DqbufAnswer

/-- `EAGAIN`. -/
def eagain : ℤ := 11

/-- An image returned: `*buf`, `*len`, and the index of its buffer. -/
structure Image where
  index : ℕ
  start : ℕ
  len : ℤ
  deriving DecidableEq, Repr

/-- What one `capture_get_data` does. -/
structure GetDataResult where
  /-- `none` where the assertion ends the process -/
  ret : Option ℤ
  /-- the buffer `VIDIOC_QBUF` was issued for, and the slot it was in -/
  qbuf : Option (ℕ × Slot)
  image : Option Image
  deriving DecidableEq, Repr

/-- A buffer put back, where one is out: `none` where `VIDIOC_QBUF`
fails. -/
def putBack (ok : Bool) (s : Device) : Option Device :=
  if s.handle.v4lbufPut then some s
  else
    match s.driver.qbuf ok s.handle.v4lbuf.index with
    | none => none
    | some d => some ⟨{ s.handle with v4lbufPut := true }, d⟩

/-- The buffer `putBack` issues `VIDIOC_QBUF` for. -/
def issued (s : Device) : Option (ℕ × Slot) :=
  if s.handle.v4lbufPut then none
  else some (s.handle.v4lbuf.index, s.driver.slots s.handle.v4lbuf.index)

/-- `CLEAR(handle->v4lbuf)`. -/
def clearBuf (h : CapHandle) : CapHandle := { h with v4lbuf := .cleared }

/-- The handle after buffer `i` is dequeued. -/
def takeBuf (i : ℕ) (h : CapHandle) : CapHandle :=
  { h with
    v4lbuf := ⟨i⟩
    v4lbufPut := false
    imageCounter := h.imageCounter + 1 }

/-- `capture_get_data` from `VIDIOC_DQBUF` on; `none` is an answer the
driver cannot give. -/
def dequeue (answer : DqbufAnswer) (asked : Option (ℕ × Slot)) (s : Device) :
    Option (Device × GetDataResult) :=
  match answer with
  | .eagain => some (s, ⟨some eagain, asked, none⟩)
  | .error => some (s, ⟨some (-1), asked, none⟩)
  | .buffer i =>
    if s.driver.slots i = .filled then
      let d := s.driver.set i .user
      if i < s.handle.nbuffers then
        some (⟨takeBuf i s.handle, d⟩, ⟨some 0, asked,
          some ⟨i, (s.handle.buffers i).start, s.handle.imageSize⟩⟩)
      else some (⟨{ s.handle with v4lbuf := ⟨i⟩ }, d⟩, ⟨none, asked, none⟩)
    else none

/-- `capture_get_data`. -/
def captureGetData (env : GetDataEnv) (s : Device) : Option (Device × GetDataResult) :=
  match env.select with
  | .failed => some (s, ⟨some (-1), none, none⟩)
  | .timeout => some (s, ⟨some (-1), none, none⟩)
  | .ready =>
    let s : Device := { s with driver := s.driver.completeAll env.beforeQbuf }
    match putBack env.qbuf s with
    | none => some (s, ⟨some (-1), issued s, none⟩)
    | some s' =>
      dequeue env.dqbuf (issued s)
        ⟨clearBuf s'.handle, s'.driver.completeAll env.beforeDqbuf⟩

/-! ## Sessions -/

/-- What happens while a device streams. -/
inductive Activity where
  /-- the driver captures a frame -/
  | complete (i : ℕ)
  | getData (env : GetDataEnv)

/-- What happens to a device opened. -/
inductive Event where
  | start (env : StartEnv)
  | stop
  | during (a : Activity)

/-- What an event yields. -/
inductive Output where
  | started (ret : ℤ)
  | got (result : GetDataResult)
  | quiet
  deriving DecidableEq, Repr

/-- An activity on a device. -/
def Activity.apply (s : Device) : Activity → Option (Device × Output)
  | .complete i => some ({ s with driver := s.driver.complete i }, .quiet)
  | .getData env => (captureGetData env s).map fun x => (x.1, .got x.2)

/-- The events of a device opened. -/
def captures : Machine Device Event Output where
  step s
    | .start env => some ((captureStart env s).1, .started (captureStart env s).2)
    | .stop => some (captureStop s, .quiet)
    | .during a => a.apply s

/-- A session: `capture_start`, what happens then, and `capture_stop`. -/
structure Session where
  start : StartEnv
  body : List Activity

/-- The events of a session. -/
def Session.events (x : Session) : List Event := .start x.start :: x.body.map .during ++ [.stop]

end Capture

end Camkit
