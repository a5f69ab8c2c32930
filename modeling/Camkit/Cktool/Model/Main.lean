import Camkit.RtpPack.Model.Stream
import Camkit.Vpu.Model.Encode
/-!
# The tool — its main loop

The `while` loop of `cktool.c`, from a captured image to what is written to
the output file or given to `net_send`, with the packetiser and the VPU
encoder it calls. `stage` selects how far an image goes. What the other
calls of an iteration come back with is the iteration's own, and so is what
memory holds where a buffer they hand out lies.
-/

namespace Camkit

namespace Cktool

open RtpPack (Target Timeb PacHandle packPut drain)

/-- A buffer a call hands out. -/
structure Buffer where
  mem : Mem
  addr : Ptr
  len : ℤ

/-- What `fwrite` takes from a buffer. -/
def Buffer.bytes (b : Buffer) : List UInt8 := b.mem.bytes b.addr.addr b.len.toNat

/-- A virtual address of the VPU, cast to a pointer. -/
def pointer (vbuf : UInt32) : Ptr := if vbuf = 0 then none else some vbuf.toNat

/-- What the tool gives away. -/
inductive Output where
  /-- `fwrite` to `outfd` -/
  | file (bytes : List UInt8)
  /-- `net_send` -/
  | net (bytes : List UInt8)
  deriving DecidableEq, Repr

/-- What the loop reads of the arguments. -/
structure Options where
  stage : Int32
  /-- `capp.pixfmt` is `V4L2_PIX_FMT_YUV420` -/
  planar : Bool
  /-- `outfd` is not null -/
  outfd : Bool

/-- `if (outfd) fwrite(...)`. -/
def Options.write (o : Options) (bytes : List UInt8) : List Output :=
  if o.outfd then [.file bytes] else []

/-- A packet, sent or written. -/
def Options.deliver (o : Options) (pac : List UInt8) : List Output :=
  if o.stage &&& 8 = 0 then o.write pac else [.net pac]

/-- What the calls of one iteration come back with. -/
structure Iteration where
  /-- `capture_get_data` -/
  capRet : ℤ
  cap : Buffer
  /-- `convert_do` -/
  cvtRet : ℤ
  cvt : Buffer
  /-- the memory once `timestamp_draw` has drawn to it -/
  drawn : Mem
  /-- `ENC_PUT_AVC_HEADER` -/
  give : Vpu.HeaderType → Vpu.EncHeaderParam
  headerMem : Vpu.HeaderType → Mem
  headerClock : Vpu.HeaderType → ℕ → Timeb
  /-- `encode_do` -/
  env : Vpu.DoEnv
  frameMem : Mem
  frameClock : ℕ → Timeb

/-- `cvt_buf` and `cvt_len`, with the time stamp drawn. -/
def Iteration.image (it : Iteration) (o : Options) : Buffer :=
  { if o.planar then it.cap else it.cvt with mem := it.drawn }

/-- The handles the loop works on, and `quit`. -/
structure Tool where
  enc : Vpu.Encoder
  pac : PacHandle
  quit : Bool

/-- A header or a frame: written, or packed and each packet delivered, with
at most `fuel` calls of `pack_get`; `none` is a loop not done by then, and
a fault. -/
def pass (o : Options) (T : Target) (fuel : ℕ) (pac : PacHandle) (b : Buffer)
    (clock : ℕ → Timeb) : Option (PacHandle × List Output) :=
  if o.stage &&& 4 = 0 then some (pac, o.write b.bytes)
  else
    let drained := drain T b.mem fuel clock (packPut pac b.addr b.len)
    match drained.stop with
    | .zero => some (drained.handle, drained.packets.flatMap o.deliver)
    | _ => none

/-- The buffer of a header. -/
def Iteration.header (it : Iteration) (header : Vpu.Header) : Buffer :=
  ⟨it.headerMem header.headerType, pointer header.buf, header.len⟩

/-- The loop over `encode_get_headers`. -/
def headerLoop (o : Options) (T : Target) (fuel : ℕ) (it : Iteration) (h : Vpu.EncHandle) :
    ℕ → Vpu.Statics → PacHandle → Option (Vpu.Statics × PacHandle × List Output)
  | 0, _, _ => none
  | n + 1, st, pac =>
    match Vpu.encodeGetHeaders it.give st h with
    | (st', none) => some (st', pac, [])
    | (st', some header) =>
      match pass o T fuel pac (it.header header) (it.headerClock header.headerType) with
      | none => none
      | some (pac', out) =>
        match headerLoop o T fuel it h n st' pac' with
        | none => none
        | some (st'', pac'', out') => some (st'', pac'', out ++ out')

/-- The buffer of a frame. -/
def Iteration.frame (it : Iteration) (frame : Vpu.Frame) : Buffer :=
  ⟨it.frameMem, pointer frame.buf, frame.len⟩

/-- An iteration from `encode_get_headers` on. -/
def encodeImage (o : Options) (T : Target) (fuel : ℕ) (s : Tool) (it : Iteration) :
    Option (Tool × List Output) :=
  match headerLoop o T fuel it s.enc.handle fuel s.enc.statics s.pac with
  | none => none
  | some (st, pac, out) =>
    match Vpu.encodeDo it.env s.enc.handle (it.image o).len with
    | .error _ => none
    | .ok result =>
      match result.frame with
      | none => some (⟨⟨st, result.handle⟩, pac, true⟩, out)
      | some frame =>
        if frame.len ≤ 0 then some (⟨⟨st, result.handle⟩, pac, false⟩, out)
        else
          match pass o T fuel pac (it.frame frame) it.frameClock with
          | none => none
          | some (pac', out') => some (⟨⟨st, result.handle⟩, pac', false⟩, out ++ out')

/-- One iteration; `break` sets `quit`. -/
def iterate (o : Options) (T : Target) (fuel : ℕ) (s : Tool) (it : Iteration) :
    Option (Tool × List Output) :=
  if it.capRet < 0 then some ({ s with quit := true }, [])
  else if it.capRet ≠ 0 ∨ it.cap.len ≤ 0 then some (s, [])
  else if o.stage &&& 1 = 0 then some (s, o.write it.cap.bytes)
  else if !o.planar ∧ it.cvtRet < 0 then some ({ s with quit := true }, [])
  else if !o.planar ∧ it.cvt.len ≤ 0 then some (s, [])
  else if o.stage &&& 2 = 0 then some (s, o.write (it.image o).bytes)
  else encodeImage o T fuel s it

/-- The loop. Once it is left an iteration does nothing. -/
def loop (o : Options) (T : Target) (fuel : ℕ) : Machine Tool Iteration (List Output) where
  step s it := if s.quit then some (s, []) else iterate o T fuel s it

end Cktool

end Camkit
