import Mathlib.Data.Int.Notation
import Mathlib.Data.Nat.Notation
import Mathlib.Logic.Function.Basic
/-!
# VPU encoder — the code

`vpu_encode.c` function by function: the frame-buffer pool, `encode_open`
with its error exits, the header loop, `encode_do` and the setters. What
the firmware and the memory library answer is a parameter, an address is a
number of 32 bits, and what `encode_open` takes and gives back is written
to a log.
-/

namespace Camkit

namespace Vpu

/-! ## Data -/

/-- `enum pic_t`. -/
inductive PicT where
  | none
  | sps
  | pps
  | i
  | p
  | b
  deriving DecidableEq, Repr

/-- `struct enc_param`, the parameters of `encode_open`. -/
structure EncParam where
  srcPicwidth : ℤ
  srcPicheight : ℤ
  encPicwidth : ℤ
  encPicheight : ℤ
  fps : ℤ
  bitrate : ℤ
  gop : ℤ
  chromaInterleave : ℤ
  deriving DecidableEq, Repr

/-- `vpu_mem_desc`. -/
structure VpuMemDesc where
  size : ℤ
  phyAddr : UInt32
  virtUaddr : UInt32
  deriving DecidableEq, Repr

/-- A cleared descriptor. -/
def VpuMemDesc.cleared : VpuMemDesc := ⟨0, 0, 0⟩

/-- `struct my_frame_buf`. -/
structure MyFrameBuf where
  addrY : UInt32
  addrCb : UInt32
  addrCr : UInt32
  strideY : ℤ
  strideC : ℤ
  mvColBuf : UInt32
  desc : VpuMemDesc
  deriving DecidableEq, Repr

/-- A cleared frame buffer. -/
def MyFrameBuf.cleared : MyFrameBuf := ⟨0, 0, 0, 0, 0, 0, .cleared⟩

/-- `FrameBuffer`, as it is registered with the VPU. -/
structure FrameBuffer where
  myIndex : ℕ
  bufY : UInt32
  bufCb : UInt32
  bufCr : UInt32
  strideY : ℤ
  strideC : ℤ
  deriving DecidableEq, Repr

/-- A cleared frame buffer entry. -/
def FrameBuffer.cleared : FrameBuffer := ⟨0, 0, 0, 0, 0, 0⟩

/-- The VPU library's `EncParam`, the parameters of one frame.
`sourceFrame` is the index of the frame buffer it points to. -/
structure VpuEncParam where
  sourceFrame : ℕ
  quantParam : ℤ
  forceIPicture : Bool
  skipPicture : Bool
  enableAutoSkip : Bool
  encLeftOffset : ℤ
  encTopOffset : ℤ
  deriving DecidableEq, Repr

/-- A cleared frame parameter. -/
def VpuEncParam.cleared : VpuEncParam := ⟨0, 0, false, false, false, 0, 0⟩

/-- A pointer into `myfbpool`, which has `NUM_FRAME_BUFS` elements. -/
abbrev BufId : Type := Fin 32

/-- `struct enc_handle`. -/
structure EncHandle where
  memDesc : VpuMemDesc
  phyBsbufAddr : UInt32
  virtBsbufAddr : UInt32
  minFbCount : ℕ
  totalfb : ℕ
  srcFbid : ℕ
  myfbarray : Fin 32 → Option BufId
  myfbpool : BufId → MyFrameBuf
  pfbpool : ℕ → Option BufId
  /-- masked with `FB_INDEX_MASK` -/
  myfbIndex : Fin 32
  fb : ℕ → FrameBuffer
  frameCounter : ℕ
  gopOffsetCounter : ℤ
  yuv420Imgsize : ℤ
  yAddr : UInt32
  mvcExtension : Bool
  encParam : VpuEncParam
  params : EncParam

/-- The handle as `encode_open` sets it up before it calls the VPU. -/
def clearedHandle (param : EncParam) : EncHandle where
  memDesc := .cleared
  phyBsbufAddr := 0
  virtBsbufAddr := 0
  minFbCount := 0
  totalfb := 0
  srcFbid := 0
  myfbarray := fun _ => none
  myfbpool := fun _ => .cleared
  pfbpool := fun _ => none
  myfbIndex := 0
  fb := fun _ => .cleared
  frameCounter := 0
  gopOffsetCounter := 0
  yuv420Imgsize := 0
  yAddr := 0
  mvcExtension := false
  encParam := .cleared
  params := param

/-! ## The platform -/

/-- `STREAM_BUF_SIZE`. -/
def streamBufSize : ℤ := 0x200000

/-- What the library calls of `encode_open` answer. The bitstream buffer is
memory request 0 and frame buffer `i` is request `i + 1`. -/
structure Env where
  malloc : Bool
  vpuInit : Bool
  versionInfo : Bool
  /-- `IOGetPhyMem`: the address, or a failure -/
  physMem : ℕ → Option UInt32
  /-- `IOGetVirtMem`: the address, 0 being a failure -/
  virtMem : ℕ → UInt32
  encOpen : Bool
  /-- `vpu_EncGetInitialInfo`: the `minFrameBufferCount`, or a failure -/
  initialInfo : Option ℕ
  callocFb : Bool
  callocPool : Bool
  registerFrameBuffer : Bool

/-- Every call succeeds, and every memory request is given four megabytes
of its own. -/
def Env.granting (minFbCount : ℕ) : Env where
  malloc := true
  vpuInit := true
  versionInfo := true
  physMem k := some (0x10000000 + UInt32.ofNat k * 0x400000)
  virtMem k := 0x60000000 + UInt32.ofNat k * 0x400000
  encOpen := true
  initialInfo := some minFbCount
  callocFb := true
  callocPool := true
  registerFrameBuffer := true

/-- What `encode_open` can hold. -/
inductive Resource where
  | handle
  | vpu
  | phys (addr : UInt32)
  | virt (addr : UInt32)
  | encInstance
  | fb
  | pfbpool
  deriving DecidableEq, Repr

/-- An entry of the log. -/
inductive Event where
  | acquire (r : Resource)
  | release (r : Resource)
  deriving DecidableEq, Repr

/-- The handle being opened, with the log so far. -/
structure Opening where
  handle : EncHandle
  log : List Event

namespace Opening

/-- A resource obtained. -/
def acquire (o : Opening) (r : Resource) : Opening := { o with log := o.log ++ [.acquire r] }

/-- A resource given back. -/
def release (o : Opening) (r : Resource) : Opening := { o with log := o.log ++ [.release r] }

/-- The handle changed. -/
def modify (o : Opening) (f : EncHandle → EncHandle) : Opening := { o with handle := f o.handle }

end Opening

/-! ## The frame-buffer pool -/

/-- `init_framebuf`. -/
def initFramebuf (h : EncHandle) : EncHandle :=
  { h with
    myfbarray := some
    myfbIndex := 0 }

/-- `get_framebuf`. -/
def getFramebuf (h : EncHandle) : EncHandle × Option BufId :=
  ({ h with
    myfbarray := Function.update h.myfbarray h.myfbIndex none
    myfbIndex := h.myfbIndex + 1 }, h.myfbarray h.myfbIndex)

/-- `put_framebuf`. -/
def putFramebuf (h : EncHandle) (myfb : BufId) : EncHandle :=
  { h with
    myfbIndex := h.myfbIndex - 1
    myfbarray := Function.update h.myfbarray (h.myfbIndex - 1) (some myfb) }

/-- A frame buffer of the pool changed. -/
def setFramebuf (i : BufId) (mfb : MyFrameBuf) (h : EncHandle) : EncHandle :=
  { h with myfbpool := Function.update h.myfbpool i mfb }

/-- `strideY / divX * height / divY`, both divisors being 2. -/
def chromaSize (strideY height : ℤ) : ℤ := (strideY.tdiv 2 * height).tdiv 2

/-- `desc.size` in `framebuf_alloc`. -/
def framebufSize (strideY height : ℤ) (mvCol : Bool) : ℤ :=
  strideY * height + chromaSize strideY height * 2 + if mvCol then chromaSize strideY height else 0

/-- The frame buffer laid out at a physical and a virtual address. The
address of the motion vectors stays as it was without `mvCol`. -/
def layoutFramebuf (mfb : MyFrameBuf) (strideY height : ℤ) (mvCol : Bool) (phys virt : UInt32) :
    MyFrameBuf :=
  let addrCb := phys + UInt32.ofInt (strideY * height)
  let addrCr := addrCb + UInt32.ofInt (chromaSize strideY height)
  { addrY := phys
    addrCb := addrCb
    addrCr := addrCr
    strideY := strideY
    strideC := strideY.tdiv 2
    mvColBuf := if mvCol then addrCr + UInt32.ofInt (chromaSize strideY height) else mfb.mvColBuf
    desc := ⟨framebufSize strideY height mvCol, phys, virt⟩ }

/-- `framebuf_alloc`, its memory request being number `k`. -/
def framebufAlloc (env : Env) (k : ℕ) (o : Opening) (strideY height : ℤ) (mvCol : Bool) :
    Opening × Option BufId :=
  let got := getFramebuf o.handle
  let o := o.modify fun _ => got.1
  match got.2 with
  | none => (o, none)
  | some i =>
    let mfb := o.handle.myfbpool i
    match env.physMem k with
    | none => (o.modify (setFramebuf i { mfb with desc := .cleared }), none)
    | some phys =>
      let o := o.acquire (.phys phys)
      let virt := env.virtMem k
      let mfb := layoutFramebuf mfb strideY height mvCol phys virt
      if virt = 0 then
        ((o.release (.phys phys)).modify (setFramebuf i { mfb with desc := .cleared }), none)
      else ((o.acquire (.virt virt)).modify (setFramebuf i mfb), some i)

/-- `framebuf_free`. -/
def framebufFree (o : Opening) (mfb : Option BufId) : Opening :=
  match mfb with
  | none => o
  | some i =>
    let desc := (o.handle.myfbpool i).desc
    let o := if desc.virtUaddr ≠ 0 then o.release (.virt desc.virtUaddr) else o
    let o := if desc.phyAddr ≠ 0 then o.release (.phys desc.phyAddr) else o
    let o := o.modify fun h => setFramebuf i { h.myfbpool i with desc := .cleared } h
    o.modify fun h => putFramebuf h i

/-! ## The frame buffers of an encoder -/

/-- `(x + 15) & ~15`. -/
def align16 (x : ℤ) : ℤ := (x + 15) / 16 * 16

/-- `pfbpool[i] = p`. -/
def setPfbpool (i : ℕ) (p : Option BufId) (h : EncHandle) : EncHandle :=
  { h with pfbpool := Function.update h.pfbpool i p }

/-- The assignments to `fb[i]` from the frame buffer at `b`. -/
def setFb (i : ℕ) (b : BufId) (h : EncHandle) : EncHandle :=
  let mfb := h.myfbpool b
  let entry : FrameBuffer := ⟨i, mfb.addrY, mfb.addrCb, mfb.addrCr, mfb.strideY, mfb.strideC⟩
  { h with fb := Function.update h.fb i entry }

/-- One allocation and what follows it: `false` where it failed. -/
def allocateOne (env : Env) (i : ℕ) (o : Opening) (width height : ℤ) : Opening × Bool :=
  let got := framebufAlloc env (i + 1) o width height false
  let o := got.1.modify (setPfbpool i got.2)
  match got.2 with
  | none => (o, false)
  | some b => (o.modify (setFb i b), true)

/-- The `for` loop over the `n` reconstruction and sub-sampling buffers
from index `i` on. -/
def allocateLoop (env : Env) (width height : ℤ) : ℕ → ℕ → Opening → Opening × Bool
  | 0, _, o => (o, true)
  | n + 1, i, o =>
    let got := allocateOne env i o width height
    if got.2 then allocateLoop env width height n (i + 1) got.1 else (got.1, false)

/-- The `for` loop at `err` and in `encoder_free_framebuffer`, from index
`i` on. -/
def freeLoop : ℕ → ℕ → Opening → Opening
  | 0, _, o => o
  | n + 1, i, o => freeLoop n (i + 1) (framebufFree o (o.handle.pfbpool i))

/-- `encoder_free_framebuffer`, and the exit `err` of
`encoder_allocate_framebuffer`. -/
def encoderFreeFramebuffer (o : Opening) : Opening :=
  ((freeLoop o.handle.totalfb 0 o).release .fb).release .pfbpool

/-- The number of sub-sampling buffers. -/
def extrafbcount (mvcExtension : Bool) : ℕ := if mvcExtension then 2 + 2 else 2

/-- The counts at the head of `encoder_allocate_framebuffer`. -/
def setFbCounts (h : EncHandle) : EncHandle :=
  let totalfb := h.minFbCount + extrafbcount h.mvcExtension + 1
  { h with
    totalfb := totalfb
    srcFbid := totalfb - 1 }

/-- `encoder_allocate_framebuffer`: `false` where it returns -1. -/
def encoderAllocateFramebuffer (env : Env) (o : Opening) : Opening × Bool :=
  let params := o.handle.params
  let o := o.modify setFbCounts
  if env.callocFb then
    let o := (o.acquire .fb).modify fun h => { h with fb := fun _ => .cleared }
    if env.callocPool then
      let o := (o.acquire .pfbpool).modify fun h => { h with pfbpool := fun _ => none }
      let enc := allocateLoop env (align16 params.encPicwidth) (align16 params.encPicheight)
        (o.handle.minFbCount + extrafbcount o.handle.mvcExtension) 0 o
      if enc.2 then
        if env.registerFrameBuffer then
          let src := allocateOne env o.handle.srcFbid enc.1 (align16 params.srcPicwidth)
            (align16 params.srcPicheight)
          if src.2 then (src.1, true) else (encoderFreeFramebuffer src.1, false)
        else (encoderFreeFramebuffer enc.1, false)
      else (encoderFreeFramebuffer enc.1, false)
    else (o.release .fb, false)
  else (o, false)

/-! ## `encode_open` -/

/-- The frame buffer the source picture is copied to. -/
def EncHandle.srcFramebuf (h : EncHandle) : Option MyFrameBuf :=
  (h.pfbpool h.srcFbid).map h.myfbpool

/-- The parameters `prepare_encode` gives every frame. -/
def frameParam (h : EncHandle) : VpuEncParam where
  sourceFrame := h.srcFbid
  quantParam := 23
  forceIPicture := false
  skipPicture := false
  enableAutoSkip := true
  encLeftOffset := 0
  encTopOffset := 0

/-- `prepare_encode`: `none` where it returns -1, its handle being freed
then. `encode_open` has filled the slot of the source picture. -/
def prepareEncode (h : EncHandle) : Option EncHandle :=
  match h.srcFramebuf with
  | none => none
  | some pfb =>
    if h.params.srcPicwidth ≠ pfb.strideY then none
    else
      let ySize := h.params.srcPicwidth * h.params.srcPicheight
      let h := { h with
        yuv420Imgsize := (ySize * 3).tdiv 2
        yAddr := pfb.addrY + pfb.desc.virtUaddr - pfb.desc.phyAddr
        encParam := frameParam h }
      if h.params.srcPicwidth < h.encParam.encLeftOffset + h.params.encPicwidth then none
      else if h.params.srcPicheight < h.encParam.encTopOffset + h.params.encPicheight then none
      else some h

/-- `encode_open` from `get_initinfo` on; the failures leave by `err2`. -/
def openFrames (env : Env) (o : Opening) : Option EncHandle × List Event :=
  let err2 (o : Opening) : Option EncHandle × List Event :=
    (none, ((o.release .encInstance).release .handle).log)
  match env.initialInfo with
  | none => err2 o
  | some minFbCount =>
    let o := o.modify fun h => { h with minFbCount := minFbCount }
    let o := o.modify initFramebuf
    let allocated := encoderAllocateFramebuffer env o
    if allocated.2 then
      match prepareEncode allocated.1.handle with
      | none => err2 allocated.1
      | some h => (some h, allocated.1.log)
    else err2 allocated.1

/-- `encode_open`, with what it acquired and released. -/
def encodeOpen (env : Env) (param : EncParam) : Option EncHandle × List Event :=
  if env.malloc then
    let o := (Opening.mk (clearedHandle param) []).acquire .handle
    if env.vpuInit then
      let o := o.acquire .vpu
      if env.versionInfo then
        match env.physMem 0 with
        | none => (none, o.log)
        | some phys =>
          let o := o.acquire (.phys phys)
          let virt := env.virtMem 0
          if virt = 0 then (none, (o.release (.phys phys)).log)
          else
            let o := o.acquire (.virt virt)
            let o := o.modify fun h => { h with
              memDesc := ⟨streamBufSize, phys, virt⟩
              virtBsbufAddr := virt
              phyBsbufAddr := phys }
            if env.encOpen then openFrames env (o.acquire .encInstance)
            else (none, (o.release .handle).log)
      else (none, (o.release .vpu).log)
    else (none, o.log)
  else (none, [])

/-- `encode_close`. -/
def encodeClose (o : Opening) : Opening :=
  let o := (encoderFreeFramebuffer o).release .encInstance
  let o := o.release (.virt o.handle.memDesc.virtUaddr)
  let o := o.release (.phys o.handle.memDesc.phyAddr)
  (o.release .vpu).release .handle

end Vpu

end Camkit
