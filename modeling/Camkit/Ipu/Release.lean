import Camkit.Ipu.Model.Convert
import Mathlib.Algebra.Order.Group.Multiset
import Mathlib.Tactic.Abel
/-!
# IPU converter — what is given back

`convert_close`, and `convert_open` where it fails, go by the handle: a
buffer whose address is not 0, a `paddr` that is not 0, a descriptor that is
not 0. That is what was taken only if nothing was refused: a failed `mmap`
leaves `MAP_FAILED` in the handle, a failed `IPU_ALLOC` the size it was asked
for, and a failed `open` a descriptor of -1.
-/

namespace Camkit

namespace Ipu

open Ledger (Entry Leaves Settled)
open SoftConvert (CvtParam)

variable {env : OpenEnv} {param : CvtParam} {o o' o'' : Opening} {h : CvtHandle}
variable {phys phys' : UInt32} {fd : ℕ}

/-! ## The parts of a handle -/

/-- Some of the things a handle is made of. -/
structure Parts where
  mapIn : Bool
  mapOut : Bool
  physOut : Bool
  physIn : Bool
  fd : Bool
  deriving DecidableEq

/-- The parts as resources, with the handle itself. -/
def CvtHandle.parts (h : CvtHandle) (p : Parts) : List Resource :=
  (if p.mapIn then [.mapping h.ipuInbuf h.ipuInsize] else []) ++
    (if p.mapOut then [.mapping h.ipuOutbuf h.ipuOutsize] else []) ++
    (if p.physOut then [.phys h.output.paddr] else []) ++
    (if p.physIn then [.phys h.input.paddr] else []) ++
    (if p.fd then [.fd h.fd] else []) ++ [.handle]

/-- The parts that closing goes by. -/
def CvtHandle.seen (h : CvtHandle) : Parts where
  mapIn := h.ipuInbuf ≠ 0
  mapOut := h.ipuOutbuf ≠ 0
  physOut := h.output.paddr ≠ 0
  physIn := h.input.paddr ≠ 0
  fd := h.fd ≠ 0

/-- **`convert_close`** gives back what it sees. -/
theorem ledger_convertClose :
    (convertClose o).ledger = o.ledger ++ (o.handle.parts o.handle.seen).map .release := by
  unfold convertClose closeFd freeIn freeOut unmapOut unmapIn CvtHandle.parts CvtHandle.seen
  by_cases hin : o.handle.ipuInbuf = 0 <;> by_cases hout : o.handle.ipuOutbuf = 0 <;>
    by_cases hpout : o.handle.output.paddr = 0 <;> by_cases hpin : o.handle.input.paddr = 0 <;>
    by_cases hfd : o.handle.fd = 0 <;>
    simp [hin, hout, hpout, hpin, hfd, Opening.release, Opening.modify]

theorem coe_parts {p : Parts} : (h.parts p : Multiset Resource) =
    (if p.mapIn then {.mapping h.ipuInbuf h.ipuInsize} else 0) +
      (if p.mapOut then {.mapping h.ipuOutbuf h.ipuOutsize} else 0) +
      (if p.physOut then {.phys h.output.paddr} else 0) +
      (if p.physIn then {.phys h.input.paddr} else 0) + (if p.fd then {.fd h.fd} else 0) +
      {.handle} := by
  obtain ⟨mapIn, mapOut, physOut, physIn, fd⟩ := p
  cases mapIn <;> cases mapOut <;> cases physOut <;> cases physIn <;> cases fd <;> rfl

/-! How many mappings, physical blocks and descriptors there are among some
parts. -/

section Counting

variable {p q : Parts}

/-- What is told apart to count the parts. -/
inductive Kind where
  | handle
  | fd
  | phys
  | mapping
  deriving DecidableEq

/-- The kind of a resource. -/
def Resource.kind : Resource → Kind
  | .handle => .handle
  | .fd _ => .fd
  | .phys _ => .phys
  | .mapping _ _ => .mapping

theorem count_kind_parts : ((h.parts p).map Resource.kind).count .mapping =
      p.mapIn.toNat + p.mapOut.toNat ∧
    ((h.parts p).map Resource.kind).count .phys = p.physOut.toNat + p.physIn.toNat ∧
    ((h.parts p).map Resource.kind).count .fd = p.fd.toNat := by
  obtain ⟨mapIn, mapOut, physOut, physIn, fd⟩ := p
  cases mapIn <;> cases mapOut <;> cases physOut <;> cases physIn <;> cases fd <;>
    exact ⟨rfl, rfl, rfl⟩

/-- Equal parts are equally many of each kind. -/
theorem counts_eq (heq : (h.parts p : Multiset Resource) = h.parts q) :
    p.mapIn.toNat + p.mapOut.toNat = q.mapIn.toNat + q.mapOut.toNat ∧
      p.physOut.toNat + p.physIn.toNat = q.physOut.toNat + q.physIn.toNat ∧
      p.fd.toNat = q.fd.toNat := by
  have hperm := (Multiset.coe_eq_coe.mp heq).map Resource.kind
  obtain ⟨hmap, hphys, hfd⟩ := count_kind_parts (h := h) (p := p)
  obtain ⟨hmap', hphys', hfd'⟩ := count_kind_parts (h := h) (p := q)
  refine ⟨?_, ?_, ?_⟩
  · rw [← hmap, ← hmap', hperm.count_eq]
  · rw [← hphys, ← hphys', hperm.count_eq]
  · rw [← hfd, ← hfd', hperm.count_eq]

end Counting

/-- **Closing settles** where what is seen is what is held. -/
theorem settled_convertClose {p : Parts} (ho : Leaves o.ledger (o.handle.parts p)) :
    Settled (convertClose o).ledger ↔
      (o.handle.parts p : Multiset Resource) = o.handle.parts o.handle.seen := by
  rw [ledger_convertClose, Settled, ho.release_list_iff, Multiset.add_zero]

/-! ## Opening -/

/-- The handle is cleared but for its descriptor and the pictures. -/
structure Bare (o : Opening) : Prop where
  held : Leaves o.ledger (o.handle.parts ⟨false, false, false, false, true⟩)
  ipuInbuf : o.handle.ipuInbuf = 0
  ipuOutbuf : o.handle.ipuOutbuf = 0
  outPaddr : o.handle.output.paddr = 0

/-- The input is there; a mapping that failed is there as `MAP_FAILED`. -/
structure InputOpen (env : OpenEnv) (o o' : Opening) (phys : UInt32) : Prop where
  held : Leaves o'.ledger (o'.handle.parts ⟨(env.mmapIn phys).isSome, false, false, true, true⟩)
  ipuInbuf : o'.handle.ipuInbuf = mmapReturns (env.mmapIn phys)
  ipuOutbuf : o'.handle.ipuOutbuf = 0
  physIn : o'.handle.input.paddr = phys
  ipuInsize : o'.handle.ipuInsize = o.handle.input.size.toInt32.toInt
  output : o'.handle.output = o.handle.output
  fd : o'.handle.fd = o.handle.fd

theorem mmapReturns_ne_zero (got : Option Address) : mmapReturns got ≠ 0 := by
  cases got with
  | none => decide
  | some a => exact a.2.1

theorem mmapReturns_ne_mapFailed {got : Option Address} :
    mmapReturns got ≠ mapFailed ↔ got.isSome = true := by
  cases got with
  | none => simp [mmapReturns]
  | some a => simp [mmapReturns, a.2.2]

/-- A mapping taken, where there is one. -/
theorem leaves_acquireMapping {held : Multiset Resource} {size : ℤ} (ho : Leaves o.ledger held)
    (got : Option Address) : Leaves (o.acquireMapping got size).ledger
      ((if got.isSome then {.mapping (mmapReturns got) size} else 0) + held) := by
  cases got with
  | none =>
    rw [if_neg (by simp), Multiset.zero_add]
    exact (congrArg (Leaves · held) (List.append_nil o.ledger)).mpr ho
  | some a => exact ho.acquire (.mapping a.1 size)

/-- **The input**: it fails with the size in `paddr`, or is there. -/
theorem openInput_spec (env : OpenEnv) (ho : Bare o) :
    (env.allocIn o.handle.input.size = none ∧
      openInput env o = (o.modify sizeIn, false)) ∨
    ∃ phys, env.allocIn o.handle.input.size = some phys ∧ (openInput env o).2 = true ∧
      InputOpen env o (openInput env o).1 phys := by
  have hsize : (o.modify sizeIn).handle.input.paddr = o.handle.input.size := rfl
  unfold openInput
  simp only [hsize]
  cases halloc : env.allocIn o.handle.input.size with
  | none => exact .inl ⟨rfl, rfl⟩
  | some phys =>
    refine .inr ⟨phys, rfl, decide_eq_true (mmapReturns_ne_zero _), ?_, rfl, ho.ipuOutbuf, rfl,
      rfl, rfl, rfl⟩
    have hphys : Leaves (o.acquire (.phys phys)).ledger _ := ho.held.acquire (.phys phys)
    refine (congrArg (Leaves _) ?_).mp (leaves_acquireMapping hphys (env.mmapIn phys))
    rw [coe_parts, coe_parts, ← Multiset.singleton_add]
    simp only [Bool.false_eq_true, if_true, if_false]
    simp only [Opening.modify, Opening.acquire, Opening.acquireMapping, sizeIn]
    abel

/-- The handle is open, whatever `mmap` returned. -/
structure HandleOpen (env : OpenEnv) (o o' : Opening) (phys phys' : UInt32) : Prop where
  held : Leaves o'.ledger
    (o'.handle.parts ⟨(env.mmapIn phys).isSome, (env.mmapOut phys').isSome, true, true, true⟩)
  ipuInbuf : o'.handle.ipuInbuf = mmapReturns (env.mmapIn phys)
  ipuOutbuf : o'.handle.ipuOutbuf = mmapReturns (env.mmapOut phys')
  ipuInsize : o'.handle.ipuInsize = o.handle.input.size.toInt32.toInt
  ipuOutsize : o'.handle.ipuOutsize = o.handle.output.size.toInt32.toInt

/-- **The output**: it fails as the input does, or the handle is open. -/
theorem openOutput_spec (ho : InputOpen env o o' phys) :
    (env.allocOut o.handle.output.size = none ∧
      openOutput env o' = (o'.modify sizeOut, false)) ∨
    ∃ phys', env.allocOut o.handle.output.size = some phys' ∧ (openOutput env o').2 = true ∧
      HandleOpen env o (openOutput env o').1 phys phys' := by
  have hsize : (o'.modify sizeOut).handle.output.paddr = o.handle.output.size := by
    rw [← ho.output]
    rfl
  unfold openOutput
  simp only [hsize]
  cases halloc : env.allocOut o.handle.output.size with
  | none => exact .inl ⟨rfl, rfl⟩
  | some phys' =>
    refine .inr ⟨phys', rfl, rfl, ?_, ho.ipuInbuf, rfl, ho.ipuInsize, ?_⟩
    · have hphys : Leaves (o'.acquire (.phys phys')).ledger _ := ho.held.acquire (.phys phys')
      refine (congrArg (Leaves _) ?_).mp (leaves_acquireMapping hphys (env.mmapOut phys'))
      rw [coe_parts, coe_parts, ← Multiset.singleton_add]
      simp only [Bool.false_eq_true, if_true, if_false]
      simp only [Opening.modify, Opening.acquire, Opening.acquireMapping, sizeOut]
      abel
    · exact congrArg (fun p : Picture => p.size.toInt32.toInt) ho.output

/-- The pictures of the parameters. -/
def inputOf (param : CvtParam) : Picture := (setTask (clearedHandle param)).input

def outputOf (param : CvtParam) : Picture := (setTask (clearedHandle param)).output

/-- The device is open, and the pictures are those of the parameters. -/
structure DeviceOpen (param : CvtParam) (fd : ℕ) (o : Opening) : Prop extends Bare o where
  fd : o.handle.fd = fd
  input : o.handle.input = inputOf param
  output : o.handle.output = outputOf param

/-- **`convert_open`**, by where it ends. -/
theorem convertOpen_cases (env : OpenEnv) (param : CvtParam) :
    (env.malloc = false ∧ convertOpen env param = (none, [])) ∨
    (env.malloc = true ∧ env.openDevice = none ∧ (convertOpen env param).1 = none ∧
      ¬ Settled (convertOpen env param).2) ∨
    (env.malloc = true ∧ ∃ fd o, env.openDevice = some fd ∧ DeviceOpen param fd o ∧
      ((env.allocIn (inputOf param).size = none ∧
        convertOpen env param = (none, (convertClose (o.modify sizeIn)).ledger)) ∨
      ∃ phys o', env.allocIn (inputOf param).size = some phys ∧ InputOpen env o o' phys ∧
        ((env.allocOut (outputOf param).size = none ∧
          convertOpen env param = (none, (convertClose (o'.modify sizeOut)).ledger)) ∨
        ∃ phys' o'', HandleOpen env o o'' phys phys' ∧
          convertOpen env param = (some o''.handle, o''.ledger)))) := by
  cases hmalloc : env.malloc with
  | false => exact .inl ⟨rfl, by simp [convertOpen, hmalloc]⟩
  | true =>
    cases hdev : env.openDevice with
    | none =>
      refine .inr (.inl ⟨rfl, rfl, ?_, ?_⟩)
      · simp [convertOpen, hmalloc, hdev]
      · -- the descriptor of -1 cannot be closed
        have hlog : (convertOpen env param).2 =
            [.acquire .handle, .release (.fd (-1)), .release .handle] := by
          simp [convertOpen, hmalloc, hdev, convertClose, closeFd, freeIn, freeOut, unmapOut,
            unmapIn, Opening.acquire, Opening.release, Opening.modify, clearedHandle]
        rw [hlog]
        decide
    | some fd =>
      set o := (((Opening.mk (clearedHandle param) []).acquire .handle).acquire
        (.fd fd)).modify (fun h => setTask { h with fd := fd }) with ho
      have hopen : convertOpen env param =
          if (openInput env o).2 then
            if (openOutput env (openInput env o).1).2 then
              (some (openOutput env (openInput env o).1).1.handle,
                (openOutput env (openInput env o).1).1.ledger)
            else (none, (convertClose (openOutput env (openInput env o).1).1).ledger)
          else (none, (convertClose (openInput env o).1).ledger) := by
        unfold convertOpen
        rw [if_pos hmalloc, hdev]
      have hbare : Bare o := ⟨rfl, rfl, rfl, rfl⟩
      refine .inr (.inr ⟨rfl, fd, o, rfl, ⟨hbare, rfl, rfl, rfl⟩, ?_⟩)
      rcases openInput_spec env hbare with ⟨hnone, heq⟩ | ⟨phys, hphys, htrue, hin⟩
      · refine .inl ⟨hnone, ?_⟩
        rw [hopen, heq, if_neg (by simp)]
      · refine .inr ⟨phys, _, hphys, hin, ?_⟩
        rw [if_pos htrue] at hopen
        rcases openOutput_spec hin with ⟨hnone, heq⟩ | ⟨phys', -, htrue', hout⟩
        · refine .inl ⟨hnone, ?_⟩
          rw [hopen, heq, if_neg (by simp)]
        · refine .inr ⟨phys', _, hout, ?_⟩
          rw [hopen, if_pos htrue']

/-! ## Where opening fails -/

/-- `IPU_ALLOC` of the input refused: its size would be freed, unless it is
0, and the descriptor is closed, unless it is 0. -/
theorem settled_of_inputRefused (ho : Bare o) :
    Settled (convertClose (o.modify sizeIn)).ledger ↔
      o.handle.input.size = 0 ∧ o.handle.fd ≠ 0 := by
  have hheld : Leaves (o.modify sizeIn).ledger
      ((o.modify sizeIn).handle.parts ⟨false, false, false, false, true⟩) := ho.held
  rw [settled_convertClose hheld]
  have hseen : (o.modify sizeIn).handle.seen =
      ⟨false, false, false, o.handle.input.size ≠ 0, o.handle.fd ≠ 0⟩ := by
    simp [CvtHandle.seen, Opening.modify, sizeIn, ho.ipuInbuf, ho.ipuOutbuf, ho.outPaddr]
  rw [hseen]
  constructor
  · intro heq
    obtain ⟨-, hphys, hfd⟩ := counts_eq heq
    constructor
    · by_contra hsize
      simp [hsize] at hphys
    · intro hzero
      simp [hzero] at hfd
  · rintro ⟨hsize, hfd⟩
    simp [hsize, hfd]

/-- `IPU_ALLOC` of the output refused. -/
theorem settled_of_outputRefused (ho : InputOpen env o o' phys) :
    Settled (convertClose (o'.modify sizeOut)).ledger ↔
      o.handle.output.size = 0 ∧ o.handle.fd ≠ 0 ∧ phys ≠ 0 ∧
        (env.mmapIn phys).isSome = true := by
  have hheld : Leaves (o'.modify sizeOut).ledger ((o'.modify sizeOut).handle.parts
      ⟨(env.mmapIn phys).isSome, false, false, true, true⟩) := ho.held
  rw [settled_convertClose hheld]
  have hsize : (o'.modify sizeOut).handle.output.paddr = o.handle.output.size := by
    rw [← ho.output]
    rfl
  have hin : (o'.modify sizeOut).handle.input.paddr = phys := ho.physIn
  have hseen : (o'.modify sizeOut).handle.seen =
      ⟨true, false, o.handle.output.size ≠ 0, phys ≠ 0, o.handle.fd ≠ 0⟩ := by
    have hbuf : o'.handle.ipuInbuf ≠ 0 := ho.ipuInbuf ▸ mmapReturns_ne_zero _
    rw [CvtHandle.seen, hsize, hin, ← ho.fd]
    simp [Opening.modify, sizeOut, hbuf, ho.ipuOutbuf]
  rw [hseen]
  constructor
  · intro heq
    obtain ⟨hmap, hphys, hfd⟩ := counts_eq heq
    have hfd : o.handle.fd ≠ 0 := by
      intro hzero
      simp [hzero] at hfd
    have hmap : (env.mmapIn phys).isSome = true := by
      by_contra hnone
      simp [hnone] at hmap
    have hzero : o.handle.output.size = 0 := by
      by_contra hsize'
      -- one block too many, or the wrong one
      by_cases hphys0 : phys = 0
      · have hmem : Resource.phys (o'.modify sizeOut).handle.output.paddr ∈
            ((o'.modify sizeOut).handle.parts
              ⟨(env.mmapIn phys).isSome, false, false, true, true⟩ : Multiset Resource) := by
          rw [heq, Multiset.mem_coe]
          simp [CvtHandle.parts, hsize']
        rw [Multiset.mem_coe] at hmem
        simp only [CvtHandle.parts, hin, hsize, hphys0] at hmem
        simp [hsize'] at hmem
      · simp [hsize', hphys0] at hphys
    refine ⟨hzero, hfd, ?_, hmap⟩
    intro hphys0
    simp [hzero, hphys0] at hphys
  · rintro ⟨hzero, hfd, hphys, hmap⟩
    simp [hzero, hfd, hphys, hmap]

/-- **A failed `convert_open` gives back what it took, and nothing else,
only where the handle itself was refused, or an empty picture.** The sizes
are those of the pictures asked for, and the descriptor is not 0. -/
theorem settled_convertOpen_iff (hfail : (convertOpen env param).1 = none) :
    Settled (convertOpen env param).2 ↔ env.malloc = false ∨
      ∃ fd, env.openDevice = some fd ∧ fd ≠ 0 ∧
        (((inputOf param).size = 0 ∧ env.allocIn 0 = none) ∨
        ((outputOf param).size = 0 ∧ env.allocOut 0 = none ∧
          ∃ phys, env.allocIn (inputOf param).size = some phys ∧ phys ≠ 0 ∧
            (env.mmapIn phys).isSome = true)) := by
  rcases convertOpen_cases env param with ⟨hmalloc, heq⟩ | ⟨hmalloc, hdev, -, hnot⟩ |
    ⟨hmalloc, fd, o, hdev, ho, hrest⟩
  · rw [heq]
    exact ⟨fun _ => .inl hmalloc, fun _ => Ledger.leaves_nil⟩
  · constructor
    · intro hsettled
      exact absurd hsettled hnot
    · rintro (hfalse | ⟨fd, hfd, -⟩)
      · exact absurd (hmalloc.symm.trans hfalse) (by decide)
      · exact absurd (hdev.symm.trans hfd) (by simp)
  · have hfd : o.handle.fd ≠ 0 ↔ fd ≠ 0 := by
      rw [ho.fd]
      exact Int.natCast_ne_zero
    rcases hrest with ⟨hnone, heq⟩ | ⟨phys, o', hphys, hin, hrest⟩
    · rw [heq, settled_of_inputRefused ho.toBare, hfd, ho.input]
      constructor
      · rintro ⟨hsize, hne⟩
        exact .inr ⟨fd, hdev, hne, .inl ⟨hsize, hsize ▸ hnone⟩⟩
      · rintro (hfalse | ⟨fd', hdev', hne, hcase⟩)
        · exact absurd (hmalloc.symm.trans hfalse) (by decide)
        · obtain rfl := Option.some.inj (hdev.symm.trans hdev')
          rcases hcase with ⟨hsize, -⟩ | ⟨-, -, phys, hphys, -⟩
          · exact ⟨hsize, hne⟩
          · exact absurd (hnone.symm.trans hphys) (by simp)
    · rcases hrest with ⟨hnone, heq⟩ | ⟨phys', o'', hopen, heq⟩
      · rw [heq, settled_of_outputRefused hin, hfd, ho.output]
        constructor
        · rintro ⟨hsize, hne, hphys0, hmap⟩
          exact .inr ⟨fd, hdev, hne, .inr ⟨hsize, hsize ▸ hnone, phys, hphys, hphys0, hmap⟩⟩
        · rintro (hfalse | ⟨fd', hdev', hne, hcase⟩)
          · exact absurd (hmalloc.symm.trans hfalse) (by decide)
          · obtain rfl := Option.some.inj (hdev.symm.trans hdev')
            rcases hcase with ⟨hsize, hnone'⟩ | ⟨hsize, -, phys₁, hphys₁, hphys0, hmap⟩
            · exact absurd (hnone'.symm.trans (hsize ▸ hphys)) (by simp)
            · obtain rfl := Option.some.inj (hphys.symm.trans hphys₁)
              exact ⟨hsize, hne, hphys0, hmap⟩
      · rw [heq] at hfail
        exact absurd hfail (by simp)

/-- A converter without memory for a second picture. -/
def withoutOutput : OpenEnv := { OpenEnv.granting with allocOut := fun _ => none }

/-- Its `IPU_FREE` of the size asked for is one too many. -/
theorem settled_convertOpen_iff_withoutOutput :
    let param : CvtParam := ⟨640, 480, 0x56595559, 640, 480, 0x32315559⟩
    Settled (convertOpen withoutOutput param).2 ↔ withoutOutput.malloc = false ∨
      ∃ fd, withoutOutput.openDevice = some fd ∧ fd ≠ 0 ∧
        (((inputOf param).size = 0 ∧ withoutOutput.allocIn 0 = none) ∨
        ((outputOf param).size = 0 ∧ withoutOutput.allocOut 0 = none ∧
          ∃ phys, withoutOutput.allocIn (inputOf param).size = some phys ∧ phys ≠ 0 ∧
            (withoutOutput.mmapIn phys).isSome = true)) :=
  settled_convertOpen_iff rfl

/-! ## A life -/

/-- A picture has fewer bytes than an `int` can say. -/
theorem toInt_size (p : Picture) : p.size.toInt32.toInt = p.size.toNat := by
  have hdiv : p.size.toNat = (p.width * p.height * fmt2bpp p.format).toNat / 8 := by
    rw [Picture.size, UInt32.toNat_div]
    rfl
  have hlt := (p.width * p.height * fmt2bpp p.format).toNat_lt
  exact BitVec.toInt_eq_toNat_of_lt (by rw [UInt32.toBitVec_toInt32, UInt32.toNat_toBitVec]; omega)

/-- **An open handle** has the sizes of its pictures. -/
theorem handleOpen_of_open (hopen : (convertOpen env param).1 = some h) :
    ∃ o o'' phys phys', HandleOpen env o o'' phys phys' ∧ o''.handle = h ∧
      o''.ledger = (convertOpen env param).2 ∧ h.ipuInsize = (inputOf param).size.toNat ∧
      h.ipuOutsize = (outputOf param).size.toNat := by
  rcases convertOpen_cases env param with ⟨-, heq⟩ | ⟨-, -, hnone, -⟩ | ⟨-, fd, o, -, ho, hrest⟩
  · exact absurd (heq ▸ hopen) (by simp)
  · exact absurd (hnone.symm.trans hopen) (by simp)
  · rcases hrest with ⟨-, heq⟩ | ⟨phys, o', -, -, ⟨-, heq⟩ | ⟨phys', o'', hout, heq⟩⟩
    · exact absurd (heq ▸ hopen) (by simp)
    · exact absurd (heq ▸ hopen) (by simp)
    · rw [heq] at hopen ⊢
      obtain rfl := Option.some.inj hopen
      refine ⟨o, o'', phys, phys', hout, rfl, rfl, ?_, ?_⟩
      · rw [hout.ipuInsize, ho.input, toInt_size]
      · rw [hout.ipuOutsize, ho.output, toInt_size]

/-- What is held was all had: nothing was refused, and neither the
descriptor nor a physical address is 0. -/
def CvtHandle.Whole (h : CvtHandle) : Prop :=
  h.fd ≠ 0 ∧ h.input.paddr ≠ 0 ∧ h.output.paddr ≠ 0 ∧ h.ipuInbuf ≠ mapFailed ∧
    h.ipuOutbuf ≠ mapFailed

theorem toNat_add_eq_two {b c : Bool} (h : b.toNat + c.toNat = 2) : b = true ∧ c = true := by
  cases b <;> cases c <;> simp_all

/-- **Closing an open handle.** -/
theorem HandleOpen.settled_iff (ho : HandleOpen env o o'' phys phys') :
    Settled (convertClose o'').ledger ↔ o''.handle.Whole := by
  have hseen : o''.handle.seen = ⟨true, true, o''.handle.output.paddr ≠ 0,
      o''.handle.input.paddr ≠ 0, o''.handle.fd ≠ 0⟩ := by
    have hin : o''.handle.ipuInbuf ≠ 0 := ho.ipuInbuf ▸ mmapReturns_ne_zero _
    have hout : o''.handle.ipuOutbuf ≠ 0 := ho.ipuOutbuf ▸ mmapReturns_ne_zero _
    simp [CvtHandle.seen, hin, hout]
  rw [settled_convertClose ho.held, hseen, CvtHandle.Whole, ho.ipuInbuf, ho.ipuOutbuf,
    mmapReturns_ne_mapFailed, mmapReturns_ne_mapFailed]
  constructor
  · intro heq
    obtain ⟨hmap, hphys, hfd⟩ := counts_eq heq
    obtain ⟨hin, hout⟩ := toNat_add_eq_two hmap
    obtain ⟨hpout, hpin⟩ := toNat_add_eq_two hphys.symm
    refine ⟨?_, of_decide_eq_true hpin, of_decide_eq_true hpout, hin, hout⟩
    intro hzero
    simp [hzero] at hfd
  · rintro ⟨hfd, hpin, hpout, hin, hout⟩
    simp [hfd, hpin, hpout, hin, hout]

/-- A conversion writes to a mapping that is held, and returns one. -/
def DoResult.Within (held : Multiset Resource) (r : DoResult) : Prop :=
  .mapping r.dst r.copied ∈ held ∧ ∀ x ∈ r.out, .mapping x.1 x.2 ∈ held

/-- Images of another size end the process. -/
theorem ilen_of_run {calls : List (ℤ × Bool)} {h' : CvtHandle} {results : List DoResult}
    (hrun : conversions.run h calls = some (h', results)) :
    h' = h ∧ ∀ c ∈ calls, c.1 = h.ipuInsize := by
  induction calls generalizing results with
  | nil =>
    obtain ⟨rfl, -⟩ := Prod.mk.inj (Option.some.inj hrun)
    exact ⟨rfl, fun c hc => absurd hc List.not_mem_nil⟩
  | cons c calls ih =>
    obtain ⟨h₁, r, rs, hstep, hrest, -⟩ := Machine.run_cons.mp hrun
    rw [conversions] at hstep
    simp only [convertDo] at hstep
    split at hstep
    · exact absurd hstep (by simp)
    · rename_i r' hdo
      obtain ⟨rfl, -⟩ := Prod.mk.inj (Option.some.inj hstep)
      obtain ⟨rfl, hcalls⟩ := ih hrest
      refine ⟨rfl, List.forall_mem_cons.mpr ⟨?_, hcalls⟩⟩
      by_contra hne
      rw [if_pos hne] at hdo
      exact absurd hdo (by simp)

/-- Images of the right size are converted, if the input is mapped. -/
theorem run_of_ilen {held : Multiset Resource} (hin : h.ipuInbuf ≠ mapFailed)
    (hheldIn : .mapping h.ipuInbuf h.ipuInsize ∈ held)
    (hheldOut : .mapping h.ipuOutbuf h.ipuOutsize ∈ held) {calls : List (ℤ × Bool)}
    (hcalls : ∀ c ∈ calls, c.1 = h.ipuInsize) :
    ∃ results, conversions.run h calls = some (h, results) ∧ ∀ r ∈ results, r.Within held := by
  induction calls with
  | nil => exact ⟨[], rfl, fun r hr => absurd hr List.not_mem_nil⟩
  | cons c calls ih =>
    obtain ⟨hc, hrest⟩ := List.forall_mem_cons.mp hcalls
    obtain ⟨results, hrun, hwithin⟩ := ih hrest
    have hstep : conversions.step h c = some (h, ⟨h.ipuInbuf, h.ipuInsize,
        if c.2 then some (h.ipuOutbuf, h.ipuOutsize) else none⟩) := by
      rw [conversions]
      simp only [convertDo]
      rw [if_neg (not_not_intro hc), if_neg fun hand => hin hand.1]
    refine ⟨_, Machine.run_cons.mpr ⟨_, _, _, hstep, hrun, rfl⟩,
      List.forall_mem_cons.mpr ⟨⟨hheldIn, ?_⟩, hwithin⟩⟩
    intro x hx
    simp only at hx
    split at hx
    · obtain rfl := Option.some.inj hx
      exact hheldOut
    · exact absurd hx (by simp)

/-- **From `convert_open` to `convert_close`.** Every image of a series is
converted, from one mapping that is held to another, and closing the handle
gives back what opening it took, each thing once and nothing else, if and
only if each image has the size of the input picture and nothing that
`convert_open` asked for was refused or put at 0; `convert_open` itself does
not tell. -/
theorem sound_of_life_iff (hopen : (convertOpen env param).1 = some h)
    (calls : List (ℤ × Bool)) :
    (∃ held h' results, Leaves (convertOpen env param).2 held ∧
      conversions.run h calls = some (h', results) ∧ (∀ r ∈ results, r.Within held) ∧
      Settled (convertClose ⟨h', (convertOpen env param).2⟩).ledger) ↔
    (∀ c ∈ calls, c.1 = (inputOf param).size.toNat) ∧ h.Whole := by
  obtain ⟨o, o'', phys, phys', hout, rfl, hledger, hin, -⟩ := handleOpen_of_open hopen
  have hheld := hout.held
  have hsettled := hout.settled_iff
  rw [hledger] at hheld
  rw [← hin, ← hledger]
  constructor
  · rintro ⟨held, h', results, -, hrun, -, hclose⟩
    obtain ⟨rfl, hcalls⟩ := ilen_of_run hrun
    exact ⟨hcalls, hsettled.mp hclose⟩
  · rintro ⟨hcalls, hwhole⟩
    have hbufIn := hwhole.2.2.2.1
    have hbufOut := hwhole.2.2.2.2
    have hmapIn : (env.mmapIn phys).isSome = true := by
      rwa [hout.ipuInbuf, mmapReturns_ne_mapFailed] at hbufIn
    have hmapOut : (env.mmapOut phys').isSome = true := by
      rwa [hout.ipuOutbuf, mmapReturns_ne_mapFailed] at hbufOut
    have hmem : ∀ r ∈ o''.handle.parts ⟨true, true, true, true, true⟩,
        r ∈ (o''.handle.parts ⟨(env.mmapIn phys).isSome, (env.mmapOut phys').isSome, true, true,
          true⟩ : Multiset Resource) := by
      rw [hmapIn, hmapOut]
      exact fun r hr => hr
    obtain ⟨results, hrun, hwithin⟩ := run_of_ilen hbufIn
      (hmem _ (by simp [CvtHandle.parts])) (hmem _ (by simp [CvtHandle.parts])) hcalls
    exact ⟨_, _, results, hledger ▸ hheld, hrun, hwithin, hsettled.mpr hwhole⟩

/-- Two images of a converter that was given everything. -/
theorem sound_of_life_iff_granting :
    let param : CvtParam := ⟨640, 480, 0x56595559, 640, 480, 0x32315559⟩
    let calls : List (ℤ × Bool) := [(614400, true), (614400, false)]
    ∃ h, (convertOpen .granting param).1 = some h ∧
      ((∃ held h' results, Leaves (convertOpen .granting param).2 held ∧
        conversions.run h calls = some (h', results) ∧ (∀ r ∈ results, r.Within held) ∧
        Settled (convertClose ⟨h', (convertOpen .granting param).2⟩).ledger) ↔
      (∀ c ∈ calls, c.1 = (inputOf param).size.toNat) ∧ h.Whole) :=
  ⟨_, rfl, sound_of_life_iff rfl _⟩

end Ipu

end Camkit
