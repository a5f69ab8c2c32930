import Camkit.Cktool.Delivery
import Camkit.RtpPack.Datagrams
import Camkit.RtpPack.Length
/-!
# The tool — the file and the packets

The two sinks of the loop. Without the packetiser the output file is the
byte stream of the units delivered. With it the packets, in the order they
are sent or written, are received as those units, whatever lies behind the
start codes: the handle goes on from buffer to buffer with its numbering.
-/

namespace Camkit

namespace Cktool

open RtpPack

variable {o : Options} {T : Target} {fuel n : ℕ} {its : List Iteration} {mem : Mem}
variable {pac : PacHandle} {h : Vpu.EncHandle} {us us' : List (StartCode × NalUnit)} {b : Buffer}
variable {clock : ℕ → Timeb} {coded : Iteration → Units} {param : Vpu.EncParam}
variable {openEnv : Vpu.Env} {seq : UInt16} {params : PacParam} {outbuf : Mem} {tb : Timeb}

/-- The bytes given away. -/
def Output.bytes : Output → List UInt8
  | .file bytes => bytes
  | .net bytes => bytes

/-! ## The output file -/

theorem annexB_append (us us' : List (StartCode × NalUnit)) :
    annexB (us ++ us') = annexB us ++ annexB us' := by
  induction us with
  | nil => rfl
  | cons u us ih =>
    rw [List.cons_append, annexB, annexB, ih]
    simp only [List.append_assoc]

theorem annexB_ne_nil (hne : us ≠ []) : annexB us ≠ [] := by
  obtain ⟨⟨c, u⟩, us, rfl⟩ := List.exists_cons_of_ne_nil hne
  rw [annexB, List.append_assoc]
  exact List.append_ne_nil_of_left_ne_nil (List.ne_nil_of_length_pos (by
    have := c.length_pos
    omega)) _

theorem bytes_of_holds (hb : b.Holds us) : b.bytes = annexB us := by
  obtain ⟨-, a, haddr, hlen, hmem⟩ := hb
  rw [Buffer.bytes, haddr, hlen]
  exact hmem

/-- The file is a sink: it holds the byte stream of the units. -/
theorem sink_file (h₄ : o.stage &&& 4 = 0) (hout : o.outfd = true) :
    Sink o T fuel fun _ outs us => ∃ ws : List (List UInt8),
      outs = ws.map Output.file ∧ ws.flatten = annexB us := by
  rintro pac outs us b us' clock ⟨ws, rfl, hws⟩ hb -
  refine ⟨pac, [.file b.bytes], ?_, ws ++ [b.bytes], ?_, ?_⟩
  · rw [pass, if_pos h₄, Options.write, if_pos hout]
  · rw [List.map_append]
    rfl
  · rw [List.flatten_append, hws, annexB_append, bytes_of_holds hb, List.flatten_singleton]

/-! ## From buffer to buffer -/

/-- **The handle after a drain**: the session is the one it was, and the
sequence number has moved on by the packets sent. -/
theorem runs_drain {s : Session} {ph : RtpPack.Phase} (hr : Runs s seq pac)
    (hp : InPhase s pac ph) :
    Runs s (seq + UInt16.ofNat (drain T mem n clock pac).packets.length)
      (drain T mem n clock pac).handle := by
  induction n generalizing pac seq ph clock with
  | zero => exact (UInt16.add_zero seq).symm ▸ hr
  | succ n ih =>
    have hmatch : Matches T s seq (packGet T mem (clock 0) pac) _ := packGet_refines hr hp
    rw [drain]
    generalize packGet T mem (clock 0) pac = code at hmatch ⊢
    generalize s.get T mem (clock 0) seq ph = sender at hmatch
    cases hmatch with
    | fault f => exact (UInt16.add_zero seq).symm ▸ hr
    | zero runs phase => exact (UInt16.add_zero seq).symm ▸ runs
    | sent runs phase wire hseq hts =>
      rw [List.length_cons, ← seq_add_succ]
      exact ih runs phase

theorem seq_stamp {ts : UInt32} {l : List (Bool × List UInt8)} {i : ℕ} {p : Packet}
    (hi : (stamp ts seq l)[i]? = some p) : p.seq = seq + UInt16.ofNat i := by
  induction l generalizing seq i with
  | nil => exact absurd hi (by simp [stamp])
  | cons x l ih =>
    cases i with
    | zero =>
      obtain rfl := Option.some.inj hi
      exact (UInt16.add_zero seq).symm
    | succ i =>
      rw [← seq_add_succ]
      exact ih hi

/-- The packets of a buffer are numbered one by one. -/
theorem seq_packetise {m i : ℕ} {start : UInt32} {l : List (List UInt8)} {p : Packet}
    (hi : (packetise T m start seq clock l).1[i]? = some p) : p.seq = seq + UInt16.ofNat i := by
  induction l generalizing seq clock i with
  | nil => exact absurd hi (by simp [packetise])
  | cons u l ih =>
    rw [packetise] at hi
    split at hi
    · exact absurd hi (by simp)
    · simp only at hi
      rw [List.getElem?_append] at hi
      split at hi
      · exact seq_stamp hi
      · rename_i hle
        rw [ih hi, UInt16.add_assoc, ← UInt16.ofNat_add, Nat.add_sub_cancel' (not_lt.mp hle)]

/-! ## The packets -/

/-- What has been given away are packets, numbered from 0, and a receiver of
them has the units and waits for no fragment. The handle goes on from
there. -/
structure Received (T : Target) (params : PacParam) (pac : PacHandle) (outs : List Output)
    (us : List (StartCode × NalUnit)) (ps : List Packet) : Prop where
  wire : outs.map Output.bytes = ps.map (encode T params.ssrc.toUInt32)
  units : depacketise (ps.map Packet.payload) = some ⟨us.map fun x => x.2.bytes, none⟩
  seq : ∀ i p, ps[i]? = some p → p.seq = UInt16.ofNat i
  seqNum : pac.seqNum = UInt16.ofNat ps.length
  maxPktLen : pac.params.maxPktLen = params.maxPktLen
  ssrc : pac.params.ssrc = params.ssrc

theorem Received.length_eq {outs : List Output} {us : List (StartCode × NalUnit)}
    {ps : List Packet} (hps : Received T params pac outs us ps) : outs.length = ps.length := by
  simpa using congrArg List.length hps.wire

theorem deliver_bytes (hout : o.stage &&& 8 ≠ 0 ∨ o.outfd = true) (packets : List (List UInt8)) :
    (packets.flatMap o.deliver).map Output.bytes = packets := by
  have hone : ∀ p, (o.deliver p).map Output.bytes = [p] := by
    intro p
    unfold Options.deliver Options.write
    split
    · rw [if_pos (hout.resolve_left fun hne => hne ‹_›)]
      rfl
    · rfl
  induction packets with
  | nil => rfl
  | cons p packets ih => rw [List.flatMap_cons, List.map_append, hone, ih, List.singleton_append]

/-- **A buffer in packets**: they go out in the order of the units, and the
handle goes on with its numbering. -/
theorem pass_packets {m : ℕ} (T : Target) (clock : ℕ → Timeb) (h₄ : o.stage &&& 4 ≠ 0)
    (hout : o.stage &&& 8 ≠ 0 ∨ o.outfd = true) (hpos : 0 < m) (hm : m ≤ 10226)
    (hpac : pac.params.maxPktLen = m) (hb : b.Holds us') (hfuel : (annexB us').length < fuel) :
    ∃ pac' out new, pass o T fuel pac b clock = some (pac', out) ∧
      new = (packetise T m pac.tsStartMillisec pac.seqNum clock
        ((us'.map Prod.snd).map NalUnit.bytes)).1 ∧
      out.map Output.bytes = new.map (encode T pac.params.ssrc.toUInt32) ∧
      pac'.seqNum = pac.seqNum + UInt16.ofNat new.length ∧
      pac'.params.maxPktLen = pac.params.maxPktLen ∧ pac'.params.ssrc = pac.params.ssrc := by
  obtain ⟨hne, a, haddr, hlen, hmem⟩ := hb
  -- the packets of the buffer, and the calls they take
  have hle := length_stream_le T b.mem clock hpos pac (some a) (annexB us').length
  rw [max_eq_left (by
    have := List.length_pos_iff.mpr (annexB_ne_nil hne)
    omega), Int.toNat_natCast] at hle
  obtain ⟨hpackets, hstop⟩ := drain_packPut T b.mem clock hpos hpac (hle.trans_lt hfuel)
  obtain ⟨hr, hp⟩ := runs_packPut hpos hpac (some a) ((annexB us').length : ℤ)
  have hruns : Runs _ _ (drain T b.mem fuel clock _).handle := runs_drain hr hp
  rw [stream_annexB hne hmem] at hpackets hstop
  rw [packetise_snd (by omega)] at hstop
  rw [hpackets, List.length_map] at hruns
  refine ⟨(drain T b.mem fuel clock (packPut pac (some a) (annexB us').length)).handle,
    (drain T b.mem fuel clock (packPut pac (some a) (annexB us').length)).packets.flatMap o.deliver,
    _, ?_, rfl, ?_, hruns.seqNum, ?_, hruns.ssrc⟩
  · rw [pass, if_neg h₄, haddr, hlen]
    simp only [hstop]
    rfl
  · rw [deliver_bytes hout, hpackets]
  · rw [hruns.maxPktLen, hpac]
    rfl

/-- The packets are a sink. -/
theorem sink_packets (h₄ : o.stage &&& 4 ≠ 0) (hout : o.stage &&& 8 ≠ 0 ∨ o.outfd = true)
    (hM : 1 ≤ params.maxPktLen) (hM' : params.maxPktLen ≤ 10226) :
    Sink o T fuel fun pac outs us => ∃ ps, Received T params pac outs us ps ∧
      Pieced params.maxPktLen.toNat (us.map Prod.snd) ps := by
  rintro pac outs us b us' clock ⟨ps, hps, hpieces⟩ hb hfuel
  obtain ⟨m, hm⟩ : ∃ m : ℕ, params.maxPktLen = m := ⟨params.maxPktLen.toNat, by omega⟩
  have hpos : 0 < m := by omega
  obtain ⟨pac', out, new, hpass, hnew, hwire, hseq, hmax, hssrc⟩ := pass_packets T clock h₄
    hout hpos (by omega) (hps.maxPktLen.trans hm) hb hfuel
  refine ⟨pac', out, hpass, ps ++ new, ⟨?_, ?_, ?_, ?_, ?_, ?_⟩, ?_⟩
  · rw [List.map_append, hps.wire, hwire, List.map_append, hps.ssrc]
  · have hrec : (new.map Packet.payload).foldlM receive
        ⟨us.map fun x => x.2.bytes, none⟩ = _ := hnew ▸ receive_packetise hpos (by omega)
    have hfirst := hps.units
    unfold depacketise at hfirst ⊢
    rw [List.map_append, List.foldlM_append, hfirst]
    refine hrec.trans ?_
    rw [List.map_append, List.map_map]
    rfl
  · intro i p hi
    rw [List.getElem?_append] at hi
    split at hi
    · exact hps.seq i p hi
    · rename_i hlt
      rw [seq_packetise (hnew ▸ hi), hps.seqNum, ← UInt16.ofNat_add,
        Nat.add_sub_cancel' (not_lt.mp hlt)]
  · rw [hseq, hps.seqNum, List.length_append, UInt16.ofNat_add]
  · rw [hmax, hps.maxPktLen]
  · rw [hssrc, hps.ssrc]
  · rw [hm, Int.toNat_natCast] at hpieces ⊢
    rw [List.map_append]
    exact hpieces.append (hnew ▸ pieced_packetise hpos (by omega))

/-! ## Runs -/

/-- The packets of a run, and what they are. -/
theorem packets_sent (hopen : (Vpu.encodeOpen openEnv param).1 = some h)
    (hpack : packOpen params true (some outbuf) tb = some pac)
    (hM : 1 ≤ params.maxPktLen) (hM' : params.maxPktLen ≤ 10226)
    (h₁ : o.stage &&& 1 ≠ 0) (h₂ : o.stage &&& 2 ≠ 0) (h₄ : o.stage &&& 4 ≠ 0)
    (hout : o.stage &&& 8 ≠ 0 ∨ o.outfd = true) (hfuel : 5 ≤ fuel)
    (hcoded : ∀ it ∈ its, Coded h fuel it (coded it))
    (hfill : ∀ it ∈ images o its, ∃ copy, Vpu.encodeFillData h (it.image o).len = .ok copy) :
    ∃ s outs ps, (loop o T fuel).run ⟨⟨.fresh, h⟩, pac, false⟩ its = some (s, outs) ∧
      Received T params s.pac outs.flatten
        (program (max param.gop 1) h.mvcExtension coded 0 (images o its)) ps ∧
      Pieced params.maxPktLen.toNat
        ((program (max param.gop 1) h.mvcExtension coded 0 (images o its)).map Prod.snd) ps := by
  obtain ⟨hgop, hcounter⟩ := Vpu.counter_of_open hopen
  have he : Encoding h 0 ⟨.fresh, h⟩ := ⟨rfl, by simpa using hcounter, _, _, rfl⟩
  obtain rfl := Option.some.inj hpack
  have hstart : Received T params (openedHandle params outbuf tb) [] [] [] :=
    ⟨rfl, rfl, fun i p hi => absurd hi (by simp), rfl, rfl, rfl⟩
  obtain ⟨s, outs, hrun, ps, hps, hpieces⟩ := run_of_sink h₁ h₂ (sink_packets h₄ hout hM hM') hfuel
    hcoded hfill (s := ⟨⟨.fresh, h⟩, _, false⟩) rfl he ⟨[], hstart, rfl⟩
  rw [List.nil_append, List.nil_append, hgop] at hps
  rw [List.nil_append, hgop] at hpieces
  exact ⟨s, outs, ps, hrun, hps, hpieces⟩

/-- **What the tool sends is received as the pictures it encoded.** From
handles just opened, in a fresh process, with every stage on up to the
packetiser: the loop goes through any iterations, the packets it gives away
are numbered one by one modulo `2^16`, and a receiver of them has in front
of every `gop`-th picture the parameter sets, each picture once and in
order, and nothing else. -/
theorem packets_of_run (hopen : (Vpu.encodeOpen openEnv param).1 = some h)
    (hpack : packOpen params true (some outbuf) tb = some pac)
    (hM : 1 ≤ params.maxPktLen) (hM' : params.maxPktLen ≤ 10226)
    (h₁ : o.stage &&& 1 ≠ 0) (h₂ : o.stage &&& 2 ≠ 0) (h₄ : o.stage &&& 4 ≠ 0)
    (hout : o.stage &&& 8 ≠ 0 ∨ o.outfd = true) (hfuel : 5 ≤ fuel)
    (hcoded : ∀ it ∈ its, Coded h fuel it (coded it))
    (hfill : ∀ it ∈ images o its, ∃ copy, Vpu.encodeFillData h (it.image o).len = .ok copy) :
    ∃ s outs, (loop o T fuel).run ⟨⟨.fresh, h⟩, pac, false⟩ its = some (s, outs) ∧
      depacketise (outs.flatten.map fun x => x.bytes.drop 12) =
        some ⟨(program (max param.gop 1) h.mvcExtension coded 0 (images o its)).map
          fun x => x.2.bytes, none⟩ ∧
      ∀ i x, outs.flatten[i]? = some x →
        ∃ hdr, decodeHeader x.bytes = some hdr ∧ hdr.seq = i % 65536 := by
  obtain ⟨s, outs, ps, hrun, hps, -⟩ := packets_sent (T := T) hopen hpack hM hM' h₁ h₂ h₄ hout
    hfuel hcoded hfill
  refine ⟨s, outs, hrun, ?_, ?_⟩
  · have hdrop : (outs.flatten.map fun x => x.bytes.drop 12) = ps.map Packet.payload := by
      have hwire := congrArg (List.map (List.drop 12)) hps.wire
      rw [List.map_map, List.map_map] at hwire
      refine hwire.trans (List.map_congr_left fun p _ => ?_)
      exact drop_encode
    rw [hdrop, hps.units]
  · intro i x hx
    have hbytes : (outs.flatten.map Output.bytes)[i]? = some x.bytes := by
      rw [List.getElem?_map, hx]
      rfl
    rw [hps.wire, List.getElem?_map] at hbytes
    obtain ⟨p, hp, hpx⟩ := Option.map_eq_some_iff.mp hbytes
    refine ⟨_, hpx ▸ decodeHeader_encode p, ?_⟩
    change p.seq.toNat = i % 65536
    rw [hps.seq i p hp]
    exact UInt16.toNat_ofNat'

/-- One unit behind its start code. -/
def oneUnit : List (StartCode × NalUnit) :=
  [(.long, ⟨0x67, [0x42, 0, 0x1e], by decide, by decide, by decide, by decide⟩)]

/-- A VGA image that is captured, converted and encoded, each header and the
frame being one unit at the start of the bitstream buffer. -/
def vgaIteration : Iteration where
  capRet := 0
  cap := ⟨fun _ => 0, some 0, 614400⟩
  cvtRet := 0
  cvt := ⟨fun _ => 0, some 0, 460800⟩
  drawn := fun _ => 0
  give _ := ⟨0x10000000, 8⟩
  headerMem _ := .holding 0x60000000 (annexB oneUnit)
  headerClock _ i := ⟨2, i⟩
  env := ⟨true, 0, some ⟨0, 0x10000000, 8⟩⟩
  frameMem := .holding 0x60000000 (annexB oneUnit)
  frameClock i := ⟨2, i⟩

theorem coded_vgaIteration (hvirt : virtual h 0x10000000 = 0x60000000) :
    ∀ it ∈ [vgaIteration, vgaIteration],
      Coded h 9 it ((fun _ _ => oneUnit : Iteration → Units) it) := by
  have hptr : pointer (virtual h 0x10000000) = some 0x60000000 := by rw [hvirt]; rfl
  intro it hit
  obtain rfl : it = vgaIteration := by simpa using hit
  refine ⟨fun t => ?_, ?_, fun _ => (by decide : (annexB oneUnit).length < 9)⟩
  · exact ⟨List.cons_ne_nil _ _, 0x60000000, hptr, rfl, Mem.bytes_holding⟩
  · rintro info hinfo -
    obtain rfl := Option.some.inj hinfo
    exact ⟨List.cons_ne_nil _ _, 0x60000000, hptr, rfl, Mem.bytes_holding⟩

theorem mem_images_vga {it : Iteration} (hit : it ∈ images o [vgaIteration, vgaIteration]) :
    it = vgaIteration := by
  have hmem := (List.takeWhile_sublist _).subset (List.mem_filter.mp hit).1
  simpa using hmem

/-- An encoder for VGA in GOPs of two. -/
theorem encodeOpen_vga : ∃ h, (Vpu.encodeOpen (.granting 2)
    ⟨640, 480, 640, 480, 15, 1000, 2, 0⟩).1 = some h ∧ virtual h 0x10000000 = 0x60000000 ∧
      ∃ copy, Vpu.encodeFillData h 460800 = .ok copy := by
  have hopen : ((Vpu.encodeOpen (.granting 2) ⟨640, 480, 640, 480, 15, 1000, 2, 0⟩).1.map
      fun h => (virtual h 0x10000000, (Vpu.encodeFillData h 460800).toOption.isSome)) =
        some (0x60000000, true) := by decide +kernel
  obtain ⟨h, hopen, heq⟩ := Option.map_eq_some_iff.mp hopen
  obtain ⟨hvirt, hfill⟩ := Prod.mk.inj heq
  refine ⟨h, hopen, hvirt, ?_⟩
  cases hcopy : Vpu.encodeFillData h 460800 with
  | error f => exact absurd (hcopy ▸ hfill) (by simp [Except.toOption])
  | ok copy => exact ⟨copy, rfl⟩

/-- Two pictures in one GOP, sent in fragments of three bytes. -/
theorem packets_of_run_vga : ∃ h s outs,
    (Vpu.encodeOpen (.granting 2) ⟨640, 480, 640, 480, 15, 1000, 2, 0⟩).1 = some h ∧
    (loop ⟨15, false, false⟩ ⟨.ilp32, fun _ => 0⟩ 9).run
      ⟨⟨.fresh, h⟩, openedHandle ⟨3, 10⟩ (.holding 0 []) ⟨1, 500⟩, false⟩
      [vgaIteration, vgaIteration] = some (s, outs) ∧
    depacketise (outs.flatten.map fun x => x.bytes.drop 12) =
      some ⟨(program 2 h.mvcExtension (fun _ _ => oneUnit) 0
        (images ⟨15, false, false⟩ [vgaIteration, vgaIteration])).map fun x => x.2.bytes,
        none⟩ := by
  obtain ⟨h, hopen, hvirt, hfill⟩ := encodeOpen_vga
  have hpack : packOpen ⟨3, 10⟩ true (some (.holding 0 [])) ⟨1, 500⟩ =
      some (openedHandle ⟨3, 10⟩ (.holding 0 []) ⟨1, 500⟩) := rfl
  obtain ⟨s, outs, hrun, hunits, -⟩ := packets_of_run (o := ⟨15, false, false⟩)
    (T := ⟨.ilp32, fun _ => 0⟩) hopen hpack (by decide) (by decide) (by decide) (by decide)
    (by decide) (.inl (by decide)) (Nat.le_add_left 5 4) (coded_vgaIteration hvirt)
    (fun it hit => (mem_images_vga hit).symm ▸ hfill)
  exact ⟨h, s, outs, hopen, hrun, hunits⟩

/-- **What the tool writes is the byte stream of the same units**, where the
packetiser is not on. -/
theorem file_of_run (hopen : (Vpu.encodeOpen openEnv param).1 = some h)
    (h₁ : o.stage &&& 1 ≠ 0) (h₂ : o.stage &&& 2 ≠ 0) (h₄ : o.stage &&& 4 = 0)
    (hout : o.outfd = true) (hfuel : 5 ≤ fuel)
    (hcoded : ∀ it ∈ its, Coded h fuel it (coded it))
    (hfill : ∀ it ∈ images o its, ∃ copy, Vpu.encodeFillData h (it.image o).len = .ok copy)
    (pac : PacHandle) :
    ∃ s outs, (loop o T fuel).run ⟨⟨.fresh, h⟩, pac, false⟩ its = some (s, outs) ∧
      ∃ ws : List (List UInt8), outs.flatten = ws.map Output.file ∧
        ws.flatten = annexB (program (max param.gop 1) h.mvcExtension coded 0 (images o its)) := by
  obtain ⟨hgop, hcounter⟩ := Vpu.counter_of_open hopen
  have he : Encoding h 0 ⟨.fresh, h⟩ := ⟨rfl, by simpa using hcounter, _, _, rfl⟩
  have hempty : ∃ ws : List (List UInt8), [] = ws.map Output.file ∧ ws.flatten = annexB [] :=
    ⟨[], rfl, rfl⟩
  obtain ⟨s, outs, hrun, hws⟩ := run_of_sink h₁ h₂ (sink_file h₄ hout) hfuel hcoded
    hfill (s := ⟨⟨.fresh, h⟩, pac, false⟩) rfl he hempty
  rw [List.nil_append, List.nil_append, hgop] at hws
  exact ⟨s, outs, hrun, hws⟩

/-- The same two pictures, written to a file. -/
theorem file_of_run_vga : ∃ h s outs,
    (Vpu.encodeOpen (.granting 2) ⟨640, 480, 640, 480, 15, 1000, 2, 0⟩).1 = some h ∧
    (loop ⟨3, false, true⟩ ⟨.ilp32, fun _ => 0⟩ 9).run
      ⟨⟨.fresh, h⟩, openedHandle ⟨3, 10⟩ (.holding 0 []) ⟨1, 500⟩, false⟩
      [vgaIteration, vgaIteration] = some (s, outs) ∧
    ∃ ws : List (List UInt8), outs.flatten = ws.map Output.file ∧
      ws.flatten = annexB (program 2 h.mvcExtension (fun _ _ => oneUnit) 0
        (images ⟨3, false, true⟩ [vgaIteration, vgaIteration])) := by
  obtain ⟨h, hopen, hvirt, hfill⟩ := encodeOpen_vga
  obtain ⟨s, outs, hrun, hws⟩ := file_of_run (o := ⟨3, false, true⟩)
    (T := ⟨.ilp32, fun _ => 0⟩) hopen (by decide) (by decide) (by decide) rfl
    (Nat.le_add_left 5 4) (coded_vgaIteration hvirt)
    (fun it hit => (mem_images_vga hit).symm ▸ hfill)
    (openedHandle ⟨3, 10⟩ (.holding 0 []) ⟨1, 500⟩)
  exact ⟨h, s, outs, hopen, hrun, hws⟩

end Cktool

end Camkit
