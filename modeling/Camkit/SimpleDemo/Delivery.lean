import Camkit.Cktool.Arrivals
import Camkit.SimpleDemo.Model.Main
/-!
# The demo — what it sends

The demo's loop is the tool's with all four stages on, a camera that gives
YUYV and no output file. What is known of the tool's packets holds of the
demo's.
-/

namespace Camkit

namespace SimpleDemo

open RtpPack
open Cktool (Iteration Options Output Tool Coded Units images program)

variable {T : Target} {fuel n : ℕ} {it : Iteration} {its : List Iteration} {h : Vpu.EncHandle}
variable {st : Vpu.Statics} {pac : PacHandle} {b : Cktool.Buffer} {clock : ℕ → Timeb} {s : Tool}
variable {openEnv : Vpu.Env} {outbuf : Mem} {tb : Timeb} {coded : Iteration → Units}

/-- The tool's options that make it the demo. -/
def options : Options := ⟨15, false, false⟩

theorem deliver_options (packets : List (List UInt8)) :
    packets.flatMap options.deliver = packets.map .net := by
  induction packets with
  | nil => rfl
  | cons p packets ih =>
    rw [List.flatMap_cons, ih]
    rfl

theorem pass_options : Cktool.pass options T fuel pac b clock =
    (send T fuel pac b clock).map fun r => (r.1, r.2.map .net) := by
  unfold Cktool.pass send
  rw [if_neg (by decide)]
  simp only [deliver_options]
  generalize drain T b.mem fuel clock (packPut pac b.addr b.len) = drained
  cases drained.stop <;> rfl

theorem headerLoop_options : Cktool.headerLoop options T fuel it h n st pac =
    (sendHeaders T fuel it h n st pac).map fun r => (r.1, r.2.1, r.2.2.map .net) := by
  induction n generalizing st pac with
  | zero => rfl
  | succ n ih =>
    rw [Cktool.headerLoop, sendHeaders]
    obtain ⟨st', header⟩ := Vpu.encodeGetHeaders it.give st h
    cases header with
    | none => rfl
    | some header =>
      simp only [pass_options]
      cases send T fuel pac (it.header header) (it.headerClock header.headerType) with
      | none => rfl
      | some r =>
        simp only [Option.map_some, ih]
        cases sendHeaders T fuel it h n st' r.1 with
        | none => rfl
        | some r' => simp only [Option.map_some, List.map_append]

/-- From the headers on. -/
theorem encodeImage_options : Cktool.encodeImage options T fuel s it =
    (sendImage T fuel s it).map fun r => (r.1, r.2.map .net) := by
  have hlen : (it.image options).len = it.cvt.len := rfl
  unfold Cktool.encodeImage sendImage
  rw [headerLoop_options, hlen]
  cases sendHeaders T fuel it s.enc.handle fuel s.enc.statics s.pac with
  | none => rfl
  | some r =>
    simp only [Option.map_some]
    cases Vpu.encodeDo it.env s.enc.handle it.cvt.len with
    | error f => rfl
    | ok result =>
      simp only
      cases result.frame with
      | none => rfl
      | some frame =>
        simp only
        split
        · rfl
        · rw [pass_options]
          cases send T fuel r.2.1 (it.frame frame) it.frameClock with
          | none => rfl
          | some r' => simp only [Option.map_some, List.map_append]

/-- **One iteration** is the tool's: the order in which the two look at what
`capture_get_data` and `convert_do` have returned makes no difference. -/
theorem iterate_options : Cktool.iterate options T fuel s it =
    (iterate T fuel s it).map fun r => (r.1, r.2.map .net) := by
  unfold Cktool.iterate iterate
  rw [if_neg (show ¬ options.stage &&& 1 = 0 by decide),
    if_neg (show ¬ options.stage &&& 2 = 0 by decide), encodeImage_options]
  have hconverts : (!options.planar) = true := rfl
  simp only [hconverts, true_and]
  by_cases hneg : it.capRet < 0
  · rw [if_pos hneg, if_pos (by omega : it.capRet ≠ 0), if_pos hneg]
    rfl
  · rw [if_neg hneg]
    by_cases hagain : it.capRet ≠ 0
    · rw [if_pos (.inl hagain), if_pos hagain, if_neg hneg]
      rfl
    · by_cases hempty : it.cap.len ≤ 0
      · rw [if_pos (.inr hempty), if_neg hagain, if_pos hempty]
        rfl
      · rw [if_neg (not_or.mpr ⟨hagain, hempty⟩), if_neg hagain, if_neg hempty]
        split
        · rfl
        · split <;> rfl

/-- **The run** of the demo is a run of the tool. -/
theorem run_options : (Cktool.loop options T fuel).run s its =
    ((loop T fuel).run s its).map fun r => (r.1, r.2.map (List.map .net)) := by
  induction its generalizing s with
  | nil => rfl
  | cons it its ih =>
    have hstep : (Cktool.loop options T fuel).step s it =
        ((loop T fuel).step s it).map fun r => (r.1, r.2.map .net) := by
      rw [Cktool.loop, loop]
      simp only
      split
      · rfl
      · exact iterate_options
    rw [Machine.run, Machine.run, hstep]
    cases (loop T fuel).step s it with
    | none => rfl
    | some r =>
      simp only [Option.map_some, ih]
      cases (loop T fuel).run r.1 its <;> rfl

/-- **What the demo sends is received as the pictures it encoded**: from
handles just opened, whatever the camera, the converter and the encoder
answer, the parameter sets in front of every thirtieth picture and each
picture once and in order. -/
theorem units_of_run (hopen : (Vpu.encodeOpen openEnv encp).1 = some h)
    (hpack : packOpen pacp true (some outbuf) tb = some pac) (hfuel : 5 ≤ fuel)
    (hcoded : ∀ it ∈ its, Coded h fuel it (coded it))
    (hfill : ∀ it ∈ images options its, ∃ copy, Vpu.encodeFillData h it.cvt.len = .ok copy) :
    ∃ s outs, (loop T fuel).run ⟨⟨.fresh, h⟩, pac, false⟩ its = some (s, outs) ∧
      depacketise (outs.flatten.map (List.drop 12)) =
        some ⟨(program 30 h.mvcExtension coded 0 (images options its)).map fun x => x.2.bytes,
          none⟩ := by
  obtain ⟨s, outs, ps, hrun, hps, -⟩ := Cktool.packets_sent (T := T) (o := options) hopen hpack
    (by decide) (by decide) (by decide) (by decide) (by decide) (.inl (by decide)) hfuel hcoded
    hfill
  rw [run_options] at hrun
  obtain ⟨⟨s', sent⟩, hsent, heq⟩ := Option.map_eq_some_iff.mp hrun
  obtain ⟨rfl, rfl⟩ := Prod.mk.inj heq
  refine ⟨s', sent, hsent, ?_⟩
  have hwire : sent.flatten = ps.map (encode T pacp.ssrc.toUInt32) := by
    have hbytes := hps.wire
    rw [← List.map_flatten, List.map_map] at hbytes
    exact (List.map_id _).symm.trans hbytes
  have hdrop : sent.flatten.map (List.drop 12) = ps.map Packet.payload := by
    rw [hwire, List.map_map]
    exact List.map_congr_left fun p _ => drop_encode
  rw [hdrop]
  exact hps.units

end SimpleDemo

end Camkit
