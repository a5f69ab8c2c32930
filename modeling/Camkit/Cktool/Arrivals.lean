import Camkit.Cktool.Stages
/-!
# The tool — over a network that is not reliable

`net_send` puts each packet in a datagram of its own. Whatever becomes of
them on the way, a receiver that goes by the sequence numbers has only units
the encoder made, whole ones, and where datagrams are only lost all of those
that lost none.
-/

namespace Camkit

namespace Cktool

open RtpPack

variable {o : Options} {T : Target} {fuel : ℕ} {its : List Iteration} {pac : PacHandle}
variable {h : Vpu.EncHandle} {coded : Iteration → Units} {param : Vpu.EncParam}
variable {openEnv : Vpu.Env} {params : PacParam} {outbuf : Mem} {tb : Timeb}

/-- The units of the pictures, with the indices of the packets of each. -/
def sentSpans (g : ℤ) (mvc : Bool) (m : ℕ) (units : Iteration → Units) (its : List Iteration) :
    List (List ℕ × List UInt8) :=
  spans m 0 ((program g mvc units 0 its).map fun x => x.2.bytes)

/-- **What gets through.** The tool's datagrams may be lost, doubled and put
in any order on the way, as long as the 16-bit numbers do not come round
between one arrival and the next. A receiver that goes by the numbers has at
each arrival a unit exactly if the packets of that unit have just arrived,
one right behind the other, and it is a unit of the pictures, byte for
byte. -/
theorem arrivals_of_run (hopen : (Vpu.encodeOpen openEnv param).1 = some h)
    (hpack : packOpen params true (some outbuf) tb = some pac)
    (hM : 1 ≤ params.maxPktLen) (hM' : params.maxPktLen ≤ 10226)
    (h₁ : o.stage &&& 1 ≠ 0) (h₂ : o.stage &&& 2 ≠ 0) (h₄ : o.stage &&& 4 ≠ 0)
    (h₈ : o.stage &&& 8 ≠ 0) (hfuel : 5 ≤ fuel) (hcoded : ∀ it ∈ its, Coded h fuel it (coded it))
    (hfill : ∀ it ∈ images o its, ∃ copy, Vpu.encodeFillData h (it.image o).len = .ok copy) :
    ∃ s outs, (loop o T fuel).run ⟨⟨.fresh, h⟩, pac, false⟩ its = some (s, outs) ∧
      ∀ arrivals : List ℕ, (∀ i ∈ arrivals, i < outs.flatten.length) → Close arrivals →
        ∃ r got, datagrams.run none (arrive (outs.flatten.map Output.bytes) arrivals) =
            some (r, got) ∧ got.length = arrivals.length ∧
          ∀ t u, got[t]? = some (some u) ↔ t < arrivals.length ∧
            ∃ x ∈ sentSpans (max param.gop 1) h.mvcExtension params.maxPktLen.toNat coded
              (images o its), x.1 <:+ arrivals.take (t + 1) ∧ u = x.2 := by
  obtain ⟨s, outs, ps, hrun, hps, hpieces⟩ := packets_sent (T := T) hopen hpack hM hM' h₁ h₂ h₄
    (.inl h₈) hfuel hcoded hfill
  refine ⟨s, outs, hrun, fun arrivals hlt hclose => ?_⟩
  rw [hps.length_eq] at hlt
  obtain ⟨r, got, hgot, hlen, hunits, -⟩ := received_of_arrivals (T := T)
    (by omega : 0 < params.maxPktLen.toNat) hps.seq hpieces hlt hclose
  rw [hps.wire]
  refine ⟨r, got, hgot, hlen, fun t u => ?_⟩
  rw [hunits, List.map_map]
  rfl

/-- Two pictures in one GOP, in fragments of three bytes. -/
theorem arrivals_of_run_vga : ∃ h s outs,
    (Vpu.encodeOpen (.granting 2) ⟨640, 480, 640, 480, 15, 1000, 2, 0⟩).1 = some h ∧
    (loop ⟨15, false, false⟩ ⟨.ilp32, fun _ => 0⟩ 9).run
      ⟨⟨.fresh, h⟩, openedHandle ⟨3, 10⟩ (.holding 0 []) ⟨1, 500⟩, false⟩
      [vgaIteration, vgaIteration] = some (s, outs) ∧
    ∀ arrivals : List ℕ, (∀ i ∈ arrivals, i < outs.flatten.length) → Close arrivals →
      ∃ r got, datagrams.run none (arrive (outs.flatten.map Output.bytes) arrivals) =
          some (r, got) ∧ got.length = arrivals.length ∧
        ∀ t u, got[t]? = some (some u) ↔ t < arrivals.length ∧
          ∃ x ∈ sentSpans 2 h.mvcExtension 3 (fun _ _ => oneUnit)
            (images ⟨15, false, false⟩ [vgaIteration, vgaIteration]),
            x.1 <:+ arrivals.take (t + 1) ∧ u = x.2 := by
  obtain ⟨h, hopen, hvirt, hfill⟩ := encodeOpen_vga
  have hpack : packOpen ⟨3, 10⟩ true (some (.holding 0 [])) ⟨1, 500⟩ =
      some (openedHandle ⟨3, 10⟩ (.holding 0 []) ⟨1, 500⟩) := rfl
  obtain ⟨s, outs, hrun, hgot⟩ := arrivals_of_run (o := ⟨15, false, false⟩)
    (T := ⟨.ilp32, fun _ => 0⟩) hopen hpack (by decide) (by decide) (by decide) (by decide)
    (by decide) (by decide) (Nat.le_add_left 5 4) (coded_vgaIteration hvirt)
    (fun it hit => (mem_images_vga hit).symm ▸ hfill)
  exact ⟨h, s, outs, hopen, hrun, hgot⟩

/-- **Losses.** Where fewer than 65536 datagrams are lost in a row and none
comes late, the receiver has the units of which no packet is lost, each once
and in order, and nothing else. -/
theorem losses_of_run (hopen : (Vpu.encodeOpen openEnv param).1 = some h)
    (hpack : packOpen params true (some outbuf) tb = some pac)
    (hM : 1 ≤ params.maxPktLen) (hM' : params.maxPktLen ≤ 10226)
    (h₁ : o.stage &&& 1 ≠ 0) (h₂ : o.stage &&& 2 ≠ 0) (h₄ : o.stage &&& 4 ≠ 0)
    (h₈ : o.stage &&& 8 ≠ 0) (hfuel : 5 ≤ fuel) (hcoded : ∀ it ∈ its, Coded h fuel it (coded it))
    (hfill : ∀ it ∈ images o its, ∃ copy, Vpu.encodeFillData h (it.image o).len = .ok copy) :
    ∃ s outs, (loop o T fuel).run ⟨⟨.fresh, h⟩, pac, false⟩ its = some (s, outs) ∧
      ∀ arrivals : List ℕ, (∀ i ∈ arrivals, i < outs.flatten.length) →
        (arrivals.IsChain fun i j => i < j ∧ j ≤ i + 65536) →
        ∃ r got, datagrams.run none (arrive (outs.flatten.map Output.bytes) arrivals) =
            some (r, got) ∧
          got.reduceOption = ((sentSpans (max param.gop 1) h.mvcExtension params.maxPktLen.toNat
            coded (images o its)).filter fun x => ∀ i ∈ x.1, i ∈ arrivals).map Prod.snd := by
  obtain ⟨s, outs, ps, hrun, hps, hpieces⟩ := packets_sent (T := T) hopen hpack hM hM' h₁ h₂ h₄
    (.inl h₈) hfuel hcoded hfill
  refine ⟨s, outs, hrun, fun arrivals hlt hchain => ?_⟩
  have hclose : Close arrivals := hchain.imp fun i j hij => by omega
  have hsorted : arrivals.Pairwise (· < ·) := (hchain.imp fun i j hij => hij.1).pairwise
  rw [hps.length_eq] at hlt
  obtain ⟨r, got, hgot, -, -, hwhole⟩ := received_of_arrivals (T := T)
    (by omega : 0 < params.maxPktLen.toNat) hps.seq hpieces hlt hclose
  rw [hps.wire]
  refine ⟨r, got, hgot, ?_⟩
  rw [hwhole hsorted, List.map_map]
  rfl

/-- The same two pictures. -/
theorem losses_of_run_vga : ∃ h s outs,
    (Vpu.encodeOpen (.granting 2) ⟨640, 480, 640, 480, 15, 1000, 2, 0⟩).1 = some h ∧
    (loop ⟨15, false, false⟩ ⟨.ilp32, fun _ => 0⟩ 9).run
      ⟨⟨.fresh, h⟩, openedHandle ⟨3, 10⟩ (.holding 0 []) ⟨1, 500⟩, false⟩
      [vgaIteration, vgaIteration] = some (s, outs) ∧
    ∀ arrivals : List ℕ, (∀ i ∈ arrivals, i < outs.flatten.length) →
      (arrivals.IsChain fun i j => i < j ∧ j ≤ i + 65536) →
      ∃ r got, datagrams.run none (arrive (outs.flatten.map Output.bytes) arrivals) =
          some (r, got) ∧
        got.reduceOption = ((sentSpans 2 h.mvcExtension 3 (fun _ _ => oneUnit)
          (images ⟨15, false, false⟩ [vgaIteration, vgaIteration])).filter
            fun x => ∀ i ∈ x.1, i ∈ arrivals).map Prod.snd := by
  obtain ⟨h, hopen, hvirt, hfill⟩ := encodeOpen_vga
  have hpack : packOpen ⟨3, 10⟩ true (some (.holding 0 [])) ⟨1, 500⟩ =
      some (openedHandle ⟨3, 10⟩ (.holding 0 []) ⟨1, 500⟩) := rfl
  obtain ⟨s, outs, hrun, hgot⟩ := losses_of_run (o := ⟨15, false, false⟩)
    (T := ⟨.ilp32, fun _ => 0⟩) hopen hpack (by decide) (by decide) (by decide) (by decide)
    (by decide) (by decide) (Nat.le_add_left 5 4) (coded_vgaIteration hvirt)
    (fun it hit => (mem_images_vga hit).symm ▸ hfill)
  exact ⟨h, s, outs, hopen, hrun, hgot⟩

end Cktool

end Camkit
