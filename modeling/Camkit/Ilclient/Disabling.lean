import Camkit.Ilclient.Ports
/-!
# IL client — whether a port can be disabled

`ilclient_disable_port_buffers` frees the headers on the list and sleeps until
more have come back, as long as it still counts some, and waits for the
component at its end. A call that was handed headers of its caller sleeps
before it has looked at the list, and one that has counted to its end frees
nothing more: there a call can hang on headers that are left. Any other waits
for headers that the component has, and for ever for one that a caller keeps.
-/

namespace Camkit

namespace Ilclient

open Ledger

variable {β : Type} [Fintype β] [DecidableEq β] {portIndex : PortIndex β}
variable {L L' : Dir → List β} {d : Dir} {b : β} {n : ℤ}
variable {port : Dir → UInt32} {nBufferCountActual : Dir → ℕ} {s s' : Ported β} {op : PortOp β}
variable {ops : List (PortOp β)} {outs : List (Option (Dir × β))} {out : Option (Dir × β)}
variable {u : BufferOp β} {t' : Served β}

/-! ## Woken by what comes back -/

/-- The component tells of no error to the call at `d`, and the call is not
woken by a flag that is meant for another. -/
def PortOp.Quiet (d : Dir) (op : PortOp β) : Prop := op ≠ .error d ∧ op ≠ .wake d true

/-- Nor does a caller give the component a header of the list. -/
def PortOp.Alone (d : Dir) (op : PortOp β) : Prop := op.Quiet d ∧ ∀ b, op ≠ .give d b

/-- **What a step does beside a call** that disables a port: to the headers
out, to those of them the component has, and to the flag of the list. -/
inductive Ported.Beside (d : Dir) (s s' : Ported β) : PortOp β → Prop
  | rests {op : PortOp β} : s'.away d = s.away d → s'.given d = s.given d →
    s'.served.buffers.posting d = s.served.buffers.posting d →
    (s.served.buffers.event d = false → s'.served.buffers.event d = false) → Beside d s s' op
  | back {b : β} : b ∈ s.given d → s'.away d = (s.away d).erase b →
    s'.given d = (s.given d).erase b → Beside d s s' (.use (.done d b))
  | flag : s.served.buffers.posting d ≠ 0 → s'.away d = s.away d → s'.given d = s.given d →
    Beside d s s' (.use (.flag d))
  | give {b : β} : b ∈ s.away d → s'.away d = s.away d → s'.given d = insert b (s.given d) →
    Beside d s s' (.give d b)

omit [Fintype β] in
/-- No header goes out but one that is returned. -/
theorem awayAfter_eq (hu : ∀ b, u ≠ .done d b) (hreturned : returned d out = []) :
    s.awayAfter u out d = s.away d := by
  cases u with
  | done dir b =>
    have hd : d ≠ dir := by
      rintro rfl
      exact hu b rfl
    exact Function.update_of_ne hd ..
  | _ =>
    cases out with
    | none => rfl
    | some x =>
      have hd : d ≠ x.1 := by
        rintro rfl
        exact absurd hreturned (by simp [returned])
      exact Function.update_of_ne hd ..

omit [Fintype β] in
theorem givenAfter_eq (hu : ∀ b, u ≠ .done d b) : s.givenAfter u d = s.given d := by
  cases u with
  | done dir b =>
    have hd : d ≠ dir := by
      rintro rfl
      exact hu b rfl
    exact Function.update_of_ne hd ..
  | _ => rfl

/-- The lists in use, beside a call. -/
theorem Kept.beside_use (h : Kept portIndex port s L) (hclosing : s.closing d ≠ .ended)
    (hallows : s.allows u = true) (hstep : s.served.step portIndex u = some (t', out)) :
    Ported.Beside d s { s with
      served := t'
      away := s.awayAfter u out
      given := s.givenAfter u } (.use u) := by
  obtain ⟨r, hr⟩ := h.idle d hclosing
  have hget : ∀ p block, u ≠ .get d p block := by
    rintro p block rfl
    exact hclosing (idle_iff.mp hallows).2
  obtain ⟨-, hreturned, hflag⟩ := h.orderly.step_beside hstep hr hget
  by_cases hdone : ∃ b, u = .done d b
  · obtain ⟨b, rfl⟩ := hdone
    exact .back (of_decide_eq_true hallows) (Function.update_self ..) (Function.update_self ..)
  · rw [not_exists] at hdone
    have haway := awayAfter_eq (s := s) hdone hreturned
    have hgiven := givenAfter_eq (s := s) hdone
    rcases hflag with ⟨⟨b, rfl⟩ | ⟨rfl, hposting⟩, -⟩ | ⟨hposting, hevent, -⟩
    · exact absurd rfl (hdone b)
    · exact .flag hposting haway hgiven
    · exact .rests haway hgiven hposting hevent.trans

/-- **Every step** beside a call. -/
theorem Kept.beside (h : Kept portIndex port s L) (hclosing : s.closing d ≠ .ended)
    (hstep : s.step portIndex port nBufferCountActual op = some (s', out)) :
    Ported.Beside d s s' op := by
  have htake : ∀ dir, s.served.buffers.event d = false →
      (s.served.takeFlag dir).buffers.event d = false := by
    intro dir hevent
    by_cases hd : d = dir
    · exact hd ▸ Function.update_self ..
    · exact (Function.update_of_ne hd ..).trans hevent
  cases op with
  | use u =>
    rw [Ported.step] at hstep
    split at hstep
    · rename_i hallows
      split at hstep
      · exact absurd hstep (by simp)
      · rename_i served out' hserved
        obtain ⟨rfl, rfl⟩ := Prod.mk.inj (Option.some.inj hstep)
        exact h.beside_use hclosing hallows hserved
    · exact absurd hstep (by simp)
  | give dir b =>
    rw [Ported.step] at hstep
    split at hstep
    · rename_i hlent
      obtain ⟨rfl, -⟩ := Prod.mk.inj (Option.some.inj hstep)
      by_cases hd : d = dir
      · subst hd
        exact .give hlent.1 rfl (Function.update_self ..)
      · exact .rests rfl (Function.update_of_ne hd ..) rfl id
    · exact absurd hstep (by simp)
  | enable dir bufs ok up =>
    rw [Ported.step] at hstep
    split at hstep
    · exact absurd hstep (by simp)
    · split at hstep <;>
      · obtain ⟨rfl, -⟩ := Prod.mk.inj (Option.some.inj hstep)
        exact .rests rfl rfl rfl id
  | disable dir bufferList =>
    rw [Ported.step] at hstep
    split at hstep
    · exact absurd hstep (by simp)
    · rename_i hguard
      have hd : d ≠ dir := by
        rintro rfl
        have hidle : s.idle d = true := by simpa using (not_or.mp hguard).1
        exact hclosing (idle_iff.mp hidle).2
      split at hstep
      · obtain ⟨rfl, -⟩ := Prod.mk.inj (Option.some.inj hstep)
        exact .rests rfl rfl rfl id
      · obtain ⟨rfl, -⟩ := Prod.mk.inj (Option.some.inj hstep)
        exact .rests (Function.update_of_ne hd ..) rfl rfl id
  | sweep dir =>
    rw [Ported.step] at hstep
    split at hstep
    · rename_i num hlooking
      obtain ⟨links, hround, -⟩ := h.sweep hlooking
      simp only [hround] at hstep
      obtain ⟨rfl, -⟩ := Prod.mk.inj (Option.some.inj hstep)
      exact .rests rfl rfl rfl id
    · exact absurd hstep (by simp)
  | wake dir other =>
    rw [Ported.step] at hstep
    split at hstep
    · split at hstep
      · obtain ⟨rfl, -⟩ := Prod.mk.inj (Option.some.inj hstep)
        exact .rests rfl rfl rfl (htake dir)
      · exact absurd hstep (by simp)
    · exact absurd hstep (by simp)
  | disabled dir =>
    rw [Ported.step] at hstep
    split at hstep
    · obtain ⟨rfl, -⟩ := Prod.mk.inj (Option.some.inj hstep)
      simp only
      split
      · exact .rests rfl rfl rfl id
      · exact .rests rfl rfl rfl (htake dir)
    · exact absurd hstep (by simp)
  | error dir =>
    rw [Ported.step] at hstep
    split at hstep
    · obtain ⟨rfl, -⟩ := Prod.mk.inj (Option.some.inj hstep)
      exact .rests rfl rfl rfl (htake dir)
    · exact absurd hstep (by simp)

/-! ### What lasts -/

/-- The call can come to its end in steps of `P`, with all the buffers of the
port freed. -/
def Ported.CanEnd (portIndex : PortIndex β) (port : Dir → UInt32) (nBufferCountActual : Dir → ℕ)
    (P : PortOp β → Prop) (s : Ported β) (d : Dir) : Prop :=
  ∃ ops' s' outs', (∀ op ∈ ops', P op) ∧
    (portSteps portIndex port nBufferCountActual).run s ops' = some (s', outs') ∧
    s'.closing d = .ended ∧ s'.served.buffers.queue d = [] ∧ s'.away d = ∅

variable {P Q : PortOp β → Prop}

theorem Ported.CanEnd.mono (hPQ : ∀ op, P op → Q op)
    (h : s.CanEnd portIndex port nBufferCountActual P d) :
    s.CanEnd portIndex port nBufferCountActual Q d := by
  obtain ⟨ops', s', outs', hops, hrest⟩ := h
  exact ⟨ops', s', outs', fun op hop => hPQ op (hops op hop), hrest⟩

end Ilclient

end Camkit
