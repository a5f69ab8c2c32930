import Camkit.Ilclient.PortLists
import Mathlib.Algebra.BigOperators.Group.Finset.Basic
import Mathlib.Algebra.Order.Group.Multiset
/-!
# IL client — the buffers of a port, from their making to their end

A buffer is on its list or out, and a ledger of what is made and freed says
that it is freed once, and where it is then. What every step does to a port
is told by the headers of the port and the count of the call that disables
it: that call ends where nothing is left, unless it has stopped to free
before that.
-/

namespace Camkit

namespace Ilclient

open Ledger

variable {β : Type} [Fintype β] [DecidableEq β] {portIndex : PortIndex β}
variable {L L' : Dir → List β} {dir d : Dir} {b : β} {n : ℤ} {made l : List β}

/-! ## A port by its headers -/

/-- A port: where the call that disables it is, whether it is enabled, and
its headers, on the list and out. -/
structure Port (β : Type) where
  closing : Closing
  enabled : Bool
  headers : Multiset β

/-- **What a step does** to the port `d`, which is to have `N` headers. -/
inductive Port.Moves (N : ℕ) (d : Dir) : PortOp β → Port β → Port β → Prop
  | stays {op p} : Moves N d op p p
  | made {bufs ok up more m} : Multiset.card more ≤ N →
    Moves N d (.enable d bufs ok up) ⟨.ended, false, m⟩ ⟨.ended, true, more + m⟩
  /-- it could not be enabled, and has the buffers made -/
  | stuck {bufs ok more m} :
    Moves N d (.enable d bufs ok false) ⟨.ended, false, m⟩ ⟨.ended, false, more + m⟩
  /-- it could not be enabled, and is disabled again -/
  | undone {bufs ok up more m} : Multiset.card more ≤ N →
    Moves N d (.enable d bufs ok up) ⟨.ended, false, m⟩ ⟨.looking N, false, more + m⟩
  | disable {bufferList m} :
    Moves N d (.disable d bufferList) ⟨.ended, true, m⟩ ⟨.looking N, false, m⟩
  | disableList {bufferList l m} : Moves N d (.disable d bufferList) ⟨.ended, true, l + m⟩
    ⟨.freed (N - Multiset.card l), false, m⟩
  | sweep {num e l m} :
    Moves N d (.sweep d) ⟨.looking num, e, l + m⟩ ⟨.freed (num - Multiset.card l), e, m⟩
  | wake {num e m other} : Moves N d (.wake d other) ⟨.asleep num, e, m⟩ ⟨.woken num, e, m⟩
  | disabled {ph e} : Moves N d (.disabled d) ⟨ph, e, 0⟩ ⟨.ended, e, 0⟩
  | error {num e m} : Moves N d (.error d) ⟨.asleep num, e, m⟩ ⟨.ended, e, m⟩

/-- The component tells of no error while a port is disabled, and a port that
could not be enabled is up, so that it is disabled. -/
def PortOp.Clean : PortOp β → Prop
  | .enable _ _ _ up => up = true
  | .error _ => False
  | _ => True

namespace Port

variable {N : ℕ} {op : PortOp β} {p p' : Port β} {e : Bool} {m : Multiset β}

/-- **What the count of a call that disables a port says**: no more headers
are left than it counts, and none once it has stopped to free. -/
structure Counted (N : ℕ) (p : Port β) : Prop where
  le : Multiset.card p.headers ≤ N
  num : ∀ n, p.closing = .looking n ∨ p.closing = .asleep n → (Multiset.card p.headers : ℤ) ≤ n
  gone : p.closing = .completing ∨ p.closing = .ended ∧ p.enabled = false → p.headers = 0

omit [Fintype β] [DecidableEq β] in
theorem counted_looking (hle : Multiset.card m ≤ N) (hn : (Multiset.card m : ℤ) ≤ n) :
    Counted N ⟨.looking n, e, m⟩ := by
  refine ⟨hle, fun k hk => ?_, by simp⟩
  obtain rfl := Closing.looking.inj (hk.resolve_right (by simp))
  exact hn

omit [Fintype β] [DecidableEq β] in
theorem counted_freed (hle : Multiset.card m ≤ N) (hn : (Multiset.card m : ℤ) ≤ n) :
    Counted N ⟨.freed n, e, m⟩ := by
  unfold Closing.freed
  split
  · refine ⟨hle, fun k hk => ?_, by simp⟩
    obtain rfl := Closing.asleep.inj (hk.resolve_left (by simp))
    exact hn
  · exact ⟨hle, by simp, fun _ => (Multiset.card_eq_zero.mp (by omega) : m = 0)⟩

omit [Fintype β] [DecidableEq β] in
theorem counted_woken (hle : Multiset.card m ≤ N) (hn : (Multiset.card m : ℤ) ≤ n) :
    Counted N ⟨.woken n, e, m⟩ := by
  unfold Closing.woken
  split
  · exact counted_looking hle hn
  · exact ⟨hle, by simp, fun _ => (Multiset.card_eq_zero.mp (by omega) : m = 0)⟩

omit [Fintype β] [DecidableEq β] in
/-- **A step without an error** keeps the count. -/
theorem Moves.counted (hmoves : Moves N d op p p') (hop : op.Clean) (h : Counted N p) :
    Counted N p' := by
  cases hmoves with
  | stays => exact h
  | made hmore =>
    obtain rfl := h.gone (.inr ⟨rfl, rfl⟩)
    exact ⟨by simpa using hmore, by simp, by simp⟩
  | stuck => exact absurd hop (by simp [PortOp.Clean])
  | undone hmore =>
    obtain rfl := h.gone (.inr ⟨rfl, rfl⟩)
    rw [add_zero]
    exact counted_looking hmore (by exact_mod_cast hmore)
  | disable => exact counted_looking h.le (by exact_mod_cast h.le)
  | disableList =>
    have hle := h.le
    simp only [Multiset.card_add] at hle
    exact counted_freed (by omega) (by omega)
  | sweep =>
    have hle := h.le
    have hnum := h.num _ (.inl rfl)
    simp only [Multiset.card_add] at hle hnum
    exact counted_freed (by omega) (by omega)
  | wake => exact counted_woken h.le (h.num _ (.inr rfl))
  | disabled => exact ⟨Nat.zero_le _, by simp, fun _ => rfl⟩
  | error => exact absurd hop id

end Port

/-! ## Where a buffer is -/

/-- The buffers of a port: on its list, and out. -/
def place (L : Dir → List β) (away : Dir → Finset β) (d : Dir) : Multiset β :=
  (L d : Multiset β) + (away d).val

variable {port : Dir → UInt32} {nBufferCountActual : Dir → ℕ} {s s' : Ported β} {op : PortOp β}
variable {away away' : Dir → Finset β} {out : Option (Dir × β)} {t t' : Served β} {u : BufferOp β}

/-- A port of a component. -/
def Ported.view (s : Ported β) (L : Dir → List β) (d : Dir) : Port β :=
  ⟨s.closing d, s.enabled d, place L s.away d⟩

/-- **What holds of a component in use.** What has been made and not freed is
on the lists and out, in one place each, and while a port is being disabled
no other call is at its list. -/
structure Kept (portIndex : PortIndex β) (port : Dir → UInt32) (s : Ported β)
    (L : Dir → List β) : Prop where
  orderly : Orderly portIndex s.served L
  ledger : Leaves s.log (∑ d, place L s.away d)
  once : ∀ d, (place L s.away d).Nodup
  apart : ∀ d d' b, b ∈ place L s.away d → b ∈ place L s.away d' → d = d'
  port : ∀ d, ∀ b ∈ place L s.away d, portIndex d b = port d
  given : ∀ d, s.given d ⊆ s.away d
  idle : ∀ d, s.closing d ≠ .ended → ∃ r, s.served.thread d = .done r

/-- No call sleeps on while headers are on its list, but for a callback that
is about to set the flag. -/
def Ported.Awake (s : Ported β) (L : Dir → List β) : Prop :=
  ∀ d n, s.closing d = .asleep n → L d ≠ [] → s.served.buffers.posting d = 0 →
    s.served.buffers.event d = true

omit [Fintype β] [DecidableEq β] in
/-- A buffer of a port is on its list or out. -/
theorem mem_place : b ∈ place L away d ↔ b ∈ L d ∨ b ∈ away d := by
  rw [place, Multiset.mem_add, Multiset.mem_coe, Finset.mem_val]

omit [Fintype β] [DecidableEq β] in
theorem place_update_self : place (Function.update L dir (made ++ L dir)) away dir =
    (made : Multiset β) + place L away dir := by
  rw [place, Function.update_self, ← Multiset.coe_add, add_assoc, place]

omit [Fintype β] [DecidableEq β] in
theorem place_update_of_ne (hd : d ≠ dir) :
    place (Function.update L dir l) away d = place L away d := by
  rw [place, Function.update_of_ne hd, place]

omit [Fintype β] [DecidableEq β] in
/-- The buffers of the ports, with more on one list. -/
theorem mem_place_update : b ∈ place (Function.update L dir (made ++ L dir)) away d ↔
    (d = dir ∧ b ∈ made) ∨ b ∈ place L away d := by
  by_cases hd : d = dir
  · subst hd
    rw [place_update_self, Multiset.mem_add, Multiset.mem_coe]
    simp
  · rw [place_update_of_ne hd]
    simp [hd]

omit [Fintype β] [DecidableEq β] in
/-- More on one list. -/
theorem sum_place_update : ∑ d, place (Function.update L dir (made ++ L dir)) away d =
    (made : Multiset β) + ∑ d, place L away d := by
  rw [← Finset.add_sum_erase _ _ (Finset.mem_univ dir), place_update_self, add_assoc,
    Finset.sum_congr rfl fun d hd => place_update_of_ne (Finset.ne_of_mem_erase hd),
    Finset.add_sum_erase _ _ (Finset.mem_univ dir)]

omit [Fintype β] in
/-- A buffer that is on a list is not out. -/
theorem Kept.not_away (h : Kept portIndex port s L) (hb : b ∈ L d) (d' : Dir) : b ∉ s.away d' := by
  intro hb'
  obtain rfl := h.apart d d' b (mem_place.mpr (.inl hb)) (mem_place.mpr (.inr hb'))
  have hnodup := h.once d
  rw [place, Multiset.nodup_add] at hnodup
  exact Multiset.disjoint_left.mp hnodup.2.2 hb hb'

/-! ### The lists in use -/

omit [Fintype β] [DecidableEq β] in
/-- **Other links for a list** with no call at it. -/
theorem Orderly.relink {st : Buffers β} {r : Option β} (h : Orderly portIndex t L)
    (hdone : t.thread dir = .done r) (hchains : Chains st.links (Function.update L dir l))
    (hevent : ∀ d, d ≠ dir → st.event d = t.buffers.event d)
    (hposting : st.posting = t.buffers.posting) :
    Orderly portIndex ⟨st, t.thread⟩ (Function.update L dir l) := by
  have hne : ∀ {d g}, t.thread d = .looking g ∨ t.thread d = .asleep g → d ≠ dir := by
    rintro d g hg rfl
    rw [hdone] at hg
    simp at hg
  refine ⟨hchains, fun d g hg hprev => ?_, fun d g hg hthere hzero => ?_⟩
  · rw [Function.update_of_ne (hne hg)]
    exact h.prev d g hg hprev
  · have hd := hne (.inr hg)
    rw [Function.update_of_ne hd] at hthere
    rw [hposting] at hzero
    exact (hevent d hd).trans (h.awake d g hg hthere hzero)

omit [Fintype β] in
/-- The headers on a list are those before, with what has been received and
less what has been returned. -/
theorem Accounts.perm {L' : Dir → List β} (h : Accounts portIndex u out L L') (d : Dir) :
    (L d ++ u.received d).Perm (returned d out ++ L' d) := by
  refine List.perm_iff_count.mpr fun b => ?_
  have hcount := congrArg (List.count b) (h d (portIndex d b))
  have hb : wanted portIndex d (portIndex d b) b = true := decide_eq_true rfl
  rwa [← List.filter_append, List.count_filter hb, List.count_filter hb] at hcount

/-- **A step beside a list** at which no call is under way: a callback is
about to set the flag or has, or the list and its flag are as they were; and
no header is returned off it. -/
theorem Orderly.step_beside {r : Option β} (h : Orderly portIndex t L)
    (hstep : t.step portIndex u = some (t', out)) (hd : t.thread d = .done r)
    (huse : ∀ port block, u ≠ .get d port block) :
    t'.thread d = .done r ∧ returned d out = [] ∧
      ((((∃ b, u = .done d b) ∨ u = .flag d ∧ t.buffers.posting d ≠ 0) ∧
          (t'.buffers.posting d = 0 → t'.buffers.event d = true)) ∨
        t'.buffers.posting d = t.buffers.posting d ∧ t'.buffers.event d = t.buffers.event d ∧
          u.received d = []) := by
  cases u with
  | done dir b =>
    rw [Served.step] at hstep
    by_cases hon : ∃ d, b ∈ t.buffers.queue d
    · rw [if_pos hon] at hstep
      exact absurd hstep (by simp)
    · rw [if_neg hon] at hstep
      have hb : ∀ d, b ∉ L d := fun d hd => hon ⟨d, queue_eq h.chains ▸ hd⟩
      obtain ⟨st, hdone, -, hevent, hposting⟩ :
          ∃ st', bufferDone t.buffers dir b = .ok st' ∧ _ := bufferDone_eq h.chains hb
      rw [hdone] at hstep
      obtain ⟨rfl, rfl⟩ := Prod.mk.inj (Option.some.inj hstep)
      refine ⟨hd, rfl, ?_⟩
      by_cases hdir : dir = d
      · subst hdir
        refine .inl ⟨.inl ⟨b, rfl⟩, fun hzero => ?_⟩
        rw [hposting, Function.update_self] at hzero
        omega
      · refine .inr ⟨?_, congrFun hevent d, if_neg hdir⟩
        rw [hposting, Function.update_of_ne (Ne.symm hdir)]
  | flag dir =>
    rw [Served.step] at hstep
    split at hstep
    · exact absurd hstep (by simp)
    · rename_i hposting
      obtain ⟨rfl, rfl⟩ := Prod.mk.inj (Option.some.inj hstep)
      refine ⟨hd, rfl, ?_⟩
      by_cases hdir : d = dir
      · subst hdir
        exact .inl ⟨.inr ⟨rfl, hposting⟩, fun _ => Function.update_self ..⟩
      · exact .inr ⟨Function.update_of_ne hdir .., Function.update_of_ne hdir .., rfl⟩
  | get dir port block =>
    have hdir : d ≠ dir := by
      rintro rfl
      exact huse port block rfl
    rw [Served.step] at hstep
    split at hstep
    · obtain ⟨rfl, rfl⟩ := Prod.mk.inj (Option.some.inj hstep)
      exact ⟨(thread_move_of_ne hdir).trans hd, rfl, .inr ⟨rfl, rfl, rfl⟩⟩
    · exact absurd hstep (by simp)
  | look dir =>
    cases hg : t.thread dir with
    | looking g =>
      have hdir : d ≠ dir := by
        rintro rfl
        exact absurd (hd.symm.trans hg) (by simp)
      obtain ⟨st, ph, hlook, -, hevent, hposting, -⟩ := h.look_step hg
      obtain ⟨rfl, rfl⟩ := Prod.mk.inj (Option.some.inj (hlook.symm.trans hstep))
      refine ⟨(thread_move_of_ne hdir).trans hd, ?_,
        .inr ⟨congrFun hposting d, congrFun hevent d, rfl⟩⟩
      cases (L dir).find? (wanted portIndex dir g.portIndex) with
      | none => rfl
      | some b => exact if_neg (Ne.symm hdir)
    | asleep g =>
      rw [Served.step, hg] at hstep
      exact absurd hstep (by simp)
    | done ret =>
      rw [Served.step, hg] at hstep
      exact absurd hstep (by simp)
  | wake dir =>
    rw [Served.step] at hstep
    split at hstep
    · next g hg =>
      have hdir : d ≠ dir := by
        rintro rfl
        exact absurd (hd.symm.trans hg) (by simp)
      split at hstep
      · obtain ⟨rfl, rfl⟩ := Prod.mk.inj (Option.some.inj hstep)
        exact ⟨(thread_move_of_ne hdir).trans hd, rfl,
          .inr ⟨rfl, Function.update_of_ne hdir .., rfl⟩⟩
      · exact absurd hstep (by simp)
    · exact absurd hstep (by simp)

/-- A step that returns a header is no callback. -/
theorem received_eq_nil {x : Dir × β} (hstep : t.step portIndex u = some (t', some x))
    (d : Dir) : u.received d = [] := by
  cases u with
  | done dir b =>
    rw [Served.step] at hstep
    split at hstep
    · exact absurd hstep (by simp)
    · split at hstep <;> exact absurd hstep (by simp)
  | _ => rfl

/-! ### Each step -/

/-- The headers of the component after a step in use. -/
theorem Kept.use_place (h : Kept portIndex port s L) (hallows : s.allows u = true)
    {L' : Dir → List β} (hstep : s.served.step portIndex u = some (t', out))
    (haccounts : Accounts portIndex u out L L') (d : Dir) :
    place L' (s.awayAfter u out) d = place L s.away d := by
  unfold place
  have hperm := Multiset.coe_eq_coe.mpr (haccounts.perm d)
  rw [← Multiset.coe_add, ← Multiset.coe_add] at hperm
  cases out with
  | some x =>
    obtain ⟨dir, b⟩ := x
    have haway : s.awayAfter u (some (dir, b)) =
        Function.update s.away dir (insert b (s.away dir)) := by
      cases u with
      | done dir' b' =>
        have := received_eq_nil hstep dir'
        simp [BufferOp.received] at this
      | _ => rfl
    rw [received_eq_nil hstep d, Multiset.coe_nil, add_zero] at hperm
    rw [haway, hperm]
    by_cases hd : dir = d
    · subst hd
      have hb : b ∈ L dir := Multiset.mem_coe.mp (by rw [hperm]; simp [returned])
      rw [Function.update_self, Finset.insert_val_of_notMem (h.not_away hb dir), returned,
        if_pos rfl, Multiset.coe_singleton, Multiset.add_cons, Multiset.singleton_add,
        Multiset.cons_add]
    · rw [Function.update_of_ne (Ne.symm hd), returned, if_neg hd, Multiset.coe_nil, zero_add]
  | none =>
    rw [show returned d (none : Option (Dir × β)) = [] from rfl, Multiset.coe_nil, zero_add]
      at hperm
    rw [← hperm]
    cases u with
    | done dir b =>
      have hb : b ∈ s.away dir := h.given dir (of_decide_eq_true hallows)
      by_cases hd : dir = d
      · subst hd
        rw [Ported.awayAfter, Function.update_self, Finset.erase_val, BufferOp.received, if_pos rfl,
          add_assoc, Multiset.coe_singleton, Multiset.singleton_add, Multiset.cons_erase hb]
      · rw [Ported.awayAfter, Function.update_of_ne (Ne.symm hd), BufferOp.received, if_neg hd,
          Multiset.coe_nil, add_zero]
    | _ => rw [show BufferOp.received d _ = ([] : List β) from rfl, Multiset.coe_nil, add_zero]; rfl

omit [Fintype β] in
/-- What the component has is off the lists. -/
theorem givenAfter_subset (h : ∀ d, s.given d ⊆ s.away d) (d : Dir) :
    s.givenAfter u d ⊆ s.awayAfter u out d := by
  cases u with
  | done dir b =>
    rw [Ported.givenAfter, Ported.awayAfter]
    by_cases hd : d = dir
    · subst hd
      rw [Function.update_self, Function.update_self]
      exact Finset.erase_subset_erase b (h d)
    · rw [Function.update_of_ne hd, Function.update_of_ne hd]
      exact h d
  | _ =>
    refine (h d).trans ?_
    cases out with
    | none => exact subset_rfl
    | some x =>
      simp only [Ported.awayAfter]
      by_cases hd : d = x.1
      · subst hd
        rw [Function.update_self]
        exact Finset.subset_insert _ _
      · rw [Function.update_of_ne hd]

omit [Fintype β] [DecidableEq β] in
@[simp] theorem closing_close_self {ph : Closing} : (s.close dir ph).closing dir = ph :=
  Function.update_self ..

omit [Fintype β] [DecidableEq β] in
theorem closing_close_of_ne {ph : Closing} (hd : d ≠ dir) :
    (s.close dir ph).closing d = s.closing d := Function.update_of_ne hd ..

omit [Fintype β] [DecidableEq β] in
/-- No call is at the list where the thread is done and no port of it is being
disabled. -/
theorem idle_iff : s.idle dir = true ↔
    (∃ r, s.served.thread dir = .done r) ∧ s.closing dir = .ended := by
  unfold Ported.idle
  split
  · next r hr hc => simp [hr, hc]
  · next hne =>
    constructor
    · simp
    · rintro ⟨⟨r, hr⟩, hc⟩
      exact absurd hc (hne r hr)

omit [Fintype β] in
/-- The call that disables a port goes on or ends, with no other call at the
list. -/
theorem Kept.close (h : Kept portIndex port s L) (hdone : ∃ r, s.served.thread dir = .done r)
    (ph : Closing) (enabled : Dir → Bool) :
    Kept portIndex port { s.close dir ph with enabled := enabled } L := by
  refine ⟨h.orderly, h.ledger, h.once, h.apart, h.port, h.given, fun d hd => ?_⟩
  by_cases hdir : d = dir
  · subst hdir
    exact hdone
  · exact h.idle d ((congrArg (· ≠ Closing.ended) (closing_close_of_ne hdir)).mp hd)

omit [Fintype β] [DecidableEq β] in
/-- A port moves, by what it is before the step and after it. -/
theorem Port.Moves.view {N : ℕ} {ph ph' : Closing} {e e' : Bool} {m m' : Multiset β}
    (h : Port.Moves N d op ⟨ph, e, m⟩ ⟨ph', e', m'⟩) (hclosing : s.closing d = ph)
    (henabled : s.enabled d = e) (hplace : place L s.away d = m) (hclosing' : s'.closing d = ph')
    (henabled' : s'.enabled d = e') (hplace' : place L' s'.away d = m') :
    Port.Moves N d op (s.view L d) (s'.view L' d) := by
  subst hclosing henabled hplace hclosing' henabled' hplace'
  exact h

omit [Fintype β] [DecidableEq β] in
/-- The other ports stay as they are. -/
theorem stays_of_ne {N : ℕ} (hclosing : s'.closing d = s.closing d)
    (henabled : s'.enabled d = s.enabled d) (hplace : place L' s'.away d = place L s.away d) :
    Port.Moves N d op (s.view L d) (s'.view L' d) :=
  Port.Moves.stays.view rfl rfl rfl hclosing henabled hplace

omit [Fintype β] [DecidableEq β] in
/-- Nor does a call at the other list sleep on. -/
theorem Ported.Awake.close {ph : Closing} {served : Served β} {enabled : Dir → Bool}
    {away' given : Dir → Finset β} {log : List (Entry β)} (h : s.Awake L)
    (hdir : ∀ n, ph = .asleep n → L' dir = [])
    (hothers : ∀ d, d ≠ dir → L' d = L d ∧
      served.buffers.posting d = s.served.buffers.posting d ∧
      served.buffers.event d = s.served.buffers.event d) :
    Ported.Awake ⟨served, enabled, away', given, log, (s.close dir ph).closing⟩ L' := by
  intro d n hd hne hzero
  by_cases hdir' : d = dir
  · subst hdir'
    exact absurd (hdir n (closing_close_self.symm.trans hd)) hne
  · obtain ⟨hL, hposting, hevent⟩ := hothers d hdir'
    rw [hL] at hne
    exact hevent.trans (h d n ((closing_close_of_ne hdir').symm.trans hd) hne
      (hposting.symm.trans hzero))

/-- **A step in use** moves headers between the list and those who have
them. -/
theorem Kept.use (h : Kept portIndex port s L) (hallows : s.allows u = true)
    (hstep : s.served.step portIndex u = some (t', out)) :
    ∃ L', Kept portIndex port { s with
        served := t'
        away := s.awayAfter u out
        given := s.givenAfter u } L' ∧
      place L' (s.awayAfter u out) = place L s.away ∧
      (s.Awake L → Ported.Awake { s with
        served := t'
        away := s.awayAfter u out
        given := s.givenAfter u } L') := by
  obtain ⟨L', horderly, haccounts⟩ := h.orderly.step hstep
  have hplace : place L' (s.awayAfter u out) = place L s.away :=
    funext fun d => h.use_place hallows hstep haccounts d
  have hget : ∀ d, s.closing d ≠ .ended → ∀ port block, u ≠ .get d port block := by
    rintro d hd port block rfl
    exact hd (idle_iff.mp hallows).2
  refine ⟨L', ⟨horderly, ?_, ?_, ?_, ?_, givenAfter_subset h.given, fun d hd => ?_⟩, hplace,
    fun hawake d n hd hne hzero => ?_⟩
  · simpa only [hplace] using h.ledger
  · simpa only [hplace] using h.once
  · simpa only [hplace] using h.apart
  · simpa only [hplace] using h.port
  · obtain ⟨r, hr⟩ := h.idle d hd
    exact ⟨r, (h.orderly.step_beside hstep hr (hget d hd)).1⟩
  · have hclosing : s.closing d ≠ .ended := by
      change s.closing d = _ at hd
      rw [hd]
      simp
    obtain ⟨r, hr⟩ := h.idle d hclosing
    rcases (h.orderly.step_beside hstep hr (hget d hclosing)).2.2 with
      ⟨-, hflag⟩ | ⟨hposting, hevent, hnil⟩
    · exact hflag hzero
    · refine hevent.trans (hawake d n hd ?_ (hposting.symm.trans hzero))
      -- what is on the list now was there before
      rintro hL
      have hperm := haccounts.perm d
      rw [hL, hnil, List.append_nil] at hperm
      exact hne (List.append_eq_nil_iff.mp hperm.nil_eq.symm).2

omit [Fintype β] in
/-- **Headers freed**, from the list or from what is out. -/
theorem Kept.free (h : Kept portIndex port s L) (horderly : Orderly portIndex t' L')
    (hdir : place L s.away dir = (l : Multiset β) + place L' away' dir)
    (hothers : ∀ d, d ≠ dir → place L' away' d = place L s.away d)
    (hgiven : ∀ d, s.given d ⊆ away' d) (hthread : t'.thread = s.served.thread) :
    Kept portIndex port { s with
      served := t'
      away := away'
      log := s.log ++ l.map .release } L' := by
  have hle : ∀ d, place L' away' d ≤ place L s.away d := by
    intro d
    by_cases hd : d = dir
    · subst hd
      rw [hdir]
      exact Multiset.le_add_left _ _
    · exact (hothers d hd).le
  have hmem : ∀ {d b}, b ∈ place L' away' d → b ∈ place L s.away d :=
    fun hb => Multiset.mem_of_le (hle _) hb
  refine ⟨horderly, ?_, fun d => Multiset.nodup_of_le (hle d) (h.once d),
    fun d d' b hb hb' => h.apart d d' b (hmem hb) (hmem hb'), fun d b hb => h.port d b (hmem hb),
    hgiven, fun d hd => ?_⟩
  · have hsum : ∑ d, place L s.away d = (l : Multiset β) + ∑ d, place L' away' d := by
      rw [← Finset.add_sum_erase _ _ (Finset.mem_univ dir), hdir, add_assoc,
        ← Finset.sum_congr rfl fun d hd => hothers d (Finset.ne_of_mem_erase hd),
        Finset.add_sum_erase _ _ (Finset.mem_univ dir)]
    have hledger := h.ledger
    rw [hsum] at hledger
    exact hledger.release_list
  · rw [hthread]
    exact h.idle d hd

/-- **The headers on the list freed.** -/
theorem Kept.sweep (h : Kept portIndex port s L) (hlooking : s.closing dir = .looking n) :
    ∃ links, disableRound portIndex s.served.buffers dir (port dir) =
        .ok ({ s.served.buffers with links := links }, (L dir).reverse) ∧
      place L s.away dir = ((L dir).reverse : Multiset β) +
        place (Function.update L dir []) s.away dir ∧
      Kept portIndex port { s with
        served := { s.served with buffers := { s.served.buffers with links := links } }
        log := s.log ++ (L dir).reverse.map .release } (Function.update L dir []) := by
  obtain ⟨r, hr⟩ := h.idle dir (by rw [hlooking]; simp)
  obtain ⟨links, hround, hchains⟩ := disableRound_eq h.orderly.chains fun b hb =>
    h.port dir b (mem_place.mpr (.inl hb))
  have hplace : place L s.away dir = ((L dir).reverse : Multiset β) +
      place (Function.update L dir []) s.away dir := by
    rw [place, place, Function.update_self, Multiset.coe_nil, zero_add, Multiset.coe_reverse]
  exact ⟨links, hround, hplace, h.free (h.orderly.relink hr hchains (fun _ _ => rfl) rfl) hplace
    (fun d hd => place_update_of_ne hd) h.given rfl⟩

omit [Fintype β] in
/-- The headers of a `bufferList` are among those out. -/
theorem place_bufferList {bufferList : List β} (hnodup : bufferList.Nodup)
    (haway : ∀ b ∈ bufferList, b ∈ s.away dir) :
    place L s.away dir = (bufferList : Multiset β) +
      place L (Function.update s.away dir (s.away dir \ bufferList.toFinset)) dir := by
  have hle : (bufferList : Multiset β) ≤ (s.away dir).val :=
    (Multiset.le_iff_subset (Multiset.coe_nodup.mpr hnodup)).mpr fun b hb => haway b hb
  rw [place, place, Function.update_self, Finset.sdiff_val, List.toFinset_val, hnodup.dedup,
    add_left_comm, add_tsub_cancel_of_le hle]

/-- **Buffers made** are on the list, and nowhere besides. -/
theorem Kept.enable {bufs : List (β × Bool)} (h : Kept portIndex port s L)
    (hdone : ∃ r, s.served.thread dir = .done r)
    (hnodup : (bufs.map Prod.fst).Nodup)
    (hnew : ∀ b ∈ bufs.map Prod.fst, ¬ s.Has b ∧ portIndex dir b = port dir) (n : ℕ)
    (enabled : Dir → Bool) :
    ∃ more, more.length ≤ n ∧ Kept portIndex port
      { s with
        served := { s.served with
          buffers := { s.served.buffers with
            links := (allocLoop n bufs ⟨s.served.buffers.links, none, none, s.log⟩).2.queue dir } }
        enabled := enabled
        log := (allocLoop n bufs ⟨s.served.buffers.links, none, none, s.log⟩).2.log }
      (Function.update L dir (more ++ L dir)) := by
  have hqueue := queue_eq h.orderly.chains
  have hoff : ∀ b ∈ bufs.map Prod.fst, ∀ d, b ∉ place L s.away d := fun b hb d hd =>
    (hnew b hb).1 ⟨d, hqueue ▸ mem_place.mp hd⟩
  have hstart : Allocating.Made ⟨s.served.buffers.links, none, none, s.log⟩ L ([] : List β) :=
    ⟨h.orderly.chains, rfl, rfl⟩
  have hledger : Leaves s.log ((([] : List β) : Multiset β) + ∑ d, place L s.away d) := by
    simpa using h.ledger
  obtain ⟨more, hprefix, hmade, hlog, hlen⟩ := allocLoop_spec (n := n) bufs hstart
    (by rwa [List.nil_append]) (fun e he d hd => hoff e he d (mem_place.mpr (.inl hd))) hledger
  rw [List.nil_append] at hmade hlog
  have hmore : ∀ b ∈ more, b ∈ bufs.map Prod.fst := fun b hb => hprefix.subset hb
  have hchains : Chains (Allocating.queue _ dir) _ := hmade.queue fun e he d hd =>
    hoff e (hmore e he) d (mem_place.mpr (.inl hd))
  obtain ⟨r, hr⟩ := hdone
  refine ⟨more, hlen, h.orderly.relink hr hchains (fun _ _ => rfl) rfl, ?_, fun d => ?_,
    fun d d' b hb hb' => ?_, fun d b hb => ?_, h.given, h.idle⟩
  · rw [sum_place_update]
    exact hlog
  · by_cases hd : d = dir
    · subst hd
      rw [place_update_self, Multiset.nodup_add]
      refine ⟨hnodup.sublist hprefix.sublist, h.once d, Multiset.disjoint_left.mpr ?_⟩
      intro b hb
      exact hoff b (hmore b hb) d
    · rw [place_update_of_ne hd]
      exact h.once d
  · rcases mem_place_update.mp hb with ⟨hd, hm⟩ | hm
    · rcases mem_place_update.mp hb' with ⟨hd', -⟩ | hm'
      · exact hd.trans hd'.symm
      · exact absurd hm' (hoff b (hmore b hm) d')
    · rcases mem_place_update.mp hb' with ⟨-, hm'⟩ | hm'
      · exact absurd hm (hoff b (hmore b hm') d)
      · exact h.apart d d' b hm hm'
  · rcases mem_place_update.mp hb with ⟨rfl, hm⟩ | hm
    · exact (hnew b (hmore b hm)).2
    · exact h.port d b hm

omit [Fintype β] in
/-- The flag of a list taken, with no call at the list that is to have it. -/
theorem Kept.takeFlag (h : Kept portIndex port s L)
    (hdone : ∃ r, s.served.thread dir = .done r) :
    Kept portIndex port { s with served := s.served.takeFlag dir } L := by
  have hself : Function.update L dir (L dir) = L := Function.update_eq_self ..
  obtain ⟨r, hr⟩ := hdone
  have horderly : Orderly portIndex ⟨{ s.served.buffers with
      event := Function.update s.served.buffers.event dir false }, s.served.thread⟩
      (Function.update L dir (L dir)) :=
    h.orderly.relink hr (by rw [hself]; exact h.orderly.chains)
      (fun d hd => Function.update_of_ne hd ..) rfl
  rw [hself] at horderly
  exact ⟨horderly, h.ledger, h.once, h.apart, h.port, h.given, h.idle⟩

/-- A call that disables a port has no `bufferList`. -/
def PortOp.NoList : PortOp β → Prop
  | .disable _ bufferList => bufferList = []
  | _ => True

omit [Fintype β] in
/-- **A call that wakes**, with the flag of its list taken or not, and goes on
from there. -/
theorem Kept.wakes {ph : Closing} {served : Served β} (h : Kept portIndex port s L)
    (hclosing : s.closing dir ≠ .ended)
    (hserved : served = s.served ∨ served = s.served.takeFlag dir) (hph : ∀ n, ph ≠ .asleep n)
    (hmove : Port.Moves (nBufferCountActual dir) dir op (s.view L dir)
      ⟨ph, s.enabled dir, place L s.away dir⟩) :
    ∃ L', Kept portIndex port { s.close dir ph with served := served } L' ∧
      (∀ d, Port.Moves (nBufferCountActual d) d op (s.view L d)
        (Ported.view { s.close dir ph with served := served } L' d)) ∧
      (op.NoList → s.Awake L → Ported.Awake { s.close dir ph with served := served } L') := by
  have hdone := h.idle dir hclosing
  have hasleep : ∀ n, ph = .asleep n → L dir = [] := fun n hn => absurd hn (hph n)
  refine ⟨L, ?_, fun d => ?_, fun _ hawake => ?_⟩
  · rcases hserved with rfl | rfl
    · exact h.close hdone _ _
    · exact (h.takeFlag hdone).close hdone _ _
  · by_cases hd : d = dir
    · subst hd
      exact hmove.view rfl rfl rfl closing_close_self rfl rfl
    · exact stays_of_ne (Function.update_of_ne hd ..) rfl rfl
  · rcases hserved with rfl | rfl
    · exact hawake.close hasleep fun _ _ => ⟨rfl, rfl, rfl⟩
    · exact hawake.close hasleep fun d hd => ⟨rfl, rfl, Function.update_of_ne hd ..⟩

/-- **A step that enables a port.** -/
theorem Kept.step_enable {bufs : List (β × Bool)} {ok up : Bool} (h : Kept portIndex port s L)
    (hstep : s.step portIndex port nBufferCountActual (.enable dir bufs ok up) = some (s', out)) :
    ∃ L', Kept portIndex port s' L' ∧
      (∀ d, Port.Moves (nBufferCountActual d) d (.enable dir bufs ok up) (s.view L d)
        (s'.view L' d)) ∧ (s.Awake L → s'.Awake L') := by
  rw [Ported.step] at hstep
  split at hstep
  · exact absurd hstep (by simp)
  · rename_i hguard
    obtain ⟨hidle, hnodup, hnew⟩ : s.idle dir = true ∧ (bufs.map Prod.fst).Nodup ∧
          ∀ b ∈ bufs.map Prod.fst, ¬ s.Has b ∧ portIndex dir b = port dir := by
      simp only [not_or, Bool.not_eq_eq_eq_not, Bool.not_true, Bool.not_eq_false, not_not,
        not_exists, not_and] at hguard
      exact hguard
    obtain ⟨hdone, hclosing⟩ := idle_iff.mp hidle
    split at hstep
    · obtain ⟨rfl, -⟩ := Prod.mk.inj (Option.some.inj hstep)
      exact ⟨L, h, fun _ => .stays, id⟩
    · rename_i henabled
      replace henabled : s.enabled dir = false := Bool.eq_false_iff.mpr (not_or.mp henabled).1
      obtain ⟨rfl, -⟩ := Prod.mk.inj (Option.some.inj hstep)
      simp only
      split
      · -- the call that could not enable the port goes on to disable it
        rename_i hfailed
        obtain ⟨more, hlen, hkept⟩ := (h.close hdone (.looking (nBufferCountActual dir))
          s.enabled).enable hdone hnodup hnew (nBufferCountActual dir) _
        refine ⟨_, hkept, fun d => ?_, fun hawake => ?_⟩
        · by_cases hd : d = dir
          · subst hd
            exact (Port.Moves.undone (by simpa using hlen)).view hclosing henabled rfl
              (Function.update_self ..)
              ((Function.update_self ..).trans (by simp [(Bool.and_eq_true_iff.mp hfailed).1]))
              place_update_self
          · exact stays_of_ne (Function.update_of_ne hd ..) (Function.update_of_ne hd ..)
              (place_update_of_ne hd)
        · exact hawake.close (by simp) fun d hd => ⟨Function.update_of_ne hd .., rfl, rfl⟩
      · rename_i hfailed
        obtain ⟨more, hlen, hkept⟩ := h.enable hdone hnodup hnew (nBufferCountActual dir) _
        refine ⟨_, hkept, fun d => ?_, fun hawake d n hd hne => ?_⟩
        · by_cases hd : d = dir
          · subst hd
            have hcard : Multiset.card (more : Multiset β) ≤ nBufferCountActual d := by
              simpa using hlen
            by_cases hok : ((allocLoop (nBufferCountActual d) bufs
                ⟨s.served.buffers.links, none, none, s.log⟩).1 && ok) = true
            · exact (Port.Moves.made hcard).view hclosing henabled rfl hclosing
                ((Function.update_self ..).trans (by rw [hok]; rfl)) place_update_self
            · rw [Bool.not_eq_true] at hok
              obtain rfl : up = false := by simpa [hok] using hfailed
              exact Port.Moves.stuck.view hclosing henabled rfl hclosing
                ((Function.update_self ..).trans (by rw [hok]; rfl)) place_update_self
          · exact stays_of_ne rfl (Function.update_of_ne hd ..) (place_update_of_ne hd)
        · have hdir : d ≠ dir := by
            rintro rfl
            exact absurd (hclosing.symm.trans hd) (by simp)
          rw [Function.update_of_ne hdir] at hne
          exact hawake d n hd hne

/-- **A step that begins to disable a port.** -/
theorem Kept.step_disable {bufferList : List β} (h : Kept portIndex port s L)
    (hstep : s.step portIndex port nBufferCountActual (.disable dir bufferList) =
      some (s', out)) :
    Kept portIndex port s' L ∧
      (∀ d, Port.Moves (nBufferCountActual d) d (.disable dir bufferList) (s.view L d)
        (s'.view L d)) ∧ (bufferList = [] → s.Awake L → s'.Awake L) := by
  rw [Ported.step] at hstep
  split at hstep
  · exact absurd hstep (by simp)
  · rename_i hguard
    obtain ⟨hidle, hnodup, hlist⟩ : s.idle dir = true ∧ bufferList.Nodup ∧
        ∀ b ∈ bufferList, b ∈ s.away dir ∧ b ∉ s.given dir := by
      simp only [not_or, Bool.not_eq_eq_eq_not, Bool.not_true, Bool.not_eq_false, not_not,
        not_exists, not_and] at hguard
      exact hguard
    obtain ⟨⟨r, hr⟩, hclosing⟩ := idle_iff.mp hidle
    split at hstep
    · obtain ⟨rfl, -⟩ := Prod.mk.inj (Option.some.inj hstep)
      exact ⟨h, fun _ => .stays, fun _ => id⟩
    · rename_i henabled
      replace henabled : s.enabled dir = true := by
        simpa using (not_or.mp henabled).1
      obtain ⟨rfl, -⟩ := Prod.mk.inj (Option.some.inj hstep)
      have hplace : place L s.away dir = (bufferList : Multiset β) + _ :=
        place_bufferList hnodup fun b hb => (hlist b hb).1
      have hothers : ∀ d, d ≠ dir → place L (Function.update s.away dir
          (s.away dir \ bufferList.toFinset)) d = place L s.away d := fun d hd => by
        rw [place, Function.update_of_ne hd, place]
      have hgiven : ∀ d, s.given d ⊆ Function.update s.away dir
          (s.away dir \ bufferList.toFinset) d := by
        intro d b hb
        by_cases hd : d = dir
        · subst hd
          rw [Function.update_self, Finset.mem_sdiff, List.mem_toFinset]
          exact ⟨h.given d hb, fun hmem => (hlist b hmem).2 hb⟩
        · rw [Function.update_of_ne hd]
          exact h.given d hb
      refine ⟨(h.free h.orderly hplace hothers hgiven rfl).close ⟨r, hr⟩ _ _, fun d => ?_,
        fun hnil hawake => hawake.close (fun n hn => ?_) fun _ _ => ⟨rfl, rfl, rfl⟩⟩
      · by_cases hd : d = dir
        · subst hd
          by_cases hnil : bufferList = []
          · subst hnil
            refine Port.Moves.disable.view hclosing henabled hplace
              ((Function.update_self ..).trans (if_pos rfl)) (Function.update_self ..) ?_
            rw [Multiset.coe_nil, zero_add]
          · exact Port.Moves.disableList.view hclosing henabled hplace
              ((Function.update_self ..).trans (if_neg hnil)) (Function.update_self ..) rfl
        · exact stays_of_ne (Function.update_of_ne hd ..) (Function.update_of_ne hd ..)
            (hothers d hd)
      · rw [if_pos hnil] at hn
        exact absurd hn (by simp)

/-- **Every step** keeps the buffers where they are to be, and does to each
port what it is to do. -/
theorem Kept.step (h : Kept portIndex port s L)
    (hstep : s.step portIndex port nBufferCountActual op = some (s', out)) :
    ∃ L', Kept portIndex port s' L' ∧
      (∀ d, Port.Moves (nBufferCountActual d) d op (s.view L d) (s'.view L' d)) ∧
      (op.NoList → s.Awake L → s'.Awake L') := by
  cases op with
  | enable dir bufs ok up =>
    obtain ⟨L', hkept, hmoves, hawake⟩ := h.step_enable hstep
    exact ⟨L', hkept, hmoves, fun _ => hawake⟩
  | disable dir bufferList => exact ⟨L, h.step_disable hstep⟩
  | use u =>
    rw [Ported.step] at hstep
    split at hstep
    · rename_i hallows
      split at hstep
      · exact absurd hstep (by simp)
      · rename_i served out' hserved
        obtain ⟨rfl, rfl⟩ := Prod.mk.inj (Option.some.inj hstep)
        obtain ⟨L', hkept, hplace, hawake⟩ := h.use hallows hserved
        exact ⟨L', hkept, fun d => stays_of_ne rfl rfl (congrFun hplace d), fun _ => hawake⟩
    · exact absurd hstep (by simp)
  | give dir b =>
    rw [Ported.step] at hstep
    split at hstep
    · rename_i hlent
      obtain ⟨rfl, -⟩ := Prod.mk.inj (Option.some.inj hstep)
      have hgiven : ∀ d, Function.update s.given dir (insert b (s.given dir)) d ⊆ s.away d := by
        intro d
        by_cases hd : d = dir
        · subst hd
          rw [Function.update_self]
          exact Finset.insert_subset hlent.1 (h.given d)
        · rw [Function.update_of_ne hd]
          exact h.given d
      exact ⟨L, ⟨h.orderly, h.ledger, h.once, h.apart, h.port, hgiven, h.idle⟩,
        fun d => stays_of_ne rfl rfl rfl, fun _ => id⟩
    · exact absurd hstep (by simp)
  | sweep dir =>
    rw [Ported.step] at hstep
    split at hstep
    · rename_i num hlooking
      obtain ⟨links, hround, hplace, hkept⟩ := h.sweep hlooking
      simp only [hround] at hstep
      obtain ⟨rfl, -⟩ := Prod.mk.inj (Option.some.inj hstep)
      have hdone := h.idle dir (by rw [hlooking]; simp)
      refine ⟨_, hkept.close hdone _ _, fun d => ?_, fun _ hawake => hawake.close
        (fun _ _ => Function.update_self ..) fun d hd => ⟨Function.update_of_ne hd .., rfl, rfl⟩⟩
      by_cases hd : d = dir
      · subst hd
        exact Port.Moves.sweep.view hlooking rfl hplace (Function.update_self ..) rfl rfl
      · exact stays_of_ne (Function.update_of_ne hd ..) rfl (place_update_of_ne hd)
    · exact absurd hstep (by simp)
  | wake dir other =>
    rw [Ported.step] at hstep
    split at hstep
    · rename_i num hasleep
      split at hstep
      · obtain ⟨rfl, -⟩ := Prod.mk.inj (Option.some.inj hstep)
        refine h.wakes (by rw [hasleep]; simp) (.inr rfl) (fun n => ?_) ?_
        · unfold Closing.woken
          split <;> simp
        · rw [Ported.view, hasleep]
          exact .wake
      · exact absurd hstep (by simp)
    · exact absurd hstep (by simp)
  | disabled dir =>
    rw [Ported.step] at hstep
    split at hstep
    · rename_i hready
      obtain ⟨rfl, -⟩ := Prod.mk.inj (Option.some.inj hstep)
      obtain ⟨hwaits, hqueue, haway⟩ := hready
      have hnone : place L s.away dir = 0 := by
        rw [place, ← queue_eq h.orderly.chains, hqueue, haway]
        rfl
      refine h.wakes (fun hended => ?_) (by split <;> simp) (by simp) ?_
      · rw [hended] at hwaits
        exact absurd hwaits (by decide)
      · rw [Ported.view, hnone]
        exact .disabled
    · exact absurd hstep (by simp)
  | error dir =>
    rw [Ported.step] at hstep
    split at hstep
    · rename_i num hasleep
      obtain ⟨rfl, -⟩ := Prod.mk.inj (Option.some.inj hstep)
      refine h.wakes (by rw [hasleep]; simp) (.inr rfl) (by simp) ?_
      rw [Ported.view, hasleep]
      exact .error
    · exact absurd hstep (by simp)

/-! ## Whole runs -/

variable {ops : List (PortOp β)} {outs : List (Option (Dir × β))}

omit [Fintype β] [DecidableEq β] in
theorem place_portedInit (d : Dir) : place (fun _ => []) (portedInit (β := β)).away d = 0 := rfl

omit [Fintype β] in
theorem kept_init : Kept portIndex port portedInit fun _ => [] where
  orderly := orderly_init
  ledger := by
    simp only [place_portedInit, Finset.sum_const_zero]
    exact leaves_nil
  once d := by rw [place_portedInit]; exact Multiset.nodup_zero
  apart d d' b hb := by rw [place_portedInit] at hb; simp at hb
  port d b hb := by rw [place_portedInit] at hb; simp at hb
  given d := subset_rfl
  idle d hd := absurd rfl hd

/-- **What every run keeps.** -/
theorem kept_of_run
    (hrun : (portSteps portIndex port nBufferCountActual).run portedInit ops = some (s, outs)) :
    Kept portIndex port s s.served.buffers.queue := by
  have hexists : ∃ L, Kept portIndex port s L :=
    Machine.run_invariant (I := fun s => ∃ L, Kept portIndex port s L) ⟨_, kept_init⟩
      (fun s op s' out ⟨L, h⟩ hstep => (h.step hstep).imp fun _ h => h.1) hrun
  obtain ⟨L, h⟩ := hexists
  exact queue_eq h.orderly.chains ▸ h

omit [Fintype β] [DecidableEq β] in
theorem sum_dir (f : Dir → Multiset β) : ∑ d, f d = f .input + f .output :=
  Finset.sum_pair (by simp)

/-- **Where the buffers of a component are.** In every run of enabling,
using and disabling its input port and its output port, with allocations that
fail, commands that fail, headers handed to the call that disables and
callbacks in any order, what has been made and not freed is what is on the
lists and what is out, and each buffer is in one place: none is lost or freed
twice, and of what is out none is freed but what is handed over. What the
component has is out. -/
theorem leaves_of_run
    (hrun : (portSteps portIndex port nBufferCountActual).run portedInit ops = some (s, outs)) :
    Leaves s.log (∑ d, place s.served.buffers.queue s.away d) ∧
      (∑ d, place s.served.buffers.queue s.away d).Nodup ∧ ∀ d, s.given d ⊆ s.away d := by
  have h := kept_of_run hrun
  refine ⟨h.ledger, ?_, h.given⟩
  rw [sum_dir, Multiset.nodup_add]
  refine ⟨h.once _, h.once _, Multiset.disjoint_left.mpr ?_⟩
  intro b hb hb'
  exact absurd (h.apart _ _ b hb hb') (by simp)

/-- The ports of a component, 200 and 201. -/
def twoPorts : Dir → UInt32
  | .input => 200
  | .output => 201

/-- Two buffers are made, one is lent, and the port is being disabled. -/
def lent : List (PortOp (Fin 2)) :=
  [.enable .output ((List.finRange 2).map fun buf => (buf, true)) true true,
    .use (.get .output 201 true), .use (.look .output), .disable .output [], .sweep .output]

theorem leaves_of_run_lent :
    ∃ s outs, (portSteps (fun d _ => twoPorts d) twoPorts fun _ => 2).run portedInit lent =
        some (s, outs) ∧ Leaves s.log (∑ d, place s.served.buffers.queue s.away d) ∧
      (∑ d, place s.served.buffers.queue s.away d).Nodup := by
  have hruns : ((portSteps (fun d _ => twoPorts d) twoPorts fun _ => 2).run portedInit
      lent).isSome = true := by decide +kernel
  obtain ⟨⟨s, outs⟩, hrun⟩ := Option.isSome_iff_exists.mp hruns
  obtain ⟨hleaves, hnodup, -⟩ := leaves_of_run hrun
  exact ⟨s, outs, hrun, hleaves, hnodup⟩

/-- **A port that is disabled has no buffers left**, where the component tells
of no error while one is being disabled and every port that could not be
enabled is up, so that it is disabled again; and with both ports disabled
everything made has been freed. -/
theorem settled_of_run (hclean : ∀ op ∈ ops, op.Clean)
    (hrun : (portSteps portIndex port nBufferCountActual).run portedInit ops = some (s, outs)) :
    (∀ d, s.closing d = .ended → s.enabled d = false →
      s.served.buffers.queue d = [] ∧ s.away d = ∅) ∧
    ((∀ d, s.closing d = .ended ∧ s.enabled d = false) → Settled s.log) := by
  have hstep : ∀ (s : Ported β) (op : PortOp β) (s' : Ported β) (out : Option (Dir × β)),
      (∃ L, Kept portIndex port s L ∧ ∀ d, (s.view L d).Counted (nBufferCountActual d)) →
      op.Clean → (portSteps portIndex port nBufferCountActual).step s op = some (s', out) →
      (∃ L, Kept portIndex port s' L ∧ ∀ d, (s'.view L d).Counted (nBufferCountActual d)) ∧
        True := by
    rintro s op s' out ⟨L, h, hcounted⟩ hop hstep
    obtain ⟨L', h', hmoves, -⟩ := h.step hstep
    exact ⟨⟨L', h', fun d => (hmoves d).counted hop (hcounted d)⟩, trivial⟩
  have hinit : ∀ d, ((portedInit (β := β)).view (fun _ => []) d).Counted
      (nBufferCountActual d) := fun d =>
    ⟨by simp [Ported.view, place_portedInit], by simp [Ported.view, portedInit],
      fun _ => place_portedInit d⟩
  obtain ⟨⟨L, h, hcounted⟩, -⟩ := Machine.run_forall (Q := fun _ => True) hstep
    ⟨_, kept_init, hinit⟩ hclean hrun
  rw [queue_eq h.orderly.chains]
  have hgone : ∀ d, s.closing d = .ended → s.enabled d = false → place L s.away d = 0 :=
    fun d hd hoff => (hcounted d).gone (.inr ⟨hd, hoff⟩)
  refine ⟨fun d hd hoff => ?_, fun hall => ?_⟩
  · have hcard := congrArg Multiset.card (hgone d hd hoff)
    rw [place, Multiset.card_add, Multiset.coe_card, Finset.card_val, Multiset.card_zero] at hcard
    exact ⟨List.eq_nil_of_length_eq_zero (by omega), Finset.card_eq_zero.mp (by omega)⟩
  · have hledger := h.ledger
    rw [Finset.sum_congr rfl fun d _ => hgone d (hall d).1 (hall d).2,
      Finset.sum_const_zero] at hledger
    exact hledger

/-- The buffer that was lent comes back, and the port is disabled. -/
def lentBack (b : Fin 2) : List (PortOp (Fin 2)) :=
  lent ++ [.give .output b, .use (.done .output b), .use (.flag .output), .wake .output false,
    .sweep .output, .disabled .output]

/-- With the buffer back everything has been freed. -/
theorem settled_of_run_lentBack :
    ∃ s outs, (portSteps (fun d _ => twoPorts d) twoPorts fun _ => 2).run portedInit (lentBack 0) =
        some (s, outs) ∧ Settled s.log := by
  have hends : ((portSteps (fun d _ => twoPorts d) twoPorts fun _ => 2).run portedInit
      (lentBack 0)).any (fun r => ∀ d, r.1.closing d = .ended ∧ r.1.enabled d = false) =
        true := by decide +kernel
  obtain ⟨⟨s, outs⟩, hrun, hall⟩ := (Option.any_eq_true _ _).mp hends
  have hclean : ∀ op ∈ lentBack 0, op.Clean := by simp [lentBack, lent, PortOp.Clean]
  exact ⟨s, outs, hrun, (settled_of_run hclean hrun).2 (of_decide_eq_true hall)⟩

end Ilclient

end Camkit
