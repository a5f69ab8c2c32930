import Camkit.Ilclient.Model.Ports
import Camkit.Ilclient.Queues
/-!
# IL client — making buffers, and taking them off

The loop that makes the buffers of a port builds a chain of its own, which
is linked in front of the list at the end. The walk that takes them off
reverses the list as it goes, and leaves the list at the first header of
another port.
-/

namespace Camkit

namespace Ilclient

open Ledger

variable {β : Type} [Fintype β] [DecidableEq β] {portIndex : PortIndex β}
variable {L : Dir → List β} {dir d : Dir} {b : β} {n : ℕ} {links : Links Dir β}
variable {made l : List β} {held : Multiset β}

/-! ## Making buffers -/

/-- What the loop has made: a chain of headers, the last of them in `last`,
besides the lists. -/
structure Allocating.Made (a : Allocating β) (L : Dir → List β) (made : List β) : Prop where
  chains : Chains a.links L
  chain : Chain a.links a.list made
  last : a.last = made.getLast?

variable {a : Allocating β}

omit [Fintype β] in
theorem Allocating.Made.add (h : a.Made L made) (hb : b ∉ made) (hL : ∀ d, b ∉ L d)
    (hmade : ∀ e ∈ made, ∀ d, e ∉ L d) : (a.add b).Made L (made ++ [b]) := by
  have hlast := h.last
  rcases List.eq_nil_or_concat made with rfl | ⟨l, e, rfl⟩
  · rw [List.getLast?_nil] at hlast
    unfold Allocating.add
    simp only [hlast]
    exact ⟨h.chains.update_next hL, ⟨rfl, Function.update_self ..⟩, rfl⟩
  · rw [List.concat_eq_append] at *
    rw [List.getLast?_concat] at hlast
    have hne : e ≠ b := by
      rintro rfl
      exact hb (List.mem_append_right _ List.mem_cons_self)
    unfold Allocating.add
    simp only [hlast]
    refine ⟨?_, ?_, (List.getLast?_concat ..).symm⟩
    · exact (h.chains.update_next (hmade e (by simp))).update_next hL
    · -- the link that ends the chain leads on to the new header
      rw [Function.update_comm (by simpa using hne), List.append_assoc]
      refine Chain.join (h.chain.congr fun c hc => Function.update_of_ne ?_ ..)
        ⟨rfl, Function.update_self ..⟩ (by simpa using hne)
      rintro ⟨⟩
      exact hb hc

omit [Fintype β] in
/-- **The loop**: some of the buffers are made, all of them if it says so, and
the one that is not taken is freed again. -/
theorem allocLoop_spec (bufs : List (β × Bool)) (h : a.Made L made)
    (hnodup : (made ++ bufs.map Prod.fst).Nodup)
    (hL : ∀ e ∈ made ++ bufs.map Prod.fst, ∀ d, e ∉ L d)
    (hledger : Leaves a.log ((made : Multiset β) + held)) :
    ∃ more, more <+: bufs.map Prod.fst ∧ (allocLoop n bufs a).2.Made L (made ++ more) ∧
      Leaves (allocLoop n bufs a).2.log ((made ++ more : List β) + held) ∧ more.length ≤ n := by
  induction n generalizing bufs a made with
  | zero => exact ⟨[], List.nil_prefix, by rw [List.append_nil]; exact h,
      by rw [List.append_nil]; exact hledger, le_rfl⟩
  | succ n ih =>
    rcases bufs with _ | ⟨⟨buf, _ | _⟩, bufs⟩
    · exact ⟨[], List.nil_prefix, by rw [List.append_nil]; exact h,
        by rw [List.append_nil]; exact hledger, Nat.zero_le _⟩
    · refine ⟨[], List.nil_prefix, by rw [List.append_nil]; exact ⟨h.chains, h.chain, h.last⟩, ?_,
        Nat.zero_le _⟩
      rw [List.append_nil]
      have hboth := (hledger.acquire buf).release
      rwa [List.append_assoc] at hboth
    · rw [List.map_cons] at hnodup hL ⊢
      have hb : buf ∉ made := fun hmem =>
        List.disjoint_of_nodup_append hnodup hmem List.mem_cons_self
      have hadd := h.add hb (hL buf (by simp)) fun e he => hL e (List.mem_append_left _ he)
      rw [List.append_cons] at hnodup hL
      obtain ⟨more, hprefix, hmade, hlog, hlen⟩ := ih bufs hadd hnodup hL (by
        have hperm := Multiset.coe_eq_coe.mpr (List.perm_append_singleton buf made)
        rw [hperm, ← Multiset.cons_coe, Multiset.cons_add]
        exact hledger.acquire buf)
      rw [List.append_assoc, List.singleton_append] at hmade hlog
      exact ⟨buf :: more, (List.cons_prefix_cons).mpr ⟨rfl, hprefix⟩, hmade, hlog,
        Nat.succ_le_succ hlen⟩

omit [Fintype β] in
/-- **The headers queued.** -/
theorem Allocating.Made.queue (h : a.Made L made) (hmade : ∀ e ∈ made, ∀ d, e ∉ L d) :
    Chains (a.queue dir) (Function.update L dir (made ++ L dir)) := by
  have hlast := h.last
  rcases List.eq_nil_or_concat made with rfl | ⟨l, e, rfl⟩
  · rw [List.getLast?_nil] at hlast
    unfold Allocating.queue
    simp only [hlast, List.nil_append, Function.update_eq_self]
    exact h.chains
  · rw [List.concat_eq_append] at *
    rw [List.getLast?_concat] at hlast
    unfold Allocating.queue
    simp only [hlast, List.append_assoc, List.singleton_append]
    exact h.chains.prepend h.chain hmade

/-! ## Taking the headers off -/

variable {port : UInt32} {list : Option β}

omit [Fintype β] [DecidableEq β] in
/-- A header taken off a list is on none. -/
theorem not_mem_rest (h : Chains links L) (hl : L dir = b :: l) (d : Dir) :
    b ∉ Function.update L dir l d := by
  intro hd
  by_cases hdir : d = dir
  · subst hdir
    rw [Function.update_self] at hd
    exact (List.nodup_cons.mp (hl ▸ h.nodup d)).1 hd
  · rw [Function.update_of_ne hdir] at hd
    exact hdir (h.apart d dir b hd (hl ▸ List.mem_cons_self))

omit [Fintype β] in
/-- **One header taken off.** The walk goes on at the head of what is left of
the list. -/
theorem sweep_cons (h : Chains links L) (hl : L dir = b :: l) (hb : portIndex dir b = port) :
    ∃ links', sweep portIndex dir port (n + 1) links (links (.head dir)) list =
        sweep portIndex dir port n links' (links' (.head dir)) (some b) ∧
      Chains links' (Function.update L dir l) ∧ links' (.next b) = list ∧
      ∀ e, e ≠ b → links' (.next e) = links (.next e) := by
  have hhead : links (.head dir) = some b := (h.chain dir).head?.trans (by rw [hl]; rfl)
  refine ⟨Function.update (Function.update links (.head dir) (links (.next b))) (.next b) list,
    ?_, ?_, Function.update_self .., fun e he => ?_⟩
  · rw [hhead, sweep, if_pos hb]
    rw [Function.update_of_ne (by simp), Function.update_self]
  · exact (h.unlink (hl.trans (List.nil_append _).symm)).update_next (not_mem_rest h hl)
  · rw [Function.update_of_ne (by simpa using he), Function.update_of_ne (by simp)]

omit [Fintype β] in
/-- **The walk over a list of the port's headers** takes them all off, the
last one first. -/
theorem sweep_eq (h : Chains links L) (hlist : Chain links list made)
    (hmade : ∀ e ∈ made, ∀ d, e ∉ L d) (hport : ∀ b ∈ L dir, portIndex dir b = port)
    (hn : (L dir).length < n) :
    ∃ links' list', sweep portIndex dir port n links (links (.head dir)) list =
        .ok (links', list') ∧
      Chains links' (Function.update L dir []) ∧ Chain links' list' ((L dir).reverse ++ made) := by
  induction n generalizing links L list made with
  | zero => exact absurd hn (Nat.not_lt_zero _)
  | succ n ih =>
    cases hl : L dir with
    | nil =>
      rw [(h.chain dir).head?, hl, List.head?_nil, sweep]
      refine ⟨links, list, rfl, ?_, hlist⟩
      rw [← hl, Function.update_eq_self]
      exact h
    | cons b l =>
      rw [hl] at hport hn
      obtain ⟨hb, hrest⟩ := List.forall_mem_cons.mp hport
      obtain ⟨links₁, hsweep, hchains, hcell, hother⟩ := sweep_cons h hl hb
      have hlist₁ : Chain links₁ (some b) (b :: made) := by
        refine ⟨rfl, ?_⟩
        rw [hcell]
        refine hlist.congr fun e he => hother e ?_
        rintro rfl
        exact hmade e he dir (hl ▸ List.mem_cons_self)
      have hmade₁ : ∀ e ∈ b :: made, ∀ d, e ∉ Function.update L dir l d := by
        refine List.forall_mem_cons.mpr ⟨not_mem_rest h hl, fun e he d hd => ?_⟩
        by_cases hdir : d = dir
        · subst hdir
          rw [Function.update_self] at hd
          exact hmade e he d (hl ▸ List.mem_cons_of_mem _ hd)
        · rw [Function.update_of_ne hdir] at hd
          exact hmade e he d hd
      obtain ⟨links', list', hrun, hchains', hchain'⟩ := ih hchains hlist₁ hmade₁
        (by rwa [Function.update_self]) (by rw [Function.update_self]; simpa using hn)
      rw [Function.update_idem] at hchains'
      rw [Function.update_self] at hchain'
      refine ⟨links', list', hsweep.trans hrun, hchains', ?_⟩
      rw [List.reverse_cons, List.append_assoc, List.singleton_append]
      exact hchain'

omit [Fintype β] in
/-- **A header of another port** leads the walk off the list. -/
theorem sweep_wild (h : Chains links L) (hother : ∃ b ∈ L dir, portIndex dir b ≠ port)
    (hn : (L dir).length < n) :
    sweep portIndex dir port n links (links (.head dir)) list = .error .wild := by
  induction n generalizing links L list with
  | zero => exact absurd hn (Nat.not_lt_zero _)
  | succ n ih =>
    cases hl : L dir with
    | nil =>
      obtain ⟨b, hb, -⟩ := hother
      exact absurd (hl ▸ hb) List.not_mem_nil
    | cons b l =>
      rw [hl] at hother hn
      by_cases hb : portIndex dir b = port
      · obtain ⟨links₁, hsweep, hchains, -⟩ := sweep_cons h hl hb
        rw [hsweep]
        refine ih hchains ?_ (by rw [Function.update_self]; simpa using hn)
        obtain ⟨b', hb', hne⟩ := hother
        rw [Function.update_self]
        rcases List.mem_cons.mp hb' with rfl | hb'
        · exact absurd hb hne
        · exact ⟨b', hb', hne⟩
      · have hhead : links (.head dir) = some b := (h.chain dir).head?.trans (by rw [hl]; rfl)
        rw [hhead, sweep, if_neg hb]

variable {st : Buffers β}

/-- **A round of `ilclient_disable_port_buffers`** frees what is on the list,
and leaves it empty. -/
theorem disableRound_eq (h : Chains st.links L) (hport : ∀ b ∈ L dir, portIndex dir b = port) :
    ∃ links, disableRound portIndex st dir port = .ok ({ st with links := links },
      (L dir).reverse) ∧ Chains links (Function.update L dir []) := by
  have hlen := length_queue_le h dir
  have hnone : Chain st.links none ([] : List β) := rfl
  obtain ⟨links, list, hsweep, hchains, hchain⟩ := sweep_eq h hnone
    (fun e he => absurd he List.not_mem_nil) hport (Nat.lt_succ_of_le hlen)
  rw [List.append_nil] at hchain
  refine ⟨links, ?_, hchains⟩
  unfold disableRound
  rw [hsweep]
  simp only
  rw [hchain.follow_eq (by rwa [List.length_reverse])]

/-- **When the walk stays on the list.** A round takes the headers of the port
off, and leaves the others, exactly if there are no others; if there are it
goes on from an address that is no header's. -/
theorem disableRound_ok_iff (h : Chains st.links L) :
    ((∃ st', disableRound portIndex st dir port =
        .ok (st', ((L dir).filter (wanted portIndex dir port)).reverse) ∧
      st'.queue = Function.update L dir
        ((L dir).filter fun b => !wanted portIndex dir port b)) ↔
      ∀ b ∈ L dir, portIndex dir b = port) ∧
    ((∃ b ∈ L dir, portIndex dir b ≠ port) →
      disableRound portIndex st dir port = .error .wild) := by
  have hwild : (∃ b ∈ L dir, portIndex dir b ≠ port) →
      disableRound portIndex st dir port = .error .wild := fun hother => by
    have hsweep : sweep portIndex dir port _ st.links _ none = .error .wild :=
      sweep_wild h hother (Nat.lt_succ_of_le (length_queue_le h dir))
    unfold disableRound
    rw [hsweep]
  refine ⟨⟨fun hround => ?_, fun hport => ?_⟩, hwild⟩
  · obtain ⟨st', hround, -⟩ := hround
    by_contra hnot
    push Not at hnot
    rw [hwild hnot] at hround
    exact absurd hround (by simp)
  · obtain ⟨links, hround, hchains⟩ := disableRound_eq h hport
    have hall : ∀ b ∈ L dir, wanted portIndex dir port b = true :=
      fun b hb => decide_eq_true (hport b hb)
    rw [List.filter_eq_self.mpr hall, List.filter_eq_nil_iff.mpr fun b hb => by simp [hall b hb]]
    exact ⟨_, hround, queue_eq hchains⟩

/-- The header on the list is of another port than the one to be disabled. -/
theorem disableRound_wild_oneBuffer :
    disableRound onePort oneBuffer .output 200 = .error .wild :=
  (disableRound_ok_iff chains_oneBuffer).2 ⟨1, by simp, by decide⟩

end Ilclient

end Camkit
