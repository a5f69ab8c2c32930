import Camkit.Ilclient.Model.Buffers
/-!
# IL client — the buffers as queues

What the links of a component stand for: a queue of headers for each
direction. A callback adds at the end, and a call takes the first header of
its port. That holds as long as one thread calls for each list: what a call
keeps in `prev` while it sleeps is then still on the list when it wakes.
-/

namespace Camkit

namespace Ilclient

variable {β : Type} [Fintype β] [DecidableEq β] {portIndex : PortIndex β}
variable {st st' : Buffers β} {L : Dir → List β} {dir d : Dir} {b b' : β} {prev : Option β}
variable {port : UInt32} {l₁ l₂ : List β} {g : Getting β}

/-! ## The lists -/

omit [DecidableEq β] in
theorem length_queue_le (h : Chains st.links L) (d : Dir) : (L d).length ≤ Fintype.card β :=
  (h.nodup d).length_le_card

omit [DecidableEq β] in
theorem queue_eq (h : Chains st.links L) : st.queue = L :=
  funext fun d => (h.chain d).follow_eq (length_queue_le h d)

/-- **A callback adds its buffer at the end.** -/
theorem bufferDone_eq (h : Chains st.links L) (hb : ∀ d, b ∉ L d) :
    ∃ st', bufferDone st dir b = .ok st' ∧
      Chains st'.links (Function.update L dir (L dir ++ [b])) ∧ st'.event = st.event ∧
      st'.posting = Function.update st.posting dir (st.posting dir + 1) := by
  have hchain := h.chain dir
  rw [← List.append_nil (L dir)] at hchain
  have hfind := hchain.find_eq (q := fun _ => false) (fun _ _ => rfl) (by simp)
    (Nat.lt_succ_of_le (length_queue_le h dir))
  unfold bufferDone
  rw [hfind]
  exact ⟨_, rfl, h.append hb, rfl, rfl⟩

/-- What a round that finds nothing keeps in `prev`. -/
theorem getRound_none (h : Chains st.links L) (hnone : ∀ b ∈ L dir, portIndex dir b ≠ port) :
    getRound portIndex st dir port prev = .ok (st, (L dir).getLast?.or prev, none) := by
  have hchain := h.chain dir
  rw [← List.append_nil (L dir)] at hchain
  have hfind := hchain.find_eq (q := fun b => portIndex dir b = port)
    (fun b hb => decide_eq_false (hnone b hb)) (by simp)
    (Nat.lt_succ_of_le (length_queue_le h dir))
  have hend : st.links ((Place.head dir).after (L dir)) = none := hchain.drop
  unfold getRound
  rw [hfind]
  simp only [hend]
  rcases List.eq_nil_or_concat (L dir) with hl | ⟨l, a, hl⟩
  · rw [hl]
    rfl
  · rw [hl, List.concat_eq_append, Place.after_concat, List.getLast?_concat]
    rfl

/-- What a round that finds a header makes of the links. -/
theorem getRound_found (h : Chains st.links L) (hl : L dir = l₁ ++ b :: l₂)
    (h₁ : ∀ a ∈ l₁, portIndex dir a ≠ port) (hb : portIndex dir b = port) :
    getRound portIndex st dir port prev = .ok ({ st with
      links := Function.update (Function.update st.links
        (match l₁.getLast?.or prev with
          | none => .head dir
          | some a => .next a) (st.links (.next b))) (.next b) none },
        l₁.getLast?.or prev, some b) := by
  have hchain := hl ▸ h.chain dir
  have hlen := length_queue_le h dir
  rw [hl, List.length_append, List.length_cons] at hlen
  have hfind := hchain.find_eq (q := fun b => portIndex dir b = port)
    (fun a ha => decide_eq_false (h₁ a ha)) (fun a ha => by
      obtain rfl : b = a := Option.some.inj ha
      exact decide_eq_true hb) (by omega : l₁.length < Fintype.card β + 1)
  have hcell : st.links ((Place.head dir).after l₁) = some b := hchain.drop.1
  unfold getRound
  rw [hfind]
  simp only [hcell]
  rcases List.eq_nil_or_concat l₁ with rfl | ⟨l, a, rfl⟩
  · rfl
  · rw [List.concat_eq_append, Place.after_concat, List.getLast?_concat]
    rfl

/-- **A call takes the first header of its port**, unless `prev` is set while
that header is at the head of the list. -/
theorem getRound_some (h : Chains st.links L) (hl : L dir = l₁ ++ b :: l₂)
    (h₁ : ∀ a ∈ l₁, portIndex dir a ≠ port) (hb : portIndex dir b = port)
    (hprev : l₁ = [] → prev = none) :
    ∃ st' prev', getRound portIndex st dir port prev = .ok (st', prev', some b) ∧
      Chains st'.links (Function.update L dir (l₁ ++ l₂)) ∧ st'.event = st.event ∧
      st'.posting = st.posting := by
  refine ⟨_, _, getRound_found h hl h₁ hb, ?_, rfl, rfl⟩
  have hplace : (match l₁.getLast?.or prev with
      | none => .head dir
      | some a => .next a) = (Place.head dir).after l₁ := by
    rcases List.eq_nil_or_concat l₁ with rfl | ⟨l, a, rfl⟩
    · rw [hprev rfl]
      rfl
    · rw [List.concat_eq_append, Place.after_concat, List.getLast?_concat]
      rfl
  rw [hplace]
  refine (h.unlink hl).update_next fun d hd => ?_
  by_cases hdir : d = dir
  · subst hdir
    rw [Function.update_self] at hd
    have hnodup := hl ▸ h.nodup d
    exact (List.nodup_cons.mp (List.nodup_middle.mp hnodup)).1 hd
  · rw [Function.update_of_ne hdir] at hd
    exact hdir (h.apart d dir b hd (hl ▸ List.mem_append_right _ List.mem_cons_self))

/-- **Where `prev` is set although the header is the first**, the header stays
at the head of the list, those behind it are off, and `prev`, wherever it is,
is linked to them. -/
theorem getRound_stale {a : β} (h : Chains st.links L) (hl : L dir = b :: l₂)
    (hb : portIndex dir b = port) :
    ∃ st', getRound portIndex st dir port (some a) = .ok (st', some a, some b) ∧
      st'.queue dir = [b] ∧ (a ≠ b → st'.links (.next a) = l₂.head?) := by
  refine ⟨_, getRound_found h (hl.trans (List.nil_append _).symm) (by simp) hb, ?_, fun hne => ?_⟩
  · have hhead : st.links (.head dir) = some b := (h.chain dir).head?.trans (by rw [hl]; rfl)
    have hchain : Chain (Function.update (Function.update st.links (.next a) (st.links (.next b)))
        (.next b) none) (some b) [b] := ⟨rfl, Function.update_self ..⟩
    have hcard : 1 ≤ Fintype.card β := Fintype.card_pos_iff.mpr ⟨b⟩
    unfold Buffers.queue
    simp only [List.getLast?_nil, Option.none_or]
    rw [Function.update_of_ne (by simp), Function.update_of_ne (by simp), hhead]
    exact hchain.follow_eq hcard
  · have hchain : Chain st.links (st.links (.head dir)) (b :: l₂) := hl ▸ h.chain dir
    have hrest : Chain st.links (st.links (.next b)) l₂ := hchain.2
    simp only [List.getLast?_nil, Option.none_or]
    rw [Function.update_of_ne (by simpa using hne), Function.update_self]
    exact hrest.head?

/-! ## A thread at each list -/

/-- **What holds of a component and its threads**: the links lead through the
queues, `prev` of a call is set only where the head of its list is of another
port, and a call does not sleep on while its header is there and its flag is
set, but for a callback that is about to set it. -/
structure Orderly (portIndex : PortIndex β) (s : Served β) (L : Dir → List β) : Prop where
  chains : Chains s.buffers.links L
  prev : ∀ d g, s.thread d = .looking g ∨ s.thread d = .asleep g → g.prev ≠ none →
    ∃ b, (L d).head? = some b ∧ portIndex d b ≠ g.portIndex
  awake : ∀ d g, s.thread d = .asleep g → (∃ b ∈ L d, portIndex d b = g.portIndex) →
    s.buffers.posting d = 0 → s.buffers.event d = true

/-- Whether a header is one a call asks for. -/
def wanted (portIndex : PortIndex β) (dir : Dir) (port : UInt32) (b : β) : Bool :=
  portIndex dir b = port

variable {s s' : Served β} {op : BufferOp β} {out : Option (Dir × β)}

omit [Fintype β] [DecidableEq β] in
theorem thread_move_self {r : Buffers β × Phase (Getting β) (Option β)} :
    (s.move dir r).thread dir = r.2 := Function.update_self ..

omit [Fintype β] [DecidableEq β] in
theorem thread_move_of_ne {r : Buffers β × Phase (Getting β) (Option β)} (hd : d ≠ dir) :
    (s.move dir r).thread d = s.thread d := Function.update_of_ne hd ..

/-- **A look takes the first header of the port**, or finds none and goes to
sleep if it is to. -/
theorem Orderly.look (h : Orderly portIndex s L) (hg : s.thread dir = .looking g) :
    ∃ st ph, (getWaiter portIndex dir).look g s.buffers = some (st, ph) ∧
      Chains st.links (Function.update L dir
        ((L dir).eraseP (wanted portIndex dir g.portIndex))) ∧
      st.event = s.buffers.event ∧ st.posting = s.buffers.posting ∧
      ph = match (L dir).find? (wanted portIndex dir g.portIndex) with
        | some b => .done (some b)
        | none => if g.block then .asleep { g with prev := (L dir).getLast?.or g.prev }
          else .done none := by
  cases hfind : (L dir).find? (wanted portIndex dir g.portIndex) with
  | none =>
    have hnone : ∀ b ∈ L dir, portIndex dir b ≠ g.portIndex := fun b hb hport =>
      List.find?_eq_none.mp hfind b hb (decide_eq_true hport)
    refine ⟨s.buffers, _, ?_, ?_, rfl, rfl, rfl⟩
    · simp only [getWaiter, getRound_none h.chains hnone]
      split <;> rfl
    · rw [List.eraseP_of_forall_not fun b hb => List.find?_eq_none.mp hfind b hb,
        Function.update_eq_self]
      exact h.chains
  | some b =>
    obtain ⟨hb, l₁, l₂, hl, h₁⟩ := List.find?_eq_some_iff_append.mp hfind
    have hport : portIndex dir b = g.portIndex := of_decide_eq_true hb
    have hnot : ∀ a ∈ l₁, portIndex dir a ≠ g.portIndex := fun a ha hpa => by
      have := h₁ a ha
      simp [wanted, hpa] at this
    have hprev : l₁ = [] → g.prev = none := fun hnil => by
      by_contra hne
      obtain ⟨a, hhead, ha⟩ := h.prev dir g (.inl hg) hne
      rw [hl, hnil] at hhead
      obtain rfl : b = a := Option.some.inj hhead
      exact ha hport
    obtain ⟨st, prev', hround, hchains, hevent, hposting⟩ :=
      getRound_some h.chains hl hnot hport hprev
    refine ⟨st, .done (some b), ?_, ?_, hevent, hposting, rfl⟩
    · simp only [getWaiter, hround]
    · rw [hl, List.eraseP_append_right _ fun a ha => by simpa [wanted] using hnot a ha,
        List.eraseP_cons_of_pos hb]
      exact hchains

/-! ### What a step receives and returns -/

/-- The header a step puts on a list. -/
def BufferOp.received (d : Dir) : BufferOp β → List β
  | .done dir b => if dir = d then [b] else []
  | _ => []

/-- The header a step returns off a list. -/
def returned (d : Dir) : Option (Dir × β) → List β
  | some (dir, b) => if dir = d then [b] else []
  | none => []

omit [Fintype β] [DecidableEq β] in
/-- Taking the first header of one port leaves those of each port in order. -/
theorem filter_eraseP {l : List β} {q r : β → Bool}
    (hqr : ∀ b ∈ l.find? q, r b = true → ∀ a, r a = q a) :
    l.filter r = (l.find? q).toList.filter r ++ (l.eraseP q).filter r := by
  induction l with
  | nil => rfl
  | cons a l ih =>
    cases ha : q a with
    | true =>
      rw [List.find?_cons_of_pos ha, List.eraseP_cons_of_pos ha, Option.toList_some,
        ← List.filter_append]
      rfl
    | false =>
      have hne : ¬ q a = true := by simp [ha]
      rw [List.find?_cons_of_neg hne] at hqr ⊢
      rw [List.eraseP_cons_of_neg hne]
      cases hra : r a with
      | false =>
        rw [List.filter_cons_of_neg (by simp [hra]), List.filter_cons_of_neg (by simp [hra]),
          ih hqr]
      | true =>
        -- the header taken is none of these, for it comes behind one of them
        have hnone : (l.find? q).toList.filter r = [] := by
          cases hfind : l.find? q with
          | none => rfl
          | some b =>
            refine List.filter_cons_of_neg fun hrb => ?_
            exact hne ((hqr b hfind hrb a).symm.trans hra)
        rw [List.filter_cons_of_pos hra, List.filter_cons_of_pos hra, ih hqr, hnone,
          List.nil_append, List.nil_append]

omit [Fintype β] [DecidableEq β] in
theorem filter_wanted (l : List β) (d : Dir) (port port' : UInt32) :
    l.filter (wanted portIndex d port') =
      (l.find? (wanted portIndex d port)).toList.filter (wanted portIndex d port') ++
        (l.eraseP (wanted portIndex d port)).filter (wanted portIndex d port') := by
  refine filter_eraseP fun b hb hr a => ?_
  have hq := List.find?_some (Option.mem_def.mp hb)
  obtain rfl : portIndex d b = port := of_decide_eq_true hq
  obtain rfl : portIndex d b = port' := of_decide_eq_true hr
  rfl

/-- The headers of each port are the ones before, with what has been received
behind, less what has been returned in front. -/
def Accounts (portIndex : PortIndex β) (op : BufferOp β) (out : Option (Dir × β))
    (L L' : Dir → List β) : Prop :=
  ∀ d port, (L d ++ op.received d).filter (wanted portIndex d port) =
    (returned d out).filter (wanted portIndex d port) ++ (L' d).filter (wanted portIndex d port)

omit [Fintype β] [DecidableEq β] in
theorem accounts_self (h : ∀ d, op.received d = []) : Accounts portIndex op none L L := by
  intro d port
  rw [h d, List.append_nil]
  rfl

theorem Orderly.step_done (h : Orderly portIndex s L)
    (hstep : s.step portIndex (.done dir b) = some (s', out)) :
    ∃ L', Orderly portIndex s' L' ∧ Accounts portIndex (.done dir b) out L L' := by
  rw [Served.step] at hstep
  by_cases hon : ∃ d, b ∈ s.buffers.queue d
  · rw [if_pos hon] at hstep
    exact absurd hstep (by simp)
  · rw [if_neg hon] at hstep
    have hb : ∀ d, b ∉ L d := fun d hd => hon ⟨d, queue_eq h.chains ▸ hd⟩
    obtain ⟨st, hdone, hchains, hevent, hposting⟩ :
        ∃ st', bufferDone s.buffers dir b = .ok st' ∧ _ := bufferDone_eq h.chains hb
    rw [hdone] at hstep
    obtain ⟨rfl, rfl⟩ := Prod.mk.inj (Option.some.inj hstep)
    refine ⟨_, ⟨hchains, fun d g hg hne => ?_, fun d g hg hfound hzero => ?_⟩, fun d port => ?_⟩
    · obtain ⟨a, hhead, ha⟩ := h.prev d g hg hne
      refine ⟨a, ?_, ha⟩
      by_cases hd : d = dir
      · subst hd
        rw [Function.update_self, List.head?_append, hhead]
        rfl
      · rwa [Function.update_of_ne hd]
    · by_cases hd : d = dir
      · subst hd
        rw [hposting, Function.update_self] at hzero
        omega
      · rw [hposting, Function.update_of_ne hd] at hzero
        rw [Function.update_of_ne hd] at hfound
        rw [hevent]
        exact h.awake d g hg hfound hzero
    · by_cases hd : d = dir
      · subst hd
        rw [Function.update_self, BufferOp.received, if_pos rfl]
        rfl
      · rw [Function.update_of_ne hd, BufferOp.received, if_neg (Ne.symm hd), List.append_nil]
        rfl

/-- The step of a thread that looks. -/
theorem Orderly.look_step (h : Orderly portIndex s L) (hg : s.thread dir = .looking g) :
    ∃ st ph, s.step portIndex (.look dir) = some (s.move dir (st, ph),
        ((L dir).find? (wanted portIndex dir g.portIndex)).map (dir, ·)) ∧
      Chains st.links (Function.update L dir
        ((L dir).eraseP (wanted portIndex dir g.portIndex))) ∧
      st.event = s.buffers.event ∧ st.posting = s.buffers.posting ∧
      ph = match (L dir).find? (wanted portIndex dir g.portIndex) with
        | some b => .done (some b)
        | none => if g.block then .asleep { g with prev := (L dir).getLast?.or g.prev }
          else .done none := by
  obtain ⟨st, ph, hlook, hchains, hevent, hposting, hph⟩ := h.look hg
  refine ⟨st, ph, ?_, hchains, hevent, hposting, hph⟩
  rw [Served.step, hg]
  simp only [hlook]
  cases hfind : (L dir).find? (wanted portIndex dir g.portIndex) with
  | some b =>
    rw [hfind] at hph
    rw [hph]
  | none =>
    rw [hfind] at hph
    by_cases hblock : g.block = true
    · simp only [hph, if_pos hblock, Option.map_none]
    · simp only [hph, if_neg hblock, Option.map_none]

theorem Orderly.step_look (h : Orderly portIndex s L)
    (hstep : s.step portIndex (.look dir) = some (s', out)) :
    ∃ L', Orderly portIndex s' L' ∧ Accounts portIndex (.look dir) out L L' := by
  cases hg : s.thread dir with
  | asleep g =>
    rw [Served.step, hg] at hstep
    exact absurd hstep (by simp)
  | done ret =>
    rw [Served.step, hg] at hstep
    exact absurd hstep (by simp)
  | looking g =>
    obtain ⟨st, ph, hlook, hchains, hevent, hposting, hph⟩ := h.look_step hg
    obtain ⟨rfl, rfl⟩ := Prod.mk.inj (Option.some.inj (hlook.symm.trans hstep))
    -- a thread that has gone to sleep has seen the list, and none of its port
    have hslept : ∀ g', ph = .looking g' ∨ ph = .asleep g' →
        ph = .asleep g' ∧ g'.portIndex = g.portIndex ∧
          g'.prev = (L dir).getLast?.or g.prev ∧ ∀ b ∈ L dir, portIndex dir b ≠ g.portIndex := by
      intro g' hg'
      cases hfind : (L dir).find? (wanted portIndex dir g.portIndex) with
      | some b =>
        rw [hfind] at hph
        rw [hph] at hg'
        exact absurd hg' (by simp)
      | none =>
        rw [hfind] at hph
        by_cases hblock : g.block = true
        · simp only [if_pos hblock] at hph
          rw [hph] at hg' ⊢
          obtain rfl := Phase.asleep.inj (hg'.resolve_left (by simp))
          exact ⟨rfl, rfl, rfl, fun b hb hport =>
            List.find?_eq_none.mp hfind b hb (decide_eq_true hport)⟩
        · simp only [if_neg hblock] at hph
          rw [hph] at hg'
          exact absurd hg' (by simp)
    refine ⟨_, ⟨hchains, fun d g' hg' hne => ?_, fun d g' hg' hfound hzero => ?_⟩, fun d port => ?_⟩
    · by_cases hd : d = dir
      · subst hd
        rw [thread_move_self] at hg'
        obtain ⟨-, hport, hprev, hnone⟩ := hslept g' hg'
        have herase : (L d).eraseP (wanted portIndex d g.portIndex) = L d :=
          List.eraseP_of_forall_not fun b hb hw => hnone b hb (of_decide_eq_true hw)
        rw [Function.update_self, herase, hport]
        cases hl : L d with
        | nil =>
          rw [hl, List.getLast?_nil, Option.none_or] at hprev
          obtain ⟨a, hhead, -⟩ := h.prev d g (.inl hg) (hprev ▸ hne)
          rw [hl] at hhead
          exact absurd hhead (by simp)
        | cons a l => exact ⟨a, rfl, hnone a (hl ▸ List.mem_cons_self)⟩
      · rw [thread_move_of_ne hd] at hg'
        rw [Function.update_of_ne hd]
        exact h.prev d g' hg' hne
    · by_cases hd : d = dir
      · subst hd
        rw [thread_move_self] at hg'
        obtain ⟨-, hport, -, hnone⟩ := hslept g' (.inr hg')
        obtain ⟨b, hb, hpb⟩ := hfound
        rw [Function.update_self] at hb
        exact absurd (hpb.trans hport) (hnone b (List.mem_of_mem_eraseP hb))
      · rw [thread_move_of_ne hd] at hg'
        rw [Function.update_of_ne hd] at hfound
        exact (congrFun hevent d).trans
          (h.awake d g' hg' hfound ((congrFun hposting d).symm.trans hzero))
    · have hrec : (BufferOp.look (β := β) dir).received d = [] := rfl
      rw [hrec, List.append_nil]
      by_cases hd : d = dir
      · subst hd
        rw [Function.update_self, filter_wanted (L d) d g.portIndex port]
        congr 2
        cases (L d).find? (wanted portIndex d g.portIndex) with
        | none => rfl
        | some b => exact (if_pos rfl).symm
      · rw [Function.update_of_ne hd]
        cases (L dir).find? (wanted portIndex dir g.portIndex) with
        | none => rfl
        | some b =>
          rw [Option.map_some, returned, if_neg (Ne.symm hd)]
          rfl

/-- **Every step keeps a component in order**, and loses no header. -/
theorem Orderly.step (h : Orderly portIndex s L) (hstep : s.step portIndex op = some (s', out)) :
    ∃ L', Orderly portIndex s' L' ∧ Accounts portIndex op out L L' := by
  cases op with
  | done dir b => exact h.step_done hstep
  | look dir => exact h.step_look hstep
  | flag dir =>
    rw [Served.step] at hstep
    by_cases hzero : s.buffers.posting dir = 0
    · rw [if_pos hzero] at hstep
      exact absurd hstep (by simp)
    · rw [if_neg hzero] at hstep
      obtain ⟨rfl, rfl⟩ := Prod.mk.inj (Option.some.inj hstep)
      refine ⟨L, ⟨h.chains, h.prev, fun d g hg hfound hposting => ?_⟩,
        accounts_self fun _ => rfl⟩
      by_cases hd : d = dir
      · subst hd
        exact Function.update_self ..
      · have hsame : s.buffers.posting d = 0 := by
          change Function.update s.buffers.posting dir _ d = 0 at hposting
          rwa [Function.update_of_ne hd] at hposting
        exact (Function.update_of_ne hd true s.buffers.event).trans (h.awake d g hg hfound hsame)
  | get dir port block =>
    rw [Served.step] at hstep
    split at hstep
    · obtain ⟨rfl, rfl⟩ := Prod.mk.inj (Option.some.inj hstep)
      refine ⟨L, ⟨h.chains, fun d g hg hne => ?_, fun d g hg hfound hzero => ?_⟩,
        accounts_self fun _ => rfl⟩
      · by_cases hd : d = dir
        · subst hd
          rw [thread_move_self] at hg
          obtain rfl := Phase.looking.inj (hg.resolve_right (by simp))
          exact absurd rfl hne
        · rw [thread_move_of_ne hd] at hg
          exact h.prev d g hg hne
      · by_cases hd : d = dir
        · subst hd
          rw [thread_move_self] at hg
          exact absurd hg (by simp)
        · rw [thread_move_of_ne hd] at hg
          exact h.awake d g hg hfound hzero
    · exact absurd hstep (by simp)
  | wake dir =>
    rw [Served.step] at hstep
    split at hstep
    · next g' hg' =>
      split at hstep
      · obtain ⟨rfl, rfl⟩ := Prod.mk.inj (Option.some.inj hstep)
        refine ⟨L, ⟨h.chains, fun d g hg hne => ?_, fun d g hg hfound hzero => ?_⟩,
          accounts_self fun _ => rfl⟩
        · by_cases hd : d = dir
          · subst hd
            rw [thread_move_self] at hg
            obtain rfl := Phase.looking.inj (hg.resolve_right (by simp [getWaiter]))
            exact h.prev d g' (.inr hg') hne
          · rw [thread_move_of_ne hd] at hg
            exact h.prev d g hg hne
        · by_cases hd : d = dir
          · subst hd
            rw [thread_move_self] at hg
            exact absurd hg (by simp [getWaiter])
          · rw [thread_move_of_ne hd] at hg
            exact (Function.update_of_ne hd false s.buffers.event).trans
              (h.awake d g hg hfound hzero)
      · exact absurd hstep (by simp)
    · exact absurd hstep (by simp)

/-! ## Whole runs -/

variable {ops : List (BufferOp β)} {outs : List (Option (Dir × β))}

omit [Fintype β] [DecidableEq β] in
theorem orderly_init : Orderly portIndex (servedInit (β := β)) fun _ => [] where
  chains := ⟨fun _ => rfl, fun _ _ _ h => absurd h List.not_mem_nil⟩
  prev d g hg := by simp [servedInit] at hg
  awake d g hg := by simp [servedInit] at hg

theorem orderly_of_run (hrun : (bufferSteps portIndex).run servedInit ops = some (s, outs)) :
    Orderly portIndex s s.buffers.queue := by
  have hexists : ∃ L, Orderly portIndex s L :=
    Machine.run_invariant (I := fun s => ∃ L, Orderly portIndex s L) ⟨_, orderly_init⟩
      (fun s op s' out ⟨L, h⟩ hstep => (h.step hstep).imp fun _ h => h.1) hrun
  obtain ⟨L, h⟩ := hexists
  exact queue_eq h.chains ▸ h

/-- **First in, first out.** In every run of callbacks and calls, blocking or
not, the headers of a port that have come back are those the calls have
returned, in the order they came, and then those on the list: none is lost,
none is returned twice and none overtakes another. -/
theorem fifo_of_run (hrun : (bufferSteps portIndex).run servedInit ops = some (s, outs)) (d : Dir)
    (port : UInt32) : (ops.flatMap (BufferOp.received d)).filter (wanted portIndex d port) =
      (outs.flatMap (returned d)).filter (wanted portIndex d port) ++
        (s.buffers.queue d).filter (wanted portIndex d port) := by
  have hinv := Machine.run_induction
    (I := fun ops outs s => ∃ L, Orderly portIndex s L ∧ ∀ d port,
      (ops.flatMap (BufferOp.received d)).filter (wanted portIndex d port) =
        (outs.flatMap (returned d)).filter (wanted portIndex d port) ++
          (L d).filter (wanted portIndex d port))
    ⟨_, orderly_init, fun _ _ => rfl⟩ ?_ hrun
  · obtain ⟨L, h, hfifo⟩ := hinv
    rw [queue_eq h.chains]
    exact hfifo d port
  · rintro ops outs s op s' out ⟨L, h, hfifo⟩ hstep
    obtain ⟨L', h', haccounts⟩ := h.step hstep
    refine ⟨L', h', fun d port => ?_⟩
    have hstep := haccounts d port
    rw [List.filter_append] at hstep
    rw [List.flatMap_append, List.flatMap_append, List.flatMap_singleton, List.flatMap_singleton,
      List.filter_append, List.filter_append, hfifo, List.append_assoc, hstep, List.append_assoc]

/-- All headers of one port, 201. -/
def onePort : PortIndex (Fin 2) := fun _ _ => 201

/-- Two buffers come back, and one is asked for. -/
def twoBack : List (BufferOp (Fin 2)) :=
  [.done .output 1, .flag .output, .done .output 0, .get .output 201 true, .look .output]

theorem fifo_of_twoBack :
    ∃ s outs, (bufferSteps onePort).run servedInit twoBack = some (s, outs) ∧
      (twoBack.flatMap (BufferOp.received .output)).filter (wanted onePort .output 201) =
        (outs.flatMap (returned .output)).filter (wanted onePort .output 201) ++
          (s.buffers.queue .output).filter (wanted onePort .output 201) := by
  have hruns : ((bufferSteps onePort).run servedInit twoBack).isSome = true := by decide +kernel
  obtain ⟨⟨s, outs⟩, hrun⟩ := Option.isSome_iff_exists.mp hruns
  exact ⟨s, outs, hrun, fifo_of_run hrun .output 201⟩

/-- **What a call returns.** In every state a run leads to, no header is on a
list twice or on both, and the next look of a thread ends and takes the first
header of its port off its list, if there is one, and nothing else. -/
theorem look_of_run (hrun : (bufferSteps portIndex).run servedInit ops = some (s, outs)) :
    (∀ d, (s.buffers.queue d).Nodup) ∧
      (∀ d d' b, b ∈ s.buffers.queue d → b ∈ s.buffers.queue d' → d = d') ∧
      ∀ d g, s.thread d = .looking g →
        ∃ s', (bufferSteps portIndex).step s (.look d) =
            some (s', ((s.buffers.queue d).find? (wanted portIndex d g.portIndex)).map (d, ·)) ∧
          s'.buffers.queue = Function.update s.buffers.queue d
            ((s.buffers.queue d).eraseP (wanted portIndex d g.portIndex)) := by
  have h := orderly_of_run hrun
  refine ⟨h.chains.nodup, h.chains.apart, fun d g hg => ?_⟩
  obtain ⟨st, ph, hlook, hchains, -⟩ := h.look_step hg
  exact ⟨_, hlook, queue_eq hchains⟩

theorem look_of_oneBack :
    ∃ s outs s', (bufferSteps onePort).run servedInit [.done .output 1, .get .output 201 false] =
        some (s, outs) ∧
      (bufferSteps onePort).step s (.look .output) = some (s',
        ((s.buffers.queue .output).find? (wanted onePort .output 201)).map (.output, ·)) := by
  have hlooks : ((bufferSteps onePort).run servedInit
      [.done .output 1, .get .output 201 false]).any
        (fun r => r.1.thread .output = .looking ⟨201, false, none⟩) = true := by decide +kernel
  obtain ⟨⟨s, outs⟩, hrun, hg⟩ := (Option.any_eq_true _ _).mp hlooks
  obtain ⟨s', hstep, -⟩ := (look_of_run hrun).2.2 _ _ (of_decide_eq_true hg)
  exact ⟨s, outs, s', hrun, hstep⟩

theorem run_flags (h : Orderly portIndex s L) (hg : s.thread d = .asleep g) {n : ℕ}
    (hn : s.buffers.posting d = n) :
    ∃ s' outs, (bufferSteps portIndex).run s (List.replicate n (.flag d)) = some (s', outs) ∧
      Orderly portIndex s' L ∧ s'.thread d = .asleep g ∧ s'.buffers.posting d = 0 := by
  induction n generalizing s with
  | zero => exact ⟨s, [], rfl, h, hg, hn⟩
  | succ n ih =>
    have hstep : s.step portIndex (.flag d) =
        some ({ s with buffers := flagSet s.buffers d }, none) := by
      rw [Served.step, if_neg (by omega)]
    obtain ⟨L', h', -⟩ := h.step hstep
    obtain rfl : L = L' := h.chains.unique h'.chains
    have hpost : ({ s with buffers := flagSet s.buffers d } : Served β).buffers.posting d = n := by
      change Function.update s.buffers.posting d (s.buffers.posting d - 1) d = n
      rw [Function.update_self]
      omega
    obtain ⟨s', outs, hrun, hrest⟩ := ih h' hg hpost
    exact ⟨s', none :: outs, Machine.run_cons.mpr ⟨_, none, outs, hstep, hrun, rfl⟩, hrest⟩

/-- **A call that sleeps is woken by its buffer.** In every state a run leads
to, where a header of the port a thread sleeps for is on its list, the thread
wakes once the callbacks under way have set their flag, and returns such a
header. -/
theorem get_wakes (hrun : (bufferSteps portIndex).run servedInit ops = some (s, outs))
    (hg : s.thread d = .asleep g) (hthere : ∃ b ∈ s.buffers.queue d, portIndex d b = g.portIndex) :
    ∃ s' outs' b, (bufferSteps portIndex).run s (List.replicate (s.buffers.posting d) (.flag d) ++
        [.wake d, .look d]) = some (s', outs' ++ [none, some (d, b)]) ∧
      portIndex d b = g.portIndex := by
  obtain ⟨s₁, outs₁, hflags, h₁, hg₁, hzero⟩ := run_flags (orderly_of_run hrun) hg rfl
  have hevent := h₁.awake d g hg₁ hthere hzero
  have hwake : s₁.step portIndex (.wake d) =
      some (s₁.move d ((getWaiter portIndex d).wake g s₁.buffers), none) := by
    rw [Served.step, hg₁]
    exact if_pos hevent
  obtain ⟨L₂, h₂, -⟩ := h₁.step hwake
  obtain rfl := h₁.chains.unique h₂.chains
  have hg₂ : (s₁.move d ((getWaiter portIndex d).wake g s₁.buffers)).thread d = .looking g :=
    thread_move_self
  obtain ⟨st, ph, hlook, -⟩ := h₂.look_step hg₂
  obtain ⟨b, hb, hport⟩ := hthere
  have hsome : ((s.buffers.queue d).find? (wanted portIndex d g.portIndex)).isSome :=
    List.find?_isSome.mpr ⟨b, hb, decide_eq_true hport⟩
  obtain ⟨b', hb'⟩ := Option.isSome_iff_exists.mp hsome
  have hport' := List.find?_some hb'
  rw [hb'] at hlook
  have hfinal : (bufferSteps portIndex).run s₁ [.wake d, .look d] =
      some (_, [none, some (d, b')]) :=
    Machine.run_cons.mpr ⟨_, none, [some (d, b')], hwake,
      Machine.run_cons.mpr ⟨_, some (d, b'), [], hlook, rfl, rfl⟩, rfl⟩
  have hport' : portIndex d b' = g.portIndex := of_decide_eq_true hport'
  exact ⟨_, outs₁, b', Machine.run_append.mpr ⟨s₁, outs₁, _, hflags, hfinal, rfl⟩, hport'⟩

/-- A call that finds nothing, and a buffer that comes back. -/
def backLate : List (BufferOp (Fin 2)) :=
  [.get .output 201 true, .look .output, .done .output 1]

theorem get_wakes_backLate :
    ∃ s outs s' outs' b, (bufferSteps onePort).run servedInit backLate = some (s, outs) ∧
      (bufferSteps onePort).run s (List.replicate (s.buffers.posting .output) (.flag .output) ++
        [.wake .output, .look .output]) = some (s', outs' ++ [none, some (.output, b)]) := by
  have hsleeps : ((bufferSteps onePort).run servedInit backLate).any
      (fun r => r.1.thread .output = .asleep ⟨201, true, none⟩ ∧
        ∃ b ∈ r.1.buffers.queue .output, onePort .output b = 201) = true := by decide +kernel
  obtain ⟨⟨s, outs⟩, hrun, hboth⟩ := (Option.any_eq_true _ _).mp hsleeps
  obtain ⟨hg, hthere⟩ := of_decide_eq_true hboth
  obtain ⟨s', outs', b, hrest, -⟩ := get_wakes hrun hg hthere
  exact ⟨s, outs, s', outs', b, hrun, hrest⟩

/-! ## Two threads at one list -/

/-- **When `prev` does harm.** A round that takes a header off a list leaves
the others there, and that one not, exactly where `prev` is not set or the
head of the list is of another port. Otherwise it returns the head and leaves
it on the list, takes those behind it off, and links `prev` to them. `prev`
can be set and the head be of the port where another thread has taken the
headers up to `prev`, or new headers of the port have been put in front of
it. -/
theorem getRound_keeps_iff (h : Chains st.links L) (hthere : ∃ b ∈ L dir, portIndex dir b = port) :
    ((∃ st' prev' b, getRound portIndex st dir port prev = .ok (st', prev', some b) ∧
        st'.queue = Function.update L dir ((L dir).eraseP (wanted portIndex dir port))) ↔
      prev = none ∨ ∀ b ∈ (L dir).head?, portIndex dir b ≠ port) ∧
    ∀ a b l, prev = some a → L dir = b :: l → portIndex dir b = port →
      ∃ st', getRound portIndex st dir port prev = .ok (st', some a, some b) ∧
        st'.queue dir = [b] ∧ (a ≠ b → st'.links (.next a) = l.head?) := by
  refine ⟨?_, ?_⟩
  swap
  · rintro a b l rfl hl hb
    exact getRound_stale h hl hb
  obtain ⟨b, hb, hport⟩ := hthere
  have hsome : ((L dir).find? (wanted portIndex dir port)).isSome :=
    List.find?_isSome.mpr ⟨b, hb, decide_eq_true hport⟩
  obtain ⟨b', hfind⟩ := Option.isSome_iff_exists.mp hsome
  obtain ⟨hb', l₁, l₂, hl, h₁⟩ := List.find?_eq_some_iff_append.mp hfind
  have hport' : portIndex dir b' = port := of_decide_eq_true hb'
  have hnot : ∀ a ∈ l₁, portIndex dir a ≠ port := fun a ha hpa => by
    have := h₁ a ha
    simp [wanted, hpa] at this
  have herase : (L dir).eraseP (wanted portIndex dir port) = l₁ ++ l₂ := by
    rw [hl, List.eraseP_append_right _ fun a ha => by simpa [wanted] using hnot a ha,
      List.eraseP_cons_of_pos hb']
  constructor
  · rintro ⟨st', prev', b'', hround, hqueue⟩
    by_contra hor
    obtain ⟨hprev, hhead⟩ := not_or.mp hor
    obtain ⟨a, rfl⟩ := Option.ne_none_iff_exists'.mp hprev
    -- the header found is the first, and it stays at the head
    obtain rfl : l₁ = [] := by
      cases l₁ with
      | nil => rfl
      | cons a l₁ =>
        refine absurd (fun b hb => ?_) hhead
        rw [hl] at hb
        obtain rfl : a = b := Option.some.inj hb
        exact hnot a List.mem_cons_self
    obtain ⟨st'', hround', hstale, -⟩ :
        ∃ st'', getRound portIndex st dir port (some a) = _ ∧ _ := getRound_stale h hl hport'
    obtain ⟨rfl, -⟩ := Prod.mk.inj (Except.ok.inj (hround.symm.trans hround'))
    rw [hqueue, Function.update_self, herase, List.nil_append] at hstale
    have hnodup := hl ▸ h.nodup dir
    rw [List.nil_append, hstale] at hnodup
    exact absurd hnodup (by simp)
  · intro hor
    have hprev : l₁ = [] → prev = none := fun hnil => by
      rcases hor with hprev | hhead
      · exact hprev
      · exact absurd hport' (hhead b' (by rw [hl, hnil]; rfl))
    obtain ⟨st', prev', hround, hchains, -⟩ := getRound_some h hl hnot hport' hprev
    exact ⟨st', prev', b', hround, herase ▸ queue_eq hchains⟩

/-- One header on the output list. -/
def oneBuffer : Buffers (Fin 2) :=
  ⟨fun p => if p = .head .output then some 1 else none, fun _ => false, fun _ => 0⟩

theorem chains_oneBuffer :
    Chains oneBuffer.links fun d => if d = .output then [1] else [] where
  chain d := by cases d <;> simp [oneBuffer, Chain]
  apart d d' b hd hd' := by
    cases d <;> cases d' <;> simp at hd hd' ⊢

/-- A call that has been behind header 0 before, which is off the list. -/
theorem getRound_keeps_oneBuffer :
    (¬ ∃ st' prev' b, getRound onePort oneBuffer .output 201 (some 0) = .ok (st', prev', some b) ∧
      st'.queue = Function.update (fun d => if d = .output then [1] else []) .output
        ([1].eraseP (wanted onePort .output 201))) ∧
    ∃ st', getRound onePort oneBuffer .output 201 (some 0) = .ok (st', some 0, some 1) ∧
      st'.queue .output = [1] := by
  have hthere : ∃ b ∈ (if Dir.output = .output then [1] else []), onePort .output b = 201 :=
    ⟨1, by simp, rfl⟩
  obtain ⟨hkeeps, hstale⟩ : _ ∧ ∀ a b l, some (0 : Fin 2) = some a → _ :=
    getRound_keeps_iff chains_oneBuffer hthere
  refine ⟨fun hround => ?_, ?_⟩
  · rcases hkeeps.mp hround with hprev | hhead
    · exact absurd hprev (by simp)
    · exact hhead 1 rfl rfl
  · obtain ⟨st', hround, hqueue, -⟩ := hstale 0 1 [] rfl rfl rfl
    exact ⟨st', hround, hqueue⟩

end Ilclient

end Camkit
