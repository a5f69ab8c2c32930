import Camkit.Ilcore.Model.Core
import Mathlib.Algebra.BigOperators.Group.Finset.Piecewise
import Mathlib.Algebra.Order.BigOperators.Group.Finset
/-!
# IL core — the connection is there for those who use it

`coreInit` counts the threads' `OMX_Init` less their `OMX_Deinit` and the
connection is open where it is positive, whatever the threads do. It need not
be positive where a thread has called `OMX_Init`, since the look of
`OMX_Deinit` is not under the lock; it is where all threads keep to the rule.
-/

namespace Camkit

namespace Ilcore

variable {T : Type} [Fintype T] [DecidableEq T]
variable {s s' : Core T} {t u : T} {op : CoreOp T} {out : Outcome} {th : Thread} {n m : ℤ}
variable {connection : ℕ} {ops : List (CoreOp T)} {outs : List Outcome}

/-! ## What a step does -/

/-- A step, by what it finds and what it leaves. -/
inductive Core.Did (s : Core T) : CoreOp T → Core T → Outcome → Prop
  | opened (t : T) (hidle : (s.thread t).call = .none) (hzero : s.coreInit = 0) :
    s.Did (.init t true) { s.move t { s.thread t with inits := (s.thread t).inits + 1 } with
      coreInit := 1
      ilcsService := some s.opened
      opened := s.opened + 1 } (.ret .none)
  | hardware (t : T) : s.Did (.init t false) s (.ret .hardware)
  | again (t : T) (opens : Bool) (hidle : (s.thread t).call = .none) (hne : s.coreInit ≠ 0) :
    s.Did (.init t opens) { s.move t { s.thread t with inits := (s.thread t).inits + 1 } with
      coreInit := s.coreInit + 1 } (.ret .none)
  | closed (t : T) (hnone : s.ilcsService = none) : s.Did (.getHandle t) s (.ret .badParameter)
  | getHandle (t : T) (hidle : (s.thread t).call = .none) :
    s.Did (.getHandle t) (s.goto t .create) .on
  | null (t : T) (ok : Bool) (hcall : (s.thread t).call = .create) (hnone : s.ilcsService = none) :
    s.Did (.create t ok) s .null
  | made (t : T) (connection : ℕ) (hcall : (s.thread t).call = .create)
    (hsome : s.ilcsService = some connection) :
    s.Did (.create t true) (s.goto t (.count connection)) .on
  | unmade (t : T) (hcall : (s.thread t).call = .create) :
    s.Did (.create t false) (s.goto t .none) (.ret .component)
  | count (t : T) (connection : ℕ) (hcall : (s.thread t).call = .count connection) :
    s.Did (.count t) { s.move t { s.thread t with
        handles := connection ::ₘ (s.thread t).handles
        call := .none } with
      nActiveHandles := s.nActiveHandles + 1 } (.ret .none)
  | lost (t : T) (connection : ℕ) (hmem : connection ∈ (s.thread t).handles)
    (hnone : s.ilcsService = none) : s.Did (.freeHandle t connection) s (.ret .badParameter)
  | freeHandle (t : T) (connection : ℕ) (hidle : (s.thread t).call = .none)
    (hmem : connection ∈ (s.thread t).handles) :
    s.Did (.freeHandle t connection) (s.goto t (.componentDeInit connection)) .on
  | stale (t : T) (ok : Bool) (connection : ℕ)
    (hcall : (s.thread t).call = .componentDeInit connection)
    (hne : s.ilcsService ≠ some connection) : s.Did (.componentDeInit t ok) s .stale
  | gone (t : T) (connection : ℕ) (hcall : (s.thread t).call = .componentDeInit connection) :
    s.Did (.componentDeInit t true) (s.move t { s.thread t with
      handles := (s.thread t).handles.erase connection
      call := .uncount }) .on
  | kept (t : T) (connection : ℕ) (hcall : (s.thread t).call = .componentDeInit connection) :
    s.Did (.componentDeInit t false) (s.goto t (.assert false)) .on
  | uncount (t : T) (hcall : (s.thread t).call = .uncount) :
    s.Did (.uncount t) { s.goto t (.assert true) with
      nActiveHandles := s.nActiveHandles - 1 } .on
  | abort (t : T) (hneg : s.nActiveHandles < 0) : s.Did (.assert t) s .abort
  | assert (t : T) (gone : Bool) (hcall : (s.thread t).call = .assert gone) :
    s.Did (.assert t) (s.goto t .none) (.ret (if gone then .none else .component))
  | notReady (t : T) (hzero : s.coreInit = 0) : s.Did (.deinit t) s (.ret .notReady)
  | deinit (t : T) (hidle : (s.thread t).call = .none) : s.Did (.deinit t) (s.goto t .leave) .on
  | leave (t : T) (hcall : (s.thread t).call = .leave) :
    s.Did (.leave t) { s.move t { s.thread t with
        inits := (s.thread t).inits - 1
        call := .none } with
      coreInit := s.coreInit - 1
      ilcsService := if s.coreInit - 1 = 0 then none else s.ilcsService } (.ret .none)

omit [Fintype T] in
/-- A step is one of these. -/
theorem did_of_step (hstep : s.step op = some (s', out)) : s.Did op s' out := by
  cases op with
  | init t opens =>
    rw [Core.step] at hstep
    split at hstep
    · exact absurd hstep (by simp)
    · rename_i hidle
      split at hstep
      · rename_i hzero
        cases opens with
        | true =>
          obtain ⟨rfl, rfl⟩ := Prod.mk.inj (Option.some.inj hstep)
          exact .opened t (not_not.mp hidle) hzero
        | false =>
          obtain ⟨rfl, rfl⟩ := Prod.mk.inj (Option.some.inj hstep)
          exact .hardware t
      · rename_i hne
        obtain ⟨rfl, rfl⟩ := Prod.mk.inj (Option.some.inj hstep)
        exact .again t opens (not_not.mp hidle) hne
  | getHandle t =>
    rw [Core.step] at hstep
    split at hstep
    · exact absurd hstep (by simp)
    · rename_i hidle
      split at hstep
      · rename_i hnone
        obtain ⟨rfl, rfl⟩ := Prod.mk.inj (Option.some.inj hstep)
        exact .closed t hnone
      · obtain ⟨rfl, rfl⟩ := Prod.mk.inj (Option.some.inj hstep)
        exact .getHandle t (not_not.mp hidle)
  | create t ok =>
    rw [Core.step] at hstep
    split at hstep
    · exact absurd hstep (by simp)
    · rename_i hcall
      split at hstep
      · rename_i hnone
        obtain ⟨rfl, rfl⟩ := Prod.mk.inj (Option.some.inj hstep)
        exact .null t ok (not_not.mp hcall) hnone
      · rename_i connection hsome
        cases ok with
        | true =>
          obtain ⟨rfl, rfl⟩ := Prod.mk.inj (Option.some.inj hstep)
          exact .made t connection (not_not.mp hcall) hsome
        | false =>
          obtain ⟨rfl, rfl⟩ := Prod.mk.inj (Option.some.inj hstep)
          exact .unmade t (not_not.mp hcall)
  | count t =>
    rw [Core.step] at hstep
    split at hstep
    · rename_i connection hcall
      obtain ⟨rfl, rfl⟩ := Prod.mk.inj (Option.some.inj hstep)
      exact .count t connection hcall
    · exact absurd hstep (by simp)
  | freeHandle t connection =>
    rw [Core.step] at hstep
    split at hstep
    · exact absurd hstep (by simp)
    · rename_i hidle
      obtain ⟨hidle, hmem⟩ := not_or.mp hidle
      split at hstep
      · rename_i hnone
        obtain ⟨rfl, rfl⟩ := Prod.mk.inj (Option.some.inj hstep)
        exact .lost t connection (not_not.mp hmem) hnone
      · obtain ⟨rfl, rfl⟩ := Prod.mk.inj (Option.some.inj hstep)
        exact .freeHandle t connection (not_not.mp hidle) (not_not.mp hmem)
  | componentDeInit t ok =>
    rw [Core.step] at hstep
    split at hstep
    · rename_i connection hcall
      split at hstep
      · rename_i hne
        obtain ⟨rfl, rfl⟩ := Prod.mk.inj (Option.some.inj hstep)
        exact .stale t ok connection hcall hne
      · cases ok with
        | true =>
          obtain ⟨rfl, rfl⟩ := Prod.mk.inj (Option.some.inj hstep)
          exact .gone t connection hcall
        | false =>
          obtain ⟨rfl, rfl⟩ := Prod.mk.inj (Option.some.inj hstep)
          exact .kept t connection hcall
    · exact absurd hstep (by simp)
  | uncount t =>
    rw [Core.step] at hstep
    split at hstep
    · exact absurd hstep (by simp)
    · rename_i hcall
      obtain ⟨rfl, rfl⟩ := Prod.mk.inj (Option.some.inj hstep)
      exact .uncount t (not_not.mp hcall)
  | assert t =>
    rw [Core.step] at hstep
    split at hstep
    · rename_i gone hcall
      split at hstep
      · rename_i hneg
        obtain ⟨rfl, rfl⟩ := Prod.mk.inj (Option.some.inj hstep)
        exact .abort t hneg
      · obtain ⟨rfl, rfl⟩ := Prod.mk.inj (Option.some.inj hstep)
        exact .assert t gone hcall
    · exact absurd hstep (by simp)
  | deinit t =>
    rw [Core.step] at hstep
    split at hstep
    · exact absurd hstep (by simp)
    · rename_i hidle
      split at hstep
      · rename_i hzero
        obtain ⟨rfl, rfl⟩ := Prod.mk.inj (Option.some.inj hstep)
        exact .notReady t hzero
      · obtain ⟨rfl, rfl⟩ := Prod.mk.inj (Option.some.inj hstep)
        exact .deinit t (not_not.mp hidle)
  | leave t =>
    rw [Core.step] at hstep
    split at hstep
    · exact absurd hstep (by simp)
    · rename_i hcall
      obtain ⟨rfl, rfl⟩ := Prod.mk.inj (Option.some.inj hstep)
      exact .leave t (not_not.mp hcall)

/-! ## The counts -/

/-- The components of a thread as `nActiveHandles` counts them: one is counted
until the count is taken back, although it is gone before. -/
def Thread.counted (th : Thread) : ℤ :=
  th.handles.card + if th.call = .uncount then 1 else 0

/-- **What is counted**: the `OMX_Init` less the `OMX_Deinit`, with the
connection open where that is positive, and the components. -/
structure Counts (s : Core T) : Prop where
  coreInit : s.coreInit = ∑ t, (s.thread t).inits
  isSome : s.ilcsService.isSome ↔ 0 < s.coreInit
  handles : s.nActiveHandles = ∑ t, (s.thread t).counted
  frees : ∀ t connection, (s.thread t).call = .componentDeInit connection →
    connection ∈ (s.thread t).handles

/-- A sum over the threads when one of them goes on. -/
theorem sum_update (f : Thread → ℤ) (thread : T → Thread) (t : T) (th : Thread) :
    ∑ u, f (Function.update thread t th u) = ∑ u, f (thread u) + (f th - f (thread t)) := by
  have hcomp : (fun u => f (Function.update thread t th u)) =
      Function.update (fun u => f (thread u)) t (f th) :=
    Function.comp_update f thread t th
  rw [hcomp, Finset.sum_update_of_mem (Finset.mem_univ t),
    ← Finset.add_sum_erase _ (fun u => f (thread u)) (Finset.mem_univ t), Finset.erase_eq]
  omega

/-- A thread goes on, and the counts with it. -/
theorem Counts.move {service : Option ℕ} {opened : ℕ} (h : Counts s)
    (hn : n = s.coreInit + (th.inits - (s.thread t).inits)) (hservice : service.isSome ↔ 0 < n)
    (hm : m = s.nActiveHandles + (th.counted - (s.thread t).counted))
    (hfrees : ∀ c, th.call = .componentDeInit c → c ∈ th.handles) :
    Counts { s.move t th with
      coreInit := n
      nActiveHandles := m
      ilcsService := service
      opened := opened } where
  coreInit := by
    rw [hn, h.coreInit]
    exact (sum_update Thread.inits s.thread t th).symm
  isSome := hservice
  handles := by
    rw [hm, h.handles]
    exact (sum_update Thread.counted s.thread t th).symm
  frees u c hu := by
    change (Function.update s.thread t th u).call = _ at hu
    change c ∈ (Function.update s.thread t th u).handles
    by_cases hut : u = t
    · subst hut
      rw [Function.update_self] at hu ⊢
      exact hfrees c hu
    · rw [Function.update_of_ne hut] at hu ⊢
      exact h.frees u c hu

/-- A step of a call that counts nothing. -/
theorem Counts.goto {call : Call} (h : Counts s) (hcall : (s.thread t).call ≠ .uncount)
    (hnew : call ≠ .uncount) (hfrees : ∀ c, call = .componentDeInit c → c ∈ (s.thread t).handles) :
    Counts (s.goto t call) := by
  refine h.move (by simp) h.isSome ?_ hfrees
  simp [Thread.counted, hcall, hnew]

/-- **Each step keeps the counts**, whatever the threads do. -/
theorem Counts.step (h : Counts s) (hdid : s.Did op s' out) : Counts s' := by
  cases hdid with
  | opened t hidle hzero =>
    exact h.move (by simp [hzero]) (by simp) (by simp [Thread.counted]) (by simp [hidle])
  | again t opens hidle hne =>
    refine h.move (by simp) ?_ (by simp [Thread.counted]) (by simp [hidle])
    rw [Core.move_ilcsService, h.isSome]
    omega
  | hardware t => exact h
  | closed t hnone => exact h
  | null t ok hcall hnone => exact h
  | lost t connection hmem hnone => exact h
  | stale t ok connection hcall hne => exact h
  | abort t hneg => exact h
  | notReady t hzero => exact h
  | getHandle t hidle => exact h.goto (by simp [hidle]) (by simp) (by simp)
  | made t connection hcall hsome => exact h.goto (by simp [hcall]) (by simp) (by simp)
  | unmade t hcall => exact h.goto (by simp [hcall]) (by simp) (by simp)
  | freeHandle t connection hidle hmem =>
    exact h.goto (by simp [hidle]) (by simp) (by simp [hmem])
  | kept t connection hcall => exact h.goto (by simp [hcall]) (by simp) (by simp)
  | assert t gone hcall => exact h.goto (by simp [hcall]) (by simp) (by simp)
  | deinit t hidle => exact h.goto (by simp [hidle]) (by simp) (by simp)
  | count t connection hcall =>
    exact h.move (by simp) h.isSome (by simp [Thread.counted, hcall]) (by simp)
  | gone t connection hcall =>
    refine h.move (by simp) h.isSome ?_ (by simp)
    -- the component is off the thread, and still counted
    have hcard := Multiset.card_erase_add_one (h.frees t connection hcall)
    rw [Thread.counted, Thread.counted, hcall, if_pos rfl, if_neg (by simp), ← hcard]
    push_cast
    omega
  | uncount t hcall =>
    refine h.move (by simp) h.isSome ?_ (by simp)
    simp [Thread.counted, hcall]
    omega
  | leave t hcall =>
    refine h.move (by simp; omega) ?_ (by simp [Thread.counted, hcall]) (by simp)
    by_cases hone : s.coreInit - 1 = 0
    · simp [hone]
    · rw [if_neg hone, h.isSome]
      omega

omit [DecidableEq T] in
theorem counts_start : Counts (coreStart (T := T)) where
  coreInit := by simp [coreStart]
  isSome := by simp [coreStart]
  handles := by simp [coreStart, Thread.counted]
  frees t c hcall := by simp [coreStart] at hcall

theorem counts_of_run (hrun : coreSteps.run coreStart ops = some (s, outs)) : Counts s :=
  Machine.run_invariant counts_start (fun _ _ _ _ h hstep => h.step (did_of_step hstep)) hrun

/-! ## Threads that keep to the rule -/

/-- **What the rule makes sure of**: a thread is in a call, or has a
component, between its first `OMX_Init` and its last `OMX_Deinit` only, and
what it has is on the connection that is open. -/
structure Safe (s : Core T) : Prop where
  counts : Counts s
  nonneg : ∀ t, 0 ≤ (s.thread t).inits
  inside : ∀ t, (s.thread t).call ≠ .none ∨ (s.thread t).handles ≠ 0 → 0 < (s.thread t).inits
  fresh : ∀ t connection, connection ∈ (s.thread t).handles ∨
    (s.thread t).call = .count connection → s.ilcsService = some connection
  leaving : ∀ t, (s.thread t).call = .leave → (s.thread t).inits = 1 → (s.thread t).handles = 0

omit [DecidableEq T] in
theorem Safe.inits_le (h : Safe s) (t : T) : (s.thread t).inits ≤ s.coreInit := by
  rw [h.counts.coreInit]
  exact Finset.single_le_sum (fun u _ => h.nonneg u) (Finset.mem_univ t)

omit [DecidableEq T] in
/-- The connection is open for a thread that has called `OMX_Init`. -/
theorem Safe.isSome (h : Safe s) (ht : 0 < (s.thread t).inits) : s.ilcsService ≠ none := by
  have hpos := h.counts.isSome.mpr (ht.trans_le (h.inits_le t))
  rintro hnone
  rw [hnone] at hpos
  exact absurd hpos (by simp)

/-- Where one thread's `OMX_Init` are all there are, the others have none. -/
theorem Safe.alone (h : Safe s) (ht : s.coreInit ≤ (s.thread t).inits) (hu : u ≠ t) :
    (s.thread u).inits ≤ 0 := by
  rw [h.counts.coreInit, ← Finset.add_sum_erase _ _ (Finset.mem_univ t)] at ht
  have hle := Finset.single_le_sum (fun u _ => h.nonneg u)
    (Finset.mem_erase.mpr ⟨hu, Finset.mem_univ u⟩)
  omega

/-- A thread goes on, with the same connection or with no other thread on
it. -/
theorem Safe.move {service : Option ℕ} {opened : ℕ} (h : Safe s)
    (hcounts : Counts { s.move t th with
      coreInit := n
      nActiveHandles := m
      ilcsService := service
      opened := opened })
    (hnonneg : 0 ≤ th.inits) (hinside : th.call ≠ .none ∨ th.handles ≠ 0 → 0 < th.inits)
    (hfresh : ∀ c, c ∈ th.handles ∨ th.call = .count c → service = some c)
    (hleaving : th.call = .leave → th.inits = 1 → th.handles = 0)
    (hservice : service = s.ilcsService ∨ ∀ u, u ≠ t → (s.thread u).inits ≤ 0) :
    Safe { s.move t th with
      coreInit := n
      nActiveHandles := m
      ilcsService := service
      opened := opened } := by
  have hself : Function.update s.thread t th t = th := Function.update_self ..
  have hother : ∀ {u}, u ≠ t → Function.update s.thread t th u = s.thread u :=
    fun hu => Function.update_of_ne hu ..
  refine ⟨hcounts, fun u => ?_, fun u => ?_, fun u => ?_, fun u => ?_⟩
  all_goals
    change T at u
    by_cases hu : u = t
  · subst hu
    simpa only [Core.move, hself] using hnonneg
  · simpa only [Core.move, hother hu] using h.nonneg u
  · subst hu
    simpa only [Core.move, hself] using hinside
  · simpa only [Core.move, hother hu] using h.inside u
  · subst hu
    simpa only [Core.move, hself] using hfresh
  · intro c hc
    simp only [Core.move, hother hu] at hc
    rcases hservice with hsame | halone
    · exact hsame.trans (h.fresh u c hc)
    · -- a thread outside has nothing
      have hin : (s.thread u).call ≠ .none ∨ (s.thread u).handles ≠ 0 := by
        rcases hc with hmem | hcall
        · exact .inr fun hzero => by simp [hzero] at hmem
        · exact .inl (by simp [hcall])
      exact absurd (h.inside u hin) (not_lt.mpr (halone u hu))
  · subst hu
    simpa only [Core.move, hself] using hleaving
  · simpa only [Core.move, hother hu] using h.leaving u

/-- The call is not refused for what its thread has done, and does not go
wrong. -/
def Outcome.Proper : Outcome → Prop
  | .ret .notReady | .ret .badParameter | .null | .stale | .abort => False
  | _ => True

/-- A thread that is outside all calls, or in one, goes on in it. -/
theorem Safe.goto {call : Call} (h : Safe s) (hcounts : Counts (s.goto t call))
    (hinside : call ≠ .none → 0 < (s.thread t).inits)
    (hfresh : ∀ c, call = .count c → s.ilcsService = some c)
    (hleaving : call = .leave → (s.thread t).inits = 1 → (s.thread t).handles = 0) :
    Safe (s.goto t call) := by
  refine h.move hcounts (h.nonneg t) ?_ ?_ hleaving (.inl rfl)
  · rintro (hcall | hhandles)
    · exact hinside hcall
    · exact h.inside t (.inr hhandles)
  · rintro c (hmem | hcall)
    · exact h.fresh t c (.inl hmem)
    · exact hfresh c hcall

/-- **Each step of threads that keep to the rule** keeps them safe, and no
call of theirs goes wrong. -/
theorem Safe.step (h : Safe s) (hkeeps : s.Keeps op) (hdid : s.Did op s' out) :
    Safe s' ∧ out.Proper := by
  have hcounts := h.counts.step hdid
  have hin : ∀ {t}, (s.thread t).call ≠ .none → 0 < (s.thread t).inits :=
    fun hcall => h.inside _ (.inl hcall)
  have hopen : ∀ {t}, 0 < (s.thread t).inits → s.ilcsService ≠ none := h.isSome
  cases hdid with
  | opened t hidle hzero =>
    have hnone : (s.thread t).inits = 0 := le_antisymm (hzero ▸ h.inits_le t) (h.nonneg t)
    have hhandles : (s.thread t).handles = 0 := by
      by_contra hne
      have := h.inside t (.inr hne)
      omega
    refine ⟨h.move hcounts (by simp [hnone]) (by simp [hnone]) (by simp [hhandles, hidle])
      (by simp [hidle]) (.inr fun u hu => h.alone (by omega) hu), trivial⟩
  | hardware t => exact ⟨h, trivial⟩
  | again t opens hidle hne =>
    refine ⟨h.move hcounts (by have := h.nonneg t; simp; omega)
      (fun _ => by have := h.nonneg t; simp; omega) (fun c hc => h.fresh t c hc)
      (by simp [hidle]) (.inl rfl), trivial⟩
  | closed t hnone => exact absurd hnone (hopen hkeeps)
  | getHandle t hidle => exact ⟨h.goto hcounts (fun _ => hkeeps) (by simp) (by simp), trivial⟩
  | null t ok hcall hnone =>
    have hpos : 0 < (s.thread t).inits := hin (by simp [hcall])
    exact absurd hnone (hopen hpos)
  | made t connection hcall hsome =>
    refine ⟨h.goto hcounts (fun _ => hin (by simp [hcall])) ?_ (by simp), trivial⟩
    rintro c ⟨⟩
    exact hsome
  | unmade t hcall => exact ⟨h.goto hcounts (by simp) (by simp) (by simp), trivial⟩
  | count t connection hcall =>
    have hsome := h.fresh t connection (.inr hcall)
    refine ⟨h.move hcounts (h.nonneg t) (fun _ => hin (by simp [hcall])) ?_ (by simp) (.inl rfl),
      trivial⟩
    rintro c (hmem | hnone)
    · rcases Multiset.mem_cons.mp hmem with rfl | hmem
      · exact hsome
      · exact h.fresh t c (.inl hmem)
    · exact absurd hnone (by simp)
  | lost t connection hmem hnone =>
    exact absurd hnone (by simp [h.fresh t connection (.inl hmem)])
  | freeHandle t connection hidle hmem =>
    have hne : (s.thread t).handles ≠ 0 := fun hzero => by simp [hzero] at hmem
    exact ⟨h.goto hcounts (fun _ => h.inside t (.inr hne)) (by simp) (by simp), trivial⟩
  | stale t ok connection hcall hne =>
    exact absurd (h.fresh t connection (.inl (h.counts.frees t connection hcall))) hne
  | gone t connection hcall =>
    refine ⟨h.move hcounts (h.nonneg t) (fun _ => hin (by simp [hcall])) ?_ (by simp) (.inl rfl),
      trivial⟩
    rintro c (hmem | hnone)
    · exact h.fresh t c (.inl (Multiset.mem_of_mem_erase hmem))
    · exact absurd hnone (by simp)
  | kept t connection hcall =>
    exact ⟨h.goto hcounts (fun _ => hin (by simp [hcall])) (by simp) (by simp), trivial⟩
  | uncount t hcall =>
    exact ⟨h.move hcounts (h.nonneg t) (fun _ => hin (by simp [hcall]))
      (fun c hc => h.fresh t c (.inl (hc.resolve_right (by simp)))) (by simp) (.inl rfl), trivial⟩
  | abort t hneg =>
    have hle : 0 ≤ s.nActiveHandles := by
      rw [h.counts.handles]
      refine Finset.sum_nonneg fun u _ => ?_
      rw [Thread.counted]
      split <;> omega
    omega
  | assert t gone hcall =>
    refine ⟨h.goto hcounts (by simp) (by simp) (by simp), ?_⟩
    cases gone <;> trivial
  | notReady t hzero =>
    have := h.inits_le t
    have := hkeeps.1
    omega
  | deinit t hidle =>
    exact ⟨h.goto hcounts (fun _ => hkeeps.1) (by simp) fun _ => hkeeps.2, trivial⟩
  | leave t hcall =>
    have hpos : 0 < (s.thread t).inits := hin (by simp [hcall])
    have hle := h.inits_le t
    refine ⟨h.move hcounts (by simp; omega) ?_ ?_ (by simp) ?_, trivial⟩
    · rintro (hnone | hhandles)
      · exact absurd rfl hnone
      · have hne : (s.thread t).inits ≠ 1 := fun hone => hhandles (h.leaving t hcall hone)
        simp
        omega
    · rintro c (hmem | hnone)
      · have hone : s.coreInit - 1 ≠ 0 := by
          intro hone
          have hinits : (s.thread t).inits = 1 := by omega
          rw [h.leaving t hcall hinits] at hmem
          simp at hmem
        rw [if_neg hone]
        exact h.fresh t c (.inl hmem)
      · exact absurd hnone (by simp)
    · by_cases hone : s.coreInit - 1 = 0
      · exact .inr fun u hu => h.alone (by omega) hu
      · exact .inl (if_neg hone)

omit [DecidableEq T] in
theorem safe_start : Safe (coreStart (T := T)) where
  counts := counts_start
  nonneg t := by simp [coreStart]
  inside t ht := by simp [coreStart] at ht
  fresh t c hc := by simp [coreStart] at hc
  leaving t ht := by simp [coreStart] at ht

/-! ## Whole runs -/

/-- **What `coreInit` is.** In every run of any threads, whatever they call and
however their calls are interleaved, `coreInit` is the number of `OMX_Init`
that have succeeded less that of `OMX_Deinit`, the connection is open exactly
where it is positive, and `nActiveHandles` is the number of components. -/
theorem core_of_run (hrun : coreSteps.run coreStart ops = some (s, outs)) :
    s.coreInit = ∑ t, (s.thread t).inits ∧ (s.ilcsService.isSome ↔ 0 < s.coreInit) ∧
      s.nActiveHandles = ∑ t, (s.thread t).counted :=
  ⟨(counts_of_run hrun).coreInit, (counts_of_run hrun).isSome, (counts_of_run hrun).handles⟩

/-- Two threads are past the look of `OMX_Deinit` when `coreInit` is 1. -/
def race : List (CoreOp Bool) :=
  [.init false true, .deinit false, .deinit true, .leave false, .leave true]

theorem core_of_run_race :
    ∃ s outs, coreSteps.run coreStart race = some (s, outs) ∧
      s.coreInit = ∑ t, (s.thread t).inits ∧ ¬ s.ilcsService.isSome := by
  have hruns : (coreSteps.run coreStart race).any (fun r => r.1.coreInit = -1) = true := by
    decide +kernel
  obtain ⟨⟨s, outs⟩, hrun, hneg⟩ := (Option.any_eq_true _ _).mp hruns
  obtain ⟨hsum, hopen, -⟩ := core_of_run hrun
  have hone : s.coreInit = -1 := of_decide_eq_true hneg
  exact ⟨s, outs, hrun, hsum, fun hsome => by have := hopen.mp hsome; omega⟩

/-- **When `OMX_Init` opens the connection.** A call that succeeds has left it
open exactly where there have not been more `OMX_Deinit` than `OMX_Init`. -/
theorem init_opens_iff {opens : Bool} (hrun : coreSteps.run coreStart ops = some (s, outs))
    (hinit : s.step (.init t opens) = some (s', .ret .none)) :
    s'.ilcsService.isSome ↔ 0 ≤ ∑ t, (s.thread t).inits := by
  have h := counts_of_run hrun
  rw [← h.coreInit]
  cases did_of_step hinit with
  | opened _ hidle hzero => simp [hzero]
  | again _ _ hidle hne =>
    rw [Core.move_ilcsService, h.isSome]
    omega

theorem init_opens_race :
    ∃ s outs s', coreSteps.run coreStart race = some (s, outs) ∧
      s.step (.init false true) = some (s', .ret .none) ∧ ¬ s'.ilcsService.isSome := by
  have hruns : (coreSteps.run coreStart race).any (fun r => ¬ 0 ≤ ∑ t, (r.1.thread t).inits ∧
      (r.1.step (.init false true)).any (fun x => x.2 = .ret .none)) = true := by decide +kernel
  obtain ⟨⟨s, outs⟩, hrun, hboth⟩ := (Option.any_eq_true _ _).mp hruns
  obtain ⟨hneg, hinit⟩ := of_decide_eq_true hboth
  obtain ⟨⟨s', out⟩, hstep, hout⟩ := (Option.any_eq_true _ _).mp hinit
  obtain rfl : out = .ret .none := of_decide_eq_true hout
  exact ⟨s, outs, s', hrun, hstep, fun hopen => hneg ((init_opens_iff hrun hstep).mp hopen)⟩

/-- **Safety of threads that keep to the rule.** However their calls are
interleaved, none finds the connection closed or itself refused, every
component is on the connection that is open, and the assertion on
`nActiveHandles` holds. -/
theorem safe_of_run (hkeeps : coreSteps.Along Core.Keeps coreStart ops)
    (hrun : coreSteps.run coreStart ops = some (s, outs)) :
    (∀ out ∈ outs, out.Proper) ∧ (∀ t, 0 < (s.thread t).inits → s.ilcsService ≠ none) ∧
      ∀ t, ∀ connection ∈ (s.thread t).handles, s.ilcsService = some connection := by
  obtain ⟨h, hproper⟩ := Machine.run_along (I := Safe)
    (fun s op s' out h hkeeps hstep => h.step hkeeps (did_of_step hstep)) safe_start hkeeps hrun
  exact ⟨hproper, fun t => h.isSome, fun t c hc => h.fresh t c (.inl hc)⟩

/-- Two threads, one of which leaves while the other makes a component. -/
def shared : List (CoreOp Bool) :=
  [.init false true, .init true true, .getHandle false, .deinit true, .create false true,
    .leave true, .count false, .freeHandle false 0]

theorem safe_of_run_shared :
    ∃ s outs, coreSteps.run coreStart shared = some (s, outs) ∧ (∀ out ∈ outs, out.Proper) ∧
      s.ilcsService ≠ none := by
  have hruns : (coreSteps.run coreStart shared).any (fun r => 0 < (r.1.thread false).inits) =
      true := by decide +kernel
  obtain ⟨⟨s, outs⟩, hrun, hinits⟩ := (Option.any_eq_true _ _).mp hruns
  have hkeeps : coreSteps.Along Core.Keeps coreStart shared := by decide +kernel
  obtain ⟨hproper, hopen, -⟩ := safe_of_run hkeeps hrun
  exact ⟨s, outs, hrun, hproper, hopen false (of_decide_eq_true hinits)⟩

end Ilcore

end Camkit
