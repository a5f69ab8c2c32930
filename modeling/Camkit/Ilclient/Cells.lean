import Camkit.Ilclient.Filing
import Mathlib.Algebra.BigOperators.Group.Finset.Basic
import Mathlib.Algebra.Order.BigOperators.Group.Finset
import Mathlib.Data.Finset.Dedup
/-!
# IL client — the cells over whole runs

A client that `ilclient_init` has set up, and anything done to it in any
order. Its cells stay in custody, what it returns is what a client with
plain lists returns, and the callback runs out of cells only where the events
of the components are as many as there are cells, which a component that
tells of few different events cannot bring about by telling them often.
-/

namespace Camkit

namespace Ilclient

open Finset

variable {ι : Type} [DecidableEq ι]

/-! ## A new client -/

/-- A client of no events. -/
def Filed.init : Filed ι := ⟨fun _ => [], numEvents, fun _ => ⟨∅, ∅, none⟩⟩

/-- The steps of the abstract client. -/
def filedSteps : Machine (Filed ι) (Op ι) (Option ℤ) where
  step a op :=
    match op.applyFiled a with
    | .error _ => none
    | .ok r => some r

/-- What a client stands for. -/
def Client.filed (st : Client ι) : Filed ι :=
  ⟨st.events, (st.cells .eventList).length, st.comp⟩

variable {st st' : Client ι} {L : ListId ι → List EventId} {a a' : Filed ι} {c d : ι}
variable {e : EventId} {x : Ilevent} {l : List EventId} {op : Op ι} {ops : List (Op ι)}
variable {ret : Option ℤ} {rets : List (Option ℤ)} {masked : Finset ErrorMask}

omit [DecidableEq ι] in
/-- There is one client with plain lists that the links stand for. -/
theorem Arranged.filed_eq (ha : Arranged st L a) : st.filed = a := by
  unfold Client.filed
  rw [funext ha.events_eq, ha.cells_eq, ha.free, ha.comp]

/-- The loop of `ilclient_init` links in one cell after the other. -/
theorem chains_foldl (h : Chains st.links L) (hl : l.Nodup) (hout : ∀ e ∈ l, ∀ h, e ∉ L h) :
    Chains (l.foldl (fun st e => (st.mark e).spare e) st).links
      (Function.update L .eventList (l.reverse ++ L .eventList)) := by
  induction l generalizing st L with
  | nil =>
    rw [List.reverse_nil, List.nil_append, Function.update_eq_self]
    exact h
  | cons e l ih =>
    obtain ⟨he, hl⟩ := List.nodup_cons.mp hl
    have hpushed : Chains ((st.mark e).spare e).links
        (Function.update L .eventList (e :: L .eventList)) := h.push (hout e List.mem_cons_self)
    have hrest := ih hpushed hl fun e' he' h => by
      have hmem := hout e' (List.mem_cons_of_mem _ he') h
      by_cases hh : h = .eventList
      · subst hh
        rw [Function.update_self, List.mem_cons]
        rintro (rfl | hin)
        · exact he he'
        · exact hmem hin
      · rwa [Function.update_of_ne hh]
    rw [Function.update_self, Function.update_idem] at hrest
    rw [List.foldl_cons, List.reverse_cons, List.append_assoc]
    exact hrest

theorem comp_foldl :
    (l.foldl (fun st e => (st.mark e).spare e) st).comp = st.comp := by
  induction l generalizing st with
  | nil => rfl
  | cons e l ih => exact ih

/-- `ilclient_init` puts every cell on the free list. -/
theorem arranged_init : ∃ L, Arranged (ilclientInit (ι := ι)) L Filed.init := by
  have hcleared : Chains (clearedClient (ι := ι)).links fun _ => [] :=
    ⟨fun _ => rfl, fun _ _ _ h => absurd h List.not_mem_nil⟩
  refine ⟨_, chains_foldl hcleared (List.nodup_finRange _) fun _ _ _ => List.not_mem_nil,
    fun e => ⟨.eventList, ?_⟩, fun c => ?_, ?_, comp_foldl⟩
  · rw [Function.update_self, List.append_nil, List.mem_reverse]
    exact List.mem_finRange e
  · rw [Function.update_of_ne (by simp)]
    rfl
  · rw [Function.update_self, List.append_nil, List.length_reverse, List.length_finRange]
    rfl

/-! ## Runs of both clients -/

/-- **A step of one client is a step of the other.** -/
theorem step_filed (ha : Arranged st L a) (op : Op ι) :
    (clientSteps.step st op).map (Prod.map Client.filed id) = filedSteps.step a op ∧
      ∀ st' ret, clientSteps.step st op = some (st', ret) → ∃ L', Arranged st' L' st'.filed := by
  have happly := ha.apply op
  unfold clientSteps filedSteps
  simp only
  generalize op.applyFiled a = r at happly ⊢
  cases r with
  | error f =>
    change op.apply st = .error f at happly
    rw [happly]
    exact ⟨rfl, fun _ _ h => absurd h (by simp)⟩
  | ok r =>
    obtain ⟨a', ret⟩ := r
    obtain ⟨st', L', hst, ha'⟩ := happly
    rw [hst]
    refine ⟨?_, fun st'' ret' h => ?_⟩
    · rw [Option.map_some, Prod.map_apply, ha'.filed_eq]
      rfl
    · obtain ⟨rfl, -⟩ := Prod.mk.inj (Option.some.inj h)
      rw [ha'.filed_eq]
      exact ⟨L', ha'⟩

/-- Wherever a run leads, the cells are arranged. -/
theorem arranged_of_run (hrun : clientSteps.run ilclientInit ops = some (st, rets)) :
    ∃ L, Arranged st L st.filed := by
  refine Machine.run_invariant (I := fun st => ∃ L, Arranged st L st.filed) ?_ ?_ hrun
  · obtain ⟨L, ha⟩ := arranged_init (ι := ι)
    exact ⟨L, ha.filed_eq.symm ▸ ha⟩
  · rintro st op st' ret ⟨L, ha⟩ hstep
    exact (step_filed ha op).2 st' ret hstep

/-- A run does what it does with plain lists, from any state. -/
theorem run_filed_from (ha : Arranged st L a) :
    (clientSteps.run st ops).map (Prod.map Client.filed id) = filedSteps.run a ops := by
  induction ops generalizing st L a with
  | nil => exact congrArg (fun a => some (a, [])) ha.filed_eq
  | cons op ops ih =>
    obtain ⟨hstep, hkept⟩ := step_filed ha op
    rw [Machine.run, Machine.run, ← hstep]
    cases hst : clientSteps.step st op with
    | none => rfl
    | some r =>
      obtain ⟨st', ret⟩ := r
      obtain ⟨L', ha'⟩ := hkept st' ret hst
      rw [Option.map_some, Prod.map_apply]
      simp only
      rw [← ih ha']
      cases clientSteps.run st' ops <;> rfl

/-- What a run leads to, with plain lists. -/
theorem filed_of_run (hrun : clientSteps.run ilclientInit ops = some (st, rets)) :
    filedSteps.run Filed.init ops = some (st.filed, rets) := by
  obtain ⟨L, ha⟩ := arranged_init (ι := ι)
  rw [← run_filed_from ha, hrun]
  rfl

/-- **The client is the one with plain lists.** In every run of calls and
callbacks, the events on the lists of the components, the flags and all that
is returned are those of the abstract client, and where one of them faults
so does the other. -/
theorem run_filed (ops : List (Op ι)) :
    (clientSteps.run ilclientInit ops).map (Prod.map Client.filed id) =
      filedSteps.run Filed.init ops := by
  obtain ⟨L, ha⟩ := arranged_init (ι := ι)
  exact run_filed_from ha

/-! ## Custody of the cells -/

/-- The abstract client with a flag of an event set and those notified. -/
def Filed.told (a : Filed ι) (c : ι) (x : Ilevent) : Filed ι :=
  x.flag.elim (a.notify c x) ((a.notify c x).setFlag c)

/-- **What becomes of an event that comes in.** -/
theorem handle_cases (a : Filed ι) (c : ι) (x : Ilevent) :
    (((a.dedup c).free = 0 ∨ ¬ x.Known) ∧ a.handle c x = .error .assert) ∨
    ((a.dedup c).free ≠ 0 ∧ x.Known ∧ x.Masked (a.comp c).errorMask ∧
      a.handle c x = .ok ((a.dedup c).notify c x)) ∨
    ((a.dedup c).free ≠ 0 ∧ x.Known ∧ ¬ x.Masked (a.comp c).errorMask ∧
      a.handle c x = .ok (((a.dedup c).told c x).put c
        (x.filed :: ((a.dedup c).told c x).events c) (((a.dedup c).told c x).free - 1))) := by
  unfold Filed.handle
  by_cases hfree : (a.dedup c).free = 0
  · exact .inl ⟨.inl hfree, if_pos hfree⟩
  · simp only
    rw [if_neg hfree]
    rcases dispatch_cases (a.comp c).errorMask x with ⟨hk, hd⟩ | ⟨hk, hm, hd⟩ | ⟨hk, hm, hd⟩
    · refine .inl ⟨.inr hk, ?_⟩
      rw [show (a.dedup c).comp = a.comp from rfl, hd]
    · refine .inr (.inl ⟨hfree, hk, hm, ?_⟩)
      rw [show (a.dedup c).comp = a.comp from rfl, hd]
      rfl
    · refine .inr (.inr ⟨hfree, hk, hm, ?_⟩)
      rw [show (a.dedup c).comp = a.comp from rfl, hd]
      rfl

/-- A callback fails in an assertion only. -/
theorem handle_error {f : Fault} (h : a.handle c x = .error f) : f = .assert := by
  rcases handle_cases a c x with ⟨-, hh⟩ | ⟨-, -, -, hh⟩ | ⟨-, -, -, hh⟩
  · exact (Except.error.inj (hh.symm.trans h)).symm
  · exact absurd (hh.symm.trans h) (by simp)
  · exact absurd (hh.symm.trans h) (by simp)

/-- And no other call fails. -/
theorem applyFiled_error {f : Fault} (h : op.applyFiled a = .error f) :
    ∃ c x, op = .eventHandler c x ∧ a.handle c x = .error f := by
  cases op with
  | eventHandler c x =>
    refine ⟨c, x, rfl, ?_⟩
    change (a.handle c x).map _ = _ at h
    cases hhandle : a.handle c x with
    | ok a' =>
      rw [hhandle] at h
      exact absurd h (by simp [Except.map])
    | error g =>
      rw [hhandle] at h
      exact congrArg _ (Except.error.inj h)
  | _ => exact absurd h (by simp [Op.applyFiled])

/-- **No cell is lost or on two lists**, and no loop over a list goes on for
ever: in every state a run leads to, each cell is on one list and once, and
the next call, whichever it is, comes to an end. -/
theorem cells_of_run (hrun : clientSteps.run ilclientInit ops = some (st, rets)) :
    (∀ e, ∃! h, e ∈ st.cells h) ∧ (∀ h, (st.cells h).Nodup) ∧
      ∀ op : Op ι, op.apply st ≠ .error .endless := by
  obtain ⟨L, ha⟩ := arranged_of_run hrun
  refine ⟨fun e => ?_, fun h => ?_, fun op hend => ?_⟩
  · obtain ⟨h, he⟩ := ha.all e
    refine ⟨h, by simpa only [ha.cells_eq] using he, fun h' he' => ?_⟩
    exact ha.chains.apart h' h e (ha.cells_eq h' ▸ he') he
  · rw [ha.cells_eq]
    exact ha.chains.nodup h
  · have happly := ha.apply op
    cases hr : op.applyFiled st.filed with
    | error f =>
      rw [hr] at happly
      obtain ⟨c, x, -, hhandle⟩ := applyFiled_error hr
      obtain rfl := Except.error.inj (hend.symm.trans happly)
      exact absurd (handle_error hhandle) (by simp)
    | ok r =>
      rw [hr] at happly
      obtain ⟨st', L', hst, -⟩ := happly
      exact absurd (hend.symm.trans hst) (by simp)

/-- A command that completes, and is waited for. -/
def oneCommand : List (Op Unit) :=
  [.eventHandler () ⟨.cmdComplete, .command .stateSet, 2⟩, .waitRound () .stateSet 2 none]

theorem oneCommand_runs : (clientSteps.run ilclientInit oneCommand).isSome = true := by
  decide +kernel

/-- The cells after one command. -/
theorem cells_of_oneCommand :
    ∃ st rets, clientSteps.run ilclientInit oneCommand = some (st, rets) ∧
      ∀ e, ∃! h, e ∈ st.cells h := by
  obtain ⟨⟨st, rets⟩, hrun⟩ := Option.isSome_iff_exists.mp oneCommand_runs
  exact ⟨st, rets, hrun, (cells_of_run hrun).1⟩

/-! ## How many events there are -/

/-- The events of an abstract client in order: of each component those filed
before the last are different. -/
structure Filed.Tidy [Fintype ι] (a : Filed ι) : Prop where
  tail : ∀ c, (a.events c).tail.Nodup
  total : a.free + ∑ c, (a.events c).length = numEvents

section Counting

variable [Fintype ι] {xs : List Ilevent} {n : ℕ} {q : Ilevent → Bool}

/-- A list replaced, the others keep their events. -/
theorem sum_put (a : Filed ι) (c : ι) (xs : List Ilevent) (n : ℕ) :
    ∑ d, ((a.put c xs n).events d).length + (a.events c).length =
      ∑ d, (a.events d).length + xs.length := by
  have hother : ∑ d ∈ univ.erase c, ((a.put c xs n).events d).length =
      ∑ d ∈ univ.erase c, (a.events d).length :=
    Finset.sum_congr rfl fun d hd =>
      congrArg _ (Function.update_of_ne (Finset.ne_of_mem_erase hd) ..)
  have hself : ((a.put c xs n).events c).length = xs.length :=
    congrArg _ (Function.update_self ..)
  rw [← Finset.sum_erase_add _ _ (Finset.mem_univ c), hother, hself,
    ← Finset.sum_erase_add univ (fun d => (a.events d).length) (Finset.mem_univ c)]
  omega

namespace Filed.Tidy

/-- A list replaced stays tidy where no cell is lost. -/
theorem put (ha : a.Tidy) (hxs : xs.tail.Nodup)
    (hn : n + xs.length = a.free + (a.events c).length) : (a.put c xs n).Tidy where
  tail d := by
    by_cases hd : d = c
    · subst hd
      rw [show (a.put d xs n).events d = xs from Function.update_self ..]
      exact hxs
    · rw [show (a.put c xs n).events d = a.events d from Function.update_of_ne hd ..]
      exact ha.tail d
  total := by
    have hsum := sum_put a c xs n
    have htotal := ha.total
    change n + _ = _
    omega

theorem modify (ha : a.Tidy) (c : ι) (f : Component ι → Component ι) : (a.modify c f).Tidy :=
  ⟨ha.tail, ha.total⟩

theorem setFlag (ha : a.Tidy) (c : ι) (f : Flag) : (a.setFlag c f).Tidy := ha.modify c _

theorem consume (ha : a.Tidy) (c : ι) (mask : Finset Flag) : (a.consume c mask).Tidy :=
  ha.modify c _

/-- An event taken off leaves the others without repetition. -/
theorem tail_eraseP (hxs : xs.tail.Nodup) : (xs.eraseP q).tail.Nodup := by
  cases xs with
  | nil => exact List.nodup_nil
  | cons x xs =>
    rw [List.eraseP_cons]
    cases q x with
    | true => exact List.Nodup.sublist (List.tail_sublist _) hxs
    | false => exact List.Nodup.sublist List.eraseP_sublist hxs

/-- Taking an event keeps the lists tidy. -/
theorem take (ha : a.Tidy) (c : ι) (q : Ilevent → Bool) : (a.take c q).1.Tidy := by
  unfold Filed.take
  split
  · exact ha
  · next x hfind =>
    refine ha.put (tail_eraseP (ha.tail c)) ?_
    have hlen := List.length_eraseP_of_mem (List.mem_of_find?_eq_some hfind)
      (List.find?_some hfind)
    have hpos := List.length_pos_of_mem (List.mem_of_find?_eq_some hfind)
    omega

/-- And so does moving duplicates back. -/
theorem dedup (ha : a.Tidy) (c : ι) : (a.dedup c).Tidy := by
  have hle := length_eraseDups_le (a.events c)
  exact ha.put ((nodup_eraseDups _).sublist (List.tail_sublist _)) (by omega)

theorem notify (ha : a.Tidy) (c : ι) (x : Ilevent) : (a.notify c x).Tidy := by
  unfold Filed.notify
  split
  · exact ha
  · split
    · exact ha.modify ..
    · exact ha

theorem told (ha : a.Tidy) (c : ι) (x : Ilevent) : (a.told c x).Tidy := by
  unfold Filed.told
  cases x.flag with
  | none => exact ha.notify c x
  | some f => exact (ha.notify c x).setFlag c f

end Filed.Tidy

omit [Fintype ι] in
@[simp] theorem events_notify : (a.notify c x).events = a.events := by
  unfold Filed.notify
  split
  · rfl
  · split <;> rfl

omit [Fintype ι] in
@[simp] theorem free_notify : (a.notify c x).free = a.free := by
  unfold Filed.notify
  split
  · rfl
  · split <;> rfl

omit [Fintype ι] in
@[simp] theorem events_told : (a.told c x).events = a.events := by
  unfold Filed.told
  cases x.flag with
  | none => exact events_notify
  | some f => exact events_notify

omit [Fintype ι] in
@[simp] theorem free_told : (a.told c x).free = a.free := by
  unfold Filed.told
  cases x.flag with
  | none => exact free_notify
  | some f => exact free_notify

namespace Filed.Tidy

omit [Fintype ι] in
theorem events_dedup : (a.dedup c).events c = (a.events c).eraseDups := Function.update_self ..

/-- **Every call keeps the events in order.** -/
theorem step (ha : a.Tidy) (happly : op.applyFiled a = .ok (a', ret)) : a'.Tidy := by
  cases op with
  | eventHandler c x =>
    change (a.handle c x).map _ = _ at happly
    rcases handle_cases a c x with ⟨-, hh⟩ | ⟨-, -, -, hh⟩ | ⟨hfree, -, -, hh⟩
    · rw [hh] at happly
      exact absurd happly (by simp [Except.map])
    · rw [hh] at happly
      obtain ⟨rfl, -⟩ := Prod.mk.inj (Except.ok.inj happly)
      exact (ha.dedup c).notify c x
    · rw [hh] at happly
      obtain ⟨rfl, -⟩ := Prod.mk.inj (Except.ok.inj happly)
      refine ((ha.dedup c).told c x).put ?_ ?_
      · rw [List.tail_cons, events_told, events_dedup]
        exact nodup_eraseDups _
      · rw [List.length_cons, free_told]
        omega
  | removeEvent c eEvent nData1 ignore1 nData2 ignore2 =>
    obtain ⟨rfl, -⟩ := Prod.mk.inj (Except.ok.inj happly)
    have htake := ha.take c fun x => x.Matches eEvent nData1 ignore1 nData2 ignore2
    unfold Filed.remove
    generalize a.take c _ = r at htake ⊢
    obtain ⟨a₁, _ | x⟩ := r
    · exact htake
    · exact htake.consume c _
  | returnEvents c =>
    obtain ⟨rfl, -⟩ := Prod.mk.inj (Except.ok.inj happly)
    exact ha.put List.nodup_nil rfl
  | waitRound c command nData2 other =>
    obtain ⟨rfl, -⟩ := Prod.mk.inj (Except.ok.inj happly)
    have htake := ha.take c fun x => x.Completes command nData2
    generalize a.take c _ = r at htake ⊢
    obtain ⟨a₁, _ | x⟩ := r
    · exact htake
    · simp only
      split
      · exact htake.consume c _
      · exact htake
  | flagsGet c mask =>
    obtain ⟨rfl, -⟩ := Prod.mk.inj (Except.ok.inj happly)
    exact ha.modify c _
  | setRelated c other =>
    obtain ⟨rfl, -⟩ := Prod.mk.inj (Except.ok.inj happly)
    exact ha.modify c _
  | setErrorMask c mask =>
    obtain ⟨rfl, -⟩ := Prod.mk.inj (Except.ok.inj happly)
    exact ha.modify c _

omit [DecidableEq ι] in
theorem init : (Filed.init (ι := ι)).Tidy :=
  ⟨fun _ => List.nodup_nil, by simp [Filed.init]⟩

end Filed.Tidy

omit [Fintype ι] in
theorem filedSteps_step :
    filedSteps.step a op = some (a', ret) ↔ op.applyFiled a = .ok (a', ret) := by
  unfold filedSteps
  simp only
  cases op.applyFiled a <;> simp

/-- The lists are tidy after every run. -/
theorem tidy_of_run (hrun : filedSteps.run Filed.init ops = some (a, rets)) : a.Tidy :=
  Machine.run_invariant Filed.Tidy.init
    (fun _ _ _ _ ha hstep => ha.step (filedSteps_step.mp hstep)) hrun

theorem length_eraseDups (xs : List Ilevent) : xs.eraseDups.length = xs.toFinset.card := by
  rw [← List.toFinset_card_of_nodup (nodup_eraseDups xs)]
  congr 1
  ext x
  rw [List.mem_toFinset, List.mem_toFinset, List.mem_eraseDups]

/-- How many cells are free once the copies are put back. -/
theorem Filed.Tidy.free_dedup (ha : a.Tidy) (c : ι) :
    (a.dedup c).free + (∑ d ∈ univ.erase c, (a.events d).length +
      (a.events c).toFinset.card) = numEvents := by
  have htotal := ha.total
  have hle := length_eraseDups_le (a.events c)
  rw [← Finset.sum_erase_add univ (fun d => (a.events d).length) (Finset.mem_univ c)] at htotal
  rw [← length_eraseDups]
  change a.free + _ + _ = _
  omega

/-- **When the callback runs out of cells.** In every state a run leads to, it
asserts on an event it knows exactly where the events of the other components
and the different events of its own take up all the cells. -/
theorem eventHandler_asserts_iff (hrun : clientSteps.run ilclientInit ops = some (st, rets))
    (c : ι) (x : Ilevent) : eventHandler st c x = .error .assert ↔
      ¬ x.Known ∨ ∑ d ∈ univ.erase c, (st.events d).length +
        (st.events c).toFinset.card = numEvents := by
  obtain ⟨L, ha⟩ := arranged_of_run hrun
  have hfree := (tidy_of_run (filed_of_run hrun)).free_dedup c
  change _ + (∑ d ∈ univ.erase c, (st.events d).length + (st.events c).toFinset.card) = _ at hfree
  have hhandle := ha.eventHandler c x
  rcases handle_cases st.filed c x with ⟨hor, hh⟩ | ⟨hne, hk, -, hh⟩ | ⟨hne, hk, -, hh⟩
  all_goals rw [hh] at hhandle
  · refine ⟨fun _ => hor.symm.imp_right fun hzero => ?_, fun _ => hhandle⟩
    change (st.filed.dedup c).free = 0 at hzero
    omega
  · obtain ⟨st', L', hst, -⟩ := hhandle
    refine ⟨fun h => absurd (hst.symm.trans h) (by simp), ?_⟩
    rintro (h | h)
    · exact absurd hk h
    · omega
  · obtain ⟨st', L', hst, -⟩ := hhandle
    refine ⟨fun h => absurd (hst.symm.trans h) (by simp), ?_⟩
    rintro (h | h)
    · exact absurd hk h
    · omega

/-- A mark after one command: there are cells enough. -/
theorem eventHandler_after_oneCommand :
    ∃ st rets, clientSteps.run ilclientInit oneCommand = some (st, rets) ∧
      (eventHandler st () ⟨.mark, .number 0, 0⟩ = .error .assert ↔
        ¬ Ilevent.Known ⟨.mark, .number 0, 0⟩ ∨
          ∑ d ∈ univ.erase (), (st.events d).length +
            (st.events ()).toFinset.card = numEvents) := by
  obtain ⟨⟨st, rets⟩, hrun⟩ := Option.isSome_iff_exists.mp oneCommand_runs
  exact ⟨st, rets, hrun, eventHandler_asserts_iff hrun () _⟩

omit [Fintype ι] in
/-- An event on a list that has been replaced. -/
theorem events_put {y : Ilevent} {xs : List Ilevent} {n : ℕ}
    (hy : y ∈ (a.put c xs n).events d) : y ∈ a.events d ∨ (d = c ∧ y ∈ xs) := by
  by_cases hd : d = c
  · subst hd
    rw [show (a.put d xs n).events d = xs from Function.update_self ..] at hy
    exact .inr ⟨rfl, hy⟩
  · rw [show (a.put c xs n).events d = a.events d from Function.update_of_ne hd ..] at hy
    exact .inl hy

omit [Fintype ι] in
/-- An event that is left when another is taken. -/
theorem events_take {y : Ilevent} {q : Ilevent → Bool} (hy : y ∈ (a.take c q).1.events d) :
    y ∈ a.events d := by
  unfold Filed.take at hy
  split at hy
  · exact hy
  · rcases events_put hy with hy | ⟨rfl, hy⟩
    · exact hy
    · exact List.mem_of_mem_eraseP hy

omit [Fintype ι] in
/-- **Where an event on a list comes from**: it was there, or it has just come
in. -/
theorem events_apply {y : Ilevent} (happly : op.applyFiled a = .ok (a', ret))
    (hy : y ∈ a'.events d) : y ∈ a.events d ∨ ∃ x, op = .eventHandler d x ∧ y = x.filed := by
  cases op with
  | eventHandler c x =>
    have hdedup : ∀ d, y ∈ (a.dedup c).events d → y ∈ a.events d := fun d hy => by
      rcases events_put hy with hy | ⟨rfl, hy⟩
      · exact hy
      · exact List.mem_eraseDups.mp hy
    change (a.handle c x).map _ = _ at happly
    rcases handle_cases a c x with ⟨-, hh⟩ | ⟨-, -, -, hh⟩ | ⟨-, -, -, hh⟩
    · rw [hh] at happly
      exact absurd happly (by simp [Except.map])
    · rw [hh] at happly
      obtain ⟨rfl, -⟩ := Prod.mk.inj (Except.ok.inj happly)
      rw [events_notify] at hy
      exact .inl (hdedup d hy)
    · rw [hh] at happly
      obtain ⟨rfl, -⟩ := Prod.mk.inj (Except.ok.inj happly)
      rcases events_put hy with hy | ⟨rfl, hy⟩
      · rw [events_told] at hy
        exact .inl (hdedup d hy)
      · rw [events_told] at hy
        rcases List.mem_cons.mp hy with rfl | hy
        · exact .inr ⟨x, rfl, rfl⟩
        · exact .inl (hdedup d hy)
  | removeEvent c eEvent nData1 ignore1 nData2 ignore2 =>
    obtain ⟨rfl, -⟩ := Prod.mk.inj (Except.ok.inj happly)
    refine .inl (events_take (c := c)
      (q := fun x => x.Matches eEvent nData1 ignore1 nData2 ignore2) ?_)
    unfold Filed.remove at hy
    generalize a.take c _ = r at hy ⊢
    obtain ⟨a₁, _ | x⟩ := r
    · exact hy
    · exact hy
  | returnEvents c =>
    obtain ⟨rfl, -⟩ := Prod.mk.inj (Except.ok.inj happly)
    exact .inl ((events_put hy).resolve_right fun h => List.not_mem_nil h.2)
  | waitRound c command nData2 other =>
    obtain ⟨rfl, -⟩ := Prod.mk.inj (Except.ok.inj happly)
    refine .inl (events_take (c := c) (q := fun x => x.Completes command nData2) ?_)
    generalize a.take c _ = r at hy ⊢
    obtain ⟨a₁, _ | x⟩ := r
    · exact hy
    · simp only at hy
      split at hy <;> exact hy
  | flagsGet c mask =>
    obtain ⟨rfl, -⟩ := Prod.mk.inj (Except.ok.inj happly)
    exact .inl hy
  | setRelated c other =>
    obtain ⟨rfl, -⟩ := Prod.mk.inj (Except.ok.inj happly)
    exact .inl hy
  | setErrorMask c mask =>
    obtain ⟨rfl, -⟩ := Prod.mk.inj (Except.ok.inj happly)
    exact .inl hy

/-! ## Enough cells for ever -/

/-- The events on the lists are of the kinds in `S`. -/
def Filed.Within (S : ι → Finset Ilevent) (a : Filed ι) : Prop := ∀ c, ∀ y ∈ a.events c, y ∈ S c

variable {S : ι → Finset Ilevent}

omit [DecidableEq ι] in
/-- A list in order is no longer than there are kinds of events, and one. -/
theorem length_events_le (ha : a.Tidy) (hS : a.Within S) (c : ι) :
    (a.events c).length ≤ (S c).card + 1 := by
  have hsub : (a.events c).tail.toFinset ⊆ S c := fun y hy =>
    hS c y (List.mem_of_mem_tail (List.mem_toFinset.mp hy))
  have hcard := Finset.card_le_card hsub
  rw [List.toFinset_card_of_nodup (ha.tail c), List.length_tail] at hcard
  omega

/-- **A component cannot use up the cells by telling the same over and over.**
Where each component tells of a few kinds of events only, and there is a cell
for each kind and one for each component, no call and no callback ever
asserts, whatever their order and number. -/
theorem run_of_within (hS : ∑ c, ((S c).card + 1) ≤ numEvents)
    (hops : ∀ c x, .eventHandler c x ∈ ops → x.Known ∧ x.filed ∈ S c) :
    ∃ st rets, clientSteps.run ilclientInit ops = some (st, rets) ∧
      ∀ c, (st.events c).length ≤ (S c).card + 1 := by
  have hsteps : ∀ a op, a.Tidy ∧ a.Within S →
      (∀ c x, op = .eventHandler c x → x.Known ∧ x.filed ∈ S c) →
      ∃ a' ret, filedSteps.step a op = some (a', ret) ∧ a'.Tidy ∧ a'.Within S := by
    rintro a op ⟨ha, hwithin⟩ hop
    cases happly : op.applyFiled a with
    | ok r =>
      obtain ⟨a', ret⟩ := r
      refine ⟨a', ret, filedSteps_step.mpr happly, ha.step happly, fun d y hy => ?_⟩
      rcases events_apply happly hy with hy | ⟨x, rfl, rfl⟩
      · exact hwithin d y hy
      · exact (hop d x rfl).2
    | error f =>
      -- the callback has a cell left, so it does not assert
      obtain ⟨c, x, rfl, hhandle⟩ := applyFiled_error happly
      obtain ⟨hk, -⟩ := hop c x rfl
      have hfree := ha.free_dedup c
      have hother : ∑ d ∈ univ.erase c, (a.events d).length ≤
          ∑ d ∈ univ.erase c, ((S d).card + 1) :=
        Finset.sum_le_sum fun d _ => length_events_le ha hwithin d
      have hown : (a.events c).toFinset.card ≤ (S c).card :=
        Finset.card_le_card fun y hy => hwithin c y (List.mem_toFinset.mp hy)
      rw [← Finset.sum_erase_add univ _ (Finset.mem_univ c)] at hS
      rcases handle_cases a c x with ⟨hzero | hnot, -⟩ | ⟨-, -, -, hh⟩ | ⟨-, -, -, hh⟩
      · omega
      · exact absurd hk hnot
      · exact absurd (hh.symm.trans hhandle) (by simp)
      · exact absurd (hh.symm.trans hhandle) (by simp)
  have hinit : (Filed.init (ι := ι)).Within S := fun _ _ hy => absurd hy List.not_mem_nil
  obtain ⟨a, rets, hrun, ha, hwithin⟩ :=
    Machine.run_exists_forall hsteps ⟨Filed.Tidy.init, hinit⟩
      fun op (hop : op ∈ ops) c x heq => hops c x (heq ▸ hop)
  obtain ⟨L, harranged⟩ := arranged_init (ι := ι)
  have hfiled : (clientSteps.run ilclientInit ops).map (Prod.map Client.filed id) =
      filedSteps.run Filed.init ops := run_filed_from harranged
  rw [hrun] at hfiled
  obtain ⟨⟨st, rets'⟩, hst, heq⟩ := Option.map_eq_some_iff.mp hfiled
  obtain ⟨rfl, rfl⟩ := Prod.mk.inj heq
  exact ⟨st, rets', hst, length_events_le ha hwithin⟩

/-- Two hundred times the same. -/
theorem run_of_within_repeated :
    ∃ st rets, clientSteps.run ilclientInit (List.replicate 200
        (.eventHandler () ⟨.cmdComplete, .command .flush, 0⟩)) = some (st, rets) ∧
      ∀ c, (st.events c).length ≤ ((fun _ : Unit => ({⟨.cmdComplete, .command .flush, 0⟩} :
        Finset Ilevent)) c).card + 1 := by
  refine run_of_within (by simp [numEvents]) fun c x hop => ?_
  obtain ⟨rfl, rfl⟩ := Op.eventHandler.inj (List.eq_of_mem_replicate hop)
  exact ⟨by simp [Ilevent.Known, Command.flag], by simp [Ilevent.filed]⟩

end Counting

end Ilclient

end Camkit
