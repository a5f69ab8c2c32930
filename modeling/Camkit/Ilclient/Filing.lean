import Camkit.Ilclient.Model.Events
import Mathlib.Data.Fintype.Card
/-!
# IL client — the events filed

What the cells and links of a client stand for: a list of events for each
component, and a number of cells that are free. Each call on the client is a
call on these, and a list of cells never goes round in a circle.
-/

namespace Camkit

namespace Ilclient

variable {ι : Type} [DecidableEq ι]

/-! ## Lists without copies -/

theorem eraseDups_sublist {α : Type*} [DecidableEq α] (l : List α) : l.eraseDups.Sublist l := by
  induction hn : l.length using Nat.strongRecOn generalizing l with
  | ind n ih =>
    cases l with
    | nil => exact List.Sublist.refl _
    | cons x l =>
      rw [List.eraseDups_cons]
      have hlt := List.length_filter_le (fun y => !y == x) l
      rw [List.length_cons] at hn
      exact ((ih _ (by omega) _ rfl).trans List.filter_sublist).cons_cons x

theorem length_eraseDups_le {α : Type*} [DecidableEq α] (l : List α) :
    l.eraseDups.length ≤ l.length := (eraseDups_sublist l).length_le

theorem nodup_eraseDups {α : Type*} [DecidableEq α] (l : List α) : l.eraseDups.Nodup := by
  induction hn : l.length using Nat.strongRecOn generalizing l with
  | ind n ih =>
    cases l with
    | nil => exact List.nodup_nil
    | cons x l =>
      have hlt := List.length_filter_le (fun y => !y == x) l
      rw [List.length_cons] at hn
      rw [List.eraseDups_cons, List.nodup_cons]
      refine ⟨?_, ih _ (by omega) _ rfl⟩
      rw [List.mem_eraseDups, List.mem_filter]
      simp

/-! ## What the callback knows -/

section Dispatch

variable {x : Ilevent} {masked : Finset ErrorMask} {e : ErrorType}

/-- An event the callback knows: it asserts on any other. -/
def Ilevent.Known (x : Ilevent) : Prop :=
  match x.eEvent, x.nData1 with
  | .cmdComplete, .command cmd => cmd.flag ≠ none
  | .error, .error e => ∀ n, e ≠ .other n
  | .bufferFlag, _ => x.nData2 &&& bufferflagEos ≠ 0
  | .portSettingsChanged, _ | .mark, _ | .paramOrConfigChanged, _ => True
  | _, _ => False

/-- An event as it is filed: of the buffer flags only the end of the stream
is kept. -/
def Ilevent.filed (x : Ilevent) : Ilevent :=
  if x.eEvent = .bufferFlag then { x with nData2 := bufferflagEos } else x

theorem dispatchError_eq (he : ∀ n, e ≠ .other n) : dispatchError masked e =
    if ∃ k ∈ e.mask, k ∈ masked then .ok (none, false)
    else if e.IsSilent then .ok (none, true)
    else .ok (some .eventError, true) := by
  cases e with
  | other n => exact absurd rfl (he n)
  | _ => rfl

/-- The flag of an event that is filed. -/
def Ilevent.flag (x : Ilevent) : Option Flag :=
  match x.eEvent, x.nData1 with
  | .cmdComplete, .command cmd => cmd.flag
  | .error, .error e => if e.IsSilent then none else some .eventError
  | .bufferFlag, _ => some .bufferFlagEos
  | .portSettingsChanged, _ => some .parameterChanged
  | .mark, _ => some .bufferMark
  | .paramOrConfigChanged, _ => some .configChanged
  | _, _ => none

/-- An error that is ignored. -/
def Ilevent.Masked (x : Ilevent) (masked : Finset ErrorMask) : Prop :=
  x.eEvent = .error ∧ ∃ e k, x.nData1 = .error e ∧ e.mask = some k ∧ k ∈ masked

/-- **What the callback does with an event**: it asserts on one it does not
know, and files any other with its flag unless it is to ignore it. -/
theorem dispatch_cases (masked : Finset ErrorMask) (x : Ilevent) :
    (¬ x.Known ∧ dispatch masked x = .error .assert) ∨
    (x.Known ∧ x.Masked masked ∧ dispatch masked x = .ok (none, none)) ∨
      (x.Known ∧ ¬ x.Masked masked ∧ dispatch masked x = .ok (x.flag, some x.filed)) := by
  obtain ⟨eEvent, nData1, nData2⟩ := x
  cases eEvent with
  | cmdComplete =>
    cases nData1 with
    | command cmd =>
      cases cmd <;> simp [Ilevent.Known, Ilevent.Masked, dispatch, Ilevent.flag, Ilevent.filed,
        Command.flag]
    | _ => simp [Ilevent.Known, dispatch]
  | error =>
    cases nData1 with
    | error e =>
      by_cases he : ∃ n, e = .other n
      · obtain ⟨n, rfl⟩ := he
        exact .inl ⟨fun h => h n rfl, rfl⟩
      · have hother : ∀ n, e ≠ .other n := fun n h => he ⟨n, h⟩
        have hmasked : Ilevent.Masked ⟨.error, .error e, nData2⟩ masked ↔
            ∃ k ∈ e.mask, k ∈ masked := by
          simp [Ilevent.Masked]
        rw [hmasked]
        by_cases hm : ∃ k ∈ e.mask, k ∈ masked
        · refine .inr (.inl ⟨hother, hm, ?_⟩)
          simp only [dispatch]
          rw [dispatchError_eq hother, if_pos hm]
          rfl
        · refine .inr (.inr ⟨hother, hm, ?_⟩)
          simp only [dispatch, Ilevent.flag]
          rw [dispatchError_eq hother, if_neg hm]
          by_cases hs : e.IsSilent
          · rw [if_pos hs, if_pos hs]
            rfl
          · rw [if_neg hs, if_neg hs]
            rfl
    | _ => simp [Ilevent.Known, dispatch]
  | bufferFlag =>
    by_cases heos : nData2 &&& bufferflagEos = 0
    · exact .inl ⟨fun h => h heos, by simp [dispatch, heos]⟩
    · refine .inr (.inr ⟨heos, fun h => absurd h.1 (by simp), ?_⟩)
      simp [dispatch, heos, Ilevent.flag, Ilevent.filed]
  | other n => simp [Ilevent.Known, dispatch]
  | _ => simp [Ilevent.Known, Ilevent.Masked, dispatch, Ilevent.flag, Ilevent.filed]

end Dispatch

/-! ## The abstract client -/

/-- The events filed for each component, the last one first, and the number
of cells free. -/
structure Filed (ι : Type) where
  events : ι → List Ilevent
  free : ℕ
  comp : ι → Component ι

namespace Filed

/-- The events of a component changed, with `n` cells free then. -/
def put (a : Filed ι) (c : ι) (xs : List Ilevent) (n : ℕ) : Filed ι :=
  { a with
    events := Function.update a.events c xs
    free := n }

/-- A component changed. -/
def modify (a : Filed ι) (c : ι) (f : Component ι → Component ι) : Filed ι :=
  { a with comp := Function.update a.comp c (f (a.comp c)) }

/-- A flag set. -/
def setFlag (a : Filed ι) (c : ι) (f : Flag) : Filed ι :=
  a.modify c fun x => { x with event := insert f x.event }

/-- Flags consumed. -/
def consume (a : Filed ι) (c : ι) (mask : Finset Flag) : Filed ι :=
  a.modify c fun x => { x with event := x.event \ mask }

/-- The first event with `q` taken off. -/
def take (a : Filed ι) (c : ι) (q : Ilevent → Bool) : Filed ι × Option Ilevent :=
  match (a.events c).find? q with
  | none => (a, none)
  | some x => (a.put c ((a.events c).eraseP q) (a.free + 1), some x)

/-- An event taken off by its pattern. -/
def remove (a : Filed ι) (c : ι) (eEvent : EventType) (nData1 : Data) (ignore1 : Bool)
    (nData2 : UInt32) (ignore2 : Bool) : Filed ι × ℤ :=
  match a.take c fun x => x.Matches eEvent nData1 ignore1 nData2 ignore2 with
  | (a, none) => (a, -1)
  | (a, some _) => (a.consume c (flagsOf eEvent), 0)

/-- The copies of events put back. -/
def dedup (a : Filed ι) (c : ι) : Filed ι :=
  a.put c (a.events c).eraseDups
    (a.free + ((a.events c).length - (a.events c).eraseDups.length))

/-- An error that ends a command told to the one that waits for it. -/
def notify (a : Filed ι) (c : ι) (x : Ilevent) : Filed ι :=
  match (a.comp c).related with
  | none => a
  | some d => if x.eEvent = .error ∧ x.nData2 = 1 then a.setFlag d .eventError else a

/-- An event that comes in. -/
def handle (a : Filed ι) (c : ι) (x : Ilevent) : Except Fault (Filed ι) :=
  let a := a.dedup c
  if a.free = 0 then .error .assert
  else
    match dispatch (a.comp c).errorMask x with
    | .error f => .error f
    | .ok (flag, filed) =>
      let a := a.notify c x
      let a := flag.elim a (a.setFlag c)
      .ok (filed.elim a fun x => a.put c (x :: a.events c) (a.free - 1))

/-- A look at the events for the one a command waits for. -/
def waitRound (a : Filed ι) (c : ι) (command : Command) (nData2 : UInt32) (other : Option ι) :
    Filed ι × Option ℤ :=
  match a.take c fun x => x.Completes command nData2 with
  | (a, some x) =>
    (if x.eEvent = .error then a.consume c {.eventError} else a, some x.waitResult)
  | (a, none) =>
    (a, other.bind fun d => ((a.events d).find? fun x => x.EndsCommand).map fun _ => -2)

end Filed

/-- A step of the abstract client. -/
def Op.applyFiled (a : Filed ι) : Op ι → Except Fault (Filed ι × Option ℤ)
  | .eventHandler c x => (a.handle c x).map fun a => (a, none)
  | .removeEvent c eEvent nData1 ignore1 nData2 ignore2 =>
    let r := a.remove c eEvent nData1 ignore1 nData2 ignore2
    .ok (r.1, some r.2)
  | .returnEvents c => .ok (a.put c [] (a.free + (a.events c).length), none)
  | .waitRound c command nData2 other => .ok (a.waitRound c command nData2 other)
  | .flagsGet c mask => .ok (a.consume c mask, none)
  | .setRelated c other => .ok (a.modify c fun x => { x with related := other }, none)
  | .setErrorMask c mask => .ok (a.modify c fun x => { x with errorMask := mask }, none)

/-! ## The cells that stand for it -/

/-- **The cells are arranged as the events are filed**: each cell is in one
list, and those of a component hold its events. -/
structure Arranged (st : Client ι) (L : ListId ι → List EventId) (a : Filed ι) : Prop where
  chains : Chains st.links L
  all : ∀ e, ∃ h, e ∈ L h
  events : ∀ c, (L (.list c)).map st.eventRep = (a.events c).map some
  free : (L .eventList).length = a.free
  comp : st.comp = a.comp

variable {st : Client ι} {L : ListId ι → List EventId} {a : Filed ι} {c d : ι} {h : ListId ι}
variable {e event : EventId} {x : Ilevent} {xs xs₁ xs₂ : List Ilevent} {l₁ l₂ : List EventId}
variable {q : Ilevent → Bool} {n : ℕ}

namespace Arranged

omit [DecidableEq ι] in
/-- No list is longer than there are cells. -/
theorem length_le (ha : Arranged st L a) (h : ListId ι) : (L h).length ≤ numEvents := by
  have hcard := (ha.chains.nodup h).length_le_card
  rwa [Fintype.card_fin] at hcard

omit [DecidableEq ι] in
/-- The walk over a list finds its cells. -/
theorem cells_eq (ha : Arranged st L a) (h : ListId ι) : st.cells h = L h :=
  (ha.chains.chain h).follow_eq (ha.length_le h)

omit [DecidableEq ι] in
/-- And its events. -/
theorem events_eq (ha : Arranged st L a) (c : ι) : st.events c = a.events c := by
  have hmap : (L (.list c)).filterMap st.eventRep =
      ((L (.list c)).map st.eventRep).filterMap id := by
    rw [List.filterMap_map]
    rfl
  rw [Client.events, ha.cells_eq, hmap, ha.events, List.filterMap_map]
  exact List.filterMap_some

/-- Only the components changed. -/
theorem modify (ha : Arranged st L a) (c : ι) (f : Component ι → Component ι) :
    Arranged (st.modify c f) L (a.modify c f) where
  chains := ha.chains
  all := ha.all
  events := ha.events
  free := ha.free
  comp := by
    change Function.update st.comp c (f (st.comp c)) = Function.update a.comp c (f (a.comp c))
    rw [ha.comp]

theorem setFlag (ha : Arranged st L a) (c : ι) (f : Flag) :
    Arranged (st.setFlag c f) L (a.setFlag c f) := ha.modify c _

omit [DecidableEq ι] in
/-- The event in a cell that is in use does not depend on the others. -/
theorem mark (ha : Arranged st L a) (he : e ∈ L .eventList) : Arranged (st.mark e) L a where
  chains := ha.chains
  all := ha.all
  events c := by
    rw [← ha.events c]
    refine List.map_congr_left fun e' he' => Function.update_of_ne ?_ ..
    rintro rfl
    exact absurd (ha.chains.apart _ _ _ he he') (by simp)
  free := ha.free
  comp := ha.comp

/-- The lists with a cell of a component moved to those not in use. -/
def moved (L : ListId ι → List EventId) (c : ι) (l : List EventId) (e : EventId) :
    ListId ι → List EventId :=
  Function.update (Function.update L (.list c) l) .eventList (e :: L .eventList)

theorem moved_list {l : List EventId} : moved L c l e (.list c) = l := by
  rw [moved, Function.update_of_ne (by simp), Function.update_self]

theorem moved_eventList {l : List EventId} : moved L c l e .eventList = e :: L .eventList :=
  Function.update_self ..

theorem moved_of_ne {l : List EventId} (hd : d ≠ c) : moved L c l e (.list d) = L (.list d) := by
  rw [moved, Function.update_of_ne (by simp), Function.update_of_ne (by simpa using hd)]

/-- **A cell of a component moved to those not in use.** -/
theorem toSpare (ha : Arranged st L a) (hl : L (.list c) = l₁ ++ e :: l₂)
    (hxs : a.events c = xs₁ ++ x :: xs₂) (hlen : l₁.length = xs₁.length) :
    Arranged ((st.unlink ((Place.head (.list c)).after l₁) e).spare e) (moved L c (l₁ ++ l₂) e)
      (a.put c (xs₁ ++ xs₂) (a.free + 1)) := by
  have hmem : e ∈ L (.list c) := by
    rw [hl]
    exact List.mem_append_right _ List.mem_cons_self
  have hnodup := ha.chains.nodup (.list c)
  have hunlinked := ha.chains.unlink hl
  -- once it is unlinked the cell is in no list
  have hout : ∀ h, e ∉ Function.update L (.list c) (l₁ ++ l₂) h := by
    intro h
    by_cases hh : h = .list c
    · subst hh
      rw [Function.update_self]
      rw [hl, List.nodup_middle] at hnodup
      exact (List.nodup_cons.mp hnodup).1
    · rw [Function.update_of_ne hh]
      exact fun he => hh (ha.chains.apart _ _ _ he hmem)
  have hmap := ha.events c
  rw [hl, hxs, List.map_append, List.map_append, List.map_cons, List.map_cons] at hmap
  obtain ⟨hmap₁, hmap₂⟩ := List.append_inj hmap (by rw [List.length_map, List.length_map, hlen])
  refine ⟨?_, fun e' => ?_, fun d => ?_, ?_, ha.comp⟩
  · have hpushed := hunlinked.push (i := .eventList) hout
    have hspare : Function.update L (.list c) (l₁ ++ l₂) .eventList = L .eventList :=
      Function.update_of_ne (by simp) ..
    rw [hspare] at hpushed
    exact hpushed
  · obtain ⟨h, he'⟩ := ha.all e'
    by_cases hee : e' = e
    · exact ⟨.eventList, by rw [moved_eventList, hee]; exact List.mem_cons_self⟩
    · cases h with
      | eventList => exact ⟨.eventList, by rw [moved_eventList]; exact List.mem_cons_of_mem _ he'⟩
      | list d =>
        by_cases hd : d = c
        · subst hd
          rw [hl, List.mem_append, List.mem_cons] at he'
          refine ⟨.list d, ?_⟩
          rw [moved_list, List.mem_append]
          exact he'.imp_right fun hor => hor.resolve_left hee
        · exact ⟨.list d, by rwa [moved_of_ne hd]⟩
  · change (moved L c (l₁ ++ l₂) e (.list d)).map st.eventRep =
      (Function.update a.events c (xs₁ ++ xs₂) d).map some
    by_cases hd : d = c
    · subst hd
      rw [moved_list, Function.update_self, List.map_append, List.map_append, hmap₁,
        (List.cons.inj hmap₂).2]
    · rw [moved_of_ne hd, Function.update_of_ne hd]
      exact ha.events d
  · change (moved L c (l₁ ++ l₂) e .eventList).length = a.free + 1
    rw [moved_eventList, List.length_cons, ha.free]

omit [DecidableEq ι] in
/-- The cells of a component split as its events do. -/
theorem split (ha : Arranged st L a) (hxs : a.events c = xs₁ ++ x :: xs₂) :
    ∃ l₁ e l₂, L (.list c) = l₁ ++ e :: l₂ ∧ l₁.map st.eventRep = xs₁.map some ∧
      st.eventRep e = some x ∧ l₂.map st.eventRep = xs₂.map some := by
  have hmap := ha.events c
  rw [hxs, List.map_append, List.map_cons] at hmap
  obtain ⟨l₁, l', hl, hl₁, hl'⟩ := List.map_eq_append_iff.mp hmap
  obtain ⟨e, l₂, rfl, he, hl₂⟩ := List.map_eq_cons_iff.mp hl'
  exact ⟨l₁, e, l₂, hl, hl₁, he, hl₂⟩

omit [DecidableEq ι] in
/-- A test on a cell is the test on its event. -/
theorem any_of_mem {l : List EventId} (hl : l.map st.eventRep = xs.map some) (he : e ∈ l) :
    ∃ x ∈ xs, (st.eventRep e).any q = q x := by
  have hmem := List.mem_map_of_mem (f := st.eventRep) he
  rw [hl] at hmem
  obtain ⟨x, hx, heq⟩ := List.mem_map.mp hmem
  exact ⟨x, hx, by rw [← heq, Option.any_some]⟩

omit [DecidableEq ι] in
/-- **The loops that look for an event find the first one**, or the end. -/
theorem find_eq (ha : Arranged st L a) (c : ι) (q : Ilevent → Bool) :
    (∃ p, st.links.find (fun e => (st.eventRep e).any q) (numEvents + 1) (.head (.list c)) =
        some p ∧ st.links p = none ∧ (a.events c).find? q = none) ∨
      ∃ xs₁ x xs₂ l₁ e l₂, a.events c = xs₁ ++ x :: xs₂ ∧ (∀ x ∈ xs₁, q x = false) ∧ q x = true ∧
        L (.list c) = l₁ ++ e :: l₂ ∧ l₁.length = xs₁.length ∧ st.eventRep e = some x ∧
        st.links.find (fun e => (st.eventRep e).any q) (numEvents + 1) (.head (.list c)) =
          some ((Place.head (.list c)).after l₁) ∧
        st.links ((Place.head (.list c)).after l₁) = some e := by
  have hlen := ha.length_le (.list c)
  cases hfind : (a.events c).find? q with
  | none =>
    have hchain := ha.chains.chain (.list c)
    rw [← List.append_nil (L (.list c))] at hchain
    refine .inl ⟨_, hchain.find_eq (fun e he => ?_) (by simp) (Nat.lt_succ_of_le hlen),
      hchain.drop, rfl⟩
    obtain ⟨x, hx, heq⟩ := any_of_mem (q := q) (ha.events c) he
    rw [heq]
    exact Bool.eq_false_iff.mpr (List.find?_eq_none.mp hfind x hx)
  | some x =>
    obtain ⟨hx, xs₁, xs₂, hxs, hxs₁⟩ := List.find?_eq_some_iff_append.mp hfind
    obtain ⟨l₁, e, l₂, hl, hl₁, he, -⟩ := ha.split hxs
    have hchain := hl ▸ ha.chains.chain (.list c)
    have hq : ∀ x ∈ xs₁, q x = false := fun x hx => by simpa using hxs₁ x hx
    refine .inr ⟨xs₁, x, xs₂, l₁, e, l₂, hxs, hq, hx, hl, ?_, he,
      hchain.find_eq (fun e' he' => ?_) (fun e' he' => ?_) ?_, hchain.drop.1⟩
    · rw [← List.length_map (f := st.eventRep), hl₁, List.length_map]
    · obtain ⟨x', hx', heq⟩ := any_of_mem (q := q) hl₁ he'
      rw [heq]
      exact hq x' hx'
    · obtain rfl := Option.some.inj he'
      rw [he, Option.any_some]
      exact hx
    · rw [hl, List.length_append] at hlen
      omega

/-- **Taking an event off.** -/
theorem takeFirst (ha : Arranged st L a) (c : ι) (q : Ilevent → Bool) :
    ∃ st' L', Ilclient.takeFirst st c q = .ok (st', (a.take c q).2) ∧
      Arranged st' L' (a.take c q).1 := by
  unfold Ilclient.takeFirst Filed.take
  rcases ha.find_eq c q with ⟨p, hp, hnone, hfind⟩ |
      ⟨xs₁, x, xs₂, l₁, e, l₂, hxs, hxs₁, hx, hl, hlen, he, hp, hcell⟩
  · rw [hp, hfind]
    simp only [hnone]
    exact ⟨st, L, rfl, ha⟩
  · have hfind : (a.events c).find? q = some x := List.find?_eq_some_iff_append.mpr
      ⟨hx, xs₁, xs₂, hxs, fun x hx => by rw [hxs₁ x hx]; rfl⟩
    have herase : (a.events c).eraseP q = xs₁ ++ xs₂ := by
      rw [hxs, List.eraseP_append_right _ fun x hx => by rw [hxs₁ x hx]; decide,
        List.eraseP_cons_of_pos hx]
    rw [hp, hfind]
    simp only [hcell, he, herase]
    refine ⟨_, _, rfl, (ha.toSpare hl hxs hlen).mark ?_⟩
    rw [moved_eventList]
    exact List.mem_cons_self

/-! ### Events returned -/

theorem put_self (ha : Arranged st L a) (hxs : xs = a.events c) (hn : n = a.free) :
    Arranged st L (a.put c xs n) := by
  rw [Filed.put, hxs, Function.update_eq_self, hn]
  exact ha

theorem put_put {xs' : List Ilevent} {n' : ℕ} : (a.put c xs n).put c xs' n' = a.put c xs' n' := by
  rw [Filed.put, Filed.put, Filed.put, Function.update_idem]

theorem put_events : (a.put c xs n).events c = xs := Function.update_self ..

/-- **All events of a component returned.** -/
theorem returnLoop (ha : Arranged st L a) (hn : (a.events c).length < n) :
    ∃ st' L', Ilclient.returnLoop c n st = .ok st' ∧
      Arranged st' L' (a.put c [] (a.free + (a.events c).length)) := by
  induction n generalizing st L a with
  | zero => exact absurd hn (Nat.not_lt_zero _)
  | succ n ih =>
    rw [Ilclient.returnLoop]
    have hhead := (ha.chains.chain (.list c)).head?
    cases hxs : a.events c with
    | nil =>
      have hmap := ha.events c
      rw [hxs, List.map_nil, List.map_eq_nil_iff] at hmap
      rw [hmap] at hhead
      rw [hhead]
      exact ⟨st, L, rfl, ha.put_self hxs.symm rfl⟩
    | cons x xs =>
      obtain ⟨l₁, e, l₂, hl, hl₁, -, -⟩ := ha.split (hxs.trans (List.nil_append _).symm)
      obtain rfl := List.map_eq_nil_iff.mp hl₁
      rw [hl] at hhead
      rw [hhead]
      have hspare := ha.toSpare hl (hxs.trans (List.nil_append _).symm) rfl
      rw [hxs, List.length_cons] at hn
      obtain ⟨st', L', hloop, ha'⟩ := ih hspare (by
        rw [put_events]
        exact Nat.lt_of_succ_lt_succ hn)
      refine ⟨st', L', hloop, ?_⟩
      rw [put_put, put_events] at ha'
      convert ha' using 2
      change a.free + (x :: xs).length = a.free + 1 + xs.length
      rw [List.length_cons]
      omega

/-! ### Copies put back -/

/-- **The inner loop** puts back what says the same as the event before. -/
theorem removeCopies (ha : Arranged st L a) (hl : L (.list c) = l₁ ++ l₂)
    (hxs : a.events c = xs₁ ++ xs₂) (hlen : l₁.length = xs₁.length) (hevent : event ∈ l₁)
    (hx : st.eventRep event = some x) (hn : l₂.length < n) :
    ∃ st' L' l', Ilclient.removeCopies event n ((Place.head (.list c)).after l₁) st = .ok st' ∧
      L' (.list c) = l₁ ++ l' ∧
      Arranged st' L' (a.put c (xs₁ ++ xs₂.filter fun y => !y == x)
        (a.free + (xs₂.length - (xs₂.filter fun y => !y == x).length))) := by
  induction n generalizing st L a l₁ l₂ xs₁ xs₂ with
  | zero => exact absurd hn (Nat.not_lt_zero _)
  | succ n ih =>
    have hchain := (hl ▸ ha.chains.chain (.list c)).drop
    have hmap := ha.events c
    rw [hl, hxs, List.map_append, List.map_append] at hmap
    obtain ⟨-, hmap₂⟩ := List.append_inj hmap (by rw [List.length_map, List.length_map, hlen])
    rw [Ilclient.removeCopies]
    cases l₂ with
    | nil =>
      obtain rfl : xs₂ = [] := List.map_eq_nil_iff.mp hmap₂.symm
      rw [hchain.head?]
      exact ⟨st, L, [], rfl, hl, ha.put_self hxs.symm rfl⟩
    | cons rem l₂ =>
      obtain ⟨y, xs₂, rfl, hrem, hmap₂⟩ := List.map_eq_cons_iff.mp hmap₂.symm
      rw [hchain.1]
      simp only
      rw [List.length_cons] at hn
      have hsame : st.eventRep rem = st.eventRep event ↔ y = x := by
        rw [← hrem, hx, Option.some.injEq]
      by_cases hy : y = x
      · rw [if_pos (hsame.mpr hy), List.filter_cons_of_neg (by simp [hy])]
        have hspare := (ha.toSpare hl hxs hlen).mark (e := rem) (by
          rw [moved_eventList]
          exact List.mem_cons_self)
        -- the event compared with is not the one put back
        have hne : event ≠ rem := by
          rintro rfl
          have hnodup := hl ▸ ha.chains.nodup (.list c)
          exact List.disjoint_of_nodup_append hnodup hevent List.mem_cons_self
        obtain ⟨st', L', l', hloop, hl', ha'⟩ := ih hspare moved_list put_events hlen hevent
          ((Function.update_of_ne hne ..).trans hx) (Nat.lt_of_succ_lt_succ hn)
        refine ⟨st', L', l', hloop, hl', ?_⟩
        rw [put_put] at ha'
        have hle := List.length_filter_le (fun z => !z == x) xs₂
        convert ha' using 2
        change _ = a.free + 1 + _
        rw [List.length_cons]
        omega
      · rw [if_neg (hsame.not.mpr hy), List.filter_cons_of_pos (by simp [hy])]
        rw [List.append_cons] at hl hxs
        obtain ⟨st', L', l', hloop, hl', ha'⟩ := ih ha hl hxs (by simp [hlen])
          (List.mem_append_left _ hevent) hx (Nat.lt_of_succ_lt_succ hn)
        rw [Place.after_concat] at hloop
        refine ⟨st', L', rem :: l', hloop, hl'.trans (List.append_cons ..).symm, ?_⟩
        rw [List.append_cons, List.length_cons, List.length_cons, Nat.add_sub_add_right]
        exact ha'

/-- **The outer loop** leaves of each event the first one. -/
theorem removeDuplicates_from (ha : Arranged st L a) (hl : L (.list c) = l₁ ++ l₂)
    (hxs : a.events c = xs₁ ++ xs₂) (hlen : l₁.length = xs₁.length) (hn : xs₂.length < n) :
    ∃ st' L',
      Ilclient.removeDuplicates n (st.links ((Place.head (.list c)).after l₁)) st = .ok st' ∧
      Arranged st' L' (a.put c (xs₁ ++ xs₂.eraseDups)
        (a.free + (xs₂.length - xs₂.eraseDups.length))) := by
  induction n generalizing st L a l₁ l₂ xs₁ xs₂ with
  | zero => exact absurd hn (Nat.not_lt_zero _)
  | succ n ih =>
    have hchain := (hl ▸ ha.chains.chain (.list c)).drop
    have hmap := ha.events c
    rw [hl, hxs, List.map_append, List.map_append] at hmap
    obtain ⟨-, hmap₂⟩ := List.append_inj hmap (by rw [List.length_map, List.length_map, hlen])
    cases l₂ with
    | nil =>
      obtain rfl : xs₂ = [] := List.map_eq_nil_iff.mp hmap₂.symm
      rw [hchain.head?]
      exact ⟨st, L, rfl, ha.put_self hxs.symm rfl⟩
    | cons event l₂ =>
      obtain ⟨x, xs₂, rfl, hevent, hmap₂⟩ := List.map_eq_cons_iff.mp hmap₂.symm
      rw [hchain.1]
      simp only [Ilclient.removeDuplicates]
      rw [List.append_cons] at hl hxs
      rw [List.length_cons] at hn
      have hle := ha.length_le (.list c)
      rw [hl, List.length_append] at hle
      have hlen' : (l₁ ++ [event]).length = (xs₁ ++ [x]).length := by simp [hlen]
      obtain ⟨st', L', l', hloop, hl', ha'⟩ := ha.removeCopies (n := numEvents + 1) hl hxs hlen'
        (List.mem_append_right _ (List.mem_singleton_self _)) hevent.symm (by omega)
      rw [Place.after_concat] at hloop
      rw [hloop]
      simp only
      have hfilter := List.length_filter_le (fun y => !y == x) xs₂
      obtain ⟨st'', L'', hrest, ha''⟩ := ih ha' hl' put_events hlen' (by omega)
      rw [Place.after_concat] at hrest
      refine ⟨st'', L'', hrest, ?_⟩
      rw [put_put] at ha''
      rw [List.eraseDups_cons, List.append_cons]
      have hdups := length_eraseDups_le (xs₂.filter fun y => !y == x)
      convert ha'' using 2
      change _ = a.free + _ + _
      rw [List.length_cons, List.length_cons]
      omega

/-- **Moving the duplicates back** is taking repetitions out of a plain list. -/
theorem removeDuplicates (ha : Arranged st L a) (c : ι) :
    ∃ st' L', Ilclient.removeDuplicates (numEvents + 1) (st.links (.head (.list c))) st = .ok st' ∧
      Arranged st' L' (a.dedup c) := by
  have hlen : (a.events c).length = (L (.list c)).length := by
    rw [← List.length_map (f := st.eventRep), ha.events, List.length_map]
  have hle := ha.length_le (.list c)
  exact ha.removeDuplicates_from (List.nil_append _).symm (List.nil_append _).symm rfl (by omega)

/-! ### An event filed -/

/-- **A cell not in use taken for an event.** -/
theorem file (ha : Arranged st L a) (he : st.links (.head .eventList) = some event) (c : ι)
    (x : Ilevent) :
    ∃ L', Arranged (Ilclient.file st c event x) L' (a.put c (x :: a.events c) (a.free - 1)) := by
  obtain ⟨rest, hrest⟩ : ∃ rest, L .eventList = event :: rest :=
    List.head?_eq_some_iff.mp ((ha.chains.chain .eventList).head?.symm.trans he)
  have hmem : event ∈ L .eventList := hrest ▸ List.mem_cons_self
  have hunlinked := ha.chains.unlink (hrest.trans (List.nil_append _).symm)
  have hnodup := hrest ▸ ha.chains.nodup .eventList
  have hother : ∀ d, event ∉ L (.list d) := fun d hd =>
    absurd (ha.chains.apart _ _ _ hmem hd) (by simp)
  have hout : ∀ h, event ∉ Function.update L .eventList rest h := by
    intro h
    cases h with
    | eventList =>
      rw [Function.update_self]
      exact (List.nodup_cons.mp hnodup).1
    | list d =>
      rw [Function.update_of_ne (by simp)]
      exact hother d
  have hpushed := hunlinked.push (i := .list c) hout
  have hlist : ∀ d, Function.update L .eventList rest (.list d) = L (.list d) := fun d =>
    Function.update_of_ne (by simp) ..
  rw [List.nil_append, hlist] at hpushed
  have hkept : ∀ d, (L (.list d)).map (Function.update st.eventRep event (some x)) =
      (a.events d).map some := by
    intro d
    rw [← ha.events d]
    refine List.map_congr_left fun e hd => Function.update_of_ne ?_ ..
    rintro rfl
    exact hother d hd
  refine ⟨_, hpushed, fun e => ?_, fun d => ?_, ?_, ha.comp⟩
  · by_cases hee : e = event
    · exact ⟨.list c, by rw [Function.update_self, hee]; exact List.mem_cons_self⟩
    · obtain ⟨h, hh⟩ := ha.all e
      refine ⟨h, ?_⟩
      by_cases hc : h = .list c
      · rw [hc, Function.update_self]
        exact List.mem_cons_of_mem _ (hc ▸ hh)
      · rw [Function.update_of_ne hc]
        cases h with
        | eventList =>
          rw [Function.update_self]
          exact (List.mem_cons.mp (hrest ▸ hh)).resolve_left hee
        | list d =>
          rw [hlist]
          exact hh
  · by_cases hd : d = c
    · have hput : (a.put c (x :: a.events c) (a.free - 1)).events d = x :: a.events c := by
        rw [hd]
        exact Function.update_self ..
      rw [hput, hd, Function.update_self, List.map_cons, List.map_cons]
      exact congrArg₂ _ (Function.update_self ..) (hkept c)
    · have hput : (a.put c (x :: a.events c) (a.free - 1)).events d = a.events d :=
        Function.update_of_ne hd ..
      rw [hput, Function.update_of_ne (by simpa using hd), hlist]
      exact hkept d
  · rw [Function.update_of_ne (by simp), Function.update_self]
    have hfree := ha.free
    rw [hrest, List.length_cons] at hfree
    change rest.length = a.free - 1
    omega

theorem links_notifyRelated : (notifyRelated st c x).links = st.links := by
  unfold notifyRelated
  split
  · rfl
  · split <;> rfl

/-- The related component is told with plain lists too. -/
theorem notify (ha : Arranged st L a) (c : ι) (x : Ilevent) :
    Arranged (notifyRelated st c x) L (a.notify c x) := by
  have hrel : (st.comp c).related = (a.comp c).related := by rw [ha.comp]
  unfold notifyRelated Filed.notify
  rw [hrel]
  cases (a.comp c).related with
  | none => exact ha
  | some d =>
    by_cases hx : x.eEvent = .error ∧ x.nData2 = 1
    · simp only [if_pos hx]
      exact ha.modify d _
    · simp only [if_neg hx]
      exact ha

/-- **`ilclient_event_handler` files the event.** -/
theorem eventHandler (ha : Arranged st L a) (c : ι) (x : Ilevent) :
    match a.handle c x with
    | .error f => Ilclient.eventHandler st c x = .error f
    | .ok a' => ∃ st' L', Ilclient.eventHandler st c x = .ok st' ∧ Arranged st' L' a' := by
  obtain ⟨st₁, L₁, hdups, ha₁⟩ := ha.removeDuplicates c
  have hhead := (ha₁.chains.chain .eventList).head?
  have hfree := ha₁.free
  unfold Filed.handle Ilclient.eventHandler
  rw [hdups]
  simp only
  cases hspare : L₁ .eventList with
  | nil =>
    rw [hspare] at hhead hfree
    rw [hhead, if_pos (hfree.symm.trans List.length_nil)]
    rfl
  | cons event rest =>
    rw [hspare] at hhead hfree
    rw [hhead, if_neg (by rw [← hfree]; simp), ha₁.comp]
    simp only [List.head?_cons]
    cases hdispatch : dispatch ((a.dedup c).comp c).errorMask x with
    | error f => rfl
    | ok r =>
      obtain ⟨flag, filed⟩ := r
      simp only
      -- the flags do not touch the cells
      have hnotify := ha₁.notify c x
      have ha₂ : Arranged (flag.elim (notifyRelated st₁ c x) ((notifyRelated st₁ c x).setFlag c)) L₁
          (flag.elim ((a.dedup c).notify c x) (((a.dedup c).notify c x).setFlag c)) := by
        cases flag with
        | none => exact hnotify
        | some f => exact hnotify.setFlag c f
      have hlinks : (flag.elim (notifyRelated st₁ c x) ((notifyRelated st₁ c x).setFlag c)).links =
          st₁.links := by
        cases flag with
        | none => exact links_notifyRelated
        | some f => exact links_notifyRelated
      cases filed with
      | none => exact ⟨_, _, rfl, ha₂⟩
      | some y =>
        obtain ⟨L', ha'⟩ := ha₂.file (hlinks ▸ hhead) c y
        exact ⟨_, L', rfl, ha'⟩

/-! ### The other calls -/

/-- **`ilclient_remove_event`** is the search of a plain list. -/
theorem removeEvent (ha : Arranged st L a) (c : ι) (eEvent : EventType) (nData1 : Data)
    (ignore1 : Bool) (nData2 : UInt32) (ignore2 : Bool) :
    ∃ st' L', Ilclient.removeEvent st c eEvent nData1 ignore1 nData2 ignore2 =
        .ok (st', (a.remove c eEvent nData1 ignore1 nData2 ignore2).2) ∧
      Arranged st' L' (a.remove c eEvent nData1 ignore1 nData2 ignore2).1 := by
  obtain ⟨st₁, L₁, htake, ha₁⟩ := ha.takeFirst c
    fun x => x.Matches eEvent nData1 ignore1 nData2 ignore2
  unfold Ilclient.removeEvent Filed.remove
  rw [htake]
  generalize a.take c _ = r at ha₁ ⊢
  obtain ⟨a₁, _ | x⟩ := r
  · exact ⟨st₁, L₁, rfl, ha₁⟩
  · exact ⟨_, L₁, rfl, ha₁.modify c _⟩

/-- **A round of the wait** for a command is one on plain lists. -/
theorem waitRound (ha : Arranged st L a) (c : ι) (command : Command) (nData2 : UInt32)
    (other : Option ι) :
    ∃ st' L', Ilclient.waitRound st c command nData2 other =
        .ok (st', (a.waitRound c command nData2 other).2) ∧
      Arranged st' L' (a.waitRound c command nData2 other).1 := by
  obtain ⟨st₁, L₁, htake, ha₁⟩ := ha.takeFirst c fun x => x.Completes command nData2
  unfold Ilclient.waitRound Filed.waitRound
  rw [htake]
  generalize a.take c _ = r at ha₁ ⊢
  obtain ⟨a₁, _ | x⟩ := r
  rotate_left
  · refine ⟨_, L₁, rfl, ?_⟩
    by_cases hx : x.eEvent = .error
    · simp only [if_pos hx]
      exact ha₁.modify c _
    · simp only [if_neg hx]
      exact ha₁
  · cases other with
    | none => exact ⟨st₁, L₁, rfl, ha₁⟩
    | some d =>
      simp only
      rcases ha₁.find_eq d fun x => x.EndsCommand with ⟨p, hp, hnone, hfind⟩ |
        ⟨xs₁, x, xs₂, l₁, e, l₂, hxs, hxs₁, hx, -, -, -, hp, hcell⟩
      · rw [hp]
        refine ⟨st₁, L₁, ?_, ha₁⟩
        simp only [hnone, Option.bind_some, hfind, Option.map_none]
      · have hfind : (a₁.events d).find? (fun x => x.EndsCommand) = some x :=
          List.find?_eq_some_iff_append.mpr
            ⟨hx, xs₁, xs₂, hxs, fun x hx => by rw [hxs₁ x hx]; rfl⟩
        rw [hp]
        refine ⟨st₁, L₁, ?_, ha₁⟩
        simp only [hcell, Option.bind_some, hfind, Option.map_some]

/-- **Every step of the client is one of the abstract client**, with the
same result. -/
theorem apply (ha : Arranged st L a) (op : Op ι) :
    match op.applyFiled a with
    | .error f => op.apply st = .error f
    | .ok (a', ret) => ∃ st' L', op.apply st = .ok (st', ret) ∧ Arranged st' L' a' := by
  cases op with
  | eventHandler c x =>
    have hhandle := ha.eventHandler c x
    rw [Op.applyFiled, Op.apply]
    generalize a.handle c x = r at hhandle ⊢
    cases r with
    | error f =>
      change Ilclient.eventHandler st c x = .error f at hhandle
      rw [hhandle]
      rfl
    | ok a' =>
      obtain ⟨st', L', hst, ha'⟩ := hhandle
      rw [hst]
      exact ⟨st', L', rfl, ha'⟩
  | removeEvent c eEvent nData1 ignore1 nData2 ignore2 =>
    obtain ⟨st', L', hst, ha'⟩ := ha.removeEvent c eEvent nData1 ignore1 nData2 ignore2
    simp only [Op.applyFiled, Op.apply, hst, Except.map]
    exact ⟨st', L', rfl, ha'⟩
  | returnEvents c =>
    have hlen : (a.events c).length = (L (.list c)).length := by
      rw [← List.length_map (f := st.eventRep), ha.events, List.length_map]
    have hle := ha.length_le (.list c)
    obtain ⟨st', L', hst, ha'⟩ := ha.returnLoop (c := c) (n := numEvents + 1) (by omega)
    simp only [Op.applyFiled, Op.apply, Ilclient.returnEvents, hst, Except.map]
    exact ⟨st', L', rfl, ha'⟩
  | waitRound c command nData2 other => exact ha.waitRound c command nData2 other
  | flagsGet c mask => exact ⟨_, L, rfl, ha.modify c _⟩
  | setRelated c other => exact ⟨_, L, rfl, ha.modify c _⟩
  | setErrorMask c mask => exact ⟨_, L, rfl, ha.modify c _⟩

end Arranged

end Ilclient

end Camkit
