import Camkit.Common.Machine
import Mathlib.Data.Multiset.AddSub
import Mathlib.Data.Int.Notation
/-!
# IL core — the connection and its users

`ilcore.c` as far as it counts: the connection to VideoCore that `OMX_Init`
opens and `OMX_Deinit` closes, and the components `OMX_GetHandle` makes on it
and `OMX_FreeHandle` gives back, by threads that run side by side. What is
done under the lock is one step, and so is each look without it.
-/

namespace Camkit

namespace Ilcore

/-- `OMX_ERRORTYPE`, as far as the calls return its values. -/
inductive OmxError where
  | none
  | hardware
  | notReady
  | badParameter
  /-- what a component answers, or its making -/
  | component
  deriving DecidableEq, Repr

/-- Where a thread is in a call. -/
inductive Call where
  | none
  /-- `OMX_GetHandle`, past its look at `ilcs_service` -/
  | create
  /-- and with the component made, on a connection -/
  | count (connection : ℕ)
  /-- `OMX_FreeHandle`, past its look at `ilcs_service` -/
  | componentDeInit (connection : ℕ)
  /-- and with the component gone -/
  | uncount
  /-- before the assertion at its end, with the component gone or not -/
  | assert (gone : Bool)
  /-- `OMX_Deinit`, past its look at `coreInit` -/
  | leave
  deriving DecidableEq, Repr

/-- A thread. -/
structure Thread where
  /-- its `OMX_Init` that have succeeded, less its `OMX_Deinit` -/
  inits : ℤ
  /-- the components it has, by the connection each was made on -/
  handles : Multiset ℕ
  call : Call
  deriving DecidableEq

/-- What the threads share; `thread` is each by itself. -/
structure Core (T : Type) where
  coreInit : ℤ
  nActiveHandles : ℤ
  /-- the connection that is open -/
  ilcsService : Option ℕ
  /-- the connections opened so far -/
  opened : ℕ
  thread : T → Thread

/-- What a step of a call comes to. -/
inductive Outcome where
  /-- the call goes on -/
  | on
  | ret (error : OmxError)
  /-- it goes through `ilcs_service`, which is null -/
  | null
  /-- it calls a component whose connection has been closed -/
  | stale
  /-- the assertion on `nActiveHandles` fails -/
  | abort
  deriving DecidableEq, Repr

/-- What a thread does. -/
inductive CoreOp (T : Type) where
  /-- `OMX_Init`; `opens` is whether `ilcs_init` does -/
  | init (t : T) (opens : Bool)
  /-- `OMX_GetHandle`: its look, the component made or not, and the count -/
  | getHandle (t : T)
  | create (t : T) (ok : Bool)
  | count (t : T)
  /-- `OMX_FreeHandle` of a component the thread has: its look, the component
  gone or not, the count, and the assertion -/
  | freeHandle (t : T) (connection : ℕ)
  | componentDeInit (t : T) (ok : Bool)
  | uncount (t : T)
  | assert (t : T)
  /-- `OMX_Deinit`: its look, and the rest -/
  | deinit (t : T)
  | leave (t : T)

variable {T : Type} [DecidableEq T]

/-- A thread goes on. -/
def Core.move (s : Core T) (t : T) (thread : Thread) : Core T :=
  { s with thread := Function.update s.thread t thread }

/-- A thread goes on in its call. -/
def Core.goto (s : Core T) (t : T) (call : Call) : Core T :=
  s.move t { s.thread t with call := call }

section Move

variable {s : Core T} {t u : T} {th : Thread} {call : Call}

@[simp] theorem Core.move_coreInit : (s.move t th).coreInit = s.coreInit := rfl

@[simp] theorem Core.move_nActiveHandles : (s.move t th).nActiveHandles = s.nActiveHandles := rfl

@[simp] theorem Core.move_ilcsService : (s.move t th).ilcsService = s.ilcsService := rfl

@[simp] theorem Core.goto_coreInit : (s.goto t call).coreInit = s.coreInit := rfl

end Move

/-- A step. -/
def Core.step (s : Core T) : CoreOp T → Option (Core T × Outcome)
  | .init t opens =>
    if (s.thread t).call ≠ .none then none
    else
      let s' := s.move t { s.thread t with inits := (s.thread t).inits + 1 }
      if s.coreInit = 0 then
        if opens then
          some ({ s' with
            ilcsService := some s.opened
            opened := s.opened + 1
            coreInit := 1 }, .ret .none)
        else some (s, .ret .hardware)
      else some ({ s' with coreInit := s.coreInit + 1 }, .ret .none)
  | .getHandle t =>
    if (s.thread t).call ≠ .none then none
    else if s.ilcsService = none then some (s, .ret .badParameter)
    else some (s.goto t .create, .on)
  | .create t ok =>
    if (s.thread t).call ≠ .create then none
    else
      match s.ilcsService with
      | none => some (s, .null)
      | some connection =>
        if ok then some (s.goto t (.count connection), .on)
        else some (s.goto t .none, .ret .component)
  | .count t =>
    match (s.thread t).call with
    | .count connection =>
      some ({ s.move t { s.thread t with
          handles := connection ::ₘ (s.thread t).handles
          call := .none } with
        nActiveHandles := s.nActiveHandles + 1 }, .ret .none)
    | _ => none
  | .freeHandle t connection =>
    if (s.thread t).call ≠ .none ∨ connection ∉ (s.thread t).handles then none
    else if s.ilcsService = none then some (s, .ret .badParameter)
    else some (s.goto t (.componentDeInit connection), .on)
  | .componentDeInit t ok =>
    match (s.thread t).call with
    | .componentDeInit connection =>
      if s.ilcsService ≠ some connection then some (s, .stale)
      else if ok then
        some (s.move t { s.thread t with
          handles := (s.thread t).handles.erase connection
          call := .uncount }, .on)
      else some (s.goto t (.assert false), .on)
    | _ => none
  | .uncount t =>
    if (s.thread t).call ≠ .uncount then none
    else some ({ s.goto t (.assert true) with nActiveHandles := s.nActiveHandles - 1 }, .on)
  | .assert t =>
    match (s.thread t).call with
    | .assert gone =>
      if s.nActiveHandles < 0 then some (s, .abort)
      else some (s.goto t .none, .ret (if gone then .none else .component))
    | _ => none
  | .deinit t =>
    if (s.thread t).call ≠ .none then none
    -- the look is not under the lock
    else if s.coreInit = 0 then some (s, .ret .notReady)
    else some (s.goto t .leave, .on)
  | .leave t =>
    if (s.thread t).call ≠ .leave then none
    else
      let s' := s.move t { s.thread t with
        inits := (s.thread t).inits - 1
        call := .none }
      some ({ s' with
        coreInit := s.coreInit - 1
        ilcsService := if s.coreInit - 1 = 0 then none else s.ilcsService }, .ret .none)

/-- The steps of the threads, in any order. -/
def coreSteps : Machine (Core T) (CoreOp T) Outcome where
  step s op := s.step op

/-- The core of a process that starts. -/
def coreStart : Core T := ⟨0, 0, none, 0, fun _ => ⟨0, 0, .none⟩⟩

/-- A thread asks for components between its `OMX_Init` and its `OMX_Deinit`
only, and has freed them when it calls the last. -/
def Core.Keeps (s : Core T) : CoreOp T → Prop
  | .getHandle t => 0 < (s.thread t).inits
  | .deinit t => 0 < (s.thread t).inits ∧ ((s.thread t).inits = 1 → (s.thread t).handles = 0)
  | _ => True

instance (s : Core T) (op : CoreOp T) : Decidable (s.Keeps op) := by
  cases op <;> unfold Core.Keeps <;> infer_instance

end Ilcore

end Camkit
