import Camkit.Common.Wakeup
import Camkit.Ilclient.Model.Events
/-!
# IL client — waiting

The two calls of `ilclient.c` that sleep until an event comes in, as threads
beside all that goes on at the client. Between two of their steps the lock is
free. A sleep is without a timeout, `VCOS_SUSPEND`.
-/

namespace Camkit

namespace Ilclient

variable {ι : Type} [DecidableEq ι]

/-- One of some flags of a component is set. -/
def Client.Signalled (st : Client ι) (c : ι) (mask : Finset Flag) : Prop :=
  ((st.comp c).event ∩ mask).Nonempty

instance (c : ι) (mask : Finset Flag) :
    DecidablePred fun st : Client ι => st.Signalled c mask := fun st =>
  inferInstanceAs (Decidable ((st.comp c).event ∩ mask).Nonempty)

/-- The loop of `ilclient_wait_for_command_complete_dual`. -/
def commandWaiter (c : ι) (command : Command) (nData2 : UInt32) (other : Option ι)
    (mask : Finset Flag) : Waiter (Client ι) Unit ℤ where
  look _ st :=
    match waitRound st c command nData2 other with
    | .error _ => none
    | .ok (st, none) => some (st, .asleep ())
    | .ok (st, some ret) => some (st, .done ret)
  Signalled st := st.Signalled c mask
  wake _ st := (st.consume c mask, .looking ())

instance (c : ι) (command : Command) (nData2 : UInt32) (other : Option ι) (mask : Finset Flag) :
    DecidablePred (commandWaiter c command nData2 other mask).Signalled :=
  inferInstanceAs (DecidablePred fun st : Client ι => st.Signalled c mask)

/-- The steps of the loop in `ilclient_wait_for_event`. -/
inductive WaitStep where
  /-- `ilclient_remove_event` in the condition of the loop -/
  | remove
  /-- the look for an error -/
  | errors
  /-- the look for a change of the configuration -/
  | config
  /-- `ilclient_remove_event` where the configuration has changed -/
  | removeConfig
  deriving DecidableEq, Repr

/-- An event a component lists. -/
structure Pattern where
  eEvent : EventType
  nData1 : Data
  ignore1 : Bool
  nData2 : UInt32
  ignore2 : Bool

/-- Whether an event of a type is on the list of a component. -/
def listed (st : Client ι) (c : ι) (eEvent : EventType) : Except Fault Bool :=
  match st.links.find (fun e => (st.eventRep e).any fun x => x.eEvent = eEvent) (numEvents + 1)
    (.head (.list c)) with
  | none => .error .endless
  | some p => .ok (st.links p).isSome

/-- A step of the loop in `ilclient_wait_for_event`. -/
def waitForEventStep (c : ι) (p : Pattern) (eventFlag : Finset Flag) (st : Client ι) :
    WaitStep → Except Fault (Client ι × Phase WaitStep ℤ)
  | .remove =>
    match removeEvent st c p.eEvent p.nData1 p.ignore1 p.nData2 p.ignore2 with
    | .error f => .error f
    | .ok (st, ret) => .ok (st, if ret < 0 then .looking .errors else .done 0)
  | .errors =>
    if .eventError ∈ eventFlag then
      match listed st c .error with
      | .error f => .error f
      | .ok true => .ok (st.consume c {.eventError}, .done (-2))
      | .ok false => .ok (st, .looking .config)
    else .ok (st, .looking .config)
  | .config =>
    if .configChanged ∈ eventFlag then
      match listed st c .paramOrConfigChanged with
      | .error f => .error f
      | .ok true => .ok (st, .looking .removeConfig)
      | .ok false => .ok (st, .asleep .remove)
    else .ok (st, .asleep .remove)
  | .removeConfig =>
    match removeEvent st c p.eEvent p.nData1 p.ignore1 p.nData2 p.ignore2 with
    | .error f => .error f
    | .ok (st, ret) => .ok (st, .done (if ret = 0 then 0 else -3))

/-- `ilclient_wait_for_event`. -/
def eventWaiter (c : ι) (p : Pattern) (eventFlag : Finset Flag) :
    Waiter (Client ι) WaitStep ℤ where
  look step st :=
    match waitForEventStep c p eventFlag st step with
    | .error _ => none
    | .ok r => some r
  Signalled st := st.Signalled c eventFlag
  wake _ st :=
    let set := (st.comp c).event ∩ eventFlag
    (st.consume c eventFlag,
      if .eventError ∈ set then .done (-2)
      else if .configChanged ∈ set then .looking .removeConfig
      else .looking .remove)

instance (c : ι) (p : Pattern) (eventFlag : Finset Flag) :
    DecidablePred (eventWaiter c p eventFlag).Signalled :=
  inferInstanceAs (DecidablePred fun st : Client ι => st.Signalled c eventFlag)

/-- What others may do while a call sleeps on flags of a component: none of
them takes these flags off, or makes another component tell somebody else of
its errors. -/
def Op.Spares (c : ι) (mask : Finset Flag) (other : Option ι) : Op ι → Prop
  | .removeEvent d eEvent _ _ _ _ => d = c → Disjoint (flagsOf eEvent) mask
  | .waitRound d _ _ _ => d ≠ c
  | .flagsGet d flags => d = c → Disjoint flags mask
  | .setRelated d relation => other = some d → relation = some c
  | _ => True

end Ilclient

end Camkit
