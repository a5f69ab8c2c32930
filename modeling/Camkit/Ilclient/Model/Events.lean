import Camkit.Common.Chain
import Camkit.Common.Machine
import Mathlib.Data.Finset.Insert
import Mathlib.Data.Finset.SDiff
import Mathlib.Data.Int.Notation
import Mathlib.Data.Nat.Notation
/-!
# IL client — events

`ilclient.c` as far as it keeps the events of the components: the cells all
components of a client share, the callback that files an event, and the
calls that look for one and take it off. Each of these runs under the lock
of the client, so it is one step. A list of more cells than there are goes
round in a circle, and a loop over it does not end.
-/

namespace Camkit

namespace Ilclient

/-! ## Data -/

/-- `NUM_EVENTS`. -/
def numEvents : ℕ := 100

/-- A pointer into `event_rep`. -/
abbrev EventId : Type := Fin numEvents

/-- `OMX_EVENTTYPE`. -/
inductive EventType where
  | cmdComplete
  | error
  | bufferFlag
  | portSettingsChanged
  | mark
  | paramOrConfigChanged
  | other (n : UInt32)
  deriving DecidableEq, Repr

/-- `OMX_COMMANDTYPE`. -/
inductive Command where
  | stateSet
  | portDisable
  | portEnable
  | flush
  | markBuffer
  | other (n : UInt32)
  deriving DecidableEq, Repr

/-- `OMX_ERRORTYPE`, as far as the callback tells its values apart. -/
inductive ErrorType where
  | portUnpopulated
  | sameState
  | badParameter
  | incorrectStateTransition
  | badPortIndex
  | streamCorrupt
  | insufficientResources
  | unsupportedSetting
  | overflow
  | diskFull
  | maxFileSize
  | drmUnauthorised
  | drmExpired
  | drmGeneral
  | other (n : UInt32)
  deriving DecidableEq, Repr

/-- `nData1` of an event, which is a command, an error or a number. -/
inductive Data where
  | command (c : Command)
  | error (e : ErrorType)
  | number (n : UInt32)
  deriving DecidableEq, Repr

/-- `ILEVENT_T`, without the link. -/
structure Ilevent where
  eEvent : EventType
  nData1 : Data
  nData2 : UInt32
  deriving DecidableEq, Repr

/-- `ILEVENT_MASK_T`. -/
inductive Flag where
  | emptyBufferDone
  | fillBufferDone
  | portDisabled
  | portEnabled
  | stateChanged
  | bufferFlagEos
  | parameterChanged
  | eventError
  | portFlush
  | markedBuffer
  | bufferMark
  | configChanged
  deriving DecidableEq, Repr

/-- `ILERROR_MASK_T`. -/
inductive ErrorMask where
  | unpopulated
  | sameState
  | badParameter
  deriving DecidableEq, Repr

/-- `COMPONENT_T`, as far as its events go. -/
structure Component (ι : Type) where
  /-- the flags that are set in the event group -/
  event : Finset Flag
  errorMask : Finset ErrorMask
  related : Option ι

/-- The lists of event cells. -/
inductive ListId (ι : Type) where
  /-- `event_list` of the client, the cells not in use -/
  | eventList
  /-- `list` of a component -/
  | list (c : ι)
  deriving DecidableEq, Repr

/-- `ILCLIENT_T` with its components, which have names in `ι`. -/
structure Client (ι : Type) where
  links : Links (ListId ι) EventId
  /-- `none` where `eEvent` is -1, the mark of a cell not in use -/
  eventRep : EventId → Option Ilevent
  comp : ι → Component ι

/-- Where a call leaves the behaviour the source defines. -/
inductive Fault where
  /-- a `vc_assert` -/
  | assert
  /-- a loop over a list that goes round in a circle -/
  | endless
  deriving DecidableEq, Repr

/-- `OMX_BUFFERFLAG_EOS`. -/
def bufferflagEos : UInt32 := 0x1

variable {ι : Type} [DecidableEq ι]

namespace Client

/-! ## Cells and flags -/

/-- The cells of a list. -/
def cells (st : Client ι) (h : ListId ι) : List EventId :=
  st.links.follow numEvents (st.links (.head h))

/-- The events filed for a component, the last one first. -/
def events (st : Client ι) (c : ι) : List Ilevent := (st.cells (.list c)).filterMap st.eventRep

/-- A cell added to the list of those not in use. -/
def spare (st : Client ι) (e : EventId) : Client ι :=
  let links := Function.update st.links (.next e) (st.links (.head .eventList))
  { st with links := Function.update links (.head .eventList) (some e) }

/-- `e->eEvent = -1`. -/
def mark (st : Client ι) (e : EventId) : Client ι :=
  { st with eventRep := Function.update st.eventRep e none }

/-- `*p = e->next`. -/
def unlink (st : Client ι) (p : Place (ListId ι) EventId) (e : EventId) : Client ι :=
  { st with links := Function.update st.links p (st.links (.next e)) }

/-- A component changed. -/
def modify (st : Client ι) (c : ι) (f : Component ι → Component ι) : Client ι :=
  { st with comp := Function.update st.comp c (f (st.comp c)) }

/-- `vcos_event_flags_set` with `VCOS_OR`. -/
def setFlag (st : Client ι) (c : ι) (f : Flag) : Client ι :=
  st.modify c fun x => { x with event := insert f x.event }

/-- What `vcos_event_flags_get` with `VCOS_OR_CONSUME` leaves of the
flags. -/
def consume (st : Client ι) (c : ι) (mask : Finset Flag) : Client ι :=
  st.modify c fun x => { x with event := x.event \ mask }

end Client

/-- The client as `memset` clears it. -/
def clearedClient : Client ι where
  links := fun _ => none
  eventRep := fun _ => none
  comp := fun _ => ⟨∅, ∅, none⟩

/-- `ilclient_init`, and the components as `ilclient_create_component`
clears them. -/
def ilclientInit : Client ι :=
  (List.finRange numEvents).foldl (fun st e => (st.mark e).spare e) clearedClient

/-! ## Taking events off -/

/-- The condition of the loop in `ilclient_remove_event`. -/
def Ilevent.Matches (x : Ilevent) (eEvent : EventType) (nData1 : Data) (ignore1 : Bool)
    (nData2 : UInt32) (ignore2 : Bool) : Prop :=
  x.eEvent = eEvent ∧ (ignore1 = true ∨ x.nData1 = nData1) ∧ (ignore2 = true ∨ x.nData2 = nData2)

instance (x : Ilevent) (eEvent : EventType) (nData1 : Data) (ignore1 : Bool) (nData2 : UInt32)
    (ignore2 : Bool) : Decidable (x.Matches eEvent nData1 ignore1 nData2 ignore2) := by
  unfold Ilevent.Matches
  infer_instance

/-- The flags that go with an event of a type: the user may have been told
of it by a callback, and cannot clear them then. -/
def flagsOf : EventType → Finset Flag
  | .error => {.eventError}
  | .paramOrConfigChanged => {.configChanged}
  | _ => ∅

/-- The first event with `q` taken off the list of a component, the cell
being the one the place `p` leads to. -/
def takeFirst (st : Client ι) (c : ι) (q : Ilevent → Bool) :
    Except Fault (Client ι × Option Ilevent) :=
  match st.links.find (fun e => (st.eventRep e).any q) (numEvents + 1) (.head (.list c)) with
  | none => .error .endless
  | some p =>
    match st.links p with
    | none => .ok (st, none)
    | some cur => .ok (((st.unlink p cur).spare cur).mark cur, st.eventRep cur)

/-- `ilclient_remove_event`, with what it returns. -/
def removeEvent (st : Client ι) (c : ι) (eEvent : EventType) (nData1 : Data) (ignore1 : Bool)
    (nData2 : UInt32) (ignore2 : Bool) : Except Fault (Client ι × ℤ) :=
  match takeFirst st c fun x => x.Matches eEvent nData1 ignore1 nData2 ignore2 with
  | .error f => .error f
  | .ok (st, none) => .ok (st, -1)
  | .ok (st, some _) => .ok (st.consume c (flagsOf eEvent), 0)

/-- The loop of `ilclient_return_events`, which does not mark the cells. -/
def returnLoop (c : ι) : ℕ → Client ι → Except Fault (Client ι)
  | 0, _ => .error .endless
  | n + 1, st =>
    match st.links (.head (.list c)) with
    | none => .ok st
    | some e => returnLoop c n ((st.unlink (.head (.list c)) e).spare e)

/-- `ilclient_return_events`. -/
def returnEvents (st : Client ι) (c : ι) : Except Fault (Client ι) :=
  returnLoop c (numEvents + 1) st

/-! ## Filing an event -/

/-- The inner loop of `ilclient_event_handler`, from a place behind `event`
on: what says the same as `event` is put back. -/
def removeCopies (event : EventId) : ℕ → Place (ListId ι) EventId → Client ι →
    Except Fault (Client ι)
  | 0, _, _ => .error .endless
  | n + 1, p, st =>
    match st.links p with
    | none => .ok st
    | some rem =>
      if st.eventRep rem = st.eventRep event then
        removeCopies event n p (((st.unlink p rem).spare rem).mark rem)
      else removeCopies event n (.next rem) st

/-- The outer loop. -/
def removeDuplicates : ℕ → Option EventId → Client ι → Except Fault (Client ι)
  | 0, _, _ => .error .endless
  | _ + 1, none, st => .ok st
  | n + 1, some event, st =>
    match removeCopies event (numEvents + 1) (.next event) st with
    | .error f => .error f
    | .ok st => removeDuplicates n (st.links (.next event)) st

/-- The flag of a command that is complete. -/
def Command.flag : Command → Option Flag
  | .stateSet => some .stateChanged
  | .portDisable => some .portDisabled
  | .portEnable => some .portEnabled
  | .flush => some .portFlush
  | .markBuffer => some .markedBuffer
  | .other _ => none

/-- The mask under which an error is ignored. -/
def ErrorType.mask : ErrorType → Option ErrorMask
  | .portUnpopulated => some .unpopulated
  | .sameState => some .sameState
  | .badParameter => some .badParameter
  | _ => none

/-- The errors no flag is set for. -/
def ErrorType.IsSilent : ErrorType → Prop
  | .diskFull => True
  | .maxFileSize => True
  | _ => False

instance : DecidablePred ErrorType.IsSilent := fun e => by
  unfold ErrorType.IsSilent
  split <;> infer_instance

/-- The `switch` over an error: the flag set, and whether the event is
filed. -/
def dispatchError (masked : Finset ErrorMask) (e : ErrorType) :
    Except Fault (Option Flag × Bool) :=
  match e with
  | .other _ => .error .assert
  | e =>
    if ∃ k ∈ e.mask, k ∈ masked then .ok (none, false)
    else if e.IsSilent then .ok (none, true)
    else .ok (some .eventError, true)

/-- The `switch` of `ilclient_event_handler`: the flag set on the
component, and the event filed unless it is ignored. -/
def dispatch (masked : Finset ErrorMask) (x : Ilevent) :
    Except Fault (Option Flag × Option Ilevent) :=
  match x.eEvent, x.nData1 with
  | .cmdComplete, .command cmd =>
    match cmd.flag with
    | none => .error .assert
    | some f => .ok (some f, some x)
  | .error, .error e =>
    match dispatchError masked e with
    | .error f => .error f
    | .ok (f, filed) => .ok (f, if filed then some x else none)
  | .bufferFlag, _ =>
    if x.nData2 &&& bufferflagEos ≠ 0 then
      .ok (some .bufferFlagEos, some { x with nData2 := bufferflagEos })
    else .error .assert
  | .portSettingsChanged, _ => .ok (some .parameterChanged, some x)
  | .mark, _ => .ok (some .bufferMark, some x)
  | .paramOrConfigChanged, _ => .ok (some .configChanged, some x)
  | _, _ => .error .assert

/-- An error that ends a command of the component is an error to the one
that waits for it too. -/
def notifyRelated (st : Client ι) (c : ι) (x : Ilevent) : Client ι :=
  match (st.comp c).related with
  | none => st
  | some d => if x.eEvent = .error ∧ x.nData2 = 1 then st.setFlag d .eventError else st

/-- The event filled in, its cell taken from the cells not in use and put
at the head of the list of the component. -/
def file (st : Client ι) (c : ι) (event : EventId) (x : Ilevent) : Client ι :=
  let links := Function.update st.links (.head .eventList) (st.links (.next event))
  { st with
    links := Function.update
      (Function.update links (.next event) (links (.head (.list c)))) (.head (.list c)) (some event)
    eventRep := Function.update st.eventRep event (some x) }

/-- `ilclient_event_handler`, but for the callbacks it makes. -/
def eventHandler (st : Client ι) (c : ι) (x : Ilevent) : Except Fault (Client ι) :=
  match removeDuplicates (numEvents + 1) (st.links (.head (.list c))) st with
  | .error f => .error f
  | .ok st =>
    match st.links (.head .eventList) with
    | none => .error .assert
    | some event =>
      match dispatch (st.comp c).errorMask x with
      | .error f => .error f
      | .ok (flag, filed) =>
        let st := notifyRelated st c x
        let st := flag.elim st (st.setFlag c)
        .ok (filed.elim st (file st c event))

/-! ## Waiting for a command -/

/-- The flags `ilclient_wait_for_command_complete_dual` sleeps on, `none`
where it returns -1 at once. -/
def Command.waitMask : Command → Option (Finset Flag)
  | .stateSet => some {.eventError, .stateChanged}
  | .portDisable => some {.eventError, .portDisabled}
  | .portEnable => some {.eventError, .portEnabled}
  | _ => none

/-- An error that ends a command. -/
def Ilevent.EndsCommand (x : Ilevent) : Prop := x.eEvent = .error ∧ x.nData2 = 1

instance : DecidablePred Ilevent.EndsCommand := fun x => by
  unfold Ilevent.EndsCommand
  infer_instance

/-- The event a wait looks for: the command complete, or an error that ends
one. -/
def Ilevent.Completes (command : Command) (nData2 : UInt32) (x : Ilevent) : Prop :=
  (x.eEvent = .cmdComplete ∧ x.nData1 = .command command ∧ x.nData2 = nData2) ∨ x.EndsCommand

instance (command : Command) (nData2 : UInt32) :
    DecidablePred (Ilevent.Completes command nData2) := fun x => by
  unfold Ilevent.Completes
  infer_instance

/-- What a wait returns on the event it finds. -/
def Ilevent.waitResult (x : Ilevent) : ℤ :=
  if x.eEvent = .cmdComplete ∨ x.nData1 = .error .sameState then 0 else -1

/-- One round of the loop in `ilclient_wait_for_command_complete_dual`, up
to where it gives up the lock: what it returns, if it is done. -/
def waitRound (st : Client ι) (c : ι) (command : Command) (nData2 : UInt32) (other : Option ι) :
    Except Fault (Client ι × Option ℤ) :=
  match takeFirst st c fun x => x.Completes command nData2 with
  | .error f => .error f
  | .ok (st, some x) =>
    .ok (if x.eEvent = .error then st.consume c {.eventError} else st, some x.waitResult)
  | .ok (st, none) =>
    match other with
    | none => .ok (st, none)
    | some d =>
      match st.links.find (fun e => (st.eventRep e).any fun x => x.EndsCommand) (numEvents + 1)
        (.head (.list d)) with
      | none => .error .endless
      | some p => .ok (st, (st.links p).map fun _ => -2)

/-! ## The client of several threads -/

/-- What is done to a client in one step, by the callback of a component or
by any thread of the user. -/
inductive Op (ι : Type) where
  | eventHandler (c : ι) (x : Ilevent)
  | removeEvent (c : ι) (eEvent : EventType) (nData1 : Data) (ignore1 : Bool) (nData2 : UInt32)
      (ignore2 : Bool)
  | returnEvents (c : ι)
  | waitRound (c : ι) (command : Command) (nData2 : UInt32) (other : Option ι)
  | flagsGet (c : ι) (mask : Finset Flag)
  | setRelated (c : ι) (other : Option ι)
  | setErrorMask (c : ι) (mask : Finset ErrorMask)

/-- A step of a client, with what the call returns. -/
def Op.apply (st : Client ι) : Op ι → Except Fault (Client ι × Option ℤ)
  | .eventHandler c x => (Ilclient.eventHandler st c x).map fun st => (st, none)
  | .removeEvent c eEvent nData1 ignore1 nData2 ignore2 =>
    (Ilclient.removeEvent st c eEvent nData1 ignore1 nData2 ignore2).map fun r => (r.1, some r.2)
  | .returnEvents c => (Ilclient.returnEvents st c).map fun st => (st, none)
  | .waitRound c command nData2 other => Ilclient.waitRound st c command nData2 other
  | .flagsGet c mask => .ok (st.consume c mask, none)
  | .setRelated c other => .ok (st.modify c fun x => { x with related := other }, none)
  | .setErrorMask c mask => .ok (st.modify c fun x => { x with errorMask := mask }, none)

/-- The steps of a client, in any order. A step that faults ends the
process. -/
def clientSteps : Machine (Client ι) (Op ι) (Option ℤ) where
  step st op :=
    match op.apply st with
    | .error _ => none
    | .ok r => some r

end Ilclient

end Camkit
