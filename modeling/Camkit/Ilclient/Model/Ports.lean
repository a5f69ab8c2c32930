import Camkit.Ilclient.Model.Buffers
import Camkit.Common.Ledger
/-!
# IL client — the buffers of a port

`ilclient_enable_port_buffers` makes the buffers of a port and puts their
headers on its list, and `ilclient_disable_port_buffers` takes them off
again, as they come back, and frees them. In between the headers are used:
a call takes one off the list for its caller, who gives it to the component,
which calls back with it. A buffer and its header have one name, and a
component has one input port and one output port.
-/

namespace Camkit

namespace Ilclient

open Ledger (Entry)

variable {β : Type} [Fintype β] [DecidableEq β]

/-! ## Enabling -/

/-- The locals of `ilclient_enable_port_buffers`: `end` is `&list`, or the
`pAppPrivate` of the header added last. -/
structure Allocating (β : Type) where
  links : Links Dir β
  list : Option β
  last : Option β
  log : List (Entry β)

/-- `OMX_UseBuffer` makes a header for the buffer and stores it to `*end`. -/
def Allocating.add (a : Allocating β) (buf : β) : Allocating β where
  links := Function.update (match a.last with
    | none => a.links
    | some e => Function.update a.links (.next e) (some buf)) (.next buf) none
  list := match a.last with
    | none => some buf
    | some _ => a.list
  last := some buf
  log := a.log ++ [.acquire buf]

/-- The `for` loop, with `n` buffers to go: whether it has made them all.
`bufs` are the buffers the allocations return in turn, and whether
`OMX_UseBuffer` takes them; where they are over an allocation fails. -/
def allocLoop : ℕ → List (β × Bool) → Allocating β → Bool × Allocating β
  | 0, _, a => (true, a)
  | _ + 1, [], a => (false, a)
  | n + 1, (buf, true) :: bufs, a => allocLoop n bufs (a.add buf)
  | _ + 1, (buf, false) :: _, a => (false, { a with log := a.log ++ [.acquire buf, .release buf] })

/-- The headers queued in front of those on the list. -/
def Allocating.queue (a : Allocating β) (dir : Dir) : Links Dir β :=
  match a.last with
  | none => a.links
  | some e =>
    Function.update (Function.update a.links (.next e) (a.links (.head dir))) (.head dir) a.list

/-! ## Disabling -/

/-- Where the walk over a list of headers goes wrong. -/
inductive WalkFault where
  | endless
  /-- it goes on from the address of a field as from a header -/
  | wild
  deriving DecidableEq, Repr

variable (portIndex : PortIndex β)

/-- The walk of `ilclient_disable_port_buffers` over its list, from `clist`
on, with the headers of the port so far in `list`. As long as `clist` is a
header `prev` is null. -/
def sweep (dir : Dir) (port : UInt32) :
    ℕ → Links Dir β → Option β → Option β → Except WalkFault (Links Dir β × Option β)
  | 0, _, _, _ => .error .endless
  | _ + 1, links, none, list => .ok (links, list)
  | n + 1, links, some pBuffer, list =>
    if portIndex dir pBuffer = port then
      let clist := links (.next pBuffer)
      let links := Function.update links (.head dir) clist
      sweep dir port n (Function.update links (.next pBuffer) list) clist (some pBuffer)
    -- `clist` is given `&clist->pAppPrivate` instead of what is there
    else .error .wild

/-- The headers of the port off their list, and the buffers it frees in
turn. -/
def disableRound (st : Buffers β) (dir : Dir) (port : UInt32) :
    Except WalkFault (Buffers β × List β) :=
  match sweep portIndex dir port (Fintype.card β + 1) st.links (st.links (.head dir)) none with
  | .error f => .error f
  | .ok (links, list) => .ok ({ st with links := links }, links.follow (Fintype.card β) list)

/-! ## A component in use -/

/-- Where a call of `ilclient_disable_port_buffers` is. -/
inductive Closing where
  | ended
  /-- in its loop, about to take the headers off the list -/
  | looking (num : ℤ)
  | asleep (num : ℤ)
  /-- behind its loop, in `ilclient_wait_for_command_complete` -/
  | completing
  deriving DecidableEq, Repr

/-- The headers of `list` are freed: `if(num)` the call sleeps. -/
def Closing.freed (num : ℤ) : Closing := if num ≠ 0 then .asleep num else .completing

/-- It wakes, and stays in its loop `while(num > 0)`. -/
def Closing.woken (num : ℤ) : Closing := if 0 < num then .looking num else .completing

/-- It waits for the component to tell that the port is disabled. -/
def Closing.waits : Closing → Bool
  | .asleep _ => true
  | .completing => true
  | _ => false

/-- A component with a thread at each list, which enables and disables the
port of the list too. -/
structure Ported (β : Type) where
  served : Served β
  /-- `bEnabled` of the ports -/
  enabled : Dir → Bool
  /-- the headers off the lists: a caller has them, or the component -/
  away : Dir → Finset β
  /-- those of them that the component has -/
  given : Dir → Finset β
  /-- the buffers made and freed -/
  log : List (Entry β)
  closing : Dir → Closing

/-- What happens at a component. -/
inductive PortOp (β : Type) where
  | use (op : BufferOp β)
  /-- `OMX_EmptyThisBuffer` and `OMX_FillThisBuffer`: a caller gives a header
  to the component -/
  | give (dir : Dir) (pBuffer : β)
  /-- `ilclient_enable_port_buffers`, with the buffers it gets; `ok` is
  whether the command completes, and `up` whether the port is enabled then -/
  | enable (dir : Dir) (bufs : List (β × Bool)) (ok up : Bool)
  /-- `ilclient_disable_port_buffers`, up to where it sleeps or looks at the
  list -/
  | disable (dir : Dir) (bufferList : List β)
  /-- a round of its loop -/
  | sweep (dir : Dir)
  /-- `other` is whether another flag of its mask is set -/
  | wake (dir : Dir) (other : Bool)
  /-- the component tells that the port is disabled -/
  | disabled (dir : Dir)
  /-- it tells of an error instead -/
  | error (dir : Dir)

/-- No call on the list is under way. -/
def Ported.idle (s : Ported β) (dir : Dir) : Bool :=
  match s.served.thread dir, s.closing dir with
  | .done _, .ended => true
  | _, _ => false

/-- The component calls back with a header it has, and the thread at a list
has one call under way at most. -/
def Ported.allows (s : Ported β) : BufferOp β → Bool
  | .done dir b => b ∈ s.given dir
  | .get dir _ _ => s.idle dir
  | _ => true

/-- The headers off the lists after a call back, or a call that returns
one. -/
def Ported.awayAfter (s : Ported β) : BufferOp β → Option (Dir × β) → Dir → Finset β
  | .done dir b, _ => Function.update s.away dir ((s.away dir).erase b)
  | _, some (dir, b) => Function.update s.away dir (insert b (s.away dir))
  | _, none => s.away

/-- The headers the component has after a call back. -/
def Ported.givenAfter (s : Ported β) : BufferOp β → Dir → Finset β
  | .done dir b => Function.update s.given dir ((s.given dir).erase b)
  | _ => s.given

/-- A buffer has been made, and not been freed. -/
def Ported.Has (s : Ported β) (b : β) : Prop :=
  ∃ d, b ∈ s.served.buffers.queue d ∨ b ∈ s.away d

instance (s : Ported β) (b : β) : Decidable (s.Has b) := by unfold Ported.Has; infer_instance

/-- The call that disables a port goes on. -/
def Ported.close (s : Ported β) (dir : Dir) (ph : Closing) : Ported β :=
  { s with closing := Function.update s.closing dir ph }

/-- It wakes with `VCOS_OR_CONSUME`, whichever flag of its mask is set. -/
def Served.takeFlag (t : Served β) (dir : Dir) : Served β :=
  { t with
    buffers := { t.buffers with event := Function.update t.buffers.event dir false } }

variable (port : Dir → UInt32) (nBufferCountActual : Dir → ℕ)

/-- A step of a component whose input port and output port are `port`, with
the header a call returns. Buffers that are made are new, and have headers
of the port; a `bufferList` is of headers the caller has; a component has
disabled a port when it has no buffers left. -/
def Ported.step (s : Ported β) : PortOp β → Option (Ported β × Option (Dir × β))
  | .use op =>
    if s.allows op then
      match s.served.step portIndex op with
      | none => none
      | some (served, out) =>
        some ({ s with
          served := served
          away := s.awayAfter op out
          given := s.givenAfter op }, out)
    else none
  | .give dir b =>
    if b ∈ s.away dir ∧ b ∉ s.given dir then
      some ({ s with given := Function.update s.given dir (insert b (s.given dir)) }, none)
    else none
  | .enable dir bufs ok up =>
    if !s.idle dir ∨ ¬ (bufs.map Prod.fst).Nodup ∨
        ∃ b ∈ bufs.map Prod.fst, s.Has b ∨ portIndex dir b ≠ port dir then none
    else if s.enabled dir ∨ nBufferCountActual dir = 0 then some (s, none)
    else
      let made :=
        allocLoop (nBufferCountActual dir) bufs ⟨s.served.buffers.links, none, none, s.log⟩
      let failed := !(made.1 && ok)
      some ({ s with
        served := { s.served with
          buffers := { s.served.buffers with links := made.2.queue dir } }
        enabled := Function.update s.enabled dir (!failed)
        log := made.2.log
        closing := if failed && up then
          Function.update s.closing dir (.looking (nBufferCountActual dir)) else s.closing }, none)
  | .disable dir bufferList =>
    if !s.idle dir ∨ ¬ bufferList.Nodup ∨
        ∃ b ∈ bufferList, b ∉ s.away dir ∨ b ∈ s.given dir then none
    else if !s.enabled dir ∨ nBufferCountActual dir = 0 then some (s, none)
    else
      -- the list is looked at in a round that has no header otherwise
      let ph : Closing :=
        if bufferList = [] then .looking (nBufferCountActual dir)
        else .freed (nBufferCountActual dir - bufferList.length)
      some ({ s.close dir ph with
        enabled := Function.update s.enabled dir false
        away := Function.update s.away dir (s.away dir \ bufferList.toFinset)
        log := s.log ++ bufferList.map .release }, none)
  | .sweep dir =>
    match s.closing dir with
    | .looking num =>
      match disableRound portIndex s.served.buffers dir (port dir) with
      | .error _ => none
      | .ok (st, list) =>
        some ({ s.close dir (.freed (num - list.length)) with
          served := { s.served with buffers := st }
          log := s.log ++ list.map .release }, none)
    | _ => none
  | .wake dir other =>
    match s.closing dir with
    | .asleep num =>
      if s.served.buffers.event dir || other then
        some ({ s.close dir (.woken num) with served := s.served.takeFlag dir }, none)
      else none
    | _ => none
  | .disabled dir =>
    if (s.closing dir).waits ∧ s.served.buffers.queue dir = [] ∧ s.away dir = ∅ then
      -- the flag of the list is not in the mask of the last wait
      let served := if s.closing dir = .completing then s.served else s.served.takeFlag dir
      some ({ s.close dir .ended with served := served }, none)
    else none
  | .error dir =>
    match s.closing dir with
    | .asleep _ => some ({ s.close dir .ended with served := s.served.takeFlag dir }, none)
    -- behind the loop `vc_assert` fails
    | _ => none

/-- The steps of a component, in any order. -/
def portSteps : Machine (Ported β) (PortOp β) (Option (Dir × β)) where
  step s op := s.step portIndex port nBufferCountActual op

/-- A component whose ports are disabled. -/
def portedInit : Ported β :=
  ⟨servedInit, fun _ => false, fun _ => ∅, fun _ => ∅, [], fun _ => .ended⟩

end Ilclient

end Camkit
