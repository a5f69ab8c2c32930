import Camkit.Common.Wakeup
import Camkit.Ilclient.Model.Events
import Mathlib.Data.Fintype.Card
/-!
# IL client — buffers

`ilclient.c` as far as it keeps the buffers of a component that are back from
it: a list for each direction, linked through the headers, and the calls that
take one off, which may sleep. A callback puts its buffer on the list under
the lock of the component and sets the flag after it has given up the lock.
-/

namespace Camkit

namespace Ilclient

/-- `OMX_DIRTYPE`. -/
inductive Dir where
  | input
  | output
  deriving DecidableEq, Repr

instance : Fintype Dir := ⟨{.input, .output}, fun d => by cases d <;> simp⟩

/-- The buffers of a `COMPONENT_T`, whose headers have names in `β`. -/
structure Buffers (β : Type) where
  /-- `in_list` and `out_list`, and `pAppPrivate` of each header -/
  links : Links Dir β
  /-- the flags `ILCLIENT_EMPTY_BUFFER_DONE` and `ILCLIENT_FILL_BUFFER_DONE` -/
  event : Dir → Bool
  /-- the callbacks that have put their buffer on the list, and have yet to
  set the flag -/
  posting : Dir → ℕ

variable {β : Type} [Fintype β] [DecidableEq β]

/-- The headers on a list. -/
def Buffers.queue (st : Buffers β) (dir : Dir) : List β :=
  st.links.follow (Fintype.card β) (st.links (.head dir))

/-- `ilclient_empty_buffer_done` and `ilclient_fill_buffer_done`, up to where
they give up the lock. -/
def bufferDone (st : Buffers β) (dir : Dir) (pBuffer : β) : Except Fault (Buffers β) :=
  match st.links.find (fun _ => false) (Fintype.card β + 1) (.head dir) with
  | none => .error .endless
  | some list =>
    let links := Function.update st.links list (some pBuffer)
    .ok { st with
      links := Function.update links (.next pBuffer) none
      posting := Function.update st.posting dir (st.posting dir + 1) }

/-- The flag they set then. -/
def flagSet (st : Buffers β) (dir : Dir) : Buffers β :=
  { st with
    event := Function.update st.event dir true
    posting := Function.update st.posting dir (st.posting dir - 1) }

/-- `nInputPortIndex` and `nOutputPortIndex` of the headers. -/
abbrev PortIndex (β : Type) := Dir → β → UInt32

variable (portIndex : PortIndex β)

/-- One round of the loop in `ilclient_get_input_buffer` and
`ilclient_get_output_buffer`, with `prev` as the round before has left it: the
new `prev`, and the header found. -/
def getRound (st : Buffers β) (dir : Dir) (port : UInt32) (prev : Option β) :
    Except Fault (Buffers β × Option β × Option β) :=
  match st.links.find (fun b => portIndex dir b = port) (Fintype.card β + 1) (.head dir) with
  | none => .error .endless
  | some p =>
    let prev :=
      match p with
      | .head _ => prev
      | .next a => some a
    match st.links p with
    | none => .ok (st, prev, none)
    | some ret =>
      let place :=
        match prev with
        | none => .head dir
        | some a => .next a
      let links := Function.update st.links place (st.links (.next ret))
      .ok ({ st with links := Function.update links (.next ret) none }, prev, some ret)

/-- Where a call that gets a buffer is. -/
structure Getting (β : Type) where
  portIndex : UInt32
  block : Bool
  prev : Option β
  deriving DecidableEq

/-- `ilclient_get_input_buffer` and `ilclient_get_output_buffer`. -/
def getWaiter (dir : Dir) : Waiter (Buffers β) (Getting β) (Option β) where
  look g st :=
    match getRound portIndex st dir g.portIndex g.prev with
    | .error _ => none
    | .ok (st, prev, none) =>
      if g.block then some (st, .asleep { g with prev := prev }) else some (st, .done none)
    | .ok (st, _, some ret) => some (st, .done (some ret))
  Signalled st := st.event dir = true
  wake g st := ({ st with event := Function.update st.event dir false }, .looking g)

/-- A component with a thread at each of its lists. -/
structure Served (β : Type) where
  buffers : Buffers β
  thread : Dir → Phase (Getting β) (Option β)

/-- What happens at a component. -/
inductive BufferOp (β : Type) where
  /-- a callback puts its buffer on the list -/
  | done (dir : Dir) (pBuffer : β)
  /-- and sets the flag -/
  | flag (dir : Dir)
  /-- the thread at the list calls -/
  | get (dir : Dir) (portIndex : UInt32) (block : Bool)
  | look (dir : Dir)
  | wake (dir : Dir)

/-- The thread at a list goes on. -/
def Served.move (s : Served β) (dir : Dir) (r : Buffers β × Phase (Getting β) (Option β)) :
    Served β :=
  ⟨r.1, Function.update s.thread dir r.2⟩

/-- A step of a component, with the buffer a call returns and its list. A
component calls back with a header it holds, which is on no list. -/
def Served.step (s : Served β) : BufferOp β → Option (Served β × Option (Dir × β))
  | .done dir b =>
    if ∃ d, b ∈ s.buffers.queue d then none
    else
      match bufferDone s.buffers dir b with
      | .error _ => none
      | .ok st => some ({ s with buffers := st }, none)
  | .flag dir =>
    if s.buffers.posting dir = 0 then none
    else some ({ s with buffers := flagSet s.buffers dir }, none)
  | .get dir port block =>
    match s.thread dir with
    | .done _ => some (s.move dir (s.buffers, .looking ⟨port, block, none⟩), none)
    | _ => none
  | .look dir =>
    match s.thread dir with
    | .looking g =>
      match (getWaiter portIndex dir).look g s.buffers with
      | none => none
      | some (st, .done ret) => some (s.move dir (st, .done ret), ret.map (dir, ·))
      | some r => some (s.move dir r, none)
    | _ => none
  | .wake dir =>
    match s.thread dir with
    | .asleep g =>
      if s.buffers.event dir then
        some (s.move dir ((getWaiter portIndex dir).wake g s.buffers), none)
      else none
    | _ => none

/-- The steps of a component, in any order. -/
def bufferSteps : Machine (Served β) (BufferOp β) (Option (Dir × β)) where
  step s op := s.step portIndex op

/-- A component after `memset`. -/
def servedInit : Served β := ⟨⟨fun _ => none, fun _ => false, fun _ => 0⟩, fun _ => .done none⟩

end Ilclient

end Camkit
