import Mathlib.Data.Nat.Bitwise
import Mathlib.Logic.Function.Basic
/-!
# IL client — a transition of several components

`ilclient_state_transition`, by what it does to the components: it tells them
to go to a state, in a random order that it draws into their field `private`,
and waits for each of them then.
-/

namespace Camkit

namespace Ilclient

/-- `OMX_StateLoaded`. -/
def stateLoaded : UInt32 := 1

/-- What is done to a component. -/
inductive Action (ι : Type) where
  /-- `ILCLIENT_ERROR_UNPOPULATED` put into its `error_mask` -/
  | mask (c : ι)
  /-- its flag `ILCLIENT_EVENT_ERROR` taken -/
  | flagsGet (c : ι)
  /-- `OMX_CommandStateSet` sent to it -/
  | sendCommand (c : ι) (state : UInt32)
  /-- `ilclient_wait_for_command_complete` -/
  | wait (c : ι) (state : UInt32)
  /-- `ILCLIENT_ERROR_UNPOPULATED` taken out of its `error_mask` -/
  | unmask (c : ι)
  deriving DecidableEq, Repr

/-- How a transition goes wrong. -/
inductive TransitionFault where
  /-- it reads `list[-1]` -/
  | index
  deriving DecidableEq, Repr

variable {ι : Type} [DecidableEq ι]

/-- `private` of the components drawn, from the `i`-th on; `rand` is what the
calls of `rand` return. -/
def draw (rand : ℕ → ℕ) : ℕ → List ι → (ι → ℕ) → ι → ℕ
  | _, [], priv => priv
  | i, c :: list, priv =>
    draw rand (i + 1) list (Function.update priv c ((rand i >>> 13 &&& 255) + 1))

omit [DecidableEq ι] in
/-- The loop that looks for the least `private` that is not 0; `min` is
`list[min]`. -/
def minLoop (priv : ι → ℕ) : List ι → Option ι → Option ι
  | [], min => min
  | c :: list, min =>
    minLoop priv list
      (if priv c ≠ 0 ∧ (min = none ∨ ∃ m ∈ min, priv m > priv c) then some c else min)

/-- The loop that tells the components, with `n` rounds to go. -/
def sendLoop (list : List ι) (state : UInt32) : ℕ → (ι → ℕ) →
    Except TransitionFault (List (Action ι))
  | 0, _ => .ok []
  | n + 1, priv =>
    match minLoop priv list none with
    | none => .error .index
    | some c =>
      match sendLoop list state n (Function.update priv c 0) with
      | .error f => .error f
      | .ok actions => .ok (.flagsGet c :: .sendCommand c state :: actions)

/-- `ilclient_state_transition`, from any `private`. -/
def stateTransition (rand : ℕ → ℕ) (priv : ι → ℕ) (list : List ι) (state : UInt32) :
    Except TransitionFault (List (Action ι)) :=
  match sendLoop list state list.length (draw rand 0 list priv) with
  | .error f => .error f
  | .ok actions =>
    .ok ((if state = stateLoaded then list.map .mask else []) ++ actions ++
      list.map (.wait · state) ++ if state = stateLoaded then list.map .unmask else [])

end Ilclient

end Camkit
