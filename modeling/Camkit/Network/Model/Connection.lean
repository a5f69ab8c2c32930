import Mathlib.Data.Int.Notation
import Mathlib.Data.Nat.Notation
/-!
# Network — the code

`network.c` up to `net_open`. What the sockets answer is a parameter.
-/

namespace Camkit

namespace Network

/-- `enum net_t`. -/
inductive NetT where
  | udp
  | tcp
  deriving DecidableEq, Repr

/-- `struct net_param`. -/
structure NetParam where
  type : NetT
  serip : String
  serport : ℤ
  deriving DecidableEq, Repr

/-- `struct sockaddr_in`, the port before `htons`. -/
structure SockaddrIn where
  port : UInt16
  addr : UInt32
  deriving DecidableEq, Repr

/-- `struct net_handle`. -/
structure NetHandle where
  sktfd : ℕ
  serverSock : SockaddrIn
  params : NetParam
  deriving DecidableEq, Repr

/-- What the calls of `net_open` answer. -/
structure OpenEnv where
  malloc : Bool
  /-- the descriptor of a socket, or a failure -/
  socket : NetT → Option ℕ
  inetAddr : String → UInt32
  connect : SockaddrIn → Bool

/-- The address `net_open` connects to. -/
def OpenEnv.server (env : OpenEnv) (params : NetParam) : SockaddrIn :=
  ⟨.ofInt params.serport, env.inetAddr params.serip⟩

/-- `net_open`. -/
def netOpen (env : OpenEnv) (params : NetParam) : Option NetHandle :=
  if env.malloc then
    match env.socket params.type with
    | none => none
    | some sktfd =>
      if env.connect (env.server params) then some ⟨sktfd, env.server params, params⟩ else none
  else none

end Network

end Camkit
