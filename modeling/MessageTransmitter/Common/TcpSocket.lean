import MessageTransmitter.Common.MessageFormat

/-!
# The TCP link

`common/tcp_socket.cpp`.  The outcome of `send` is an argument; the receiving end of the connection is
in `TcpServer`.
-/

open Bytes

namespace MessageTransmitter

/-- The outcome of `send` or `recv` on a stream socket: -1, or a byte count. -/
inductive StreamResult where
  | error
  | count (n : ℕ)
  deriving DecidableEq, Repr

structure TCPSocket where
  mConnected : Bool := false
  deriving DecidableEq, Repr, Inhabited

namespace TCPSocket

def connected (s : TCPSocket) : Bool := s.mConnected

def connect (s : TCPSocket) (success inProgress : Bool) : TCPSocket :=
  let s := { s with mConnected := success }
  -- EINPROGRESS: a connection that is still being made counts as connected
  if !s.mConnected && inProgress then { s with mConnected := true } else s

def sendBytes (res : StreamResult) : Bool :=
  -- `send(...) != -1`: the number of bytes that the kernel took is not looked at
  res ≠ .error

end TCPSocket

end MessageTransmitter
