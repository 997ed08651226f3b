import MessageTransmitter.Common.MessageFormat

/-!
# UDP sockets

`common/udp_socket.cpp`.  What the kernel does in a call is an argument of the function: readiness,
the outcome of `sendto`, and the outcome of `recvfrom` with the datagram it delivers.
-/

open Bytes

namespace MessageTransmitter

/-- `sockaddr_in`; all zero is what `memset` leaves. -/
structure SockAddr where
  sinFamily : UInt16 := 0
  sinAddr : UInt32 := 0
  sinPort : UInt16 := 0
  deriving DecidableEq, Repr, Inhabited

def afInet : UInt16 := 2
def inaddrAny : UInt32 := 0

/-- `inet_addr("127.0.0.1")` on a little-endian machine. -/
def loopbackAddr : UInt32 := 0x0100007f

def htons (port : UInt16) : UInt16 := port <<< 8 ||| port >>> 8

def recvUdpPort : UInt16 := 8080

/-- The outcome of `recvfrom`: -1, or a datagram with the address it came from. -/
inductive RecvResult where
  | error
  | datagram (source : SockAddr) (data : List UInt8)
  deriving DecidableEq, Repr

structure Datagram where
  destination : SockAddr
  data : List UInt8
  deriving DecidableEq, Repr

inductive SocketType where
  | client
  | server
  deriving DecidableEq, Repr

structure UDPSocket where
  mSocketType : SocketType
  mSocket : Int := -1
  mBindStatus : Bool := true
  servaddr : SockAddr := {}
  cliaddr : SockAddr := {}
  deriving DecidableEq, Repr

namespace UDPSocket

def isServer (s : UDPSocket) : Bool := s.mSocketType = .server

def isOpen (s : UDPSocket) : Bool :=
  s.mSocket > 0 && (if s.isServer then s.mBindStatus else true)

def isValid (addr : SockAddr) : Bool :=
  addr.sinAddr ≠ 0 && addr.sinFamily ≠ 0 && addr.sinPort ≠ 0

def hasClient (s : UDPSocket) : Bool := isValid s.cliaddr

def hasServer (s : UDPSocket) : Bool := isValid s.servaddr

def bindAddr (address : UInt32) (port : UInt16) : SockAddr := ⟨afInet, address, htons port⟩

/-- `bound` is the outcome of the system call that only a server socket makes. -/
def bind (s : UDPSocket) (address : UInt32) (port : UInt16) (bound : Bool) : UDPSocket :=
  let s := { s with servaddr := bindAddr address port }
  if s.isServer then { s with mBindStatus := bound } else s

def destination (s : UDPSocket) : SockAddr := if s.isServer then s.cliaddr else s.servaddr

/-- Returns whether the bytes were sent, and the datagram that was handed to the network. -/
def sendBytes {n : ℕ} (s : UDPSocket) (p : Buffer n) (accepted : Bool) : Bool × Option Datagram :=
  -- `sendto` takes the whole datagram or reports -1
  let sent : Int := if accepted then n else -1
  (!decide (sent < 0), if accepted then some ⟨s.destination, p.bytes⟩ else none)

/-- `recvfrom(p, n)` copies the first `n` bytes of the datagram and returns how many it copied;
on success it stores the sender's address. -/
def recvfrom {n : ℕ} (p : Buffer n) : RecvResult → Int × Buffer n × Option SockAddr
  | .error => (-1, p, none)
  | .datagram source data => (Int.ofNat (min data.length n), p.fill data, some source)

/-- Returns whether something was received, the buffer and the socket.  The sender's address goes
into the field that `sendBytes` sends to. -/
def recvBytes {n : ℕ} (s : UDPSocket) (p : Buffer n) (res : RecvResult) :
    Bool × Buffer n × UDPSocket :=
  let (received, p, source) := recvfrom p res
  let s := match source with
    | none => s
    | some addr => if s.isServer then { s with cliaddr := addr } else { s with servaddr := addr }
  -- only a negative count is a failure, the count itself is not compared with `n`
  (!decide (received < 0), p, s)

@[simp] theorem recvBytes_error {n : ℕ} (s : UDPSocket) (p : Buffer n) :
    s.recvBytes p .error = (false, p, s) := rfl

theorem recvBytes_datagram {n : ℕ} (s : UDPSocket) (p : Buffer n) (source : SockAddr)
    (data : List UInt8) :
    s.recvBytes p (.datagram source data) = (true, p.fill data,
      if s.isServer then { s with cliaddr := source } else { s with servaddr := source }) := by
  -- a count of copied bytes is never negative, however few they are
  have hcount : ¬ Int.ofNat (min data.length n) < 0 := not_lt.mpr (Int.natCast_nonneg _)
  rw [recvBytes, recvfrom]
  simp only [hcount, decide_false, Bool.not_false]

theorem sendBytes_datagram {n : ℕ} {s : UDPSocket} {p : Buffer n} {accepted : Bool} {d : Datagram}
    (h : (s.sendBytes p accepted).2 = some d) : d = ⟨s.destination, p.bytes⟩ := by
  cases accepted
  · cases h
  · exact (Option.some.inj h).symm

end UDPSocket

/-- The address that the client knows the server by. -/
def serverAddr : SockAddr := UDPSocket.bindAddr loopbackAddr recvUdpPort

end MessageTransmitter
