import MessageTransmitter.Common.UdpSocket

/-!
# The server

`udp_sender/server.h` and `server.cpp`: rounds of the loop `Server::start`.
-/

open Bytes

namespace MessageTransmitter

/-- The server with the locals of `start` that live across rounds. -/
structure Server where
  mSocket : UDPSocket
  clientCmdID : Int32 := -1
  sendMsgCount : UInt64 := 0
  deriving DecidableEq, Repr

/-- What the system does in one round of `Server::start`. -/
structure ServerRound where
  -- the result of `select`
  selected : Int
  readyRecv : Bool
  recvResult : RecvResult
  readySend : Bool
  sendAccepted : Bool
  -- what the padding of the message to send holds
  padding : Buffer 5
  deriving DecidableEq

/-- What a round of the server leaves behind: the message it built, and the datagram it handed to
the network. -/
structure ServerOutput where
  built : Option MessageFormat := none
  datagram : Option Datagram := none
  deriving DecidableEq, Repr

namespace Server

/-- `Server::Server()`: `socket` is the descriptor, `bound` the outcome of the system's `bind`. -/
def construct (socket : Int) (bound : Bool) : Server where
  mSocket :=
    ({ mSocketType := .server, mSocket := socket } : UDPSocket).bind inaddrAny recvUdpPort bound

def recvCommand (s : Server) (res : RecvResult) : Bool × Server :=
  -- the received bytes go over the storage of the previous command
  let (wasReceived, c, sock) := s.mSocket.recvBytes (commandToRaw s.clientCmdID) res
  (wasReceived, { s with clientCmdID := commandOfRaw c, mSocket := sock })

def sendMessage (s : Server) (msg : RawMessage) (accepted : Bool) : Bool × Option Datagram :=
  s.mSocket.sendBytes msg accepted

def sendPart (s : Server) (r : ServerRound) : Server × ServerOutput :=
  if s.mSocket.hasClient && r.readySend then
    let msg := makeMessageDiv20 s.sendMsgCount
    let sent := (s.sendMessage (msg.toRaw r.padding) r.sendAccepted).2
    -- the counter moves on whether or not the message was sent
    ({ s with sendMsgCount := s.sendMsgCount + 1 }, ⟨some msg, sent⟩)
  else (s, {})

def startRound (s : Server) (r : ServerRound) : Server × ServerOutput :=
  if r.selected = -1 then (s, {})
  -- 0, a timeout, is only logged
  else
    let s := if r.readyRecv then (s.recvCommand r.recvResult).2 else s
    s.sendPart r

/-- One round, whatever it hands to the network. -/
def Step (s : Server) (r : ServerRound) (t : Server) : Prop := t = (s.startRound r).1

@[simp] theorem recvCommand_error (s : Server) : s.recvCommand .error = (false, s) := by
  simp [recvCommand]

theorem recvCommand_datagram {s : Server} (hserver : s.mSocket.isServer = true)
    (source : SockAddr) (data : List UInt8) :
    s.recvCommand (.datagram source data) = (true, { s with
      clientCmdID := commandOfRaw ((commandToRaw s.clientCmdID).fill data)
      mSocket := { s.mSocket with cliaddr := source } }) := by
  simp only [recvCommand, UDPSocket.recvBytes_datagram, hserver, if_true]

theorem recvCommand_mSocketType (s : Server) (res : RecvResult) :
    (s.recvCommand res).2.mSocket.mSocketType = s.mSocket.mSocketType := by
  cases res with
  | error => rw [recvCommand_error]
  | datagram source data =>
    rw [recvCommand, UDPSocket.recvBytes_datagram]
    dsimp only
    split <;> rfl

theorem sendPart_mSocket (s : Server) (r : ServerRound) :
    (s.sendPart r).1.mSocket = s.mSocket := by
  unfold sendPart
  split <;> rfl

theorem startRound_mSocketType (s : Server) (r : ServerRound) :
    (s.startRound r).1.mSocket.mSocketType = s.mSocket.mSocketType := by
  unfold startRound
  split
  · rfl
  · rw [sendPart_mSocket]
    split
    · exact recvCommand_mSocketType s r.recvResult
    · rfl

theorem sendPart_output (s : Server) (r : ServerRound) :
    ((s.sendPart r).2 = {} ∧ (s.sendPart r).1.sendMsgCount = s.sendMsgCount) ∨
      (s.sendPart r).2.built = some (makeMessageDiv20 s.sendMsgCount) ∧
        (s.sendPart r).1.sendMsgCount = s.sendMsgCount + 1 ∧
        ∀ d, (s.sendPart r).2.datagram = some d →
          d.data = ((makeMessageDiv20 s.sendMsgCount).toRaw r.padding).bytes := by
  unfold sendPart
  split
  · refine Or.inr ⟨rfl, rfl, fun d hd => ?_⟩
    rw [UDPSocket.sendBytes_datagram hd]
  · exact Or.inl ⟨rfl, rfl⟩

/-- A round builds nothing, or the message of the counter, which then moves on; a datagram that it
sends is that message. -/
theorem startRound_output (s : Server) (r : ServerRound) :
    ((s.startRound r).2 = {} ∧ (s.startRound r).1.sendMsgCount = s.sendMsgCount) ∨
      (s.startRound r).2.built = some (makeMessageDiv20 s.sendMsgCount) ∧
        (s.startRound r).1.sendMsgCount = s.sendMsgCount + 1 ∧
        ∀ d, (s.startRound r).2.datagram = some d →
          d.data = ((makeMessageDiv20 s.sendMsgCount).toRaw r.padding).bytes := by
  have hcount : (if r.readyRecv then (s.recvCommand r.recvResult).2 else s).sendMsgCount =
      s.sendMsgCount := by
    split <;> rfl
  have hout := sendPart_output (if r.readyRecv then (s.recvCommand r.recvResult).2 else s) r
  rw [hcount] at hout
  unfold startRound
  split
  · exact Or.inl ⟨rfl, rfl⟩
  · exact hout

/-- A round that receives a datagram takes over its source and its bytes. -/
theorem startRound_received {s : Server} (hserver : s.mSocket.isServer = true) (r : ServerRound) :
    ((s.startRound r).1.mSocket = s.mSocket ∧ (s.startRound r).1.clientCmdID = s.clientCmdID) ∨
      ∃ source data, r.recvResult = .datagram source data ∧
        (s.startRound r).1.mSocket = { s.mSocket with cliaddr := source } ∧
        (s.startRound r).1.clientCmdID = commandOfRaw ((commandToRaw s.clientCmdID).fill data) := by
  have hcmd : ∀ t : Server, (t.sendPart r).1.clientCmdID = t.clientCmdID := fun t => by
    unfold sendPart
    split <;> rfl
  unfold startRound
  split
  · exact .inl ⟨rfl, rfl⟩
  · rw [sendPart_mSocket, hcmd]
    split
    · cases hres : r.recvResult with
      | error =>
        rw [recvCommand_error]
        exact .inl ⟨rfl, rfl⟩
      | datagram source data =>
        rw [recvCommand_datagram hserver]
        exact .inr ⟨source, data, rfl, rfl, rfl⟩
    · exact .inl ⟨rfl, rfl⟩

/-- A round that reads a datagram answers to its source from then on. -/
theorem startRound_cliaddr {s : Server} (hserver : s.mSocket.isServer = true) {r : ServerRound}
    (hselected : r.selected ≠ -1) (hready : r.readyRecv = true) {source : SockAddr}
    {data : List UInt8} (hres : r.recvResult = .datagram source data) :
    (s.startRound r).1.mSocket.cliaddr = source := by
  unfold startRound
  rw [if_neg hselected, sendPart_mSocket, hready, hres, recvCommand_datagram hserver]
  rfl

/-- A round that may send and has a client builds the message of the counter. -/
theorem startRound_built {s : Server} {r : ServerRound} (hselected : r.selected ≠ -1)
    (hready : r.readySend = true) (hclient : (s.startRound r).1.mSocket.hasClient = true) :
    (s.startRound r).2.built = some (makeMessageDiv20 s.sendMsgCount) := by
  have hsend : ∀ t : Server, t.mSocket.hasClient = true →
      (t.sendPart r).2.built = some (makeMessageDiv20 t.sendMsgCount) := fun t ht => by
    unfold sendPart
    rw [ht, hready]
    rfl
  unfold startRound at hclient ⊢
  rw [if_neg hselected] at hclient ⊢
  rw [sendPart_mSocket] at hclient
  refine (hsend _ hclient).trans ?_
  split
  · rfl
  · rfl

/-- A round sends only if there is a client, and to that client. -/
theorem startRound_sent {s : Server} (hserver : s.mSocket.isServer = true) {r : ServerRound}
    {d : Datagram} (h : (s.startRound r).2.datagram = some d) :
    d.destination = (s.startRound r).1.mSocket.cliaddr ∧
      (s.startRound r).1.mSocket.hasClient = true := by
  have hsend : ∀ t : Server, t.mSocket.isServer = true → (t.sendPart r).2.datagram = some d →
      d.destination = (t.sendPart r).1.mSocket.cliaddr ∧
        (t.sendPart r).1.mSocket.hasClient = true := fun t ht hd => by
    rw [sendPart_mSocket]
    unfold sendPart at hd
    split at hd
    · rename_i hready
      rw [UDPSocket.sendBytes_datagram hd, UDPSocket.destination, ht]
      exact ⟨rfl, (Bool.and_eq_true_iff.mp hready).1⟩
    · cases hd
  unfold startRound at h ⊢
  split at h
  · cases h
  · rename_i hselected
    rw [if_neg hselected]
    refine hsend _ ?_ h
    split
    · rw [UDPSocket.isServer, recvCommand_mSocketType]
      exact hserver
    · exact hserver

end Server

end MessageTransmitter
