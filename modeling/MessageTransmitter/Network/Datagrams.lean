import MessageTransmitter.Library.Transition
import MessageTransmitter.Receiver.Client
import MessageTransmitter.Sender.Server

/-!
# Datagrams of any length

What the two receive loops do with a datagram from anyone.  `recv_bytes` reports every datagram as
received, so one that is too short leaves part of the buffer as it was, and one that is too long
loses its end: only datagrams of the expected length are treated as the whole value they encode.
-/

open Bytes Transition

namespace MessageTransmitter

namespace Client

/-- Of the datagrams of all lengths only a complete message is saved and queued, and any other is
reported as a failure and changes neither container. -/
structure OnlyComplete (c : Client) (padding : Buffer 5) (source : SockAddr) (data : List UInt8) :
    Prop where
  complete : ∀ h : data.length = messageFormatSize,
    let msg := MessageFormat.ofRaw ⟨data, h⟩
    (c.recvRound padding (.datagram source data)).mContainer = (c.receive msg).mContainer ∧
      (c.recvRound padding (.datagram source data)).mContainerTcpQueue =
        (c.receive msg).mContainerTcpQueue
  incomplete : data.length ≠ messageFormatSize →
    (c.recvMessage (({} : MessageFormat).toRaw padding) (.datagram source data)).1 = false ∧
      (c.recvRound padding (.datagram source data)).mContainer = c.mContainer ∧
      (c.recvRound padding (.datagram source data)).mContainerTcpQueue = c.mContainerTcpQueue

theorem mSocketType_of_run {socket : Int} {connected inProgress : Bool} {events : List Event}
    {c : Client} (h : Run (ofExcept step) (construct socket connected inProgress) events c) :
    c.mUdpSocket.mSocketType = .client :=
  h.invariant (fun d => d.mUdpSocket.mSocketType = .client) rfl
    fun hd hstep => (step_mSocketType hstep).trans hd

theorem onlyComplete_iff {c : Client} (hc : c.mUdpSocket.mSocketType = .client)
    (padding : Buffer 5) (source : SockAddr) (data : List UInt8) :
    c.OnlyComplete padding source data ↔ data.length = messageFormatSize := by
  have hclient : c.mUdpSocket.isServer = false := by
    rw [UDPSocket.isServer, hc]
    rfl
  have hrecv := recvRound_datagram hclient padding source data
  apply Iff.intro
  · intro h
    by_contra hlen
    -- the one thing that is never reported is a failure
    have hfailed := (h.incomplete hlen).1
    rw [recvMessage, UDPSocket.recvBytes_datagram] at hfailed
    cases hfailed
  · intro hlen
    refine ⟨fun h => ?_, fun hne => absurd hlen hne⟩
    have hfull : (({} : MessageFormat).toRaw padding).fill data = ⟨data, h⟩ :=
      Buffer.ext (Buffer.fill_of_length_eq _ h)
    simp only [hrecv, hfull, receive_mContainer, receive_queue, and_self]

end Client

namespace Server

/-- Of the datagrams of all lengths only a complete command is taken over, and any other is reported
as a failure and leaves the last command in place. -/
structure OnlyComplete (s : Server) (source : SockAddr) (data : List UInt8) : Prop where
  complete : ∀ h : data.length = commandSize,
    (s.recvCommand (.datagram source data)).2.clientCmdID = commandOfRaw ⟨data, h⟩
  incomplete : data.length ≠ commandSize →
    (s.recvCommand (.datagram source data)).1 = false ∧
      (s.recvCommand (.datagram source data)).2.clientCmdID = s.clientCmdID

theorem mSocketType_of_run {socket : Int} {bound : Bool} {rounds : List ServerRound} {s : Server}
    (h : Run Step (construct socket bound) rounds s) :
    s.mSocket.mSocketType = .server :=
  h.invariant (fun t => t.mSocket.mSocketType = .server) rfl fun ht hstep => by
    rw [hstep, startRound_mSocketType, ht]

theorem onlyComplete_iff {s : Server} (hs : s.mSocket.mSocketType = .server) (source : SockAddr)
    (data : List UInt8) : s.OnlyComplete source data ↔ data.length = commandSize := by
  have hserver : s.mSocket.isServer = true := by
    rw [UDPSocket.isServer, hs]
    rfl
  have hrecv := recvCommand_datagram hserver source data
  apply Iff.intro
  · intro h
    by_contra hlen
    have hfailed := (h.incomplete hlen).1
    rw [hrecv] at hfailed
    cases hfailed
  · intro hlen
    refine ⟨fun h => ?_, fun hne => absurd hlen hne⟩
    have hfull : (commandToRaw s.clientCmdID).fill data = ⟨data, h⟩ :=
      Buffer.ext (Buffer.fill_of_length_eq _ h)
    rw [hrecv, hfull]

end Server

/-- In every reachable state of the client and of the server, exactly the datagrams of the expected
length are dealt with as a program that accepts only complete ones would. -/
theorem complete_datagrams_iff {clientSocket serverSocket : Int} {connected inProgress bound : Bool}
    {events : List Client.Event} {rounds : List ServerRound} {c : Client} {s : Server}
    (hc : Run (ofExcept Client.step) (Client.construct clientSocket connected inProgress) events c)
    (hs : Run Server.Step (Server.construct serverSocket bound) rounds s)
    (padding : Buffer 5) (source : SockAddr) (data : List UInt8) :
    (c.OnlyComplete padding source data ↔ data.length = messageFormatSize) ∧
      (s.OnlyComplete source data ↔ data.length = commandSize) :=
  ⟨Client.onlyComplete_iff (Client.mSocketType_of_run hc) padding source data,
    Server.onlyComplete_iff (Server.mSocketType_of_run hs) source data⟩

/-- A client that has stored message 3 and a server that has heard the sync command deal rightly with
a further message and a further command, and with nothing that is shorter or longer. -/
theorem complete_datagrams_iff_lengths :
    let pad : Buffer 5 := ⟨[0, 0, 0, 0, 0], rfl⟩
    let store : ClientRound :=
      ⟨1, false, false, true, .datagram serverAddr ((makeMessageWithId 3).toRaw pad).bytes, pad⟩
    let hear : ServerRound :=
      ⟨1, true, .datagram ⟨afInet, loopbackAddr, 4096⟩ (commandToRaw Client.cmd).bytes, false, false, pad⟩
    let message := ((makeMessageWithId 10).toRaw pad).bytes
    let command := (commandToRaw Client.cmd).bytes
    ∃ c s, Run (ofExcept Client.step) (Client.construct 3 true false) [.udp store] c ∧
      Run Server.Step (Server.construct 3 true) [hear] s ∧
      c.mContainer.contains 3 = true ∧ s.clientCmdID = Client.cmd ∧
      c.OnlyComplete pad serverAddr message ∧ ¬ c.OnlyComplete pad serverAddr (message.take 16) ∧
      ¬ c.OnlyComplete pad serverAddr (message ++ [0]) ∧ s.OnlyComplete serverAddr command ∧
      ¬ s.OnlyComplete serverAddr [7] := by
  intro pad store hear message command
  have hc : Run (ofExcept Client.step) (Client.construct 3 true false) [.udp store]
      ((Client.construct 3 true false).startRound store).1 := Run.nil.snoc rfl
  have hs : Run Server.Step (Server.construct 3 true) [hear]
      ((Server.construct 3 true).startRound hear).1 := Run.nil.snoc rfl
  have h := complete_datagrams_iff hc hs pad serverAddr
  have hmessage : message.length = messageFormatSize := ((makeMessageWithId 10).toRaw pad).length_eq
  refine ⟨_, _, hc, hs, by decide +kernel, by decide +kernel, (h message).1.mpr hmessage,
    fun hshort => ?_, fun hlong => ?_, (h command).2.mpr (commandToRaw Client.cmd).length_eq,
    fun hbyte => absurd ((h [7]).2.mp hbyte) (by decide)⟩
  · have hlen := (h _).1.mp hshort
    rw [List.length_take, hmessage] at hlen
    exact absurd hlen (by decide)
  · have hlen := (h _).1.mp hlong
    rw [List.length_append, hmessage] at hlen
    exact absurd hlen (by decide)

/-- An empty datagram makes the client save a message that nobody sent under the id 0, and a datagram
of one byte changes the server's command from -1 to -249. -/
theorem complete_datagrams_broken :
    let c := Client.construct 3 true false
    let s := Server.construct 3 true
    let pad : Buffer 5 := ⟨[0, 0, 0, 0, 0], rfl⟩
    c.mContainer.contains 0 = false ∧
      (c.recvRound pad (.datagram {} [])).mContainer.contains 0 = true ∧
      s.clientCmdID = -1 ∧ (s.recvCommand (.datagram {} [7])).2.clientCmdID = -249 ∧
      ¬ c.OnlyComplete pad {} [] ∧ ¬ s.OnlyComplete {} [7] := by
  intro c s pad
  refine ⟨by decide, by decide, by decide, by decide, fun hc => ?_, fun hs => ?_⟩
  · exact absurd (hc.incomplete (by decide)).1 (by decide)
  · exact absurd (hs.incomplete (by decide)).1 (by decide)

end MessageTransmitter
