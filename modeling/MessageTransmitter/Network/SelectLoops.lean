import MessageTransmitter.Common.SelectSets
import MessageTransmitter.Library.Transition
import MessageTransmitter.Receiver.Client
import MessageTransmitter.Sender.Server

/-!
# The loops over the sets of `select`

`Server::start` and `Client::start` as they use the sets of their socket, and that what a round does
is decided by the latest answer to `select`.
-/

open Bytes Transition

namespace MessageTransmitter

/-- What the system does in one round of `Server::start`. -/
structure ServerCalls where
  select : SelectResult
  recvResult : RecvResult
  sendAccepted : Bool
  padding : Buffer 5

/-- What the system does in one round of `Client::start`. -/
structure ClientCalls where
  select : SelectResult
  sendAccepted : Bool
  recvResult : RecvResult
  padding : Buffer 5

/-- The second half of a round, over the sets that `select` has left. -/
def Server.selectSendPart (s : Server) (sets : SocketSets) (r : ServerCalls) :
    Except DescriptorFault ((Server × SocketSets) × ServerOutput) := do
  let readySend ← if s.mSocket.hasClient then s.mSocket.readySend sets else .ok false
  if readySend then
    let msg := makeMessageDiv20 s.sendMsgCount
    let sent := (s.sendMessage (msg.toRaw r.padding) r.sendAccepted).2
    return (({ s with sendMsgCount := s.sendMsgCount + 1 }, sets), ⟨some msg, sent⟩)
  else return ((s, sets), {})

def Server.selectRound (s : Server × SocketSets) (r : ServerCalls) :
    Except DescriptorFault ((Server × SocketSets) × ServerOutput) := do
  let (server, sets) := s
  let (nready, sets) ← server.mSocket.select sets r.select
  if nready = -1 then return ((server, sets), {})
  else
    let readyRecv ← server.mSocket.readyRecv sets
    let server := if readyRecv then (server.recvCommand r.recvResult).2 else server
    server.selectSendPart sets r

def Client.selectRound (s : Client × SocketSets) (r : ClientCalls) :
    Except DescriptorFault ((Client × SocketSets) × Option Datagram) := do
  let (client, sets) := s
  if !client.mUdpSocket.isOpen then return ((client, sets), none)
  else
    let (retval, sets) ← client.mUdpSocket.select sets r.select
    if retval = -1 then return ((client, sets), none)
    else if retval = 0 then return ((client, sets), none)
    else
      let readySend ← client.mUdpSocket.readySend sets
      let sent := if readySend then (client.sendCommand cmd r.sendAccepted).2 else none
      if !client.mUdpSocket.hasServer then return ((client, sets), sent)
      else
        let readyRecv ← client.mUdpSocket.readyRecv sets
        if readyRecv then return ((client.recvRound r.padding r.recvResult, sets), sent)
        else return ((client, sets), sent)

/-- The round that the answer of `select` makes of it for the socket `fd`. -/
def ServerCalls.round (fd : Int) (r : ServerCalls) : ServerRound where
  selected := (r.select.about fd).1
  readyRecv := (r.select.about fd).2.1
  recvResult := r.recvResult
  readySend := (r.select.about fd).2.2
  sendAccepted := r.sendAccepted
  padding := r.padding

def ClientCalls.round (fd : Int) (r : ClientCalls) : ClientRound where
  selected := (r.select.about fd).1
  readySend := (r.select.about fd).2.2
  sendAccepted := r.sendAccepted
  readyRecv := (r.select.about fd).2.1
  recvResult := r.recvResult
  padding := r.padding

/-- A datagram changes an address, and neither the descriptor nor whether the socket is open. -/
theorem UDPSocket.recvBytes_isOpen {n : ℕ} (s : UDPSocket) (p : Buffer n) (res : RecvResult) :
    (s.recvBytes p res).2.2.mSocket = s.mSocket ∧ (s.recvBytes p res).2.2.isOpen = s.isOpen := by
  cases res with
  | error => exact ⟨rfl, rfl⟩
  | datagram source data =>
    rw [recvBytes_datagram]
    dsimp only
    split
    · exact ⟨rfl, rfl⟩
    · exact ⟨rfl, rfl⟩

namespace Server

variable {s : Server} {sets : SocketSets}

theorem selectSendPart_ok {writable : Bool} (hwritable : s.mSocket.readySend sets = .ok writable)
    {r : ServerCalls} {r' : ServerRound} (hready : r'.readySend = writable)
    (haccepted : r'.sendAccepted = r.sendAccepted) (hpadding : r'.padding = r.padding) :
    s.selectSendPart sets r = .ok (((s.sendPart r').1, sets), (s.sendPart r').2) := by
  unfold selectSendPart sendPart
  rw [hwritable, hready, haccepted, hpadding]
  cases s.mSocket.hasClient with
  | false => rfl
  | true =>
    cases writable with
    | false => rfl
    | true => rfl

theorem selectRound_error (h : s.mSocket.mSocket < 0 ∨ fdSetSize ≤ s.mSocket.mSocket)
    (r : ServerCalls) : selectRound (s, sets) r = .error (.outOfRange s.mSocket.mSocket) := by
  rw [selectRound]
  dsimp only
  rw [UDPSocket.select_error h]
  rfl

theorem selectRound_ok (h : ¬ (s.mSocket.mSocket < 0 ∨ fdSetSize ≤ s.mSocket.mSocket))
    (r : ServerCalls) : ∃ sets', selectRound (s, sets) r =
      .ok (((s.startRound (r.round s.mSocket.mSocket)).1, sets'),
        (s.startRound (r.round s.mSocket.mSocket)).2) := by
  rw [selectRound]
  dsimp only
  rw [UDPSocket.select_ok h, startRound]
  show ∃ sets', (if (r.select.about s.mSocket.mSocket).1 = -1 then _ else _) = _
  by_cases hselected : (r.select.about s.mSocket.mSocket).1 = -1
  · rw [if_pos hselected, if_pos (show (r.round s.mSocket.mSocket).selected = -1 from hselected)]
    exact ⟨_, rfl⟩
  · rw [if_neg hselected, if_neg (show ¬ (r.round s.mSocket.mSocket).selected = -1 from hselected)]
    dsimp only
    rw [UDPSocket.readyRecv, fdIsset_single h]
    refine ⟨_, selectSendPart_ok ?_ rfl rfl rfl⟩
    have hfd : (if (r.round s.mSocket.mSocket).readyRecv then
        (s.recvCommand (r.round s.mSocket.mSocket).recvResult).2 else s).mSocket.mSocket =
        s.mSocket.mSocket := by
      split
      · exact (s.mSocket.recvBytes_isOpen _ r.recvResult).1
      · rfl
    -- the command does not change the descriptor
    exact (congrArg (fun fd => fdIsset fd _) hfd).trans (fdIsset_single h _)

theorem startRound_fd (s : Server) (r : ServerRound) :
    (s.startRound r).1.mSocket.mSocket = s.mSocket.mSocket := by
  unfold startRound
  split
  · rfl
  · rw [sendPart_mSocket]
    split
    · exact (s.mSocket.recvBytes_isOpen _ r.recvResult).1
    · rfl

/-- The server does not skip a round in which `select` has timed out, but it does nothing there. -/
theorem startRound_idle (s : Server) {fd : Int} {r : ServerCalls} (h : (r.select.about fd).1 ≤ 0) :
    s.startRound (r.round fd) = (s, {}) := by
  unfold startRound
  rcases SelectResult.about_idle h with herror | hflags
  · rw [if_pos (show (r.round fd).selected = -1 from herror)]
  · have hrecv : (r.round fd).readyRecv = false := congrArg Prod.fst hflags
    have hsend : (r.round fd).readySend = false := congrArg Prod.snd hflags
    have hidle : s.sendPart (r.round fd) = (s, {}) := by
      unfold sendPart
      rw [hsend, Bool.and_false]
      rfl
    split
    · rfl
    · dsimp only
      rw [hrecv]
      exact hidle

/-- What the server does over its sets, whatever they held at first. -/
theorem rounds_over_sets (s : Server) (sets : SocketSets) (calls : List ServerCalls) :
    (rounds selectRound (s, sets) calls).map (Prod.map Prod.fst id) =
      if calls ≠ [] ∧ (s.mSocket.mSocket < 0 ∨ fdSetSize ≤ s.mSocket.mSocket) then
        .error (.outOfRange s.mSocket.mSocket)
      else rounds (fun s r => .ok (s.startRound r)) s
        (calls.map (ServerCalls.round s.mSocket.mSocket)) := by
  by_cases hrange : s.mSocket.mSocket < 0 ∨ fdSetSize ≤ s.mSocket.mSocket
  · by_cases hne : calls = []
    · rw [if_neg fun h => h.1 hne, hne]
      rfl
    · rw [if_pos ⟨hne, hrange⟩, rounds_error hne (selectRound_error hrange)]
      rfl
  · rw [if_neg fun h => hrange h.2]
    apply rounds_fst (fun t => t.mSocket.mSocket = s.mSocket.mSocket) _ rfl
    · intro t sets' r ht
      rw [← ht] at hrange ⊢
      exact selectRound_ok hrange r
    · intro t r ht
      rw [startRound_fd, ht]

end Server

namespace Client

variable {c : Client} {sets : SocketSets}

theorem selectRound_error (hopen : c.mUdpSocket.isOpen = true)
    (h : fdSetSize ≤ c.mUdpSocket.mSocket) (r : ClientCalls) :
    selectRound (c, sets) r = .error (.outOfRange c.mUdpSocket.mSocket) := by
  rw [selectRound]
  dsimp only
  rw [hopen, UDPSocket.select_error (.inr h)]
  rfl

theorem selectRound_ok (h : ¬ (c.mUdpSocket.isOpen = true ∧ fdSetSize ≤ c.mUdpSocket.mSocket))
    (r : ClientCalls) : ∃ sets', selectRound (c, sets) r =
      .ok (((c.startRound (r.round c.mUdpSocket.mSocket)).1, sets'),
        (c.startRound (r.round c.mUdpSocket.mSocket)).2) := by
  rw [selectRound, startRound]
  cases hopen : c.mUdpSocket.isOpen with
  | false => exact ⟨_, rfl⟩
  | true =>
    have hpositive : 0 < c.mUdpSocket.mSocket :=
      of_decide_eq_true (Bool.and_eq_true_iff.mp hopen).1
    have hrange : ¬ (c.mUdpSocket.mSocket < 0 ∨ fdSetSize ≤ c.mUdpSocket.mSocket) := by
      rintro (hneg | hlarge)
      · omega
      · exact h ⟨hopen, hlarge⟩
    simp only [Bool.not_true, Bool.false_eq_true, if_false]
    rw [UDPSocket.select_ok hrange, ClientCalls.round]
    generalize r.select.about c.mUdpSocket.mSocket = answer
    obtain ⟨retval, readable, writable⟩ := answer
    show ∃ sets', (if retval = -1 then _ else if retval = 0 then _ else _) = _
    dsimp only
    split
    · exact ⟨_, rfl⟩
    · split
      · exact ⟨_, rfl⟩
      · rw [UDPSocket.readySend, fdIsset_single hrange]
        show ∃ sets', (if !c.mUdpSocket.hasServer then _ else _) = _
        cases hserver : c.mUdpSocket.hasServer with
        | false => exact ⟨_, rfl⟩
        | true =>
          rw [UDPSocket.readyRecv, fdIsset_single hrange]
          cases readable with
          | false => exact ⟨_, rfl⟩
          | true => exact ⟨_, rfl⟩

/-- A failure of `select` and a timeout are only logged. -/
theorem startRound_idle (c : Client) {fd : Int} {r : ClientCalls}
    (h : (r.select.about fd).1 ≤ 0) : c.startRound (r.round fd) = (c, none) := by
  unfold startRound
  rcases SelectResult.about_idle h with herror | hflags
  · rw [if_pos (show (r.round fd).selected = -1 from herror)]
    split <;> rfl
  · have hrecv : (r.round fd).readyRecv = false := congrArg Prod.fst hflags
    have hsend : (r.round fd).readySend = false := congrArg Prod.snd hflags
    simp only [hrecv, hsend, Bool.false_eq_true, if_false]
    split_ifs <;> rfl

theorem startRound_isOpen (c : Client) (r : ClientRound) :
    (c.startRound r).1.mUdpSocket.mSocket = c.mUdpSocket.mSocket ∧
      (c.startRound r).1.mUdpSocket.isOpen = c.mUdpSocket.isOpen := by
  rcases startRound_fst c r with hsame | hrecv
  · rw [hsame]
    exact ⟨rfl, rfl⟩
  · have hsocket :=
      c.mUdpSocket.recvBytes_isOpen (({} : MessageFormat).toRaw r.padding) r.recvResult
    rw [hrecv, recvRound]
    dsimp only
    split
    · rw [receive_mUdpSocket]
      exact hsocket
    · exact hsocket

/-- What the UDP threads do over the sets that they share, whatever these held at first. -/
theorem rounds_over_sets (c : Client) (sets : SocketSets) (calls : List ClientCalls) :
    (rounds selectRound (c, sets) calls).map (Prod.map Prod.fst id) =
      if calls ≠ [] ∧ c.mUdpSocket.isOpen = true ∧ fdSetSize ≤ c.mUdpSocket.mSocket then
        .error (.outOfRange c.mUdpSocket.mSocket)
      else rounds (fun c r => .ok (c.startRound r)) c
        (calls.map (ClientCalls.round c.mUdpSocket.mSocket)) := by
  by_cases hrange : c.mUdpSocket.isOpen = true ∧ fdSetSize ≤ c.mUdpSocket.mSocket
  · by_cases hne : calls = []
    · rw [if_neg fun h => h.1 hne, hne]
      rfl
    · rw [if_pos ⟨hne, hrange⟩, rounds_error hne (selectRound_error hrange.1 hrange.2)]
      rfl
  · rw [if_neg fun h => hrange h.2]
    apply rounds_fst (fun d => d.mUdpSocket.mSocket = c.mUdpSocket.mSocket ∧
      d.mUdpSocket.isOpen = c.mUdpSocket.isOpen) _ ⟨rfl, rfl⟩
    · rintro d sets' r ⟨hd, hopen⟩
      rw [← hd, ← hopen] at hrange
      rw [← hd]
      exact selectRound_ok hrange r
    · rintro d r ⟨hd, hopen⟩
      rw [(startRound_isOpen d _).1, (startRound_isOpen d _).2]
      exact ⟨hd, hopen⟩

end Client

/-- Both loops do what their rounds do on the latest answers of `select`, whatever the sets held at
first, and fault exactly on a descriptor that has no bit; the client's check of its socket excludes
the negative ones.  A round in which `select` fails or times out changes nothing, although the server
goes on after a timeout. -/
theorem start_over_sets (s : Server) (c : Client) (sets : SocketSets) (toServer : List ServerCalls)
    (toClient : List ClientCalls) :
    (rounds Server.selectRound (s, sets) toServer).map (Prod.map Prod.fst id) =
        (if toServer ≠ [] ∧ (s.mSocket.mSocket < 0 ∨ fdSetSize ≤ s.mSocket.mSocket) then
          .error (.outOfRange s.mSocket.mSocket)
        else rounds (fun s r => .ok (s.startRound r)) s
          (toServer.map (ServerCalls.round s.mSocket.mSocket))) ∧
      (rounds Client.selectRound (c, sets) toClient).map (Prod.map Prod.fst id) =
        (if toClient ≠ [] ∧ c.mUdpSocket.isOpen = true ∧ fdSetSize ≤ c.mUdpSocket.mSocket then
          .error (.outOfRange c.mUdpSocket.mSocket)
        else rounds (fun c r => .ok (c.startRound r)) c
          (toClient.map (ClientCalls.round c.mUdpSocket.mSocket))) ∧
      (∀ r : ServerCalls, (r.select.about s.mSocket.mSocket).1 ≤ 0 →
        s.startRound (r.round s.mSocket.mSocket) = (s, {})) ∧
      ∀ r : ClientCalls, (r.select.about c.mUdpSocket.mSocket).1 ≤ 0 →
        c.startRound (r.round c.mUdpSocket.mSocket) = (c, none) :=
  ⟨s.rounds_over_sets sets toServer, c.rounds_over_sets sets toClient,
    fun _ h => s.startRound_idle h, fun _ h => c.startRound_idle h⟩

end MessageTransmitter
