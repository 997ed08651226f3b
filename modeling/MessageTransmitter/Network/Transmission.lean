import MessageTransmitter.Network.Datagrams

/-!
# One server, one client and the network

Runs of both programs over a network that may lose, repeat and reorder datagrams but neither makes
them up nor alters them.  Rounds are taken as atomic: a round that sends and then receives is also
a round that only sends followed by one that only receives, so nothing the network does in
between is left out.
-/

open Bytes SortedAssoc Transition

namespace MessageTransmitter

structure Packet where
  source : SockAddr
  destination : SockAddr
  data : List UInt8
  deriving DecidableEq, Repr

/-- Both programs, the datagrams in flight, and what has happened so far. -/
structure Transmission where
  server : Server
  client : Client
  network : List Packet := []
  -- The messages built by the server, in order.
  built : List MessageFormat := []
  -- The rounds of `sendViaTcpSocket`, in order.
  outcomes : List SendOutcome := []

namespace Transmission

inductive Event where
  | server (r : ServerRound)
  -- a round of `Client::start` in some UDP thread
  | client (r : ClientRound)
  -- a round of `sendViaTcpSocket`
  | tcp (res : StreamResult)
  | drop (p : Packet)

/-- What `recvfrom` may return at an address: a failure, or a datagram in flight to it.  A datagram
stays in flight when it is received, it may arrive again. -/
def Delivers (s : Transmission) (addr : SockAddr) : RecvResult → Prop
  | .error => True
  | .datagram source data => ⟨source, addr, data⟩ ∈ s.network

instance (s : Transmission) (addr : SockAddr) : DecidablePred (s.Delivers addr)
  | .error => isTrue trivial
  | .datagram source data => inferInstanceAs (Decidable (⟨source, addr, data⟩ ∈ s.network))

def Possible (clientAddr : SockAddr) (s : Transmission) : Event → Prop
  | .server r => s.Delivers serverAddr r.recvResult
  | .client r => s.Delivers clientAddr r.recvResult
  | _ => True

instance (clientAddr : SockAddr) (s : Transmission) : DecidablePred (s.Possible clientAddr)
  | .server r => inferInstanceAs (Decidable (s.Delivers serverAddr r.recvResult))
  | .client r => inferInstanceAs (Decidable (s.Delivers clientAddr r.recvResult))
  | .tcp _ => isTrue trivial
  | .drop _ => isTrue trivial

/-- What a program hands to the network leaves with the address of its socket. -/
def packets (source : SockAddr) (d : Option Datagram) : List Packet :=
  (d.map fun d => ⟨source, d.destination, d.data⟩).toList

def afterServer (s : Transmission) (server : Server) (out : ServerOutput) : Transmission :=
  { s with
    server := server
    network := s.network ++ packets serverAddr out.datagram
    built := s.built ++ out.built.toList }

def afterClient (clientAddr : SockAddr) (s : Transmission) (client : Client)
    (sent : Option Datagram) : Transmission :=
  { s with
    client := client
    network := s.network ++ packets clientAddr sent }

def afterTcp (s : Transmission) (client : Client) (outcome : SendOutcome) : Transmission :=
  { s with
    client := client
    outcomes := s.outcomes ++ [outcome] }

def next (clientAddr : SockAddr) (s : Transmission) : Event → Except Fault Transmission
  -- a round builds and sends at most one message
  | .server r => .ok (s.afterServer (s.server.startRound r).1 (s.server.startRound r).2)
  | .client r =>
      .ok (s.afterClient clientAddr (s.client.startRound r).1 (s.client.startRound r).2)
  | .tcp res =>
      -- the wait on `m_cv_tcp` goes on while the queue is empty
      if s.client.mContainerTcpQueue.empty then .ok s
      else (s.client.sendRound res).map fun p => s.afterTcp p.1 p.2
  | .drop p => .ok { s with network := s.network.erase p }

abbrev Step (clientAddr : SockAddr) : Transmission → Event → Transmission → Prop :=
  Guarded (Possible clientAddr) (ofExcept (next clientAddr))

def start (serverSocket clientSocket : Int) (bound connected inProgress : Bool) :
    Transmission where
  server := Server.construct serverSocket bound
  client := Client.construct clientSocket connected inProgress

/-! ## The server's end -/

/-- The first `n` messages of a server: the counter wraps at the width of `size_t`. -/
def stream (n : ℕ) : List MessageFormat :=
  (List.range n).map fun i => makeMessageDiv20 (UInt64.ofNat i)

theorem stream_succ (n : ℕ) : stream (n + 1) = stream n ++ [makeMessageDiv20 (UInt64.ofNat n)] := by
  rw [stream, stream, List.range_succ, List.map_append, List.map_singleton]

theorem messageId_of_mem_stream {n : ℕ} {msg : MessageFormat} (h : msg ∈ stream n) :
    msg.messageId = msg.messageData % 20 := by
  obtain ⟨i, -, rfl⟩ := List.mem_map.mp h
  rfl

/-- What the server has built is its stream, up to its counter. -/
structure Streamed (server : Server) (built : List MessageFormat) : Prop where
  counter : server.sendMsgCount = UInt64.ofNat built.length
  generated : built = stream built.length

theorem Streamed.messageId {server : Server} {built : List MessageFormat}
    (h : Streamed server built) {msg : MessageFormat} (hmsg : msg ∈ built) :
    msg.messageId = msg.messageData % 20 :=
  messageId_of_mem_stream (h.generated ▸ hmsg)

theorem Streamed.startRound {server : Server} {built : List MessageFormat}
    (h : Streamed server built) (r : ServerRound) :
    Streamed (server.startRound r).1 (built ++ (server.startRound r).2.built.toList) := by
  rcases Server.startRound_output server r with ⟨hnone, hcount⟩ | ⟨hbuilt, hcount, -⟩
  · rw [hnone, Option.toList_none, List.append_nil]
    exact ⟨hcount.trans h.counter, h.generated⟩
  · rw [hbuilt, Option.toList_some]
    refine ⟨?_, ?_⟩
    · rw [List.length_append, List.length_singleton, UInt64.ofNat_add, ← h.counter]
      exact hcount
    · rw [List.length_append, List.length_singleton, stream_succ, ← h.generated, ← h.counter]

/-- A datagram of the server carries the message that its round has built. -/
theorem built_of_sent {server : Server} {r : ServerRound} {d : Datagram}
    (h : (server.startRound r).2.datagram = some d) :
    ∃ msg pad, (server.startRound r).2.built = some msg ∧ d.data = (msg.toRaw pad).bytes := by
  rcases Server.startRound_output server r with ⟨hnone, -⟩ | ⟨hbuilt, -, hdata⟩
  · rw [hnone] at h
    cases h
  · exact ⟨_, _, hbuilt, hdata d h⟩

theorem mem_packets {source : SockAddr} {d : Option Datagram} {p : Packet}
    (h : p ∈ packets source d) :
    ∃ dg, d = some dg ∧ p = ⟨source, dg.destination, dg.data⟩ := by
  rw [packets, Option.mem_toList, Option.map_eq_some_iff] at h
  obtain ⟨dg, hd, rfl⟩ := h
  exact ⟨dg, hd, rfl⟩

/-! ## A client's end -/

/-- Everything in the client's two containers is among the messages. -/
structure Genuine (msgs : List MessageFormat) (c : Client) : Prop where
  validStore : c.mContainer.mPimpl.Valid
  store : ∀ e ∈ c.mContainer.mPimpl.contents, e.2.messageId = e.1 ∧ e.2 ∈ msgs
  validQueue : c.mContainerTcpQueue.mPimpl.Valid
  queue : ∀ e ∈ c.mContainerTcpQueue.mPimpl.contents, e.2.messageId = tcpResendID ∧ e.2 ∈ msgs

theorem Genuine.mono {msgs msgs' : List MessageFormat} {c : Client} (h : Genuine msgs c)
    (hsub : ∀ msg ∈ msgs, msg ∈ msgs') : Genuine msgs' c :=
  ⟨h.validStore, fun e he => ⟨(h.store e he).1, hsub _ (h.store e he).2⟩, h.validQueue,
    fun e he => ⟨(h.queue e he).1, hsub _ (h.queue e he).2⟩⟩

theorem Genuine.receive {msgs : List MessageFormat} {c : Client} (h : Genuine msgs c)
    {msg : MessageFormat} (hmsg : msg ∈ msgs) : Genuine msgs (c.receive msg) := by
  have hstore : (c.receive msg).mContainer.mPimpl.contents =
      insertNew msg.messageId msg c.mContainer.mPimpl.contents := by
    rw [Client.receive_mContainer]
    exact h.validStore.contents_insert _ _
  have hqueue := Client.receive_queue c msg
  refine ⟨?_, fun e he => ?_, ?_, fun e he => ?_⟩
  · rw [Client.receive_mContainer]
    exact h.validStore.insert _ _
  · rw [hstore] at he
    rcases mem_insertNew he with rfl | he
    · exact ⟨rfl, hmsg⟩
    · exact h.store e he
  · rw [hqueue]
    split
    · exact h.validQueue.insert _ _
    · exact h.validQueue
  · rw [hqueue] at he
    split at he
    · rename_i hreq
      rw [show (c.mContainerTcpQueue.insert c.mContainerTcpQueue.size msg).mPimpl.contents =
        insertNew c.mContainerTcpQueue.size msg c.mContainerTcpQueue.mPimpl.contents from
          h.validQueue.contents_insert _ _] at he
      rcases mem_insertNew he with rfl | he
      · exact ⟨by simpa [Client.sendViaTcpRequired] using hreq, hmsg⟩
      · exact h.queue e he
    · exact h.queue e he

theorem Genuine.sendRound {msgs : List MessageFormat} {c d : Client} (h : Genuine msgs c)
    (hempty : c.mContainerTcpQueue.empty = false) {res : StreamResult} {o : SendOutcome}
    (hround : c.sendRound res = .ok (d, o)) :
    Genuine msgs d ∧ o.msg.messageId = tcpResendID ∧ o.msg ∈ msgs := by
  obtain ⟨⟨k, v⟩, es, he⟩ :=
    List.exists_cons_of_ne_nil (h.validQueue.contents_ne_nil hempty)
  rw [Client.sendRound_of_cons h.validQueue he res] at hround
  obtain ⟨rfl, rfl⟩ := Prod.mk.inj (Except.ok.inj hround)
  refine ⟨⟨h.validStore, h.store, h.validQueue.remove k, fun e hmem => h.queue e ?_⟩,
    h.queue (k, v) (he ▸ List.mem_cons_self)⟩
  rw [show (c.mContainerTcpQueue.remove k).mPimpl.contents = es from
    h.validQueue.contents_remove_front he] at hmem
  rw [he]
  exact List.mem_cons_of_mem _ hmem

/-- A datagram from the server with one of the messages. -/
def Carries (msgs : List MessageFormat) (source : SockAddr) (data : List UInt8) : Prop :=
  source = serverAddr ∧ ∃ msg ∈ msgs, ∃ pad, data = (msg.toRaw pad).bytes

theorem Carries.mono {msgs msgs' : List MessageFormat} {source : SockAddr} {data : List UInt8}
    (h : Carries msgs source data) (hsub : ∀ msg ∈ msgs, msg ∈ msgs') :
    Carries msgs' source data := by
  obtain ⟨hsource, msg, hmsg, hdata⟩ := h
  exact ⟨hsource, msg, hsub msg hmsg, hdata⟩

/-- The client talks to the server, and what it holds and what it took for TCP is among the
messages. -/
structure Fed (msgs : List MessageFormat) (c : Client) (outcomes : List SendOutcome) : Prop where
  isClient : c.mUdpSocket.mSocketType = .client
  peer : c.mUdpSocket.servaddr = serverAddr
  genuine : Genuine msgs c
  forwarded : ∀ o ∈ outcomes, o.msg.messageId = tcpResendID ∧ o.msg ∈ msgs

theorem fed_construct (msgs : List MessageFormat) (socket : Int) (connected inProgress : Bool) :
    Fed msgs (Client.construct socket connected inProgress) [] where
  isClient := rfl
  peer := rfl
  genuine := ⟨BstImpl.valid_empty, fun _ he => absurd he List.not_mem_nil, BstImpl.valid_empty,
    fun _ he => absurd he List.not_mem_nil⟩
  forwarded := fun _ ho => absurd ho List.not_mem_nil

namespace Fed

variable {msgs : List MessageFormat} {c : Client} {outcomes : List SendOutcome}

theorem mono {msgs' : List MessageFormat} (h : Fed msgs c outcomes)
    (hsub : ∀ msg ∈ msgs, msg ∈ msgs') : Fed msgs' c outcomes :=
  ⟨h.isClient, h.peer, h.genuine.mono hsub,
    fun o ho => ⟨(h.forwarded o ho).1, hsub _ (h.forwarded o ho).2⟩⟩

theorem startRound (h : Fed msgs c outcomes) {r : ClientRound}
    (hcarries : ∀ source data, r.recvResult = .datagram source data → Carries msgs source data) :
    Fed msgs (c.startRound r).1 outcomes := by
  have hclient : c.mUdpSocket.isServer = false := by
    rw [UDPSocket.isServer, h.isClient]
    rfl
  rcases Client.startRound_fst c r with hsame | hrecv
  · rw [hsame]
    exact h
  · rw [hrecv]
    cases hres : r.recvResult with
    | error =>
      rw [Client.recvRound_error]
      exact h
    | datagram source data =>
      obtain ⟨hsource, msg, hmsg, pad, hdata⟩ := hcarries source data hres
      -- the datagram is a whole message, so the buffer ends up holding that message
      have hlen : data.length = messageFormatSize :=
        (congrArg List.length hdata).trans (msg.toRaw pad).length_eq
      have hfull : (({} : MessageFormat).toRaw r.padding).fill data = msg.toRaw pad :=
        Buffer.ext ((Buffer.fill_of_length_eq _ hlen).trans hdata)
      rw [Client.recvRound_datagram hclient, hfull, MessageFormat.ofRaw_toRaw]
      have hpeer : Genuine msgs
          { c with mUdpSocket := { c.mUdpSocket with servaddr := source } } :=
        ⟨h.genuine.validStore, h.genuine.store, h.genuine.validQueue, h.genuine.queue⟩
      refine ⟨?_, ?_, hpeer.receive hmsg, h.forwarded⟩
      · rw [Client.receive_mUdpSocket]
        exact h.isClient
      · rw [Client.receive_mUdpSocket]
        exact hsource

/-- What the client sends is the sync command, and it goes to the server. -/
theorem packets (h : Fed msgs c outcomes) {addr : SockAddr} {r : ClientRound} {p : Packet}
    (hp : p ∈ Transmission.packets addr (c.startRound r).2) :
    p = ⟨addr, serverAddr, (commandToRaw Client.cmd).bytes⟩ := by
  obtain ⟨d, hd, rfl⟩ := mem_packets hp
  rw [Client.startRound_snd hd, ← h.peer, UDPSocket.destination, UDPSocket.isServer, h.isClient]
  rfl

theorem sendRound (h : Fed msgs c outcomes) (hempty : c.mContainerTcpQueue.empty = false)
    {res : StreamResult} {d : Client} {o : SendOutcome} (hround : c.sendRound res = .ok (d, o)) :
    Fed msgs d (outcomes ++ [o]) := by
  obtain ⟨hgenuine, hout⟩ := h.genuine.sendRound hempty hround
  obtain ⟨index, -, -, rfl⟩ := Client.sendRound_ok hround
  refine ⟨h.isClient, h.peer, hgenuine, fun o' ho => ?_⟩
  rcases List.mem_append.mp ho with ho | ho
  · exact h.forwarded o' ho
  · rw [List.mem_singleton.mp ho]
    exact hout

section Store

variable (hids : ∀ msg ∈ msgs, msg.messageId = msg.messageData % 20)

include hids

theorem stored (h : Fed msgs c outcomes) {k : UInt64} {v : MessageFormat}
    (hk : (k, v) ∈ c.mContainer.mPimpl.contents) :
    k < 20 ∧ v.messageId = k ∧ v.messageData % 20 = k ∧ v ∈ msgs := by
  obtain ⟨hid, hmsg⟩ : v.messageId = k ∧ v ∈ msgs := h.genuine.store (k, v) hk
  have hdata := hids v hmsg
  refine ⟨?_, hid, hdata.symm.trans hid, hmsg⟩
  rw [← hid, hdata]
  exact UInt64.mod_lt _ (by decide)

theorem size_le (h : Fed msgs c outcomes) : c.mContainer.size.toNat ≤ 20 := by
  -- twenty ids make at most twenty entries
  have hsub : keys c.mContainer.mPimpl.contents ⊆ (Finset.range 20).image UInt64.ofNat := by
    intro k hk
    obtain ⟨v, hv⟩ := mem_keys.mp hk
    have hlt : k.toNat < 20 := UInt64.lt_iff_toNat_lt.mp (h.stored hids hv).1
    exact Finset.mem_image.mpr ⟨k.toNat, Finset.mem_range.mpr hlt, UInt64.ofNat_toNat⟩
  have hcard : (keys c.mContainer.mPimpl.contents).card ≤ 20 :=
    (Finset.card_le_card hsub).trans Finset.card_image_le
  rw [Container.size, h.genuine.validStore.size_eq, UInt64.toNat_ofNat']
  exact (Nat.mod_le _ _).trans hcard

/-- What is taken for TCP is a message with the id to forward. -/
theorem taken (h : Fed msgs c outcomes) {o : SendOutcome} (ho : o ∈ outcomes) :
    o.msg.messageId = tcpResendID ∧ o.msg.messageData % 20 = tcpResendID ∧ o.msg ∈ msgs := by
  obtain ⟨hid, hmsg⟩ := h.forwarded o ho
  exact ⟨hid, (hids o.msg hmsg).symm.trans hid, hmsg⟩

end Store

end Fed

/-! ## The invariant -/

/-- What is in flight to the client comes from the server's address and carries a message it built;
so the client keeps the server's address, and holds only what was built. -/
structure Sound (clientAddr : SockAddr) (s : Transmission) : Prop where
  streamed : Streamed s.server s.built
  fed : Fed s.built s.client s.outcomes
  inFlight : ∀ p ∈ s.network, p.destination = clientAddr → Carries s.built p.source p.data

theorem Sound.ids {clientAddr : SockAddr} {s : Transmission} (h : s.Sound clientAddr) :
    ∀ msg ∈ s.built, msg.messageId = msg.messageData % 20 := fun _ => h.streamed.messageId

theorem sound_server {clientAddr : SockAddr} {s : Transmission} (h : s.Sound clientAddr)
    (r : ServerRound) :
    (s.afterServer (s.server.startRound r).1 (s.server.startRound r).2).Sound clientAddr := by
  have hsub : ∀ msg ∈ s.built, msg ∈ s.built ++ (s.server.startRound r).2.built.toList :=
    fun _ hmsg => List.mem_append_left _ hmsg
  refine ⟨h.streamed.startRound r, h.fed.mono hsub, fun p hp hdest => ?_⟩
  rcases List.mem_append.mp hp with hp | hp
  · exact (h.inFlight p hp hdest).mono hsub
  · obtain ⟨d, hd, rfl⟩ := mem_packets hp
    obtain ⟨msg, pad, hbuilt, hdata⟩ := built_of_sent hd
    refine ⟨rfl, msg, List.mem_append_right _ ?_, pad, hdata⟩
    rw [hbuilt]
    exact List.mem_singleton_self msg

theorem sound_client {clientAddr : SockAddr} (hdistinct : clientAddr ≠ serverAddr)
    {s : Transmission} (h : s.Sound clientAddr) {r : ClientRound}
    (hdelivers : s.Delivers clientAddr r.recvResult) :
    (s.afterClient clientAddr (s.client.startRound r).1 (s.client.startRound r).2).Sound
      clientAddr := by
  refine ⟨h.streamed, h.fed.startRound fun source data hres => ?_, fun p hp hdest => ?_⟩
  · rw [hres] at hdelivers
    exact h.inFlight _ hdelivers rfl
  rcases List.mem_append.mp hp with hp | hp
  · exact h.inFlight p hp hdest
  · -- what the client sends goes to the server, never to itself
    rw [h.fed.packets hp] at hdest
    exact absurd hdest.symm hdistinct

theorem sound_step {clientAddr : SockAddr} (hdistinct : clientAddr ≠ serverAddr)
    {s t : Transmission} {e : Event} (h : s.Sound clientAddr) (hstep : Step clientAddr s e t) :
    t.Sound clientAddr := by
  obtain ⟨hpossible, hnext⟩ := hstep
  cases e with
  | server r => exact Except.ok.inj hnext ▸ sound_server h r
  | client r => exact Except.ok.inj hnext ▸ sound_client hdistinct h hpossible
  | tcp res =>
    rcases Client.tcpRound_cases hnext with rfl | ⟨d, o, hempty, hround, rfl⟩
    · exact h
    · exact ⟨h.streamed, h.fed.sendRound hempty hround, h.inFlight⟩
  | drop p =>
    rw [← Except.ok.inj hnext]
    exact ⟨h.streamed, h.fed, fun q hq => h.inFlight q (List.mem_of_mem_erase hq)⟩

theorem sound_start (clientAddr : SockAddr) (serverSocket clientSocket : Int)
    (bound connected inProgress : Bool) :
    (start serverSocket clientSocket bound connected inProgress).Sound clientAddr where
  streamed := ⟨rfl, rfl⟩
  fed := fed_construct [] clientSocket connected inProgress
  inFlight := fun _ hp => absurd hp List.not_mem_nil

/-! ## What the store agrees with -/

/-- In every state of every run the client's store agrees with what the server has built so far, it
holds at most 20 messages, and what was taken for TCP has the data of a message to forward. -/
theorem store_agrees {clientAddr : SockAddr} (hdistinct : clientAddr ≠ serverAddr)
    {serverSocket clientSocket : Int} {bound connected inProgress : Bool} {events : List Event}
    {s : Transmission} (hrun : Run (Step clientAddr)
      (start serverSocket clientSocket bound connected inProgress) events s) :
    s.built = (List.range s.built.length).map (fun i => makeMessageDiv20 (UInt64.ofNat i)) ∧
      (∀ k v, s.client.mContainer.atId k = .ok v →
        k < 20 ∧ v.messageId = k ∧ v.messageData % 20 = k ∧ v ∈ s.built) ∧
      s.client.mContainer.size.toNat ≤ 20 ∧
      ∀ o ∈ s.outcomes, o.msg.messageData % 20 = tcpResendID := by
  have h : s.Sound clientAddr :=
    hrun.invariant (Sound clientAddr)
      (sound_start clientAddr serverSocket clientSocket bound connected inProgress)
      (sound_step hdistinct)
  refine ⟨h.streamed.generated, fun k v hk => ?_, h.fed.size_le h.ids,
    fun o ho => (h.fed.taken h.ids ho).2.1⟩
  exact h.fed.stored h.ids (h.fed.genuine.validStore.atId_ok_iff.mp hk)

/-- The client sends its command, the server answers with message 0, and the client stores it. -/
theorem store_agrees_first :
    let clientAddr : SockAddr := ⟨afInet, loopbackAddr, 4096⟩
    let pad : Buffer 5 := ⟨[0, 0, 0, 0, 0], rfl⟩
    let ask : ClientRound := ⟨1, true, true, false, .error, pad⟩
    let answer : ServerRound :=
      ⟨1, true, .datagram clientAddr (commandToRaw Client.cmd).bytes, true, true, pad⟩
    let store : ClientRound :=
      ⟨1, false, false, true, .datagram serverAddr ((makeMessageDiv20 0).toRaw pad).bytes, pad⟩
    clientAddr ≠ serverAddr ∧
      ∃ s, Run (Step clientAddr) (start 3 3 true true false)
        [.client ask, .server answer, .client store] s ∧
        s.client.mContainer.atId 0 = .ok (makeMessageDiv20 0) ∧ makeMessageDiv20 0 ∈ s.built := by
  intro clientAddr pad ask answer store
  have hdistinct : clientAddr ≠ serverAddr := by decide
  obtain ⟨s, hrun, hat⟩ := exists_run_of_foldlM
    (guard (Possible clientAddr) (next clientAddr)) (start 3 3 true true false)
    [.client ask, .server answer, .client store] (fun s => s.client.mContainer.atId 0)
    (b := .ok (makeMessageDiv20 0)) (by decide +kernel)
  rw [ofExcept_guard] at hrun
  have h := store_agrees hdistinct hrun
  exact ⟨hdistinct, s, hrun, hat, (h.2.1 0 _ hat).2.2.2⟩

end Transmission

end MessageTransmitter
