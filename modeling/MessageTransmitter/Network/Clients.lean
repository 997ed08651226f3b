import MessageTransmitter.Network.Transmission

/-!
# One server and many clients

The server keeps one client address, the source of the last command it received, and one counter.
Clients at different addresses therefore share the stream of messages between them: each message
goes to the client that asked last, and to no other.
-/

open Bytes SortedAssoc Transition

namespace MessageTransmitter

/-- The server, the clients named by `ι`, the datagrams in flight, and what has happened so far. -/
structure Clients (ι : Type*) where
  server : Server
  client : ι → Client
  network : List Packet := []
  -- The messages built by the server, in order.
  built : List MessageFormat := []
  -- The messages that the server handed to the network, in order, with their destinations.
  handed : List (SockAddr × MessageFormat) := []
  -- The rounds of each client's `sendViaTcpSocket`, in order.
  outcomes : ι → List SendOutcome := fun _ => []

namespace Clients

variable {ι : Type*}

inductive Event (ι : Type*) where
  | server (r : ServerRound)
  | client (i : ι) (r : ClientRound)
  | tcp (i : ι) (res : StreamResult)
  | drop (p : Packet)

/-- What `recvfrom` may return at an address: a failure, or a datagram in flight to it. -/
def Delivers (s : Clients ι) (addr : SockAddr) : RecvResult → Prop
  | .error => True
  | .datagram source data => ⟨source, addr, data⟩ ∈ s.network

instance instDecidableDelivers (s : Clients ι) (addr : SockAddr) : DecidablePred (s.Delivers addr)
  | .error => isTrue trivial
  | .datagram source data => inferInstanceAs (Decidable (⟨source, addr, data⟩ ∈ s.network))

def Possible (addr : ι → SockAddr) (s : Clients ι) : Event ι → Prop
  | .server r => s.Delivers serverAddr r.recvResult
  | .client i r => s.Delivers (addr i) r.recvResult
  | _ => True

instance instDecidablePossible (addr : ι → SockAddr) (s : Clients ι) :
    DecidablePred (s.Possible addr)
  | .server r => inferInstanceAs (Decidable (s.Delivers serverAddr r.recvResult))
  | .client i r => inferInstanceAs (Decidable (s.Delivers (addr i) r.recvResult))
  | .tcp _ _ => isTrue trivial
  | .drop _ => isTrue trivial

/-- The message of a round with the destination of its datagram, if it sent one. -/
def handedBy (out : ServerOutput) : List (SockAddr × MessageFormat) :=
  match out.datagram, out.built with
  | some d, some msg => [(d.destination, msg)]
  | _, _ => []

def afterServer (s : Clients ι) (server : Server) (out : ServerOutput) : Clients ι :=
  { s with
    server := server
    network := s.network ++ Transmission.packets serverAddr out.datagram
    built := s.built ++ out.built.toList
    handed := s.handed ++ handedBy out }

def afterClient [DecidableEq ι] (addr : ι → SockAddr) (s : Clients ι) (i : ι) (client : Client)
    (sent : Option Datagram) : Clients ι :=
  { s with
    client := Function.update s.client i client
    network := s.network ++ Transmission.packets (addr i) sent }

def afterTcp [DecidableEq ι] (s : Clients ι) (i : ι) (client : Client) (outcome : SendOutcome) : Clients ι :=
  { s with
    client := Function.update s.client i client
    outcomes := Function.update s.outcomes i (s.outcomes i ++ [outcome]) }

def next [DecidableEq ι] (addr : ι → SockAddr) (s : Clients ι) : Event ι → Except Fault (Clients ι)
  | .server r => .ok (s.afterServer (s.server.startRound r).1 (s.server.startRound r).2)
  | .client i r =>
      .ok (s.afterClient addr i ((s.client i).startRound r).1 ((s.client i).startRound r).2)
  | .tcp i res =>
      if (s.client i).mContainerTcpQueue.empty then .ok s
      else ((s.client i).sendRound res).map fun p => s.afterTcp i p.1 p.2
  | .drop p => .ok { s with network := s.network.erase p }

abbrev Step [DecidableEq ι] (addr : ι → SockAddr) : Clients ι → Event ι → Clients ι → Prop :=
  Guarded (Possible addr) (ofExcept (next addr))

def start (serverSocket : Int) (bound : Bool) (clientSocket : ι → Int)
    (connected inProgress : ι → Bool) : Clients ι where
  server := Server.construct serverSocket bound
  client i := Client.construct (clientSocket i) (connected i) (inProgress i)

/-- The messages handed to the network for an address. -/
def handedTo (s : Clients ι) (addr : SockAddr) : List MessageFormat :=
  (s.handed.filter fun e => e.1 = addr).map Prod.snd

theorem mem_handedTo {s : Clients ι} {addr : SockAddr} {msg : MessageFormat} :
    msg ∈ s.handedTo addr ↔ (addr, msg) ∈ s.handed := by
  simp [handedTo]

/-! ## The invariant -/

/-- Every datagram in flight to a client is a message that the server handed to the network for it,
every one in flight to the server is the sync command of a client, and each client's containers hold
only what was handed to the network for it. -/
structure Sound (addr : ι → SockAddr) (s : Clients ι) : Prop where
  streamed : Transmission.Streamed s.server s.built
  handedOnce : (s.handed.map Prod.snd).Sublist s.built
  handedToClients : ∀ e ∈ s.handed, ∃ i, e.1 = addr i
  isServer : s.server.mSocket.mSocketType = .server
  follows : s.server.mSocket.hasClient = true → ∃ i, s.server.mSocket.cliaddr = addr i
  command : s.server.clientCmdID = -1 ∨ s.server.clientCmdID = Client.cmd
  fed : ∀ i, Transmission.Fed (s.handedTo (addr i)) (s.client i) (s.outcomes i)
  toServer : ∀ p ∈ s.network, p.destination = serverAddr →
    ∃ i, p.source = addr i ∧ p.data = (commandToRaw Client.cmd).bytes
  toClient : ∀ p ∈ s.network, ∀ i, p.destination = addr i →
    Transmission.Carries (s.handedTo (addr i)) p.source p.data

theorem sound_start (addr : ι → SockAddr) (serverSocket : Int) (bound : Bool)
    (clientSocket : ι → Int) (connected inProgress : ι → Bool) :
    (start serverSocket bound clientSocket connected inProgress).Sound addr where
  streamed := ⟨rfl, rfl⟩
  handedOnce := List.Sublist.refl []
  handedToClients := fun _ he => absurd he List.not_mem_nil
  isServer := rfl
  follows := fun h => by cases h
  command := .inl rfl
  fed := fun i => Transmission.fed_construct [] (clientSocket i) (connected i) (inProgress i)
  toServer := fun _ hp => absurd hp List.not_mem_nil
  toClient := fun _ hp => absurd hp List.not_mem_nil

section Server

variable {addr : ι → SockAddr} {s : Clients ι} {r : ServerRound}

/-- After a round the server's peer is a client and its command is the sync command, if they were or
if a client's command has come. -/
theorem Sound.server_after (h : s.Sound addr) (hdelivers : s.Delivers serverAddr r.recvResult) :
    (s.server.startRound r).1.mSocket.mSocketType = .server ∧
      ((s.server.startRound r).1.mSocket.hasClient = true →
        ∃ i, (s.server.startRound r).1.mSocket.cliaddr = addr i) ∧
      ((s.server.startRound r).1.clientCmdID = -1 ∨
        (s.server.startRound r).1.clientCmdID = Client.cmd) := by
  have hserver : s.server.mSocket.isServer = true := by
    rw [UDPSocket.isServer, h.isServer]
    rfl
  refine ⟨(Server.startRound_mSocketType _ _).trans h.isServer, ?_⟩
  rcases Server.startRound_received hserver r with ⟨hsocket, hcmd⟩ | ⟨source, data, hres, hsocket, hcmd⟩
  · rw [hsocket, hcmd]
    exact ⟨h.follows, h.command⟩
  · rw [hres] at hdelivers
    obtain ⟨i, hsource, hdata⟩ := h.toServer _ hdelivers rfl
    -- the datagram is a whole command
    have hfull : (commandToRaw s.server.clientCmdID).fill data = commandToRaw Client.cmd :=
      Buffer.ext ((Buffer.fill_of_length_eq _ ((congrArg List.length hdata).trans
        (commandToRaw Client.cmd).length_eq)).trans hdata)
    rw [hsocket, hcmd, hfull, commandOfRaw_commandToRaw]
    exact ⟨fun _ => ⟨i, hsource⟩, .inr rfl⟩

theorem handedTo_mono (a : SockAddr) (server : Server) (out : ServerOutput) {msg : MessageFormat}
    (hmsg : msg ∈ s.handedTo a) : msg ∈ (s.afterServer server out).handedTo a := by
  rw [mem_handedTo] at hmsg ⊢
  exact List.mem_append_left _ hmsg

theorem handedBy_sublist (out : ServerOutput) :
    ((handedBy out).map Prod.snd).Sublist out.built.toList := by
  obtain ⟨built, datagram⟩ := out
  cases datagram with
  | none => exact List.nil_sublist _
  | some d =>
    cases built with
    | none => exact List.Sublist.refl []
    | some msg => exact List.Sublist.refl [msg]

theorem handedOnce_append {out : ServerOutput} (h : (s.handed.map Prod.snd).Sublist s.built) :
    ((s.handed ++ handedBy out).map Prod.snd).Sublist (s.built ++ out.built.toList) := by
  rw [List.map_append]
  exact h.append (handedBy_sublist out)

theorem sound_server (hserver : ∀ i, addr i ≠ serverAddr) (h : s.Sound addr)
    (hdelivers : s.Delivers serverAddr r.recvResult) :
    (s.afterServer (s.server.startRound r).1 (s.server.startRound r).2).Sound addr := by
  obtain ⟨htype, hfollows, hcommand⟩ := h.server_after hdelivers
  have hmono : ∀ i msg, msg ∈ s.handedTo (addr i) → msg ∈ (s.afterServer (s.server.startRound r).1
      (s.server.startRound r).2).handedTo (addr i) := fun i _ => handedTo_mono (addr i) _ _
  -- a datagram goes to a client and carries the message that the round has built
  have hsent : ∀ d, (s.server.startRound r).2.datagram = some d →
      (∃ i, d.destination = addr i) ∧ ∃ msg pad, (s.server.startRound r).2.built = some msg ∧
        d.data = (msg.toRaw pad).bytes := fun d hd => by
    obtain ⟨hto, hhas⟩ := Server.startRound_sent (by rw [UDPSocket.isServer, h.isServer]; rfl) hd
    refine ⟨?_, Transmission.built_of_sent hd⟩
    rw [hto]
    exact hfollows hhas
  have hhanded : ∀ e ∈ handedBy (s.server.startRound r).2,
      ∃ d, (s.server.startRound r).2.datagram = some d ∧ e.1 = d.destination ∧
        (s.server.startRound r).2.built = some e.2 := fun e he => by
    unfold handedBy at he
    split at he
    · rename_i d msg hd hbuilt
      rw [List.mem_singleton.mp he]
      exact ⟨d, hd, rfl, hbuilt⟩
    · cases he
  refine ⟨h.streamed.startRound r, handedOnce_append h.handedOnce, fun e he => ?_, htype, hfollows,
    hcommand, fun i => (h.fed i).mono fun msg => hmono i msg, fun p hp hdest => ?_,
    fun p hp i hdest => ?_⟩
  · rcases List.mem_append.mp he with he | he
    · exact h.handedToClients e he
    · obtain ⟨d, hd, hto, -⟩ := hhanded e he
      rw [hto]
      exact (hsent d hd).1
  · rcases List.mem_append.mp hp with hp | hp
    · exact h.toServer p hp hdest
    · obtain ⟨d, hd, rfl⟩ := Transmission.mem_packets hp
      obtain ⟨i, hi⟩ := (hsent d hd).1
      exact absurd (hi.symm.trans hdest) (hserver i)
  · rcases List.mem_append.mp hp with hp | hp
    · exact (h.toClient p hp i hdest).mono fun msg => hmono i msg
    · obtain ⟨d, hd, rfl⟩ := Transmission.mem_packets hp
      obtain ⟨-, msg, pad, hbuilt, hdata⟩ := hsent d hd
      refine ⟨rfl, msg, ?_, pad, hdata⟩
      rw [mem_handedTo, ← show d.destination = addr i from hdest]
      refine List.mem_append_right _ ?_
      rw [handedBy, hd, hbuilt]
      exact List.mem_singleton_self _

end Server

section Client

variable [DecidableEq ι] {addr : ι → SockAddr} {s : Clients ι} {i : ι}

/-- The invariant of the clients when one of them has done a round. -/
theorem Sound.fed_update (h : s.Sound addr) {client : Client} {outcomes : List SendOutcome}
    (hfed : Transmission.Fed (s.handedTo (addr i)) client outcomes) (j : ι) :
    Transmission.Fed (s.handedTo (addr j)) (Function.update s.client i client j)
      (Function.update s.outcomes i outcomes j) := by
  by_cases hj : j = i
  · rw [hj, Function.update_self, Function.update_self]
    exact hfed
  · rw [Function.update_of_ne hj, Function.update_of_ne hj]
    exact h.fed j

theorem sound_client (hserver : ∀ i, addr i ≠ serverAddr) (h : s.Sound addr) {r : ClientRound}
    (hdelivers : s.Delivers (addr i) r.recvResult) :
    (s.afterClient addr i ((s.client i).startRound r).1 ((s.client i).startRound r).2).Sound
      addr := by
  have hfed : Transmission.Fed (s.handedTo (addr i)) ((s.client i).startRound r).1
      (s.outcomes i) := (h.fed i).startRound fun source data hres => by
    rw [hres] at hdelivers
    exact h.toClient _ hdelivers i rfl
  refine ⟨h.streamed, h.handedOnce, h.handedToClients, h.isServer, h.follows, h.command,
    fun j => ?_, fun p hp hdest => ?_, fun p hp j hdest => ?_⟩
  · have hall := h.fed_update hfed j
    rw [Function.update_eq_self] at hall
    exact hall
  · rcases List.mem_append.mp hp with hp | hp
    · exact h.toServer p hp hdest
    · rw [(h.fed i).packets hp]
      exact ⟨i, rfl, rfl⟩
  · rcases List.mem_append.mp hp with hp | hp
    · exact h.toClient p hp j hdest
    · rw [(h.fed i).packets hp] at hdest
      exact absurd hdest.symm (hserver j)

theorem sound_step (hserver : ∀ i, addr i ≠ serverAddr)
    {t : Clients ι} {e : Event ι} (h : s.Sound addr) (hstep : Step addr s e t) : t.Sound addr := by
  obtain ⟨hpossible, hnext⟩ := hstep
  cases e with
  | server r => exact Except.ok.inj hnext ▸ sound_server hserver h hpossible
  | client i r => exact Except.ok.inj hnext ▸ sound_client hserver h hpossible
  | tcp i res =>
    rcases Client.tcpRound_cases hnext with rfl | ⟨d, o, hempty, hround, rfl⟩
    · exact h
    · exact ⟨h.streamed, h.handedOnce, h.handedToClients, h.isServer, h.follows, h.command,
        h.fed_update ((h.fed i).sendRound hempty hround), h.toServer, h.toClient⟩
  | drop p =>
    rw [← Except.ok.inj hnext]
    exact ⟨h.streamed, h.handedOnce, h.handedToClients, h.isServer, h.follows, h.command, h.fed,
      fun q hq => h.toServer q (List.mem_of_mem_erase hq),
      fun q hq => h.toClient q (List.mem_of_mem_erase hq)⟩

end Client

/-! ## One stream shared by the clients -/

/-- The client has stored the message or has taken it for TCP. -/
def Holds (s : Clients ι) (i : ι) (msg : MessageFormat) : Prop :=
  (∃ k, (s.client i).mContainer.atId k = .ok msg) ∨ ∃ o ∈ s.outcomes i, o.msg = msg

theorem Sound.handed_of_holds {addr : ι → SockAddr} {s : Clients ι} (h : s.Sound addr) {i : ι}
    {msg : MessageFormat} (hmsg : s.Holds i msg) : (addr i, msg) ∈ s.handed := by
  rw [← mem_handedTo]
  rcases hmsg with ⟨k, hk⟩ | ⟨o, ho, rfl⟩
  · exact ((h.fed i).genuine.store _ ((h.fed i).genuine.validStore.atId_ok_iff.mp hk)).2
  · exact ((h.fed i).forwarded o ho).2

theorem nodup_data_stream {n : ℕ} (h : n ≤ 2 ^ 64) :
    ((Transmission.stream n).map MessageFormat.messageData).Nodup := by
  rw [Transmission.stream, List.map_map]
  refine List.nodup_range.map_on fun a ha b hb hab => ?_
  rw [List.mem_range] at ha hb
  have heq : (UInt64.ofNat a).toNat = (UInt64.ofNat b).toNat := congrArg UInt64.toNat hab
  rw [UInt64.toNat_ofNat', UInt64.toNat_ofNat'] at heq
  omega

/-- Before the counter wraps, no two entries of `handed` carry the same data. -/
theorem Sound.handed_inj {addr : ι → SockAddr} {s : Clients ι} (h : s.Sound addr)
    (hlen : s.built.length ≤ 2 ^ 64) {e e' : SockAddr × MessageFormat} (he : e ∈ s.handed)
    (he' : e' ∈ s.handed) (hdata : e.2.messageData = e'.2.messageData) : e = e' := by
  have hsub : (s.handed.map fun e => e.2.messageData).Sublist
      (s.built.map MessageFormat.messageData) := by
    have hmap := h.handedOnce.map MessageFormat.messageData
    rw [List.map_map] at hmap
    exact hmap
  have hnodup : (s.handed.map fun e => e.2.messageData).Nodup := by
    refine hsub.nodup ?_
    rw [h.streamed.generated]
    exact nodup_data_stream hlen
  exact List.inj_on_of_nodup_map hnodup he he' hdata

theorem Sound.mem_built {addr : ι → SockAddr} {s : Clients ι} (h : s.Sound addr) {a : SockAddr}
    {msg : MessageFormat} (hmsg : msg ∈ s.handedTo a) : msg ∈ s.built :=
  h.handedOnce.subset (List.mem_map.mpr ⟨(a, msg), mem_handedTo.mp hmsg, rfl⟩)

theorem Sound.ids {addr : ι → SockAddr} {s : Clients ι} (h : s.Sound addr) {a : SockAddr} :
    ∀ msg ∈ s.handedTo a, msg.messageId = msg.messageData % 20 :=
  fun _ hmsg => h.streamed.messageId (h.mem_built hmsg)

/-! A run of two clients: each asks once, is handed one message and receives it. -/

def twoAddr (i : Bool) : SockAddr := ⟨afInet, loopbackAddr, if i then 4097 else 4096⟩

def twoEvents (pad : Buffer 5) : List (Event Bool) :=
  let ask : ClientRound := ⟨1, true, true, false, .error, pad⟩
  let answer (i : Bool) : ServerRound :=
    ⟨1, true, .datagram (twoAddr i) (commandToRaw Client.cmd).bytes, true, true, pad⟩
  let store (n : UInt64) : ClientRound :=
    ⟨1, false, false, true, .datagram serverAddr ((makeMessageDiv20 n).toRaw pad).bytes, pad⟩
  [.client false ask, .server (answer false), .client true ask, .server (answer true),
    .client false (store 0), .client true (store 1)]

theorem exists_run_two {β : Type*} (pad : Buffer 5) (more : List (Event Bool))
    (obs : Clients Bool → β) {b : β}
    (h : ((twoEvents pad ++ more).foldlM (guard (Possible twoAddr) (next twoAddr))
      (start 3 true (fun _ => 3) (fun _ => true) fun _ => false)).map obs = .ok b) :
    ∃ s, Run (Step twoAddr) (start 3 true (fun _ => 3) (fun _ => true) fun _ => false)
      (twoEvents pad ++ more) s ∧ obs s = b := by
  have hrun := exists_run_of_foldlM (guard (Possible twoAddr) (next twoAddr)) _ (twoEvents pad ++ more)
    obs h
  rw [ofExcept_guard] at hrun
  exact hrun

/-- The server does not receive anything from the address. -/
def Unheard (a : SockAddr) : Event ι → Prop
  | .server r => ∀ data, r.recvResult ≠ .datagram a data
  | _ => True

theorem handedTo_afterServer {s : Clients ι} {a : SockAddr} {server : Server} {out : ServerOutput}
    (h : ∀ d, out.datagram = some d → d.destination ≠ a) :
    (s.afterServer server out).handedTo a = s.handedTo a := by
  have hnone : (handedBy out).filter (fun e => e.1 = a) = [] := by
    rw [List.filter_eq_nil_iff]
    intro e he
    unfold handedBy at he
    split at he
    · rename_i d msg hd hbuilt
      rw [List.mem_singleton.mp he]
      simpa using h d hd
    · cases he
  show ((s.handed ++ handedBy out).filter _).map Prod.snd = _
  rw [List.filter_append, hnone, List.append_nil]
  rfl

/-- A round that hears nothing from an address that is not the server's peer leaves it so, and
hands nothing to the network for it. -/
theorem server_unheard {s : Clients ι} {a : SockAddr} (h : s.server.mSocket.isServer = true)
    (hpeer : s.server.mSocket.cliaddr ≠ a) {r : ServerRound}
    (hr : ∀ data, r.recvResult ≠ .datagram a data) :
    (s.server.startRound r).1.mSocket.cliaddr ≠ a ∧
      ∀ d, (s.server.startRound r).2.datagram = some d → d.destination ≠ a := by
  have hafter : (s.server.startRound r).1.mSocket.cliaddr ≠ a := by
    rcases Server.startRound_received h r with ⟨hsocket, -⟩ | ⟨source, data, hres, hsocket, -⟩
    · rw [hsocket]
      exact hpeer
    · rw [hsocket]
      rintro rfl
      exact hr data hres
  refine ⟨hafter, fun d hd => ?_⟩
  rw [(Server.startRound_sent h hd).1]
  exact hafter

section Shared

variable [DecidableEq ι] {addr : ι → SockAddr} {serverSocket : Int} {bound : Bool}
  {clientSocket : ι → Int} {connected inProgress : ι → Bool} {events : List (Event ι)}
  {s t : Clients ι}

theorem sound_of_run (hserver : ∀ i, addr i ≠ serverAddr)
    (hrun : Run (Step addr) (start serverSocket bound clientSocket connected inProgress) events s) :
    s.Sound addr :=
  hrun.invariant (Sound addr) (sound_start addr serverSocket bound clientSocket connected inProgress)
    (sound_step hserver)

/-- Whatever the network does, until the server has built 2^64 messages two clients never hold the
same one, neither in their stores nor among what they forward. -/
theorem no_message_shared (hinj : Function.Injective addr) (hserver : ∀ i, addr i ≠ serverAddr)
    (hrun : Run (Step addr) (start serverSocket bound clientSocket connected inProgress) events s)
    (hlen : s.built.length ≤ 2 ^ 64) {i j : ι} (hij : i ≠ j) {v w : MessageFormat}
    (hv : s.Holds i v) (hw : s.Holds j w) : v.messageData ≠ w.messageData := by
  intro hdata
  have h := sound_of_run hserver hrun
  have heq := h.handed_inj hlen (h.handed_of_holds hv) (h.handed_of_holds hw) hdata
  exact hij (hinj (congrArg Prod.fst heq))

theorem no_message_shared_two :
    let pad : Buffer 5 := ⟨[0, 0, 0, 0, 0], rfl⟩
    ∃ s, Run (Step twoAddr) (start 3 true (fun _ => 3) (fun _ => true) fun _ => false)
      (twoEvents pad) s ∧
      s.Holds false (makeMessageDiv20 0) ∧ s.Holds true (makeMessageDiv20 1) ∧
      (makeMessageDiv20 0).messageData ≠ (makeMessageDiv20 1).messageData := by
  intro pad
  have hinj : Function.Injective twoAddr := by decide
  obtain ⟨s, hrun, hobs⟩ := exists_run_two pad []
    (fun s => (s.built.length, (s.client false).mContainer.atId 0, (s.client true).mContainer.atId 1))
    (b := (2, .ok (makeMessageDiv20 0), .ok (makeMessageDiv20 1))) (by decide +kernel)
  rw [Prod.mk.injEq, Prod.mk.injEq] at hobs
  obtain ⟨hlen, hfalse, htrue⟩ := hobs
  have h0 : s.Holds false (makeMessageDiv20 0) := .inl ⟨0, hfalse⟩
  have h1 : s.Holds true (makeMessageDiv20 1) := .inl ⟨1, htrue⟩
  have hbound : s.built.length ≤ 2 ^ 64 := by
    rw [hlen]
    decide
  exact ⟨s, hrun, h0, h1,
    no_message_shared hinj (by decide) hrun hbound (i := false) (j := true) (by decide) h0 h1⟩

theorem unheard_step {a : SockAddr} {e : Event ι} (h : s.server.mSocket.isServer = true)
    (hpeer : s.server.mSocket.cliaddr ≠ a) (hstep : Guarded (fun _ => Unheard a) (Step addr) s e t) :
    t.server.mSocket.isServer = true ∧ t.server.mSocket.cliaddr ≠ a ∧
      t.handedTo a = s.handedTo a := by
  obtain ⟨hunheard, -, hnext⟩ := hstep
  cases e with
  | server r =>
    obtain ⟨hafter, hsent⟩ := server_unheard h hpeer hunheard
    rw [← Except.ok.inj hnext]
    refine ⟨?_, hafter, handedTo_afterServer hsent⟩
    show (s.server.startRound r).1.mSocket.isServer = true
    rw [UDPSocket.isServer, Server.startRound_mSocketType]
    exact h
  | client i r =>
    rw [← Except.ok.inj hnext]
    exact ⟨h, hpeer, rfl⟩
  | tcp i res =>
    rcases Client.tcpRound_cases hnext with rfl | ⟨d, o, -, -, rfl⟩
    · exact ⟨h, hpeer, rfl⟩
    · exact ⟨h, hpeer, rfl⟩
  | drop p =>
    rw [← Except.ok.inj hnext]
    exact ⟨h, hpeer, rfl⟩

/-- The server serves the client it heard from last: while it hears nothing more from a client whose
place another has taken, nothing more is handed to the network for it, and whatever it still comes
to hold was handed over before. -/
theorem last_asker_served (hserver : ∀ i, addr i ≠ serverAddr)
    (hrun : Run (Step addr) (start serverSocket bound clientSocket connected inProgress) events s)
    {i : ι} (hpeer : s.server.mSocket.cliaddr ≠ addr i) {rest : List (Event ι)}
    (hrest : Run (Guarded (fun _ => Unheard (addr i)) (Step addr)) s rest t) :
    t.handedTo (addr i) = s.handedTo (addr i) ∧
      ∀ msg, t.Holds i msg → msg ∈ s.handedTo (addr i) := by
  have h := sound_of_run hserver hrun
  have hkept := hrest.invariant
    (fun u => u.Sound addr ∧ u.server.mSocket.isServer = true ∧
      u.server.mSocket.cliaddr ≠ addr i ∧ u.handedTo (addr i) = s.handedTo (addr i))
    ⟨h, by rw [UDPSocket.isServer, h.isServer]; rfl, hpeer, rfl⟩
    fun hu hstep => by
      obtain ⟨hsocket, hne, heq⟩ := unheard_step hu.2.1 hu.2.2.1 hstep
      exact ⟨sound_step hserver hu.1 hstep.2, hsocket, hne, heq.trans hu.2.2.2⟩
  refine ⟨hkept.2.2.2, fun msg hmsg => ?_⟩
  rw [← hkept.2.2.2, mem_handedTo]
  exact hkept.1.handed_of_holds hmsg

/-- The second client has asked last, so the message of a further round is not for the first. -/
theorem last_asker_served_two :
    let pad : Buffer 5 := ⟨[0, 0, 0, 0, 0], rfl⟩
    let round : ServerRound := ⟨1, false, .error, true, true, pad⟩
    ∃ s t, Run (Step twoAddr) (start 3 true (fun _ => 3) (fun _ => true) fun _ => false)
      (twoEvents pad) s ∧
      Run (Step twoAddr) s [.server round] t ∧ t.handedTo (twoAddr false) = [makeMessageDiv20 0] := by
  intro pad round
  obtain ⟨s, hrun, hobs⟩ := exists_run_two pad []
    (fun s => (s.server.mSocket.cliaddr, s.handedTo (twoAddr false)))
    (b := (twoAddr true, [makeMessageDiv20 0])) (by decide +kernel)
  rw [Prod.mk.injEq] at hobs
  obtain ⟨hpeer, hhanded⟩ := hobs
  have hne : s.server.mSocket.cliaddr ≠ twoAddr false := by
    rw [hpeer]
    decide
  have hrest : Run (Guarded (fun _ => Unheard (twoAddr false)) (Step twoAddr)) s [.server round]
      (s.afterServer (s.server.startRound round).1 (s.server.startRound round).2) :=
    Run.nil.snoc ⟨fun _ => nofun, trivial, rfl⟩
  exact ⟨s, _, hrun, Run.nil.snoc ⟨trivial, rfl⟩,
    (last_asker_served (by decide) hrun hne hrest).1.trans hhanded⟩

/-- Each client's store agrees with what the server has built, and so does what it takes for TCP, its
peer is the server, and the server in turn follows only clients and knows no command but theirs. -/
theorem clients_agree (hserver : ∀ i, addr i ≠ serverAddr)
    (hrun : Run (Step addr) (start serverSocket bound clientSocket connected inProgress) events s) :
    (∀ i k v, (s.client i).mContainer.atId k = .ok v →
      k < 20 ∧ v.messageId = k ∧ v.messageData % 20 = k ∧ v ∈ s.built) ∧
      (∀ i, (s.client i).mContainer.size.toNat ≤ 20) ∧
      (∀ i, ∀ o ∈ s.outcomes i, o.msg.messageId = tcpResendID ∧
        o.msg.messageData % 20 = tcpResendID ∧ o.msg ∈ s.built) ∧
      (∀ i, (s.client i).mUdpSocket.servaddr = serverAddr) ∧
      (s.server.mSocket.hasClient = true → ∃ i, s.server.mSocket.cliaddr = addr i) ∧
      (s.server.clientCmdID = -1 ∨ s.server.clientCmdID = Client.cmd) := by
  have h := sound_of_run hserver hrun
  refine ⟨fun i k v hk => ?_, fun i => (h.fed i).size_le h.ids, fun i o ho => ?_,
    fun i => (h.fed i).peer, h.follows, h.command⟩
  · obtain ⟨hlt, hid, hdata, hhanded⟩ :=
      (h.fed i).stored h.ids ((h.fed i).genuine.validStore.atId_ok_iff.mp hk)
    exact ⟨hlt, hid, hdata, h.mem_built hhanded⟩
  · obtain ⟨hid, hdata, hhanded⟩ := (h.fed i).taken h.ids ho
    exact ⟨hid, hdata, h.mem_built hhanded⟩

/-- The second client stores message 1; the first one has taken message 10 for TCP. -/
theorem clients_agree_two :
    let pad : Buffer 5 := ⟨[0, 0, 0, 0, 0], rfl⟩
    let answer : ServerRound :=
      ⟨1, true, .datagram (twoAddr false) (commandToRaw Client.cmd).bytes, true, true, pad⟩
    let store : ClientRound :=
      ⟨1, false, false, true, .datagram serverAddr ((makeMessageDiv20 10).toRaw pad).bytes, pad⟩
    ∃ s, Run (Step twoAddr) (start 3 true (fun _ => 3) (fun _ => true) fun _ => false)
      (twoEvents pad ++ List.replicate 9 (.server answer) ++
        [.client false store, .tcp false (.count 24)]) s ∧
      (s.client true).mContainer.atId 1 = .ok (makeMessageDiv20 1) ∧
      makeMessageDiv20 1 ∈ s.built ∧ ∃ o ∈ s.outcomes false, o.msg.messageId = tcpResendID ∧
        o.msg ∈ s.built := by
  intro pad answer store
  obtain ⟨s, hrun, hobs⟩ := exists_run_two pad (List.replicate 9 (.server answer) ++
      [.client false store, .tcp false (.count 24)])
    (fun s => ((s.client true).mContainer.atId 1, (s.outcomes false).length))
    (b := (.ok (makeMessageDiv20 1), 1)) (by decide +kernel)
  rw [← List.append_assoc] at hrun
  obtain ⟨hat, hlen⟩ := Prod.mk.inj hobs
  have h := clients_agree (by decide) hrun
  obtain ⟨o, ho⟩ := List.exists_mem_of_length_pos (Nat.lt_of_lt_of_eq Nat.zero_lt_one hlen.symm)
  have hout := h.2.2.1 false o ho
  exact ⟨s, hrun, hat, (h.1 true 1 _ hat).2.2.2, o, ho, hout.1, hout.2.2⟩

end Shared

end Clients

end MessageTransmitter
