import Mathlib.Order.Filter.AtTopBot.Basic
import Mathlib.Order.Filter.Finite
import MessageTransmitter.Network.Deployment
import MessageTransmitter.Receiver.Liveness
import MessageTransmitter.Receiver.ThreadStore

/-!
# What the deployment gets done

`Deployment` says what the receiver never holds.  Here is what it comes to hold: as long as the
server goes on with its rounds and the network lets something through, the store fills up with one
message for every id and is then final, and messages are taken for TCP for ever.
-/

open Bytes SortedAssoc Transition Execution

namespace MessageTransmitter

namespace Client

/-- What is read is saved, and left to be queued if it is to be forwarded. -/
theorem startBeforeTcp_reads {c : Client} {r : ClientRound} {msg : MessageFormat}
    (hserver : c.mUdpSocket.hasServer = true) (hreads : r.Reads) (hmsg : r.received = some msg) :
    (c.startBeforeTcp r).1.mContainer = c.mContainer.add msg ∧
      (c.startBeforeTcp r).2 = if sendViaTcpRequired msg then some msg else none := by
  obtain ⟨hfailed, hidle, hready⟩ := hreads
  rw [startBeforeTcp, if_neg hfailed, if_neg hidle, hserver, hready]
  unfold ClientRound.received at hmsg
  cases hres : r.recvResult with
  | error =>
    rw [hres] at hmsg
    cases hmsg
  | datagram source data =>
    rw [hres] at hmsg
    rw [← Option.some.inj hmsg]
    show (c.recvBeforeTcp r.padding (.datagram source data)).1.mContainer = _ ∧
      (c.recvBeforeTcp r.padding (.datagram source data)).2 = _
    simp only [recvBeforeTcp, recvMessage, UDPSocket.recvBytes_datagram, if_true, and_true]
    rfl

/-- A datagram from a usable address leaves the client with a server. -/
theorem startBeforeTcp_hasServer {c : Client} {r : ClientRound}
    (hserver : c.mUdpSocket.hasServer = true) (hsource : ∀ source data,
      r.recvResult = .datagram source data → UDPSocket.isValid source = true) :
    (c.startBeforeTcp r).1.mUdpSocket.hasServer = true := by
  unfold startBeforeTcp
  split_ifs
  all_goals first | exact hserver | skip
  cases hres : r.recvResult with
  | error => exact hserver
  | datagram source data =>
    have hvalid := hsource source data hres
    simp only [recvBeforeTcp, recvMessage, UDPSocket.recvBytes_datagram, if_true, saveMessage]
    split
    · exact hserver
    · exact hvalid

end Client

namespace Deployment

variable {ι : Type*}

/-- A datagram reaches the server. -/
def Event.Heard : Event ι → Prop
  | .server r => r.selected ≠ -1 ∧ r.readyRecv = true ∧ r.recvResult ≠ .error
  | _ => False

/-- The server gets to the point at which it sends if it has a client. -/
def Event.Serves : Event ι → Prop
  | .server r => r.selected ≠ -1 ∧ r.readySend = true
  | _ => False

/-- The step of a thread. -/
def Event.thread? : Event ι → Option (Threads.Event ι)
  | .thread e => some e
  | _ => none

/-- The server builds a message with the id `k`. -/
def Builds (k : UInt64) (s t : Deployment ι) : Prop :=
  ∃ msg, t.built = s.built ++ [msg] ∧ msg.messageId = k

/-- A UDP thread receives a message with the id `k`. -/
def Receives (k : UInt64) (s : Deployment ι) : Event ι → Prop
  | .thread (.udp i r) => s.threads.udp i = .messageLocked ∧ r.Reads ∧
      r.received.map MessageFormat.messageId = some k
  | _ => False

instance instDecidableReceives (k : UInt64) (s : Deployment ι) : DecidablePred (Receives k s)
  | .thread (.udp i r) => inferInstanceAs (Decidable (s.threads.udp i = .messageLocked ∧ r.Reads ∧
      r.received.map MessageFormat.messageId = some k))
  | .thread (.tcp _) => isFalse id
  | .server _ => isFalse id
  | .drop _ => isFalse id

/-- Whoever receives something can answer it. -/
structure Addressed (s : Deployment ι) : Prop where
  isServer : s.server.mSocket.mSocketType = .server
  hasServer : s.threads.client.mUdpSocket.hasServer = true
  sources : ∀ p ∈ s.network, UDPSocket.isValid p.source = true

theorem addressed_start (serverSocket clientSocket : Int) (bound connected inProgress : Bool) :
    (start ι serverSocket clientSocket bound connected inProgress).Addressed where
  isServer := rfl
  hasServer := rfl
  sources := fun _ hp => absurd hp List.not_mem_nil

theorem Addressed.server_isServer {s : Deployment ι} (h : s.Addressed) :
    s.server.mSocket.isServer = true := by
  rw [UDPSocket.isServer, h.isServer]
  rfl

theorem sources_append {network : List Packet} (h : ∀ p ∈ network, UDPSocket.isValid p.source = true)
    {source : SockAddr} (hvalid : UDPSocket.isValid source = true) (d : Option Datagram) :
    ∀ p ∈ network ++ Transmission.packets source d, UDPSocket.isValid p.source = true := by
  intro p hp
  rcases List.mem_append.mp hp with hp | hp
  · exact h p hp
  · obtain ⟨d, -, rfl⟩ := Transmission.mem_packets hp
    exact hvalid

/-! ## The steps -/

section Step

variable [DecidableEq ι] {clientAddr : SockAddr} {s t : Deployment ι} {e : Event ι}

/-- Everything that a step can be. -/
theorem step_cases (h : Step clientAddr s e t) :
    (∃ r, e = .server r ∧ s.Delivers serverAddr r.recvResult ∧
        t = s.afterServer (s.server.startRound r).1 (s.server.startRound r).2) ∨
      (∃ e' v, e = .thread e' ∧ s.Possible clientAddr (.thread e') ∧ Threads.Step s.threads e' v ∧
        t = s.afterThread clientAddr e' v) ∨
      ∃ p, e = .drop p ∧ t = { s with network := s.network.erase p } := by
  obtain ⟨hpossible, hnext⟩ := h
  cases e with
  | server r => exact .inl ⟨r, rfl, hpossible, (Except.ok.inj hnext).symm⟩
  | thread e' =>
    change (s.threads.step e').map (s.afterThread clientAddr e') = .ok t at hnext
    cases hv : s.threads.step e' with
    | error stop => rw [hv] at hnext; cases hnext
    | ok v =>
      rw [hv] at hnext
      exact .inr (.inl ⟨e', v, rfl, hpossible, hv, (Except.ok.inj hnext).symm⟩)
  | drop p => exact .inr (.inr ⟨p, rfl, (Except.ok.inj hnext).symm⟩)

theorem Addressed.step (hvalid : UDPSocket.isValid clientAddr = true) (h : s.Addressed)
    (hstep : Step clientAddr s e t) : t.Addressed := by
  rcases step_cases hstep with ⟨r, -, -, rfl⟩ | ⟨e', v, -, hpossible, hv, rfl⟩ | ⟨p, -, rfl⟩
  · exact ⟨(Server.startRound_mSocketType _ _).trans h.isServer, h.hasServer,
      sources_append h.sources rfl _⟩
  · refine ⟨h.isServer, ?_, sources_append h.sources hvalid _⟩
    show v.client.mUdpSocket.hasServer = true
    cases e' with
    | udp i r =>
      cases Threads.udpMove_of_step hv with
      | save hphase =>
        refine Client.startBeforeTcp_hasServer h.hasServer fun source data hres => ?_
        have hdelivers := hpossible hphase
        rw [hres] at hdelivers
        exact h.sources _ hdelivers
      | lockMessage | lockTcp | size | insert | notify | unlockTcp | unlockMessage =>
        exact h.hasServer
    | tcp res =>
      cases Threads.tcpMove_of_step hv with
      | lock | check | park | wake | index | value | remove | send | unlock => exact h.hasServer
  · exact ⟨h.isServer, h.hasServer, fun q hq => h.sources q (List.mem_of_mem_erase hq)⟩

/-- The server has a client as soon as it has heard from one. -/
theorem Addressed.hasClient_of_heard (h : s.Addressed) (hstep : Step clientAddr s e t)
    (hheard : e.Heard) : t.server.mSocket.hasClient = true := by
  rcases step_cases hstep with ⟨r, rfl, hdelivers, rfl⟩ | ⟨e', v, rfl, -, -, rfl⟩ | ⟨p, rfl, rfl⟩
  · obtain ⟨hselected, hready, herror⟩ := hheard
    cases hres : r.recvResult with
    | error => exact absurd hres herror
    | datagram source data =>
      rw [hres] at hdelivers
      show UDPSocket.isValid (s.server.startRound r).1.mSocket.cliaddr = true
      rw [Server.startRound_cliaddr h.server_isServer hselected hready hres]
      exact h.sources _ hdelivers
  · exact hheard.elim
  · exact hheard.elim

theorem Addressed.hasClient_step (h : s.Addressed) (hstep : Step clientAddr s e t)
    (hclient : s.server.mSocket.hasClient = true) : t.server.mSocket.hasClient = true := by
  rcases step_cases hstep with ⟨r, -, hdelivers, rfl⟩ | ⟨e', v, -, -, -, rfl⟩ | ⟨p, -, rfl⟩
  · show (s.server.startRound r).1.mSocket.hasClient = true
    rcases Server.startRound_received h.server_isServer r with ⟨hsame, -⟩ |
      ⟨source, data, hres, hsocket, -⟩
    · rw [hsame]
      exact hclient
    · rw [hres] at hdelivers
      rw [hsocket]
      exact h.sources _ hdelivers
  · exact hclient
  · exact hclient

/-- A step builds nothing, or one message, the one of the server's counter. -/
theorem step_built (hstep : Step clientAddr s e t) :
    t.built = s.built ∨ t.built = s.built ++ [makeMessageDiv20 s.server.sendMsgCount] := by
  rcases step_cases hstep with ⟨r, -, -, rfl⟩ | ⟨e', v, -, -, -, rfl⟩ | ⟨p, -, rfl⟩
  · show s.built ++ (s.server.startRound r).2.built.toList = s.built ∨ _
    rcases Server.startRound_output s.server r with ⟨hnone, -⟩ | ⟨hbuilt, -, -⟩
    · rw [hnone]
      exact .inl (List.append_nil _)
    · refine .inr ?_
      show s.built ++ (s.server.startRound r).2.built.toList = _
      rw [hbuilt]
      rfl
  · exact .inl rfl
  · exact .inl rfl

/-- A server with a client builds a message whenever it can send. -/
theorem built_of_serves (hstep : Step clientAddr s e t) (hserves : e.Serves)
    (hclient : t.server.mSocket.hasClient = true) :
    t.built = s.built ++ [makeMessageDiv20 s.server.sendMsgCount] := by
  rcases step_cases hstep with ⟨r, rfl, -, rfl⟩ | ⟨e', v, rfl, -, -, rfl⟩ | ⟨p, rfl, rfl⟩
  · show s.built ++ (s.server.startRound r).2.built.toList = _
    rw [Server.startRound_built hserves.1 hserves.2 hclient]
    rfl
  · exact hserves.elim
  · exact hserves.elim

/-- A step leaves the store alone, or a UDP thread adds a message that it has received. -/
theorem step_store (hstep : Step clientAddr s e t) :
    t.threads.client.mContainer = s.threads.client.mContainer ∨
      ∃ msg, t.threads.client.mContainer = s.threads.client.mContainer.add msg := by
  rcases step_cases hstep with ⟨r, -, -, rfl⟩ | ⟨e', v, -, -, hv, rfl⟩ | ⟨p, -, rfl⟩
  · exact .inl rfl
  · rcases Threads.step_store hv with hsame | ⟨msg, -, hadd⟩
    · exact .inl hsame
    · exact .inr ⟨msg, hadd⟩
  · exact .inl rfl

theorem Addressed.store_of_receives (h : s.Addressed) (hstep : Step clientAddr s e t) {k : UInt64}
    (hreceives : Receives k s e) : ∃ msg, msg.messageId = k ∧
      t.threads.client.mContainer = s.threads.client.mContainer.add msg := by
  rcases step_cases hstep with ⟨r, rfl, -, rfl⟩ | ⟨e', v, rfl, -, hv, rfl⟩ | ⟨p, rfl, rfl⟩
  · exact hreceives.elim
  · cases e' with
    | udp i r =>
      obtain ⟨hlocked, hreads, hreceived⟩ := hreceives
      obtain ⟨msg, hmsg, hid⟩ := Option.map_eq_some_iff.mp hreceived
      change s.threads.udpStep i r = .ok v at hv
      simp only [Threads.udpStep, hlocked] at hv
      rw [← Except.ok.inj hv]
      exact ⟨msg, hid, (Client.startBeforeTcp_reads h.hasServer hreads hmsg).1⟩
    | tcp res => exact hreceives.elim
  · exact hreceives.elim

end Step

/-! ## The store -/

/-- The ids in the store of the receiver. -/
def ids (s : Deployment ι) : Finset UInt64 := keys s.threads.client.mContainer.mPimpl.contents

theorem keys_add {store : Container} (hvalid : store.mPimpl.Valid) (msg : MessageFormat) :
    keys (store.add msg).mPimpl.contents = keys store.mPimpl.contents ∪ {msg.messageId} := by
  exact hvalid.keys_insert msg.messageId msg

theorem add_of_mem {store : Container} (hvalid : store.mPimpl.Valid) {msg : MessageFormat}
    (hid : msg.messageId ∈ keys store.mPimpl.contents) : store.add msg = store := by
  have hcontains := hvalid.contains_iff.mpr hid
  show (⟨store.mPimpl.insert msg.messageId msg⟩ : Container) = store
  rw [BstImpl.insert_of_contains hcontains]

/-- The ids below 20. -/
def allIds : Finset UInt64 := (Finset.range 20).image UInt64.ofNat

theorem mem_allIds {k : UInt64} : k ∈ allIds ↔ k < 20 := by
  apply Iff.intro
  · intro hk
    obtain ⟨n, hn, rfl⟩ := Finset.mem_image.mp hk
    rw [UInt64.lt_iff_toNat_lt, UInt64.toNat_ofNat', Nat.mod_eq_of_lt]
    · exact Finset.mem_range.mp hn
    · have hlt := Finset.mem_range.mp hn
      omega
  · intro hk
    exact Finset.mem_image.mpr ⟨k.toNat, Finset.mem_range.mpr (UInt64.lt_iff_toNat_lt.mp hk),
      UInt64.ofNat_toNat⟩

theorem card_allIds : allIds.card = 20 := by decide

/-! ## Executions -/

section Always

variable [DecidableEq ι] {clientAddr : SockAddr} {x : Execution (Step (ι := ι) clientAddr)}
  {serverSocket clientSocket : Int} {bound connected inProgress : Bool}

theorem addressed_always (hvalid : UDPSocket.isValid clientAddr = true)
    (hstart : x.state 0 = start ι serverSocket clientSocket bound connected inProgress) (n : ℕ) :
    (x.state n).Addressed := by
  refine x.always ?_ (fun h hstep => h.step hvalid hstep) n
  rw [hstart]
  exact addressed_start serverSocket clientSocket bound connected inProgress

/-- The server's counter counts what it has built. -/
theorem counter_always (hdistinct : clientAddr ≠ serverAddr)
    (hstart : x.state 0 = start ι serverSocket clientSocket bound connected inProgress) (n : ℕ) :
    (x.state n).server.sendMsgCount = UInt64.ofNat (x.state n).built.length := by
  obtain ⟨events, hrun⟩ := x.exists_run_state n
  rw [hstart] at hrun
  obtain ⟨⟨t, ht, hmatch⟩, -⟩ := exists_sound hdistinct hrun
  rw [← hmatch.server, ← hmatch.built]
  exact ht.streamed.counter

/-- The store is well formed and has no ids but those below 20. -/
theorem store_always (hdistinct : clientAddr ≠ serverAddr)
    (hstart : x.state 0 = start ι serverSocket clientSocket bound connected inProgress) (n : ℕ) :
    (x.state n).threads.client.mContainer.mPimpl.Valid ∧ (x.state n).ids ⊆ allIds := by
  obtain ⟨events, hrun⟩ := x.exists_run_state n
  rw [hstart] at hrun
  obtain ⟨-, t, ht, -, hstore⟩ := exists_sound hdistinct hrun
  rw [ids, ← hstore]
  refine ⟨ht.fed.genuine.validStore, fun k hk => ?_⟩
  obtain ⟨v, hv⟩ := mem_keys.mp hk
  exact mem_allIds.mpr (ht.fed.stored ht.ids hv).1

/-- No id leaves the store again. -/
theorem ids_always (hdistinct : clientAddr ≠ serverAddr)
    (hstart : x.state 0 = start ι serverSocket clientSocket bound connected inProgress) {n m : ℕ}
    (hm : n ≤ m) : (x.state n).ids ⊆ (x.state m).ids := by
  induction hm with
  | refl => exact Finset.Subset.refl _
  | @step m hm ih =>
    refine ih.trans ?_
    rcases step_store (x.next m) with hsame | ⟨msg, hadd⟩
    · rw [ids, ids, hsame]
    · rw [ids, ids, hadd, keys_add (store_always hdistinct hstart m).1]
      exact Finset.subset_union_left

/-- A server that has heard from the client and goes on with its rounds builds a message of every
id again and again, also after its counter has wrapped around. -/
theorem recurs_builds (hdistinct : clientAddr ≠ serverAddr)
    (hvalid : UDPSocket.isValid clientAddr = true)
    (hstart : x.state 0 = start ι serverSocket clientSocket bound connected inProgress)
    (hheard : ∃ n, (x.label n).Heard) (hserves : Recurs fun n => (x.label n).Serves) {k : UInt64}
    (hk : k < 20) : Recurs fun n => Builds k (x.state n) (x.state (n + 1)) := by
  have haddressed := addressed_always hvalid hstart
  obtain ⟨a, ha⟩ := hheard
  have hclient := x.always_from (fun s => s.Addressed ∧ s.server.mSocket.hasClient = true)
    (n := a + 1) ⟨haddressed (a + 1), (haddressed a).hasClient_of_heard (x.next a) ha⟩
    fun h hstep => ⟨h.1.step hvalid hstep, h.1.hasClient_step hstep h.2⟩
  have hone : ∀ n, (x.state (n + 1)).built.length = (x.state n).built.length ∨
      (x.state (n + 1)).built.length = (x.state n).built.length + 1 := fun n => by
    rcases step_built (x.next n) with hsame | hbuilt
    · exact .inl (congrArg List.length hsame)
    · exact .inr ((congrArg List.length hbuilt).trans List.length_append)
  have hup : Recurs fun n =>
      (x.state (n + 1)).built.length = (x.state n).built.length + 1 := fun n => by
    obtain ⟨m, hm, hserve⟩ := hserves (max n (a + 1))
    have hbuilt := built_of_serves (x.next m) hserve (hclient (m + 1) (by omega)).2
    exact ⟨m, by omega, (congrArg List.length hbuilt).trans List.length_append⟩
  intro n
  -- the counter stands at `k` when its next multiple of 2^64 and `k` messages have been built
  obtain ⟨m, hm, hlen, hlen'⟩ := x.exists_count_eq (f := fun s => s.built.length) hone hup
    (n := n) (v := (x.state n).built.length * 2 ^ 64 + k.toNat) (by omega)
  refine ⟨m, hm, makeMessageDiv20 (x.state m).server.sendMsgCount, ?_, ?_⟩
  · rcases step_built (x.next m) with hsame | hbuilt
    · rw [hsame] at hlen'
      omega
    · exact hbuilt
  · have hcount : (x.state m).server.sendMsgCount = k := by
      rw [counter_always hdistinct hstart m, hlen, ← UInt64.toNat_inj, UInt64.toNat_ofNat']
      have hlt := k.toNat_lt
      omega
    rw [hcount]
    show k % 20 = k
    rw [← UInt64.toNat_inj, UInt64.toNat_mod]
    exact Nat.mod_eq_of_lt (UInt64.lt_iff_toNat_lt.mp hk)

/-- If the server hears from the client once and goes on with its rounds, and of the messages of one
id that it builds again and again at least one is received, then in the end the store holds a message
for each of the twenty ids, and from then on it never changes. -/
theorem store_completes (hdistinct : clientAddr ≠ serverAddr)
    (hvalid : UDPSocket.isValid clientAddr = true)
    (hstart : x.state 0 = start ι serverSocket clientSocket bound connected inProgress)
    (hheard : ∃ n, (x.label n).Heard) (hserves : Recurs fun n => (x.label n).Serves)
    (hfair : ∀ k < 20, (Recurs fun n => Builds k (x.state n) (x.state (n + 1))) →
      ∃ n, Receives k (x.state n) (x.label n)) :
    ∃ n, ∀ m, n ≤ m →
      (x.state m).threads.client.mContainer = (x.state n).threads.client.mContainer ∧
        (x.state m).threads.client.mContainer.size = 20 ∧
        ∀ k, (x.state m).threads.client.mContainer.contains k = true ↔ k < 20 := by
  have hstore := store_always hdistinct hstart
  -- every id comes, and stays
  have hcomes : ∀ k ∈ allIds, ∀ᶠ n in Filter.atTop, k ∈ (x.state n).ids := fun k hk => by
    have hlt := mem_allIds.mp hk
    obtain ⟨n, hreceives⟩ := hfair k hlt
      (recurs_builds hdistinct hvalid hstart hheard hserves hlt)
    obtain ⟨msg, hid, hadd⟩ :=
      (addressed_always hvalid hstart n).store_of_receives (x.next n) hreceives
    refine Filter.eventually_atTop.mpr ⟨n + 1, fun m hm => ids_always hdistinct hstart hm ?_⟩
    rw [ids, hadd, keys_add (hstore n).1, hid]
    exact Finset.mem_union_right _ (Finset.mem_singleton_self k)
  obtain ⟨n, hn⟩ := Filter.eventually_atTop.mp ((Filter.eventually_all_finset allIds).mpr hcomes)
  have hall : ∀ m, n ≤ m → (x.state m).ids = allIds := fun m hm =>
    Finset.Subset.antisymm (hstore m).2 (hn m hm)
  refine ⟨n, fun m hm => ⟨?_, ?_, fun k => ?_⟩⟩
  · induction hm with
    | refl => rfl
    | @step m hm ih =>
      rw [← ih]
      rcases step_store (x.next m) with hsame | ⟨msg, hadd⟩
      · exact hsame
      · -- the id of the message is there already
        rw [hadd]
        apply add_of_mem (hstore m).1
        have hid : msg.messageId ∈ (x.state (m + 1)).ids := by
          rw [ids, hadd, keys_add (hstore m).1]
          exact Finset.mem_union_right _ (Finset.mem_singleton_self _)
        rw [hall (m + 1) (Nat.le_succ_of_le hm), ← hall m hm] at hid
        exact hid
  · rw [Container.size, (hstore m).1.size_eq, show keys _ = _ from hall m hm, card_allIds]
    rfl
  · rw [Container.contains, (hstore m).1.contains_iff, show keys _ = _ from hall m hm, mem_allIds]

end Always

/-! The client asks once, the server answers twenty times, and each message is received.  After that
the server goes on sending, but nothing leaves it any more. -/

def collectingEvents (pad : Buffer 5) : List (Event Unit) :=
  let ask : ClientRound := ⟨1, true, true, false, .error, pad⟩
  let store (k : ℕ) : ClientRound :=
    ⟨1, false, false, true,
      .datagram serverAddr ((makeMessageDiv20 (UInt64.ofNat k)).toRaw pad).bytes, pad⟩
  let answer : ServerRound :=
    ⟨1, true, .datagram queueingAddr (commandToRaw Client.cmd).bytes, true, true, pad⟩
  List.replicate 3 (.thread (.udp () ask)) ++ (List.range 20).flatMap fun k =>
    .server answer :: List.replicate (if k = 10 then 8 else 3) (.thread (.udp () (store k)))

/-- Where in the list the message `k` is received. -/
def collectingIndex (k : ℕ) : ℕ := if k ≤ 10 then 4 * k + 5 else 4 * k + 10

/-- The server has made `n` rounds in which nothing arrives and nothing can be sent. -/
def serving (r : ServerRound) (s : Deployment ι) : ℕ → Deployment ι
  | 0 => s
  | n + 1 => (serving r s n).afterServer ((serving r s n).server.startRound r).1
      ((serving r s n).server.startRound r).2

/-- The store is complete after the first twenty messages. -/
theorem store_completes_unit :
    ∃ x : Execution (Step (ι := Unit) queueingAddr),
      x.state 0 = start Unit 3 3 true true false ∧ ∃ n, ∀ m, n ≤ m →
        (x.state m).threads.client.mContainer = (x.state n).threads.client.mContainer ∧
          (x.state m).threads.client.mContainer.size = 20 := by
  let pad : Buffer 5 := ⟨[0, 0, 0, 0, 0], rfl⟩
  let unsent : ServerRound := ⟨1, false, .error, true, false, pad⟩
  let go := guard (Possible queueingAddr) (next (ι := Unit) queueingAddr)
  let events := collectingEvents pad
  obtain ⟨s, hrun, -⟩ := exists_run_of_foldlM go (start Unit 3 3 true true false) events
    (fun s => s.built.length) (b := 20) (by decide +kernel)
  rw [ofExcept_guard] at hrun
  obtain ⟨x, hstart, htake, hlabels, hx⟩ := exists_execution hrun
    ⟨serving unsent s, fun _ => .server unsent, fun _ => ⟨trivial, rfl⟩⟩ rfl
  have hreceives : ∀ k < 20, Receives (UInt64.ofNat k) (x.state (collectingIndex k))
      (x.label (collectingIndex k)) := fun k hk => by
    have hall : ∀ k < 20, ((events.take (collectingIndex k)).foldlM go
        (start Unit 3 3 true true false)).map (fun s => (events[collectingIndex k]?).any
          fun e => decide (Receives (UInt64.ofNat k) s e)) = .ok true := by decide +kernel
    have hindex : collectingIndex k < events.length := by
      have hlen : events.length = 88 := by decide +kernel
      rw [hlen, collectingIndex]
      split <;> omega
    have hreached : Run (Transition.ofExcept go) (start Unit 3 3 true true false)
        (events.take (collectingIndex k)) (x.state (collectingIndex k)) := by
      rw [ofExcept_guard]
      exact htake (collectingIndex k) (Nat.le_of_lt hindex)
    have hread := hall k hk
    rw [run_iff_foldlM.mp hreached, hlabels _ hindex] at hread
    exact of_decide_eq_true (Except.ok.inj hread)
  have hheard : (x.label 3).Heard := by
    have hlabel := hlabels 3 (by decide +kernel)
    rw [← Option.some.inj hlabel]
    exact ⟨by decide, rfl, RecvResult.noConfusion⟩
  have hserves : Recurs fun n => (x.label n).Serves := fun n => by
    refine ⟨events.length + n, Nat.le_add_left n _, ?_⟩
    show (x.label (events.length + n)).Serves
    rw [(hx n).2]
    exact ⟨by decide, rfl⟩
  obtain ⟨n, hn⟩ := store_completes (by decide) (by decide) hstart ⟨3, hheard⟩ hserves
    fun k hk _ => ⟨collectingIndex k.toNat, by
      have hreceived := hreceives k.toNat (UInt64.lt_iff_toNat_lt.mp hk)
      rwa [UInt64.ofNat_toNat] at hreceived⟩
  exact ⟨x, hstart, n, fun m hm => ⟨(hn m hm).1, (hn m hm).2.1⟩⟩


/-! ## Forwarding -/

section Forwarding

variable [DecidableEq ι] {clientAddr : SockAddr} {x : Execution (Step (ι := ι) clientAddr)}
  {serverSocket clientSocket : Int} {bound connected inProgress : Bool}

/-- The scheduler is fair to the receiver's threads, and a UDP thread that waits for `m_mutex_tcp` is
not passed over for ever. -/
structure Fair (x : Execution (Step (ι := ι) clientAddr)) : Prop where
  critical : ∀ i, x.WeaklyFair (fun s => (s.threads.udp i).holdsTcp = true)
    fun e => ∃ e', e.thread? = some e' ∧ e'.isUdp i
  tcp : x.StronglyFair (fun s => s.threads.TcpEnabled) fun e => ∃ e', e.thread? = some e' ∧ e'.isTcp
  lock : ∀ i, x.StronglyFair
    (fun s => (∃ msg, s.threads.udp i = .queueing msg) ∧ s.threads.tcpOwner = none)
    fun e => ∃ e', e.thread? = some e' ∧ e'.isUdp i

/-- The TCP thread has taken a message out and goes on until it is done with it. -/
theorem exists_send {y : Execution (Threads.Step (ι := ι))} (hfair : Threads.Fair y) {n : ℕ}
    {msg : MessageFormat} (hremoved : (y.state n).tcp = .removed msg) :
    ∃ m, n ≤ m ∧ (y.state m).tcp = .removed msg ∧ (y.label m).isTcp := by
  have hweak : y.WeaklyFair (fun s => s.tcp = .removed msg) Threads.Event.isTcp :=
    hfair.tcp.weaklyFair fun s hs => by
      unfold Threads.TcpEnabled
      rw [hs]
      trivial
  apply hweak.exists_act (P := fun s => s.tcp = .removed msg) (fun s hs => hs) _ hremoved
  intro s e t hs hother hstep
  obtain ⟨i, r, hudp⟩ := Threads.udpStep_of_not_isTcp hstep hother
  cases Threads.udpMove_of_step hudp with
  | notify hphase =>
    show s.tcp.notify = .removed msg
    rw [hs]
    rfl
  | lockMessage | save | lockTcp | size | insert | unlockTcp | unlockMessage => exact hs

/-- A queue into which something is inserted, also under a key that it has already, is served. -/
theorem exists_taken {y : Execution (Threads.Step (ι := ι))} (hfair : Threads.Fair y)
    (hsync : ∀ n, (y.state n).Synchronised)
    (hmemory : ∀ n, (y.state n).queue.mPimpl.contents.length < 2 ^ 64) {i : ι}
    (hlock : y.StronglyFair (fun s => (∃ msg, s.udp i = .queueing msg) ∧ s.tcpOwner = none)
      (Threads.Event.isUdp i)) {n : ℕ} {msg : MessageFormat}
    (hqueueing : (y.state n).udp i = .queueing msg) :
    ∃ m, n ≤ m ∧ (∃ taken, (y.state m).tcp = .removed taken) ∧ (y.label m).isTcp := by
  obtain ⟨a, ha, -, -, hqueue⟩ := Threads.exists_insert hfair hsync hlock hqueueing
  have hne : (y.state (a + 1)).queue.mPimpl.contents ≠ [] := by
    intro hempty
    have hkeys := keys_eq_empty_iff.mpr hempty
    rw [hqueue] at hkeys
    change keys ((y.state a).queue.mPimpl.insert _ msg).contents = ∅ at hkeys
    rw [(hsync a).valid.contents_insert, (hsync a).valid.sorted.keys_insertNew] at hkeys
    exact Finset.singleton_ne_empty _ (Finset.union_eq_empty.mp hkeys).2
  obtain ⟨b, ⟨index, taken, hvalued⟩, hown⟩ := Threads.exists_removal (hfair.drop (a + 1))
    (fun m => hsync (a + 1 + m)) (fun m => hmemory (a + 1 + m)) hne
  have hremoved := (Threads.step_of_valued (y.next (a + 1 + b)) hown hvalued).1
  obtain ⟨m, hm, hphase, hsends⟩ := exists_send hfair hremoved
  exact ⟨m, by omega, ⟨taken, hphase⟩, hsends⟩

theorem Addressed.queueing_of_receives {s t : Deployment ι} {e : Event ι} (h : s.Addressed)
    (hstep : Step clientAddr s e t) (hreceives : Receives tcpResendID s e) :
    ∃ i msg, t.threads.udp i = .queueing msg := by
  rcases step_cases hstep with ⟨r, rfl, -, rfl⟩ | ⟨e', v, rfl, -, hv, rfl⟩ | ⟨p, rfl, rfl⟩
  · exact hreceives.elim
  · cases e' with
    | udp i r =>
      obtain ⟨hlocked, hreads, hreceived⟩ := hreceives
      obtain ⟨msg, hmsg, hid⟩ := Option.map_eq_some_iff.mp hreceived
      change s.threads.udpStep i r = .ok v at hv
      simp only [Threads.udpStep, hlocked] at hv
      have hrequired : Client.sendViaTcpRequired msg = true := decide_eq_true hid
      rw [← Except.ok.inj hv, (Client.startBeforeTcp_reads h.hasServer hreads hmsg).2, hrequired]
      exact ⟨i, msg, Threads.setUdp_self s.threads i _⟩
    | tcp res => exact hreceives.elim
  · exact hreceives.elim

/-- The TCP thread has tried to send what it had taken out. -/
theorem step_send {s t : Deployment ι} {e : Event ι} (hstep : Step clientAddr s e t)
    {e' : Threads.Event ι} (hthread : e.thread? = some e') (hown : e'.isTcp) {msg : MessageFormat}
    (hremoved : s.threads.tcp = .removed msg) : ∃ o, t.outcomes = s.outcomes ++ [o] := by
  rcases step_cases hstep with ⟨r, rfl, -, rfl⟩ | ⟨d, v, rfl, -, hv, rfl⟩ | ⟨p, rfl, rfl⟩
  · cases hthread
  · obtain rfl := Option.some.inj hthread
    cases d with
    | udp i r => exact hown.elim
    | tcp res =>
      change s.threads.tcpStep res = .ok v at hv
      simp only [Threads.tcpStep, hremoved] at hv
      show ∃ o, s.outcomes ++ outcomeOf s.threads v = s.outcomes ++ [o]
      rw [outcomeOf, hremoved, ← Except.ok.inj hv]
      exact ⟨_, rfl⟩
  · cases hthread

/-- The threads of the deployment as a system of their own. -/
theorem exists_threads (hsteps : Recurs fun n => (x.label n).thread?.isSome = true) :
    ∃ (y : Execution (Threads.Step (ι := ι))) (time : ℕ → ℕ),
      x.Projects Deployment.threads Event.thread? y time := by
  apply x.exists_projects Deployment.threads Event.thread? _ _ hsteps
  · intro s e t e' hstep hthread
    rcases step_cases hstep with ⟨r, rfl, -, rfl⟩ | ⟨d, v, rfl, -, hv, rfl⟩ | ⟨p, rfl, rfl⟩
    · cases hthread
    · obtain rfl := Option.some.inj hthread
      exact hv
    · cases hthread
  · intro s e t hstep hother
    rcases step_cases hstep with ⟨r, -, -, rfl⟩ | ⟨d, v, rfl, -, -, rfl⟩ | ⟨p, -, rfl⟩
    · rfl
    · cases hother
    · rfl

/-- If the server hears from the client once and goes on with its rounds, and of the messages to
forward that it builds again and again some are received again and again, then the TCP thread never
stops: again and again `sendViaTcpSocket` is done with a message, sent or not, one that the server
has built with the id to forward. -/
theorem forwarding_goes_on (hdistinct : clientAddr ≠ serverAddr)
    (hvalid : UDPSocket.isValid clientAddr = true)
    (hstart : x.state 0 = start ι serverSocket clientSocket bound connected inProgress)
    (hheard : ∃ n, (x.label n).Heard) (hserves : Recurs fun n => (x.label n).Serves)
    (hnetwork : (Recurs fun n => Builds tcpResendID (x.state n) (x.state (n + 1))) →
      Recurs fun n => Receives tcpResendID (x.state n) (x.label n))
    (hfair : Fair x)
    (hmemory : ∀ n, (x.state n).threads.queue.mPimpl.contents.length < 2 ^ 64) :
    Recurs fun n => ∃ o, (x.state (n + 1)).outcomes = (x.state n).outcomes ++ [o] ∧
      o.msg.messageId = tcpResendID ∧ o.msg ∈ (x.state (n + 1)).built := by
  have hreceives := hnetwork
    (recurs_builds hdistinct hvalid hstart hheard hserves (k := tcpResendID) (by decide))
  obtain ⟨y, time, hy⟩ := exists_threads (x := x) fun n => by
    obtain ⟨m, hm, hreceived⟩ := hreceives n
    refine ⟨m, hm, ?_⟩
    show (x.label m).thread?.isSome = true
    cases hlabel : x.label m with
    | thread e => rfl
    | server r =>
      rw [hlabel] at hreceived
      exact hreceived.elim
    | drop p =>
      rw [hlabel] at hreceived
      exact hreceived.elim
  have hsync := Threads.synchronised_always (x := y) (by rw [hy.start, hstart]; rfl)
  have hthreads : Threads.Fair y :=
    ⟨fun i => hy.weaklyFair (hfair.critical i), hy.stronglyFair hfair.tcp⟩
  intro n
  obtain ⟨m, hm, hreceived⟩ := hreceives n
  obtain ⟨i, msg, hqueueing⟩ :=
    (addressed_always hvalid hstart m).queueing_of_receives (x.next m) hreceived
  obtain ⟨a, ha, hstate⟩ := hy.exists_state (m + 1)
  rw [hstate] at hqueueing
  obtain ⟨b, hb, ⟨taken, hremoved⟩, hown⟩ := exists_taken hthreads hsync
    (fun k => hy.state k ▸ hmemory (time k)) (hy.stronglyFair (hfair.lock i)) hqueueing
  have htime := hy.strictMono.monotone hb
  rw [← hy.state b] at hremoved
  obtain ⟨o, ho⟩ := step_send (x.next (time b)) (hy.label b) hown hremoved
  refine ⟨time b, by omega, o, ho, ?_⟩
  -- what was taken out was built by the server
  obtain ⟨events, hrun⟩ := x.exists_run_state (time b + 1)
  rw [hstart] at hrun
  obtain ⟨⟨t, ht, hmatch⟩, -⟩ := exists_sound hdistinct hrun
  rw [← hmatch.built]
  apply ht.fed.forwarded o
  rw [hmatch.outcomes, ho]
  exact List.mem_append_right _ List.mem_cons_self

end Forwarding

/-! The message 10 stays in flight and is received again and again, by a thread that is about to read
when the round begins. -/

section Repeating

variable [DecidableEq ι] {s t : Deployment ι}

/-- What the threads can do on their own they can do with the datagrams that are in flight. -/
theorem exists_run_threads (clientAddr : SockAddr) {events : List (Threads.Event ι)} {v : Threads ι}
    (hrun : Run Threads.Step s.threads events v)
    (hflight : ∀ i r, .udp i r ∈ events → s.Delivers clientAddr r.recvResult) :
    ∃ t, Run (Step clientAddr) s (events.map .thread) t ∧ t.threads = v ∧
      ∀ p ∈ s.network, p ∈ t.network := by
  induction hrun with
  | nil => exact ⟨s, .nil, rfl, fun _ hp => hp⟩
  | @snoc events u v e _ hlast ih =>
    obtain ⟨t, hbefore, rfl, hnetwork⟩ :=
      ih fun i r hmem => hflight i r (List.mem_append_left _ hmem)
    have hpossible : t.Possible clientAddr (.thread e) := by
      cases e with
      | udp i r =>
        intro _
        have hdelivers := hflight i r (List.mem_append_right _ List.mem_cons_self)
        cases hres : r.recvResult with
        | error => trivial
        | datagram source data =>
          rw [hres] at hdelivers
          exact hnetwork _ hdelivers
      | tcp res => trivial
    refine ⟨t.afterThread clientAddr e v, ?_, rfl, fun p hp =>
      List.mem_append_left _ (hnetwork p hp)⟩
    rw [List.map_append]
    apply hbefore.snoc
    refine ⟨hpossible, ?_⟩
    show (t.threads.step e).map (t.afterThread clientAddr e) = _
    rw [show t.threads.step e = .ok v from hlast]
    rfl

theorem run_queue_length {clientAddr : SockAddr} {events : List (Event ι)} (hrun : Run (Step clientAddr) s events t)
    (hvalid : s.threads.queue.mPimpl.Valid) : t.threads.queue.mPimpl.Valid ∧
      t.threads.queue.mPimpl.contents.length ≤
        s.threads.queue.mPimpl.contents.length + events.length := by
  induction hrun with
  | nil => exact ⟨hvalid, Nat.le_refl _⟩
  | snoc _ hlast ih =>
    rw [List.length_append, List.length_singleton]
    rcases step_cases hlast with ⟨r, -, -, rfl⟩ | ⟨e', v, -, -, hv, rfl⟩ | ⟨p, -, rfl⟩
    · exact ⟨ih.1, Nat.le_succ_of_le ih.2⟩
    · obtain ⟨hnext, hlen⟩ := Threads.step_queue_length ih.1 hv
      refine ⟨hnext, ?_⟩
      show v.queue.mPimpl.contents.length ≤ _
      omega
    · exact ⟨ih.1, Nat.le_succ_of_le ih.2⟩

end Repeating

def repeatedPacket (pad : Buffer 5) : Packet :=
  ⟨serverAddr, queueingAddr, ((makeMessageDiv20 10).toRaw pad).bytes⟩

/-- The thread saves and queues the message and begins its next round, and the TCP thread forwards
it. -/
def repeatedThreads (pad : Buffer 5) : List (Threads.Event Unit) :=
  let store : ClientRound :=
    ⟨1, false, false, true, .datagram serverAddr ((makeMessageDiv20 10).toRaw pad).bytes, pad⟩
  List.replicate 8 (.udp () store) ++ List.replicate 7 (.tcp .error)

def repeatedEvents (pad : Buffer 5) : List (Event Unit) :=
  (repeatedThreads pad).map .thread ++ [.server ⟨1, false, .error, true, false, pad⟩]

/-- The threads at the beginning of a round. -/
def repeating : Threads Unit where
  client := { Client.construct 3 true false with
    mContainer := ({} : Container).add (makeMessageDiv20 10) }
  messageOwner := some ()
  udp := fun _ => .messageLocked

theorem eq_repeating {s : Threads Unit} (h : (s.client, s.messageOwner, s.tcpOwner.isNone,
    s.udp (), s.tcp) = (repeating.client, some (), true, .messageLocked, .outside)) :
    s = repeating := by
  obtain ⟨client, messageOwner, tcpOwner, udp, tcp⟩ := s
  simp only [Prod.mk.injEq] at h
  obtain ⟨rfl, rfl, hfree, hudp, rfl⟩ := h
  obtain rfl := Option.isNone_iff_eq_none.mp hfree
  obtain rfl : udp = fun _ => .messageLocked := funext fun _ => hudp
  rfl

theorem exists_run_repeating :
    let pad : Buffer 5 := ⟨[0, 0, 0, 0, 0], rfl⟩
    ∀ s : Deployment Unit, s.threads = repeating ∧ repeatedPacket pad ∈ s.network →
      ∃ t, Run (Step queueingAddr) s (repeatedEvents pad) t ∧ t.threads = repeating ∧
        repeatedPacket pad ∈ t.network := by
  intro pad s ⟨hs, hpacket⟩
  obtain ⟨v, hthreads, hv⟩ := exists_run_of_foldlM Threads.step repeating (repeatedThreads pad)
    (fun s => (s.client, s.messageOwner, s.tcpOwner.isNone, s.udp (), s.tcp))
    (b := (repeating.client, some (), true, .messageLocked, .outside)) (by decide +kernel)
  obtain rfl := eq_repeating hv
  have hflight : ∀ i r, .udp i r ∈ repeatedThreads pad → s.Delivers queueingAddr r.recvResult := by
    intro i r hmem
    rcases List.mem_append.mp hmem with hmem | hmem
    · have heq := List.eq_of_mem_replicate hmem
      injection heq with _ heq
      rw [heq]
      exact hpacket
    · have heq := List.eq_of_mem_replicate hmem
      cases heq
  rw [← hs] at hthreads
  obtain ⟨t, hrun, ht, hnetwork⟩ := exists_run_threads queueingAddr hthreads hflight
  rw [hs] at ht
  exact ⟨_, hrun.snoc ⟨trivial, rfl⟩, ht, List.mem_append_left _ (hnetwork _ hpacket)⟩

/-- Round after round the message 10 is received, queued and taken for TCP. -/
theorem forwarding_goes_on_ten :
    ∃ x : Execution (Step (ι := Unit) queueingAddr),
      x.state 0 = start Unit 3 3 true true false ∧
        Recurs fun n => ∃ o, (x.state (n + 1)).outcomes = (x.state n).outcomes ++ [o] := by
  let pad : Buffer 5 := ⟨[0, 0, 0, 0, 0], rfl⟩
  let store : ClientRound :=
    ⟨1, false, false, true, .datagram serverAddr ((makeMessageDiv20 10).toRaw pad).bytes, pad⟩
  let ask : ClientRound := ⟨1, true, true, false, .error, pad⟩
  let answer : ServerRound :=
    ⟨1, true, .datagram queueingAddr (commandToRaw Client.cmd).bytes, true, true, pad⟩
  let events : List (Event Unit) := List.replicate 3 (.thread (.udp () ask)) ++
    List.replicate 11 (.server answer) ++ .thread (.udp () store) ::
      (repeatedThreads pad).map .thread
  obtain ⟨s, hrun, hs⟩ := exists_run_of_foldlM (guard (Possible queueingAddr) (next queueingAddr))
    (start Unit 3 3 true true false) events
    (fun s => decide (repeatedPacket pad ∈ s.network) && decide ((s.threads.client,
      s.threads.messageOwner, s.threads.tcpOwner.isNone, s.threads.udp (), s.threads.tcp) =
        (repeating.client, some (), true, .messageLocked, .outside)))
    (b := true) (by decide +kernel)
  rw [ofExcept_guard] at hrun
  obtain ⟨hpacket, hthreads⟩ := Bool.and_eq_true_iff.mp hs
  have hs : s.threads = repeating ∧ repeatedPacket pad ∈ s.network :=
    ⟨eq_repeating (of_decide_eq_true hthreads), of_decide_eq_true hpacket⟩
  obtain ⟨y, hy, hlabels, hround⟩ := exists_execution_of_cycle
    (fun s : Deployment Unit => s.threads = repeating ∧ repeatedPacket pad ∈ s.network)
    (by decide) hs exists_run_repeating
  obtain ⟨x, hstart, htake, hbefore, hx⟩ := exists_execution hrun y hy
  have hlen : (repeatedEvents pad).length = 16 := by decide
  rw [hlen] at hlabels hround
  -- every event of a round comes again and again
  have hrec : ∀ k < 16, ∀ e, (repeatedEvents pad)[k]? = some e → Recurs fun n => x.label n = e := by
    intro k hk e he n
    refine ⟨events.length + (16 * n + k), by omega, ?_⟩
    show x.label (events.length + (16 * n + k)) = e
    have hlabel := hlabels (16 * n + k)
    rw [Nat.mul_add_mod, Nat.mod_eq_of_lt hk, he] at hlabel
    rw [(hx _).2, ← Option.some.inj hlabel]
  have hudp := hrec 0 (by decide) (.thread (.udp () store)) rfl
  have htcp := hrec 8 (by decide) (.thread (.tcp .error)) rfl
  have hserver := hrec 15 (by decide) (.server ⟨1, false, .error, true, false, pad⟩) rfl
  have hreceives : Recurs fun n => Receives tcpResendID (x.state n) (x.label n) := by
    intro n
    refine ⟨events.length + 16 * n, by omega, ?_⟩
    obtain ⟨s', ⟨hs', -⟩, hreached⟩ := hround (16 * n)
    have hlabel := hlabels (16 * n)
    rw [Nat.mul_mod_right] at hreached hlabel
    obtain rfl := run_nil_iff.mp hreached
    show Receives tcpResendID (x.state (events.length + 16 * n)) (x.label (events.length + 16 * n))
    rw [(hx _).1, (hx _).2, ← Option.some.inj hlabel]
    refine ⟨?_, ⟨by decide, by decide, rfl⟩, by decide +kernel⟩
    rw [hs']
    rfl
  have hfair : Fair x := by
    apply Fair.mk
    · intro i n _
      obtain ⟨m, hm, hlabel⟩ := hudp n
      exact ⟨m, hm, .udp () store, congrArg Event.thread? hlabel, rfl⟩
    · intro _ n
      obtain ⟨m, hm, hlabel⟩ := htcp n
      exact ⟨m, hm, .tcp .error, congrArg Event.thread? hlabel, trivial⟩
    · intro i _ n
      obtain ⟨m, hm, hlabel⟩ := hudp n
      exact ⟨m, hm, .udp () store, congrArg Event.thread? hlabel, rfl⟩
  have hmemory : ∀ n, (x.state n).threads.queue.mPimpl.contents.length < 2 ^ 64 := by
    intro n
    have hevents : events.length = 30 := by decide
    rcases Nat.lt_or_ge n events.length with hlt | hge
    · have hqueue := (run_queue_length (htake n (Nat.le_of_lt hlt)) BstImpl.valid_empty).2
      have hshort := List.length_take_le n events
      have hempty : (start Unit 3 3 true true false).threads.queue.mPimpl.contents.length = 0 := rfl
      omega
    · obtain ⟨s', ⟨hs', -⟩, hreached⟩ := hround (n - events.length)
      have hvalid : s'.threads.queue.mPimpl.Valid := hs' ▸ BstImpl.valid_empty
      have hempty : s'.threads.queue.mPimpl.contents.length = 0 := by
        rw [hs']
        rfl
      have hqueue := (run_queue_length hreached hvalid).2.trans
        (Nat.add_le_add_left (List.length_take_le _ _) _)
      have hstate := (hx (n - events.length)).1
      rw [Nat.add_sub_cancel' hge] at hstate
      rw [hstate]
      omega
  have hheard : (x.label 3).Heard := by
    have hlabel := hbefore 3 (by decide)
    rw [← Option.some.inj hlabel]
    exact ⟨by decide, rfl, RecvResult.noConfusion⟩
  have hserves : Recurs fun n => (x.label n).Serves := by
    intro n
    obtain ⟨m, hm, hlabel⟩ := hserver n
    refine ⟨m, hm, ?_⟩
    show (x.label m).Serves
    rw [hlabel]
    exact ⟨by decide, rfl⟩
  have hgoes := forwarding_goes_on (by decide) (by decide) hstart ⟨3, hheard⟩ hserves
    (fun _ => hreceives) hfair hmemory
  refine ⟨x, hstart, fun n => ?_⟩
  obtain ⟨m, hm, o, ho, -⟩ := hgoes n
  exact ⟨m, hm, o, ho⟩

end Deployment

end MessageTransmitter
