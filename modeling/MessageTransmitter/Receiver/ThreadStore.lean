import MessageTransmitter.Library.SortedAssoc
import MessageTransmitter.Receiver.Threads

/-!
# The store under the threads

`m_container` is filled by the UDP threads and read by nobody while they run: a message that is in it
stays, and one that comes to be in it was read from the socket.
-/

open Bytes Transition SortedAssoc

namespace MessageTransmitter

/-- The message of the datagram that a round is offered. -/
def ClientRound.received (r : ClientRound) : Option MessageFormat :=
  match r.recvResult with
  | .error => none
  | .datagram _ data => some (MessageFormat.ofRaw ((({} : MessageFormat).toRaw r.padding).fill data))

/-- `select` reports a datagram, and the client gets to reading it. -/
def ClientRound.Reads (r : ClientRound) : Prop :=
  r.selected ≠ -1 ∧ r.selected ≠ 0 ∧ r.readyRecv = true

instance ClientRound.instDecidableReads : DecidablePred ClientRound.Reads := fun r =>
  inferInstanceAs (Decidable (r.selected ≠ -1 ∧ r.selected ≠ 0 ∧ r.readyRecv = true))

/-- The store changes only by a message that is read. -/
theorem Client.startBeforeTcp_mContainer (c : Client) (r : ClientRound) :
    (c.startBeforeTcp r).1.mContainer = c.mContainer ∨
      r.Reads ∧ c.mUdpSocket.hasServer = true ∧ ∃ msg, r.received = some msg ∧
        (c.startBeforeTcp r).1.mContainer = c.mContainer.add msg := by
  unfold startBeforeTcp
  split_ifs with herror htimeout hserver hready
  · exact .inl rfl
  · exact .inl rfl
  · exact .inl rfl
  · unfold ClientRound.received
    cases r.recvResult with
    | error => exact .inl rfl
    | datagram source data =>
      refine .inr ⟨⟨herror, htimeout, hready⟩, by simpa using hserver, _, rfl, ?_⟩
      simp only [recvBeforeTcp, recvMessage, UDPSocket.recvBytes_datagram, if_true]
      rfl
  · exact .inl rfl

namespace Threads

variable {ι : Type*} [DecidableEq ι]

/-- A UDP thread reads the message from the socket: it has taken `m_mutex_message`, its client has a
server, and `select` reports the datagram. -/
def Receives (s : Threads ι) (msg : MessageFormat) : Event ι → Prop
  | .udp i r => s.udp i = .messageLocked ∧ s.client.mUdpSocket.hasServer = true ∧ r.Reads ∧
      r.received = some msg
  | .tcp _ => False

/-- Only a UDP thread that reads a message puts something into `m_container`. -/
theorem step_store {s t : Threads ι} {e : Event ι} (h : Step s e t) :
    t.client.mContainer = s.client.mContainer ∨ ∃ msg, s.Receives msg e ∧
      t.client.mContainer = s.client.mContainer.add msg := by
  cases e with
  | udp i r =>
    have hmove := udpMove_of_step h
    cases hmove with
    | save hphase =>
      rcases Client.startBeforeTcp_mContainer s.client r with hsame | ⟨hreads, hserver, msg, hmsg, hadd⟩
      · exact .inl hsame
      · exact .inr ⟨msg, ⟨hphase, hserver, hreads, hmsg⟩, hadd⟩
    | lockMessage | lockTcp | size | insert | notify | unlockTcp | unlockMessage => exact .inl rfl
  | tcp res =>
    have hmove := tcpMove_of_step h
    cases hmove with
    | lock | check | park | wake | index | value | remove | send | unlock => exact .inl rfl

theorem step_store_valid {s t : Threads ι} {e : Event ι} (hvalid : s.client.mContainer.mPimpl.Valid)
    (h : Step s e t) : t.client.mContainer.mPimpl.Valid := by
  rcases step_store h with hsame | ⟨msg, -, hadd⟩
  · rw [hsame]
    exact hvalid
  · rw [hadd]
    exact hvalid.insert msg.messageId msg

theorem step_write_once {s t : Threads ι} {e : Event ι} (hvalid : s.client.mContainer.mPimpl.Valid)
    (h : Step s e t) (k : UInt64) (v : MessageFormat) :
    (s.client.mContainer.atId k = .ok v → t.client.mContainer.atId k = .ok v) ∧
      (t.client.mContainer.atId k = .ok v →
        s.client.mContainer.atId k = .ok v ∨ v.messageId = k ∧ s.Receives v e) := by
  rcases step_store h with hsame | ⟨msg, hreceives, hadd⟩
  · rw [hsame]
    exact ⟨id, .inl⟩
  · have hcontents : t.client.mContainer.mPimpl.contents =
        insertNew msg.messageId msg s.client.mContainer.mPimpl.contents := by
      rw [hadd]
      exact hvalid.contents_insert msg.messageId msg
    have hs : s.client.mContainer.atId k = .ok v ↔ _ := hvalid.atId_ok_iff
    have ht : t.client.mContainer.atId k = .ok v ↔ _ := (step_store_valid hvalid h).atId_ok_iff
    rw [hs, ht, hcontents]
    refine ⟨mem_insertNew_of_mem, fun hmem => ?_⟩
    rcases mem_insertNew hmem with heq | hmem
    · obtain ⟨rfl, rfl⟩ := Prod.mk.inj heq
      exact .inr ⟨rfl, hreceives⟩
    · exact .inl hmem

/-- What `m_container` holds under an id it holds from then on, whatever the threads do, and what it
comes to hold was read from the socket by a UDP thread in one of the steps meanwhile, and carries the
id. -/
theorem store_write_once {socket : Int} {connected inProgress : Bool}
    {events more : List (Event ι)} {s t : Threads ι}
    (hrun : Run Step (start ι socket connected inProgress) events s) (hmore : Run Step s more t)
    (k : UInt64) (v : MessageFormat) :
    (s.client.mContainer.atId k = .ok v → t.client.mContainer.atId k = .ok v) ∧
      (t.client.mContainer.atId k = .ok v → s.client.mContainer.atId k = .ok v ∨
        v.messageId = k ∧ ∃ pre e u, pre ++ [e] <+: more ∧ Run Step s pre u ∧ u.Receives v e) := by
  have hvalid : s.client.mContainer.mPimpl.Valid :=
    hrun.invariant (fun u => u.client.mContainer.mPimpl.Valid) BstImpl.valid_empty step_store_valid
  induction hmore with
  | nil => exact ⟨id, .inl⟩
  | snoc hbefore hlast ih =>
    have hu := hbefore.invariant (fun u => u.client.mContainer.mPimpl.Valid) hvalid step_store_valid
    obtain ⟨hstays, hcame⟩ := step_write_once hu hlast k v
    refine ⟨fun h => hstays (ih.1 h), fun h => ?_⟩
    rcases hcame h with hold | ⟨hid, hreceives⟩
    · rcases ih.2 hold with hfirst | ⟨hid, pre, e, u, hpre, hpreRun, hreceives⟩
      · exact .inl hfirst
      · exact .inr ⟨hid, pre, e, u, hpre.trans (List.prefix_append _ _), hpreRun, hreceives⟩
    · exact .inr ⟨hid, _, _, _, List.prefix_refl _, hbefore, hreceives⟩

/-- Message 3 is read in the second step of its thread; a second message with the id 3 that another
thread reads later is not stored. -/
theorem store_write_once_three :
    let pad : Buffer 5 := ⟨[0, 0, 0, 0, 0], rfl⟩
    let first : MessageFormat := makeMessageWithId 3
    let second : MessageFormat := { makeMessageWithId 3 with messageData := 23 }
    let store (msg : MessageFormat) : ClientRound :=
      ⟨1, false, false, true, .datagram serverAddr (msg.toRaw pad).bytes, pad⟩
    let events : List (Event Bool) := List.replicate 3 (.udp true (store first))
    let more : List (Event Bool) := List.replicate 3 (.udp false (store second))
    ∃ s t, Run Step (start Bool 3 true false) events s ∧ Run Step s more t ∧
      t.client.mContainer.atId 3 = .ok first ∧
      ∃ pre e u, pre ++ [e] <+: events ∧ Run Step (start Bool 3 true false) pre u ∧
        u.Receives first e := by
  intro pad first second store events more
  obtain ⟨s, hrun, hobs⟩ := exists_run_of_foldlM step (start Bool 3 true false) events
    (fun s => s.client.mContainer.atId 3) (b := .ok first) (by decide +kernel)
  obtain ⟨t, hboth, -⟩ := exists_run_of_foldlM step (start Bool 3 true false) (events ++ more)
    (fun _ => ()) (b := ()) (by decide +kernel)
  obtain ⟨s', hrun', hmore⟩ := run_append_iff.mp hboth
  obtain rfl : s' = s := hrun'.deterministic hrun
  refine ⟨s', t, hrun, hmore, (store_write_once hrun hmore 3 first).1 hobs, ?_⟩
  -- nothing is in the store at the beginning
  rcases (store_write_once .nil hrun 3 first).2 hobs with hempty | ⟨-, hread⟩
  · cases hempty
  · exact hread

end Threads

end MessageTransmitter
