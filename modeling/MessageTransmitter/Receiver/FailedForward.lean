import MessageTransmitter.Library.Transition
import MessageTransmitter.Receiver.Client

/-!
# Failed forwards

`sendViaTcpSocket` takes a message out of the queue before it looks at the connection and at the
result of `send`, and it does nothing with `wasSent` afterwards.  So a round keeps a message that it
could not send in no case at all: rounds keep their unsent messages only by sending them.
-/

open Bytes Transition

namespace MessageTransmitter

namespace Client

/-- One round of `sendViaTcpSocket` leaves the queue as it was if it did not send its message. -/
def KeepsUnsent (c : Client) (res : StreamResult) : Prop :=
  ∃ d o, c.sendRound res = .ok (d, o) ∧ (o.wasSent = false →
    c.mContainerTcpQueue.mPimpl.SameMapping d.mContainerTcpQueue.mPimpl ∧
      d.mContainerTcpQueue.size = c.mContainerTcpQueue.size)

def Sends (c : Client) (res : StreamResult) : Prop := c.mTcpSocket.connected = true ∧ res ≠ .error

/-- A round on a non-empty queue sends its message. -/
def SendsIfAny (c : Client) : Event → Prop
  | .udp _ => True
  | .tcp res => c.mContainerTcpQueue.empty = false → c.Sends res

theorem wasSent_iff (c : Client) (res : StreamResult) :
    (if c.mTcpSocket.connected then TCPSocket.sendBytes res else false) = true ↔ c.Sends res := by
  rw [Sends, TCPSocket.sendBytes]
  cases c.mTcpSocket.connected <;> simp

theorem keepsUnsent_iff {c : Client} (h : c.mContainerTcpQueue.mPimpl.Valid)
    (hempty : c.mContainerTcpQueue.empty = false) (res : StreamResult) :
    c.KeepsUnsent res ↔ c.Sends res := by
  obtain ⟨⟨k, v⟩, es, he⟩ := List.exists_cons_of_ne_nil (h.contents_ne_nil hempty)
  have hround := sendRound_of_cons h he res
  apply Iff.intro
  · rintro ⟨d, o, hok, hkeep⟩
    obtain ⟨rfl, rfl⟩ := Prod.mk.inj (Except.ok.inj (hround.symm.trans hok))
    rw [← wasSent_iff, ← Bool.not_eq_false]
    intro hunsent
    -- the size has gone down, so the message is not there any more
    have hk : c.mContainerTcpQueue.contains k = true :=
      h.contains_iff.mpr (SortedAssoc.mem_keys.mpr ⟨v, he ▸ List.mem_cons_self⟩)
    have hsize : (c.mContainerTcpQueue.remove k).size.toNat + 1 = c.mContainerTcpQueue.size.toNat :=
      BstImpl.size_remove_of_not_empty hk hempty
    rw [(hkeep hunsent).2] at hsize
    exact Nat.succ_ne_self _ hsize
  · intro hsends
    refine ⟨_, _, hround, fun hunsent => ?_⟩
    rw [(wasSent_iff c res).mpr hsends] at hunsent
    cases hunsent

theorem exists_valid_run {c : Client} (h : c.mContainerTcpQueue.mPimpl.Valid)
    (events : List Event) :
    ∃ d, Run (ofExcept step) c events d ∧ d.mContainerTcpQueue.mPimpl.Valid := by
  refine exists_run ?_ ?_ events
  · exact h
  · exact fun _ e hc => exists_step hc e

/-- In every reachable state with a message in the queue, a round keeps an unsent message exactly
when the socket is connected and `send` succeeds; and in a whole run all rounds do so exactly when
each of them that finds a message meets this condition. -/
theorem unsent_kept_iff (socket : Int) (connected inProgress : Bool) (events : List Event) :
    ∃ c, Run (ofExcept step) (construct socket connected inProgress) events c ∧
      (c.mContainerTcpQueue.empty = false → ∀ res, c.KeepsUnsent res ↔ c.Sends res) ∧
      ((∀ pre res, pre ++ [.tcp res] <+: events →
          ∀ d, Run (ofExcept step) (construct socket connected inProgress) pre d →
            d.mContainerTcpQueue.empty = false → d.KeepsUnsent res) ↔
        Run (Guarded SendsIfAny (ofExcept step)) (construct socket connected inProgress) events c) := by
  have hvalid : ∀ pre d, Run (ofExcept step) (construct socket connected inProgress) pre d →
      d.mContainerTcpQueue.mPimpl.Valid := by
    intro pre d hd
    obtain ⟨d', hd', hvalid⟩ :=
      exists_valid_run (c := construct socket connected inProgress) BstImpl.valid_empty pre
    rwa [hd.deterministic hd']
  obtain ⟨c, hrun, hc⟩ :=
    exists_valid_run (c := construct socket connected inProgress) BstImpl.valid_empty events
  refine ⟨c, hrun, fun hempty => keepsUnsent_iff hc hempty, ?_⟩
  rw [run_guarded_iff]
  apply Iff.intro
  · intro hkeep
    refine ⟨hrun, fun pre e hpre d hd => ?_⟩
    cases e with
    | udp r => trivial
    | tcp res =>
      intro hempty
      exact (keepsUnsent_iff (hvalid pre d hd) hempty res).mp (hkeep pre res hpre d hd hempty)
  · rintro ⟨-, hguarded⟩ pre res hpre d hd hempty
    exact (keepsUnsent_iff (hvalid pre d hd) hempty res).mpr (hguarded pre _ hpre d hd hempty)

/-- A message is received and queued, and then cannot be sent, with or without a connection. -/
theorem unsent_kept_broken :
    let pad : Buffer 5 := ⟨[0, 0, 0, 0, 0], rfl⟩
    let r : ClientRound :=
      { selected := 1, readySend := true, sendAccepted := true, readyRecv := true, padding := pad
        recvResult := .datagram (UDPSocket.bindAddr loopbackAddr recvUdpPort)
          ((makeMessageWithId 10).toRaw pad).bytes }
    ∀ connected, ∃ c, Run (ofExcept step) (construct 3 connected false) [.udp r] c ∧
      c.mContainerTcpQueue.size = 1 ∧ ¬ c.KeepsUnsent .error := by
  intro pad r connected
  obtain ⟨c, hrun, hsize⟩ := exists_run_of_foldlM step (construct 3 connected false) [.udp r]
    (fun c => c.mContainerTcpQueue.size) (b := 1) (by cases connected <;> decide +kernel)
  have hempty : c.mContainerTcpQueue.empty = false := by
    rw [Container.empty, BstImpl.empty]
    exact decide_eq_false fun hzero => absurd (hsize.symm.trans hzero) (by decide)
  obtain ⟨d, hd, hvalid⟩ :=
    exists_valid_run (c := construct 3 connected false) BstImpl.valid_empty [.udp r]
  obtain rfl := hrun.deterministic hd
  exact ⟨c, hrun, hsize, fun hkeep => ((keepsUnsent_iff hvalid hempty .error).mp hkeep).2 rfl⟩

end Client

end MessageTransmitter
