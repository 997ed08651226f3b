import MessageTransmitter.Receiver.Synchronisation

/-!
# Which steps get in each other's way

The steps of two threads that can both move are either independent, so that their order makes no
difference, or both take the same mutex.  Nothing but the mutexes decides between interleavings.
-/

open Bytes Transition Mutex

namespace MessageTransmitter

/-- The thread is in a part of `start` that neither locks nor holds `m_mutex_tcp`. -/
def UdpPhase.apart : UdpPhase → Bool
  | .outside | .messageLocked | .finished => true
  | _ => false

namespace Threads

variable {ι : Type*}

def Event.thread : Event ι → Thread ι
  | .udp i _ => .udp i
  | .tcp _ => .tcp

/-- What the TCP thread changes. -/
def setTcp (s : Threads ι) (queue : Container) (tcpOwner : Option (Thread ι)) (phase : TcpPhase) :
    Threads ι :=
  { s.setQueue queue with tcpOwner := tcpOwner, tcp := phase }

/-- What the UDP threads change apart from `m_mutex_tcp`. -/
def setApart (s : Threads ι) (store : Container) (socket : UDPSocket) (messageOwner : Option ι)
    (udp : ι → UdpPhase) : Threads ι :=
  { s with
    client := { s.client with mContainer := store, mUdpSocket := socket }
    messageOwner := messageOwner
    udp := udp }

theorem tcpStep_setApart (s : Threads ι) (store : Container) (socket : UDPSocket)
    (messageOwner : Option ι) (udp : ι → UdpPhase) (res : StreamResult) :
    (s.setApart store socket messageOwner udp).tcpStep res =
      (s.tcpStep res).map fun t => t.setApart store socket messageOwner udp := by
  have hqueue : (s.setApart store socket messageOwner udp).queue = s.queue := rfl
  have hphase : (s.setApart store socket messageOwner udp).tcp = s.tcp := rfl
  unfold tcpStep
  rw [hphase, hqueue]
  cases s.tcp with
  | outside | woken =>
    show (if s.tcpOwner.isNone then _ else _) = Except.map _ (if s.tcpOwner.isNone then _ else _)
    split
    · rfl
    · rfl
  | ready =>
    dsimp only
    cases s.queue.beginIndex with
    | ok index => rfl
    | error f => rfl
  | indexed index =>
    dsimp only
    cases s.queue.beginValue with
    | ok msg => rfl
    | error f => rfl
  | checking | parking | parked _ | valued _ _ | removed _ | sent _ => rfl

theorem tcpStep_eq {s t : Threads ι} {res : StreamResult} (h : s.tcpStep res = .ok t) :
    t = s.setTcp t.queue t.tcpOwner t.tcp := by
  cases tcpMove_of_step h with
  | lock | check | park | wake | index | value | remove | send | unlock => rfl

variable [DecidableEq ι]

theorem udpStep_setTcp {s : Threads ι} {i : ι} (hapart : (s.udp i).apart = true) (queue : Container)
    (tcpOwner : Option (Thread ι)) (phase : TcpPhase) (r : ClientRound) :
    (s.setTcp queue tcpOwner phase).udpStep i r =
      (s.udpStep i r).map fun t => t.setTcp queue tcpOwner phase := by
  have hudp : (s.setTcp queue tcpOwner phase).udp i = s.udp i := rfl
  unfold udpStep
  rw [hudp]
  cases hphase : s.udp i with
  | outside =>
    show (if s.client.mUdpSocket.isOpen && s.messageOwner.isNone then _ else _) =
      Except.map _ (if s.client.mUdpSocket.isOpen && s.messageOwner.isNone then _ else _)
    split
    · rfl
    · rfl
  | messageLocked =>
    have hbefore : (s.setTcp queue tcpOwner phase).client.startBeforeTcp r = _ :=
      Client.startBeforeTcp_of_queue s.client queue r
    dsimp only
    rw [hbefore]
    rfl
  | finished => rfl
  | _ =>
    rw [hphase] at hapart
    cases hapart

theorem udpStep_eq {s t : Threads ι} {i : ι} {r : ClientRound} (h : s.udpStep i r = .ok t)
    (hapart : (s.udp i).apart = true) :
    t = s.setApart t.client.mContainer t.client.mUdpSocket t.messageOwner t.udp := by
  cases udpMove_of_step h with
  | lockMessage | unlockMessage => rfl
  | save hphase =>
    have hqueue := Client.startBeforeTcp_queue s.client r
    have hsocket := Client.startBeforeTcp_mTcpSocket s.client r
    generalize (s.client.startBeforeTcp r).2 = msg
    generalize (s.client.startBeforeTcp r).1 = client at hqueue hsocket
    obtain ⟨store, queue, udpSocket, tcpSocket⟩ := client
    obtain rfl : queue = s.client.mContainerTcpQueue := hqueue
    obtain rfl : tcpSocket = s.client.mTcpSocket := hsocket
    rfl
  | lockTcp _ hphase | size _ hphase | insert _ _ hphase | notify hphase | unlockTcp hphase =>
    rw [hphase] at hapart
    cases hapart

omit [DecidableEq ι] in
theorem tcpStep_blocked_of_owner {s : Threads ι} (hphase : s.tcp = .outside ∨ s.tcp = .woken)
    {owner : Thread ι} (howner : s.tcpOwner = some owner) {res : StreamResult} :
    s.tcpStep res = .error .blocked := by
  unfold tcpStep
  rcases hphase with hphase | hphase
  · rw [hphase, howner]
    rfl
  · rw [hphase, howner]
    rfl

theorem udpStep_blocked_of_tcpOwner {s : Threads ι} {i : ι} {msg : MessageFormat}
    (hphase : s.udp i = .queueing msg) {owner : Thread ι} (howner : s.tcpOwner = some owner)
    {r : ClientRound} : s.udpStep i r = .error .blocked := by
  unfold udpStep
  rw [hphase, howner]
  rfl

theorem udpStep_blocked_of_messageOwner {s : Threads ι} {i : ι} (hphase : s.udp i = .outside)
    {owner : ι} (howner : s.messageOwner = some owner) {r : ClientRound} :
    s.udpStep i r = .error .blocked := by
  unfold udpStep
  rw [hphase, howner]
  dsimp only
  rw [Option.isNone_some, Bool.and_false]
  rfl

/-! ## A UDP thread and the TCP thread -/

section UdpTcp

variable {s t u : Threads ι} {i : ι} {r : ClientRound} {res : StreamResult}

/-- Apart from `m_mutex_tcp` the two do not meet. -/
theorem commute_apart (hapart : (s.udp i).apart = true) (ht : s.udpStep i r = .ok t)
    (hu : s.tcpStep res = .ok u) : ∃ v, t.tcpStep res = .ok v ∧ u.udpStep i r = .ok v := by
  have hudp := udpStep_eq ht hapart
  have htcp := tcpStep_eq hu
  refine ⟨t.setTcp u.queue u.tcpOwner u.tcp, ?_, ?_⟩
  · rw [hudp, tcpStep_setApart, hu]
    show Except.ok _ = Except.ok _
    rw [htcp]
    rfl
  · rw [htcp, udpStep_setTcp hapart, ht]
    rfl

/-- A thread that waits on `m_cv_tcp` can wake up at any time. -/
theorem commute_wake {wasNotified : Bool} (hphase : s.tcp = .parked wasNotified)
    (ht : s.udpStep i r = .ok t) :
    ∃ v, t.tcpStep res = .ok v ∧ ({ s with tcp := .woken } : Threads ι).udpStep i r = .ok v := by
  have hparked : ∃ wasNotified, t.tcp = .parked wasNotified := by
    cases udpMove_of_step ht with
    | notify _ =>
      refine ⟨true, ?_⟩
      show s.tcp.notify = .parked true
      rw [hphase]
      rfl
    | lockMessage | save | lockTcp | size | insert | unlockTcp | unlockMessage =>
      exact ⟨wasNotified, hphase⟩
  have hwoken : ({ s with tcp := .woken } : Threads ι).udpStep i r =
      (s.udpStep i r).map fun t => { t with tcp := .woken } := by
    unfold udpStep
    dsimp only
    cases s.udp i with
    | outside =>
      dsimp only
      split
      · rfl
      · rfl
    | queueing msg =>
      dsimp only
      split
      · rfl
      · rfl
    | messageLocked | tcpLocked _ | sized _ _ | inserted | notified | finished => rfl
  refine ⟨{ t with tcp := .woken }, ?_, ?_⟩
  · obtain ⟨wasNotified', hparked⟩ := hparked
    simp only [tcpStep, hparked]
  · rw [hwoken, ht]
    rfl

/-- If neither of these is the case, the UDP thread is about to lock `m_mutex_tcp`, and so is the TCP
thread. -/
theorem compete_udp_tcp (hsync : s.Synchronised) (hapart : (s.udp i).apart = false)
    (hparked : ∀ wasNotified, s.tcp ≠ .parked wasNotified) (ht : s.udpStep i r = .ok t)
    (hu : s.tcpStep res = .ok u) :
    s.tcpOwner = none ∧ t.tcpOwner = some (.udp i) ∧ u.tcpOwner = some .tcp ∧
      t.tcpStep res = .error .blocked ∧ u.udpStep i r = .error .blocked := by
  have hinside : s.tcp.holdsTcp = true → s.tcpOwner = some .tcp := (hsync.tcp .tcp).mpr
  have htcp : s.tcpOwner = some .tcp ∨ (s.tcp = .outside ∨ s.tcp = .woken) ∧ s.tcpOwner = none ∧
      u = { s with tcpOwner := some .tcp, tcp := .checking } := by
    cases tcpMove_of_step hu with
    | lock hphase hfree => exact .inr ⟨hphase, hfree, rfl⟩
    | wake wasNotified hphase => exact absurd hphase (hparked wasNotified)
    | check hphase | park hphase | index _ hphase _ | value _ _ hphase _ | remove _ _ hphase
    | send _ hphase | unlock _ hphase =>
      rw [hphase] at hinside
      exact .inl (hinside rfl)
  have hudp : s.tcpOwner = some (.udp i) ∨ ∃ msg, s.udp i = .queueing msg ∧ s.tcpOwner = none ∧
      t = { s.setUdp i (.tcpLocked msg) with tcpOwner := some (.udp i) } := by
    cases udpMove_of_step ht with
    | lockTcp msg hphase hfree => exact .inr ⟨msg, hphase, hfree, rfl⟩
    | lockMessage hphase | save hphase | unlockMessage hphase =>
      rw [hphase] at hapart
      cases hapart
    | size _ hphase | insert _ _ hphase | notify hphase | unlockTcp hphase =>
      refine .inl ((hsync.tcp (.udp i)).mpr ?_)
      rw [critical, hphase]
      rfl
  rcases htcp with howner | ⟨hphase, hfree, rfl⟩
  · rcases hudp with howner' | ⟨msg, -, hfree, -⟩
    · rw [howner] at howner'
      cases howner'
    · rw [howner] at hfree
      cases hfree
  · rcases hudp with howner | ⟨msg, hqueueing, -, rfl⟩
    · rw [howner] at hfree
      cases hfree
    · refine ⟨hfree, rfl, rfl, ?_, ?_⟩
      · exact tcpStep_blocked_of_owner
          (s := { s.setUdp i (.tcpLocked msg) with tcpOwner := some (.udp i) }) hphase rfl
      · exact udpStep_blocked_of_tcpOwner
          (s := { s with tcpOwner := some .tcp, tcp := .checking }) hqueueing rfl

theorem commute_udp_tcp (hsync : s.Synchronised) (ht : s.udpStep i r = .ok t)
    (hu : s.tcpStep res = .ok u) : (∃ v, t.tcpStep res = .ok v ∧ u.udpStep i r = .ok v) ∨
      s.tcpOwner = none ∧ t.tcpOwner = some (.udp i) ∧ u.tcpOwner = some .tcp ∧
        t.tcpStep res = .error .blocked ∧ u.udpStep i r = .error .blocked := by
  cases hapart : (s.udp i).apart with
  | true => exact .inl (commute_apart hapart ht hu)
  | false =>
    by_cases hparked : ∃ wasNotified, s.tcp = .parked wasNotified
    · obtain ⟨wasNotified, hphase⟩ := hparked
      have hwoken : u = { s with tcp := .woken } := by
        simp only [tcpStep, hphase] at hu
        exact (Except.ok.inj hu).symm
      rw [hwoken]
      exact .inl (commute_wake hphase ht)
    · rw [not_exists] at hparked
      exact .inr (compete_udp_tcp hsync hapart hparked ht hu)

end UdpTcp

/-- Two UDP threads that can both move are at the head of their loops. -/
theorem compete_udp_udp {s t u : Threads ι} (hsync : s.Synchronised) {i j : ι} (hne : i ≠ j)
    {r r' : ClientRound} (ht : s.udpStep i r = .ok t) (hu : s.udpStep j r' = .ok u) :
    s.messageOwner = none ∧ t.messageOwner = some i ∧ u.messageOwner = some j ∧
      t.udpStep j r' = .error .blocked ∧ u.udpStep i r = .error .blocked := by
  have hmoves : ∀ {k r v}, s.udpStep k r = .ok v → s.messageOwner = some k ∨
      s.udp k = .outside ∧ s.messageOwner = none ∧
        v = { s.setUdp k .messageLocked with messageOwner := some k } := by
    intro k r v hv
    cases udpMove_of_step hv with
    | lockMessage hphase _ hfree => exact .inr ⟨hphase, hfree, rfl⟩
    | save hphase | lockTcp _ hphase | size _ hphase | insert _ _ hphase | notify hphase
    | unlockTcp hphase | unlockMessage hphase =>
      refine .inl ((hsync.messages k).mpr ?_)
      show (s.udp k).holdsMessage = true
      rw [hphase]
      rfl
  rcases hmoves ht with hi | ⟨hi, hfree, rfl⟩
  · rcases hmoves hu with hj | ⟨-, hfree, -⟩
    · rw [hi] at hj
      exact absurd (Option.some.inj hj) hne
    · rw [hi] at hfree
      cases hfree
  · rcases hmoves hu with hj | ⟨hj, -, rfl⟩
    · rw [hj] at hfree
      cases hfree
    · refine ⟨hfree, rfl, rfl, ?_, ?_⟩
      · exact udpStep_blocked_of_messageOwner
          (s := { s.setUdp i .messageLocked with messageOwner := some i })
          ((setUdp_of_ne s (Ne.symm hne) _).trans hj) rfl
      · exact udpStep_blocked_of_messageOwner
          (s := { s.setUdp j .messageLocked with messageOwner := some j })
          ((setUdp_of_ne s hne _).trans hi) rfl

/-- Of two threads that can both move in a reachable state, the steps can be taken in either order
with the same result, unless both take the same mutex, and then the first to move keeps the other
out. -/
theorem steps_commute {socket : Int} {connected inProgress : Bool} {events : List (Event ι)}
    {s t u : Threads ι} (hrun : Run Step (start ι socket connected inProgress) events s)
    {d e : Event ι} (hne : d.thread ≠ e.thread) (ht : Step s d t) (hu : Step s e u) :
    (∃ v, Step t e v ∧ Step u d v) ∨
      (s.messageOwner = none ∧ t.messageOwner.map .udp = some d.thread ∧
          u.messageOwner.map .udp = some e.thread ∨
        s.tcpOwner = none ∧ t.tcpOwner = some d.thread ∧ u.tcpOwner = some e.thread) ∧
        t.step e = .error .blocked ∧ u.step d = .error .blocked := by
  have hsync := synchronised_run hrun
  cases d with
  | udp i r =>
    cases e with
    | udp j r' =>
      have hij : i ≠ j := fun heq => hne (congrArg Thread.udp heq)
      obtain ⟨hfree, hi, hj, hblocked, hblocked'⟩ := compete_udp_udp hsync hij ht hu
      refine .inr ⟨.inl ⟨hfree, ?_, ?_⟩, hblocked, hblocked'⟩
      · rw [hi]
        rfl
      · rw [hj]
        rfl
    | tcp res =>
      rcases commute_udp_tcp hsync ht hu with hcommute | ⟨hfree, hi, htcp, hblocked, hblocked'⟩
      · exact .inl hcommute
      · exact .inr ⟨.inr ⟨hfree, hi, htcp⟩, hblocked, hblocked'⟩
  | tcp res =>
    cases e with
    | udp j r' =>
      rcases commute_udp_tcp hsync hu ht with ⟨v, hv, hv'⟩ | ⟨hfree, hj, htcp, hblocked, hblocked'⟩
      · exact .inl ⟨v, hv', hv⟩
      · exact .inr ⟨.inr ⟨hfree, htcp, hj⟩, hblocked', hblocked⟩
    | tcp res' => exact absurd rfl hne

/-- A UDP thread notifies while the TCP thread wakes up by itself. -/
theorem steps_commute_notify :
    let pad : Buffer 5 := ⟨[0, 0, 0, 0, 0], rfl⟩
    let r : ClientRound := ⟨1, false, false, true,
      .datagram serverAddr ((makeMessageDiv20 10).toRaw pad).bytes, pad⟩
    ∃ s t u v, Run Step (start Bool 3 true false)
        (List.replicate 3 (.tcp .error) ++ List.replicate 5 (.udp true r)) s ∧
      s.udp true = .inserted ∧ Step s (.udp true r) t ∧ Step s (.tcp .error) u ∧
      Step t (.tcp .error) v ∧ Step u (.udp true r) v := by
  intro pad r
  obtain ⟨s, hrun, hs⟩ := exists_run_of_foldlM step (start Bool 3 true false)
    (List.replicate 3 (.tcp .error) ++ List.replicate 5 (.udp true r))
    (fun s => (s.udp true, s.tcp)) (b := (.inserted, .parked false)) (by decide +kernel)
  obtain ⟨hudp, htcp⟩ := Prod.mk.inj hs
  have ht : Step s (.udp true r) { s.setUdp true .notified with tcp := s.tcp.notify } := by
    show s.udpStep true r = _
    unfold udpStep
    rw [hudp]
  have hu : Step s (.tcp .error) { s with tcp := .woken } := by
    show s.tcpStep .error = _
    unfold tcpStep
    rw [htcp]
  have hne : (Event.udp true r).thread ≠ Event.thread (.tcp .error) := fun heq => by cases heq
  rcases steps_commute hrun hne ht hu with ⟨v, hv, hv'⟩ | ⟨-, hblocked, -⟩
  · exact ⟨s, _, _, v, hrun, hudp, ht, hu, hv, hv'⟩
  · -- a thread that has been notified can go on
    change tcpStep { s.setUdp true .notified with tcp := s.tcp.notify } .error = _ at hblocked
    rw [htcp] at hblocked
    cases hblocked

end Threads

end MessageTransmitter
