import MessageTransmitter.Library.Transition
import MessageTransmitter.Receiver.Client
import Mathlib.Data.Multiset.AddSub
import Mathlib.Data.Multiset.Filter

/-!
# The forwarding queue

`m_containerTcpQueue` through whole runs of the client.  A UDP thread puts a message under the
current size of the queue, the thread in `sendViaTcpSocket` takes out the message with the least
index.  Both hold `m_mutex_tcp` while they do it, so a run is a list of such steps in any order.

The queue never makes up a message (`accounted_run`).  Indices are reused once messages have
left, so a message is lost when its index is taken (`nothing_lost_iff`).
-/

open SortedAssoc Transition

namespace MessageTransmitter

structure Forwarding where
  client : Client
  received : List MessageFormat := []
  -- The rounds of `sendViaTcpSocket`, each with the enqueue step of the message it took.
  departures : List (ℕ × SendOutcome) := []
  -- The enqueue step of the message stored under an index, steps being counted from 0.
  owner : UInt64 → ℕ := fun _ => 0

namespace Forwarding

inductive Event where
  -- a UDP thread receives a message
  | udp (msg : MessageFormat)
  -- a round of `sendViaTcpSocket`, with the result of `send`
  | tcp (res : StreamResult)
  deriving DecidableEq, Repr

def Event.received : Event → Option MessageFormat
  | .udp msg => some msg
  | .tcp _ => none

def queue (s : Forwarding) : Container := s.client.mContainerTcpQueue

def enqueued (s : Forwarding) : List MessageFormat := s.received.filter Client.sendViaTcpRequired

def dequeued (s : Forwarding) : List MessageFormat := s.departures.map fun d => d.2.msg

def stored (s : Forwarding) : List MessageFormat := s.queue.mPimpl.contents.map Prod.snd

def step (s : Forwarding) : Event → Except Fault Forwarding
  | .udp msg =>
      let index := s.queue.size
      -- what `receive` does to the queue, for the record
      let stores := Client.sendViaTcpRequired msg && !s.queue.contains index
      .ok { s with
        client := s.client.receive msg
        received := s.received ++ [msg]
        owner := if stores then Function.update s.owner index s.enqueued.length else s.owner }
  | .tcp res =>
      -- the wait on `m_cv_tcp` goes on while the queue is empty
      if s.queue.empty then .ok s
      else do
        let index ← s.queue.beginIndex
        let (client, outcome) ← s.client.sendRound res
        return { s with
          client := client
          departures := s.departures ++ [(s.owner index, outcome)] }

abbrev Step : Forwarding → Event → Forwarding → Prop := ofExcept step

def start (socket : Int) (connected inProgress : Bool) : Forwarding where
  client := Client.construct socket connected inProgress

/-- A message for the queue finds its index unused. -/
def FreeIndex (s : Forwarding) : Event → Prop
  | .udp msg => Client.sendViaTcpRequired msg = true → s.queue.contains s.queue.size = false
  | .tcp _ => True

/-- A message for the queue finds its index used, or above all indices in the queue. -/
def NoOvertaking (s : Forwarding) : Event → Prop
  | .udp msg => Client.sendViaTcpRequired msg = true → s.queue.contains s.queue.size = false →
      ∀ k, s.queue.contains k = true → k < s.queue.size
  | .tcp _ => True

/-- Every message handed to the queue has left it or is still there. -/
def NothingLost (s : Forwarding) : Prop :=
  (s.enqueued : Multiset MessageFormat) ≤ s.dequeued + s.stored

/-! ## What a step does -/

/-- What is in the queue, with the enqueue steps, in the order in which it will leave. -/
def waiting (s : Forwarding) : List (ℕ × MessageFormat) :=
  s.queue.mPimpl.contents.map fun e => (s.owner e.1, e.2)

/-- What has left the queue, followed by what is in it. -/
def leaving (s : Forwarding) : List (ℕ × MessageFormat) :=
  (s.departures.map fun d => (d.1, d.2.msg)) ++ s.waiting

theorem leaving_map_snd (s : Forwarding) : s.leaving.map Prod.snd = s.dequeued ++ s.stored := by
  simp [leaving, waiting, dequeued, stored, Function.comp_def]

/-- Everything a step can do to the queue: leave it alone, pass its first message on, ignore a new
message, or store it behind the messages with smaller indices and before the others. -/
inductive Effect (s : Forwarding) (e : Event) (t : Forwarding) : Prop
  | idle : s.FreeIndex e → s.NoOvertaking e → t.enqueued = s.enqueued → t.leaving = s.leaving →
      t.departures = s.departures → Effect s e t
  | taken (d : ℕ × SendOutcome) : s.FreeIndex e → s.NoOvertaking e → t.enqueued = s.enqueued →
      t.leaving = s.leaving → t.departures = s.departures ++ [d] →
      d.2.badMessageId = decide (d.2.msg.messageId % tcpResendID ≠ 0) → Effect s e t
  | ignored (msg : MessageFormat) : e = .udp msg → ¬ s.FreeIndex e → s.NoOvertaking e →
      t.enqueued = s.enqueued ++ [msg] → t.leaving = s.leaving →
      t.departures = s.departures → Effect s e t
  | inserted (msg : MessageFormat) (l r : List (ℕ × MessageFormat)) : e = .udp msg →
      s.FreeIndex e → (s.NoOvertaking e ↔ r = []) → t.enqueued = s.enqueued ++ [msg] →
      s.leaving = l ++ r → t.leaving = l ++ (s.enqueued.length, msg) :: r →
      t.departures = s.departures → Effect s e t

theorem step_udp_of_not_stored {s : Forwarding} {msg : MessageFormat}
    (h : (Client.sendViaTcpRequired msg && !s.queue.contains s.queue.size) = false) :
    s.step (.udp msg) = .ok { s with
      client := s.client.receive msg
      received := s.received ++ [msg] } := by
  simp only [step, h, Bool.false_eq_true, if_false]

theorem step_udp_of_stored {s : Forwarding} {msg : MessageFormat}
    (h : (Client.sendViaTcpRequired msg && !s.queue.contains s.queue.size) = true) :
    s.step (.udp msg) = .ok { s with
      client := s.client.receive msg
      received := s.received ++ [msg]
      owner := Function.update s.owner s.queue.size s.enqueued.length } := by
  simp only [step, h, if_true]

theorem udp_effect_of_not_required {s : Forwarding} (h : s.queue.mPimpl.Valid)
    {msg : MessageFormat} (hreq : Client.sendViaTcpRequired msg = false) :
    ∃ t, s.step (.udp msg) = .ok t ∧ t.queue.mPimpl.Valid ∧ Effect s (.udp msg) t := by
  have hqueue : (s.client.receive msg).mContainerTcpQueue = s.queue := by
    rw [Client.receive_queue, hreq]
    rfl
  have hnever : ¬ Client.sendViaTcpRequired msg = true := by rw [hreq]; exact Bool.false_ne_true
  refine ⟨_, step_udp_of_not_stored (by rw [hreq, Bool.false_and]), ?_,
    .idle (fun hr => absurd hr hnever) (fun hr => absurd hr hnever) ?_ ?_ rfl⟩
  · rw [queue, hqueue]
    exact h
  · simp [enqueued, hreq]
  · simp only [leaving, waiting, queue, hqueue]

theorem udp_effect_ignored {s : Forwarding} (h : s.queue.mPimpl.Valid) {msg : MessageFormat}
    (hreq : Client.sendViaTcpRequired msg = true)
    (hused : s.queue.contains s.queue.size = true) :
    ∃ t, s.step (.udp msg) = .ok t ∧ t.queue.mPimpl.Valid ∧ Effect s (.udp msg) t := by
  have hqueue : (s.client.receive msg).mContainerTcpQueue = s.queue := by
    -- the index is used, so `insert` returns without doing anything
    have hc : s.queue.mPimpl.contains s.queue.size = true := hused
    rw [Client.receive_queue, hreq, if_pos rfl]
    show s.queue.insert s.queue.size msg = s.queue
    rw [Container.insert, BstImpl.insert_of_contains hc]
  have hnever : ¬ s.queue.contains s.queue.size = false := by
    rw [hused]
    exact Bool.false_ne_true.symm
  refine ⟨_, step_udp_of_not_stored (by rw [hused, Bool.not_true, Bool.and_false]), ?_,
    .ignored msg rfl (fun hfree => hnever (hfree hreq)) (fun _ hfree => absurd hfree hnever) ?_ ?_ rfl⟩
  · rw [queue, hqueue]
    exact h
  · simp [enqueued, hreq]
  · simp only [leaving, waiting, queue, hqueue]

/-- A message stored under a free index overtakes those that are stored behind it. -/
theorem noOvertaking_iff {s : Forwarding} (h : s.queue.mPimpl.Valid) {msg : MessageFormat}
    (hreq : Client.sendViaTcpRequired msg = true)
    (hfree : s.queue.contains s.queue.size = false) {l r : List (UInt64 × MessageFormat)}
    (hbefore : s.queue.mPimpl.contents = l ++ r) (hl : ∀ e ∈ l, e.1 < s.queue.size)
    (hr : ∀ e ∈ r, s.queue.size < e.1) : s.NoOvertaking (.udp msg) ↔ r = [] := by
  apply Iff.intro
  · intro hpass
    by_contra hne
    obtain ⟨e, r', rfl⟩ := List.exists_cons_of_ne_nil hne
    have he : e.1 ∈ keys s.queue.mPimpl.contents :=
      mem_keys.mpr ⟨e.2, hbefore ▸ List.mem_append_right l List.mem_cons_self⟩
    have hlt : e.1 < s.queue.size := hpass hreq hfree e.1 (h.contains_iff.mpr he)
    exact lt_asymm hlt (hr e List.mem_cons_self)
  · rintro rfl - - k hk
    obtain ⟨v, hv⟩ := mem_keys.mp (h.contains_iff.mp hk)
    rw [hbefore, List.append_nil] at hv
    exact hl (k, v) hv

theorem map_update_owner (owner : UInt64 → ℕ) {index : UInt64} (n : ℕ)
    {es : List (UInt64 × MessageFormat)} (h : ∀ e ∈ es, e.1 ≠ index) :
    es.map (fun e => (Function.update owner index n e.1, e.2)) =
      es.map fun e => (owner e.1, e.2) :=
  List.map_congr_left fun e he => by rw [Function.update_of_ne (h e he)]

theorem udp_effect_inserted {s : Forwarding} (h : s.queue.mPimpl.Valid) {msg : MessageFormat}
    (hreq : Client.sendViaTcpRequired msg = true)
    (hfree : s.queue.contains s.queue.size = false) :
    ∃ t, s.step (.udp msg) = .ok t ∧ t.queue.mPimpl.Valid ∧ Effect s (.udp msg) t := by
  have hnew : s.queue.size ∉ keys s.queue.mPimpl.contents := h.contains_eq_false.mp hfree
  obtain ⟨l, r, hbefore, hinsert, hl, hr⟩ := h.sorted.insertNew_split hnew msg
  have hqueue : (s.client.receive msg).mContainerTcpQueue.mPimpl =
      s.queue.mPimpl.insert s.queue.size msg := by
    rw [Client.receive_queue, hreq]
    rfl
  have hafter : (s.client.receive msg).mContainerTcpQueue.mPimpl.contents =
      l ++ (s.queue.size, msg) :: r := by
    rw [hqueue, h.contents_insert, hinsert]
  refine ⟨_, step_udp_of_stored (by rw [hreq, hfree]; rfl), ?_, .inserted msg
    ((s.departures.map fun d => (d.1, d.2.msg)) ++ l.map fun e => (s.owner e.1, e.2))
    (r.map fun e => (s.owner e.1, e.2)) rfl (fun _ => hfree) ?_ ?_ ?_ ?_ rfl⟩
  · rw [queue, hqueue]
    exact h.insert _ msg
  · rw [List.map_eq_nil_iff]
    exact noOvertaking_iff h hreq hfree hbefore hl hr
  · simp [enqueued, hreq]
  · simp only [leaving, waiting, hbefore, List.map_append, List.append_assoc]
  · show _ ++ (s.client.receive msg).mContainerTcpQueue.mPimpl.contents.map
      (fun e => (Function.update s.owner s.queue.size s.enqueued.length e.1, e.2)) = _
    -- the entries on both sides of the new one keep their owners
    rw [hafter, List.map_append, List.map_cons, Function.update_self,
      map_update_owner _ _ fun e he => ne_of_lt (hl e he),
      map_update_owner _ _ fun e he => ne_of_gt (hr e he), List.append_assoc]

theorem step_tcp_of_cons {s : Forwarding} (h : s.queue.mPimpl.Valid) {k : UInt64}
    {v : MessageFormat} {es : List (UInt64 × MessageFormat)}
    (he : s.queue.mPimpl.contents = (k, v) :: es) (hempty : s.queue.empty = false)
    (res : StreamResult) :
    ∃ t sent, s.step (.tcp res) = .ok t ∧ t.queue = s.queue.remove k ∧ t.owner = s.owner ∧
      t.received = s.received ∧ t.departures = s.departures ++
        [(s.owner k, ⟨v, v.messageId % tcpResendID ≠ 0, sent⟩)] := by
  have hindex : s.queue.beginIndex = .ok k := BstImpl.beginIndex_of_cons he
  have hround := Client.sendRound_of_cons h he res
  simp only [step, hempty, Bool.false_eq_true, if_false, hindex, hround]
  exact ⟨_, _, rfl, rfl, rfl, rfl, rfl⟩

theorem tcp_effect {s : Forwarding} (h : s.queue.mPimpl.Valid) (res : StreamResult) :
    ∃ t, s.step (.tcp res) = .ok t ∧ t.queue.mPimpl.Valid ∧ Effect s (.tcp res) t := by
  cases hempty : s.queue.empty with
  | true =>
    have hstep : s.step (.tcp res) = .ok s := by simp only [step, hempty, if_true]
    exact ⟨s, hstep, h, .idle trivial trivial rfl rfl rfl⟩
  | false =>
    obtain ⟨⟨k, v⟩, es, he⟩ := List.exists_cons_of_ne_nil (h.contents_ne_nil hempty)
    obtain ⟨t, sent, hstep, hqueue, howner, hreceived, hdep⟩ :=
      step_tcp_of_cons h he hempty res
    have hafter : t.queue.mPimpl.contents = es := by
      rw [hqueue]
      exact h.contents_remove_front he
    refine ⟨t, hstep, ?_, .taken _ trivial trivial ?_ ?_ hdep rfl⟩
    · rw [hqueue]
      exact h.remove k
    · rw [enqueued, hreceived, enqueued]
    · -- the message moves from the front of the queue to the back of what has left
      simp only [leaving, waiting, hdep, hafter, he, howner, List.map_append, List.map_cons,
        List.map_nil, List.append_assoc, List.singleton_append]

/-- No step faults, and each has one of the four effects. -/
theorem step_effect {s : Forwarding} (h : s.queue.mPimpl.Valid) (e : Event) :
    ∃ t, s.step e = .ok t ∧ t.queue.mPimpl.Valid ∧ Effect s e t := by
  cases e with
  | udp msg =>
    cases hreq : Client.sendViaTcpRequired msg with
    | false => exact udp_effect_of_not_required h hreq
    | true =>
      cases hfree : s.queue.contains s.queue.size with
      | true => exact udp_effect_ignored h hreq hfree
      | false => exact udp_effect_inserted h hreq hfree
  | tcp res => exact tcp_effect h res

theorem received_step {s t : Forwarding} {e : Event} (h : s.queue.mPimpl.Valid)
    (hstep : Step s e t) : t.received = s.received ++ e.received.toList := by
  cases e with
  | udp msg =>
    rw [← Except.ok.inj hstep]
    rfl
  | tcp res =>
    rw [Event.received, Option.toList_none, List.append_nil]
    cases hempty : s.queue.empty with
    | true =>
      have hsame : s.step (.tcp res) = .ok s := by simp only [step, hempty, if_true]
      rw [Except.ok.inj (hsame.symm.trans hstep)]
    | false =>
      obtain ⟨⟨k, v⟩, es, he⟩ := List.exists_cons_of_ne_nil (h.contents_ne_nil hempty)
      obtain ⟨u, sent, hu, -, -, hreceived, -⟩ := step_tcp_of_cons h he hempty res
      rw [← Except.ok.inj (hu.symm.trans hstep), hreceived]

/-! ## Nothing is made up -/

/-- The queue is a well-formed store, it holds and has passed on only messages that were handed to
it, and no round found a message with a bad id. -/
structure Accounted (s : Forwarding) : Prop where
  valid : s.queue.mPimpl.Valid
  genuine : (s.dequeued : Multiset MessageFormat) + s.stored ≤ s.enqueued
  goodIds : ∀ d ∈ s.departures, d.2.badMessageId = false

theorem genuine_iff (s : Forwarding) :
    (s.dequeued : Multiset MessageFormat) + s.stored ≤ s.enqueued ↔
      (s.leaving.map Prod.snd : Multiset MessageFormat) ≤ s.enqueued := by
  rw [leaving_map_snd, Multiset.coe_add]

theorem nothingLost_iff (s : Forwarding) :
    s.NothingLost ↔
      (s.enqueued : Multiset MessageFormat) ≤ (s.leaving.map Prod.snd : List MessageFormat) := by
  rw [NothingLost, leaving_map_snd, Multiset.coe_add]

theorem accounted_start (socket : Int) (connected inProgress : Bool) :
    (start socket connected inProgress).Accounted :=
  ⟨BstImpl.valid_empty, le_refl _, fun _ hd => absurd hd List.not_mem_nil⟩

theorem leaving_of_inserted {s t : Forwarding} {msg : MessageFormat} {n : ℕ}
    {l r : List (ℕ × MessageFormat)} (hs : s.leaving = l ++ r)
    (ht : t.leaving = l ++ (n, msg) :: r) :
    (t.leaving.map Prod.snd : Multiset MessageFormat) =
      (s.leaving.map Prod.snd : List MessageFormat) + {msg} := by
  rw [hs, ht, ← Multiset.coe_singleton, Multiset.coe_add, Multiset.coe_eq_coe]
  simp only [List.map_append, List.map_cons]
  exact List.perm_middle.trans (List.perm_append_singleton _ _).symm

theorem genuine_effect {s t : Forwarding} {e : Event} (heffect : Effect s e t)
    (h : (s.leaving.map Prod.snd : Multiset MessageFormat) ≤ s.enqueued) :
    (t.leaving.map Prod.snd : Multiset MessageFormat) ≤ t.enqueued := by
  cases heffect with
  | idle _ _ henq hleave _ => rwa [henq, hleave]
  | taken d _ _ henq hleave _ _ => rwa [henq, hleave]
  | ignored msg _ _ _ henq hleave _ =>
    rw [henq, hleave, ← Multiset.coe_add]
    exact h.trans (Multiset.le_add_right _ _)
  | inserted msg l r _ _ _ henq hs ht _ =>
    rw [henq, leaving_of_inserted hs ht, ← Multiset.coe_add, Multiset.coe_singleton]
    exact Multiset.add_le_add_right h

theorem goodIds_effect {s t : Forwarding} {e : Event} (heffect : Effect s e t) (h : s.Accounted) :
    ∀ d ∈ t.departures, d.2.badMessageId = false := by
  cases heffect with
  | idle _ _ _ _ hdep => rw [hdep]; exact h.goodIds
  | ignored _ _ _ _ _ _ hdep => rw [hdep]; exact h.goodIds
  | inserted _ _ _ _ _ _ _ _ _ hdep => rw [hdep]; exact h.goodIds
  | taken d _ _ _ hleave hdep hbad =>
    rw [hdep]
    intro d' hd'
    rcases List.mem_append.mp hd' with hd' | hd'
    · exact h.goodIds d' hd'
    · obtain rfl := List.mem_singleton.mp hd'
      -- what is taken was handed to the queue, so its id is the one that is forwarded
      have hmem : d'.2.msg ∈ s.leaving.map Prod.snd := by
        rw [← hleave, leaving_map_snd, dequeued, hdep, List.map_append]
        simp
      have henq : d'.2.msg ∈ s.enqueued := Multiset.mem_of_le ((genuine_iff s).mp h.genuine) hmem
      have hid : d'.2.msg.messageId = tcpResendID := by
        simpa [Client.sendViaTcpRequired] using (List.mem_filter.mp henq).2
      rw [hbad, hid]
      rfl

theorem accounted_step {s t : Forwarding} {e : Event} (h : s.Accounted) (hstep : Step s e t) :
    t.Accounted ∧ Effect s e t := by
  obtain ⟨u, hu, hvalid, heffect⟩ := step_effect h.valid e
  obtain rfl : u = t := Except.ok.inj (hu.symm.trans hstep)
  refine ⟨⟨hvalid, ?_, goodIds_effect heffect h⟩, heffect⟩
  exact (genuine_iff u).mpr (genuine_effect heffect ((genuine_iff s).mp h.genuine))

theorem exists_accounted_run {s : Forwarding} (h : s.Accounted) (events : List Event) :
    ∃ t, Run Step s events t ∧ t.Accounted :=
  exists_run h (fun _ e hu =>
    have ⟨t, hstep, _⟩ := step_effect hu.valid e
    ⟨t, hstep, (accounted_step hu hstep).1⟩) events

theorem received_run {s t : Forwarding} {events : List Event} (h : s.Accounted)
    (hrun : Run Step s events t) : t.received = s.received ++ events.filterMap Event.received := by
  induction hrun with
  | nil => rw [List.filterMap_nil, List.append_nil]
  | snoc hinit hlast ih =>
    have hu := hinit.invariant Accounted h fun hv hstep => (accounted_step hv hstep).1
    rw [received_step hu.valid hlast, ih, List.filterMap_append, List.append_assoc]
    rfl

/-- Through every schedule, what has been taken from the queue and what is still in it were all
received with the id that is forwarded, and no round took the branch for a bad id. -/
theorem accounted_run (socket : Int) (connected inProgress : Bool) (events : List Event) :
    ∃ s, Run Step (start socket connected inProgress) events s ∧
      (s.dequeued : Multiset MessageFormat) + s.stored ≤
        ((events.filterMap Event.received).filter fun msg => msg.messageId = tcpResendID :
          List MessageFormat) ∧
      ∀ d ∈ s.departures, d.2.badMessageId = false := by
  have hstart := accounted_start socket connected inProgress
  obtain ⟨s, hrun, hs⟩ := exists_accounted_run hstart events
  have hreceived : s.received = events.filterMap Event.received := received_run hstart hrun
  refine ⟨s, hrun, ?_, hs.goodIds⟩
  rw [← hreceived]
  exact hs.genuine

/-! ## What is lost -/

theorem nothingLost_effect {s t : Forwarding} {e : Event} (heffect : Effect s e t)
    (h : s.Accounted) : t.NothingLost ↔ s.NothingLost ∧ s.FreeIndex e := by
  rw [nothingLost_iff, nothingLost_iff]
  cases heffect with
  | idle hfree _ henq hleave _ => simp only [henq, hleave, hfree, and_true]
  | taken d hfree _ henq hleave _ _ => simp only [henq, hleave, hfree, and_true]
  | ignored msg _ hused _ henq hleave _ =>
    -- one message more was handed over, and nothing was added to those accounted for
    have hcard := Multiset.card_le_card ((genuine_iff s).mp h.genuine)
    simp only [hused, and_false, iff_false]
    intro hle
    have hle' := Multiset.card_le_card hle
    rw [henq, hleave] at hle'
    simp only [Multiset.coe_card, List.length_append, List.length_singleton] at hcard hle'
    omega
  | inserted msg l r _ hfree _ henq hs ht _ =>
    rw [henq, leaving_of_inserted hs ht, ← Multiset.coe_add, Multiset.coe_singleton,
      Multiset.add_le_add_iff_right]
    simp only [hfree, and_true]

/-- A run loses nothing exactly when every message for the queue found its index unused. -/
theorem nothing_lost_iff (socket : Int) (connected inProgress : Bool) (events : List Event) :
    ∃ s, Run Step (start socket connected inProgress) events s ∧
      s.received = events.filterMap Event.received ∧
      (s.NothingLost ↔
        Run (Guarded FreeIndex Step) (start socket connected inProgress) events s) := by
  have hstart := accounted_start socket connected inProgress
  obtain ⟨s, hrun, -⟩ := exists_accounted_run hstart events
  refine ⟨s, hrun, received_run hstart hrun,
    hrun.iff_guarded Accounted hstart (le_refl _) fun hu hstep => ?_⟩
  obtain ⟨hv, heffect⟩ := accounted_step hu hstep
  exact ⟨hv, nothingLost_effect heffect hu⟩

/-- With 0 taken out of 0 and 1, the next message gets the index 1, which is used. -/
theorem nothing_lost_broken :
    let a : MessageFormat := ⟨0, 0, 10, 10⟩
    let b : MessageFormat := ⟨0, 0, 10, 30⟩
    let c : MessageFormat := ⟨0, 0, 10, 50⟩
    ∃ s, Run Step (start 3 true false) [.udp a, .udp b, .tcp (.count 24), .udp c] s ∧
      s.enqueued = [a, b, c] ∧ s.dequeued = [a] ∧ s.stored = [b] ∧ ¬ s.NothingLost := by
  intro a b c
  obtain ⟨s, hrun, hs⟩ := exists_run_of_foldlM step (start 3 true false)
    [.udp a, .udp b, .tcp (.count 24), .udp c] (fun s => (s.enqueued, s.dequeued, s.stored))
    (b := ([a, b, c], [a], [b])) (by decide +kernel)
  simp only [Prod.mk.injEq] at hs
  obtain ⟨henq, hdeq, hstored⟩ := hs
  refine ⟨s, hrun, henq, hdeq, hstored, ?_⟩
  rw [NothingLost, henq, hdeq, hstored]
  decide

end Forwarding

end MessageTransmitter
