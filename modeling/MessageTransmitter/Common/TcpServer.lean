import MessageTransmitter.Common.TcpSocket
import MessageTransmitter.Library.Transition

/-!
# Framing on the TCP link

`TCPSocket::sendBytes` on one end and the receive loop of `tcp_server::start_` on the other, with
the kernel's byte stream between them.  The kernel delivers the accepted bytes once and in order;
how many bytes it takes or hands out in one call, and when a call fails, is up to it.
-/

open Bytes Transition

namespace MessageTransmitter

/-- One round of the loop in `start_`: the message it reports, if any.  `padding` is what the
padding of the fresh `MessageFormat` holds, `data` what `recv` copies into it. -/
def tcpServerRound (padding : Buffer 5) (res : Except Unit (List UInt8)) : Option MessageFormat :=
  let msg := ({} : MessageFormat).toRaw padding
  match res with
  | .error _ => none
  -- every result but -1 is reported, a short count and the 0 of a closed connection included
  | .ok data => some (MessageFormat.ofRaw (msg.fill data))

structure TcpLink where
  -- Accepted by the kernel and not yet received.
  stream : List UInt8 := []
  closed : Bool := false
  -- The messages for which `sendBytes` returned true.
  sent : List MessageFormat := []
  -- The messages that `start_` reported as received.
  reported : List MessageFormat := []

namespace TcpLink

inductive Event where
  -- `sendBytes(&msg, MessageFormatSize)`, with the padding of `msg` and the result of `send`
  | send (msg : MessageFormat) (padding : Buffer 5) (res : StreamResult)
  | close
  -- one round of `start_`, with the padding of its message and the result of `recv`
  | recv (padding : Buffer 5) (res : StreamResult)

/-- What the kernel may answer: `send` takes at most what it is given and only while the connection
is open, `recv` hands out some of the waiting bytes, and 0 once the peer has closed and nothing is
left. -/
def Possible (l : TcpLink) : Event → Prop
  | .send _ _ (.count n) => l.closed = false ∧ n ≤ messageFormatSize
  | .recv _ (.count 0) => l.closed = true ∧ l.stream = []
  | .recv _ (.count k) => k ≤ messageFormatSize ∧ k ≤ l.stream.length
  | _ => True

instance (l : TcpLink) : DecidablePred l.Possible
  | .send _ _ .error => isTrue trivial
  | .send _ _ (.count _) => inferInstanceAs (Decidable (_ ∧ _))
  | .close => isTrue trivial
  | .recv _ .error => isTrue trivial
  | .recv _ (.count 0) => inferInstanceAs (Decidable (_ ∧ _))
  | .recv _ (.count (_ + 1)) => inferInstanceAs (Decidable (_ ∧ _))

def next (l : TcpLink) : Event → TcpLink
  | .send msg padding res =>
      let taken := match res with
        | .error => []
        | .count n => (msg.toRaw padding).bytes.take n
      { l with
        stream := l.stream ++ taken
        sent := if TCPSocket.sendBytes res then l.sent ++ [msg] else l.sent }
  | .close => { l with closed := true }
  | .recv padding res =>
      let (data, stream) := match res with
        | .error => (Except.error (), l.stream)
        | .count k => (.ok (l.stream.take k), l.stream.drop k)
      { l with
        stream := stream
        reported := l.reported ++ (tcpServerRound padding data).toList }

def Step (l : TcpLink) (e : Event) (l' : TcpLink) : Prop := l.Possible e ∧ l' = l.next e

/-- The kernel moved a whole message or nothing. -/
def Whole (_ : TcpLink) : Event → Prop
  | .send _ _ (.count n) => n = messageFormatSize
  | .recv _ (.count k) => k = messageFormatSize
  | _ => True

/-- The messages between the two ends, as sent. -/
def InFlight (stream : List UInt8) (msgs : List MessageFormat) : Prop :=
  ∃ paddings : List (Buffer 5), paddings.length = msgs.length ∧
    stream = (List.zipWith (fun msg pad => (msg.toRaw pad).bytes) msgs paddings).flatten

theorem inFlight_nil {stream : List UInt8} : InFlight stream [] ↔ stream = [] := by
  simp [InFlight]

theorem InFlight.snoc {stream : List UInt8} {msgs : List MessageFormat}
    (h : InFlight stream msgs) (msg : MessageFormat) (padding : Buffer 5) :
    InFlight (stream ++ (msg.toRaw padding).bytes) (msgs ++ [msg]) := by
  obtain ⟨pads, hlen, rfl⟩ := h
  refine ⟨pads ++ [padding], by simp [hlen], ?_⟩
  rw [List.zipWith_append hlen.symm, List.flatten_append]
  simp

theorem InFlight.cons {stream : List UInt8} {msg : MessageFormat} {msgs : List MessageFormat}
    (h : InFlight stream (msg :: msgs)) :
    ∃ padding, stream.take messageFormatSize = (msg.toRaw padding).bytes ∧
      InFlight (stream.drop messageFormatSize) msgs := by
  obtain ⟨pads, hlen, rfl⟩ := h
  cases pads with
  | nil => cases hlen
  | cons pad pads =>
    have hraw : (msg.toRaw pad).bytes.length = messageFormatSize := (msg.toRaw pad).length_eq
    refine ⟨pad, ?_, pads, Nat.succ.inj hlen, ?_⟩
    · simp only [List.zipWith_cons_cons, List.flatten_cons, List.take_left' hraw]
    · simp only [List.zipWith_cons_cons, List.flatten_cons, List.drop_left' hraw]

/-- The waiting bytes are exactly the messages sent and not yet reported. -/
def Framed (l : TcpLink) : Prop := ∃ rest, l.sent = l.reported ++ rest ∧ InFlight l.stream rest

theorem framed_send {l : TcpLink} (h : l.Framed) (msg : MessageFormat) (padding : Buffer 5) :
    (l.next (.send msg padding (.count messageFormatSize))).Framed := by
  obtain ⟨rest, hsent, hflight⟩ := h
  have hraw : (msg.toRaw padding).bytes.take messageFormatSize = (msg.toRaw padding).bytes :=
    List.take_of_length_le (msg.toRaw padding).length_eq.le
  refine ⟨rest ++ [msg], ?_, ?_⟩
  · show l.sent ++ [msg] = l.reported ++ (rest ++ [msg])
    rw [hsent, List.append_assoc]
  · show InFlight (l.stream ++ (msg.toRaw padding).bytes.take messageFormatSize) _
    rw [hraw]
    exact hflight.snoc msg padding

theorem framed_recv {l : TcpLink} (h : l.Framed) (padding : Buffer 5)
    (hlen : messageFormatSize ≤ l.stream.length) :
    (l.next (.recv padding (.count messageFormatSize))).Framed := by
  obtain ⟨rest, hsent, hflight⟩ := h
  cases rest with
  | nil =>
    -- nothing is in flight, so there are no 24 bytes to read
    rw [inFlight_nil.mp hflight] at hlen
    cases hlen
  | cons msg rest =>
    obtain ⟨pad, hmsg, hrest⟩ := hflight.cons
    -- a whole message leaves nothing of the fresh `MessageFormat`
    have hfull : ((({} : MessageFormat).toRaw padding).fill (l.stream.take messageFormatSize)) =
        msg.toRaw pad := by
      apply Buffer.ext
      rw [Buffer.fill_of_length_eq _ (by rw [List.length_take]; omega), hmsg]
    refine ⟨rest, ?_, hrest⟩
    show l.sent = (l.reported ++ [MessageFormat.ofRaw (Buffer.fill _ _)]) ++ rest
    rw [hfull, MessageFormat.ofRaw_toRaw, hsent, List.append_assoc, List.singleton_append]

theorem framed_step {l l' : TcpLink} {e : Event} (h : l.Framed) (hstep : Guarded Whole Step l e l') :
    l'.Framed := by
  obtain ⟨hwhole, hpossible, rfl⟩ := hstep
  cases e with
  | send msg padding res =>
    cases res with
    | error => simpa [next, TCPSocket.sendBytes, Framed] using h
    | count n =>
      obtain rfl : n = messageFormatSize := hwhole
      exact framed_send h msg padding
  | close => exact h
  | recv padding res =>
    cases res with
    | error => simpa [next, tcpServerRound, Framed] using h
    | count k =>
      obtain rfl : k = messageFormatSize := hwhole
      exact framed_recv h padding hpossible.2

/-- In every run in which `send` and `recv` move whole messages or fail, what the server reports is
at every moment a prefix of what was sent. -/
theorem reported_prefix_of_whole {events : List Event} {l : TcpLink}
    (hrun : Run (Guarded Whole Step) {} events l) : l.reported <+: l.sent := by
  have hframed : l.Framed := hrun.invariant Framed ⟨[], rfl, inFlight_nil.mpr rfl⟩ framed_step
  obtain ⟨rest, hsent, -⟩ := hframed
  exact ⟨rest, hsent.symm⟩

/-- Two messages sent and the first of them received. -/
theorem reported_prefix_of_whole_two :
    let pad : Buffer 5 := ⟨[1, 2, 3, 4, 5], rfl⟩
    let events := [.send (makeMessageWithId 10) pad (.count 24),
      .send (makeMessageWithId 30) pad (.count 24), .recv pad .error, .recv pad (.count 24)]
    let l := events.foldl next {}
    Run (Guarded Whole Step) {} events l ∧ l.reported <+: l.sent ∧
      l.reported = [makeMessageWithId 10] := by
  intro pad events l
  have hrun : Run (Guarded Whole Step) {} events l :=
    (((Run.nil.snoc ⟨rfl, ⟨rfl, le_refl _⟩, rfl⟩).snoc ⟨rfl, ⟨rfl, le_refl _⟩, rfl⟩).snoc
      ⟨trivial, trivial, rfl⟩).snoc ⟨rfl, by decide, rfl⟩
  exact ⟨hrun, reported_prefix_of_whole hrun, by decide⟩

/-- A read that stops after 16 of the 24 bytes reports a message whose data was never sent, and so
does the read that finds the connection closed. -/
theorem reported_prefix_broken :
    let pad : Buffer 5 := ⟨[0, 0, 0, 0, 0], rfl⟩
    let short := [.send (makeMessageWithId 10) pad (.count 24), .recv pad (.count 16)]
    let ended := [.close, .recv pad (.count 0)]
    ∀ events ∈ [short, ended], Run Step {} events (events.foldl next {}) ∧
      ¬ (events.foldl next {}).reported <+: (events.foldl next {}).sent := by
  intro pad short ended
  have hshort : Run Step {} short (short.foldl next {}) :=
    (Run.nil.snoc ⟨⟨rfl, le_refl _⟩, rfl⟩).snoc ⟨by decide, rfl⟩
  have hended : Run Step {} ended (ended.foldl next {}) :=
    (Run.nil.snoc ⟨trivial, rfl⟩).snoc ⟨⟨rfl, rfl⟩, rfl⟩
  exact List.forall_mem_cons.mpr
    ⟨⟨hshort, by decide⟩, List.forall_mem_singleton.mpr ⟨hended, by decide⟩⟩

end TcpLink

end MessageTransmitter
