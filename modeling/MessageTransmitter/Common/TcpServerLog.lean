import Mathlib.Data.List.Forall2
import MessageTransmitter.Common.FdSet
import MessageTransmitter.Common.TcpServer
import MessageTransmitter.Library.Codes

/-!
# The console of the TCP server

`tcp_server::start_`, which the client runs in a thread of its own, and `tcp_server::start`, the
version with `select` that it replaced: their set-up with its error paths, their loops, and what
they print.
-/

open Bytes Codes

namespace MessageTransmitter

/-- `toString(const MessageFormat &)`. -/
def MessageFormat.toString (msg : MessageFormat) : String :=
  "MessageFormat \x7b Size: " ++ ToString.toString msg.messageSize.toNat ++ ", Type: " ++
    ToString.toString msg.messageType.toNat ++ ", Id: " ++ ToString.toString msg.messageId.toNat ++
    ", Data: " ++ ToString.toString msg.messageData.toNat ++ " \x7d"

-- Linux has one value for both
def eagain : Int := 11

def ewouldblock : Int := 11

/-- `strError`; `strerror` is the table of the C library. -/
def strError (strerror : Int → String) (errCode : Int) : String :=
  let emsg := ToString.toString errCode ++ ", " ++ strerror errCode
  let emsg := if errCode = eagain then emsg ++ ", EAGAIN" else emsg
  if errCode = ewouldblock then emsg ++ ", EWOULDBLOCK" else emsg

namespace TcpServer

/-- What a system call returns, and the `errno` that it leaves. -/
structure SysCall where
  result : Int
  errno : Int := 0
  deriving DecidableEq, Repr

structure SetUp where
  socket : SysCall
  bind : SysCall
  listen : SysCall
  -- the result is the descriptor `ns`
  accept : SysCall
  deriving DecidableEq, Repr

/-- The result of `recv` or `recvfrom` on a fresh message: `errno`, or the bytes copied into it. -/
structure Received where
  padding : Buffer 5
  result : Except Int (List UInt8)

def Received.message (r : Received) : MessageFormat :=
  let msg := ({} : MessageFormat).toRaw r.padding
  match r.result with
  | .error _ => MessageFormat.ofRaw msg
  | .ok data => MessageFormat.ofRaw (msg.fill data)

/-- What the two functions print, a line each. -/
inductive Line where
  | error (errCode : Int)
  | waiting
  | stopped (errCode : Int)
  | received (msg : MessageFormat)
  | receivedBytes (bytes : Int) (msg : MessageFormat)
  deriving DecidableEq, Repr

def Line.text (strerror : Int → String) : Line → String
  | .error errCode => strError strerror errCode ++ "\n"
  | .waiting => "TCPServer: Waiting for messages via TCP...\n"
  | .stopped errCode => "TCPServer: Stoped with error: " ++ strError strerror errCode ++ "\n"
  | .received msg => "TCPServer: Received message: " ++ msg.toString ++ "\n"
  | .receivedBytes bytes msg => "TCPServer: Received message: " ++ ToString.toString bytes ++ " " ++
      msg.toString ++ "\n"

/-! ## `start_` -/

/-- Up to the loop of `start_`: what is printed, and whether the loop is reached. -/
def setUp_ (r : SetUp) : List Line × Bool :=
  if r.socket.result < 0 then ([.error r.socket.errno], false)
  else if r.bind.result < 0 then ([.error r.bind.errno], false)
  else if r.listen.result ≠ 0 then ([.error r.listen.errno], false)
  else if r.accept.result = -1 then ([.error r.accept.errno], false)
  else ([.waiting], true)

def round_ (r : Received) : Line :=
  match r.result with
  | .error errCode => .stopped errCode
  -- a short count and the 0 of a closed connection are reported as well
  | .ok _ => .received r.message

/-- What `start_` has printed after some rounds of its loop. -/
def start_ (setUp : SetUp) (rounds : List Received) : List Line :=
  let (lines, reached) := setUp_ setUp
  if reached then lines ++ rounds.map round_ else lines

/-! ## `start` -/

/-- A round of the loop in `start`: what `select` returns, and what `recvfrom` does if the
descriptor is set. -/
structure SelectRound where
  nready : Int
  isSet : Bool
  received : Received

/-- After `listen` and `accept` the function goes on even if they have failed. -/
def setUp (r : SetUp) : List Line × Bool :=
  if r.socket.result < 0 then ([.error r.socket.errno], false)
  else if r.bind.result < 0 then ([.error r.bind.errno], false)
  else
    let listenLines : List Line := if r.listen.result ≠ 0 then [.error r.listen.errno] else []
    let acceptLines : List Line := if r.accept.result = -1 then [.error r.accept.errno] else []
    (listenLines ++ acceptLines ++ [.waiting], true)

def round (ns : Int) (r : SelectRound) : Except DescriptorFault (List Line) :=
  if ns < 0 ∨ fdSetSize ≤ ns then .error (.outOfRange ns)
  else if r.nready = 0 ∨ r.nready = -1 then .ok []
  else if r.isSet then
    let tcpBytesRecv : Int := match r.received.result with
      | .error _ => -1
      | .ok data => data.length
    .ok [.receivedBytes tcpBytesRecv r.received.message]
  else .ok []

/-- What `start` has printed after some rounds of its loop. -/
def start (r : SetUp) (rounds : List SelectRound) : Except DescriptorFault (List Line) := do
  let (lines, reached) := setUp r
  if reached then
    let printed ← rounds.mapM (round r.accept.result)
    return lines ++ printed.flatten
  else return lines

/-! ## The two versions -/

/-- The round gets to `recvfrom`. -/
def SelectRound.ready (r : SelectRound) : Bool := r.nready ≠ 0 && r.nready ≠ -1 && r.isSet

/-- A line of the loop of `start` against that of `start_` for the same result: it has a count as well,
and where the call has failed it reports the count -1 and a default message instead of the error. -/
inductive Line.Matches : Line → Line → Prop
  | received (bytes : ℕ) (msg : MessageFormat) : Matches (.receivedBytes bytes msg) (.received msg)
  | failed (errCode : Int) : Matches (.receivedBytes (-1) {}) (.stopped errCode)

/-- `round_` reports the messages that `tcpServerRound` does. -/
theorem round_eq_received_iff {r : Received} {msg : MessageFormat} :
    round_ r = .received msg ↔
      tcpServerRound r.padding (r.result.mapError fun _ => ()) = some msg := by
  obtain ⟨padding, result⟩ := r
  cases result with
  | error errCode => exact ⟨nofun, nofun⟩
  | ok data => exact ⟨fun h => congrArg some (Line.received.inj h),
      fun h => congrArg Line.received (Option.some.inj h)⟩

theorem start_of_setUp_ (r : SetUp) (rounds : List Received) :
    start_ r rounds = if (setUp_ r).2 then (setUp_ r).1 ++ rounds.map round_ else (setUp_ r).1 := rfl

theorem toList_toString (msg : MessageFormat) : msg.toString.toList =
    "MessageFormat \x7b Size: ".toList ++ (Nat.toDigits 10 msg.messageSize.toNat ++ ',' ::
      (" Type: ".toList ++ (Nat.toDigits 10 msg.messageType.toNat ++ ',' ::
        (" Id: ".toList ++ (Nat.toDigits 10 msg.messageId.toNat ++ ',' ::
          (" Data: ".toList ++ (Nat.toDigits 10 msg.messageData.toNat ++ ' ' :: ['\x7d']))))))) := by
  delta MessageFormat.toString
  simp only [Nat.toString_eq_repr, String.toList_append, Nat.toList_repr, String.reduceToList,
    List.append_assoc, List.cons_append, List.nil_append]

theorem selfDelimiting_toString : SelfDelimiting fun msg : MessageFormat => msg.toString.toList := by
  have hinj : Function.Injective fun msg : MessageFormat =>
      (msg.messageSize.toNat, msg.messageType.toNat, msg.messageId.toNat, msg.messageData.toNat) := by
    rintro ⟨size, type, id, data⟩ ⟨size', type', id', data'⟩ h
    simpa [UInt64.toNat_inj, UInt16.toNat_inj, UInt8.toNat_inj] using h
  have hfields := (((selfDelimiting_decimal (s := ',') rfl " Type: ".toList).append
    ((selfDelimiting_decimal (s := ',') rfl " Id: ".toList).append
      ((selfDelimiting_decimal (s := ',') rfl " Data: ".toList).append
        (selfDelimiting_decimal (s := ' ') rfl ['\x7d'])))).prepend
          "MessageFormat \x7b Size: ".toList).comp hinj
  simp only [toList_toString]
  simpa only [List.append_assoc, List.cons_append, List.nil_append] using hfields

theorem toList_strError (strerror : Int → String) (errCode : Int) :
    (strError strerror errCode).toList = errCode.repr.toList ++ ',' :: [' '] ++
      ((strerror errCode).toList ++ ((if errCode = eagain then ", EAGAIN".toList else []) ++
        if errCode = ewouldblock then ", EWOULDBLOCK".toList else [])) := by
  unfold strError
  dsimp only
  split
  · split
    · simp
    · simp
  · split
    · simp
    · simp

/-- The number in front shows where the text of an error ends, whatever the C library calls it. -/
theorem selfDelimiting_strError (strerror : Int → String) :
    SelfDelimiting fun errCode => (strError strerror errCode).toList := by
  simp only [toList_strError]
  exact (selfDelimiting_signed (by decide) [' ']).followed _

/-- The kinds of lines in the order in which their texts differ. -/
def Line.code : Line → Int ⊕ Unit ⊕ Int ⊕ MessageFormat ⊕ Int × MessageFormat
  | .error errCode => .inl errCode
  | .waiting => .inr (.inl ())
  | .stopped errCode => .inr (.inr (.inl errCode))
  | .received msg => .inr (.inr (.inr (.inl msg)))
  | .receivedBytes bytes msg => .inr (.inr (.inr (.inr (bytes, msg))))

theorem Line.code_injective : Function.Injective Line.code := by
  rintro (_ | _ | _ | _ | _) (_ | _ | _ | _ | _) h
  all_goals first | cases h; rfl | cases h

section Text

variable (strerror : Int → String)

def reportText : MessageFormat ⊕ Int × MessageFormat → List Char :=
  Sum.elim (fun msg => msg.toString.toList ++ ['\n'])
    fun e => e.1.repr.toList ++ ' ' :: e.2.toString.toList ++ ['\n']

def serverText : Unit ⊕ Int ⊕ MessageFormat ⊕ Int × MessageFormat → List Char :=
  Sum.elim (fun _ => "Waiting for messages via TCP...\n".toList)
    (Sum.elim (fun errCode => "Stoped with error: ".toList ++ (strError strerror errCode).toList ++ ['\n'])
      fun e => "Received message: ".toList ++ reportText e)

theorem toList_text (line : Line) : (line.text strerror).toList =
    Sum.elim (fun errCode => (strError strerror errCode).toList ++ ['\n'])
      (fun e => "TCPServer: ".toList ++ serverText strerror e) line.code := by
  cases line with
  | error errCode =>
    show (strError strerror errCode ++ "\n").toList = (strError strerror errCode).toList ++ ['\n']
    rw [String.toList_append]
    rfl
  | waiting =>
    show "TCPServer: Waiting for messages via TCP...\n".toList =
      "TCPServer: ".toList ++ "Waiting for messages via TCP...\n".toList
    simp only [String.reduceToList, List.cons_append, List.nil_append]
  | stopped errCode =>
    show ("TCPServer: Stoped with error: " ++ strError strerror errCode ++ "\n").toList =
      "TCPServer: ".toList ++
        ("Stoped with error: ".toList ++ (strError strerror errCode).toList ++ ['\n'])
    simp only [String.toList_append, String.reduceToList, List.cons_append, List.nil_append]
  | received msg =>
    show ("TCPServer: Received message: " ++ msg.toString ++ "\n").toList =
      "TCPServer: ".toList ++ ("Received message: ".toList ++ (msg.toString.toList ++ ['\n']))
    simp only [String.toList_append, String.reduceToList, List.cons_append, List.nil_append]
  | receivedBytes bytes msg =>
    show ("TCPServer: Received message: " ++ bytes.repr ++ " " ++ msg.toString ++ "\n").toList =
      "TCPServer: ".toList ++ ("Received message: ".toList ++
        (bytes.repr.toList ++ ' ' :: msg.toString.toList ++ ['\n']))
    simp only [String.toList_append, String.reduceToList, List.append_assoc, List.cons_append,
      List.nil_append]

theorem exists_cons_strError (errCode : Int) :
    ∃ c w, (strError strerror errCode).toList ++ ['\n'] = c :: w ∧ SignedDigit c := by
  obtain ⟨c, w, hw, hc⟩ := exists_repr_int errCode
  rw [toList_strError, hw]
  exact ⟨c, _, rfl, hc⟩

theorem selfDelimiting_reportText : SelfDelimiting reportText := by
  have hbytes : SelfDelimiting fun e : Int × MessageFormat =>
      e.1.repr.toList ++ ' ' :: e.2.toString.toList ++ ['\n'] := by
    have h := ((selfDelimiting_signed (s := ' ') (by decide) []).append
      selfDelimiting_toString).followed fun _ => ['\n']
    simpa only [List.append_assoc, List.cons_append, List.nil_append] using h
  refine SelfDelimiting.sumElim (selfDelimiting_toString.followed _) hbytes
    (p := fun c => ¬ SignedDigit c) (fun msg => ?_) fun e => ?_
  · rw [toList_toString]
    exact ⟨'M', _, rfl, by decide⟩
  · obtain ⟨c, w, hw, hc⟩ := exists_repr_int e.1
    rw [hw]
    exact ⟨c, _, rfl, not_not_intro hc⟩

theorem selfDelimiting_serverText : SelfDelimiting (serverText strerror) := by
  have hstopped : SelfDelimiting fun errCode =>
      "Stoped with error: ".toList ++ (strError strerror errCode).toList ++ ['\n'] :=
    ((selfDelimiting_strError strerror).prepend _).followed _
  refine (SelfDelimiting.const _).sumElim (hstopped.sumElim (selfDelimiting_reportText.prepend _)
    (p := (· = 'S')) (fun _ => ⟨'S', _, rfl, rfl⟩) fun _ => ⟨'R', _, rfl, by decide⟩)
    (p := (· = 'W')) (fun _ => ⟨'W', _, rfl, rfl⟩) fun e => ?_
  cases e with
  | inl errCode => exact ⟨'S', _, rfl, by decide⟩
  | inr e => exact ⟨'R', _, rfl, by decide⟩

theorem selfDelimiting_text : SelfDelimiting fun line : Line => (line.text strerror).toList := by
  have h := (((selfDelimiting_strError strerror).followed fun _ => ['\n']).sumElim
    ((selfDelimiting_serverText strerror).prepend "TCPServer: ".toList) (p := SignedDigit)
    (exists_cons_strError strerror) fun _ => ⟨'T', _, rfl, by decide⟩).comp Line.code_injective
  simp only [toList_text]
  exact h

/-- What stands on the console after these lines. -/
def consoleText (lines : List Line) : String := String.join (lines.map (Line.text strerror))

theorem toList_consoleText (lines : List Line) :
    (consoleText strerror lines).toList = lines.flatMap fun line => (line.text strerror).toList := by
  rw [consoleText, String.toList_join, List.flatMap_map]

theorem consoleText_injective : Function.Injective (consoleText strerror) := by
  intro lines lines' h
  have hchars := congrArg String.toList h
  rw [toList_consoleText, toList_consoleText] at hchars
  refine (selfDelimiting_text strerror).flatMap_injective (fun line => ?_) hchars
  rw [toList_text]
  cases line.code with
  | inl errCode =>
    obtain ⟨c, w, hw, -⟩ := exists_cons_strError strerror errCode
    rw [Sum.elim_inl, hw]
    exact List.cons_ne_nil _ _
  | inr e => exact List.cons_ne_nil 'T' _

/-- The set-up prints one line, and which one shows whether the loop is reached. -/
theorem exists_line (r : SetUp) : ∃ line, (setUp_ r).1 = [line] ∧
    ((setUp_ r).2 = true ↔ line = .waiting) := by
  unfold setUp_
  split_ifs
  all_goals exact ⟨_, rfl, by simp⟩

/-- The console of `start_` shows neither more nor less than the line of the set-up and, if its loop
is reached, the error or the message of every round, in order: two consoles are the same exactly when
these are. -/
theorem console_faithful (r r' : SetUp) (rounds rounds' : List Received) :
    consoleText strerror (start_ r rounds) = consoleText strerror (start_ r' rounds') ↔
      (setUp_ r).1 = (setUp_ r').1 ∧
        ((setUp_ r).2 = true → rounds.map round_ = rounds'.map round_) := by
  rw [(consoleText_injective strerror).eq_iff, start_of_setUp_, start_of_setUp_]
  obtain ⟨line, hline, hreached⟩ := exists_line r
  obtain ⟨line', hline', hreached'⟩ := exists_line r'
  rw [hline, hline']
  by_cases hwaiting : line = .waiting
  · have hloop := hreached.mpr hwaiting
    by_cases hwaiting' : line' = .waiting
    · rw [if_pos hloop, if_pos (hreached'.mpr hwaiting'), hwaiting, hwaiting']
      exact ⟨fun h => ⟨rfl, fun _ => (List.cons.inj h).2⟩, fun h => congrArg _ (h.2 hloop)⟩
    · rw [if_pos hloop, if_neg (mt hreached'.mp hwaiting')]
      exact ⟨fun h => absurd ((List.cons.inj h).1 ▸ hwaiting) hwaiting',
        fun h => absurd ((List.cons.inj h.1).1 ▸ hwaiting) hwaiting'⟩
  · have hnot := mt hreached.mp hwaiting
    by_cases hwaiting' : line' = .waiting
    · rw [if_neg hnot, if_pos (hreached'.mpr hwaiting')]
      exact ⟨fun h => absurd ((List.cons.inj h).1 ▸ hwaiting') hwaiting,
        fun h => absurd ((List.cons.inj h.1).1 ▸ hwaiting') hwaiting⟩
    · rw [if_neg hnot, if_neg (mt hreached'.mp hwaiting')]
      exact ⟨fun h => ⟨h, fun hloop => absurd hloop hnot⟩, fun h => h.1⟩

end Text

end TcpServer

end MessageTransmitter
