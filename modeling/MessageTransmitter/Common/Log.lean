import MessageTransmitter.Library.Monitor

/-!
# The console

`common/log.h` and `log.cpp`: the functions that the receiver's threads log with.  Each writes its
line to `std::cout` under `LogMutex()`.  `Client::saveMessage`, the sockets and the TCP server write
to `std::cout` as well, without the mutex, so what they write can come anywhere.
-/

open Monitor Transition

namespace MessageTransmitter

/-- The overloads of `cout`, the template with the text that `v` is written as, and `cout_endl`. -/
inductive LogCall where
  | msg (msg1 : String)
  | msgs (msg1 msg2 : String)
  | value (msg1 msg2 v : String)
  | endl
  deriving DecidableEq, Repr

/-- The operands of `<<` in order. -/
def LogCall.pieces : LogCall → List String
  | msg msg1 => [msg1, "\n"]
  | msgs msg1 msg2 => [msg1, ": ", msg2, "\n"]
  | value msg1 msg2 v => [msg1, ": ", msg2, ": ", v, "\n"]
  | endl => ["\n"]

def LogCall.line (c : LogCall) : List Char := c.pieces.flatMap String.toList

/-- A character on the console, written by a log function or past them. -/
inductive Written where
  | logged (c : Char)
  | plain (c : Char)
  deriving DecidableEq, Repr

namespace Console

def logged (console : List Written) : List Char :=
  console.filterMap fun w => match w with
    | .logged c => some c
    | .plain _ => none

def plain (console : List Written) : List Char :=
  console.filterMap fun w => match w with
    | .plain c => some c
    | .logged _ => none

/-- A log function on the console, with the characters that it still has to write. -/
def program : Program (List Written) LogCall (List Char) Unit where
  entry := LogCall.line
  step console
    | [] => (console, .inr ())
    | c :: cs => (console ++ [.logged c], .inl cs)

/-- The same on what is logged alone. -/
def logProgram : Program (List Char) LogCall (List Char) Unit where
  entry := LogCall.line
  step text
    | [] => (text, .inr ())
    | c :: cs => (text ++ [c], .inl cs)

variable {ι : Type*}

inductive Event (ι : Type*) where
  -- a step of a thread in a log function
  | log (i : ι)
  -- a thread that is in none writes a character to `std::cout`
  | write (i : ι) (c : Char)

def Event.char? : Event ι → Option Char
  | log _ => none
  | write _ c => some c

abbrev State (ι : Type*) := Callers ι (List Written) LogCall (List Char) Unit

inductive Step [DecidableEq ι] (s : State ι) : Event ι → State ι → Prop
  | log {i : ι} {t : State ι} (hstep : Monitor.Step program s i t) : Step s (.log i) t
  | write {i : ι} {c : Char} (hphase : s.phase i = .idle) :
      Step s (.write i c) { s with shared := s.shared ++ [.plain c] }

/-- The lines of the calls, one after the other. -/
def text (log : List (ι × LogCall × Unit)) : List Char := log.flatMap fun e => e.2.1.line

theorem logged_append (console more : List Written) :
    logged (console ++ more) = logged console ++ logged more :=
  List.filterMap_append

theorem plain_append (console more : List Written) :
    plain (console ++ more) = plain console ++ plain more :=
  List.filterMap_append

/-- Where nothing is written past the log functions, all is logged. -/
theorem eq_map_logged {more : List Written} (h : plain more = []) :
    more = (logged more).map .logged := by
  induction more with
  | nil => rfl
  | cons w more ih =>
    cases w with
    | logged c => exact congrArg (Written.logged c :: ·) (ih h)
    | plain c => cases h

/-! ## What is logged -/

theorem finishes_iff {s u cs : List Char} {r : Unit} :
    Finishes logProgram s cs u r ↔ u = s ++ cs := by
  induction cs generalizing s with
  | nil =>
    rw [finishes_of_answer rfl, List.append_nil]
    exact and_iff_left rfl
  | cons c cs ih => rw [finishes_of_step (s ++ [c]) cs rfl, ih, List.append_assoc, List.singleton_append]

theorem text_of_alone {log : List (ι × LogCall × Unit)} {s u : List Char}
    (hrun : Run (Alone logProgram) s log u) : u = s ++ text log := by
  induction hrun with
  | nil => exact (List.append_nil s).symm
  | snoc _ hlast ih =>
    rw [finishes_iff.mp hlast, ih, text, text, List.flatMap_append, List.append_assoc]
    simp [logProgram]

section Run

variable [DecidableEq ι] {console : List Written} {events : List (Event ι)} {s t : State ι}

/-- What is written past the log functions does not show in what is logged. -/
theorem logged_step {e : Event ι} (h : Step s e t) :
    ∃ is, Run (Monitor.Step logProgram) (s.view logged) is (t.view logged) := by
  cases h with
  | @log i _ hstep =>
    refine ⟨[i], Run.nil.snoc (hstep.view logged (fun _ => rfl) fun console cs => ?_)⟩
    cases cs with
    | nil => rfl
    | cons c cs =>
      show (logged console ++ [c], _) = (logged (console ++ [.logged c]), _)
      rw [logged_append]
      rfl
  | @write i c hphase =>
    refine ⟨[], run_nil_iff.mpr ?_⟩
    show s.view logged = { s.view logged with shared := logged (s.shared ++ [.plain c]) }
    rw [logged_append, show logged [.plain c] = [] from rfl, List.append_nil]
    rfl

theorem linearized_log (hrun : Run Step { shared := console } events s) :
    ∃ base, Linearized logProgram (logged console) (s.view logged) base := by
  have hlogged : ∃ is t, Run (Monitor.Step logProgram) { shared := logged console } is t ∧
      t = s.view logged :=
    hrun.simulates (fun b u => b = u.view logged) rfl fun hb hstep => by
      obtain ⟨is, hlog⟩ := logged_step hstep
      exact ⟨is, _, hb ▸ hlog, rfl⟩
  obtain ⟨is, t, hlog, rfl⟩ := hlogged
  exact linearized_run hlog

/-- Every step adds to the console, and what is added past the log functions is what is written
there. -/
theorem step_appends {e : Event ι} (h : Step s e t) :
    ∃ more, t.shared = s.shared ++ more ∧ plain more = e.char?.toList := by
  cases h with
  | write hphase => exact ⟨[_], rfl, rfl⟩
  | log hstep =>
    cases hstep with
    | work a k k' u hphase hwork =>
      cases k with
      | nil => cases (Prod.mk.inj hwork).2
      | cons c cs => exact ⟨[.logged c], (Prod.mk.inj hwork).1.symm, rfl⟩
    | answer a k r u hphase hwork =>
      cases k with
      | nil => exact ⟨[], (Prod.mk.inj hwork).1.symm.trans (List.append_nil _).symm, rfl⟩
      | cons c cs => cases (Prod.mk.inj hwork).2
    | call | lock | leave => exact ⟨[], (List.append_nil _).symm, rfl⟩

theorem run_appends (hrun : Run Step s events t) :
    ∃ more, t.shared = s.shared ++ more ∧ plain more = events.filterMap Event.char? := by
  induction hrun with
  | nil => exact ⟨[], (List.append_nil _).symm, rfl⟩
  | snoc _ hlast ih =>
    obtain ⟨more, hmore, hplain⟩ := ih
    obtain ⟨last, hshared, hlast⟩ := step_appends hlast
    refine ⟨more ++ last, by rw [hshared, hmore, List.append_assoc], ?_⟩
    rw [plain_append, hplain, hlast, List.filterMap_append, List.filterMap_cons]
    cases Event.char? _ <;> rfl

/-- However the threads take turns and whatever they write past the log functions, the characters
that come to the console are what is written there, in order, and among them the whole lines of the
log calls that are done, in the order in which they were done, and the beginning of the line of the
call that is writing.  So a line can be torn by what is written past the log functions, but by no
other log call, and where nothing is written there the console shows the lines alone.  Each thread's
lines come in its order. -/
theorem lines_whole (hrun : Run Step { shared := console } events s) :
    ∃ more, s.shared = console ++ more ∧ plain more = events.filterMap Event.char? ∧
      ((∀ i c cs, s.phase i ≠ .working c cs) → logged more = text (effects s.history)) ∧
      (∀ i c cs, s.phase i = .working c cs →
        logged more ++ cs = text (effects s.history) ++ c.line) ∧
      (events.filterMap Event.char? = [] → more = (logged more).map .logged) ∧
      ∀ i, InOrder s.history (s.phase i) i := by
  obtain ⟨more, hmore, hplain⟩ := run_appends hrun
  obtain ⟨base, h⟩ := linearized_log hrun
  have hbase : base = logged console ++ text (effects s.history) := text_of_alone h.alone
  have hlogged : logged s.shared = logged console ++ logged more := by
    rw [hmore]
    exact logged_append console more
  refine ⟨more, hmore, hplain, fun hnone => ?_, fun i c cs hphase => ?_,
    fun hnothing => eq_map_logged (hplain.trans hnothing), h.inOrder⟩
  · have hsettled : logged s.shared = base := h.settled hnone
    rw [hlogged, hbase] at hsettled
    exact List.append_cancel_left hsettled
  · have hrest : logged s.shared ++ cs = base ++ c.line :=
      finishes_iff.mp (h.working i c cs hphase _ () (finishes_iff.mpr rfl))
    rw [hlogged, hbase, List.append_assoc, List.append_assoc] at hrest
    exact List.append_cancel_left hrest

/-- The second thread writes past the log functions in the middle of the first one's line, and starts
a log call that has to wait. -/
theorem lines_whole_two :
    ∃ events, ∃ s : State Bool, Run Step { shared := [] } events s ∧
      s.shared = [.logged 'a', .plain 'x', .logged '\n', .logged 'b', .logged '\n'] ∧
      logged s.shared = ['a', '\n', 'b', '\n'] := by
  have hstart : Run Step ({ shared := [] } : State Bool) [] { shared := [] } := .nil
  have hrun := ((((((((((hstart.snoc
    (i := .log false) (.log (.call (.msg "a") rfl))).snoc
    (i := .log false) (.log (.lock _ rfl rfl))).snoc
    (i := .log false) (.log (.work _ _ _ _ rfl rfl))).snoc
    (i := .write true 'x') (.write rfl)).snoc
    (i := .log true) (.log (.call (.msg "b") rfl))).snoc
    (i := .log false) (.log (.work _ _ _ _ rfl rfl))).snoc
    (i := .log false) (.log (.answer _ _ _ _ rfl rfl))).snoc
    (i := .log false) (.log (.leave _ _ rfl))).snoc
    (i := .log true) (.log (.lock _ rfl rfl))).snoc
    (i := .log true) (.log (.work _ _ _ _ rfl rfl))).snoc
    (i := .log true) (.log (.work _ _ _ _ rfl rfl)) |>.snoc
    (i := .log true) (.log (.answer _ _ _ _ rfl rfl))
  obtain ⟨more, hmore, -, hidle, -⟩ := lines_whole hrun
  refine ⟨_, _, hrun, rfl, ?_⟩
  rw [hmore, List.nil_append]
  refine (hidle fun i c cs hphase => ?_).trans rfl
  cases i with
  | false => cases hphase
  | true => cases hphase

end Run

end Console

end MessageTransmitter
