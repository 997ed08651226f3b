import MessageTransmitter.Library.Monitor
import MessageTransmitter.Receiver.Container

/-!
# Calls on the shared container

The member functions of `container` statement by statement, as `bst_impl` has them, called from any
number of threads.  Between the statements of `insert` and `remove` the tree and `m_size` do not
agree; under the mutex no other call gets to see that.
-/

open Monitor Transition

namespace MessageTransmitter

inductive ContainerCall where
  | containsMsg (msg : MessageFormat)
  | contains (msgId : UInt64)
  | add (msg : MessageFormat)
  | insert (msgId : UInt64) (msg : MessageFormat)
  | atId (msgId : UInt64)
  | beginIndex
  | beginValue
  | remove (msgId : UInt64)
  | toString
  | size
  | empty
  deriving DecidableEq, Repr

/-- What a call returns.  For a reference it is the message behind it at that moment. -/
inductive Response where
  | unit
  | bool (b : Bool)
  | index (i : UInt64)
  | message (msg : MessageFormat)
  | text (s : String)
  | fault (f : Fault)
  deriving DecidableEq, Repr

/-- The next statement of a call. -/
inductive Statement where
  -- `return contains(msg_id)`
  | contains (msgId : UInt64)
  -- `insert`: the test, the tree, `++m_size`
  | insertTest (msgId : UInt64) (msg : MessageFormat)
  | insertNode (msgId : UInt64) (msg : MessageFormat)
  | insertCount
  -- `at`: the test, the search
  | atTest (msgId : UInt64)
  | atNode (msgId : UInt64)
  | beginIndex
  -- `beginValue`: the index, then as `at`
  | beginValueIndex
  -- `remove`: the test, the tree, `--m_size`
  | removeTest (msgId : UInt64)
  | removeNode (msgId : UInt64)
  | removeCount
  | toString
  | size
  | empty
  deriving DecidableEq, Repr

namespace ContainerCall

def entry : ContainerCall → Statement
  | containsMsg msg => .contains msg.messageId
  | contains msgId => .contains msgId
  | add msg => .insertTest msg.messageId msg
  | insert msgId msg => .insertTest msgId msg
  | atId msgId => .atTest msgId
  | beginIndex => .beginIndex
  | beginValue => .beginValueIndex
  | remove msgId => .removeTest msgId
  | toString => .toString
  | size => .size
  | empty => .empty

def step (s : BstImpl) : Statement → BstImpl × (Statement ⊕ Response)
  | .contains msgId => (s, .inr (.bool (s.contains msgId)))
  | .insertTest msgId msg =>
      if !s.contains msgId then (s, .inl (.insertNode msgId msg)) else (s, .inr .unit)
  | .insertNode msgId msg =>
      ({ s with
        mRoot := if !s.mRoot.isNull then s.mRoot.insert msgId msg else Node.makeNode msgId msg },
        .inl .insertCount)
  | .insertCount => ({ s with mSize := s.mSize + 1 }, .inr .unit)
  | .atTest msgId =>
      if !s.contains msgId then (s, .inr (.fault .outOfRange)) else (s, .inl (.atNode msgId))
  | .atNode msgId => match s.mRoot.search msgId with
      | .node _ value _ _ => (s, .inr (.message value))
      | .nullptr => (s, .inr (.fault .nullDereference))
  | .beginIndex => match s.mRoot.minValueNode with
      | .node key _ _ _ => (s, .inr (.index key))
      | .nullptr => (s, .inr (.fault .nullDereference))
  | .beginValueIndex => match s.mRoot.minValueNode with
      | .node key _ _ _ => (s, .inl (.atTest key))
      | .nullptr => (s, .inr (.fault .nullDereference))
  | .removeTest msgId =>
      if s.contains msgId then (s, .inl (.removeNode msgId)) else (s, .inr .unit)
  | .removeNode msgId => ({ s with mRoot := s.mRoot.deleteNode msgId }, .inl .removeCount)
  | .removeCount => ({ s with mSize := s.mSize - 1 }, .inr .unit)
  | .toString => (s, .inr (.text s.toString))
  | .size => (s, .inr (.index s.mSize))
  | .empty => (s, .inr (.bool (s.mSize = 0)))

def program : Program BstImpl ContainerCall Statement Response where
  entry := entry
  step := step

theorem program_step (s : BstImpl) (k : Statement) : program.step s k = step s k := rfl

/-- A whole call on a container that nobody else uses. -/
def answer (c : Container) : ContainerCall → Container × Response
  | containsMsg msg => (c, .bool (c.contains msg.messageId))
  | contains msgId => (c, .bool (c.contains msgId))
  | add msg => (c.add msg, .unit)
  | insert msgId msg => (c.insert msgId msg, .unit)
  | atId msgId => (c, match c.atId msgId with
      | .ok msg => .message msg
      | .error f => .fault f)
  | beginIndex => (c, match c.beginIndex with
      | .ok i => .index i
      | .error f => .fault f)
  | beginValue => (c, match c.beginValue with
      | .ok msg => .message msg
      | .error f => .fault f)
  | remove msgId => (c.remove msgId, .unit)
  | toString => (c, .text c.toString)
  | size => (c, .index c.size)
  | empty => (c, .bool c.empty)

/-! ## Statement by statement and at once -/

section Finishes

variable {s u : BstImpl} {r : Response}

theorem finishes_insert {msgId : UInt64} {msg : MessageFormat} :
    Finishes program s (.insertTest msgId msg) u r ↔ u = s.insert msgId msg ∧ r = .unit := by
  unfold BstImpl.insert
  cases hc : s.contains msgId with
  | true => exact finishes_of_answer (by rw [program_step, step, hc]; rfl)
  | false =>
    rw [finishes_of_step s (.insertNode msgId msg)
      (by rw [program_step, step, hc]; rfl), finishes_of_step _ _ rfl, finishes_of_answer rfl]
    rfl

theorem finishes_remove {msgId : UInt64} :
    Finishes program s (.removeTest msgId) u r ↔ u = s.remove msgId ∧ r = .unit := by
  unfold BstImpl.remove
  cases hc : s.contains msgId with
  | false => exact finishes_of_answer (by rw [program_step, step, hc]; rfl)
  | true =>
    rw [finishes_of_step s (.removeNode msgId)
      (by rw [program_step, step, hc]; rfl), finishes_of_step _ _ rfl, finishes_of_answer rfl]
    rfl

theorem finishes_atId {msgId : UInt64} :
    Finishes program s (.atTest msgId) u r ↔ u = s ∧ r = match s.atId msgId with
      | .ok msg => .message msg
      | .error f => .fault f := by
  unfold BstImpl.atId
  cases hc : s.contains msgId with
  | false => exact finishes_of_answer (by rw [program_step, step, hc]; rfl)
  | true =>
    rw [finishes_of_step s (.atNode msgId)
      (by rw [program_step, step, hc]; rfl)]
    cases hnode : s.mRoot.search msgId with
    | nullptr => exact finishes_of_answer (by rw [program_step, step, hnode]; rfl)
    | node key value left right =>
      exact finishes_of_answer (by rw [program_step, step, hnode]; rfl)

theorem finishes_beginIndex :
    Finishes program s .beginIndex u r ↔ u = s ∧ r = match s.beginIndex with
      | .ok i => .index i
      | .error f => .fault f := by
  unfold BstImpl.beginIndex
  cases hnode : s.mRoot.minValueNode with
  | nullptr => exact finishes_of_answer (by rw [program_step, step, hnode])
  | node key value left right => exact finishes_of_answer (by rw [program_step, step, hnode])

theorem finishes_beginValue :
    Finishes program s .beginValueIndex u r ↔ u = s ∧ r = match s.beginValue with
      | .ok msg => .message msg
      | .error f => .fault f := by
  unfold BstImpl.beginValue BstImpl.beginIndex
  cases hnode : s.mRoot.minValueNode with
  | nullptr => exact finishes_of_answer (by rw [program_step, step, hnode]; rfl)
  | node key value left right =>
    rw [finishes_of_step s (.atTest key) (by rw [program_step, step, hnode])]
    exact finishes_atId

end Finishes

variable {ι : Type*}

/-- Statement by statement each call does what its function does on the store. -/
theorem alone_iff {s u : BstImpl} {i : ι} {a : ContainerCall} {r : Response} :
    Alone program s (i, a, r) u ↔ answer ⟨s⟩ a = (⟨u⟩, r) := by
  have hflip : ∀ {d : Container} {r' : Response}, (u = d.mPimpl ∧ r = r') ↔ (d, r') = (⟨u⟩, r) :=
    fun {d r'} => by
      obtain ⟨t⟩ := d
      rw [Prod.mk.injEq, Container.mk.injEq, eq_comm (a := u), eq_comm (a := r)]
  cases a with
  | containsMsg msg => exact (finishes_of_answer rfl).trans hflip
  | contains msgId => exact (finishes_of_answer rfl).trans hflip
  | add msg => exact finishes_insert.trans hflip
  | insert msgId msg => exact finishes_insert.trans hflip
  | atId msgId => exact finishes_atId.trans hflip
  | beginIndex => exact finishes_beginIndex.trans hflip
  | beginValue => exact finishes_beginValue.trans hflip
  | remove msgId => exact finishes_remove.trans hflip
  | toString => exact (finishes_of_answer rfl).trans hflip
  | size => exact (finishes_of_answer rfl).trans hflip
  | empty => exact (finishes_of_answer rfl).trans hflip

/-! ## Runs -/

/-- One call of a log with the response that it got. -/
def Answers (c : Container) (e : ι × ContainerCall × Response) (d : Container) : Prop :=
  answer c e.2.1 = (d, e.2.2)

theorem valid_of_answers {c d : Container} {e : ι × ContainerCall × Response}
    (h : c.mPimpl.Valid) (hanswers : Answers c e d) : d.mPimpl.Valid := by
  obtain ⟨i, a, r⟩ := e
  have hd : (answer c a).1 = d := congrArg Prod.fst hanswers
  rw [← hd]
  cases a with
  | add msg => exact h.insert msg.messageId msg
  | insert msgId msg => exact h.insert msgId msg
  | remove msgId => exact h.remove msgId
  | _ => exact h

/-- The container is linearizable: in the order in which the calls of all threads got their answers,
they answered what the functions answer one after the other, each between its start and its return;
and whenever no call is under way in the critical section, the store is the one that this order
leaves behind, with a counter that agrees with its tree. -/
theorem linearizable [DecidableEq ι] {is : List ι}
    {s : Callers ι BstImpl ContainerCall Statement Response}
    (hrun : Run (Step program) { shared := {} } is s) :
    ∃ c : Container, Run Answers {} (effects s.history) c ∧
      ((∀ i a k, s.phase i ≠ .working a k) → s.shared = c.mPimpl ∧ s.shared.Valid) ∧
      ∀ i, InOrder s.history (s.phase i) i := by
  obtain ⟨base, h⟩ := linearized_run hrun
  have hanswers : Run Answers {} (effects s.history) ⟨base⟩ :=
    h.alone.map Container.mk fun hstep => alone_iff.mp hstep
  refine ⟨⟨base⟩, hanswers, fun hnone => ?_, h.inOrder⟩
  have hvalid : base.Valid :=
    hanswers.invariant (fun c => c.mPimpl.Valid) BstImpl.valid_empty valid_of_answers
  rw [h.settled hnone]
  exact ⟨rfl, hvalid⟩

/-- While one thread is between the tree and `++m_size`, another calls `size`; it waits for the mutex
and is told 1. -/
theorem linearizable_size :
    ∃ s : Callers Bool BstImpl ContainerCall Statement Response,
      Run (Step program) { shared := {} }
        [false, false, false, false, true, false, false, true, true] s ∧
      effects s.history = [(false, .insert 5 (makeMessageWithId 5), .unit), (true, .size, .index 1)] ∧
      s.shared.Valid := by
  have hstart : Run (Step program)
      ({ shared := {} } : Callers Bool BstImpl ContainerCall Statement Response) []
      { shared := {} } := .nil
  have hrun := ((((((((hstart.snoc
    (i := false) (.call (.insert 5 (makeMessageWithId 5)) rfl)).snoc
    (i := false) (.lock _ rfl rfl)).snoc
    (i := false) (.work _ _ _ _ rfl rfl)).snoc
    (i := false) (.work _ _ _ _ rfl rfl)).snoc
    (i := true) (.call .size rfl)).snoc
    (i := false) (.answer _ _ _ _ rfl rfl)).snoc
    (i := false) (.leave _ _ rfl)).snoc
    (i := true) (.lock _ rfl rfl)).snoc
    (i := true) (.answer _ _ _ _ rfl rfl)
  obtain ⟨c, -, hsettled, -⟩ := linearizable hrun
  refine ⟨_, hrun, rfl, (hsettled fun i a k hphase => ?_).2⟩
  cases i with
  | false => cases hphase
  | true => cases hphase

end ContainerCall

end MessageTransmitter
