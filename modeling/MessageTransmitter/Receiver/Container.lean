import MessageTransmitter.Receiver.BstImpl

/-!
# The shared container

`udp_receiver/container.cpp`: a `bst_impl` behind a mutex.  Every member function holds the mutex
from its first to its last instruction, so a call is one atomic step on the store inside.
-/

namespace MessageTransmitter

structure Container where
  mPimpl : BstImpl := {}
  deriving DecidableEq, Repr, Inhabited

namespace Container

def contains (c : Container) (msgId : UInt64) : Bool := c.mPimpl.contains msgId

def add (c : Container) (msg : MessageFormat) : Container := ⟨c.mPimpl.add msg⟩

def insert (c : Container) (msgId : UInt64) (msg : MessageFormat) : Container :=
  ⟨c.mPimpl.insert msgId msg⟩

/-- `at(msg_id)` -/
def atId (c : Container) (msgId : UInt64) : Except Fault MessageFormat := c.mPimpl.atId msgId

def beginIndex (c : Container) : Except Fault UInt64 := c.mPimpl.beginIndex

def beginValue (c : Container) : Except Fault MessageFormat := c.mPimpl.beginValue

def remove (c : Container) (msgId : UInt64) : Container := ⟨c.mPimpl.remove msgId⟩

def toString (c : Container) : String := c.mPimpl.toString

def size (c : Container) : UInt64 := c.mPimpl.size

def empty (c : Container) : Bool := c.mPimpl.empty

def apply (c : Container) : BstImpl.Call → Container
  | .add msg => c.add msg
  | .insert msgId msg => c.insert msgId msg
  | .remove msgId => c.remove msgId

def run (calls : List BstImpl.Call) : Container := calls.foldl apply {}

@[simp] theorem run_snoc (calls : List BstImpl.Call) (c : BstImpl.Call) :
    run (calls ++ [c]) = (run calls).apply c := by
  simp only [run, List.foldl_append, List.foldl_cons, List.foldl_nil]

theorem mPimpl_apply (c : Container) (call : BstImpl.Call) :
    (c.apply call).mPimpl = c.mPimpl.apply call := by
  cases call <;> rfl

/-- A container runs its calls on the store inside. -/
theorem mPimpl_run (calls : List BstImpl.Call) : (run calls).mPimpl = BstImpl.run calls := by
  induction calls using List.reverseRecOn with
  | nil => rfl
  | append_singleton calls c ih => rw [run_snoc, mPimpl_apply, ih, BstImpl.run_snoc]

end Container

end MessageTransmitter
