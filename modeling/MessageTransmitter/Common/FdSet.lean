import Mathlib.Data.Int.Basic
import Mathlib.Data.List.FinRange

/-!
# Sets of descriptors

`fd_set` with its macros, and the call of `select` over two of them.
-/

namespace MessageTransmitter

/-- `FD_SET` indexes an array of 1024 bits. -/
def fdSetSize : Int := 1024

inductive DescriptorFault where
  | outOfRange (fd : Int)
  deriving DecidableEq, Repr

/-- `fd_set`: a bit for each descriptor below 1024. -/
abbrev FdSet := Fin 1024 → Bool

def fdIndex (fd : Int) : Fin 1024 := Fin.ofNat 1024 fd.toNat

/-- The bit of a descriptor.  The macros do not check the descriptor. -/
def fdBit (fd : Int) : Except DescriptorFault (Fin 1024) :=
  if fd < 0 ∨ fdSetSize ≤ fd then .error (.outOfRange fd) else .ok (fdIndex fd)

def fdZero : FdSet := fun _ => false

def fdSet (fd : Int) (fds : FdSet) : Except DescriptorFault FdSet := do
  return Function.update fds (← fdBit fd) true

def fdIsset (fd : Int) (fds : FdSet) : Except DescriptorFault Bool := do
  return fds (← fdBit fd)

/-- What the kernel answers to `select`: -1, or which descriptors can be read and written. -/
inductive SelectResult where
  | error
  | ready (readable writable : FdSet)

/-- What `select` leaves of a set: the descriptors below `nfds` that are ready. -/
def polled (nfds : Int) (fds ready : FdSet) : FdSet :=
  fun fd => fds fd && ready fd && decide ((fd.val : Int) < nfds)

def FdSet.count (fds : FdSet) : ℕ := (List.finRange 1024).countP fds

/-- `select(nfds, recv, send, …)`: the result, and the two sets afterwards. -/
def sysSelect (nfds : Int) (recv send : FdSet) : SelectResult → Int × FdSet × FdSet
  -- a call that fails leaves the sets as they are
  | .error => (-1, recv, send)
  | .ready readable writable =>
      let recv := polled nfds recv readable
      let send := polled nfds send writable
      (recv.count + send.count, recv, send)

/-- What an answer says about one descriptor: the result of `select` for it alone, and whether it
can be read and written. -/
def SelectResult.about (fd : Int) : SelectResult → Int × Bool × Bool
  -- the bits that `preSelect` has set
  | .error => (-1, true, true)
  | .ready readable writable =>
      let recv := readable (fdIndex fd)
      let send := writable (fdIndex fd)
      (recv.toNat + send.toNat, recv, send)

theorem SelectResult.about_idle {fd : Int} {res : SelectResult} (h : (res.about fd).1 ≤ 0) :
    (res.about fd).1 = -1 ∨ (res.about fd).2 = (false, false) := by
  cases res with
  | error => exact .inl rfl
  | ready readable writable =>
    right
    change ((readable (fdIndex fd)).toNat + (writable (fdIndex fd)).toNat : Int) ≤ 0 at h
    show (readable (fdIndex fd), writable (fdIndex fd)) = (false, false)
    have hread : (readable (fdIndex fd)).toNat = 0 := by omega
    have hwrite : (writable (fdIndex fd)).toNat = 0 := by omega
    rw [Bool.toNat_eq_zero.mp hread, Bool.toNat_eq_zero.mp hwrite]

theorem fdBit_error {fd : Int} (h : fd < 0 ∨ fdSetSize ≤ fd) : fdBit fd = .error (.outOfRange fd) :=
  if_pos h

theorem fdBit_ok {fd : Int} (h : ¬ (fd < 0 ∨ fdSetSize ≤ fd)) : fdBit fd = .ok (fdIndex fd) :=
  if_neg h

theorem fdIndex_val {fd : Int} (h : ¬ (fd < 0 ∨ fdSetSize ≤ fd)) : ((fdIndex fd).val : Int) = fd := by
  have hlt : fd.toNat < 1024 := by
    unfold fdSetSize at h
    omega
  show ((fd.toNat % 1024 : ℕ) : Int) = fd
  rw [Nat.mod_eq_of_lt hlt]
  omega

namespace FdSet

/-- At most one bit. -/
def single (i : Fin 1024) (b : Bool) : FdSet := Function.update fdZero i b

@[simp] theorem single_self (i : Fin 1024) (b : Bool) : single i b i = b := by
  unfold single
  rw [Function.update_self]

theorem single_of_ne {i j : Fin 1024} (h : j ≠ i) (b : Bool) : single i b j = false := by
  unfold single
  rw [Function.update_of_ne h]
  rfl

theorem count_single (i : Fin 1024) (b : Bool) : (single i b).count = b.toNat := by
  unfold count
  cases b with
  | false =>
    have hnone : ∀ j, single i false j = false := fun j => by
      by_cases hj : j = i
      · rw [hj, single_self]
      · exact single_of_ne hj false
    rw [List.countP_eq_zero.mpr fun j _ => by rw [hnone j]; decide]
    rfl
  | true =>
    have hself : single i true = fun j => j == i := by
      funext j
      by_cases hj : j = i
      · rw [hj, single_self, beq_self_eq_true]
      · rw [single_of_ne hj, beq_eq_false_iff_ne.mpr hj]
    rw [hself]
    exact List.count_eq_one_of_mem (List.nodup_finRange 1024) (List.mem_finRange i)

/-- `select` with a set of one descriptor. -/
theorem polled_single {i : Fin 1024} {nfds : Int} (h : (i.val : Int) < nfds) (ready : FdSet) :
    polled nfds (single i true) ready = single i (ready i) := by
  funext j
  unfold polled
  by_cases hj : j = i
  · rw [hj, single_self, single_self, decide_eq_true h, Bool.true_and, Bool.and_true]
  · rw [single_of_ne hj, single_of_ne hj, Bool.false_and, Bool.false_and]

end FdSet

theorem fdIsset_single {fd : Int} (h : ¬ (fd < 0 ∨ fdSetSize ≤ fd)) (b : Bool) :
    fdIsset fd (.single (fdIndex fd) b) = .ok b := by
  unfold fdIsset
  rw [fdBit_ok h]
  show Except.ok (FdSet.single (fdIndex fd) b (fdIndex fd)) = _
  rw [FdSet.single_self]

end MessageTransmitter
