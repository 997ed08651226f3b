import Mathlib.Order.Defs.LinearOrder
import Mathlib.Tactic.Ring

/-!
# Machine words, little-endian bytes and fixed-size buffers

`UInt64` is linearly ordered by its value.  `leBytes n x` are the `n` low bytes of `x`, least
significant first, and `leNat` reads them back.  A `Buffer n` is a block of exactly `n` bytes;
`Buffer.fill` is what a receive call does to one: it overwrites the front and leaves the rest.
-/

instance UInt64.linearOrder : LinearOrder UInt64 where
  le_refl := UInt64.le_refl
  le_trans _ _ _ := UInt64.le_trans
  le_antisymm _ _ := UInt64.le_antisymm
  le_total := UInt64.le_total
  lt_iff_le_not_ge a b := by
    rw [UInt64.lt_iff_toNat_lt, UInt64.le_iff_toNat_le, UInt64.le_iff_toNat_le]
    omega
  min_def _ _ := rfl
  max_def _ _ := rfl
  toDecidableLE := inferInstance
  toDecidableEq := inferInstance
  toDecidableLT := inferInstance

namespace Bytes

/-! ## Little-endian bytes -/

def leBytes : ℕ → ℕ → List UInt8
  | 0, _ => []
  | n + 1, x => UInt8.ofNat (x % 256) :: leBytes n (x / 256)

def leNat : List UInt8 → ℕ
  | [] => 0
  | b :: bs => b.toNat + 256 * leNat bs

@[simp] theorem length_leBytes (n x : ℕ) : (leBytes n x).length = n := by
  induction n generalizing x with
  | zero => rfl
  | succ n ih => simp only [leBytes, List.length_cons, ih]

theorem leNat_leBytes (n x : ℕ) : leNat (leBytes n x) = x % 256 ^ n := by
  induction n generalizing x with
  | zero => simp [leBytes, leNat, Nat.mod_one]
  | succ n ih =>
    -- the lowest digit fits a byte, the others are those of `x / 256`
    have hbyte : (UInt8.ofNat (x % 256)).toNat = x % 256 := by
      rw [UInt8.toNat_ofNat']
      omega
    rw [leBytes, leNat, hbyte, ih, pow_succ', Nat.mod_mul]

theorem leNat_leBytes_of_lt {n x : ℕ} (h : x < 256 ^ n) : leNat (leBytes n x) = x := by
  rw [leNat_leBytes, Nat.mod_eq_of_lt h]

/-! ## Buffers -/

structure Buffer (n : ℕ) where
  bytes : List UInt8
  length_eq : bytes.length = n
  deriving DecidableEq

variable {n : ℕ}

/-- Copy the first `min data.length n` bytes of `data` over the front of the buffer. -/
def Buffer.fill (b : Buffer n) (data : List UInt8) : Buffer n where
  bytes := data.take n ++ b.bytes.drop data.length
  length_eq := by
    have hlen := b.length_eq
    rw [List.length_append, List.length_take, List.length_drop]
    omega

@[ext] theorem Buffer.ext {b c : Buffer n} (h : b.bytes = c.bytes) : b = c := by
  cases b; cases c; congr

/-- A buffer that is filled completely holds the data and nothing of its old contents. -/
theorem Buffer.fill_of_length_eq (b : Buffer n) {data : List UInt8} (h : data.length = n) :
    (b.fill data).bytes = data := by
  show data.take n ++ b.bytes.drop data.length = data
  rw [List.take_of_length_le h.le, List.drop_eq_nil_of_le (by rw [b.length_eq, h]),
    List.append_nil]

end Bytes
