import Mathlib.Data.List.Basic

/-!
# A buffer and its bounds

An array of `size` bytes in C, with the indices at which it was accessed. A store outside of
the array changes none of its cells. A buffer that is printed as a string is read up to its
first zero, and past its end where it holds none.
-/

namespace RedisLuaLinux.Library

structure Buffer (size : Nat) where
  cells : List UInt8
  full : cells.length = size
  accesses : List Nat

namespace Buffer

variable {size : Nat}

/-- Every access was inside the array. -/
def InBounds (b : Buffer size) : Prop := ∀ i ∈ b.accesses, i < size

instance (b : Buffer size) : Decidable b.InBounds :=
  inferInstanceAs (Decidable (∀ i ∈ b.accesses, i < size))

def zeroed : Buffer size := ⟨List.replicate size 0, List.length_replicate, []⟩

def store (b : Buffer size) (i : Nat) (x : UInt8) : Buffer size :=
  ⟨b.cells.set i x, List.length_set.trans b.full, b.accesses ++ [i]⟩

theorem length_filled {cells bytes : List UInt8} (h : cells.length = size) :
    (bytes.take size ++ cells.drop bytes.length).length = size := by
  rw [List.length_append, List.length_take, List.length_drop, h]
  omega

/-- Bytes are stored one after another from the start. -/
def fill (b : Buffer size) (bytes : List UInt8) : Buffer size :=
  ⟨bytes.take size ++ b.cells.drop bytes.length, length_filled b.full,
    b.accesses ++ List.range bytes.length⟩

/-- The buffer is read as a string. -/
def print (b : Buffer size) : Buffer size :=
  ⟨b.cells, b.full, b.accesses ++ List.range (b.cells.idxOf 0 + 1)⟩

variable {b : Buffer size}

theorem print_cells : b.print.cells = b.cells := rfl

theorem store_cells {i : Nat} {x : UInt8} : (b.store i x).cells = b.cells.set i x := rfl

theorem inBounds_append {accesses more : List Nat} :
    (∀ i ∈ accesses ++ more, i < size) ↔ (∀ i ∈ accesses, i < size) ∧ ∀ i ∈ more, i < size := by
  simp [or_imp, forall_and]

theorem inBounds_zeroed : (zeroed : Buffer size).InBounds := fun _ h => absurd h List.not_mem_nil

theorem inBounds_store {i : Nat} {x : UInt8} : (b.store i x).InBounds ↔ b.InBounds ∧ i < size :=
  inBounds_append.trans (by simp [InBounds])

theorem forall_range_lt {n : Nat} : (∀ i ∈ List.range n, i < size) ↔ n ≤ size := by
  simp only [List.mem_range]
  constructor
  · intro h
    by_contra hlt
    exact absurd (h size (by omega)) (Nat.lt_irrefl size)
  · intro h i hi
    omega

theorem inBounds_fill {bytes : List UInt8} :
    (b.fill bytes).InBounds ↔ b.InBounds ∧ bytes.length ≤ size :=
  inBounds_append.trans (and_congr_right fun _ => forall_range_lt)

/-- A buffer may be printed if it holds a zero. -/
theorem inBounds_print : b.print.InBounds ↔ b.InBounds ∧ 0 ∈ b.cells := by
  refine inBounds_append.trans (and_congr_right fun _ => ?_)
  have hfound : b.cells.idxOf 0 < b.cells.length ↔ 0 ∈ b.cells := List.idxOf_lt_length_iff
  rw [forall_range_lt, Nat.succ_le_iff, ← hfound, b.full]

/-- A string may be printed once it is terminated inside the array. -/
theorem inBounds_terminated {i : Nat} : (b.store i 0).print.InBounds ↔ b.InBounds ∧ i < size := by
  rw [inBounds_print, inBounds_store]
  refine and_iff_left_of_imp ?_
  rintro ⟨-, hi⟩
  exact List.mem_set (b.full.symm ▸ hi) 0

theorem cells_fill {bytes : List UInt8} (h : bytes.length ≤ size) :
    (b.fill bytes).cells = bytes ++ b.cells.drop bytes.length := by
  show bytes.take size ++ _ = _
  rw [List.take_of_length_le h]

/-- `memset` with zero. -/
def clear (b : Buffer size) : Buffer size := b.fill (List.replicate size 0)

theorem inBounds_clear : b.clear.InBounds ↔ b.InBounds := by
  rw [clear, inBounds_fill, List.length_replicate]
  exact and_iff_left (Nat.le_refl size)

theorem cells_clear : b.clear.cells = List.replicate size 0 := by
  rw [clear, cells_fill (Nat.le_of_eq List.length_replicate), List.length_replicate,
    List.drop_of_length_le (Nat.le_of_eq b.full), List.append_nil]

/-- Zeros are left behind the bytes unless these take the whole buffer. -/
theorem zero_mem_fill (hzero : b.cells = List.replicate size 0) {bytes : List UInt8}
    (h : bytes.length ≤ size) : 0 ∈ (b.fill bytes).cells ↔ bytes.length < size ∨ 0 ∈ bytes := by
  have hroom : size - bytes.length ≠ 0 ↔ bytes.length < size := by omega
  rw [cells_fill h, hzero, List.drop_replicate, List.mem_append, List.mem_replicate, or_comm, hroom]
  simp only [and_true]

end Buffer

end RedisLuaLinux.Library
