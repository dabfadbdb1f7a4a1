import Mathlib.Data.Fin.Basic
import Mathlib.Algebra.Order.Group.Nat
import Mathlib.Data.ZMod.Defs

/-!
# The circular queue

`circular_q`: a vector with one cell more than the queue holds items, and the positions of its head
and its tail, which advance modulo the length of the vector.

* `items`: the queue as a list, oldest item first.
* `items_pushBack`, `items_popFront`: what the two operations do to this list.
-/

namespace RedisLuaLinux.Spdlog

/-- A queue for `n` items; `n + 1` is `max_items_`, as long as it is less than `2 ^ 64`. -/
structure CircularQ (α : Type) (n : Nat) where
  head : Fin (n + 1)
  tail : Fin (n + 1)
  v : Fin (n + 1) → α
  overrunCounter : Nat

namespace CircularQ

variable {α : Type} {n : Nat}

def new (α : Type) [Inhabited α] (n : Nat) : CircularQ α n where
  head := 0
  tail := 0
  v _ := default
  overrunCounter := 0

/-- The oldest item is overrun where there is no room left. -/
def pushBack (q : CircularQ α n) (item : α) : CircularQ α n :=
  let v := Function.update q.v q.tail item
  let tail := q.tail + 1
  if tail = q.head then ⟨q.head + 1, tail, v, q.overrunCounter + 1⟩
  else ⟨q.head, tail, v, q.overrunCounter⟩

def popFront (q : CircularQ α n) : α × CircularQ α n := (q.v q.head, { q with head := q.head + 1 })

def empty (q : CircularQ α n) : Bool := q.tail = q.head

def full (q : CircularQ α n) : Bool := q.tail + 1 = q.head

/-! ## The items -/

/-- The cells from position `i` on. -/
def itemsFrom (v : Fin (n + 1) → α) (i : Fin (n + 1)) : Nat → List α
  | 0 => []
  | count + 1 => v i :: itemsFrom v (i + 1) count

def size (q : CircularQ α n) : Nat := (q.tail - q.head).val

def items (q : CircularQ α n) : List α := itemsFrom q.v q.head q.size

theorem length_itemsFrom (v : Fin (n + 1) → α) (i : Fin (n + 1)) (count : Nat) :
    (itemsFrom v i count).length = count := by
  induction count generalizing i with
  | zero => rfl
  | succ count ih => rw [itemsFrom, List.length_cons, ih]

theorem val_sub_succ {i j : Fin (n + 1)} {count : Nat} (h : (j - i).val = count + 1) :
    (j - (i + 1)).val = count := by
  have hne : j - i ≠ 0 := by
    intro hzero
    rw [hzero] at h
    cases h
  rw [← sub_sub, Fin.coe_sub_one, if_neg hne, h]
  rfl

/-- The cell after the first ones. -/
theorem itemsFrom_concat (v : Fin (n + 1) → α) {i j : Fin (n + 1)} {count : Nat} (h : (j - i).val = count) :
    itemsFrom v i (count + 1) = itemsFrom v i count ++ [v j] := by
  induction count generalizing i with
  | zero =>
    obtain rfl : j = i := sub_eq_zero.mp (Fin.ext h)
    rfl
  | succ count ih => rw [itemsFrom, ih (val_sub_succ h), itemsFrom, List.cons_append]

/-- A store behind the cells does not change them. -/
theorem itemsFrom_update (v : Fin (n + 1) → α) {i j : Fin (n + 1)} (x : α) {count : Nat}
    (h : count ≤ (j - i).val) : itemsFrom (Function.update v j x) i count = itemsFrom v i count := by
  induction count generalizing i with
  | zero => rfl
  | succ count ih =>
    have hne : i ≠ j := by
      rintro rfl
      rw [sub_self] at h
      exact Nat.not_succ_le_zero _ h
    obtain ⟨d, hd⟩ : ∃ d, (j - i).val = d + 1 := Nat.exists_eq_add_one.mpr (by omega)
    have hrest := ih (i := i + 1) (by rw [val_sub_succ hd]; omega)
    rw [itemsFrom, itemsFrom, Function.update_of_ne hne, hrest]

theorem size_le (q : CircularQ α n) : q.size ≤ n := Nat.le_of_lt_succ (q.tail - q.head).isLt

theorem length_items (q : CircularQ α n) : q.items.length = q.size := length_itemsFrom _ _ _

theorem empty_iff (q : CircularQ α n) : q.empty ↔ q.items = [] := by
  rw [← List.length_eq_zero_iff, length_items, size, Fin.val_eq_zero_iff, sub_eq_zero, empty,
    decide_eq_true_iff]

theorem full_iff (q : CircularQ α n) : q.full ↔ q.items.length = n := by
  rw [length_items, full, decide_eq_true_iff, size]
  constructor
  · intro h
    rw [← h, sub_add_cancel_left]
    exact Fin.coe_neg_one
  · intro h
    have hlast : q.tail - q.head = Fin.last n := Fin.ext h
    rw [← sub_eq_zero, add_sub_right_comm, hlast, Fin.last_add_one]

theorem items_new [Inhabited α] : (new α n).items = [] := by
  rw [← empty_iff]
  rfl

/-- The item is added behind the others, and the first one is given up where they were `n`. -/
theorem items_pushBack (q : CircularQ α n) (x : α) :
    (q.pushBack x).items = (if q.full then (q.items ++ [x]).tail else q.items ++ [x]) ∧
      (q.pushBack x).overrunCounter = q.overrunCounter + if q.full then 1 else 0 := by
  have hall : itemsFrom (Function.update q.v q.tail x) q.head (q.size + 1) = q.items ++ [x] := by
    have hlast : (q.tail - q.head).val = q.size := rfl
    rw [itemsFrom_concat _ hlast, itemsFrom_update _ _ (Nat.le_of_eq hlast.symm), Function.update_self]
    rfl
  by_cases hfull : q.tail + 1 = q.head
  · have hsize : q.size = n := by
      rw [← length_items, ← full_iff, full, decide_eq_true_iff]
      exact hfull
    have hnew : (q.tail + 1 - (q.head + 1)).val = n := by
      rw [add_sub_add_right_eq_sub]
      exact hsize
    have hflag : q.full := decide_eq_true hfull
    have hpush : q.pushBack x =
        ⟨q.head + 1, q.tail + 1, Function.update q.v q.tail x, q.overrunCounter + 1⟩ := if_pos hfull
    rw [if_pos hflag, if_pos hflag, ← hall, hpush]
    rw [items, size, hnew, hsize, itemsFrom]
    exact ⟨rfl, rfl⟩
  · have hflag : ¬ q.full := by
      rw [full, decide_eq_true_iff]
      exact hfull
    have hne : q.tail - q.head ≠ Fin.last n := by
      intro hlast
      apply hfull
      rw [← sub_eq_zero, add_sub_right_comm, hlast, Fin.last_add_one]
    have hnew : (q.tail + 1 - q.head).val = q.size + 1 := by
      rw [add_sub_right_comm, Fin.val_add_one, if_neg hne]
      rfl
    have hpush : q.pushBack x =
        ⟨q.head, q.tail + 1, Function.update q.v q.tail x, q.overrunCounter⟩ := if_neg hfull
    rw [if_neg hflag, if_neg hflag, ← hall, hpush]
    rw [items, size, hnew]
    exact ⟨rfl, rfl⟩

/-- The oldest item is returned. -/
theorem items_popFront (q : CircularQ α n) (h : q.empty = false) :
    q.items = q.popFront.1 :: q.popFront.2.items ∧ q.popFront.2.overrunCounter = q.overrunCounter := by
  refine ⟨?_, rfl⟩
  have hne : q.size ≠ 0 := by
    intro hzero
    have hempty : q.empty := by
      rw [empty_iff, ← List.length_eq_zero_iff, length_items]
      exact hzero
    rw [h] at hempty
    cases hempty
  obtain ⟨count, hcount⟩ := Nat.exists_eq_add_one_of_ne_zero hne
  have hrest : q.popFront.2.size = count := val_sub_succ hcount
  rw [items, hcount, items, hrest]
  rfl

end CircularQ

end RedisLuaLinux.Spdlog
