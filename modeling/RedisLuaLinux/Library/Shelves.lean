import Mathlib.Data.List.Forall2
import Mathlib.Logic.Function.Basic

/-!
# Numbered shelves

Blocks of records on the shelves `0, 1, 2, …`, the newest on shelf 0: `joined c n` reads the shelves
below `n` from the oldest record to the newest. A rotation moves blocks to the next higher shelf and
writes over what stood there.

* `joined_move`: a move loses the block it writes over, and changes no order.
* `joined_push`: a record put on shelf 0 is the newest of all.
* `Kept`: what is stored comes from the records of a history, in their order, each whole or cut short.
-/

namespace RedisLuaLinux.Library

variable {α : Type}

/-- The shelves below a number, from the highest to the lowest. -/
def joined (c : Nat → List α) : Nat → List α
  | 0 => []
  | n + 1 => c n ++ joined c n

variable {c d : Nat → List α} {i n : Nat}

theorem joined_congr (h : ∀ j, j < n → c j = d j) : joined c n = joined d n := by
  induction n with
  | zero => rfl
  | succ n ih =>
    have hrest := ih fun j hj => h j (by omega)
    unfold joined
    rw [h n (by omega), hrest]

theorem joined_sublist (h : ∀ j, j < n → (c j).Sublist (d j)) : (joined c n).Sublist (joined d n) := by
  induction n with
  | zero => exact List.Sublist.refl _
  | succ n ih =>
    have hrest := ih fun j hj => h j (by omega)
    exact (h n (by omega)).append hrest

theorem sublist_joined (h : i < n) : (c i).Sublist (joined c n) := by
  induction n with
  | zero => omega
  | succ n ih =>
    unfold joined
    by_cases heq : i = n
    · subst heq
      exact List.sublist_append_left _ _
    · exact (ih (by omega)).trans (List.sublist_append_right _ _)

/-- The block of shelf `i` goes to the next shelf, and shelf `i` is left empty. -/
structure Moved (c d : Nat → List α) (i : Nat) : Prop where
  source : d i = []
  target : d (i + 1) = c i
  others : ∀ j, j ≠ i → j ≠ i + 1 → d j = c j

namespace Moved

theorem joined_low (h : Moved c d i) : joined d i = joined c i :=
  joined_congr fun j hj => h.others j (by omega) (by omega)

/-- The top shelf is written over. -/
theorem joined_top (h : Moved c d i) : joined c (i + 2) = c (i + 1) ++ joined d (i + 2) := by
  unfold joined
  unfold joined
  rw [h.source, h.target, h.joined_low]
  rfl

theorem joined_move (h : Moved c d i) (hn : i + 2 ≤ n) :
    ∃ older newer, joined c n = older ++ c (i + 1) ++ newer ∧ joined d n = older ++ newer := by
  induction hn with
  | refl => exact ⟨[], joined d (i + 2), h.joined_top, rfl⟩
  | @step n hle ih =>
    have hn : i + 2 ≤ n := hle
    obtain ⟨older, newer, hbefore, hafter⟩ := ih
    have hsame : d n = c n := h.others n (by omega) (by omega)
    refine ⟨c n ++ older, newer, ?_, ?_⟩
    · unfold joined
      rw [hbefore, List.append_assoc, List.append_assoc, List.append_assoc]
    · unfold joined
      rw [hafter, hsame, List.append_assoc]

theorem sublist (h : Moved c d i) (hn : i + 2 ≤ n) : (joined d n).Sublist (joined c n) := by
  obtain ⟨older, newer, hbefore, hafter⟩ := h.joined_move hn
  rw [hbefore, hafter]
  exact (List.sublist_append_left older _).append (List.Sublist.refl newer)

/-- A move onto an empty shelf loses nothing. -/
theorem eq_of_empty (h : Moved c d i) (hn : i + 2 ≤ n) (hempty : c (i + 1) = []) :
    joined d n = joined c n := by
  obtain ⟨older, newer, hbefore, hafter⟩ := h.joined_move hn
  rw [hbefore, hafter, hempty, List.append_nil]

end Moved

theorem joined_push {x : List α} (hzero : d 0 = c 0 ++ x) (hothers : ∀ j, j ≠ 0 → d j = c j) :
    joined d (n + 1) = joined c (n + 1) ++ x := by
  induction n with
  | zero =>
    unfold joined
    unfold joined
    rw [hzero, List.append_nil, List.append_nil]
  | succ n ih =>
    have htop : joined d (n + 1 + 1) = d (n + 1) ++ joined d (n + 1) := rfl
    rw [htop, ih, hothers (n + 1) (by omega), ← List.append_assoc]
    rfl

/-- The stored records come from those of a history, in their order, each whole or cut short. -/
def Kept (stored all : List (List α)) : Prop := List.SublistForall₂ (· <+: ·) stored all

namespace Kept

variable {stored stored' all more : List (List α)}

theorem refl (all : List (List α)) : Kept all all :=
  List.sublistForall₂_iff.mpr ⟨all, List.forall₂_same.mpr fun x _ => List.prefix_refl x, List.Sublist.refl _⟩

theorem of_sublist (h : Kept stored all) (hsub : stored'.Sublist stored) : Kept stored' all := by
  have htrans : IsTrans (List α) (· <+: ·) := ⟨fun _ _ _ => List.IsPrefix.trans⟩
  have hrefl : Std.Refl (α := List α) (· <+: ·) := ⟨List.prefix_refl⟩
  exact List.SublistForall₂.is_trans.trans _ _ _ hsub.sublistForall₂ h

theorem append (h : Kept stored all) (h' : Kept stored' more) : Kept (stored ++ stored') (all ++ more) := by
  obtain ⟨kept, hparts, hsub⟩ := List.sublistForall₂_iff.mp h
  obtain ⟨kept', hparts', hsub'⟩ := List.sublistForall₂_iff.mp h'
  exact List.sublistForall₂_iff.mpr ⟨kept ++ kept', List.rel_append hparts hparts', hsub.append hsub'⟩

/-- Records that were not stored. -/
theorem skip (h : Kept stored all) (more : List (List α)) : Kept stored (all ++ more) := by
  obtain ⟨kept, hparts, hsub⟩ := List.sublistForall₂_iff.mp h
  exact List.sublistForall₂_iff.mpr ⟨kept, hparts, hsub.trans (List.sublist_append_left _ _)⟩

theorem length_flatten_le (h : Kept stored all) : stored.flatten.length ≤ all.flatten.length := by
  induction h with
  | nil => exact Nat.zero_le _
  | cons hprefix _ ih =>
    have hpart := hprefix.length_le
    simp only [List.flatten_cons, List.length_append]
    omega
  | cons_right _ ih =>
    simp only [List.flatten_cons, List.length_append]
    omega

end Kept

end RedisLuaLinux.Library
