import Mathlib.Data.List.Basic
import Mathlib.Data.List.Chain

/-!
# Repeats

A list is collapsed: items that repeat the last one are left out, and their number is put before the next item.
When an item repeats another is left open.

* `expand_collapse`: of a key that repeats share, nothing is lost.
* `isChain_items`: what is left does not repeat the item before.
-/

namespace RedisLuaLinux.Library

variable {α β : Type}

inductive Entry (α : Type)
  | item (a : α)
  | again (n : Nat)

namespace Entry

def map (f : α → β) : Entry α → Entry β
  | item a => item (f a)
  | again n => again n

def item? : Entry α → Option α
  | item a => some a
  | again _ => none

/-- The list that entries stand for, after an item. -/
def expand : α → List (Entry α) → List α
  | _, [] => []
  | _, item a :: es => a :: expand a es
  | last, again n :: es => List.replicate n last ++ expand last es

end Entry

section Collapse

variable (repeats : α → α → Bool)

/-- The number of the repeats, where there were any. -/
def againEntry (n : Nat) : List (Entry α) := if 0 < n then [.again n] else []

/-- Collapse a list, after an item that was repeated some times. -/
def collapse : α → Nat → List α → List (Entry α)
  | _, _, [] => []
  | last, n, a :: as =>
    if repeats last a then collapse last (n + 1) as
    else againEntry n ++ .item a :: collapse a 0 as

/-- The last item, and how often it was repeated since. -/
def pending : α → Nat → List α → α × Nat
  | last, n, [] => (last, n)
  | last, n, a :: as => if repeats last a then pending last (n + 1) as else pending a 0 as

variable {repeats}

theorem expand_againEntry (last : β) (n : Nat) (es : List (Entry β)) :
    Entry.expand last (againEntry n ++ es) = List.replicate n last ++ Entry.expand last es := by
  unfold againEntry
  split
  · rfl
  · have hzero : n = 0 := by omega
    rw [hzero]
    rfl

theorem map_againEntry (key : α → β) (n : Nat) :
    (againEntry n).map (Entry.map key) = againEntry n := by
  unfold againEntry
  split <;> rfl

theorem expand_collapse {key : α → β} (hkey : ∀ a b, repeats a b → key b = key a) (last : α) (n : Nat)
    (as : List α) :
    Entry.expand (key last) ((collapse repeats last n as).map (Entry.map key)) ++
        List.replicate (pending repeats last n as).2 (key (pending repeats last n as).1) =
      List.replicate n (key last) ++ as.map key := by
  induction as generalizing last n with
  | nil => exact (List.append_nil _).symm
  | cons a as ih =>
    rw [collapse, pending]
    by_cases hrepeats : repeats last a
    · rw [if_pos hrepeats, if_pos hrepeats, ih, List.map_cons, hkey last a hrepeats, List.replicate_succ',
        List.append_assoc]
      rfl
    · rw [if_neg hrepeats, if_neg hrepeats, List.map_append, map_againEntry, expand_againEntry, List.append_assoc]
      apply congrArg (List.replicate n (key last) ++ ·)
      exact congrArg (key a :: ·) (ih a 0)

theorem filterMap_againEntry (n : Nat) : (againEntry n).filterMap (Entry.item? (α := α)) = [] := by
  unfold againEntry
  split <;> rfl

theorem isChain_items (last : α) (n : Nat) (as : List α) :
    List.IsChain (fun a b => repeats a b = false) (last :: (collapse repeats last n as).filterMap Entry.item?) := by
  induction as generalizing last n with
  | nil => exact List.isChain_singleton last
  | cons a as ih =>
    rw [collapse]
    by_cases hrepeats : repeats last a
    · rw [if_pos hrepeats]
      exact ih last (n + 1)
    · rw [if_neg hrepeats, List.filterMap_append, filterMap_againEntry, List.nil_append]
      exact List.isChain_cons_cons.mpr ⟨Bool.eq_false_iff.mpr hrepeats, ih a 0⟩

end Collapse

end RedisLuaLinux.Library
