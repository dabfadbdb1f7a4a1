import Mathlib.Data.List.Perm.Basic

/-!
# Queues that may overrun

The history of a first-in first-out queue: what was posted to it, what was taken from it, what was
dropped from it for lack of room, and what it holds. Only the oldest item is taken or dropped.

* `FifoHistory.push`, `FifoHistory.overrun`, `FifoHistory.take`: the operations keep the history.
* `FifoHistory.posted_eq`: without drops nothing is lost and the order is kept.
-/

namespace RedisLuaLinux.Library

variable {α : Type}

/-- Each posted item is dropped, taken or held, once; what is taken or held is in the order in which
it was posted, and so is what is dropped or held. -/
structure FifoHistory (posted dropped taken items : List α) : Prop where
  perm : posted.Perm (dropped ++ (taken ++ items))
  order : (taken ++ items).Sublist posted
  overruns : (dropped ++ items).Sublist posted

namespace FifoHistory

variable {posted dropped taken items rest : List α} {x y : α}

theorem nil : FifoHistory ([] : List α) [] [] [] := by
  constructor
  · exact List.Perm.refl []
  · exact List.Sublist.refl []
  · exact List.Sublist.refl []

theorem push (h : FifoHistory posted dropped taken items) (x : α) :
    FifoHistory (posted ++ [x]) dropped taken (items ++ [x]) := by
  refine ⟨?_, ?_, ?_⟩
  · have hperm := h.perm.append_right [x]
    rwa [List.append_assoc, List.append_assoc] at hperm
  · rw [← List.append_assoc]
    exact h.order.append_right [x]
  · rw [← List.append_assoc]
    exact h.overruns.append_right [x]

/-- The oldest item is given up. -/
theorem drop (h : FifoHistory posted dropped taken (y :: rest)) :
    FifoHistory posted (dropped ++ [y]) taken rest := by
  refine ⟨?_, ?_, ?_⟩
  · apply h.perm.trans
    rw [List.append_assoc]
    exact List.perm_middle.append_left dropped
  · apply List.Sublist.trans _ h.order
    exact (List.sublist_cons_self y rest).append_left taken
  · rw [List.append_assoc]
    exact h.overruns

/-- The item is posted, and the oldest one given up for it. -/
theorem overrun (h : FifoHistory posted dropped taken items) (hitems : items ++ [x] = y :: rest) :
    FifoHistory (posted ++ [x]) (dropped ++ [y]) taken rest := by
  have hpush := h.push x
  rw [hitems] at hpush
  exact hpush.drop

/-- The oldest item is taken. -/
theorem take (h : FifoHistory posted dropped taken (y :: rest)) :
    FifoHistory posted dropped (taken ++ [y]) rest := by
  refine ⟨?_, ?_, ?_⟩
  · rw [List.append_assoc]
    exact h.perm
  · rw [List.append_assoc]
    exact h.order
  · apply List.Sublist.trans _ h.overruns
    exact (List.sublist_cons_self y rest).append_left dropped

theorem length_eq (h : FifoHistory posted dropped taken items) :
    posted.length = dropped.length + taken.length + items.length := by
  rw [h.perm.length_eq, List.length_append, List.length_append, Nat.add_assoc]

/-- Without drops nothing is lost, and the order is kept. -/
theorem posted_eq (h : FifoHistory posted [] taken items) : posted = taken ++ items := by
  symm
  apply h.order.eq_of_length
  rw [h.length_eq, List.length_append, List.length_nil, Nat.zero_add]

end FifoHistory

end RedisLuaLinux.Library
