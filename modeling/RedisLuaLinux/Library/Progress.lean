import Mathlib.Algebra.Ring.Nat
import Mathlib.Data.List.Perm.Basic
import RedisLuaLinux.Library.Run

/-!
# Measures and events of runs

* `sum_map_set`, `countP_set`: measures of a list of parties of which one takes a step.
* `Run.length_le`: where every step takes away from a measure, a run is no longer than it.
* `Run.forall_events`: what the condition on the steps says of the events alone holds of all events.
-/

namespace RedisLuaLinux.Library

section Parties

variable {α : Type} {items : List α} {i : Nat} {item : α}

theorem perm_eraseIdx (h : items[i]? = some item) : items.Perm (item :: items.eraseIdx i) := by
  obtain ⟨hi, rfl⟩ := List.getElem?_eq_some_iff.mp h
  exact (List.getElem_cons_eraseIdx_perm hi).symm

/-- One item is replaced. -/
theorem exists_replaced (h : items[i]? = some item) :
    ∃ others, items.Perm (item :: others) ∧ ∀ item', (items.set i item').Perm (item' :: others) := by
  refine ⟨items.eraseIdx i, perm_eraseIdx h, ?_⟩
  obtain ⟨hi, -⟩ := List.getElem?_eq_some_iff.mp h
  intro item'
  exact List.set_perm_cons_eraseIdx hi item'

theorem countP_set (f : α → Bool) (h : items[i]? = some item) (item' : α) :
    (items.set i item').countP f + [item].countP f = items.countP f + [item'].countP f := by
  obtain ⟨others, hold, hnew⟩ := exists_replaced h
  rw [hold.countP_eq, (hnew item').countP_eq]
  simp only [List.countP_cons, List.countP_nil]
  omega

theorem sum_map_set (f : α → Nat) (h : items[i]? = some item) (item' : α) :
    ((items.set i item').map f).sum + f item = (items.map f).sum + f item' := by
  obtain ⟨others, hold, hnew⟩ := exists_replaced h
  rw [(hold.map f).sum_nat, ((hnew item').map f).sum_nat]
  simp only [List.map_cons, List.sum_cons]
  omega

end Parties

namespace Run

variable {σ ε : Type} {step : σ → ε → Option σ} {Admits : σ → ε → Prop} {start s : σ} {es : List ε}
  {I : σ → Prop} {m : σ → Nat}

theorem length_le (hstep : ∀ s e s', I s → Admits s e → step s e = some s' → I s' ∧ m s' < m s)
    (hstart : I start) (h : Run step Admits start es s) : es.length + m s ≤ m start ∧ I s := by
  induction h with
  | nil => exact ⟨Nat.le_of_eq (Nat.zero_add _), hstart⟩
  | snoc _ ha hs ih =>
    obtain ⟨hlength, hmid⟩ := ih
    obtain ⟨hlast, hless⟩ := hstep _ _ _ hmid ha hs
    refine ⟨?_, hlast⟩
    rw [List.length_append, List.length_singleton]
    omega

theorem anyStep (h : Run step Admits start es s) : Run step AnyStep start es s :=
  h.strengthen (I := fun _ => True) trivial (fun _ _ _ _ _ _ => trivial) (fun _ _ _ _ => trivial)

theorem forall_events {P : ε → Prop} (hP : ∀ s e, Admits s e → P e) (h : Run step Admits start es s) :
    ∀ e ∈ es, P e := by
  induction h with
  | nil =>
    intro e he
    cases he
  | @snoc es s s' e _ hadmits _ ih =>
    intro e' he'
    rcases List.mem_append.mp he' with hold | hnew
    · exact ih e' hold
    · rw [List.mem_singleton.mp hnew]
      exact hP s e hadmits

end Run

end RedisLuaLinux.Library
