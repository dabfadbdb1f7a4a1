import Mathlib.Logic.Function.Basic
import Mathlib.Data.List.Basic

/-!
# Loops and exceptions

A loop acts on one item after the other, and an action may raise an exception, which is reported.
Where the `try` is inside of the loop the next item follows (`tryEach`), where it is around the loop
the rest of the items is left out (`tryAll`), and without a `try` the exception leaves the loop (`forEach`).

* `tryAll_eq_tryEach`, `forEach_eq_tryEach`: they agree where nothing is raised.
* `tryEach_at`, `tryAll_at`: what becomes of one item, where each action concerns its own item.
-/

namespace RedisLuaLinux.Library

variable {α σ ε : Type} {act : α → σ → σ × Option ε} {report : ε → σ → σ}

def tryEach (act : α → σ → σ × Option ε) (report : ε → σ → σ) : List α → σ → σ
  | [], s => s
  | x :: xs, s =>
    match act x s with
    | (s, none) => tryEach act report xs s
    | (s, some err) => tryEach act report xs (report err s)

def tryAll (act : α → σ → σ × Option ε) (report : ε → σ → σ) : List α → σ → σ
  | [], s => s
  | x :: xs, s =>
    match act x s with
    | (s, none) => tryAll act report xs s
    | (s, some err) => report err s

def forEach (act : α → σ → σ × Option ε) : List α → σ → σ × Option ε
  | [], s => (s, none)
  | x :: xs, s =>
    match act x s with
    | (s, none) => forEach act xs s
    | (s, some err) => (s, some err)

theorem tryAll_eq_tryEach (hcalm : ∀ x s, (act x s).2 = none) (xs : List α) (s : σ) :
    tryAll act report xs s = tryEach act report xs s := by
  induction xs generalizing s with
  | nil => rfl
  | cons x xs ih =>
    rw [tryAll, tryEach]
    have hx := hcalm x s
    rcases hact : act x s with ⟨s', err⟩
    rw [hact] at hx
    dsimp only at hx
    subst hx
    exact ih s'

theorem forEach_eq_tryEach (hcalm : ∀ x s, (act x s).2 = none) (report : ε → σ → σ) (xs : List α) (s : σ) :
    forEach act xs s = (tryEach act report xs s, none) := by
  induction xs generalizing s with
  | nil => rfl
  | cons x xs ih =>
    rw [forEach, tryEach]
    have hx := hcalm x s
    rcases hact : act x s with ⟨s', err⟩
    rw [hact] at hx
    dsimp only at hx
    subst hx
    exact ih s'

/-! ## One of the items -/

section Own

variable {ι δ : Type} {at_ : ι → σ → δ} {own : ι → δ → δ × Option ε}

/-- Each action changes what belongs to its item, and depends on nothing else. -/
structure OwnAction (act : ι → σ → σ × Option ε) (report : ε → σ → σ) (at_ : ι → σ → δ)
    (own : ι → δ → δ × Option ε) : Prop where
  self : ∀ i s, at_ i (act i s).1 = (own i (at_ i s)).1
  other : ∀ i j s, j ≠ i → at_ j (act i s).1 = at_ j s
  raises : ∀ i s, (act i s).2 = (own i (at_ i s)).2
  report : ∀ err i s, at_ i (report err s) = at_ i s

variable {act : ι → σ → σ × Option ε}

theorem tryEach_at_of_notMem (h : OwnAction act report at_ own) {i : ι} {xs : List ι} (hi : i ∉ xs) (s : σ) :
    at_ i (tryEach act report xs s) = at_ i s := by
  induction xs generalizing s with
  | nil => rfl
  | cons x xs ih =>
    rw [List.mem_cons, not_or] at hi
    have hx := h.other x i s hi.1
    rw [tryEach]
    split
    · rename_i s' hact
      rw [ih hi.2, ← hx, hact]
    · rename_i s' err hact
      rw [ih hi.2, h.report, ← hx, hact]

/-- Every item has its action. -/
theorem tryEach_at (h : OwnAction act report at_ own) {i : ι} {xs : List ι} (hi : i ∈ xs) (hnodup : xs.Nodup)
    (s : σ) : at_ i (tryEach act report xs s) = (own i (at_ i s)).1 := by
  induction xs generalizing s with
  | nil => cases hi
  | cons x xs ih =>
    obtain ⟨hx, hxs⟩ := List.nodup_cons.mp hnodup
    rw [tryEach]
    rcases List.mem_cons.mp hi with rfl | hmem
    · have hself := h.self i s
      split
      · rename_i s' hact
        rw [tryEach_at_of_notMem h hx, ← hself, hact]
      · rename_i s' err hact
        rw [tryEach_at_of_notMem h hx, h.report, ← hself, hact]
    · have hne : i ≠ x := fun heq => hx (heq ▸ hmem)
      have hother := h.other x i s hne
      split
      · rename_i s' hact
        rw [hact] at hother
        rw [ih hmem hxs, hother]
      · rename_i s' err hact
        rw [hact] at hother
        rw [ih hmem hxs, h.report, hother]

theorem tryAll_at_of_notMem (h : OwnAction act report at_ own) {i : ι} {xs : List ι} (hi : i ∉ xs) (s : σ) :
    at_ i (tryAll act report xs s) = at_ i s := by
  induction xs generalizing s with
  | nil => rfl
  | cons x xs ih =>
    rw [List.mem_cons, not_or] at hi
    have hx := h.other x i s hi.1
    rw [tryAll]
    split
    · rename_i s' hact
      rw [ih hi.2, ← hx, hact]
    · rename_i s' err hact
      rw [h.report, ← hx, hact]

theorem tryAll_append (h : OwnAction act report at_ own) {i : ι} {front back : List ι}
    (hnodup : (front ++ i :: back).Nodup) (s : σ) :
    ((∀ j ∈ front, (own j (at_ j s)).2 = none) →
      at_ i (tryAll act report (front ++ i :: back) s) = (own i (at_ i s)).1) ∧
    ((∃ j ∈ front, (own j (at_ j s)).2 ≠ none) →
      at_ i (tryAll act report (front ++ i :: back) s) = at_ i s) := by
  induction front generalizing s with
  | nil =>
    rw [List.nil_append] at hnodup ⊢
    obtain ⟨hi, -⟩ := List.nodup_cons.mp hnodup
    have hself := h.self i s
    constructor
    · intro _
      rw [tryAll]
      split
      · rename_i s' hact
        rw [tryAll_at_of_notMem h hi, ← hself, hact]
      · rename_i s' err hact
        rw [h.report, ← hself, hact]
    · intro hnone
      obtain ⟨j, hj, -⟩ := hnone
      cases hj
  | cons x front ih =>
    rw [List.cons_append] at hnodup ⊢
    obtain ⟨hx, hrest⟩ := List.nodup_cons.mp hnodup
    have hne : i ≠ x := by
      rintro rfl
      exact hx (List.mem_append_right front List.mem_cons_self)
    have hother := h.other x i s hne
    have hraises := h.raises x s
    -- the items behind `x` are as they were
    have hkept (j : ι) (hj : j ∈ front) : at_ j (act x s).1 = at_ j s := by
      apply h.other
      rintro rfl
      exact hx (List.mem_append_left (i :: back) hj)
    rw [tryAll]
    split
    · rename_i s' hact
      rw [hact] at hother hraises hkept
      obtain ⟨hcalm, hraised⟩ := ih hrest s'
      rw [hother] at hcalm hraised
      constructor
      · intro hall
        apply hcalm
        intro j hj
        rw [hkept j hj]
        exact hall j (List.mem_cons_of_mem x hj)
      · intro hsome
        apply hraised
        obtain ⟨j, hj, hthrows⟩ := hsome
        rcases List.mem_cons.mp hj with rfl | hj
        · exact absurd hraises.symm hthrows
        · exact ⟨j, hj, by rw [hkept j hj]; exact hthrows⟩
    · rename_i s' err hact
      rw [hact] at hother hraises
      constructor
      · intro hall
        rw [hall x List.mem_cons_self] at hraises
        cases hraises
      · intro _
        rw [h.report, hother]

/-- The items before one of them. -/
def before [DecidableEq ι] (i : ι) (xs : List ι) : List ι := xs.takeWhile (· ≠ i)

theorem exists_eq_before [DecidableEq ι] {i : ι} {xs : List ι} (h : i ∈ xs) :
    ∃ back, xs = before i xs ++ i :: back := by
  obtain ⟨front, back, rfl, hfront⟩ := List.eq_append_cons_of_mem h
  refine ⟨back, ?_⟩
  have hall (j : ι) (hj : j ∈ front) : decide (j ≠ i) = true := by
    apply decide_eq_true
    rintro rfl
    exact hfront hj
  rw [before, List.takeWhile_append_of_pos hall, List.takeWhile_cons_of_neg (by simp), List.append_nil]

/-- An item has its action unless one of the items before it raises an exception. -/
theorem tryAll_at [DecidableEq ι] (h : OwnAction act report at_ own) {i : ι} {xs : List ι} (hi : i ∈ xs)
    (hnodup : xs.Nodup) (s : σ) :
    ((∀ j ∈ before i xs, (own j (at_ j s)).2 = none) → at_ i (tryAll act report xs s) = (own i (at_ i s)).1) ∧
    ((∃ j ∈ before i xs, (own j (at_ j s)).2 ≠ none) → at_ i (tryAll act report xs s) = at_ i s) := by
  obtain ⟨back, hxs⟩ := exists_eq_before hi
  rw [hxs] at hnodup
  have hat := tryAll_append h hnodup s
  rw [← hxs] at hat
  exact hat

end Own

end RedisLuaLinux.Library
