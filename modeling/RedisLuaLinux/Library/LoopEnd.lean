import Mathlib.Logic.Basic

/-!
# The iteration in which a loop ends

A loop with a state takes one input in each iteration; its step returns the next state, or none
where the loop is left.

* `loopEnd_eq_some_iff`: if the step leaves the loop exactly where a condition on the inputs
  holds, the loop ends in the first iteration in which it holds.
-/

namespace RedisLuaLinux.Library

variable {σ ι : Type}

/-- The iteration, counted from `k`, in which the loop is left; `none` means that it would go on
after `fuel` iterations. -/
def loopEnd (step : σ → ι → Option σ) (inputs : Nat → ι) : Nat → Nat → σ → Option Nat
  | 0, _, _ => none
  | fuel + 1, k, s =>
    match step s (inputs k) with
    | none => some k
    | some s' => loopEnd step inputs fuel (k + 1) s'

/-- The least number with a property. -/
def First (p : Nat → Prop) (n : Nat) : Prop := p n ∧ ∀ m < n, ¬ p m

theorem First.unique {p : Nat → Prop} {m n : Nat} (hm : First p m) (hn : First p n) : m = n := by
  rcases Nat.lt_trichotomy m n with hlt | heq | hlt
  · exact absurd hm.1 (hn.2 m hlt)
  · exact heq
  · exact absurd hn.1 (hm.2 n hlt)

variable {step : σ → ι → Option σ} {inputs : Nat → ι} {Inv : Nat → σ → Prop} {Ends : Nat → Prop}

theorem loopEnd_iff_from (hends : ∀ k s, Inv k s → (step s (inputs k) = none ↔ Ends k))
    (hstep : ∀ k s s', Inv k s → step s (inputs k) = some s' → Inv (k + 1) s') (fuel n : Nat) :
    ∀ k s, Inv k s → (loopEnd step inputs fuel k s = some n ↔
      k ≤ n ∧ n < k + fuel ∧ Ends n ∧ ∀ m < n, k ≤ m → ¬ Ends m) := by
  induction fuel with
  | zero =>
    intro k s _
    refine iff_of_false nofun ?_
    omega
  | succ fuel ih =>
    intro k s hinv
    rw [loopEnd]
    split
    · rename_i hleft
      have hk := (hends k s hinv).mp hleft
      constructor
      · intro h
        obtain rfl : k = n := Option.some.inj h
        exact ⟨Nat.le_refl k, by omega, hk, fun m hm hle => absurd hm (by omega)⟩
      · rintro ⟨hle, -, -, hfirst⟩
        rcases Nat.eq_or_lt_of_le hle with rfl | hlt
        · rfl
        · exact absurd hk (hfirst k hlt (Nat.le_refl k))
    · rename_i s' hnext
      have hk : ¬ Ends k := fun h => by
        rw [(hends k s hinv).mpr h] at hnext
        cases hnext
      rw [ih (k + 1) s' (hstep k s s' hinv hnext)]
      constructor
      · rintro ⟨hle, hlt, hn, hfirst⟩
        refine ⟨by omega, by omega, hn, fun m hm hkm => ?_⟩
        rcases Nat.eq_or_lt_of_le hkm with rfl | hlt'
        · exact hk
        · exact hfirst m hm hlt'
      · rintro ⟨hle, hlt, hn, hfirst⟩
        have hne : k ≠ n := fun h => hk (h ▸ hn)
        exact ⟨by omega, by omega, hn, fun m hm hkm => hfirst m hm (by omega)⟩

/-- `Inv` is kept by the steps, and under it a step leaves the loop exactly where `Ends` holds. -/
theorem loopEnd_eq_some_iff {s : σ} (hstart : Inv 0 s)
    (hends : ∀ k s, Inv k s → (step s (inputs k) = none ↔ Ends k))
    (hstep : ∀ k s s', Inv k s → step s (inputs k) = some s' → Inv (k + 1) s') (fuel n : Nat) :
    loopEnd step inputs fuel 0 s = some n ↔ n < fuel ∧ First Ends n := by
  rw [loopEnd_iff_from hends hstep fuel n 0 s hstart]
  constructor
  · rintro ⟨-, hlt, hn, hfirst⟩
    exact ⟨by omega, hn, fun m hm => hfirst m hm (Nat.zero_le m)⟩
  · rintro ⟨hlt, hn, hfirst⟩
    exact ⟨Nat.zero_le n, by omega, hn, fun m hm _ => hfirst m hm⟩

end RedisLuaLinux.Library
