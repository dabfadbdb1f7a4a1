import Mathlib.Data.List.Basic

/-!
# The two-pointer search

`find_number` of `Test/main.c`, over arrays of any length. `plus` is the addition of two
elements, so that the loop can be read with exact sums and with those of a machine.

* `findLoop_ends`: the loop ends in time, inside the array, and what it reports is a pair with
  the wanted sum, whatever `plus` is.
* `Window`: no pair with the wanted sum has been passed by; both moves keep this on a
  nondecreasing array with exact sums.
-/

namespace RedisLuaLinux.LinuxC

/-- How the loop ends: at the `break`, with the two indices there; with `i` and `j` met; or by
reading outside the array. -/
inductive SearchEnd
  | found (i j : Int)
  | notFound
  | badIndex
  deriving DecidableEq, Repr

/-- `a[i]`, where the index is inside the array. -/
def elementAt (a : List Int) (i : Int) : Option Int :=
  if 0 ≤ i then a[i.toNat]? else none

/-- The loop of `find_number` with at most `fuel` iterations; `none` means that it would go on. -/
def findLoop (plus : Int → Int → Int) (a : List Int) (target : Int) :
    Nat → Int → Int → Option SearchEnd
  | 0, i, j => if i < j then none else some .notFound
  | fuel + 1, i, j =>
    if i < j then
      match elementAt a i, elementAt a j with
      | some x, some y =>
        let sum := plus x y
        if sum = target then some (.found i j)
        else if sum > target then findLoop plus a target fuel i (j - 1)
        else if sum < target then findLoop plus a target fuel (i + 1) j
        else findLoop plus a target fuel i j
      | _, _ => some .badIndex
    else some .notFound

def findNumber (plus : Int → Int → Int) (a : List Int) (target : Int) (fuel : Nat) : Option SearchEnd :=
  findLoop plus a target fuel 0 (a.length - 1)

abbrev exactSum (x y : Int) : Int := x + y

/-- The elements at `p` and `q`, with `p < q`, have the sum `target`. -/
def Pair (plus : Int → Int → Int) (a : List Int) (target p q : Int) : Prop :=
  p < q ∧ ∃ x y, elementAt a p = some x ∧ elementAt a q = some y ∧ plus x y = target

variable {plus : Int → Int → Int} {a : List Int} {target i j : Int} {fuel : Nat}

theorem elementAt_eq {x : Int} (h : elementAt a i = some x) :
    0 ≤ i ∧ ∃ hi : i.toNat < a.length, a[i.toNat] = x := by
  unfold elementAt at h
  split at h
  · rename_i hpos
    exact ⟨hpos, List.getElem?_eq_some_iff.mp h⟩
  · cases h

theorem elementAt_inside (hpos : 0 ≤ i) (hlt : i < a.length) : ∃ x, elementAt a i = some x := by
  have hi : i.toNat < a.length := by omega
  exact ⟨a[i.toNat], by rw [elementAt, if_pos hpos, List.getElem?_eq_getElem hi]⟩

theorem elementAt_mono (hsorted : a.Pairwise (· ≤ ·)) {p q x y : Int} (hx : elementAt a p = some x)
    (hy : elementAt a q = some y) (hle : p ≤ q) : x ≤ y := by
  obtain ⟨hp, hp', rfl⟩ := elementAt_eq hx
  obtain ⟨hq, hq', rfl⟩ := elementAt_eq hy
  rcases Nat.eq_or_lt_of_le (Int.toNat_le_toNat hle) with heq | hlt
  · simp only [heq, Int.le_refl]
  · exact List.pairwise_iff_getElem.mp hsorted _ _ hp' hq' hlt

/-- What one iteration does, for indices inside the array. -/
theorem findLoop_cases (plus : Int → Int → Int) (target : Int) (fuel : Nat) (hi : 0 ≤ i)
    (hj : j < a.length) (hlt : i < j) :
    ∃ x y, elementAt a i = some x ∧ elementAt a j = some y ∧
      (plus x y = target ∧ findLoop plus a target (fuel + 1) i j = some (.found i j) ∨
        target < plus x y ∧
          findLoop plus a target (fuel + 1) i j = findLoop plus a target fuel i (j - 1) ∨
        plus x y < target ∧
          findLoop plus a target (fuel + 1) i j = findLoop plus a target fuel (i + 1) j) := by
  obtain ⟨x, hx⟩ := elementAt_inside hi (by omega : i < a.length)
  obtain ⟨y, hy⟩ := elementAt_inside (by omega : 0 ≤ j) hj
  refine ⟨x, y, hx, hy, ?_⟩
  simp only [findLoop, if_pos hlt, hx, hy]
  rcases Int.lt_trichotomy (plus x y) target with hless | heq | hmore
  · right
    right
    refine ⟨hless, ?_⟩
    rw [if_neg (by omega), if_neg (by omega), if_pos hless]
  · exact Or.inl ⟨heq, if_pos heq⟩
  · right
    left
    refine ⟨hmore, ?_⟩
    rw [if_neg (by omega), if_pos hmore]

/-- The indices stay inside the array and come one step closer in each iteration. -/
theorem findLoop_ends (plus : Int → Int → Int) (target : Int) (hi : 0 ≤ i) (hj : j < a.length)
    (hfuel : j ≤ i + fuel) :
    ∃ e, findLoop plus a target fuel i j = some e ∧ e ≠ .badIndex ∧
      ∀ p q, e = .found p q → Pair plus a target p q := by
  induction fuel generalizing i j with
  | zero =>
    refine ⟨.notFound, ?_, nofun, nofun⟩
    rw [findLoop, if_neg (by omega)]
  | succ fuel ih =>
    by_cases hlt : i < j
    · obtain ⟨x, y, hx, hy, ⟨heq, hstep⟩ | ⟨-, hstep⟩ | ⟨-, hstep⟩⟩ :=
        findLoop_cases plus target fuel hi hj hlt
      · refine ⟨.found i j, hstep, nofun, ?_⟩
        intro p q hfound
        cases hfound
        exact ⟨hlt, x, y, hx, hy, heq⟩
      · rw [hstep]
        apply ih hi <;> omega
      · rw [hstep]
        apply ih <;> omega
    · refine ⟨.notFound, ?_, nofun, nofun⟩
      rw [findLoop, if_neg hlt]

/-! ## Nondecreasing arrays -/

/-- No pair with the wanted sum lies outside of `i` and `j`. -/
def Window (a : List Int) (target i j : Int) : Prop :=
  ∀ p q, Pair exactSum a target p q → i ≤ p ∧ q ≤ j

theorem window_start (a : List Int) (target : Int) : Window a target 0 (a.length - 1) := by
  rintro p q ⟨-, x, y, hx, hy, -⟩
  obtain ⟨hp, -⟩ := elementAt_eq hx
  obtain ⟨hq, hq', -⟩ := elementAt_eq hy
  omega

/-- A sum that is too large: each pair with the right end has a larger one. -/
theorem Window.left (h : Window a target i j) (hsorted : a.Pairwise (· ≤ ·)) {x y : Int}
    (hx : elementAt a i = some x) (hy : elementAt a j = some y) (hmore : target < x + y) :
    Window a target i (j - 1) := by
  intro p q hpair
  obtain ⟨hip, hqj⟩ := h p q hpair
  obtain ⟨hpq, x', y', hx', hy', hsum⟩ := hpair
  rw [exactSum] at hsum
  refine ⟨hip, ?_⟩
  by_contra hright
  obtain rfl : q = j := by omega
  obtain rfl : y' = y := Option.some.inj (hy'.symm.trans hy)
  have hle : x ≤ x' := elementAt_mono hsorted hx hx' hip
  omega

theorem Window.right (h : Window a target i j) (hsorted : a.Pairwise (· ≤ ·)) {x y : Int}
    (hx : elementAt a i = some x) (hy : elementAt a j = some y) (hless : x + y < target) :
    Window a target (i + 1) j := by
  intro p q hpair
  obtain ⟨hip, hqj⟩ := h p q hpair
  obtain ⟨hpq, x', y', hx', hy', hsum⟩ := hpair
  rw [exactSum] at hsum
  refine ⟨?_, hqj⟩
  by_contra hleft
  obtain rfl : p = i := by omega
  obtain rfl : x' = x := Option.some.inj (hx'.symm.trans hx)
  have hle : y' ≤ y := elementAt_mono hsorted hy' hy hqj
  omega

/-- A window of one element, or none, holds no pair. -/
theorem Window.met (h : Window a target i j) (hge : ¬ i < j) (p q : Int) :
    ¬ Pair exactSum a target p q := by
  intro hpair
  obtain ⟨hip, hqj⟩ := h p q hpair
  have hpq := hpair.1
  omega

/-- The window holds wherever the loop ends. -/
theorem findLoop_window (hsorted : a.Pairwise (· ≤ ·)) (hi : 0 ≤ i) (hj : j < a.length)
    (hwindow : Window a target i j) {e : SearchEnd}
    (h : findLoop exactSum a target fuel i j = some e) :
    (∀ p q, e = .found p q → Window a target p q) ∧
      (e = .notFound → ∀ p q, ¬ Pair exactSum a target p q) := by
  induction fuel generalizing i j with
  | zero =>
    unfold findLoop at h
    split at h
    · cases h
    · rename_i hge
      cases h
      exact ⟨nofun, fun _ => hwindow.met hge⟩
  | succ fuel ih =>
    by_cases hlt : i < j
    · obtain ⟨x, y, hx, hy, ⟨-, hstep⟩ | ⟨hmore, hstep⟩ | ⟨hless, hstep⟩⟩ :=
        findLoop_cases exactSum target fuel hi hj hlt
      · rw [hstep] at h
        cases h
        refine ⟨?_, nofun⟩
        intro p q hfound
        cases hfound
        exact hwindow
      · rw [hstep] at h
        exact ih hi (by omega) (hwindow.left hsorted hx hy hmore) h
      · rw [hstep] at h
        exact ih (by omega) hj (hwindow.right hsorted hx hy hless) h
    · rw [findLoop, if_neg hlt] at h
      cases h
      exact ⟨nofun, fun _ => hwindow.met hlt⟩

/-- `length - 1` iterations are enough, all reads are inside the array, and a reported pair has
the sum `target`. In a nondecreasing array a pair is reported if and only if there is one, and it
is the outermost one. -/
theorem find_number_correct (a : List Int) (target : Int) :
    ∃ e, findNumber exactSum a target (a.length - 1) = some e ∧ e ≠ .badIndex ∧
      (∀ i j, e = .found i j → Pair exactSum a target i j) ∧
      (a.Pairwise (· ≤ ·) →
        ((∃ i j, e = .found i j) ↔ ∃ p q, Pair exactSum a target p q) ∧
        ∀ i j, e = .found i j → ∀ p q, Pair exactSum a target p q → i ≤ p ∧ q ≤ j) := by
  have hlast : (a.length : Int) - 1 < a.length := by omega
  have hfuel : (a.length : Int) - 1 ≤ 0 + (a.length - 1 : Nat) := by omega
  obtain ⟨e, hend, hinside, hpair⟩ := findLoop_ends exactSum target (Int.le_refl 0) hlast hfuel
  refine ⟨e, hend, hinside, hpair, ?_⟩
  intro hsorted
  obtain ⟨hfound, hnone⟩ := findLoop_window hsorted (Int.le_refl 0) hlast (window_start a target) hend
  refine ⟨⟨?_, ?_⟩, hfound⟩
  · rintro ⟨i, j, he⟩
    exact ⟨i, j, hpair i j he⟩
  · rintro ⟨p, q, hpq⟩
    cases e with
    | found i j => exact ⟨i, j, rfl⟩
    | notFound => exact absurd hpq (hnone rfl p q)
    | badIndex => exact absurd rfl hinside

/-- `array` of the program. -/
def programArray : List Int := [1, 2, 3, 5, 9, 12, 15]

/-- The elements 3 and 9 are the outermost ones with the sum 12. -/
theorem find_number_correct_example :
    findNumber exactSum programArray 12 6 = some (.found 2 4) ∧
    ∀ p q, Pair exactSum programArray 12 p q → 2 ≤ p ∧ q ≤ 4 := by
  have hrun : findNumber exactSum programArray 12 6 = some (.found 2 4) := by decide
  have hsorted : programArray.Pairwise (· ≤ ·) := by decide
  obtain ⟨e, hend, -, -, hcomplete⟩ := find_number_correct programArray 12
  obtain rfl : e = .found 2 4 := Option.some.inj (hend.symm.trans hrun)
  exact ⟨hrun, (hcomplete hsorted).2 2 4 rfl⟩

end RedisLuaLinux.LinuxC
