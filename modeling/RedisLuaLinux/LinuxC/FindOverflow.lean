import RedisLuaLinux.LinuxC.FindNumber

/-!
# The search with 32-bit sums

`find_number` adds two `int`s. A sum outside of their range wraps around, so that the loop takes
one that is too large for one that is too small, or the other way round.

* `findLoop_falls`: where all sums with `a[i]` look too large, the loop ends without a pair.
* `Misleads`: what wrapped sums do to the search for a target that is not positive. Either a pair
  is lost behind a sum below the range, or one whose sum is the target plus 2^32 is met.
* `mirror`: positive targets are those of the array read backwards. The range of `int` is not
  symmetric, so that the range of a sum is a parameter.
-/

namespace RedisLuaLinux.LinuxC

/-- The number from `low` up to `low + 2^32` with the same last 32 bits as `s`. -/
def wrapFrom (low s : Int) : Int := (s - low) % 4294967296 + low

def FitsFrom (low z : Int) : Prop := low ≤ z ∧ z < low + 4294967296

instance decidableFitsFrom (low z : Int) : Decidable (FitsFrom low z) :=
  inferInstanceAs (Decidable (low ≤ z ∧ z < low + 4294967296))

def intMin : Int := -2147483648

abbrev sumFrom (low x y : Int) : Int := wrapFrom low (x + y)

/-- The sum of two `int`s. -/
abbrev intSum : Int → Int → Int := sumFrom intMin

/-- `a[i]`, and `0` where there is no such element. -/
def valueAt (a : List Int) (i : Int) : Int := (elementAt a i).getD 0

section Values

variable {a : List Int} {p q low s : Int}

theorem elementAt_value (hp : 0 ≤ p) (hlt : p < a.length) : elementAt a p = some (valueAt a p) := by
  obtain ⟨x, hx⟩ := elementAt_inside hp hlt
  rw [valueAt, hx]
  rfl

theorem valueAt_mono (hsorted : a.Pairwise (· ≤ ·)) (hp : 0 ≤ p) (hle : p ≤ q) (hq : q < a.length) :
    valueAt a p ≤ valueAt a q :=
  elementAt_mono hsorted (elementAt_value hp (by omega)) (elementAt_value (by omega) hq) hle

theorem valueAt_fits (hfits : ∀ x ∈ a, FitsFrom low x) (hp : 0 ≤ p) (hlt : p < a.length) :
    FitsFrom low (valueAt a p) := by
  obtain ⟨-, hp', heq⟩ := elementAt_eq (elementAt_value hp hlt)
  rw [← heq]
  exact hfits _ (List.getElem_mem hp')

theorem pair_iff (plus : Int → Int → Int) (target : Int) : Pair plus a target p q ↔
    0 ≤ p ∧ p < q ∧ q < a.length ∧ plus (valueAt a p) (valueAt a q) = target := by
  constructor
  · rintro ⟨hlt, x, y, hx, hy, hsum⟩
    obtain ⟨hp, -⟩ := elementAt_eq hx
    obtain ⟨-, hq, -⟩ := elementAt_eq hy
    refine ⟨hp, hlt, by omega, ?_⟩
    rw [valueAt, valueAt, hx, hy]
    exact hsum
  · rintro ⟨hp, hlt, hq, hsum⟩
    exact ⟨hlt, _, _, elementAt_value hp (by omega), elementAt_value (by omega) hq, hsum⟩

theorem wrapFrom_fits (h : FitsFrom low s) : wrapFrom low s = s := by
  obtain ⟨hlow, hhigh⟩ := h
  unfold wrapFrom
  omega

theorem wrapFrom_above (h : FitsFrom low (s - 4294967296)) : wrapFrom low s = s - 4294967296 := by
  obtain ⟨hlow, hhigh⟩ := h
  unfold wrapFrom
  omega

theorem wrapFrom_below (h : FitsFrom low (s + 4294967296)) : wrapFrom low s = s + 4294967296 := by
  obtain ⟨hlow, hhigh⟩ := h
  unfold wrapFrom
  omega

end Values

section Loop

variable {plus : Int → Int → Int} {a : List Int} {target i j : Int} {fuel : Nat}

/-- `findLoop_cases` with the values of the array. -/
theorem findLoop_step (plus : Int → Int → Int) (target : Int) (fuel : Nat) (hi : 0 ≤ i)
    (hj : j < a.length) (hlt : i < j) :
    plus (valueAt a i) (valueAt a j) = target ∧
        findLoop plus a target (fuel + 1) i j = some (.found i j) ∨
      target < plus (valueAt a i) (valueAt a j) ∧
        findLoop plus a target (fuel + 1) i j = findLoop plus a target fuel i (j - 1) ∨
      plus (valueAt a i) (valueAt a j) < target ∧
        findLoop plus a target (fuel + 1) i j = findLoop plus a target fuel (i + 1) j := by
  obtain ⟨x, y, hx, hy, hcases⟩ := findLoop_cases plus target fuel hi hj hlt
  rw [valueAt, valueAt, hx, hy]
  exact hcases

/-- Where two additions agree, the loops take the same step. -/
theorem findLoop_alike {plus' : Int → Int → Int} (target : Int) (fuel : Nat) (hi : 0 ≤ i)
    (hj : j < a.length) (hlt : i < j)
    (hsame : plus' (valueAt a i) (valueAt a j) = plus (valueAt a i) (valueAt a j)) :
    plus (valueAt a i) (valueAt a j) = target ∧
        findLoop plus' a target (fuel + 1) i j = some (.found i j) ∧
        findLoop plus a target (fuel + 1) i j = some (.found i j) ∨
      target < plus (valueAt a i) (valueAt a j) ∧
        findLoop plus' a target (fuel + 1) i j = findLoop plus' a target fuel i (j - 1) ∧
        findLoop plus a target (fuel + 1) i j = findLoop plus a target fuel i (j - 1) ∨
      plus (valueAt a i) (valueAt a j) < target ∧
        findLoop plus' a target (fuel + 1) i j = findLoop plus' a target fuel (i + 1) j ∧
        findLoop plus a target (fuel + 1) i j = findLoop plus a target fuel (i + 1) j := by
  have hstep := findLoop_step plus target fuel hi hj hlt
  have hstep' := findLoop_step plus' target fuel hi hj hlt
  rw [hsame] at hstep'
  rcases hstep with ⟨heq, h⟩ | ⟨hmore, h⟩ | ⟨hless, h⟩
  · rcases hstep' with ⟨-, h'⟩ | ⟨hmore', -⟩ | ⟨hless', -⟩
    · exact Or.inl ⟨heq, h', h⟩
    · omega
    · omega
  · rcases hstep' with ⟨heq', -⟩ | ⟨-, h'⟩ | ⟨hless', -⟩
    · omega
    · exact Or.inr (Or.inl ⟨hmore, h', h⟩)
    · omega
  · rcases hstep' with ⟨heq', -⟩ | ⟨hmore', -⟩ | ⟨-, h'⟩
    · omega
    · omega
    · exact Or.inr (Or.inr ⟨hless, h', h⟩)

/-- The loop only moves `j`, down to `i`. -/
theorem findLoop_falls (hi : 0 ≤ i) (hj : j < a.length) (hfuel : j ≤ i + fuel)
    (hmore : ∀ q, i < q → q ≤ j → target < plus (valueAt a i) (valueAt a q)) :
    findLoop plus a target fuel i j = some .notFound := by
  induction fuel generalizing j with
  | zero => rw [findLoop, if_neg (by omega)]
  | succ fuel ih =>
    by_cases hlt : i < j
    · have hj' := hmore j hlt (Int.le_refl j)
      rcases findLoop_step plus target fuel hi hj hlt with ⟨heq, -⟩ | ⟨-, hstep⟩ | ⟨hless, -⟩
      · omega
      · rw [hstep]
        exact ih (by omega) (by omega) fun q hq hqj => hmore q hq (by omega)
      · omega
    · rw [findLoop, if_neg hlt]

end Loop

/-! ## Targets that are not positive -/

/-- There is a pair with the wanted sum, and before its first element one at `p` which the search
leaves at the last `q` whose sum with it is too small, where that sum is below the range. -/
def DropsPair (low : Int) (a : List Int) (target i j : Int) : Prop :=
  (∃ p q, Pair exactSum a target p q) ∧ ∃ p q, i ≤ p ∧ p < q ∧ q ≤ j ∧
    valueAt a p + valueAt a q < low ∧
    (∀ r, q < r → r ≤ j → target < valueAt a p + valueAt a r) ∧
    ∀ p' q', p' ≤ p → ¬ Pair exactSum a target p' q'

/-- The elements at `p` and `q` have the sum `target + 2^32`, and the search comes to them: it
leaves each element before `p` that is not positive because its sum is too small, and each
positive one because its sum is above the range and looks too small. -/
def MeetsFalsePair (low : Int) (a : List Int) (target i j : Int) : Prop :=
  ∃ p q, i ≤ p ∧ p < q ∧ q ≤ j ∧ valueAt a p + valueAt a q = target + 4294967296 ∧
    (∀ r, i ≤ r → r < p → valueAt a r ≤ 0 → valueAt a r + valueAt a q < target) ∧
    ∀ r, i ≤ r → r < p → 0 < valueAt a r → ∃ c, q ≤ c ∧ c ≤ j ∧
      low + 4294967296 ≤ valueAt a r + valueAt a c ∧ valueAt a r + valueAt a c < target + 4294967296 ∧
      ∀ r', i ≤ r' → r' < r → valueAt a r' ≤ 0 → valueAt a r' + valueAt a c < target

/-- What wrapped sums do to the search between `i` and `j`. -/
def Misleads (low : Int) (a : List Int) (target i j : Int) : Prop :=
  DropsPair low a target i j ∨ (¬ ∃ p q, Pair exactSum a target p q) ∧ MeetsFalsePair low a target i j

/-- Numbers of the range in nondecreasing order, two places in their array, and a target that is
not positive and that no two of the numbers can wrap below. -/
structure IntWindow (low : Int) (a : List Int) (target i j : Int) : Prop where
  sorted : a.Pairwise (· ≤ ·)
  fits : ∀ x ∈ a, FitsFrom low x
  target_low : low ≤ target
  target_nonpos : target ≤ 0
  target_lt : target < low + low + 4294967296
  left : 0 ≤ i
  right : j < a.length

section Misleads

variable {low : Int} {a : List Int} {target i j : Int}

namespace IntWindow

theorem row (h : IntWindow low a target i j) {q : Int} (hiq : i ≤ q) (hqj : q ≤ j) :
    valueAt a i + valueAt a q ≤ valueAt a i + valueAt a j := by
  have hi := h.left
  have hmono := valueAt_mono h.sorted (by omega : 0 ≤ q) hqj h.right
  omega

theorem column (h : IntWindow low a target i j) {p : Int} (hip : i ≤ p) (hpj : p ≤ j) :
    valueAt a i + valueAt a j ≤ valueAt a p + valueAt a j := by
  have hj := h.right
  have hmono := valueAt_mono h.sorted h.left hip (by omega)
  omega

theorem value (h : IntWindow low a target i j) {p : Int} (hip : i ≤ p) (hpj : p ≤ j) :
    FitsFrom low (valueAt a p) := by
  have hi := h.left
  have hj := h.right
  exact valueAt_fits h.fits (by omega) (by omega)

theorem moveRight (h : IntWindow low a target i j) : IntWindow low a target (i + 1) j := by
  have hi := h.left
  exact ⟨h.sorted, h.fits, h.target_low, h.target_nonpos, h.target_lt, by omega, h.right⟩

theorem moveLeft (h : IntWindow low a target i j) : IntWindow low a target i (j - 1) := by
  have hj := h.right
  exact ⟨h.sorted, h.fits, h.target_low, h.target_nonpos, h.target_lt, h.left, by omega⟩

end IntWindow

theorem dropsPair_right (hlow : low ≤ valueAt a i + valueAt a j)
    (hless : valueAt a i + valueAt a j < target) :
    DropsPair low a target i j ↔ DropsPair low a target (i + 1) j := by
  refine and_congr_right fun _ => ⟨?_, ?_⟩
  · rintro ⟨p, q, hip, hpq, hqj, hsum, hlast, hfirst⟩
    refine ⟨p, q, ?_, hpq, hqj, hsum, hlast, hfirst⟩
    by_contra hp
    obtain rfl : p = i := by omega
    rcases Int.lt_or_eq_of_le hqj with hq | rfl
    · have hj := hlast j hq (Int.le_refl j)
      omega
    · omega
  · rintro ⟨p, q, hip, hrest⟩
    exact ⟨p, q, by omega, hrest⟩

theorem dropsPair_left (h : IntWindow low a target i j) (hmore : target < valueAt a i + valueAt a j) :
    DropsPair low a target i j ↔ DropsPair low a target i (j - 1) := by
  refine and_congr_right fun _ => ⟨?_, ?_⟩
  · rintro ⟨p, q, hip, hpq, hqj, hsum, hlast, hfirst⟩
    refine ⟨p, q, hip, hpq, ?_, hsum, fun r hr hrj => hlast r hr (by omega), hfirst⟩
    by_contra hq
    obtain rfl : q = j := by omega
    have hcolumn := h.column hip (by omega)
    have hrange := h.target_low
    omega
  · rintro ⟨p, q, hip, hpq, hqj, hsum, hlast, hfirst⟩
    refine ⟨p, q, hip, hpq, by omega, hsum, fun r hr hrj => ?_, hfirst⟩
    rcases Int.lt_or_eq_of_le hrj with hr' | rfl
    · exact hlast r hr (by omega)
    · have hcolumn := h.column hip (by omega)
      omega

/-- The search leaves `i`, because a sum is too small or looks so. -/
theorem meetsFalsePair_right (h : IntWindow low a target i j)
    (hless : valueAt a i ≤ 0 ∧ valueAt a i + valueAt a j < target ∨
      0 < valueAt a i ∧ low + 4294967296 ≤ valueAt a i + valueAt a j ∧
        valueAt a i + valueAt a j < target + 4294967296) :
    MeetsFalsePair low a target i j ↔ MeetsFalsePair low a target (i + 1) j := by
  constructor
  · rintro ⟨p, q, hip, hpq, hqj, hsum, hneg, hpos⟩
    refine ⟨p, q, ?_, hpq, hqj, hsum, fun r hr => hneg r (by omega), fun r hr hrp hr0 => ?_⟩
    · by_contra hp
      obtain rfl : p = i := by omega
      have hrow := h.row (by omega) hqj
      have hvalue := (h.value (by omega) hqj).2
      have hrange := h.target_low
      omega
    · obtain ⟨c, hqc, hcj, hhigh, hlow, hbefore⟩ := hpos r (by omega) hrp hr0
      exact ⟨c, hqc, hcj, hhigh, hlow, fun r' hr' => hbefore r' (by omega)⟩
  · rintro ⟨p, q, hip, hpq, hqj, hsum, hneg, hpos⟩
    refine ⟨p, q, by omega, hpq, hqj, hsum, fun r hr hrp hr0 => ?_, fun r hr hrp hr0 => ?_⟩
    · rcases Int.lt_or_eq_of_le hr with hr' | rfl
      · exact hneg r (by omega) hrp hr0
      · have hrow := h.row (by omega) hqj
        omega
    · rcases Int.lt_or_eq_of_le hr with hr' | rfl
      · obtain ⟨c, hqc, hcj, hhigh, hlow, hbefore⟩ := hpos r (by omega) hrp hr0
        refine ⟨c, hqc, hcj, hhigh, hlow, fun r' hir' hr'r hr'0 => ?_⟩
        rcases Int.lt_or_eq_of_le hir' with hr'' | rfl
        · exact hbefore r' (by omega) hr'r hr'0
        · have hrow := h.row (by omega) hcj
          omega
      · exact ⟨j, hqj, Int.le_refl j, by omega, by omega, fun r' _ _ _ => by omega⟩

/-- The search leaves `j`, because a sum is too large. -/
theorem meetsFalsePair_left (h : IntWindow low a target i j)
    (hmore : valueAt a i ≤ 0 ∧ target < valueAt a i + valueAt a j ∨
      0 < valueAt a i ∧ target + 4294967296 < valueAt a i + valueAt a j) :
    MeetsFalsePair low a target i j ↔ MeetsFalsePair low a target i (j - 1) := by
  constructor
  · rintro ⟨p, q, hip, hpq, hqj, hsum, hneg, hpos⟩
    refine ⟨p, q, hip, hpq, ?_, hsum, hneg, fun r hr hrp hr0 => ?_⟩
    · by_contra hq
      obtain rfl : q = j := by omega
      have hcolumn := h.column hip (by omega)
      have hvalue := (h.value (by omega) hqj).2
      have hrange := h.target_low
      rcases Int.lt_or_eq_of_le hip with hp | rfl
      · have hi := hneg i (Int.le_refl i) hp
        omega
      · omega
    · obtain ⟨c, hqc, hcj, hhigh, hlow, hbefore⟩ := hpos r hr hrp hr0
      refine ⟨c, hqc, ?_, hhigh, hlow, hbefore⟩
      by_contra hc
      obtain rfl : c = j := by omega
      have hcolumn := h.column hr (by omega)
      rcases Int.lt_or_eq_of_le hr with hr' | rfl
      · have hi := hbefore i (Int.le_refl i) hr'
        omega
      · omega
  · rintro ⟨p, q, hip, hpq, hqj, hsum, hneg, hpos⟩
    refine ⟨p, q, hip, hpq, by omega, hsum, hneg, fun r hr hrp hr0 => ?_⟩
    obtain ⟨c, hqc, hcj, hrest⟩ := hpos r hr hrp hr0
    exact ⟨c, hqc, by omega, hrest⟩

/-- A sum below the range: all further ones look too large. -/
theorem misleads_below (h : IntWindow low a target i j) (hwindow : Window a target i j) (hlt : i < j)
    (hlow : valueAt a i + valueAt a j < low) :
    Misleads low a target i j ↔ ∃ p q, Pair exactSum a target p q := by
  have hrange := h.target_low
  constructor
  · rintro (hdrops | ⟨-, p, q, hip, hpq, hqj, hsum, -⟩)
    · exact hdrops.1
    · have hi := (h.value (Int.le_refl i) (by omega)).1
      have hp := (h.value hip (by omega)).2
      have hrow := h.row (by omega) hqj
      omega
  · intro hpair
    refine Or.inl ⟨hpair, i, j, Int.le_refl i, hlt, Int.le_refl j, hlow, fun r _ _ => by omega, ?_⟩
    intro p q hp hpq
    obtain ⟨hip, hqj⟩ := hwindow p q hpq
    obtain rfl : p = i := by omega
    obtain ⟨-, hpq, -, hsum⟩ := (pair_iff exactSum target).mp hpq
    rw [exactSum] at hsum
    have hrow := h.row (by omega) hqj
    omega

/-- The first pair is at hand. -/
theorem not_misleads_found (hpair : Pair exactSum a target i j) : ¬ Misleads low a target i j := by
  rintro (⟨-, p, q, hip, -, -, -, -, hfirst⟩ | ⟨hnone, -⟩)
  · exact hfirst i j hip hpair
  · exact hnone ⟨i, j, hpair⟩

theorem not_misleads_met (hge : ¬ i < j) : ¬ Misleads low a target i j := by
  rintro (⟨-, p, q, hip, hpq, hqj, -⟩ | ⟨-, p, q, hip, hpq, hqj, -⟩)
  · omega
  · omega

end Misleads

section Nonpositive

variable {low : Int} {a : List Int} {target i j : Int} {fuel : Nat}

/-- With positive elements, exact sums are too large. -/
theorem findLoop_positive (h : IntWindow low a target i j) (hfuel : j ≤ i + fuel) (h0 : 0 < valueAt a i) :
    findLoop exactSum a target fuel i j = some .notFound := by
  refine findLoop_falls h.left h.right hfuel fun q hiq hqj => ?_
  have hj := h.right
  have hmono := valueAt_mono h.sorted h.left (by omega : i ≤ q) (by omega)
  have hrange := h.target_nonpos
  rw [exactSum]
  omega

/-- With positive elements, wrapped sums look too small as soon as they are above the range, and
as long as they are the search is one for `target + 2^32`. -/
theorem findLoop_above (h : IntWindow low a target i j) (hfuel : j ≤ i + fuel) (h0 : 0 < valueAt a i) :
    findLoop (sumFrom low) a target fuel i j = some .notFound ↔
      ¬ MeetsFalsePair low a target i j := by
  induction fuel generalizing i j with
  | zero =>
    refine iff_of_true (by rw [findLoop, if_neg (by omega)]) ?_
    rintro ⟨p, q, hip, hpq, hqj, -⟩
    omega
  | succ fuel ih =>
    by_cases hlt : i < j
    · have hi := h.left
      have hj := h.right
      have hmono := valueAt_mono h.sorted hi (by omega : i ≤ j) hj
      have hvi := (h.value (Int.le_refl i) (by omega)).2
      have hvj := (h.value (by omega) (Int.le_refl j)).2
      have hlow := h.target_low
      have hnonpos := h.target_nonpos
      by_cases hinside : valueAt a i + valueAt a j < low + 4294967296
      · -- no sum with `a[i]` is above the range
        refine iff_of_true (findLoop_falls hi hj (by omega) fun q hiq hqj => ?_) ?_
        · have hrow := h.row (by omega) hqj
          have hmono' := valueAt_mono h.sorted hi (by omega : i ≤ q) (by omega)
          rw [sumFrom, wrapFrom_fits ⟨by omega, by omega⟩]
          omega
        · rintro ⟨p, q, hip, hpq, hqj, hsum, -, hpos⟩
          rcases Int.lt_or_eq_of_le hip with hp | rfl
          · obtain ⟨c, hqc, hcj, hhigh, -⟩ := hpos i (Int.le_refl i) hp h0
            have hrow := h.row (by omega) hcj
            omega
          · have hrow := h.row (by omega) hqj
            omega
      · have hwrap : sumFrom low (valueAt a i) (valueAt a j) = valueAt a i + valueAt a j - 4294967296 :=
          wrapFrom_above ⟨by omega, by omega⟩
        rcases findLoop_step (sumFrom low) target fuel hi hj hlt with
          ⟨heq, hstep⟩ | ⟨hmore, hstep⟩ | ⟨hless, hstep⟩
        · rw [hstep]
          refine iff_of_false (by simp) (not_not_intro ?_)
          exact ⟨i, j, Int.le_refl i, hlt, Int.le_refl j, by omega, fun r _ _ => by omega,
            fun r _ _ => by omega⟩
        · rw [hstep, ih h.moveLeft (by omega) h0, meetsFalsePair_left h (Or.inr ⟨h0, by omega⟩)]
        · have h0' := valueAt_mono h.sorted hi (by omega : i ≤ i + 1) (by omega)
          rw [hstep, ih h.moveRight (by omega) (by omega),
            meetsFalsePair_right h (Or.inr ⟨h0, by omega, by omega⟩)]
    · refine iff_of_true (by rw [findLoop, if_neg hlt]) ?_
      rintro ⟨p, q, hip, hpq, hqj, -⟩
      omega

theorem findLoop_exact_iff (h : IntWindow low a target i j) (hwindow : Window a target i j)
    (hfuel : j ≤ i + fuel) : findLoop exactSum a target fuel i j = some .notFound ↔
      ¬ ∃ p q, Pair exactSum a target p q := by
  obtain ⟨e, hend, hinside, hpair⟩ := findLoop_ends exactSum target h.left h.right hfuel
  obtain ⟨-, hnone⟩ := findLoop_window h.sorted h.left h.right hwindow hend
  rw [hend]
  cases e with
  | notFound => exact iff_of_true rfl fun ⟨p, q, hpq⟩ => hnone rfl p q hpq
  | found p q => exact iff_of_false nofun (not_not_intro ⟨p, q, hpair p q rfl⟩)
  | badIndex => exact absurd rfl hinside

/-- Wrapped sums do not change what is reported if and only if they do not mislead the search. -/
theorem findLoop_agrees (h : IntWindow low a target i j) (hwindow : Window a target i j)
    (hfuel : j ≤ i + fuel) :
    findLoop (sumFrom low) a target fuel i j = findLoop exactSum a target fuel i j ↔
      ¬ Misleads low a target i j := by
  induction fuel generalizing i j with
  | zero =>
    refine iff_of_true ?_ (not_misleads_met (by omega))
    rw [findLoop, findLoop]
  | succ fuel ih =>
    by_cases hlt : i < j
    · have hi := h.left
      have hj := h.right
      by_cases h0 : 0 < valueAt a i
      · have hexact := findLoop_positive h hfuel h0
        have hnone := (findLoop_exact_iff h hwindow hfuel).mp hexact
        rw [hexact, findLoop_above h hfuel h0]
        refine not_congr ⟨fun hmeets => Or.inr ⟨hnone, hmeets⟩, ?_⟩
        rintro (hdrops | ⟨-, hmeets⟩)
        · exact absurd hdrops.1 hnone
        · exact hmeets
      · have hvi := h.value (Int.le_refl i) (by omega)
        have hvj := h.value (by omega) (Int.le_refl j)
        have hx := elementAt_value hi (by omega : i < a.length)
        have hy := elementAt_value (by omega : 0 ≤ j) hj
        by_cases hlow : valueAt a i + valueAt a j < low
        · -- all further sums are below the range and look too large
          have hfalls : findLoop (sumFrom low) a target (fuel + 1) i j =
              some .notFound := by
            refine findLoop_falls hi hj hfuel fun q hiq hqj => ?_
            have hrow := h.row (by omega) hqj
            have hvq := (h.value (by omega) hqj).1
            have hvi' := hvi.1
            have htarget := h.target_lt
            have hnonpos := h.target_nonpos
            have hrange := h.target_low
            rw [sumFrom, wrapFrom_below ⟨by omega, by omega⟩]
            omega
          rw [hfalls, eq_comm, findLoop_exact_iff h hwindow hfuel, misleads_below h hwindow hlt hlow]
        · have hwrap : sumFrom low (valueAt a i) (valueAt a j) = exactSum (valueAt a i) (valueAt a j) :=
            wrapFrom_fits ⟨by omega, by have := hvj.2; omega⟩
          rcases findLoop_alike target fuel hi hj hlt hwrap with ⟨heq, hstep, hstep'⟩ |
              ⟨hmore, hstep, hstep'⟩ | ⟨hless, hstep, hstep'⟩
          · rw [hstep, hstep']
            exact iff_of_true rfl (not_misleads_found ((pair_iff _ _).mpr ⟨hi, hlt, hj, heq⟩))
          · rw [hstep, hstep', ih h.moveLeft (hwindow.left h.sorted hx hy hmore) (by omega), Misleads,
              Misleads, dropsPair_left h hmore, meetsFalsePair_left h (Or.inl ⟨by omega, hmore⟩)]
          · rw [hstep, hstep', ih h.moveRight (hwindow.right h.sorted hx hy hless) (by omega), Misleads,
              Misleads, dropsPair_right (by omega) hless,
              meetsFalsePair_right h (Or.inl ⟨by omega, hless⟩)]
    · refine iff_of_true ?_ (not_misleads_met hlt)
      rw [findLoop, if_neg hlt, findLoop, if_neg hlt]

end Nonpositive

/-! ## The array read backwards -/

/-- The negated elements in reverse order. -/
def mirror (a : List Int) : List Int := (a.map fun x => -x).reverse

/-- What is reported of an array is reported of its mirror image at the mirrored places. -/
def SearchEnd.mirror (length : Int) : SearchEnd → SearchEnd
  | .found i j => .found (length - 1 - j) (length - 1 - i)
  | .notFound => .notFound
  | .badIndex => .badIndex

section Mirror

variable {plus plus' : Int → Int → Int} {a : List Int} {target : Int}

theorem length_mirror (a : List Int) : (mirror a).length = a.length := by
  rw [mirror, List.length_reverse, List.length_map]

theorem elementAt_mirror (a : List Int) (i : Int) :
    elementAt (mirror a) (a.length - 1 - i) = (elementAt a i).map fun x => -x := by
  unfold elementAt
  by_cases hi : 0 ≤ i
  · rw [if_pos hi]
    by_cases hlt : i < a.length
    · have hplace : (a.length - 1 - i).toNat = a.length - 1 - i.toNat := by omega
      have hback : a.length - 1 - (a.length - 1 - i.toNat) = i.toNat := by omega
      rw [if_pos (by omega), mirror, List.getElem?_reverse (by rw [List.length_map]; omega), List.length_map,
        hplace, hback, List.getElem?_map]
    · rw [if_neg (by omega), List.getElem?_eq_none (by omega)]
      rfl
  · rw [if_neg hi]
    split
    · rw [List.getElem?_eq_none (by rw [length_mirror]; omega)]
      rfl
    · rfl

theorem findLoop_mirror (hplus : ∀ x y, plus' (-x) (-y) = -plus y x) (fuel : Nat) (i j : Int) :
    findLoop plus' (mirror a) (-target) fuel (a.length - 1 - j) (a.length - 1 - i) =
      (findLoop plus a target fuel i j).map (SearchEnd.mirror a.length) := by
  induction fuel generalizing i j with
  | zero =>
    simp only [findLoop]
    by_cases hlt : i < j
    · rw [if_pos hlt, if_pos (by omega)]
      rfl
    · rw [if_neg hlt, if_neg (by omega)]
      rfl
  | succ fuel ih =>
    simp only [findLoop]
    by_cases hlt : i < j
    · rw [if_pos hlt, if_pos (by omega), elementAt_mirror, elementAt_mirror]
      cases elementAt a i with
      | none => cases elementAt a j <;> rfl
      | some x =>
        cases elementAt a j with
        | none => rfl
        | some y =>
          simp only [Option.map_some, hplus]
          rcases Int.lt_trichotomy (plus x y) target with hless | heq | hmore
          · have hnext : a.length - 1 - i - 1 = a.length - 1 - (i + 1) := by omega
            rw [if_neg (by omega), if_pos (by omega), if_neg (by omega), if_neg (by omega), if_pos hless, hnext]
            exact ih (i + 1) j
          · rw [if_pos (by omega), if_pos heq]
            rfl
          · have hnext : a.length - 1 - j + 1 = a.length - 1 - (j - 1) := by omega
            rw [if_neg (by omega), if_neg (by omega), if_pos (by omega), if_neg (by omega), if_pos hmore, hnext]
            exact ih i (j - 1)
    · rw [if_neg hlt, if_neg (by omega)]
      rfl

theorem findNumber_mirror (hplus : ∀ x y, plus' (-x) (-y) = -plus y x) (a : List Int) (target : Int)
    (fuel : Nat) : findNumber plus' (mirror a) (-target) fuel =
      (findNumber plus a target fuel).map (SearchEnd.mirror a.length) := by
  have hfirst : (a.length : Int) - 1 - (a.length - 1) = 0 := by omega
  rw [findNumber, findNumber, ← findLoop_mirror hplus, length_mirror, hfirst, Int.sub_zero]

theorem mirror_injective (length : Int) : Function.Injective (SearchEnd.mirror length) := by
  intro e e' h
  cases e <;> cases e' <;> simp only [SearchEnd.mirror, SearchEnd.found.injEq, reduceCtorEq] at h ⊢
  omega

theorem mirror_sorted (h : a.Pairwise (· ≤ ·)) : (mirror a).Pairwise (· ≤ ·) := by
  rw [mirror, List.pairwise_reverse, List.pairwise_map]
  exact h.imp Int.neg_le_neg

theorem mirror_fits (h : ∀ x ∈ a, FitsFrom intMin x) : ∀ x ∈ mirror a, FitsFrom (intMin + 1) x := by
  intro x hx
  obtain ⟨y, hy, rfl⟩ := List.mem_map.mp (List.mem_reverse.mp hx)
  obtain ⟨hlow, hhigh⟩ := h y hy
  unfold intMin at *
  exact ⟨by omega, by omega⟩

theorem exactSum_mirror (x y : Int) : exactSum (-x) (-y) = -exactSum y x := by
  unfold exactSum
  omega

theorem intSum_mirror (x y : Int) : sumFrom (intMin + 1) (-x) (-y) = -intSum y x := by
  unfold intSum sumFrom wrapFrom intMin
  omega

end Mirror

/-! ## All targets -/

/-- Wrapped sums mislead the search. -/
def Misled (a : List Int) (target : Int) : Prop :=
  if target < 0 then Misleads intMin a target 0 (a.length - 1)
  else Misleads (intMin + 1) (mirror a) (-target) 0 (a.length - 1)

/-- Both searches end in time, and they report the same if and only if the search is not misled. -/
theorem wrapped_search_agrees {a : List Int} {target : Int} (hsorted : a.Pairwise (· ≤ ·))
    (hfits : ∀ x ∈ a, FitsFrom intMin x) (htarget : FitsFrom intMin target) :
    ∃ wrapped exact, findNumber intSum a target (a.length - 1) = some wrapped ∧
      findNumber exactSum a target (a.length - 1) = some exact ∧
      (wrapped = exact ↔ ¬ Misled a target) := by
  have hlast : (a.length : Int) - 1 < a.length := by omega
  have hfuel : (a.length : Int) - 1 ≤ 0 + (a.length - 1 : Nat) := by omega
  obtain ⟨wrapped, hwrapped, -⟩ := findLoop_ends intSum target (Int.le_refl 0) hlast hfuel
  obtain ⟨exact, hexact, -⟩ := findLoop_ends exactSum target (Int.le_refl 0) hlast hfuel
  refine ⟨wrapped, exact, hwrapped, hexact, ?_⟩
  obtain ⟨hlow, hhigh⟩ := htarget
  have hsame : wrapped = exact ↔ findNumber intSum a target (a.length - 1) =
      findNumber exactSum a target (a.length - 1) := by
    rw [findNumber, findNumber, hwrapped, hexact, Option.some.injEq]
  rw [hsame, Misled]
  split
  · rename_i hneg
    refine findLoop_agrees ⟨hsorted, hfits, hlow, by omega, ?_, Int.le_refl 0, hlast⟩
      (window_start a target) hfuel
    exact hneg
  · rename_i hpos
    have hlength := length_mirror a
    rw [← (Option.map_injective (mirror_injective a.length)).eq_iff, ← findNumber_mirror intSum_mirror,
      ← findNumber_mirror exactSum_mirror, findNumber, findNumber, hlength]
    have hwindow := window_start (mirror a) (-target)
    rw [hlength] at hwindow
    refine findLoop_agrees ⟨mirror_sorted hsorted, mirror_fits hfits, ?_, ?_, ?_, Int.le_refl 0, ?_⟩ hwindow hfuel
    · unfold intMin at *
      omega
    · omega
    · unfold intMin
      omega
    · omega

def wrappingArray : List Int := [5, 7, 2147483647]

/-- The first sum wraps around, and is too large for the target all the same. -/
theorem wrapped_search_agrees_example :
    intSum 5 2147483647 ≠ exactSum 5 2147483647 ∧ ¬ Misled wrappingArray (-2147483646) := by
  have hwrapped : findNumber intSum wrappingArray (-2147483646) 2 = some .notFound := by decide
  have hexact : findNumber exactSum wrappingArray (-2147483646) 2 = some .notFound := by decide
  have hsorted : wrappingArray.Pairwise (· ≤ ·) := by decide
  have hfits : ∀ x ∈ wrappingArray, FitsFrom intMin x := by decide
  have htarget : FitsFrom intMin (-2147483646) := by decide
  obtain ⟨wrapped, exact, hw, he, hiff⟩ := wrapped_search_agrees hsorted hfits htarget
  refine ⟨by decide, hiff.mp ?_⟩
  exact Option.some.inj (hw.symm.trans (hwrapped.trans (hexact.symm.trans he)))

def largeArray : List Int := [2147483647, 2147483647]

def smallArray : List Int := [-2147483648, -3, -2]

/-- The sum of two large numbers wraps around to the target; and a sum of two small ones looks too
large, so that the pair with the sum `-5` is passed by. -/
theorem wrapped_search_fails :
    (largeArray.Pairwise (· ≤ ·) ∧ (∀ x ∈ largeArray, FitsFrom intMin x) ∧
      findNumber intSum largeArray (-2) 1 = some (.found 0 1) ∧
      findNumber exactSum largeArray (-2) 1 = some .notFound) ∧
    smallArray.Pairwise (· ≤ ·) ∧ (∀ x ∈ smallArray, FitsFrom intMin x) ∧
      findNumber intSum smallArray (-5) 2 = some .notFound ∧
      findNumber exactSum smallArray (-5) 2 = some (.found 1 2) := by
  decide

end RedisLuaLinux.LinuxC
