import RedisLuaLinux.Library.Rounding
import RedisLuaLinux.Python.HistoryComplete
import Mathlib

/-!
# Volumes and turnovers in the database

`sql_db.sql` of the history scraper declares `today_deal_volume` and `today_deal_CNY` as `float`.
Such a column keeps 24 significant binary digits of a number.

* `getStockAndStoreIntoDb_stored`: what the table holds after a day row.
* `stored_numbers_survive`: volume and turnover are held as they were sent if and only if the
  volume is not 0 and both have at most 24 significant binary digits.
-/

namespace RedisLuaLinux.Python

open Library

/-- What a `FLOAT` column holds of a decimal numeral. -/
def floatColumn (t : Text) : Option Nat := (readNat t).map (roundBits 24)

/-- The value in a `FLOAT` column of a row. -/
def heldNumber (r : StoredRow) (column : Text) : Option Nat := (r.lookup column).bind floatColumn

/-- Python reads decimal numerals. -/
structure ReadsNumerals {F : Type} (num : Numerals F) : Prop where
  int : ∀ t (n : Nat), readNat t = some n → num.int t = some (n : Int)
  float : ∀ t, (readNat t).isSome → (num.float t).isSome
  divides : Divides num

/-- A day row with a token in each of its seven cells, the last two of them the decimal numerals of
a volume and a turnover. -/
structure NumberedDay (day : Block) (volume turnover : Nat) : Prop where
  tokens : ∀ i < 7, ∃ token, itemText day i = some token ∧ Plain token
  volume_eq : (itemText day 5).bind readNat = some volume
  turnover_eq : (itemText day 6).bind readNat = some turnover

/-- The row of a stock for a date holds these numbers. -/
def Holds (db : Database) (stock date : Text) (volume turnover : Nat) : Prop :=
  ∃ t r, db.table (tableOf stock) = some t ∧ r ∈ t.rows ∧ rowKey r = (some stock, some date) ∧
    heldNumber r "today_deal_volume".toList = some volume ∧
    heldNumber r "today_deal_CNY".toList = some turnover

variable {F : Type} {num : Numerals F} {accepts : StoredRow → Bool} {stock date : Text} {day : Block}
  {volume turnover : Nat} {db : Database} {t : KeyedTable rowKey}

theorem NumberedDay.wellFormed (hnum : ReadsNumerals num) (h : NumberedDay day volume turnover)
    (hvolume : volume < 2 ^ 31) (hzero : volume ≠ 0) : WellFormedDay num day := by
  obtain ⟨v, hv, hread⟩ := Option.bind_eq_some_iff.mp h.volume_eq
  obtain ⟨w, hw, hread'⟩ := Option.bind_eq_some_iff.mp h.turnover_eq
  refine ⟨h.tokens, ⟨volume, ?_, ?_, ?_⟩, ?_⟩
  · rw [hv]
    exact hnum.int v volume hread
  · exact_mod_cast hzero
  · rw [Int.natAbs_natCast]
    exact hvolume.trans (by norm_num)
  · rw [hw]
    exact hnum.float w (by rw [hread']; rfl)

/-- A day with volume 0 raises an error. -/
theorem NumberedDay.raises (hnum : ReadsNumerals num) (h : NumberedDay day 0 turnover) :
    parseDayStockInfo num day = none := by
  obtain ⟨v, hv, hread⟩ := Option.bind_eq_some_iff.mp h.volume_eq
  cases hparse : parseDayStockInfo num day with
  | none => rfl
  | some info =>
    obtain ⟨-, -, -, -, -, h5, -, haverage⟩ := parseDayStockInfo_cases hparse
    obtain rfl : v = info.todayDealVolume := Option.some.inj (hv.symm.trans h5)
    simp [averagePrice, hnum.int _ _ hread] at haverage

/-- The numbers that the row of a day holds. -/
theorem NumberedDay.held (hnum : ReadsNumerals num) (h : NumberedDay day volume turnover)
    (hday : WellFormedDay num day) (stock : Text) :
    heldNumber (dayRow num stock day) "today_deal_volume".toList = some (roundBits 24 volume) ∧
      heldNumber (dayRow num stock day) "today_deal_CNY".toList = some (roundBits 24 turnover) := by
  have hstored := dayRow_storedAs hnum.divides hday stock
  obtain ⟨v, hv, hread⟩ := Option.bind_eq_some_iff.mp h.volume_eq
  obtain ⟨w, hw, hread'⟩ := Option.bind_eq_some_iff.mp h.turnover_eq
  constructor
  · rw [heldNumber, hstored.todayDealVolume, hv, Option.bind_some, floatColumn, hread]
    rfl
  · rw [heldNumber, hstored.todayDealCNY, hw, Option.bind_some, floatColumn, hread']
    rfl

/-- The table after a day row with a new date holds its row. -/
theorem getStockAndStoreIntoDb_stored (hnum : ReadsNumerals num) (hword : ∀ c ∈ stock, isWordChar c)
    (hday : WellFormedDay num day) (hdate : dayDate day = some date)
    (htable : db.table (tableOf stock) = some t) (hnew : ¬ t.Has (some stock, some date))
    (haccepts : accepts (dayRow num stock day) = true) :
    ∃ db', getStockAndStoreIntoDb num (stockHistoryStoreIntoDb accepts) stock day db = some db' ∧
      ∃ t', db'.table (tableOf stock) = some t' ∧ ∀ r,
        r ∈ t'.rows ∧ rowKey r = (some stock, some date) ↔ r = dayRow num stock day := by
  refine ⟨_, getStockAndStoreIntoDb_execute hnum.divides hword hday db,
    t.insert accepts (dayRow num stock day), ?_, fun r => ?_⟩
  · rw [Tables.table_insert_self, htable, Option.map_some]
  · have hstored := dayRow_storedAs hnum.divides hday stock
    have hkey : rowKey (dayRow num stock day) = (some stock, some date) := by
      rw [rowKey, hstored.code, hstored.date, hdate]
    rw [KeyedTable.mem_insert, hkey]
    constructor
    · rintro ⟨hr | ⟨rfl, -⟩, hrkey⟩
      · exact absurd (List.mem_map.mpr ⟨r, hr, hrkey⟩) hnew
      · rfl
    · rintro rfl
      exact ⟨Or.inr ⟨rfl, haccepts, hnew⟩, hkey⟩

/-- For every day row whose volume and turnover are natural numbers below 2^31, with a date that is
new and a row that is accepted: `get_stock_and_store_into_db` leaves a row that holds these numbers
if and only if the volume is not 0 and both have at most 24 significant binary digits. -/
theorem stored_numbers_survive (hnum : ReadsNumerals num) (hword : ∀ c ∈ stock, isWordChar c)
    (h : NumberedDay day volume turnover) (hvolume : volume < 2 ^ 31) (_hturnover : turnover < 2 ^ 31)
    (hdate : dayDate day = some date) (htable : db.table (tableOf stock) = some t)
    (hnew : ¬ t.Has (some stock, some date))
    (haccepts : ∀ call, dayCall num stock day = some call → accepts call.2 = true) :
    (∃ db', getStockAndStoreIntoDb num (stockHistoryStoreIntoDb accepts) stock day db = some db' ∧
      Holds db' stock date volume turnover) ↔
      volume ≠ 0 ∧ Significant 24 volume ∧ Significant 24 turnover := by
  by_cases hzero : volume = 0
  · subst hzero
    refine iff_of_false ?_ fun hall => hall.1 rfl
    rintro ⟨db', hrun, -⟩
    rw [getStockAndStoreIntoDb, h.raises hnum] at hrun
    cases hrun
  · have hday := h.wellFormed hnum hvolume hzero
    have hrow := haccepts _ (dayCall_eq hnum.divides hday stock)
    obtain ⟨db', hrun, t', ht', honly⟩ :=
      getStockAndStoreIntoDb_stored hnum hword hday hdate htable hnew hrow
    obtain ⟨hheld, hheld'⟩ := h.held hnum hday stock
    rw [and_iff_right hzero, ← roundBits_eq_iff, ← roundBits_eq_iff]
    constructor
    · rintro ⟨db'', hrun', t'', r, ht'', hr, hkey, hv, hw⟩
      obtain rfl : db' = db'' := Option.some.inj (hrun.symm.trans hrun')
      obtain rfl : t' = t'' := Option.some.inj (ht'.symm.trans ht'')
      obtain rfl := (honly r).mp ⟨hr, hkey⟩
      exact ⟨Option.some.inj (hheld.symm.trans hv), Option.some.inj (hheld'.symm.trans hw)⟩
    · rintro ⟨hv, hw⟩
      obtain ⟨hr, hkey⟩ := (honly _).mpr rfl
      rw [hv] at hheld
      rw [hw] at hheld'
      exact ⟨db', hrun, t', _, ht', hr, hkey, hheld, hheld'⟩

/-! ## The row in the comment of `parse_day_stock_info` -/

def sampleDay : Block :=
  [["\n2019-07-12 ".toList], ["6.670".toList], ["6.690".toList], ["6.670".toList], ["6.640".toList],
    ["48044859".toList], ["320410969".toList]]

/-- Whole numbers, and the quotient of the turnover and the volume of the row. -/
def sampleNumerals : Numerals Int where
  float := readInt
  int := readInt
  divide _ _ := some "6.668995927327001".toList

theorem readInt_of_readNat {t : Text} {n : Nat} (h : readNat t = some n) : readInt t = some (n : Int) := by
  unfold readInt
  split
  · -- a numeral does not start with a sign
    simp [readNat] at h
  · rw [h]
    rfl

theorem sampleNumerals_reads : ReadsNumerals sampleNumerals := by
  have hplain : Plain "6.668995927327001".toList := by decide
  refine ⟨fun t n h => readInt_of_readNat h, fun t h => ?_, fun _ _ _ _ => ⟨_, rfl, hplain⟩⟩
  obtain ⟨n, hn⟩ := Option.isSome_iff_exists.mp h
  show (readInt t).isSome
  rw [readInt_of_readNat hn]
  rfl

theorem wholeNumerals_reads : ReadsNumerals wholeNumerals := by
  refine ⟨fun t n h => readInt_of_readNat h, fun t h => ?_, wholeNumerals_divides⟩
  obtain ⟨n, hn⟩ := Option.isSome_iff_exists.mp h
  show (readInt t).isSome
  rw [readInt_of_readNat hn]
  rfl

theorem numberedDay_of_all {day : Block} {volume turnover : Nat}
    (hall : ∀ i < 7, (itemText day i).any (fun token => decide (Plain token)) = true)
    (hvolume : (itemText day 5).bind readNat = some volume)
    (hturnover : (itemText day 6).bind readNat = some turnover) : NumberedDay day volume turnover := by
  refine ⟨fun i hi => ?_, hvolume, hturnover⟩
  obtain ⟨token, htoken, hplain⟩ := (Option.any_eq_true _ _).mp (hall i hi)
  exact ⟨token, htoken, of_decide_eq_true hplain⟩

/-- The volume 100 and the turnover 600. -/
theorem stored_numbers_survive_example :
    ∃ db', getStockAndStoreIntoDb wholeNumerals (stockHistoryStoreIntoDb acceptsAll) "sh601857".toList
        (dayExample "2019-03-01".toList) databaseExample = some db' ∧
      Holds db' "sh601857".toList "20190301".toList 100 600 := by
  have hword : ∀ c ∈ "sh601857".toList, isWordChar c := List.all_eq_true.mp rfl
  have hday : NumberedDay (dayExample "2019-03-01".toList) 100 600 :=
    numberedDay_of_all (by decide +kernel) (by decide +kernel) (by decide +kernel)
  have hdate : dayDate (dayExample "2019-03-01".toList) = some "20190301".toList := by decide +kernel
  have hnew : ¬ (KeyedTable.empty : KeyedTable rowKey).Has (some "sh601857".toList, some "20190301".toList) :=
    fun h => by cases h
  exact (stored_numbers_survive wholeNumerals_reads hword hday (by norm_num) (by norm_num) hdate rfl hnew
    fun _ _ => rfl).mpr ⟨by norm_num, ⟨100, 0, by norm_num, rfl⟩, ⟨600, 0, by norm_num, rfl⟩⟩

/-- The table holds 48044860 and 320410976 instead of 48044859 and 320410969. -/
theorem stored_numbers_survive_fails :
    ∃ db', getStockAndStoreIntoDb sampleNumerals (stockHistoryStoreIntoDb acceptsAll) "sh601857".toList
        sampleDay databaseExample = some db' ∧
      Holds db' "sh601857".toList "20190712".toList 48044860 320410976 ∧
      ¬ Holds db' "sh601857".toList "20190712".toList 48044859 320410969 := by
  have hword : ∀ c ∈ "sh601857".toList, isWordChar c := List.all_eq_true.mp rfl
  have hnumbered : NumberedDay sampleDay 48044859 320410969 :=
    numberedDay_of_all (by decide +kernel) (by decide +kernel) (by decide +kernel)
  have hdate : dayDate sampleDay = some "20190712".toList := by decide +kernel
  have hnew : ¬ (KeyedTable.empty : KeyedTable rowKey).Has (some "sh601857".toList, some "20190712".toList) :=
    fun h => by cases h
  have hday := hnumbered.wellFormed sampleNumerals_reads (by norm_num) (by norm_num)
  obtain ⟨db', hrun, t, ht, honly⟩ :=
    getStockAndStoreIntoDb_stored sampleNumerals_reads hword hday hdate
      (rfl : databaseExample.table (tableOf "sh601857".toList) = some KeyedTable.empty) hnew
      (rfl : acceptsAll _ = true)
  obtain ⟨hv, hw⟩ := hnumbered.held sampleNumerals_reads hday "sh601857".toList
  have hvolume : roundBits 24 48044859 = 48044860 := by decide +kernel
  have hturnover : roundBits 24 320410969 = 320410976 := by decide +kernel
  rw [hvolume] at hv
  rw [hturnover] at hw
  obtain ⟨hr, hkey⟩ := (honly _).mpr rfl
  refine ⟨db', hrun, ⟨t, _, ht, hr, hkey, hv, hw⟩, ?_⟩
  rintro ⟨t', r, ht', hr', hkey', hv', -⟩
  obtain rfl : t = t' := Option.some.inj (ht.symm.trans ht')
  obtain rfl := (honly r).mp ⟨hr', hkey'⟩
  have hsame : (48044860 : Nat) = 48044859 := Option.some.inj (hv.symm.trans hv')
  omega

end RedisLuaLinux.Python
