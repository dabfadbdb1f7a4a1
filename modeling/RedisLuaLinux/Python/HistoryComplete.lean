import RedisLuaLinux.Python.HistorySnapshots
import Mathlib

/-!
# A full run of the history scraper

* `WellFormedDay`: a day row from which all values can be read.
* `mainStock_complete`: for such rows, the part of a run for a stock inserts each of them.
* `mainStock_table`: the other parts of the run leave the table of the stock as it is.
* `history_complete`: a run stores the published days of a stock, in order and under the right
  columns.
-/

namespace RedisLuaLinux.Python

open Library

variable {F : Type} {num : Numerals F} {accepts : StoredRow → Bool} {fetch : Text → Page} {stock : Text}
  {Earlier : Text → Text → Prop}

/-- Without double quotes and backslashes. -/
def Plain (t : Text) : Prop := ∀ c ∈ t, c ≠ '"' ∧ c ≠ '\\'

instance decidablePlain (t : Text) : Decidable (Plain t) :=
  List.decidableBAll (fun c => c ≠ '"' ∧ c ≠ '\\') t

/-- The quotient by an integer in the range of a `FLOAT` column is a number, and numbers are
written without quotes and backslashes. -/
def Divides (num : Numerals F) : Prop :=
  ∀ x n, n ≠ 0 → n.natAbs < 2 ^ 128 → ∃ price, num.divide x n = some price ∧ Plain price

/-- A day row with a token in each of its first seven cells, the last two of them a volume and
a turnover. -/
structure WellFormedDay (num : Numerals F) (day : Block) : Prop where
  tokens : ∀ i < 7, ∃ token, itemText day i = some token ∧ Plain token
  volume : ∃ n, (itemText day 5).bind num.int = some n ∧ n ≠ 0 ∧ n.natAbs < 2 ^ 128
  turnover : ((itemText day 6).bind num.float).isSome

/-- Both dates are there, and in this order. -/
def DateBefore (Earlier : Text → Text → Prop) : Option Text → Option Text → Prop
  | some d, some d' => Earlier d d'
  | _, _ => False

instance decidableDateBefore [DecidableRel Earlier] : (a b : Option Text) →
    Decidable (DateBefore Earlier a b)
  | some d, some d' => inferInstanceAs (Decidable (Earlier d d'))
  | none, none => isFalse id
  | none, some _ => isFalse id
  | some _, none => isFalse id

theorem dateBefore_irrefl (hirrefl : ∀ d, ¬ Earlier d d) (a : Option Text) :
    ¬ DateBefore Earlier a a := by
  cases a with
  | none => exact id
  | some d => exact hirrefl d

/-- The season pages of a stock with the day rows `days`, newest first, and the dates of each
season before those of the later ones, for any order of dates. -/
structure Published (num : Numerals F) (Earlier : Text → Text → Prop) (fetch : Text → Page) (stock : Text)
    (days : Text → List Block) : Prop where
  page : ∀ url ∈ pageUrls stock, ∃ title heading others,
    fetch url = some ((title :: heading :: days url) :: others)
  wellFormed : ∀ url ∈ pageUrls stock, ∀ day ∈ days url, WellFormedDay num day
  newestFirst : ∀ url ∈ pageUrls stock, (days url).Pairwise fun day day' =>
    DateBefore Earlier (dayDate day') (dayDate day)
  seasons : (pageUrls stock).Pairwise fun url url' => ∀ day ∈ days url, ∀ day' ∈ days url',
    DateBefore Earlier (dayDate day) (dayDate day')

/-- The row `r` holds the day row under the right columns. -/
structure StoredAs (stock : Text) (day : Block) (r : StoredRow) : Prop where
  code : r.lookup "code".toList = some stock
  date : r.lookup "date".toList = dayDate day
  todayStart : r.lookup "today_start".toList = itemText day 1
  todayMax : r.lookup "today_max".toList = itemText day 2
  todayClose : r.lookup "today_close".toList = itemText day 3
  todayMin : r.lookup "today_min".toList = itemText day 4
  todayDealVolume : r.lookup "today_deal_volume".toList = itemText day 5
  todayDealCNY : r.lookup "today_deal_CNY".toList = itemText day 6

/-! ## One day -/

theorem Plain.carried {t : Text} (h : Plain t) : Carried '"' t := carried_of_plain h

theorem WellFormedDay.parse (hnum : Divides num) {day : Block} (h : WellFormedDay num day) :
    ∃ info, parseDayStockInfo num day = some info ∧
      ∀ t ∈ [info.todayStart, info.todayClose, info.todayMax, info.todayMin, info.todayDealVolume,
        info.todayDealCNY, info.averagePrice, info.date], Plain t := by
  obtain ⟨token, h0, hdate⟩ := h.tokens 0 (by omega)
  obtain ⟨todayStart, h1, hstart⟩ := h.tokens 1 (by omega)
  obtain ⟨todayMax, h2, hmax⟩ := h.tokens 2 (by omega)
  obtain ⟨todayClose, h3, hclose⟩ := h.tokens 3 (by omega)
  obtain ⟨todayMin, h4, hmin⟩ := h.tokens 4 (by omega)
  obtain ⟨volume, h5, hvolume⟩ := h.tokens 5 (by omega)
  obtain ⟨turnover, h6, hturnover⟩ := h.tokens 6 (by omega)
  obtain ⟨n, hn, hzero, hrange⟩ := h.volume
  obtain ⟨x, hx⟩ := Option.isSome_iff_exists.mp h.turnover
  rw [h5, Option.bind_some] at hn
  rw [h6, Option.bind_some] at hx
  obtain ⟨price, hdivide, hprice⟩ := hnum x n hzero hrange
  have haverage : averagePrice num turnover volume = some price := by
    simp [averagePrice, hx, hn, hzero, hdivide]
  have hdashless : Plain (token.filter (· ≠ '-')) := fun c hc => hdate c (List.mem_filter.mp hc).1
  refine ⟨⟨token.filter (· ≠ '-'), todayStart, todayMax, todayClose, todayMin, volume, turnover, price⟩,
    ?_, ?_⟩
  · simp [parseDayStockInfo, h0, h1, h2, h3, h4, h5, h6, haverage]
  · intro t ht
    simp only [List.mem_cons, List.not_mem_nil, or_false] at ht
    rcases ht with rfl | rfl | rfl | rfl | rfl | rfl | rfl | rfl
    · exact hstart
    · exact hclose
    · exact hmax
    · exact hmin
    · exact hvolume
    · exact hturnover
    · exact hprice
    · exact hdashless

/-- The row that a day row is stored as. -/
def dayRow (num : Numerals F) (stock : Text) (day : Block) : StoredRow :=
  ((dayCall num stock day).map Prod.snd).getD []

theorem dayCall_eq (hnum : Divides num) {day : Block} (h : WellFormedDay num day) (stock : Text) :
    dayCall num stock day = some (tableOf stock, dayRow num stock day) := by
  obtain ⟨info, hparse, -⟩ := h.parse hnum
  simp only [dayRow, dayCall, hparse, Option.map_some, Option.getD_some]

theorem dayRow_storedAs (hnum : Divides num) {day : Block} (h : WellFormedDay num day) (stock : Text) :
    StoredAs stock day (dayRow num stock day) := by
  obtain ⟨info, hparse, -⟩ := h.parse hnum
  obtain ⟨hdate, hstart, hmax, hclose, hmin, hvolume, hturnover, -⟩ := parseDayStockInfo_cases hparse
  have hrow : dayRow num stock day = historyRow stock [] info.todayStart info.todayMax info.todayClose
      info.todayMin info.todayDealVolume info.todayDealCNY info.averagePrice info.date := by
    simp only [dayRow, dayCall, hparse, Option.map_some, Option.getD_some]
  rw [hrow, historyRow_eq]
  exact ⟨rfl, hdate.symm, hstart.symm, hmax.symm, hclose.symm, hmin.symm, hvolume.symm, hturnover.symm⟩

/-! ## The part of a run for one stock -/

/-- The statement for a well-formed day row inserts its row. -/
theorem getStockAndStoreIntoDb_execute (hnum : Divides num) (hword : ∀ c ∈ stock, isWordChar c) {day : Block}
    (h : WellFormedDay num day) (db : Database) :
    getStockAndStoreIntoDb num (stockHistoryStoreIntoDb accepts) stock day db =
      some (db.insert accepts (tableOf stock) (dayRow num stock day)) := by
  obtain ⟨info, hparse, hplain⟩ := h.parse hnum
  have hstock : Carried '"' stock := carried_of_word (Or.inr rfl) hword
  have hcarried : ∀ t ∈ [stock, [], info.todayStart, info.todayClose, info.todayMax, info.todayMin,
      info.todayDealVolume, info.todayDealCNY, info.averagePrice, info.date], Carried '"' t := by
    intro t ht
    rcases List.mem_cons.mp ht with rfl | ht
    · exact hstock
    · rcases List.mem_cons.mp ht with rfl | ht
      · trivial
      · exact (hplain t ht).carried
  simp only [getStockAndStoreIntoDb, dayRow, dayCall, hparse, Option.bind_eq_bind, Option.bind_some,
    Option.map_some, Option.getD_some]
  rw [execute_history (tableOf_word hword) hcarried]
  rfl

theorem storeDays_execute (hnum : Divides num) (hword : ∀ c ∈ stock, isWordChar c) {blocks : List Block}
    (h : ∀ day ∈ blocks, WellFormedDay num day) (db : Database) :
    storeDays num (stockHistoryStoreIntoDb accepts) stock blocks db =
      storeDays num (insertHistory accepts) stock blocks db := by
  induction blocks generalizing db with
  | nil => simp only [storeDays]
  | cons day rest ih =>
    have hday := h day List.mem_cons_self
    obtain ⟨info, hparse, -⟩ := hday.parse hnum
    have hinsert : getStockAndStoreIntoDb num (insertHistory accepts) stock day db =
        some (db.insert accepts (tableOf stock) (dayRow num stock day)) := by
      simp only [getStockAndStoreIntoDb, dayRow, dayCall, hparse, Option.bind_eq_bind, Option.bind_some,
        Option.map_some, Option.getD_some]
      rfl
    simp only [storeDays, getStockAndStoreIntoDb_execute hnum hword hday, hinsert]
    exact ih (fun day' hday' => h day' (List.mem_cons_of_mem day hday')) _

theorem Published.dayStockBlock {days : Text → List Block} (h : Published num Earlier fetch stock days) {url : Text}
    (hurl : url ∈ pageUrls stock) : dayStockBlock (fetch url) = (days url).reverse := by
  obtain ⟨title, heading, others, hpage⟩ := h.page url hurl
  rw [hpage]
  rfl

theorem Published.wellFormedRows {days : Text → List Block} (h : Published num Earlier fetch stock days) :
    ∀ day ∈ dayRows fetch stock, WellFormedDay num day := by
  intro day hday
  obtain ⟨url, hurl, hday⟩ := List.mem_flatMap.mp hday
  rw [h.dayStockBlock hurl, List.mem_reverse] at hday
  exact h.wellFormed url hurl day hday

/-- The day rows are processed oldest first. -/
theorem Published.ascending {days : Text → List Block} (h : Published num Earlier fetch stock days) :
    (dayRows fetch stock).Pairwise fun day day' => DateBefore Earlier (dayDate day) (dayDate day') := by
  refine List.pairwise_flatMap.mpr ⟨fun url hurl => ?_, ?_⟩
  · rw [h.dayStockBlock hurl, List.pairwise_reverse]
    exact h.newestFirst url hurl
  · refine h.seasons.imp_of_mem fun hurl hurl' hbefore day hday day' hday' => ?_
    rw [h.dayStockBlock hurl, List.mem_reverse] at hday
    rw [h.dayStockBlock hurl', List.mem_reverse] at hday'
    exact hbefore day hday day' hday'

/-- The inserts for a stock with well-formed day rows. -/
theorem stockCalls_eq (hnum : Divides num) (h : ∀ day ∈ dayRows fetch stock, WellFormedDay num day) :
    stockCalls num fetch stock =
      (dayRows fetch stock).map fun day => (tableOf stock, dayRow num stock day) := by
  rw [dayRows, List.map_flatMap]
  refine List.flatMap_congr fun url hurl => untilError_eq_map fun day hday => ?_
  exact dayCall_eq hnum (h day (List.mem_flatMap.mpr ⟨url, hurl, hday⟩)) stock

theorem mainStock_execute (hnum : Divides num) (hword : ∀ c ∈ stock, isWordChar c)
    (h : ∀ day ∈ dayRows fetch stock, WellFormedDay num day) (db : Database) :
    mainStock num (stockHistoryStoreIntoDb accepts) fetch db stock =
      db.insertAll accepts ((dayRows fetch stock).map fun day => (tableOf stock, dayRow num stock day)) := by
  rw [← stockCalls_eq hnum h, ← mainStock_eq, mainStock_urls, mainStock_urls]
  refine List.foldl_ext _ _ _ fun db url hurl => storeDays_execute hnum hword (fun day hday => ?_) db
  exact h day (List.mem_flatMap.mpr ⟨url, hurl, hday⟩)

/-- The part of a run for a stock stores exactly its day rows in an empty table. -/
theorem mainStock_complete (hnum : Divides num) (hirrefl : ∀ d, ¬ Earlier d d) (hword : ∀ c ∈ stock, isWordChar c)
    {days : Text → List Block} (h : Published num Earlier fetch stock days)
    (haccepts : ∀ day ∈ dayRows fetch stock, accepts (dayRow num stock day) = true) {db : Database}
    (hempty : db.table (tableOf stock) = some KeyedTable.empty) :
    ∃ t, (mainStock num (stockHistoryStoreIntoDb accepts) fetch db stock).table (tableOf stock) = some t ∧
      t.rows = (dayRows fetch stock).map (dayRow num stock) := by
  have hrows : Tables.rowsFor (tableOf stock)
      ((dayRows fetch stock).map fun day => (tableOf stock, dayRow num stock day)) =
      (dayRows fetch stock).map (dayRow num stock) := by
    rw [Tables.rowsFor, List.filter_eq_self.mpr]
    · rw [List.map_map]
      rfl
    · intro call hcall
      obtain ⟨day, -, rfl⟩ := List.mem_map.mp hcall
      simp
  rw [mainStock_execute hnum hword h.wellFormedRows, Tables.table_insertAll, hempty, hrows, Option.map_some]
  refine ⟨_, rfl, ?_⟩
  rw [KeyedTable.insertAll_fresh]
  · rfl
  · intro r hr
    obtain ⟨day, hday, rfl⟩ := List.mem_map.mp hr
    exact haccepts day hday
  · -- the dates tell the rows apart
    rw [List.map_map]
    refine List.pairwise_map.mpr (h.ascending.imp_of_mem fun hday hday' hbefore heq => ?_)
    have hdate := (dayRow_storedAs hnum (h.wellFormedRows _ hday) stock).date
    have hdate' := (dayRow_storedAs hnum (h.wellFormedRows _ hday') stock).date
    have hsame : dayDate _ = dayDate _ := hdate.symm.trans ((Prod.mk.inj heq).2.trans hdate')
    rw [hsame] at hbefore
    exact dateBefore_irrefl hirrefl _ hbefore
  · intro r _ hhas
    cases hhas

/-! ## The rest of a run -/

theorem storeDays_table {other : Text} (hword : ∀ c ∈ stock, isWordChar c) (hne : other ≠ tableOf stock)
    (blocks : List Block) (db : Database) :
    (storeDays num (stockHistoryStoreIntoDb accepts) stock blocks db).table other = db.table other := by
  induction blocks generalizing db with
  | nil => simp only [storeDays]
  | cons block rest ih =>
    unfold storeDays getStockAndStoreIntoDb
    cases parseDayStockInfo num block with
    | none => rfl
    | some info => exact (ih _).trans (execute_history_table (tableOf_word hword) hne)

theorem foldl_table {α : Type} {f : Database → α → Database} {table : Text} {xs : List α}
    (h : ∀ x ∈ xs, ∀ db : Database, (f db x).table table = db.table table) (db : Database) :
    (xs.foldl f db).table table = db.table table := by
  induction xs generalizing db with
  | nil => rfl
  | cons x xs ih =>
    rw [List.foldl_cons, ih fun y hy => h y (List.mem_cons_of_mem x hy)]
    exact h x List.mem_cons_self db

/-- The part of a run for another stock leaves the table as it is, whatever its pages hold. -/
theorem mainStock_table {other : Text} (hword : ∀ c ∈ stock, isWordChar c) (hne : other ≠ stock)
    (db : Database) :
    (mainStock num (stockHistoryStoreIntoDb accepts) fetch db stock).table (tableOf other) =
      db.table (tableOf other) := by
  have htable : tableOf other ≠ tableOf stock := fun heq => hne (List.append_cancel_left heq)
  rw [mainStock_urls]
  exact foldl_table (fun url _ db => storeDays_table hword htable _ db) db

theorem getStockList_word : ∀ stock ∈ getStockList, ∀ c ∈ stock, isWordChar c := by
  have hall : getStockList.all (fun stock => stock.all isWordChar) = true := by decide
  intro stock hstock
  exact List.all_eq_true.mp (List.all_eq_true.mp hall stock hstock)

theorem getStockList_nodup : getStockList.Nodup := by decide

/-- A run stores the published day rows of a stock: starting from an empty table, one row for
each of them, in ascending order of their dates, with the values under the right columns. -/
theorem history_complete (hnum : Divides num) (hirrefl : ∀ d, ¬ Earlier d d)
    (hstock : stock ∈ getStockList) {days : Text → List Block}
    (h : Published num Earlier fetch stock days)
    (haccepts : ∀ day ∈ dayRows fetch stock, accepts (dayRow num stock day) = true) {db : Database}
    (hempty : db.table (tableOf stock) = some KeyedTable.empty) :
    ∃ t, (main num (stockHistoryStoreIntoDb accepts) fetch db).table (tableOf stock) = some t ∧
      List.Forall₂ (StoredAs stock) ((pageUrls stock).flatMap fun url => (days url).reverse) t.rows ∧
      t.rows.Pairwise fun r r' => DateBefore Earlier (r.lookup "date".toList) (r'.lookup "date".toList) := by
  obtain ⟨before, after, hlist⟩ := List.append_of_mem hstock
  have hnodup := getStockList_nodup
  rw [hlist, List.nodup_middle, List.nodup_cons, List.mem_append, not_or] at hnodup
  have hword : ∀ s ∈ before ++ stock :: after, ∀ c ∈ s, isWordChar c := by
    rw [← hlist]
    exact getStockList_word
  have hothers : ∀ part : List Text, (∀ s ∈ part, s ∈ before ++ stock :: after) → stock ∉ part →
      ∀ db : Database, (part.foldl (mainStock num (stockHistoryStoreIntoDb accepts) fetch) db).table
        (tableOf stock) = db.table (tableOf stock) := by
    intro part hpart hnot db
    refine foldl_table (fun s hs db => mainStock_table (hword s (hpart s hs)) ?_ db) db
    rintro rfl
    exact hnot hs
  have hdays : dayRows fetch stock = (pageUrls stock).flatMap fun url => (days url).reverse :=
    List.flatMap_congr fun url hurl => h.dayStockBlock hurl
  have hbefore := hothers before (fun s hs => List.mem_append_left _ hs) hnodup.1.1 db
  obtain ⟨t, ht, hrows⟩ := mainStock_complete hnum hirrefl (hword stock (by simp)) h
    haccepts
    (hbefore.trans hempty)
  refine ⟨t, ?_, ?_, ?_⟩
  · rw [main, hlist, List.foldl_append, List.foldl_cons,
      hothers after (fun s hs => by simp [hs]) hnodup.1.2]
    exact ht
  · rw [← hdays, hrows, List.forall₂_map_right_iff, List.forall₂_same]
    exact fun day hday => dayRow_storedAs hnum (h.wellFormedRows day hday) stock
  · rw [hrows, List.pairwise_map]
    refine h.ascending.imp_of_mem fun hday hday' hlt => ?_
    rw [(dayRow_storedAs hnum (h.wellFormedRows _ hday) stock).date,
      (dayRow_storedAs hnum (h.wellFormedRows _ hday') stock).date]
    exact hlt

/-! ## Three days in two seasons -/

theorem plain_intText (z : Int) : Plain (intText z) := by
  have hdigits : ∀ n, Plain (natText n) := by
    intro n c hc
    have hdigit : c.isDigit := natText_isDigit hc
    constructor
    · rintro rfl
      exact absurd hdigit (by decide)
    · rintro rfl
      exact absurd hdigit (by decide)
  cases z with
  | ofNat n => exact hdigits n
  | negSucc n =>
    intro c hc
    rcases List.mem_cons.mp hc with rfl | hc
    · decide
    · exact hdigits (n + 1) c hc

theorem wholeNumerals_divides : Divides wholeNumerals := by
  intro x n _ _
  have hfraction : Plain ".0".toList := by decide
  refine ⟨_, rfl, fun c hc => ?_⟩
  rcases List.mem_append.mp hc with hc | hc
  · exact plain_intText _ c hc
  · exact hfraction c hc

def daysExample (url : Text) : List Block :=
  if url = stockUrl queryUrl "sh601857".toList "2019".toList "1".toList then
    [dayExample "2019-03-02".toList, dayExample "2019-03-01".toList]
  else if url = stockUrl queryUrl "sh601857".toList "2019".toList "2".toList then
    [dayExample "2019-06-03".toList]
  else []

def seasonsExample (url : Text) : Page := some [heading :: heading :: daysExample url]

theorem seasonsExample_published :
    Published wholeNumerals (· < ·) seasonsExample "sh601857".toList daysExample := by
  have htokens : ∀ url ∈ pageUrls "sh601857".toList, ∀ day ∈ daysExample url, ∀ i < 7,
      (itemText day i).map (fun token => token.all fun c => c ≠ '"' ∧ c ≠ '\\') = some true := by
    decide +kernel
  have hvolume : ∀ url ∈ pageUrls "sh601857".toList, ∀ day ∈ daysExample url,
      (itemText day 5).bind wholeNumerals.int = some 100 := by
    decide +kernel
  refine ⟨fun url _ => ⟨heading, heading, [], rfl⟩, fun url hurl day hday => ⟨?_, ?_, ?_⟩, ?_, ?_⟩
  · intro i hi
    obtain ⟨token, htoken, hplain⟩ := Option.map_eq_some_iff.mp (htokens url hurl day hday i hi)
    exact ⟨token, htoken, fun c hc => of_decide_eq_true (List.all_eq_true.mp hplain c hc)⟩
  · exact ⟨100, hvolume url hurl day hday, by decide, by decide⟩
  · revert url day
    decide +kernel
  · decide +kernel
  · decide +kernel

theorem history_complete_example :
    ∃ t, (main wholeNumerals (stockHistoryStoreIntoDb acceptsAll) seasonsExample databaseExample).table
        (tableOf "sh601857".toList) = some t ∧
      List.Forall₂ (StoredAs "sh601857".toList) [dayExample "2019-03-01".toList,
        dayExample "2019-03-02".toList, dayExample "2019-06-03".toList] t.rows := by
  have hirrefl : ∀ d : Text, ¬ d < d := fun d => List.lt_irrefl d
  have haccepts : ∀ day ∈ dayRows seasonsExample "sh601857".toList,
      acceptsAll (dayRow wholeNumerals "sh601857".toList day) = true := fun _ _ => rfl
  have hempty : databaseExample.table (tableOf "sh601857".toList) = some KeyedTable.empty := rfl
  obtain ⟨t, ht, hrows, -⟩ := history_complete wholeNumerals_divides hirrefl (by decide)
    seasonsExample_published haccepts hempty
  have hdays : (pageUrls "sh601857".toList).flatMap (fun url => (daysExample url).reverse) =
      [dayExample "2019-03-01".toList, dayExample "2019-03-02".toList,
        dayExample "2019-06-03".toList] := by
    decide +kernel
  rw [hdays] at hrows
  exact ⟨t, ht, hrows⟩

end RedisLuaLinux.Python
