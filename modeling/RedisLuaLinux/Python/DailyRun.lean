import RedisLuaLinux.Python.Daily

/-!
# A daily run on the created database

`sql_db.sql` creates the tables of seven stocks, with the same columns; the run goes over
thirteen stocks.

* `sentPage_iff`: what the statement of a complete page inserts.
* `main_table`: a run on a work day, for one table.
* `main_stores_listed`: a listed stock has its row after the run if and only if there is a table for
  it and no text of its page ends by escaping the closing quote.
-/

namespace RedisLuaLinux.Python.Daily

open Library

/-! ## The schema -/

inductive ColumnType
  | varchar (n : Nat)
  | float

/-- The character set `utf8` has the characters of up to three bytes. -/
def varcharHolds (n : Nat) (t : Text) : Bool := t.length ≤ n && t.all fun c => c.toNat < 0x10000

/-- The texts that a column takes; `isNumber` are those that are taken for a number. -/
def ColumnType.holds (isNumber : Text → Bool) : ColumnType → Text → Bool
  | varchar n, t => varcharHolds n t
  | float, t => isNumber t

structure Column where
  name : Text
  type : ColumnType
  notNull : Bool

/-- The columns of each table but its `id`. -/
def stockColumns : List Column :=
  [⟨"code".toList, .varchar 16, true⟩, ⟨"name".toList, .varchar 16, false⟩,
    ⟨"close_price".toList, .float, false⟩, ⟨"today_change".toList, .float, false⟩,
    ⟨"today_change_rate".toList, .varchar 8, false⟩, ⟨"today_start".toList, .float, false⟩,
    ⟨"today_peak".toList, .float, false⟩, ⟨"today_low".toList, .float, false⟩,
    ⟨"yesterday_end".toList, .float, false⟩, ⟨"trust_rate".toList, .varchar 8, false⟩,
    ⟨"exchange_rate".toList, .varchar 8, false⟩, ⟨"range_rate".toList, .varchar 8, false⟩,
    ⟨"deal_volume".toList, .varchar 8, false⟩, ⟨"date".toList, .varchar 32, true⟩]

def cellFits (isNumber : Text → Bool) (cell : Text × Text) : Bool :=
  match stockColumns.find? fun column => column.name = cell.1 with
  | none => false
  | some column => column.type.holds isNumber cell.2

/-- The values of a row fit its columns, and none is missing that has no default. -/
def rowFits (isNumber : Text → Bool) (r : StoredRow) : Bool :=
  r.all (cellFits isNumber) &&
    stockColumns.all fun column => !column.notNull || (r.lookup column.name).isSome

def createdTables : List Text :=
  ["stock_date_sh601857".toList, "stock_date_sh600175".toList, "stock_date_sh601169".toList,
    "stock_date_sh600266".toList, "stock_date_sh600050".toList, "stock_date_sh600008".toList,
    "stock_date_sh601992".toList]

/-- The database that `sql_db.sql` creates. -/
def createdDatabase : Database :=
  ⟨fun name => if createdTables.contains name then some KeyedTable.empty else none⟩

/-! ## Fitting texts -/

section Fits

variable {isNumber : Text → Bool} {t u : Text}

theorem unescape_utf8 (c : Char) (hc : c.toNat < 0x10000) : ∀ d ∈ unescape c, d.toNat < 0x10000 := by
  unfold unescape
  split_ifs <;> simp [hc]

theorem varcharHolds_literal {n : Nat} (h : varcharHolds n t = true) (hu : literalText t = some u) :
    varcharHolds n u = true := by
  have hlength := literalText_length hu
  simp only [varcharHolds, Bool.and_eq_true, decide_eq_true_eq, List.all_eq_true] at h ⊢
  exact ⟨by omega, literalText_forall unescape_utf8 h.2 hu⟩

/-- Numbers have no backslashes. -/
theorem cellFits_literal (hnumber : ∀ t, isNumber t = true → '\\' ∉ t) {name : Text}
    (h : cellFits isNumber (name, t) = true) (hu : literalText t = some u) :
    cellFits isNumber (name, u) = true := by
  unfold cellFits at h ⊢
  split at h
  · cases h
  · rename_i column hcolumn
    rw [hcolumn]
    cases htype : column.type with
    | varchar n =>
      rw [htype] at h
      simp only [htype]
      exact varcharHolds_literal h hu
    | float =>
      rw [htype] at h
      simp only [htype]
      rw [literalText_plain (hnumber t h)] at hu
      cases hu
      exact h

end Fits

/-! ## The statement of a page -/

/-- The row that the statement for a page inserts. -/
def sentPage (html : Page) (stock date : Text) : Option StoredRow :=
  (dailyPrices html).bind fun p => sentRow (stockStoreSql (tableOf stock) stock p.name p.closePrice
    p.todayChange p.todayChangeRate p.todayStart p.todayPeak p.todayLow p.yesterdayEnd p.trustRate
    p.exchangeRate p.rangeRate p.dealVolume date)

/-- A page with all the fields, whose texts have no quotes and fit their columns. -/
structure CompletePage (isNumber : Text → Bool) (html : Page) (p : DailyPrices) : Prop where
  prices : dailyPrices html = some p
  quoteless : ∀ cell ∈ p.cells, Quoteless cell.2
  fits : ∀ cell ∈ p.cells, cellFits isNumber cell = true

/-- What the literals of the prices stand for, if each of them ends at its closing quote. -/
def DailyPrices.literal (p : DailyPrices) : Option DailyPrices := do
  let name ← literalText p.name
  let closePrice ← literalText p.closePrice
  let todayChange ← literalText p.todayChange
  let todayChangeRate ← literalText p.todayChangeRate
  let todayStart ← literalText p.todayStart
  let todayPeak ← literalText p.todayPeak
  let todayLow ← literalText p.todayLow
  let yesterdayEnd ← literalText p.yesterdayEnd
  let trustRate ← literalText p.trustRate
  let exchangeRate ← literalText p.exchangeRate
  let rangeRate ← literalText p.rangeRate
  let dealVolume ← literalText p.dealVolume
  some ⟨name, closePrice, todayChange, todayChangeRate, todayStart, todayPeak, todayLow, yesterdayEnd,
    trustRate, exchangeRate, rangeRate, dealVolume⟩

section Page

variable {isNumber : Text → Bool} {html : Page} {p p' : DailyPrices} {stock date : Text}

theorem forall_of_forall₂ {α β : Type} {R : α → β → Prop} {P : α → Prop} {as : List α} {bs : List β}
    (h : List.Forall₂ R as bs) (hR : ∀ a b, R a b → P a) : ∀ a ∈ as, P a := by
  have hboth : List.Forall₂ (fun a b => P a ∧ R a b) as bs := h.imp fun a b hab => ⟨hR a b hab, hab⟩
  exact ((List.forall₂_and_left as bs).mp hboth).1

/-- The columns stay, and each value is what its literal stands for. -/
theorem literal_cells (h : p.literal = some p') :
    List.Forall₂ (fun cell cell' => cell'.1 = cell.1 ∧ literalText cell.2 = some cell'.2) p.cells p'.cells := by
  simp only [DailyPrices.literal, Option.bind_eq_bind, Option.bind_eq_some_iff, Option.some.injEq] at h
  obtain ⟨name, hname, closePrice, hclose, todayChange, hchange, todayChangeRate, hchangeRate, todayStart,
    hstart, todayPeak, hpeak, todayLow, hlow, yesterdayEnd, hyesterday, trustRate, htrust, exchangeRate,
    hexchange, rangeRate, hrange, dealVolume, hvolume, rfl⟩ := h
  simp [DailyPrices.cells, *]

theorem exists_literal (h : ∀ cell ∈ p.cells, (literalText cell.2).isSome) : ∃ p', p.literal = some p' := by
  simp only [DailyPrices.cells, List.forall_mem_cons, Option.isSome_iff_exists] at h
  obtain ⟨⟨name, hname⟩, ⟨closePrice, hclose⟩, ⟨todayChange, hchange⟩, ⟨todayChangeRate, hchangeRate⟩,
    ⟨todayStart, hstart⟩, ⟨todayPeak, hpeak⟩, ⟨todayLow, hlow⟩, ⟨yesterdayEnd, hyesterday⟩,
    ⟨trustRate, htrust⟩, ⟨exchangeRate, hexchange⟩, ⟨rangeRate, hrange⟩, ⟨dealVolume, hvolume⟩, -⟩ := h
  simp [DailyPrices.literal, *]

theorem literal_isSome_iff : p.literal.isSome ↔ ∀ cell ∈ p.cells, (literalText cell.2).isSome := by
  constructor
  · intro h
    obtain ⟨p', hp'⟩ := Option.isSome_iff_exists.mp h
    refine forall_of_forall₂ (literal_cells hp') fun cell cell' hcell => ?_
    rw [hcell.2, Option.isSome_some]
  · intro h
    exact Option.isSome_iff_exists.mpr (exists_literal h)

/-- The values of the statement, with the code and the date, which are plain. -/
theorem literal_iff (hstock : literalText stock = some stock) (hdate : literalText date = some date)
    {vs : List Text} :
    List.Forall₂ (fun t v => literalText t = some v) (stock :: (p.cells.map Prod.snd ++ [date])) vs ↔
      ∃ p', p.literal = some p' ∧ vs = stock :: (p'.cells.map Prod.snd ++ [date]) := by
  have hvalues : ∀ p', p.literal = some p' → List.Forall₂ (fun t v => literalText t = some v)
      (stock :: (p.cells.map Prod.snd ++ [date])) (stock :: (p'.cells.map Prod.snd ++ [date])) := by
    intro p' hp'
    refine .cons hstock (List.rel_append ?_ (.cons hdate .nil))
    exact List.forall₂_map_left_iff.mpr (List.forall₂_map_right_iff.mpr
      ((literal_cells hp').imp fun _ _ hcell => hcell.2))
  constructor
  · intro h
    have hsome : ∀ cell ∈ p.cells, (literalText cell.2).isSome := by
      intro cell hcell
      have hall : ∀ t ∈ stock :: (p.cells.map Prod.snd ++ [date]), (literalText t).isSome := by
        refine forall_of_forall₂ h fun t v htv => ?_
        rw [htv, Option.isSome_some]
      exact hall cell.2 (List.mem_cons_of_mem _ (List.mem_append_left _ (List.mem_map_of_mem hcell)))
    obtain ⟨p', hp'⟩ := exists_literal hsome
    refine ⟨p', hp', List.right_unique_forall₂' ?_ h (hvalues p' hp')⟩
    intro t v v' hv hv'
    exact Option.some.inj (hv.symm.trans hv')
  · rintro ⟨p', hp', rfl⟩
    exact hvalues p' hp'

theorem literal_fits (hnumber : ∀ t, isNumber t = true → '\\' ∉ t)
    (h : ∀ cell ∈ p.cells, cellFits isNumber cell = true) (hp' : p.literal = some p') :
    ∀ cell ∈ p'.cells, cellFits isNumber cell = true := by
  have hboth := (List.forall₂_and_left _ _).mpr ⟨h, literal_cells hp'⟩
  refine forall_of_forall₂ (List.Forall₂.flip hboth) ?_
  rintro ⟨_, u⟩ ⟨name, t⟩ ⟨hfit, rfl, hu⟩
  exact cellFits_literal hnumber hfit hu

theorem isTableName_tableOf (hstock : ∀ c ∈ stock, isWordChar c) : IsTableName (tableOf stock) :=
  ⟨stock, hstock, Or.inl rfl⟩

theorem literalText_word {t : Text} (h : ∀ c ∈ t, isWordChar c) : literalText t = some t := by
  apply literalText_plain
  intro hmem
  exact absurd (h _ hmem) (by decide)

/-- The statement inserts the row of what the literals stand for. -/
theorem sentPage_eq (hstock : ∀ c ∈ stock, isWordChar c) (hdate : ∀ c ∈ date, isWordChar c)
    (h : CompletePage isNumber html p) :
    sentPage html stock date = p.literal.map fun p' => p'.row stock date := by
  ext r
  have hquoteless : ∀ t ∈ stock :: (p.cells.map Prod.snd ++ [date]), Quoteless t := by
    intro t ht
    rcases List.mem_cons.mp ht with rfl | ht
    · exact quoteless_of_word hstock
    · rcases List.mem_append.mp ht with ht | ht
      · obtain ⟨cell, hcell, rfl⟩ := List.mem_map.mp ht
        exact h.quoteless cell hcell
      · rw [List.mem_singleton.mp ht]
        exact quoteless_of_word hdate
  have hsent : sentPage html stock date = some r ↔ ∃ vs, List.Forall₂ (fun t v => literalText t = some v)
      (stock :: (p.cells.map Prod.snd ++ [date])) vs ∧ r = stockInsert.columns.zip vs := by
    rw [sentPage, h.prices, Option.bind_some, sentRow_iff]
    constructor
    · rintro ⟨i, hi, rfl⟩
      obtain ⟨vs, hvs, rfl⟩ := (stockStoreSql_quoteless (isTableName_tableOf hstock) hquoteless).mp hi
      exact ⟨vs, hvs, rfl⟩
    · rintro ⟨vs, hvs, rfl⟩
      exact ⟨_, (stockStoreSql_quoteless (isTableName_tableOf hstock) hquoteless).mpr ⟨vs, hvs, rfl⟩, rfl⟩
  simp only [hsent, literal_iff (literalText_word hstock) (literalText_word hdate), Option.map_eq_some_iff]
  constructor
  · rintro ⟨_, ⟨p', hp', rfl⟩, rfl⟩
    exact ⟨p', hp', rfl⟩
  · rintro ⟨p', hp', rfl⟩
    exact ⟨_, ⟨p', hp', rfl⟩, rfl⟩

end Page

/-! ## A run -/

section Run

variable {accepts : StoredRow → Bool} {isNumber : Text → Bool} {fetch : Text → Page} {now : LocalTime}
  {stock : Text}

theorem getStockList_word : ∀ stock ∈ getStockList, ∀ c ∈ stock, isWordChar c := by
  have hall : getStockList.all (fun stock => stock.all isWordChar) = true := by decide
  intro stock hstock
  exact List.all_eq_true.mp (List.all_eq_true.mp hall stock hstock)

theorem mem_leftpad {n : Nat} {a b : Char} {t : Text} (h : b ∈ t.leftpad n a) : b = a ∨ b ∈ t := by
  rcases List.mem_append.mp h with h | h
  · exact Or.inl (List.eq_of_mem_replicate h)
  · exact Or.inr h

theorem date_isDigit {c : Char} (h : c ∈ now.date) : c.isDigit := by
  rcases List.mem_append.mp h with h | h
  · rcases List.mem_append.mp h with h | h
    · exact natText_isDigit h
    · rcases mem_leftpad h with rfl | h
      · rfl
      · exact natText_isDigit h
  · rcases mem_leftpad h with rfl | h
    · rfl
    · exact natText_isDigit h

theorem date_word : ∀ c ∈ now.date, isWordChar c := by
  intro c hc
  simp [isWordChar, Char.isAlphanum, date_isDigit hc]

theorem date_utf8 {c : Char} (h : c ∈ now.date) : c.toNat < 0x10000 := by
  have hdigit := date_isDigit h
  simp only [Char.isDigit, Bool.and_eq_true, decide_eq_true_eq] at hdigit
  have hle : c.val.toNat ≤ 57 := hdigit.2
  exact Nat.lt_of_le_of_lt hle (by decide)

theorem date_length : now.date.length ≤ 32 := by
  have hyear : (natText now.year).length ≤ 10 :=
    (Nat.length_toDigits_le_iff (by decide) (by decide)).mpr now.year_lt
  have hmonth : (natText now.month).length ≤ 2 :=
    (Nat.length_toDigits_le_iff (by decide) (by decide)).mpr (Nat.lt_of_le_of_lt now.month_le (by decide))
  have hday : (natText now.day).length ≤ 2 :=
    (Nat.length_toDigits_le_iff (by decide) (by decide)).mpr (Nat.lt_of_le_of_lt now.day_le (by decide))
  simp only [LocalTime.date, List.length_append, List.length_leftpad]
  omega

theorem storePage_send (hstock : ∀ c ∈ stock, isWordChar c) (html : Page) (date : Text) (db : Database) :
    storePage (stockStoreIntoDb accepts) html stock date db =
      db.modify (tableOf stock) (KeyedTable.gain accepts (sentPage html stock date)) := by
  unfold storePage sentPage
  cases dailyPrices html with
  | none => exact Tables.modify_id.symm
  | some p =>
    rw [Option.elim_some, Option.bind_some, stockStoreIntoDb]
    apply execute_modify
    intro i hi
    exact stockStoreSql_table (isTableName_tableOf hstock) hi

/-- A run on a work day, for the table of one listed stock. -/
theorem main_table (hwork : ¬ (now.weekday = 6 ∨ now.weekday = 0)) (hstock : stock ∈ getStockList)
    (db : Database) :
    (main (stockStoreIntoDb accepts) fetch now db).1.table (tableOf stock) =
      (db.table (tableOf stock)).map
        (KeyedTable.gain accepts (sentPage (fetch (stockUrl stockInfoUrl stock)) stock now.date)) := by
  have hgain : ∀ (stock : Text) (t : KeyedTable rowKey),
      (t.gain accepts (sentPage (fetch (stockUrl stockInfoUrl stock)) stock now.date)).gain accepts
        (sentPage (fetch (stockUrl stockInfoUrl stock)) stock now.date) =
      t.gain accepts (sentPage (fetch (stockUrl stockInfoUrl stock)) stock now.date) :=
    fun _ _ => KeyedTable.gain_gain _
  rw [← Tables.table_foldl_modify tableOf_injective hgain hstock, main, if_neg hwork, getStockInfoToDb_eq]
  congr 1
  refine List.foldl_ext _ _ db fun db stock hstock => ?_
  exact storePage_send (getStockList_word stock hstock) _ _ db

theorem row_fits (now : LocalTime) (hstock : stock ∈ getStockList) {p : DailyPrices}
    (h : ∀ cell ∈ p.cells, cellFits isNumber cell = true) :
    rowFits isNumber (p.row stock now.date) = true := by
  have hcode : cellFits isNumber ("code".toList, stock) = true := by
    have hall : ∀ stock ∈ getStockList, varcharHolds 16 stock = true := by decide
    exact hall stock hstock
  have hdate : cellFits isNumber ("date".toList, now.date) = true := by
    show varcharHolds 32 now.date = true
    simp only [varcharHolds, Bool.and_eq_true, decide_eq_true_eq, List.all_eq_true]
    exact ⟨date_length, fun c hc => date_utf8 hc⟩
  rw [DailyPrices.row_eq, rowFits, Bool.and_eq_true]
  constructor
  · rw [List.all_eq_true, List.forall_mem_cons]
    refine ⟨hcode, ?_⟩
    rw [List.forall_mem_append, List.forall_mem_singleton]
    exact ⟨h, hdate⟩
  · rfl

theorem created_table {table : Text} (h : table ∈ createdTables) :
    createdDatabase.table table = some KeyedTable.empty := if_pos (List.contains_iff_mem.mpr h)

theorem not_created_table {table : Text} (h : table ∉ createdTables) : createdDatabase.table table = none :=
  if_neg fun hmem => h (List.contains_iff_mem.mp hmem)

theorem gain_empty (row : Option StoredRow) :
    ((KeyedTable.empty : KeyedTable rowKey).gain accepts row).rows = row.toList.filter accepts := by
  cases row with
  | none => rfl
  | some r =>
    rw [KeyedTable.gain, Option.elim_some, KeyedTable.rows_insert]
    simp [KeyedTable.empty, KeyedTable.Has, List.filter_cons]

/-- On the created database, for every work day and all complete pages whose texts have no quotes
and fit their columns: a run leaves one row with the code and the date for a listed stock if and
only if its table was created and each text of its page leaves the closing quote of its literal
alone. -/
theorem main_stores_listed (hnumber : ∀ t, isNumber t = true → '\\' ∉ t)
    (hwork : ¬ (now.weekday = 6 ∨ now.weekday = 0)) {prices : Text → DailyPrices}
    (hpages : ∀ stock ∈ getStockList,
      CompletePage isNumber (fetch (stockUrl stockInfoUrl stock)) (prices stock))
    (hstock : stock ∈ getStockList) :
    (∃ t r, (main (stockStoreIntoDb (rowFits isNumber)) fetch now createdDatabase).1.table (tableOf stock) =
        some t ∧ t.rows = [r] ∧ rowKey r = (some stock, some now.date)) ↔
      tableOf stock ∈ createdTables ∧ ∀ cell ∈ (prices stock).cells, (literalText cell.2).isSome := by
  have hpage := hpages stock hstock
  rw [main_table hwork hstock, sentPage_eq (getStockList_word stock hstock) date_word hpage,
    ← literal_isSome_iff]
  constructor
  · rintro ⟨t, r, ht, hrows, -⟩
    by_cases hcreated : tableOf stock ∈ createdTables
    · refine ⟨hcreated, ?_⟩
      rw [created_table hcreated, Option.map_some, Option.some.injEq] at ht
      subst ht
      rw [gain_empty] at hrows
      cases hliteral : (prices stock).literal with
      | none =>
        rw [hliteral] at hrows
        cases hrows
      | some p' => rfl
    · rw [not_created_table hcreated] at ht
      cases ht
  · rintro ⟨hcreated, hliteral⟩
    obtain ⟨p', hp'⟩ := Option.isSome_iff_exists.mp hliteral
    have hfits := row_fits now hstock (literal_fits hnumber hpage.fits hp')
    rw [created_table hcreated, hp', Option.map_some, Option.map_some]
    refine ⟨_, p'.row stock now.date, rfl, ?_, p'.row_key stock now.date⟩
    rw [gain_empty]
    simp [hfits]

end Run

/-! ## Thirteen complete pages -/

def decimalText (t : Text) : Bool := t.all fun c => c.isDigit || c == '.' || c == '+' || c == '-'

theorem decimalText_plain (t : Text) (h : decimalText t = true) : '\\' ∉ t := by
  intro hmem
  exact absurd (List.all_eq_true.mp h _ hmem) (by decide)

def betsExample : StockBets where
  betsName := [⟨"\n ABC (600000) \n".toList, "<a class=bets-name>ABC</a>".toList⟩]
  close := ["6.69".toList]
  priceDown := []
  priceUp := [["+0.02".toList, "+0.30%".toList]]
  dd := ["6.67".toList, "48.04".toList, "6.69".toList, [], [], [], "0.38%".toList, [], [], [], [],
    "6.67".toList, "0.03%".toList, "6.64".toList, [], [], "0.75%".toList]

def pagesExample (_ : Text) : Page := some (some betsExample)

def pricesExample : DailyPrices :=
  ⟨"ABC".toList, "6.69".toList, "+0.02".toList, "+0.30%".toList, "6.67".toList, "6.69".toList, "6.64".toList,
    "6.67".toList, "0.38%".toList, "0.03%".toList, "0.75%".toList, "48.04".toList⟩

def workDayExample : LocalTime where
  year := 2019
  month := 7
  day := 12
  weekday := ⟨5, by decide⟩
  year_lt := by decide
  month_le := by decide
  day_le := by decide

theorem pagesExample_complete (url : Text) : CompletePage decimalText (pagesExample url) pricesExample := by
  have hprices : dailyPrices (some (some betsExample)) = some pricesExample := by decide +kernel
  exact ⟨hprices, by decide +kernel, by decide +kernel⟩

theorem main_stores_listed_example :
    ∃ t r, (main (stockStoreIntoDb (rowFits decimalText)) pagesExample workDayExample createdDatabase).1.table
        (tableOf "sh600175".toList) = some t ∧ t.rows = [r] ∧
      rowKey r = (some "sh600175".toList, some workDayExample.date) :=
  (main_stores_listed decimalText_plain (by decide) (fun _ _ => pagesExample_complete _) (by decide)).mpr
    ⟨by decide, by decide +kernel⟩

/-- All pages are complete, and the run stores nothing for `sh600285`. -/
theorem main_stores_listed_fails :
    (∀ stock ∈ getStockList,
      CompletePage decimalText (pagesExample (stockUrl stockInfoUrl stock)) pricesExample) ∧
    ¬ ∀ stock ∈ getStockList, ∃ t r,
      (main (stockStoreIntoDb (rowFits decimalText)) pagesExample workDayExample createdDatabase).1.table
        (tableOf stock) = some t ∧ t.rows = [r] ∧ rowKey r = (some stock, some workDayExample.date) := by
  refine ⟨fun _ _ => pagesExample_complete _, fun h => ?_⟩
  obtain ⟨t, r, ht, -⟩ := h "sh600285".toList (by decide)
  have hnone : createdDatabase.table (tableOf "sh600285".toList) = none := not_created_table (by decide)
  rw [main_table (by decide) (by decide), hnone] at ht
  cases ht

end RedisLuaLinux.Python.Daily
