import RedisLuaLinux.Library.SqlLiterals

/-!
# The INSERT statements of the stock scrapers

`stock_store_into_db` and `stock_history_store_into_db` put the scraped texts between double
quotes by percent formatting; the text is what the database is sent.

* `inserts_carry`: a statement is the INSERT of exactly the given texts if and only if each of
  them is carried, that is, has no double quote, and no backslash but before `%` or `_`.
* `inserts_carry_fails`: a quote that ends the statement early, and a backslash that is lost.
-/

namespace RedisLuaLinux.Python

open Library

theorem isSeparator_tight : IsSeparator '"' "\",\"".toList := ⟨"\"".toList, rfl, by decide⟩

theorem isSeparator_spaced : IsSeparator '"' "\", \"".toList := ⟨" \"".toList, rfl, by decide⟩

/-- The separators of both templates. -/
theorem isSeparator_of_mem (n : Nat) : ∀ sep ∈ "\",\"".toList ::
    (List.replicate 4 "\", \"".toList ++ List.replicate n "\",\"".toList), IsSeparator '"' sep := by
  intro sep hsep
  rcases List.mem_cons.mp hsep with rfl | hsep
  · exact isSeparator_tight
  · rcases List.mem_append.mp hsep with hsep | hsep
    · rw [List.eq_of_mem_replicate hsep]
      exact isSeparator_spaced
    · rw [List.eq_of_mem_replicate hsep]
      exact isSeparator_tight

/-! ## Daily prices -/

def stockTemplate : Text :=
  textOf ["insert into %s(", "code, name, ", "close_price, ", "today_change, ", "today_change_rate, ",
    "today_start,", "today_peak,", "today_low, ", "yesterday_end,", "trust_rate,\n",
    "        exchange_rate, ", "range_rate, ", "deal_volume,date) ", "values(\"%s\",\"%s\", ",
    "\"%s\", \"%s\", \"%s\", ", "\"%s\",\"%s\",\"%s\",", "\"%s\",\"%s\",\"%s\",",
    "\"%s\",\"%s\",\"%s\")"]

/-- The SQL text of `stock_store_into_db`. -/
def stockStoreSql (table code name closePrice todayChange todayChangeRate todayStart todayPeak todayLow
    yesterdayEnd trustRate exchangeRate rangeRate dealVolume date : Text) : Option Text :=
  percentFormat stockTemplate [table, code, name, closePrice, todayChange, todayChangeRate, todayStart,
    todayPeak, todayLow, yesterdayEnd, trustRate, exchangeRate, rangeRate, dealVolume, date]

def stockInsert : InsertTemplate '"' where
  template := stockTemplate
  columns := ["code".toList, "name".toList, "close_price".toList, "today_change".toList,
    "today_change_rate".toList, "today_start".toList, "today_peak".toList, "today_low".toList,
    "yesterday_end".toList, "trust_rate".toList, "exchange_rate".toList, "range_rate".toList,
    "deal_volume".toList, "date".toList]
  names := textOf ["code, name, ", "close_price, ", "today_change, ", "today_change_rate, ",
    "today_start,", "today_peak,", "today_low, ", "yesterday_end,", "trust_rate,\n",
    "        exchange_rate, ", "range_rate, ", "deal_volume,date) ", "values(\""]
  seps := "\",\"".toList :: (List.replicate 4 "\", \"".toList ++ List.replicate 8 "\",\"".toList)
  split := by decide +kernel
  run := Prod.ext (by decide +kernel) (by decide +kernel)
  separates := isSeparator_of_mem 8
  count := by decide

theorem stockInsert_template : stockInsert.template = stockTemplate := by rw [stockInsert]

/-! ## History -/

def historyTemplate : Text :=
  textOf ["insert into %s(", "code, name, ", "today_start, ", "today_close, ", "today_max, ",
    "today_min, ", "today_deal_volume, ", "today_deal_CNY, ", "average_price, date)", "     ",
    "values(\"%s\",\"%s\", ", "\"%s\", \"%s\", \"%s\", ", "\"%s\",\"%s\",\"%s\",",
    "\"%s\",\"%s\")"]

/-- The SQL text of `stock_history_store_into_db`; the parameters stand in the order of the
calls, the columns in that of the template. -/
def historyStoreSql (table code name todayStart todayMax todayClose todayMin todayDealVolume
    todayDealCNY averagePrice date : Text) : Option Text :=
  percentFormat historyTemplate [table, code, name, todayStart, todayClose, todayMax, todayMin,
    todayDealVolume, todayDealCNY, averagePrice, date]

def historyInsert : InsertTemplate '"' where
  template := historyTemplate
  columns := ["code".toList, "name".toList, "today_start".toList, "today_close".toList,
    "today_max".toList, "today_min".toList, "today_deal_volume".toList, "today_deal_CNY".toList,
    "average_price".toList, "date".toList]
  names := textOf ["code, name, ", "today_start, ", "today_close, ", "today_max, ", "today_min, ",
    "today_deal_volume, ", "today_deal_CNY, ", "average_price, date)", "     ", "values(\""]
  seps := "\",\"".toList :: (List.replicate 4 "\", \"".toList ++ List.replicate 4 "\",\"".toList)
  split := by decide +kernel
  run := Prod.ext (by decide +kernel) (by decide +kernel)
  separates := isSeparator_of_mem 4
  count := by decide

theorem historyInsert_template : historyInsert.template = historyTemplate := by rw [historyInsert]

/-! ## Both -/

/-- The names of the tables, for any code of letters, digits and underscores. -/
def IsTableName (table : Text) : Prop :=
  ∃ code, (∀ c ∈ code, isWordChar c) ∧
    (table = "stock_date_".toList ++ code ∨ table = "stock_history_".toList ++ code)

theorem IsTableName.word {table : Text} (h : IsTableName table) :
    table ≠ [] ∧ ∀ c ∈ table, isWordChar c := by
  obtain ⟨code, hcode, htable⟩ := h
  have hword : ∀ head : Text, (∀ c ∈ head, isWordChar c) → ∀ c ∈ head ++ code, isWordChar c := by
    intro head hhead c hc
    rcases List.mem_append.mp hc with hc | hc
    · exact hhead c hc
    · exact hcode c hc
  rcases htable with rfl | rfl
  · exact ⟨List.append_ne_nil_of_left_ne_nil (by decide) _, hword _ (List.all_eq_true.mp rfl)⟩
  · exact ⟨List.append_ne_nil_of_left_ne_nil (by decide) _, hword _ (List.all_eq_true.mp rfl)⟩

section Statements

variable {table code name closePrice todayChange todayChangeRate todayStart todayPeak todayLow yesterdayEnd
  trustRate exchangeRate rangeRate dealVolume date todayMax todayClose todayMin todayDealVolume todayDealCNY
  averagePrice : Text}

theorem stockStoreSql_iff (htable : IsTableName table) :
    (stockStoreSql table code name closePrice todayChange todayChangeRate todayStart todayPeak todayLow
        yesterdayEnd trustRate exchangeRate rangeRate dealVolume date).bind parseInsert =
      some ⟨table, stockInsert.columns, [code, name, closePrice, todayChange, todayChangeRate, todayStart,
        todayPeak, todayLow, yesterdayEnd, trustRate, exchangeRate, rangeRate, dealVolume, date]⟩ ↔
    ∀ t ∈ [code, name, closePrice, todayChange, todayChangeRate, todayStart, todayPeak, todayLow,
      yesterdayEnd, trustRate, exchangeRate, rangeRate, dealVolume, date], Carried '"' t := by
  obtain ⟨hne, hword⟩ := htable.word
  rw [stockStoreSql, ← stockInsert_template]
  apply InsertTemplate.parse_iff (Or.inr rfl) hne hword
  rfl

/-- Whatever the texts are, a statement that is understood is for this table. -/
theorem stockStoreSql_table (htable : IsTableName table) {i : Insert}
    (h : (stockStoreSql table code name closePrice todayChange todayChangeRate todayStart todayPeak todayLow
      yesterdayEnd trustRate exchangeRate rangeRate dealVolume date).bind parseInsert = some i) :
    i.table = table := by
  obtain ⟨hne, hword⟩ := htable.word
  rw [stockStoreSql, ← stockInsert_template] at h
  refine (InsertTemplate.parse_head hne hword ?_ h).1
  rfl

theorem stockInsert_quotes :
    (splitFormat stockInsert.template).flatten.countP isQuote = 2 * stockInsert.columns.length := by
  rw [stockInsert_template]
  decide +kernel

/-- For texts without quotes, the statement is the INSERT of their literal texts. -/
theorem stockStoreSql_quoteless (htable : IsTableName table)
    (hts : ∀ t ∈ [code, name, closePrice, todayChange, todayChangeRate, todayStart, todayPeak, todayLow,
      yesterdayEnd, trustRate, exchangeRate, rangeRate, dealVolume, date], Quoteless t) {i : Insert} :
    ((stockStoreSql table code name closePrice todayChange todayChangeRate todayStart todayPeak todayLow
        yesterdayEnd trustRate exchangeRate rangeRate dealVolume date).bind parseInsert = some i ∧
      i.columns.length = i.values.length) ↔
    ∃ vs, List.Forall₂ (fun t v => literalText t = some v) [code, name, closePrice, todayChange,
        todayChangeRate, todayStart, todayPeak, todayLow, yesterdayEnd, trustRate, exchangeRate, rangeRate,
        dealVolume, date] vs ∧
      i = ⟨table, stockInsert.columns, vs⟩ := by
  obtain ⟨hne, hword⟩ := htable.word
  rw [stockStoreSql, ← stockInsert_template]
  refine InsertTemplate.parse_quoteless (Or.inr rfl) hne hword ?_ stockInsert_quotes hts
  rfl

theorem historyStoreSql_iff (htable : IsTableName table) :
    (historyStoreSql table code name todayStart todayMax todayClose todayMin todayDealVolume todayDealCNY
        averagePrice date).bind parseInsert =
      some ⟨table, historyInsert.columns, [code, name, todayStart, todayClose, todayMax, todayMin,
        todayDealVolume, todayDealCNY, averagePrice, date]⟩ ↔
    ∀ t ∈ [code, name, todayStart, todayClose, todayMax, todayMin, todayDealVolume, todayDealCNY,
      averagePrice, date], Carried '"' t := by
  obtain ⟨hne, hword⟩ := htable.word
  rw [historyStoreSql, ← historyInsert_template]
  apply InsertTemplate.parse_iff (Or.inr rfl) hne hword
  rfl

/-- Whatever the texts are, a statement that is understood is for this table. -/
theorem historyStoreSql_table (htable : IsTableName table) {i : Insert}
    (h : (historyStoreSql table code name todayStart todayMax todayClose todayMin todayDealVolume
      todayDealCNY averagePrice date).bind parseInsert = some i) : i.table = table := by
  obtain ⟨hne, hword⟩ := htable.word
  rw [historyStoreSql, ← historyInsert_template] at h
  refine (InsertTemplate.parse_head hne hword ?_ h).1
  rfl

end Statements

/-- For every table and all texts, the statement of each of the two functions is the INSERT of
exactly these texts into the table if and only if each of them is carried. -/
theorem inserts_carry {table : Text} (htable : IsTableName table) :
    (∀ code name closePrice todayChange todayChangeRate todayStart todayPeak todayLow yesterdayEnd
        trustRate exchangeRate rangeRate dealVolume date : Text,
      (stockStoreSql table code name closePrice todayChange todayChangeRate todayStart todayPeak
          todayLow yesterdayEnd trustRate exchangeRate rangeRate dealVolume date).bind parseInsert =
        some ⟨table, stockInsert.columns, [code, name, closePrice, todayChange, todayChangeRate,
          todayStart, todayPeak, todayLow, yesterdayEnd, trustRate, exchangeRate, rangeRate, dealVolume,
          date]⟩ ↔
      ∀ t ∈ [code, name, closePrice, todayChange, todayChangeRate, todayStart, todayPeak, todayLow,
        yesterdayEnd, trustRate, exchangeRate, rangeRate, dealVolume, date], Carried '"' t) ∧
    ∀ code name todayStart todayMax todayClose todayMin todayDealVolume todayDealCNY averagePrice
        date : Text,
      (historyStoreSql table code name todayStart todayMax todayClose todayMin todayDealVolume
          todayDealCNY averagePrice date).bind parseInsert =
        some ⟨table, historyInsert.columns, [code, name, todayStart, todayClose, todayMax, todayMin,
          todayDealVolume, todayDealCNY, averagePrice, date]⟩ ↔
      ∀ t ∈ [code, name, todayStart, todayClose, todayMax, todayMin, todayDealVolume, todayDealCNY,
        averagePrice, date], Carried '"' t := by
  constructor
  · intros
    exact stockStoreSql_iff htable
  · intros
    exact historyStoreSql_iff htable

def tableExample : Text := "stock_history_sh600175".toList

theorem tableExample_isTableName : IsTableName tableExample :=
  ⟨"sh600175".toList, List.all_eq_true.mp rfl, Or.inr (by decide)⟩

theorem inserts_carry_example :
    (historyStoreSql tableExample "sh600175".toList [] "6.67".toList "6.69".toList "6.67".toList
        "6.64".toList "48044859".toList "320410969".toList "6.66".toList "20190712".toList).bind
      parseInsert = some ⟨tableExample, historyInsert.columns, ["sh600175".toList, [], "6.67".toList,
        "6.67".toList, "6.69".toList, "6.64".toList, "48044859".toList, "320410969".toList,
        "6.66".toList, "20190712".toList]⟩ :=
  ((inserts_carry tableExample_isTableName).2 _ _ _ _ _ _ _ _ _ _).mpr (by decide)

/-- A double quote in a name leaves no statement at all, and of a backslash and the character
after it in an opening price only the character is stored. -/
theorem inserts_carry_fails :
    (stockStoreSql "stock_date_sh600175".toList "sh600175".toList "a\"b".toList [] [] [] [] [] [] [] [] []
      [] [] []).bind parseInsert = none ∧
    (historyStoreSql tableExample "sh600175".toList [] "6\\.67".toList [] [] [] [] [] [] []).bind
      parseInsert = some ⟨tableExample, historyInsert.columns,
        ["sh600175".toList, [], "6.67".toList, [], [], [], [], [], [], []]⟩ := by
  decide +kernel

end RedisLuaLinux.Python
