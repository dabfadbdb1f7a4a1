import RedisLuaLinux.Library.KeyedTable
import RedisLuaLinux.Python.StockInsert

/-!
# The history scraper

`get_parse.py` of `History_stock`: the pages of a run, the day rows of a page, and the inserts
that a run makes. A page is what the HTML parser finds in it; the loop over its day rows ends
with the first row that raises an error.

* `main_eq`: a run inserts the rows of its pages, each page up to its first malformed row.
* `execute_history`: for texts that are carried, sending the statement inserts this row.
-/

namespace RedisLuaLinux.Python

open Library

/-! ## Pages -/

/-- The texts of the `div`s of a `td`. -/
abbrev Item := List Text

/-- The `td`s of a `tr`. -/
abbrev Block := List Item

/-- The tables with the id `FundHoldSharesTable`, as lists of their `tr`s; `none` is the empty
text of a page that could not be fetched. -/
abbrev Page := Option (List (List Block))

/-- The day rows of a page in the order in which they are processed: without the two heading
rows, and reversed. Where the table or a heading row is missing there is an error before the
loop, and nothing is processed. -/
def dayStockBlock : Page → List Block
  | some ((_ :: _ :: days) :: _) => days.reverse
  | _ => []

/-! ## Day rows -/

/-- Numbers of Python as far as the scraper uses them; `none` stands for an exception. -/
structure Numerals (F : Type) where
  float : Text → Option F
  int : Text → Option Int
  -- the quotient by an integer other than zero, as text
  divide : F → Int → Option Text

variable {F : Type}

/-- `item_list[i].find_all('div')[0].text.split()[0]` -/
def itemText (itemList : Block) (i : Nat) : Option Text := do
  let item ← itemList[i]?
  let div ← item[0]?
  firstWord div

def averagePrice (num : Numerals F) (todayDealCNY todayDealVolume : Text) : Option Text := do
  let turnover ← num.float todayDealCNY
  let volume ← num.int todayDealVolume
  if volume = 0 then none else num.divide turnover volume

/-- What `parse_day_stock_info` returns, in this order. -/
structure DayStockInfo where
  date : Text
  todayStart : Text
  todayMax : Text
  todayClose : Text
  todayMin : Text
  todayDealVolume : Text
  todayDealCNY : Text
  averagePrice : Text
  deriving DecidableEq, Repr

def parseDayStockInfo (num : Numerals F) (itemList : Block) : Option DayStockInfo := do
  let date := (← itemText itemList 0).filter (· ≠ '-')
  let todayStart ← itemText itemList 1
  let todayMax ← itemText itemList 2
  let todayClose ← itemText itemList 3
  let todayMin ← itemText itemList 4
  let todayDealVolume ← itemText itemList 5
  let todayDealCNY ← itemText itemList 6
  let averagePrice ← averagePrice num todayDealCNY todayDealVolume
  some ⟨date, todayStart, todayMax, todayClose, todayMin, todayDealVolume, todayDealCNY, averagePrice⟩

/-- The date that a day row is stored under. -/
def dayDate (day : Block) : Option Text := (itemText day 0).map fun token => token.filter (· ≠ '-')

/-- Where each value of a day row comes from. -/
theorem parseDayStockInfo_cases {num : Numerals F} {day : Block} {info : DayStockInfo}
    (h : parseDayStockInfo num day = some info) :
    dayDate day = some info.date ∧ itemText day 1 = some info.todayStart ∧
    itemText day 2 = some info.todayMax ∧ itemText day 3 = some info.todayClose ∧
    itemText day 4 = some info.todayMin ∧ itemText day 5 = some info.todayDealVolume ∧
    itemText day 6 = some info.todayDealCNY ∧
    averagePrice num info.todayDealCNY info.todayDealVolume = some info.averagePrice := by
  simp only [parseDayStockInfo, Option.bind_eq_bind, Option.bind_eq_some_iff, Option.some.injEq] at h
  obtain ⟨token, htoken, todayStart, hstart, todayMax, hmax, todayClose, hclose, todayMin, hmin,
    volume, hvolume, turnover, hturnover, price, hprice, rfl⟩ := h
  exact ⟨by rw [dayDate, htoken]; rfl, hstart, hmax, hclose, hmin, hvolume, hturnover, hprice⟩

/-! ## A run

`store` is `stock_history_store_into_db`, with its parameters in their order. -/

section Run

variable {σ : Type} (num : Numerals F)
  (store : Text → Text → Text → Text → Text → Text → Text → Text → Text → Text → Text → σ → σ)

def tableOf (stockCode : Text) : Text := "stock_history_".toList ++ stockCode

def getStockAndStoreIntoDb (stockCode : Text) (todayStockInfo : Block) (s : σ) : Option σ := do
  let ⟨date, todayStart, todayMax, todayClose, todayMin, todayDealVolume, todayDealCNY, averagePrice⟩ ←
    parseDayStockInfo num todayStockInfo
  some (store (tableOf stockCode) stockCode [] todayStart todayMax todayClose todayMin todayDealVolume
    todayDealCNY averagePrice date s)

/-- The loop over the day rows of a page, which an exception ends. -/
def storeDays (stockCode : Text) : List Block → σ → σ
  | [], s => s
  | stockBlock :: rest, s =>
    match getStockAndStoreIntoDb num store stockCode stockBlock s with
    | none => s
    | some s' => storeDays stockCode rest s'

def queryUrl : Text :=
  "http://money.finance.sina.com.cn/corp/go.php/vMS_MarketHistory/stockid/".toList

def stockUrl (siteUrl stockCode year season : Text) : Text :=
  siteUrl ++ stockCode.drop 2 ++ ".phtml?year=".toList ++ year ++ "&jidu=".toList ++ season

def stockQuery (fetch : Text → Page) (stockCode year season siteUrl : Text) (s : σ) : σ :=
  storeDays num store stockCode (dayStockBlock (fetch (stockUrl siteUrl stockCode year season))) s

def years : List Text := ["2019".toList]

def seasons : List Text := ["1".toList, "2".toList, "3".toList]

def getStockList : List Text :=
  ["sh601857".toList, "sh600175".toList, "sh601169".toList, "sh600266".toList, "sh600050".toList,
    "sh600008".toList, "sh601992".toList, "sh600285".toList, "sh600284".toList, "sh600999".toList,
    "sh600106".toList, "sz002157".toList, "sz000725".toList]

/-- The part of a run for one stock. -/
def mainStock (fetch : Text → Page) (s : σ) (stock : Text) : σ :=
  years.foldl (fun s year =>
    seasons.foldl (fun s season => stockQuery num store fetch stock year season queryUrl s) s) s

def main (fetch : Text → Page) (s : σ) : σ :=
  getStockList.foldl (mainStock num store fetch) s

/-- The pages of a stock in the order in which they are queried. -/
def pageUrls (stock : Text) : List Text :=
  years.flatMap fun year => seasons.map fun season => stockUrl queryUrl stock year season

/-- The day rows of a stock in the order in which they are processed. -/
def dayRows (fetch : Text → Page) (stock : Text) : List Block :=
  (pageUrls stock).flatMap fun url => dayStockBlock (fetch url)

theorem mainStock_urls (fetch : Text → Page) (s : σ) (stock : Text) :
    mainStock num store fetch s stock =
      (pageUrls stock).foldl (fun s url => storeDays num store stock (dayStockBlock (fetch url)) s) s := by
  unfold pageUrls
  rw [List.foldl_flatMap]
  simp only [List.foldl_map]
  rfl

end Run

/-! ## The database -/

/-- The columns that an INSERT names, with their values. -/
abbrev StoredRow := List (Text × Text)

/-- `unique(code, date)` -/
def rowKey (r : StoredRow) : Option Text × Option Text :=
  (r.lookup "code".toList, r.lookup "date".toList)

abbrev Database := Tables Text rowKey

variable (accepts : StoredRow → Bool)

/-- Send a statement; one that fails is rolled back. -/
def execute (sql : Option Text) (db : Database) : Database :=
  match sql.bind parseInsert with
  | none => db
  | some i =>
    if i.columns.length = i.values.length then db.insert accepts i.table (i.columns.zip i.values) else db

/-- The row that a statement inserts. -/
def sentRow (sql : Option Text) : Option StoredRow := do
  let i ← sql.bind parseInsert
  if i.columns.length = i.values.length then some (i.columns.zip i.values) else none

theorem sentRow_iff {sql : Option Text} {r : StoredRow} : sentRow sql = some r ↔
    ∃ i, (sql.bind parseInsert = some i ∧ i.columns.length = i.values.length) ∧
      r = i.columns.zip i.values := by
  simp only [sentRow, Option.bind_eq_bind, Option.bind_eq_some_iff, Option.ite_none_right_eq_some,
    Option.some.injEq]
  constructor
  · rintro ⟨i, hi, hlen, rfl⟩
    exact ⟨i, ⟨hi, hlen⟩, rfl⟩
  · rintro ⟨i, ⟨hi, hlen⟩, rfl⟩
    exact ⟨i, hi, hlen, rfl⟩

theorem execute_modify {accepts : StoredRow → Bool} {sql : Option Text} {table : Text}
    (h : ∀ i, sql.bind parseInsert = some i → i.table = table) (db : Database) :
    execute accepts sql db = db.modify table (KeyedTable.gain accepts (sentRow sql)) := by
  unfold execute sentRow
  cases hparse : sql.bind parseInsert with
  | none => exact Tables.modify_id.symm
  | some i =>
    obtain rfl := h i hparse
    simp only [Option.bind_eq_bind, Option.bind_some]
    split
    · exact Tables.insert_eq_modify _
    · exact Tables.modify_id.symm

/-- `stock_history_store_into_db` on the database. -/
def stockHistoryStoreIntoDb (table code name todayStart todayMax todayClose todayMin todayDealVolume
    todayDealCNY averagePrice date : Text) (db : Database) : Database :=
  execute accepts (historyStoreSql table code name todayStart todayMax todayClose todayMin
    todayDealVolume todayDealCNY averagePrice date) db

def historyRow (code name todayStart todayMax todayClose todayMin todayDealVolume todayDealCNY
    averagePrice date : Text) : StoredRow :=
  historyInsert.columns.zip [code, name, todayStart, todayClose, todayMax, todayMin, todayDealVolume,
    todayDealCNY, averagePrice, date]

theorem historyRow_eq (code name todayStart todayMax todayClose todayMin todayDealVolume todayDealCNY
    averagePrice date : Text) :
    historyRow code name todayStart todayMax todayClose todayMin todayDealVolume todayDealCNY averagePrice
        date =
      [("code".toList, code), ("name".toList, name), ("today_start".toList, todayStart),
        ("today_close".toList, todayClose), ("today_max".toList, todayMax), ("today_min".toList, todayMin),
        ("today_deal_volume".toList, todayDealVolume), ("today_deal_CNY".toList, todayDealCNY),
        ("average_price".toList, averagePrice), ("date".toList, date)] := by
  rw [historyRow, historyInsert]
  rfl

/-- What `stock_history_store_into_db` is for: one insert of the given values. -/
def insertHistory (table code name todayStart todayMax todayClose todayMin todayDealVolume
    todayDealCNY averagePrice date : Text) (db : Database) : Database :=
  db.insert accepts table (historyRow code name todayStart todayMax todayClose todayMin todayDealVolume
    todayDealCNY averagePrice date)

section Execute

variable {accepts} {table code name todayStart todayMax todayClose todayMin todayDealVolume todayDealCNY
  averagePrice date : Text} {db : Database}

theorem tableOf_word {stockCode : Text} (h : ∀ c ∈ stockCode, isWordChar c) :
    IsTableName (tableOf stockCode) := ⟨stockCode, h, Or.inr rfl⟩

/-- For texts that are carried, sending the statement inserts the row. -/
theorem execute_history (htable : IsTableName table)
    (hcarried : ∀ t ∈ [code, name, todayStart, todayClose, todayMax, todayMin, todayDealVolume,
      todayDealCNY, averagePrice, date], Carried '"' t) :
    stockHistoryStoreIntoDb accepts table code name todayStart todayMax todayClose todayMin
        todayDealVolume todayDealCNY averagePrice date db =
      insertHistory accepts table code name todayStart todayMax todayClose todayMin todayDealVolume
        todayDealCNY averagePrice date db := by
  rw [stockHistoryStoreIntoDb, execute, (historyStoreSql_iff htable).mpr hcarried]
  rfl

/-- Whatever the texts are, other tables stay as they are. -/
theorem execute_history_table (htable : IsTableName table) {other : Text} (hne : other ≠ table) :
    (stockHistoryStoreIntoDb accepts table code name todayStart todayMax todayClose todayMin
      todayDealVolume todayDealCNY averagePrice date db).table other = db.table other := by
  unfold stockHistoryStoreIntoDb execute
  split
  · rfl
  · rename_i i hparse
    obtain rfl := historyStoreSql_table htable hparse
    split
    · exact Tables.table_insert_of_ne hne _
    · rfl

end Execute

/-! ## The inserts of a run -/

/-- The results up to the first element that fails. -/
def untilError {α β : Type} (f : α → Option β) : List α → List β
  | [] => []
  | a :: rest =>
    match f a with
    | none => []
    | some b => b :: untilError f rest

section UntilError

variable {α β : Type} {f : α → Option β} {b : β}

theorem exists_of_mem_untilError {xs : List α} (h : b ∈ untilError f xs) : ∃ a ∈ xs, f a = some b := by
  induction xs with
  | nil => cases h
  | cons a xs ih =>
    unfold untilError at h
    split at h
    · cases h
    · rename_i b' hfa
      rcases List.mem_cons.mp h with rfl | h
      · exact ⟨a, List.mem_cons_self, hfa⟩
      · obtain ⟨a', ha', hfa'⟩ := ih h
        exact ⟨a', List.mem_cons_of_mem a ha', hfa'⟩

/-- More elements at the end do not take a result away. -/
theorem mem_untilError_append {xs : List α} (ys : List α) (h : b ∈ untilError f xs) :
    b ∈ untilError f (xs ++ ys) := by
  induction xs with
  | nil => cases h
  | cons a xs ih =>
    rw [List.cons_append]
    unfold untilError at h ⊢
    split at h
    · cases h
    · rcases List.mem_cons.mp h with rfl | h
      · exact List.mem_cons_self
      · exact List.mem_cons_of_mem _ (ih h)

theorem untilError_eq_map {g : α → β} {xs : List α} (h : ∀ a ∈ xs, f a = some (g a)) :
    untilError f xs = xs.map g := by
  induction xs with
  | nil => rfl
  | cons a xs ih =>
    rw [untilError, h a List.mem_cons_self, ih fun a' ha' => h a' (List.mem_cons_of_mem a ha')]
    rfl

end UntilError

/-- The insert of one day row. -/
def dayCall (num : Numerals F) (stockCode : Text) (stockBlock : Block) : Option (Text × StoredRow) :=
  (parseDayStockInfo num stockBlock).map
    fun ⟨date, todayStart, todayMax, todayClose, todayMin, todayDealVolume, todayDealCNY, averagePrice⟩ =>
      (tableOf stockCode, historyRow stockCode [] todayStart todayMax todayClose todayMin todayDealVolume
        todayDealCNY averagePrice date)

def pageCalls (num : Numerals F) (fetch : Text → Page) (stock url : Text) : List (Text × StoredRow) :=
  untilError (dayCall num stock) (dayStockBlock (fetch url))

/-- The inserts of a run for one stock, in order. -/
def stockCalls (num : Numerals F) (fetch : Text → Page) (stock : Text) : List (Text × StoredRow) :=
  (pageUrls stock).flatMap (pageCalls num fetch stock)

def runCalls (num : Numerals F) (fetch : Text → Page) : List (Text × StoredRow) :=
  getStockList.flatMap (stockCalls num fetch)

section Calls

variable {num : Numerals F} {accepts} {fetch : Text → Page}

theorem storeDays_eq (stock : Text) (blocks : List Block) (db : Database) :
    storeDays num (insertHistory accepts) stock blocks db =
      db.insertAll accepts (untilError (dayCall num stock) blocks) := by
  induction blocks generalizing db with
  | nil => rfl
  | cons block rest ih =>
    unfold storeDays untilError getStockAndStoreIntoDb dayCall
    cases parseDayStockInfo num block with
    | none => rfl
    | some info => exact ih _

theorem mainStock_eq (stock : Text) (db : Database) :
    mainStock num (insertHistory accepts) fetch db stock = db.insertAll accepts (stockCalls num fetch stock) := by
  rw [mainStock_urls, stockCalls, Tables.insertAll, List.foldl_flatMap]
  congr 1
  funext db url
  exact storeDays_eq stock _ db

theorem main_eq (db : Database) :
    main num (insertHistory accepts) fetch db = db.insertAll accepts (runCalls num fetch) := by
  rw [main, runCalls, Tables.insertAll, List.foldl_flatMap]
  congr 1
  funext db stock
  exact mainStock_eq stock db

theorem mem_runCalls {call : Text × StoredRow} : call ∈ runCalls num fetch ↔
    ∃ stock ∈ getStockList, ∃ url ∈ pageUrls stock, call ∈ pageCalls num fetch stock url := by
  simp only [runCalls, stockCalls, List.mem_flatMap]

end Calls

end RedisLuaLinux.Python
