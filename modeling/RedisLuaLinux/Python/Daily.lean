import RedisLuaLinux.Library.Attempt
import RedisLuaLinux.Python.History

/-!
# The daily scraper

`get_parse.py` and `db_test.py` of the daily prices. A page is what the HTML parser finds in it.
The variables of `getStockInfo_to_db` live on from one stock to the next, and any statement of
the block for a stock may raise an exception, which ends the block.

* `storeStock_db`: the block for a stock stores what `dailyPrices` reads from its page, whatever
  the variables held before.
* `getStockInfoToDb_eq`: so a call stores what each page has to say, one after the other.
-/

namespace RedisLuaLinux.Python.Daily

open Library

/-! ## Pages -/

structure Element where
  text : Text
  markup : Text

/-- The elements inside the `div` of the class `stock-bets`: those of the classes `bets-name`,
`_close`, `price s-down` and `price s-up`, the last two by the texts of their `span`s, and the
`dd`s. -/
structure StockBets where
  betsName : List Element
  close : List Text
  priceDown : List (List Text)
  priceUp : List (List Text)
  dd : List Text

/-- `none` is the empty text of a page that could not be fetched, and `some none` a page without
such a `div`. -/
abbrev Page := Option (Option StockBets)

/-! ## Variables -/

/-- The variable `name` is first an element and then a text. -/
inductive Name
  | element (e : Element)
  | text (t : Text)

namespace Name

/-- `name.text`; a text has no such attribute. -/
def elementText : Name → Option Text
  | element e => some e.text
  | text _ => none

/-- What the conversion `%s` makes of it. -/
def format : Name → Text
  | element e => e.markup
  | text t => t

end Name

/-- The variables; `none` where nothing was assigned yet. -/
structure Locals where
  stockInfo : Option (Option StockBets) := none
  name : Option Name := none
  closePriceId : Option Text := none
  closePrice : Option Text := none
  closeVariableId : Option (List Text) := none
  closeVariableIdArray : Option (List Text) := none
  todayChange : Option Text := none
  todayChangeRate : Option Text := none
  table : Option Text := none
  code : Option Text := none
  valueList : Option (List Text) := none
  todayStart : Option Text := none
  todayPeak : Option Text := none
  todayLow : Option Text := none
  yesterdayEnd : Option Text := none
  trustRate : Option Text := none
  exchangeRate : Option Text := none
  rangeRate : Option Text := none
  dealVolume : Option Text := none

/-- The variables and what `stock_store_into_db` works on. -/
structure Scrape (σ : Type) where
  locals : Locals
  db : σ

section Statements

variable {σ α : Type}

def assign (f : Locals → Locals) : Attempt (Scrape σ) Unit :=
  Attempt.modify fun s => { s with locals := f s.locals }

def read (f : Locals → Option α) : Attempt (Scrape σ) α := Attempt.value fun s => f s.locals

/-- `stockInfo` where it is used as an element: `find` returns `None` if it finds nothing. -/
def stockInfo : Attempt (Scrape σ) StockBets := read fun v => v.stockInfo.join

end Statements

/-! ## The loop over the stocks

`store` is `stock_store_into_db`, with its parameters in their order. -/

section Loop

variable {σ : Type}
  (store : Text → Text → Text → Text → Text → Text → Text → Text → Text → Text → Text → Text → Text →
    Text → Text → σ → σ)

def tableOf (stock : Text) : Text := "stock_date_".toList ++ stock

theorem tableOf_injective : Function.Injective tableOf := fun _ _ h => List.append_cancel_left h

/-- A price that went down, or else one that went up. -/
def closeVariableId : Attempt (Scrape σ) Unit :=
  Attempt.orElse
    (do
      let down ← Attempt.ofOption (← stockInfo).priceDown[0]?
      assign fun v => { v with closeVariableId := some down })
    (do
      let up ← Attempt.ofOption (← stockInfo).priceUp[0]?
      assign fun v => { v with closeVariableId := some up })

/-- The statements up to the insert, with the `div` that `find` found. -/
def extract (found : Option StockBets) (stock : Text) : Attempt (Scrape σ) Unit := do
  assign fun v => { v with stockInfo := some found }
  let name ← Attempt.ofOption (← stockInfo).betsName[0]?
  assign fun v => { v with name := some (.element name) }
  let closePriceId ← Attempt.ofOption (← stockInfo).close[0]?
  assign fun v => { v with closePriceId := some closePriceId }
  let closePrice ← Attempt.ofOption (firstWord (← read Locals.closePriceId))
  assign fun v => { v with closePrice := some closePrice }
  closeVariableId
  let spans ← read Locals.closeVariableId
  assign fun v => { v with closeVariableIdArray := some spans }
  let todayChange ← Attempt.ofOption ((← read Locals.closeVariableIdArray)[0]?.bind firstWord)
  assign fun v => { v with todayChange := some todayChange }
  let todayChangeRate ← Attempt.ofOption ((← read Locals.closeVariableIdArray)[1]?.bind firstWord)
  assign fun v => { v with todayChangeRate := some todayChangeRate }
  assign fun v => { v with table := some (tableOf stock) }
  assign fun v => { v with code := some stock }
  let name ← Attempt.ofOption ((← read Locals.name).elementText.bind firstWord)
  assign fun v => { v with name := some (.text name) }
  let valueList := (← stockInfo).dd
  assign fun v => { v with valueList := some valueList }
  let todayStart ← Attempt.ofOption (← read Locals.valueList)[0]?
  assign fun v => { v with todayStart := some todayStart }
  let todayPeak ← Attempt.ofOption (← read Locals.valueList)[2]?
  assign fun v => { v with todayPeak := some todayPeak }
  let todayLow ← Attempt.ofOption (← read Locals.valueList)[13]?
  assign fun v => { v with todayLow := some todayLow }
  let yesterdayEnd ← Attempt.ofOption (← read Locals.valueList)[11]?
  assign fun v => { v with yesterdayEnd := some yesterdayEnd }
  let trustRate ← Attempt.ofOption (← read Locals.valueList)[6]?
  assign fun v => { v with trustRate := some trustRate }
  let exchangeRate ← Attempt.ofOption (← read Locals.valueList)[12]?
  assign fun v => { v with exchangeRate := some exchangeRate }
  let rangeRate ← Attempt.ofOption (← read Locals.valueList)[16]?
  assign fun v => { v with rangeRate := some rangeRate }
  let dealVolume ← Attempt.ofOption (← read Locals.valueList)[1]?
  assign fun v => { v with dealVolume := some dealVolume }

/-- The call of `stock_store_into_db`. -/
def storePrices (date : Text) : Attempt (Scrape σ) Unit := do
  let table ← read Locals.table
  let code ← read Locals.code
  let name ← read Locals.name
  let closePrice ← read Locals.closePrice
  let todayChange ← read Locals.todayChange
  let todayChangeRate ← read Locals.todayChangeRate
  let todayStart ← read Locals.todayStart
  let todayPeak ← read Locals.todayPeak
  let todayLow ← read Locals.todayLow
  let yesterdayEnd ← read Locals.yesterdayEnd
  let trustRate ← read Locals.trustRate
  let exchangeRate ← read Locals.exchangeRate
  let rangeRate ← read Locals.rangeRate
  let dealVolume ← read Locals.dealVolume
  Attempt.modify fun s => { s with
    db := store table code name.format closePrice todayChange todayChangeRate todayStart todayPeak todayLow
      yesterdayEnd trustRate exchangeRate rangeRate dealVolume date s.db }

/-- The block for one stock. -/
def storeStock (html : Page) (stock date : Text) : Attempt (Scrape σ) Unit :=
  match html with
  | none => pure ()
  | some found => do
    extract found stock
    storePrices store date

def stockUrl (stockURL stock : Text) : Text := stockURL ++ stock ++ ".html".toList

def getStockInfoToDb (fetch : Text → Page) (lst : List Text) (stockURL date : Text) (s : σ) : σ :=
  (lst.foldl (fun s stock => ((storeStock store (fetch (stockUrl stockURL stock)) stock date).run s).2)
    ⟨{}, s⟩).db

def getStockList : List Text :=
  ["sh600175".toList, "sh601857".toList, "sh601169".toList, "sh600266".toList, "sh600050".toList,
    "sh600008".toList, "sh601992".toList, "sh600285".toList, "sh600284".toList, "sh600999".toList,
    "sh600106".toList, "sz002157".toList, "sz000725".toList]

/-- The local time; the weekdays begin with Sunday. -/
structure LocalTime where
  year : Nat
  month : Nat
  day : Nat
  weekday : Fin 7
  year_lt : year < 10000000000
  month_le : month ≤ 12
  day_le : day ≤ 31

/-- `strftime("%Y%m%d")` -/
def LocalTime.date (now : LocalTime) : Text :=
  natText now.year ++ (natText now.month).leftpad 2 '0' ++ (natText now.day).leftpad 2 '0'

def stockInfoUrl : Text := "http://gupiao.baidu.com/stock/".toList

/-- What a run leaves, and the line that it adds to the running log. -/
def main (fetch : Text → Page) (now : LocalTime) (s : σ) : σ × Text :=
  if now.weekday = 6 ∨ now.weekday = 0 then (s, now.date ++ "this is non-work date\n".toList)
  else (getStockInfoToDb store fetch getStockList stockInfoUrl now.date s,
    now.date ++ "this is work date\n".toList)

end Loop

/-! ## What the variables hold -/

structure DailyPrices where
  name : Text
  closePrice : Text
  todayChange : Text
  todayChangeRate : Text
  todayStart : Text
  todayPeak : Text
  todayLow : Text
  yesterdayEnd : Text
  trustRate : Text
  exchangeRate : Text
  rangeRate : Text
  dealVolume : Text
  deriving DecidableEq

/-- What a page has to say, read without variables. -/
def dailyPrices (html : Page) : Option DailyPrices := do
  let bets ← html.join
  let name ← bets.betsName[0]?
  let closePrice ← bets.close[0]?.bind firstWord
  let spans ← bets.priceDown[0]? <|> bets.priceUp[0]?
  let todayChange ← spans[0]?.bind firstWord
  let todayChangeRate ← spans[1]?.bind firstWord
  let name ← firstWord name.text
  let todayStart ← bets.dd[0]?
  let todayPeak ← bets.dd[2]?
  let todayLow ← bets.dd[13]?
  let yesterdayEnd ← bets.dd[11]?
  let trustRate ← bets.dd[6]?
  let exchangeRate ← bets.dd[12]?
  let rangeRate ← bets.dd[16]?
  let dealVolume ← bets.dd[1]?
  some ⟨name, closePrice, todayChange, todayChangeRate, todayStart, todayPeak, todayLow, yesterdayEnd,
    trustRate, exchangeRate, rangeRate, dealVolume⟩

section Reading

variable {σ α β : Type}

theorem assign_bind (g : Locals → Locals) (f : Unit → Attempt (Scrape σ) β) (s : Scrape σ) :
    (assign g >>= f).run s = (f ()).run { s with locals := g s.locals } := Attempt.modify_bind _ _ f

theorem read_bind (g : Locals → Option α) (f : α → Attempt (Scrape σ) β) (s : Scrape σ) :
    (read g >>= f).run s = (g s.locals).elim (none, s) fun a => (f a).run s := Attempt.value_bind _ _ f

theorem stockInfo_bind (f : StockBets → Attempt (Scrape σ) β) (s : Scrape σ) :
    (stockInfo >>= f).run s = s.locals.stockInfo.join.elim (none, s) fun bets => (f bets).run s :=
  read_bind _ f s

theorem closeVariableId_bind (f : Unit → Attempt (Scrape σ) β) (s : Scrape σ) :
    (closeVariableId >>= f).run s =
      (s.locals.stockInfo.join.bind fun bets => bets.priceDown[0]? <|> bets.priceUp[0]?).elim (none, s)
        fun spans => (f ()).run { s with locals := { s.locals with closeVariableId := some spans } } := by
  rw [closeVariableId, Attempt.orElse_bind]
  simp only [bind_assoc, stockInfo_bind, Attempt.ofOption_bind, assign_bind]
  cases hfound : s.locals.stockInfo.join with
  | none => simp [hfound]
  | some bets =>
    cases hdown : bets.priceDown[0]? with
    | some down => simp [hdown, assign, Attempt.modify]
    | none => simp [hfound, hdown]

/-- An exception leaves what is stored as it is. -/
theorem elim_db (o : Option α) (f : α → Option β × Scrape σ) (s : Scrape σ) :
    (o.elim (none, s) f).2.db = o.elim s.db fun a => (f a).2.db := by
  cases o <;> rfl

theorem elim_bind (o : Option α) (f : α → Option β) (s : σ) (g : β → σ) :
    (o.bind f).elim s g = o.elim s fun a => (f a).elim s g := by
  cases o <;> rfl

theorem elim_seq (o : Option α) (f : α → Option β) (s : σ) (g : β → σ) :
    (o >>= f).elim s g = o.elim s fun a => (f a).elim s g := elim_bind o f s g

end Reading

section Loop

variable {σ : Type}
  (store : Text → Text → Text → Text → Text → Text → Text → Text → Text → Text → Text → Text → Text →
    Text → Text → σ → σ)

/-- Store what the page of a stock has to say. -/
def storePage (html : Page) (stock date : Text) (s : σ) : σ :=
  (dailyPrices html).elim s fun p =>
    store (tableOf stock) stock p.name p.closePrice p.todayChange p.todayChangeRate p.todayStart p.todayPeak
      p.todayLow p.yesterdayEnd p.trustRate p.exchangeRate p.rangeRate p.dealVolume date s

/-- Every variable that the insert reads was assigned for the same stock. -/
theorem storeStock_db (html : Page) (stock date : Text) (s : Scrape σ) :
    ((storeStock store html stock date).run s).2.db = storePage store html stock date s.db := by
  cases html with
  | none => rfl
  | some found =>
    -- statement by statement, from the first one on
    simp only [storeStock, extract, storePrices, storePage, dailyPrices, ↓bind_assoc, ↓assign_bind, ↓read_bind,
      ↓stockInfo_bind, ↓closeVariableId_bind, ↓Attempt.ofOption_bind, ↓elim_db, ↓elim_bind,
      ↓elim_seq, Option.join_some, Option.elim_some]
    cases found with
    | none => rfl
    | some bets => rfl

theorem getStockInfoToDb_eq (fetch : Text → Page) (lst : List Text) (stockURL date : Text) (s : σ) :
    getStockInfoToDb store fetch lst stockURL date s =
      lst.foldl (fun s stock => storePage store (fetch (stockUrl stockURL stock)) stock date s) s := by
  -- from any values of the variables
  suffices hloop : ∀ scrape : Scrape σ, (lst.foldl (fun s stock =>
      ((storeStock store (fetch (stockUrl stockURL stock)) stock date).run s).2) scrape).db =
      lst.foldl (fun s stock => storePage store (fetch (stockUrl stockURL stock)) stock date s) scrape.db from
    hloop ⟨{}, s⟩
  intro scrape
  induction lst generalizing scrape with
  | nil => rfl
  | cons stock rest ih => rw [List.foldl_cons, List.foldl_cons, ih, storeStock_db]

end Loop

/-! ## The database -/

section Database

variable (accepts : StoredRow → Bool)

/-- `stock_store_into_db` on the database. -/
def stockStoreIntoDb (table code name closePrice todayChange todayChangeRate todayStart todayPeak todayLow
    yesterdayEnd trustRate exchangeRate rangeRate dealVolume date : Text) (db : Database) : Database :=
  execute accepts (stockStoreSql table code name closePrice todayChange todayChangeRate todayStart todayPeak
    todayLow yesterdayEnd trustRate exchangeRate rangeRate dealVolume date) db

def stockRow (code name closePrice todayChange todayChangeRate todayStart todayPeak todayLow yesterdayEnd
    trustRate exchangeRate rangeRate dealVolume date : Text) : StoredRow :=
  stockInsert.columns.zip [code, name, closePrice, todayChange, todayChangeRate, todayStart, todayPeak,
    todayLow, yesterdayEnd, trustRate, exchangeRate, rangeRate, dealVolume, date]

/-- What `stock_store_into_db` is for: one insert of the given values. -/
def insertDaily (table code name closePrice todayChange todayChangeRate todayStart todayPeak todayLow
    yesterdayEnd trustRate exchangeRate rangeRate dealVolume date : Text) (db : Database) : Database :=
  db.insert accepts table (stockRow code name closePrice todayChange todayChangeRate todayStart todayPeak
    todayLow yesterdayEnd trustRate exchangeRate rangeRate dealVolume date)

end Database

namespace DailyPrices

variable (p : DailyPrices) (stock date : Text)

/-- The row of these prices. -/
def row : StoredRow :=
  stockRow stock p.name p.closePrice p.todayChange p.todayChangeRate p.todayStart p.todayPeak p.todayLow
    p.yesterdayEnd p.trustRate p.exchangeRate p.rangeRate p.dealVolume date

/-- The columns that a page fills. -/
def cells : StoredRow :=
  [("name".toList, p.name), ("close_price".toList, p.closePrice), ("today_change".toList, p.todayChange),
    ("today_change_rate".toList, p.todayChangeRate), ("today_start".toList, p.todayStart),
    ("today_peak".toList, p.todayPeak), ("today_low".toList, p.todayLow),
    ("yesterday_end".toList, p.yesterdayEnd), ("trust_rate".toList, p.trustRate),
    ("exchange_rate".toList, p.exchangeRate), ("range_rate".toList, p.rangeRate),
    ("deal_volume".toList, p.dealVolume)]

theorem row_eq : p.row stock date =
    ("code".toList, stock) :: (p.cells ++ [("date".toList, date)]) := by
  rw [row, stockRow, stockInsert]
  rfl

theorem row_key : rowKey (p.row stock date) = (some stock, some date) := by
  rw [row_eq]
  rfl

end DailyPrices

end RedisLuaLinux.Python.Daily
