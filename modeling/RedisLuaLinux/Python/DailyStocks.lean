import RedisLuaLinux.Python.Daily

/-!
# The stocks of a daily run

* `storePage_insert`: the page of a stock changes the table of the stock only, and by one row at
  most.
* `stocks_independent`: after a call the table of each stock depends on its own page, on the date
  and on what it held before; the order of the stocks and repetitions make no difference.
-/

namespace RedisLuaLinux.Python.Daily

open Library

/-- The row that a page yields. -/
def pageRow (html : Page) (stock date : Text) : Option StoredRow :=
  (dailyPrices html).map fun p => p.row stock date

variable {accepts : StoredRow → Bool}

theorem pageRow_key {html : Page} {stock date : Text} (r : StoredRow) (h : pageRow html stock date = some r) :
    rowKey r = (some stock, some date) := by
  obtain ⟨p, -, rfl⟩ := Option.map_eq_some_iff.mp h
  exact p.row_key stock date

theorem storePage_insert (html : Page) (stock date : Text) (db : Database) :
    storePage (insertDaily accepts) html stock date db =
      db.modify (tableOf stock) (KeyedTable.gain accepts (pageRow html stock date)) := by
  unfold storePage pageRow
  cases dailyPrices html with
  | none => exact Tables.modify_id.symm
  | some p => exact Tables.insert_eq_modify _

section Call

variable {fetch : Text → Page} {stockURL date : Text}

theorem getStockInfoToDb_insert (lst : List Text) (db : Database) :
    getStockInfoToDb (insertDaily accepts) fetch lst stockURL date db = lst.foldl
      (fun db stock => db.modify (tableOf stock)
        (KeyedTable.gain accepts (pageRow (fetch (stockUrl stockURL stock)) stock date))) db := by
  rw [getStockInfoToDb_eq]
  congr 1
  funext db stock
  exact storePage_insert _ stock date db

end Call

/-- After a call, the table of each listed stock has gained the row that the page of the stock
yields, if it yields one, the values are accepted and there is none for this stock and date yet;
nothing else has changed. A list with the same stocks, in any order and number, leaves the same
database, and so does a second call. -/
theorem stocks_independent (accepts : StoredRow → Bool) (fetch : Text → Page) (stockURL date : Text)
    (lst : List Text) (db : Database) :
    (∀ stock ∈ lst,
      ((getStockInfoToDb (insertDaily accepts) fetch lst stockURL date db).table (tableOf stock)).map
        KeyedTable.rows = (db.table (tableOf stock)).map fun t => t.rows ++
          (pageRow (fetch (stockUrl stockURL stock)) stock date).toList.filter fun r =>
            accepts r = true ∧ ¬ t.Has (some stock, some date)) ∧
    (∀ table, (∀ stock ∈ lst, table ≠ tableOf stock) →
      (getStockInfoToDb (insertDaily accepts) fetch lst stockURL date db).table table = db.table table) ∧
    (∀ lst', (∀ stock, stock ∈ lst' ↔ stock ∈ lst) →
      getStockInfoToDb (insertDaily accepts) fetch lst' stockURL date db =
        getStockInfoToDb (insertDaily accepts) fetch lst stockURL date db) ∧
    getStockInfoToDb (insertDaily accepts) fetch lst stockURL date
        (getStockInfoToDb (insertDaily accepts) fetch lst stockURL date db) =
      getStockInfoToDb (insertDaily accepts) fetch lst stockURL date db := by
  have hgain : ∀ (stock : Text) (t : KeyedTable rowKey),
      (t.gain accepts (pageRow (fetch (stockUrl stockURL stock)) stock date)).gain accepts
        (pageRow (fetch (stockUrl stockURL stock)) stock date) =
      t.gain accepts (pageRow (fetch (stockUrl stockURL stock)) stock date) := fun _ _ => KeyedTable.gain_gain _
  simp only [getStockInfoToDb_insert]
  refine ⟨fun stock hstock => ?_, fun table htable => ?_, fun lst' hsame => ?_, ?_⟩
  · rw [Tables.table_foldl_modify tableOf_injective hgain hstock, Option.map_map]
    congr 1
    funext t
    exact KeyedTable.rows_gain pageRow_key
  · exact Tables.table_foldl_of_ne htable db
  · exact Tables.foldl_modify_congr tableOf_injective hgain hsame db
  · rw [← List.foldl_append]
    apply Tables.foldl_modify_congr tableOf_injective hgain
    intro stock
    rw [List.mem_append, or_self]

end RedisLuaLinux.Python.Daily
