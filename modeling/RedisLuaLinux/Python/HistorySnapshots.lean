import RedisLuaLinux.Python.History

/-!
# Runs of the history scraper over growing pages

* `Older`: a page that was not fetched, or that lacks the newest of its day rows.
* `dayStockBlock_older`: what an older page has is processed first.
* `earlier_runs_absorbed`: earlier runs over older pages make no difference to the rows that a
  run over the final pages leaves.
-/

namespace RedisLuaLinux.Python

open Library

/-- `Older p q`: `p` was not fetched, or is `q` without some of its newest day rows, which a
page lists first. -/
inductive Older : Page → Page → Prop
  | notFetched (q : Page) : Older none q
  | same (q : Page) : Older q q
  | snapshot (title heading : Block) (newest days : List Block) (others : List (List Block)) :
    Older (some ((title :: heading :: days) :: others))
      (some ((title :: heading :: (newest ++ days)) :: others))

theorem dayStockBlock_older {p q : Page} (h : Older p q) :
    ∃ rest, dayStockBlock q = dayStockBlock p ++ rest := by
  cases h with
  | notFetched => exact ⟨dayStockBlock q, rfl⟩
  | same => exact ⟨[], (List.append_nil _).symm⟩
  | snapshot title heading newest days others => exact ⟨newest.reverse, List.reverse_append⟩

variable {F : Type} {num : Numerals F} {accepts : StoredRow → Bool}

/-- No two day rows of one stock with the same date differ. -/
def Agreeing (num : Numerals F) (fetch : Text → Page) : Prop :=
  ∀ stock ∈ getStockList, ∀ block ∈ dayRows fetch stock, ∀ block' ∈ dayRows fetch stock,
    ∀ info info', parseDayStockInfo num block = some info → parseDayStockInfo num block' = some info' →
      info.date = info'.date → info = info'

/-- The inserts of a run come from its day rows. -/
theorem dayRows_of_call {fetch : Text → Page} {call : Text × StoredRow} (h : call ∈ runCalls num fetch) :
    ∃ stock ∈ getStockList, ∃ block ∈ dayRows fetch stock, dayCall num stock block = some call := by
  obtain ⟨stock, hstock, url, hurl, hcall⟩ := mem_runCalls.mp h
  obtain ⟨block, hblock, hday⟩ := exists_of_mem_untilError hcall
  exact ⟨stock, hstock, block, List.mem_flatMap.mpr ⟨url, hurl, hblock⟩, hday⟩

/-- Two inserts into one table with the same key are the same. -/
theorem calls_agree {fetch : Text → Page} (hagree : Agreeing num fetch) {table : Text} {r r' : StoredRow}
    (h : (table, r) ∈ runCalls num fetch) (h' : (table, r') ∈ runCalls num fetch)
    (hkey : rowKey r = rowKey r') : r = r' := by
  obtain ⟨stock, hstock, block, hblock, hday⟩ := dayRows_of_call h
  obtain ⟨stock', -, block', hblock', hday'⟩ := dayRows_of_call h'
  obtain ⟨info, hinfo, heq⟩ := Option.map_eq_some_iff.mp hday
  obtain ⟨info', hinfo', heq'⟩ := Option.map_eq_some_iff.mp hday'
  simp only [Prod.mk.injEq] at heq heq'
  obtain ⟨rfl, rfl⟩ := heq
  obtain ⟨htable, rfl⟩ := heq'
  obtain rfl : stock' = stock := List.append_cancel_left htable
  have hdate : info.date = info'.date := Option.some.inj (Prod.mk.inj hkey).2
  obtain rfl := hagree stock' hstock block hblock block' hblock' info info' hinfo hinfo' hdate
  rfl

/-- A run over older pages makes no insert that a run over the pages does not make. -/
theorem runCalls_older {earlier final : Text → Page} (h : ∀ url, Older (earlier url) (final url)) :
    ∀ call ∈ runCalls num earlier, call ∈ runCalls num final := by
  intro call hcall
  obtain ⟨stock, hstock, url, hurl, hpage⟩ := mem_runCalls.mp hcall
  refine mem_runCalls.mpr ⟨stock, hstock, url, hurl, ?_⟩
  obtain ⟨rest, hrest⟩ := dayStockBlock_older (h url)
  unfold pageCalls
  rw [hrest]
  exact mem_untilError_append rest hpage

/-- Any runs over pages that were not fetched or were older, and then a run over the final
pages, leave the tables with the same rows as the run over the final pages alone; a run over
the final pages may itself be among the earlier ones. -/
theorem earlier_runs_absorbed {final : Text → Page} (hagree : Agreeing num final)
    {earlier : List (Text → Page)} (hold : ∀ fetch ∈ earlier, ∀ url, Older (fetch url) (final url))
    (db : Database) :
    Tables.SameRows
      (main num (insertHistory accepts) final
        (earlier.foldl (fun db fetch => main num (insertHistory accepts) fetch db) db))
      (main num (insertHistory accepts) final db) := by
  have hearlier : earlier.foldl (fun db fetch => main num (insertHistory accepts) fetch db) db =
      db.insertAll accepts (earlier.flatMap (runCalls num)) := by
    unfold Tables.insertAll
    rw [List.foldl_flatMap]
    congr 1
    funext db fetch
    exact main_eq db
  rw [hearlier, main_eq, main_eq]
  apply Tables.sameRows_insertAll
  · intro call hcall
    obtain ⟨fetch, hfetch, hcall⟩ := List.mem_flatMap.mp hcall
    exact runCalls_older (hold fetch hfetch) call hcall
  · intro table r r' h h' hkey
    exact calls_agree hagree h h' hkey

/-! ## Two days of one stock -/

/-- Whole numbers only: enough for the pages below. -/
def wholeNumerals : Numerals Int where
  float := readInt
  int := readInt
  divide x n := some (intText (x / n) ++ ".0".toList)

def heading : Block := [["Date".toList]]

def dayExample (date : Text) : Block :=
  [["\n ".toList ++ date ++ " ".toList], ["6.670".toList], ["6.690".toList], ["6.670".toList],
    ["6.640".toList], ["100".toList], ["600".toList]]

/-- The first season of `sh601857` with the given day rows; no other page is there. -/
def pagesExample (days : List Block) (url : Text) : Page :=
  if url = stockUrl queryUrl "sh601857".toList "2019".toList "1".toList then
    some [heading :: heading :: days]
  else none

def acceptsAll (_ : StoredRow) : Bool := true

def databaseExample : Database := ⟨fun _ => some KeyedTable.empty⟩

/-- The pages at the end, newest day first. -/
def finalExample : Text → Page :=
  pagesExample [dayExample "2019-03-02".toList, dayExample "2019-03-01".toList]

def olderExample : Text → Page := pagesExample [dayExample "2019-03-01".toList]

theorem finalExample_agreeing : Agreeing wholeNumerals finalExample := by
  have hcheck : ∀ stock ∈ getStockList, ∀ block ∈ dayRows finalExample stock,
      ∀ block' ∈ dayRows finalExample stock,
        (parseDayStockInfo wholeNumerals block).map DayStockInfo.date =
          (parseDayStockInfo wholeNumerals block').map DayStockInfo.date →
        parseDayStockInfo wholeNumerals block = parseDayStockInfo wholeNumerals block' := by
    decide +kernel
  intro stock hstock block hblock block' hblock' info info' hinfo hinfo' hdate
  have hsame := hcheck stock hstock block hblock block' hblock'
  rw [hinfo, hinfo'] at hsame
  exact Option.some.inj (hsame (congrArg some hdate))

theorem olderExample_older (url : Text) : Older (olderExample url) (finalExample url) := by
  unfold olderExample finalExample pagesExample
  split
  · exact .snapshot heading heading [dayExample "2019-03-02".toList] _ []
  · exact .notFetched _

theorem earlier_runs_absorbed_example :
    Tables.SameRows
      (main wholeNumerals (insertHistory acceptsAll) finalExample
        ([olderExample, finalExample].foldl
          (fun db fetch => main wholeNumerals (insertHistory acceptsAll) fetch db) databaseExample))
      (main wholeNumerals (insertHistory acceptsAll) finalExample databaseExample) := by
  apply earlier_runs_absorbed finalExample_agreeing
  intro fetch hfetch url
  rcases List.mem_cons.mp hfetch with rfl | hfetch
  · exact olderExample_older url
  · rw [List.mem_singleton.mp hfetch]
    exact .same _

end RedisLuaLinux.Python
