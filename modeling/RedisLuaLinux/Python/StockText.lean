import RedisLuaLinux.Library.Attempt
import RedisLuaLinux.Library.PythonRepr

/-!
# The text file of the stocks

`getStockInfo`, which `Stock/test.py` and `get_parse.py` both have. The file is opened for writing
anew with each key of each stock, so that the last text written is all that it holds.

* `storeStock_file`: what the block for a stock leaves in the file.
* `getStockInfo_eq`: after the loop the file holds the last line that was written.
* `text_keeps_every_stock`: the file has one line for each complete stock if and only if there is
  only one of them and its dictionary is written last.
-/

namespace RedisLuaLinux.Python.Stock

open Library

/-- The elements inside the `div` of the class `stock-bets`, by their texts: those of the class
`bets-name`, the `dt`s and the `dd`s. -/
structure StockBets where
  betsName : List Text
  dt : List Text
  dd : List Text

/-- `none` is the empty text of a page that could not be fetched, and `some none` a page without
such a `div`. -/
abbrev Page := Option (Option StockBets)

/-- The text of a file; `none` where it does not exist. -/
abbrev File := Option Text

variable (printable : Char → Bool)

/-- The line of a dictionary. -/
def dictLine (infoDict : Dict) : Text := dictText printable infoDict ++ ['\n']

/-- `open` with the mode `w`, and one `write`. -/
def writeFile (text : Text) : Attempt File Unit := Attempt.modify fun _ => some text

/-- The loop over the keys. -/
def storeKeys : List Text → List Text → Dict → Attempt File Unit
  | [], _, _ => pure ()
  | _ :: _, [], _ => Attempt.ofOption none  -- valueList[i] is out of range
  | key :: keyList, val :: valueList, infoDict => do
    writeFile (dictLine printable (infoDict.set key val))
    storeKeys keyList valueList (infoDict.set key val)

/-- The block for one stock. -/
def storeStock (html : Page) : Attempt File Unit :=
  match html with
  | none => pure ()
  | some found => do
    let stockInfo ← Attempt.ofOption found
    let name ← Attempt.ofOption stockInfo.betsName[0]?
    let word ← Attempt.ofOption (firstWord name)
    storeKeys printable stockInfo.dt stockInfo.dd [("name".toList, word)]

/-- The loop over the stocks; an exception ends the block of its stock. -/
def getStockInfo (fetch : Text → Page) (lst : List Text) (stockUrl : Text) (file : File) : File :=
  lst.foldl (fun file stock => ((storeStock printable (fetch (stockUrl ++ stock ++ ".html".toList))).run file).2) file

/-! ## What a page says -/

/-- The dictionary of the name and those pairs of a `dt` and a `dd` that are both there. -/
def infoDict (word : Text) (stockInfo : StockBets) : Dict :=
  (stockInfo.dt.zip stockInfo.dd).foldl (fun d pair => d.set pair.1 pair.2) [("name".toList, word)]

/-- The name of a stock. -/
def stockName (stockInfo : StockBets) : Option Text := stockInfo.betsName[0]?.bind firstWord

/-- The line of a page that parses completely: with a name and a `dd` for every `dt`. -/
def completeLine (html : Page) : Option Text :=
  html.join.bind fun stockInfo => (stockName stockInfo).bind fun word =>
    if stockInfo.dt.length ≤ stockInfo.dd.length then some (dictLine printable (infoDict word stockInfo))
    else none

/-- The line of a page with a name, a `dt` and a `dd`, of the pairs that it has. -/
def pairsLine (html : Page) : Option Text :=
  html.join.bind fun stockInfo => (stockName stockInfo).bind fun word =>
    if stockInfo.dt ≠ [] ∧ stockInfo.dd ≠ [] then some (dictLine printable (infoDict word stockInfo))
    else none

/-- Among pages some of which have a name, a `dt` and a `dd`: one page is complete, and the last of
those has the same dictionary. Among pages without such a one: the file held the lines already. -/
def KeptBy (htmls : List Page) (file : File) : Prop :=
  match (htmls.filterMap (pairsLine printable)).getLast? with
  | some line => htmls.filterMap (completeLine printable) = [line]
  | none => file.getD [] = (htmls.filterMap (completeLine printable)).flatten

variable {printable}

/-- What the loop over the keys leaves in the file. -/
theorem storeKeys_file (keyList valueList : List Text) (d : Dict) (file : File) :
    ((storeKeys printable keyList valueList d).run file).2 =
      if keyList ≠ [] ∧ valueList ≠ [] then
        some (dictLine printable ((keyList.zip valueList).foldl (fun d pair => d.set pair.1 pair.2) d))
      else file := by
  induction keyList generalizing valueList d file with
  | nil => rfl
  | cons key keyList ih =>
    cases valueList with
    | nil => rfl
    | cons val valueList =>
      rw [if_pos ⟨nofun, nofun⟩, storeKeys, writeFile, Attempt.modify_bind, ih, List.zip_cons_cons,
        List.foldl_cons]
      split
      · rfl
      · rename_i hlast
        -- one of the lists ends here, so the pair was the last one
        have hempty : keyList.zip valueList = [] := by
          rw [List.zip_eq_nil_iff]
          by_contra hmore
          exact hlast (not_or.mp hmore)
        rw [hempty]
        rfl

/-- What the block for a stock leaves in the file. -/
theorem storeStock_file (html : Page) (file : File) :
    ((storeStock printable html).run file).2 = (pairsLine printable html).or file := by
  rcases html with _ | _ | stockInfo
  · rfl
  · rfl
  · have hrun : (storeStock printable (some (some stockInfo))).run file =
        stockInfo.betsName[0]?.elim (none, file) fun name => (firstWord name).elim (none, file) fun word =>
          (storeKeys printable stockInfo.dt stockInfo.dd [("name".toList, word)]).run file := rfl
    rw [hrun, pairsLine, Option.join_some, Option.bind_some, stockName]
    cases stockInfo.betsName[0]? with
    | none => rfl
    | some name =>
      rw [Option.elim_some, Option.bind_some]
      cases firstWord name with
      | none => rfl
      | some word =>
        rw [Option.elim_some, Option.bind_some, storeKeys_file, ← infoDict]
        split
        · rfl
        · rfl

/-- The pages that the loop fetches. -/
def fetched (fetch : Text → Page) (lst : List Text) (stockUrl : Text) : List Page :=
  lst.map fun stock => fetch (stockUrl ++ stock ++ ".html".toList)

/-- After the loop the file holds the last line that was written. -/
theorem getStockInfo_eq (fetch : Text → Page) (lst : List Text) (stockUrl : Text) (file : File) :
    getStockInfo printable fetch lst stockUrl file =
      ((fetched fetch lst stockUrl).filterMap (pairsLine printable)).getLast?.or file := by
  rw [getStockInfo]
  induction lst generalizing file with
  | nil => rfl
  | cons stock lst ih =>
    have hfetched : fetched fetch (stock :: lst) stockUrl =
        fetch (stockUrl ++ stock ++ ".html".toList) :: fetched fetch lst stockUrl := rfl
    rw [List.foldl_cons, storeStock_file, ih, hfetched]
    cases hline : pairsLine printable (fetch (stockUrl ++ stock ++ ".html".toList)) with
    | none => rw [List.filterMap_cons_none hline, Option.none_or]
    | some line =>
      rw [List.filterMap_cons_some hline, List.getLast?_cons, Option.some_or]
      cases ((fetched fetch lst stockUrl).filterMap (pairsLine printable)).getLast? <;> rfl

/-! ## Lines -/

/-- A text with one line break. -/
def OneLine (t : Text) : Prop := t.count '\n' = 1

theorem dictLine_oneLine (d : Dict) : OneLine (dictLine printable d) := by
  rw [OneLine, dictLine, List.count_append, List.count_eq_zero.mpr (newline_notMem_dictText d)]
  rfl

theorem pairsLine_oneLine {html : Page} {line : Text} (h : pairsLine printable html = some line) :
    OneLine line := by
  obtain ⟨stockInfo, -, h⟩ := Option.bind_eq_some_iff.mp h
  obtain ⟨word, -, h⟩ := Option.bind_eq_some_iff.mp h
  split at h
  · cases h
    exact dictLine_oneLine _
  · cases h

theorem completeLine_oneLine {html : Page} {line : Text} (h : completeLine printable html = some line) :
    OneLine line := by
  obtain ⟨stockInfo, -, h⟩ := Option.bind_eq_some_iff.mp h
  obtain ⟨word, -, h⟩ := Option.bind_eq_some_iff.mp h
  split at h
  · cases h
    exact dictLine_oneLine _
  · cases h

theorem count_flatten {lines : List Text} (h : ∀ line ∈ lines, OneLine line) :
    lines.flatten.count '\n' = lines.length := by
  induction lines with
  | nil => rfl
  | cons line lines ih =>
    have hline : line.count '\n' = 1 := h line List.mem_cons_self
    rw [List.flatten_cons, List.count_append, hline, List.length_cons,
      ih fun other hother => h other (List.mem_cons_of_mem line hother), Nat.add_comm]

/-- Lines together are one line if and only if there is only this one. -/
theorem flatten_eq_iff {lines : List Text} {line : Text} (hlines : ∀ line ∈ lines, OneLine line)
    (hline : OneLine line) : line = lines.flatten ↔ lines = [line] := by
  constructor
  · intro h
    have hcount := count_flatten hlines
    rw [← h, hline] at hcount
    obtain ⟨only, rfl⟩ := List.length_eq_one_iff.mp hcount.symm
    rw [h, List.flatten_singleton]
  · rintro rfl
    exact List.flatten_singleton.symm

/-- For every list of stocks, every page of each of them and every file before: after the loop the
file has exactly one line for each complete stock, in the order of the list and with its whole
dictionary, if and only if `KeptBy` holds of the pages and the file. -/
theorem text_keeps_every_stock (printable : Char → Bool) (fetch : Text → Page) (lst : List Text)
    (stockUrl : Text) (file : File) :
    (getStockInfo printable fetch lst stockUrl file).getD [] =
        ((fetched fetch lst stockUrl).filterMap (completeLine printable)).flatten ↔
      KeptBy printable (fetched fetch lst stockUrl) file := by
  rw [getStockInfo_eq, KeptBy]
  cases hlast : ((fetched fetch lst stockUrl).filterMap (pairsLine printable)).getLast? with
  | none => rfl
  | some line =>
    obtain ⟨html, -, hwritten⟩ := List.mem_filterMap.mp (List.mem_of_getLast? hlast)
    apply flatten_eq_iff
    · intro other hother
      obtain ⟨html, -, hcomplete⟩ := List.mem_filterMap.mp hother
      exact completeLine_oneLine hcomplete
    · exact pairsLine_oneLine hwritten

/-! ## Two stocks -/

def pageExample (stock high : String) : Page :=
  some (some ⟨[stock.toList], ["high".toList], [high.toList]⟩)

def pagesExample (url : Text) : Page :=
  if url = "http://gupiao.baidu.com/stock/sh600175.html".toList then pageExample "Mei Du" "2.21"
  else pageExample "Shi You" "6.69"

/-- Of two complete stocks only the last one is in the file. -/
theorem text_keeps_every_stock_fails :
    getStockInfo (fun _ => true) pagesExample ["sh600175".toList, "sh601857".toList]
        "http://gupiao.baidu.com/stock/".toList none =
      some "\x7b'name': 'Shi', 'high': '6.69'\x7d\n".toList ∧
    (getStockInfo (fun _ => true) pagesExample ["sh600175".toList, "sh601857".toList]
        "http://gupiao.baidu.com/stock/".toList none).getD [] ≠
      ((fetched pagesExample ["sh600175".toList, "sh601857".toList]
        "http://gupiao.baidu.com/stock/".toList).filterMap (completeLine fun _ => true)).flatten := by
  decide +kernel

end RedisLuaLinux.Python.Stock
