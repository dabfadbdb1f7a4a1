import RedisLuaLinux.Lua.Sequential

/-!
# The argument in the SELECT text

`userquery.lua` puts the argument between single quotes as it is.

* `select_names_rows`: the text asks for the rows named like the argument, as far as the server
  compares names exactly, if and only if the argument has no single quote, and no backslash but
  before `%` or `_`.
* `select_names_rows_fails`: an argument with two single quotes, which asks for a row with one.
-/

namespace RedisLuaLinux.Lua

open Library

/-- Whatever the argument is, a SELECT asks for the literal that is read after the opening
quote. -/
theorem parse_selectText_cases {name : Text} {st : Statement} (h : parseSql (selectText name) = some st) :
    ∃ literal rest, readQuoted '\'' (name ++ ['\'']) = some (literal, rest) ∧ st = .select literal := by
  have htokens : tokens (selectText name) =
      (readQuoted '\'' (name ++ ['\''])).bind fun read =>
        (tokens read.2).map fun ts => selectHead ++ .literal read.1 :: ts := by
    unfold selectText
    rw [List.append_assoc]
    exact tokens_literal selectHead_run
  unfold parseSql at h
  rw [htokens] at h
  obtain ⟨ts, hts, h⟩ := Option.bind_eq_some_iff.mp h
  obtain ⟨⟨literal, rest⟩, hread, hrest⟩ := Option.bind_eq_some_iff.mp hts
  obtain ⟨more, -, rfl⟩ := Option.map_eq_some_iff.mp hrest
  refine ⟨literal, rest, hread, ?_⟩
  have hselect : (selectHead ++ .literal literal :: more).dropPrefix? selectHead =
      some (.literal literal :: more) :=
    List.dropPrefix?_eq_some_iff.mpr ⟨selectHead, by simp, by simp⟩
  have hincrement : (selectHead ++ .literal literal :: more).dropPrefix? incrementHead = none := rfl
  rw [hselect, hincrement] at h
  cases more with
  | nil => exact (Option.some.inj h).symm
  | cons token more => cases h

/-- A table whose one row has the given name. -/
def oneStudent (name : Text) : StudentTable :=
  ⟨[⟨1, name, some 0, some 0, none⟩], List.nodup_singleton 1, binaryCollation⟩

theorem oneStudent_exact (name : Text) : (oneStudent name).Exact name :=
  fun _ _ => decide_eq_true_iff

theorem eq_of_select {literal name : Text} (h : (oneStudent name).select literal = (oneStudent name).rowsNamed name) :
    name = literal := by
  by_contra hne
  simp [oneStudent, StudentTable.select, StudentTable.rowsNamed, binaryCollation, hne] at h

/-- The text that a request sends for the argument `name` is a SELECT that returns the rows
named `name`, for every content of the table where the server compares names exactly with this one,
if and only if the quotes carry the argument. -/
theorem select_names_rows (name : Text) :
    (∃ literal, parseSql (selectText name) = some (.select literal) ∧
      ∀ t : StudentTable, t.Exact name → t.select literal = t.rowsNamed name) ↔ Carried '\'' name := by
  constructor
  · rintro ⟨literal, hparse, hrows⟩
    obtain ⟨literal', rest, hread, heq⟩ := parse_selectText_cases hparse
    obtain rfl := Statement.select.inj heq
    obtain rfl := eq_of_select (hrows (oneStudent name) (oneStudent_exact name))
    have hstop : Stops '\'' [] := ⟨by simp, by simp⟩
    exact carried_of_readQuoted (Or.inl rfl) hstop hread
  · intro h
    exact ⟨name, parse_selectText h, fun _ hexact => hexact.select_eq⟩

def obrien : Student := ⟨1, "o'brien".toList, some 7, some 0, some "t0".toList⟩

def obrienStore : Store := ⟨fun _ => none, ⟨[obrien], by decide, binaryCollation⟩⟩

/-- The answers to a request for `o''brien` that finds no hash. -/
def obrienAnswers : List Answer := [.done, .rows [obrien], .done, .done, .updated "t1".toList]

/-- How the request ends, and what the cache holds under its argument. -/
def observedEnd (out : Outcome × Store) : Outcome × Option (Option Text × Option Text) :=
  (out.1, out.2.cachedRow "o''brien".toList)

/-- The argument `o''brien` asks for the row of `o'brien`: that row is cached under the argument
and counted, while no row has the argument as its name. -/
theorem select_names_rows_fails :
    parseSql (selectText "o''brien".toList) = some (.select "o'brien".toList) ∧
    obrienStore.students.rowsNamed "o''brien".toList = [] ∧
    obrienStore.students.select "o'brien".toList = [obrien] ∧
    ∃ out, (handler integersOnly (some "o''brien".toList)).exec Store.serve obrienStore obrienAnswers = some out ∧
      observedEnd out = (.closed, some (some "1".toList, some "7".toList)) ∧
      out.2.students.rows = [⟨1, "o'brien".toList, some 8, some 0, some "t1".toList⟩] := by
  have hend : ((handler integersOnly (some "o''brien".toList)).exec Store.serve obrienStore obrienAnswers).map
      observedEnd = some (.closed, some (some "1".toList, some "7".toList)) := by
    decide +kernel
  have hrows : ((handler integersOnly (some "o''brien".toList)).exec Store.serve obrienStore obrienAnswers).map
      (fun out => out.2.students.rows) =
      some [⟨1, "o'brien".toList, some 8, some 0, some "t1".toList⟩] := by
    decide +kernel
  obtain ⟨out, hexec, hobs⟩ := Option.map_eq_some_iff.mp hend
  rw [hexec, Option.map_some, Option.some.injEq] at hrows
  exact ⟨by decide +kernel, by decide +kernel, by decide +kernel, out, hexec, hobs, hrows⟩

end RedisLuaLinux.Lua
