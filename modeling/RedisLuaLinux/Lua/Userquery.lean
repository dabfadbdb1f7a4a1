import RedisLuaLinux.Lua.Store
import RedisLuaLinux.Library.Interaction

/-!
# The user query

`userquery.lua` from the point where both connections stand: one request issues its
commands one after another, and the commands of all requests interleave. The script runs in
an environment of its own for each request, so that `res` and `sql` are not shared.
What Lua makes of a text as a number is left open beyond the decimal integers.

* `At`: where a request stands, with the replies it has had.
* `At.reply`: one reply leads from one point to the next.
-/

namespace RedisLuaLinux.Lua

open Library

/-- How a request ends: at the closing of both connections, with one of the two reported
errors, or with an error of the Lua runtime. -/
inductive Outcome
  | closed
  | badResult
  | updateFailed
  | luaError
  deriving DecidableEq, Repr

abbrev Script := Prog Command Reply Outcome

def redisTimeout : Nat := 20

def selectText (name : Text) : Text :=
  "select id,name,query_times,create_timestamp,last_access_timestamp from student where name='".toList
    ++ name ++ ['\'']

def updateText (id : Text) : Text :=
  "update student set query_times=query_times+1 where id=".toList ++ id

/-- The text of `ngx.null`, which the driver gives for `NULL`. -/
def nullText : Text := "userdata: NULL".toList

/-- A column as text. -/
def columnText (column : Option Text) : Text := column.getD nullText

def rowPairs (row : Student) : List (Text × Text) :=
  [("id".toList, intText row.id),
    ("query_times".toList, columnText (row.queryTimes.map intText)),
    ("create_timestamp".toList, columnText (row.createTimestamp.map intText)),
    ("last_access_timestamp".toList, columnText row.lastAccessTimestamp)]

def hitPairs (time : Nat) (count : Text) : List (Text × Text) :=
  [("last_access_timestamp".toList, natText time), ("query_times".toList, count)]

/-- The texts that Lua converts to a number besides the decimal integers (`7.5`, `0x10`, `1e3`):
`plusOne` gives the text of the sum with 1, and nothing for a text that is no number. -/
structure LuaNumbers where
  plusOne : Text → Option Text
  null : plusOne nullText = none

/-- A Lua that converts the decimal integers only. -/
def integersOnly : LuaNumbers := ⟨fun _ => none, rfl⟩

namespace LuaNumbers

/-- `count + 1` for a text; `none` is an error of the runtime. -/
def addOne (lua : LuaNumbers) (count : Text) : Option Text :=
  match readInt count with
  | some z => some (intText (z + 1))
  | none => lua.plusOne count

/-- `count + 1` with `count` taken from `result[4]`. -/
def nextCount (lua : LuaNumbers) (result : List Text) : Option Text :=
  match result[3]? with
  | none => some (intText (0 + 1))
  | some count => lua.addOne count

theorem nextCount_isSome (lua : LuaNumbers) (result : List Text) :
    (lua.nextCount result).isSome ↔ ∀ count ∈ result[3]?, (lua.addOne count).isSome := by
  unfold nextCount
  cases result[3]? with
  | none => simp
  | some count => simp

/-- The text that stands for `NULL` is no number. -/
theorem addOne_columnText (lua : LuaNumbers) (q : Option Int) :
    lua.addOne (columnText (q.map intText)) = q.map fun z => intText (z + 1) := by
  unfold addOne
  cases q with
  | none => exact lua.null
  | some z =>
    show (match readInt (intText z) with
      | some z => some (intText (z + 1))
      | none => lua.plusOne (intText z)) = _
    rw [readInt_intText]
    rfl

end LuaNumbers

/-- The four fields of a cached student, in the order in which the miss branch writes them. -/
def shape (id count created accessed : Text) : Fields :=
  [("id".toList, id), ("query_times".toList, count), ("create_timestamp".toList, created),
    ("last_access_timestamp".toList, accessed)]

/-- The UPDATE and the end of both branches. -/
def raiseCount (id : Text) : Script :=
  .call (.query (updateText id)) fun
    | none => .ret .updateFailed
    | some _ => .ret .closed

def fillExpire (name : Text) (row : Student) : Script :=
  .call (.expire name redisTimeout) fun _ => raiseCount (intText row.id)

def fillCache (name : Text) (row : Student) : Script :=
  .call (.hmset name (rowPairs row)) fun _ => fillExpire name row

def missBranch (name : Text) : Script :=
  .call (.query (selectText name)) fun
    | none => .ret .badResult
    | some (.rows (row :: _)) => fillCache name row
    -- `res[1]` is nil
    | some _ => .ret .luaError

def hitReread (name : Text) : Script :=
  .call (.hgetall name) fun
    | none => .ret .luaError
    | some result =>
      match result[1]? with
      | none => .ret .luaError
      | some id => raiseCount id

def hitExpire (name : Text) : Script :=
  .call (.expire name redisTimeout) fun _ => hitReread name

def hitWrite (name : Text) (time : Nat) (count : Text) : Script :=
  .call (.hmset name (hitPairs time count)) fun _ => hitExpire name

def hitTime (name : Text) (count : Text) : Script :=
  .call .osTime fun time => hitWrite name time count

def hitBranch (lua : LuaNumbers) (name : Text) (result : List Text) : Script :=
  match lua.nextCount result with
  | none => .ret .luaError
  | some count => hitTime name count

/-- The script for the argument `name` of the request, which may be missing. -/
def handler (lua : LuaNumbers) : Option Text → Script
  | none => .ret .closed
  | some name =>
    .call (.hgetall name) fun
      -- `next(result)` of an error reply
      | none => .ret .luaError
      | some [] => missBranch name
      | some result => hitBranch lua name result

/-- Requests against the two servers; a key may expire between any two commands. -/
def userquery (lua : LuaNumbers) : System Command Reply Outcome (Option Text) Store Answer Text where
  body := handler lua
  serve := Store.serve
  env := Store.expireKey

abbrev Log := List ((c : Command) × Reply c)
abbrev Request := Thread Command Reply Outcome (Option Text)
abbrev UserPool := Pool Command Reply Outcome (Option Text) Store
abbrev UserEvent := PoolEvent (Option Text) Answer Text

/-! ## Where a request stands -/

def readReply (name : Text) (result : List Text) : (c : Command) × Reply c :=
  ⟨.hgetall name, some result⟩

def selectReply (name : Text) (rows : List Student) : (c : Command) × Reply c :=
  ⟨.query (selectText name), some (.rows rows)⟩

/-- The log of a request for `name` and what is left of its script. `failed` collects the
ends with an error before the UPDATE. -/
inductive At (lua : LuaNumbers) (name : Text) : Log → Script → Prop
  | start : At lua name [] (handler lua (some name))
  | missed : At lua name [readReply name []] (missBranch name)
  | selected (row more) : At lua name [selectReply name (row :: more), readReply name []] (fillCache name row)
  | filled (row more b) :
    At lua name [⟨.hmset name (rowPairs row), b⟩, selectReply name (row :: more), readReply name []]
      (fillExpire name row)
  | renewed (row more b b') :
    At lua name [⟨.expire name redisTimeout, b⟩, ⟨.hmset name (rowPairs row), b'⟩,
      selectReply name (row :: more), readReply name []] (raiseCount (intText row.id))
  | hit (f result count) : lua.nextCount (f :: result) = some count →
    At lua name [readReply name (f :: result)] (hitTime name count)
  | timed (f result count time) : lua.nextCount (f :: result) = some count →
    At lua name [⟨.osTime, time⟩, readReply name (f :: result)] (hitWrite name time count)
  | written (f result count time b) : lua.nextCount (f :: result) = some count →
    At lua name [⟨.hmset name (hitPairs time count), b⟩, ⟨.osTime, time⟩, readReply name (f :: result)]
      (hitExpire name)
  | extended (f result count time b b') : lua.nextCount (f :: result) = some count →
    At lua name [⟨.expire name redisTimeout, b⟩, ⟨.hmset name (hitPairs time count), b'⟩, ⟨.osTime, time⟩,
      readReply name (f :: result)] (hitReread name)
  | reread (f result count time b b' result' id) : lua.nextCount (f :: result) = some count →
    result'[1]? = some id →
    At lua name [readReply name result', ⟨.expire name redisTimeout, b⟩,
      ⟨.hmset name (hitPairs time count), b'⟩, ⟨.osTime, time⟩, readReply name (f :: result)]
      (raiseCount id)
  | ended (log id r) : At lua name log (raiseCount id) →
    At lua name (⟨.query (updateText id), r⟩ :: log) (.ret (if r.isSome then .closed else .updateFailed))
  | failed (log o) : o = .luaError ∨ o = .badResult → At lua name log (.ret o)

variable {lua : LuaNumbers}

/-- One reply leads from one point to the next. -/
theorem At.reply {name : Text} {log : Log} {c : Command} {next : Reply c → Script}
    (h : At lua name log (.call c next)) (r : Reply c) : At lua name (⟨c, r⟩ :: log) (next r) := by
  generalize hrest : Prog.call c next = rest at h
  cases h with
  | start =>
    cases hrest
    match r with
    | none => exact .failed _ _ (Or.inl rfl)
    | some [] => exact .missed
    | some (f :: result) =>
      show At lua name _ (hitBranch lua name (f :: result))
      unfold hitBranch
      split
      · exact .failed _ _ (Or.inl rfl)
      · rename_i count hcount
        exact .hit f result count hcount
  | missed =>
    cases hrest
    match r with
    | none => exact .failed _ _ (Or.inr rfl)
    | some (.rows (row :: more)) => exact .selected row more
    | some (.rows []) => exact .failed _ _ (Or.inl rfl)
    | some .ok => exact .failed _ _ (Or.inl rfl)
  | selected row more =>
    cases hrest
    exact .filled row more r
  | filled row more b =>
    cases hrest
    exact .renewed row more r b
  | renewed row more b b' =>
    cases hrest
    have hat : At lua name _ (raiseCount (intText row.id)) := .renewed row more b b'
    have hdone := At.ended _ _ r hat
    cases r with
    | none => exact hdone
    | some result => exact hdone
  | hit f result count hcount =>
    cases hrest
    exact .timed f result count r hcount
  | timed f result count time hcount =>
    cases hrest
    exact .written f result count time r hcount
  | written f result count time b hcount =>
    cases hrest
    exact .extended f result count time r b hcount
  | extended f result count time b b' hcount =>
    cases hrest
    match r with
    | none => exact .failed _ _ (Or.inl rfl)
    | some result' =>
      show At lua name _ (match result'[1]? with | none => .ret .luaError | some id => raiseCount id)
      split
      · exact .failed _ _ (Or.inl rfl)
      · rename_i id hid
        exact .reread f result count time b b' result' id hcount hid
  | reread f result count time b b' result' id hcount hid =>
    cases hrest
    have hat : At lua name _ (raiseCount id) := .reread f result count time b b' result' id hcount hid
    have hdone := At.ended _ _ r hat
    cases r with
    | none => exact hdone
    | some result => exact hdone
  | ended log id r h => cases hrest
  | failed log o ho => cases hrest

/-- The commands of a request for `name`, with the replies that led to them. -/
theorem At.command_cases {name : Text} {log : Log} {c : Command} {next : Reply c → Script}
    (h : At lua name log (.call c next)) :
    (c = .hgetall name) ∨ (c = .query (selectText name)) ∨
    (∃ row more, c = .hmset name (rowPairs row) ∧
      log = [selectReply name (row :: more), readReply name []]) ∨
    (c = .expire name redisTimeout) ∨ (c = .osTime) ∨
    (∃ f result count time, c = .hmset name (hitPairs time count) ∧
      lua.nextCount (f :: result) = some count ∧ log = [⟨.osTime, time⟩, readReply name (f :: result)]) ∨
    ∃ id, c = .query (updateText id) ∧
      ((∃ row more, id = intText row.id ∧ selectReply name (row :: more) ∈ log) ∨
        ∃ result, result[1]? = some id ∧ readReply name result ∈ log) := by
  generalize hrest : Prog.call c next = rest at h
  cases h with
  | start =>
    cases hrest
    exact Or.inl rfl
  | missed =>
    cases hrest
    exact Or.inr (Or.inl rfl)
  | selected row more =>
    cases hrest
    exact Or.inr (Or.inr (Or.inl ⟨row, more, rfl, rfl⟩))
  | filled row more b =>
    cases hrest
    exact Or.inr (Or.inr (Or.inr (Or.inl rfl)))
  | renewed row more b b' =>
    cases hrest
    refine Or.inr (Or.inr (Or.inr (Or.inr (Or.inr (Or.inr ⟨_, rfl, Or.inl ⟨row, more, rfl, ?_⟩⟩)))))
    simp
  | hit f result count hcount =>
    cases hrest
    exact Or.inr (Or.inr (Or.inr (Or.inr (Or.inl rfl))))
  | timed f result count time hcount =>
    cases hrest
    exact Or.inr (Or.inr (Or.inr (Or.inr (Or.inr (Or.inl ⟨f, result, count, time, rfl, hcount, rfl⟩)))))
  | written f result count time b hcount =>
    cases hrest
    exact Or.inr (Or.inr (Or.inr (Or.inl rfl)))
  | extended f result count time b b' hcount =>
    cases hrest
    exact Or.inl rfl
  | reread f result count time b b' result' id hcount hid =>
    cases hrest
    refine Or.inr (Or.inr (Or.inr (Or.inr (Or.inr (Or.inr ⟨id, rfl, Or.inr ⟨result', hid, ?_⟩⟩)))))
    simp
  | ended log id r h => cases hrest
  | failed log o ho => cases hrest

theorem At.hgetall_key {name key : Text} {log : Log} {next : Reply (.hgetall key) → Script}
    (h : At lua name log (.call (.hgetall key) next)) : key = name := by
  rcases h.command_cases with hc | hc | ⟨row, more, hc, -⟩ | hc | hc |
      ⟨f, result, count, time, hc, -, -⟩ | ⟨id, hc, -⟩
  · exact Command.hgetall.inj hc
  · cases hc
  · cases hc
  · cases hc
  · cases hc
  · cases hc
  · cases hc

theorem At.hmset_key {name key : Text} {pairs : List (Text × Text)} {log : Log}
    {next : Reply (.hmset key pairs) → Script} (h : At lua name log (.call (.hmset key pairs) next)) :
    key = name := by
  rcases h.command_cases with hc | hc | ⟨row, more, hc, -⟩ | hc | hc |
      ⟨f, result, count, time, hc, -, -⟩ | ⟨id, hc, -⟩
  · cases hc
  · cases hc
  · exact (Command.hmset.inj hc).1
  · cases hc
  · cases hc
  · exact (Command.hmset.inj hc).1
  · cases hc

/-- A request without a name ends at once. -/
def AtRequest (lua : LuaNumbers) : Option Text → Log → Script → Prop
  | none, log, rest => log = [] ∧ rest = .ret .closed
  | some name, log, rest => At lua name log rest

theorem AtRequest.start (request : Option Text) : AtRequest lua request [] (handler lua request) := by
  cases request with
  | none => exact ⟨rfl, rfl⟩
  | some name => exact At.start

/-! ## The statements of the script -/

theorem selectHead_run : LexState.run .gap
    "select id,name,query_times,create_timestamp,last_access_timestamp from student where name='".toList
    = (selectHead, .quoted '\'' []) :=
  Prod.ext (by decide +kernel) (by decide +kernel)

theorem incrementHead_run : LexState.run .gap
    "update student set query_times=query_times+1 where id=".toList = (incrementHead, .gap) :=
  Prod.ext (by decide +kernel) (by decide +kernel)

theorem parse_selectText {name : Text} (h : Carried '\'' name) :
    parseSql (selectText name) = some (.select name) := by
  have hread : readQuoted '\'' (name ++ ['\'']) = some (name, []) :=
    readQuoted_of_carried (by decide) h ⟨nofun, nofun⟩
  have hbody : tokens (selectText name) = some (selectHead ++ [.literal name]) := by
    unfold selectText
    rw [List.append_assoc]
    refine (tokens_literal selectHead_run).trans ?_
    rw [hread]
    rfl
  have hstrip : (selectHead ++ [Token.literal name]).dropPrefix? selectHead = some [.literal name] :=
    List.dropPrefix?_eq_some_iff.mpr ⟨selectHead, rfl, by simp⟩
  simp only [parseSql, hbody, Option.bind_eq_bind, Option.bind_some, hstrip]

theorem parse_updateText (id : Int) : parseSql (updateText (intText id)) = some (.increment id) := by
  have hselect : ∀ ts, (incrementHead ++ ts).dropPrefix? selectHead = none := fun _ => rfl
  have hstrip : ∀ ts, (incrementHead ++ ts).dropPrefix? incrementHead = some ts := fun ts =>
    List.dropPrefix?_eq_some_iff.mpr ⟨incrementHead, rfl, by simp⟩
  have hbody : ∀ ts, tokens (intText id) = some ts →
      tokens (updateText (intText id)) = some (incrementHead ++ ts) := by
    intro ts hts
    exact (tokens_append incrementHead_run).trans (congrArg (Option.map _) hts)
  cases id with
  | ofNat n =>
    have hparse := hbody [.word (natText n)] (tokens_natText n)
    simp only [parseSql, hparse, Option.bind_eq_bind, Option.bind_some, hselect, hstrip, readConstant,
      readNat_natText, Option.map_some]
    rfl
  | negSucc n =>
    have hsign : tokens (intText (.negSucc n)) = some [.punct '-', .word (natText (n + 1))] :=
      (tokensFrom_cons .gap '-' _).trans (congrArg (Option.map _) (tokens_natText (n + 1)))
    have hparse := hbody _ hsign
    simp only [parseSql, hparse, Option.bind_eq_bind, Option.bind_some, hselect, hstrip, readConstant,
      readNat_natText, Option.map_some, Option.some.injEq, Statement.increment.injEq]
    omega

/-! ## Names and their rows -/

/-- The rows that the SELECT of a request for `name` finds. -/
def matched (t : StudentTable) (name : Text) : List Student :=
  match parseSql (selectText name) with
  | some (.select literal) => t.select literal
  | _ => []

/-- `id` is the id of a row that the SELECT of a request for `name` finds. -/
def StudentTable.Matches (t : StudentTable) (name : Text) (id : Int) : Prop :=
  id ∈ (matched t name).map Student.id

section Matched

variable {t : StudentTable} {name : Text} {row : Student}

theorem matched_of_parse (t : StudentTable) {literal : Text}
    (h : parseSql (selectText name) = some (.select literal)) :
    matched t name = t.select literal := by
  unfold matched
  rw [h]

/-- A name without quotes and backslashes is looked up as it stands. -/
theorem matched_of_carried (h : Carried '\'' name) : matched t name = t.select name :=
  matched_of_parse t (parse_selectText h)

theorem matches_of_carried (h : Carried '\'' name) (hexact : t.Exact name) (id : Int) :
    t.Matches name id ↔ t.Named name id := by
  rw [StudentTable.Matches, matched_of_carried h, hexact.select_eq, StudentTable.named_iff]

/-- A text that finds a row is a SELECT. -/
theorem parse_of_matched (h : row ∈ matched t name) :
    row ∈ t.rows ∧ ∃ literal, parseSql (selectText name) = some (.select literal) := by
  unfold matched at h
  split at h
  · rename_i literal hparse
    exact ⟨List.mem_of_mem_filter h, literal, hparse⟩
  · cases h

theorem matched_increment_map (t : StudentTable) (id : Int) (stamp name : Text) :
    matched (t.increment id stamp) name = (matched t name).map (countRow id stamp) := by
  unfold matched
  split
  · exact t.select_increment_map id stamp _
  · rfl

theorem increment_matches (t : StudentTable) (id : Int) (stamp : Text) :
    (t.increment id stamp).Matches = t.Matches := by
  have hid : Student.id ∘ countRow id stamp = Student.id := funext (countRow_id id stamp)
  funext name id'
  rw [StudentTable.Matches, StudentTable.Matches, matched_increment_map, List.map_map, hid]

theorem matched_increment (h : matched t name = [row]) (stamp : Text) :
    matched (t.increment row.id stamp) name = [row.count stamp] := by
  rw [matched_increment_map, h]
  simp [countRow]

end Matched

end RedisLuaLinux.Lua
