import RedisLuaLinux.Library.SqlLexer
import Mathlib

/-!
# Redis and MySQL under the user query

The commands that `userquery.lua` issues and what the two servers do with them. Redis holds
a hash per key, as fields in insertion order; a hash expires only while it has a time to
live. MySQL holds the table `student` of `create.sql` and reads the SQL text it is sent:
the two statements of the script are understood, and any other text is refused. How MySQL
compares a name with a literal is up to the collation of the column and is left open.

`Store.serve` takes the answer that the servers give and is undefined where they cannot
answer so. A failed command has no effect.
-/

namespace RedisLuaLinux.Lua

open Library

/-! ## Redis -/

/-- The fields of a hash with their values, in insertion order. -/
abbrev Fields := List (Text × Text)

/-- An existing field keeps its place; a new one comes last. -/
def setField (f v : Text) : Fields → Fields
  | [] => [(f, v)]
  | (g, w) :: rest => if g = f then (g, v) :: rest else (g, w) :: setField f v rest

def setFields (fields : Fields) (pairs : List (Text × Text)) : Fields :=
  pairs.foldl (fun fields pair => setField pair.1 pair.2 fields) fields

structure Hash where
  fields : Fields
  expires : Bool
  deriving DecidableEq, Repr

/-- The reply of HGETALL: fields and values in turn. -/
def flatten : Fields → List Text
  | [] => []
  | (f, v) :: rest => f :: v :: flatten rest

/-! ## The table student -/

/-- A row of `student`; `none` is `NULL`. -/
structure Student where
  id : Int
  name : Text
  queryTimes : Option Int
  createTimestamp : Option Int
  lastAccessTimestamp : Option Text
  deriving DecidableEq, Repr

/-- The rows, in the order of the table; `id` is the primary key. `sameName` is the `=` of the
server for a name and a literal. -/
structure StudentTable where
  rows : List Student
  unique : (rows.map Student.id).Nodup
  sameName : Text → Text → Bool

/-- `query_times = query_times + 1`; a row that changes gets a new access time. -/
def Student.count (r : Student) (stamp : Text) : Student :=
  match r.queryTimes with
  | none => r
  | some q => { r with queryTimes := some (q + 1), lastAccessTimestamp := some stamp }

theorem Student.count_id (r : Student) (stamp : Text) : (r.count stamp).id = r.id := by
  unfold Student.count
  split <;> rfl

theorem Student.count_name (r : Student) (stamp : Text) : (r.count stamp).name = r.name := by
  unfold Student.count
  split <;> rfl

def countRow (id : Int) (stamp : Text) (r : Student) : Student :=
  if r.id = id then r.count stamp else r

theorem countRow_id (id : Int) (stamp : Text) (r : Student) : (countRow id stamp r).id = r.id := by
  unfold countRow
  split
  · exact r.count_id stamp
  · rfl

theorem countRow_name (id : Int) (stamp : Text) (r : Student) :
    (countRow id stamp r).name = r.name := by
  unfold countRow
  split
  · exact r.count_name stamp
  · rfl

def StudentTable.increment (t : StudentTable) (id : Int) (stamp : Text) : StudentTable where
  rows := t.rows.map (countRow id stamp)
  unique := by
    have hid : (t.rows.map (countRow id stamp)).map Student.id = t.rows.map Student.id := by
      rw [List.map_map]
      exact List.map_congr_left fun r _ => countRow_id id stamp r
    rw [hid]
    exact t.unique
  sameName := t.sameName

/-- The rows that a SELECT with the literal `name` finds. -/
def StudentTable.select (t : StudentTable) (name : Text) : List Student :=
  t.rows.filter fun r => t.sameName r.name name

/-- The rows with the name `name`, letter for letter. -/
def StudentTable.rowsNamed (t : StudentTable) (name : Text) : List Student :=
  t.rows.filter fun r => r.name = name

/-- The `=` of the server holds of the name of a row and `name` just where they are the same text: no
name in the table differs from `name` only in what the collation ignores (the case of the letters,
say). -/
def StudentTable.Exact (t : StudentTable) (name : Text) : Prop :=
  ∀ r ∈ t.rows, t.sameName r.name name = true ↔ r.name = name

instance (t : StudentTable) (name : Text) : Decidable (t.Exact name) :=
  inferInstanceAs (Decidable (∀ r ∈ t.rows, t.sameName r.name name = true ↔ r.name = name))

/-- The comparison of a binary collation. -/
def binaryCollation (name literal : Text) : Bool := name = literal

theorem StudentTable.Exact.select_eq {t : StudentTable} {name : Text} (h : t.Exact name) :
    t.select name = t.rowsNamed name := by
  refine List.filter_congr fun r hr => ?_
  rw [Bool.eq_iff_iff, decide_eq_true_iff]
  exact h r hr

/-- `id` is the id of a row with the name `name`. -/
def StudentTable.Named (t : StudentTable) (name : Text) (id : Int) : Prop :=
  ∃ r ∈ t.rows, r.name = name ∧ r.id = id

/-- An UPDATE changes rows in place, among those of their name. -/
theorem StudentTable.filter_increment (t : StudentTable) (f : Text → Bool) (id : Int) (stamp : Text) :
    ((t.increment id stamp).rows.filter fun r => f r.name) =
      (t.rows.filter fun r => f r.name).map (countRow id stamp) := by
  have hname : (fun r : Student => f r.name) ∘ countRow id stamp = fun r => f r.name := by
    funext r
    rw [Function.comp_apply, countRow_name]
  show (t.rows.map (countRow id stamp)).filter _ = _
  rw [List.filter_map, hname]

theorem StudentTable.select_increment_map (t : StudentTable) (id : Int) (stamp name : Text) :
    (t.increment id stamp).select name = (t.select name).map (countRow id stamp) :=
  t.filter_increment (fun name' => t.sameName name' name) id stamp

theorem StudentTable.named_iff {t : StudentTable} {name : Text} {id : Int} :
    t.Named name id ↔ id ∈ (t.rowsNamed name).map Student.id := by
  simp [StudentTable.Named, StudentTable.rowsNamed, and_assoc]

/-- An UPDATE neither renames nor removes a row. -/
theorem StudentTable.increment_named (t : StudentTable) (id : Int) (stamp : Text) :
    (t.increment id stamp).Named = t.Named := by
  have hid : Student.id ∘ countRow id stamp = Student.id := funext (countRow_id id stamp)
  funext name id'
  have hrows : (t.increment id stamp).rowsNamed name = (t.rowsNamed name).map (countRow id stamp) :=
    t.filter_increment (fun name' => name' = name) id stamp
  rw [eq_iff_iff, named_iff, named_iff, hrows, List.map_map, hid]

theorem StudentTable.increment_exact (t : StudentTable) (id : Int) (stamp : Text) :
    (t.increment id stamp).Exact = t.Exact := by
  funext name
  have hrow (r : Student) : (t.sameName (countRow id stamp r).name name = true ↔
      (countRow id stamp r).name = name) ↔ (t.sameName r.name name = true ↔ r.name = name) := by
    rw [countRow_name]
  rw [eq_iff_iff]
  show (∀ r ∈ t.rows.map (countRow id stamp), _) ↔ _
  rw [List.forall_mem_map]
  exact forall₂_congr fun r _ => hrow r

/-- The sum of `query_times` over the rows of a name. -/
def StudentTable.total (t : StudentTable) (name : Text) : Int :=
  ((t.rowsNamed name).map fun r => r.queryTimes.getD 0).sum

/-- The UPDATE of the row `r` changes that row only. -/
theorem StudentTable.increment_rows {t : StudentTable} {r : Student} (hr : r ∈ t.rows) (stamp : Text) :
    ∃ before after, t.rows = before ++ r :: after ∧
      (t.increment r.id stamp).rows = before ++ r.count stamp :: after := by
  obtain ⟨before, after, hrows⟩ := List.append_of_mem hr
  have hunique := t.unique
  rw [hrows, List.map_append, List.map_cons, List.nodup_middle, List.nodup_cons,
    List.mem_append, not_or] at hunique
  have hsame : ∀ part : List Student, r.id ∉ part.map Student.id → part.map (countRow r.id stamp) = part := by
    intro part hpart
    refine (List.map_congr_left fun x hx => ?_).trans (List.map_id part)
    have hne : x.id ≠ r.id := fun heq => hpart (List.mem_map.mpr ⟨x, hx, heq⟩)
    simp [countRow, hne]
  refine ⟨before, after, hrows, ?_⟩
  show t.rows.map (countRow r.id stamp) = _
  rw [hrows, List.map_append, List.map_cons, hsame before hunique.1.1, hsame after hunique.1.2]
  simp [countRow]

theorem StudentTable.rowsNamed_increment_of_ne {t : StudentTable} {r : Student} (hr : r ∈ t.rows)
    (stamp : Text) {name : Text} (hne : r.name ≠ name) :
    (t.increment r.id stamp).rowsNamed name = t.rowsNamed name := by
  obtain ⟨before, after, hold, hnew⟩ := increment_rows hr stamp
  unfold StudentTable.rowsNamed
  rw [hold, hnew, List.filter_append, List.filter_append,
    List.filter_cons_of_neg (by simpa [Student.count_name]), List.filter_cons_of_neg (by simpa)]

theorem StudentTable.total_increment {t : StudentTable} {r : Student} (hr : r ∈ t.rows) (stamp : Text)
    (hcount : r.queryTimes.isSome) :
    (t.increment r.id stamp).total r.name = t.total r.name + 1 := by
  obtain ⟨before, after, hold, hnew⟩ := increment_rows hr stamp
  obtain ⟨q, hq⟩ := Option.isSome_iff_exists.mp hcount
  have hraised : (r.count stamp).queryTimes = some (q + 1) := by simp [Student.count, hq]
  unfold StudentTable.total StudentTable.rowsNamed
  rw [hold, hnew, List.filter_append, List.filter_append,
    List.filter_cons_of_pos (by simp [Student.count_name]), List.filter_cons_of_pos (by simp)]
  simp only [List.map_append, List.map_cons, List.sum_append, List.sum_cons, hq, hraised, Option.getD_some]
  omega

theorem StudentTable.total_increment_of_ne {t : StudentTable} {r : Student} (hr : r ∈ t.rows)
    (stamp : Text) {name : Text} (hne : r.name ≠ name) :
    (t.increment r.id stamp).total name = t.total name := by
  unfold StudentTable.total
  rw [rowsNamed_increment_of_ne hr stamp hne]

/-! ## The statements -/

inductive Statement
  | select (name : Text)
  | increment (id : Int)
  deriving DecidableEq, Repr

def selectHead : List Token :=
  [.word "select".toList, .word "id".toList, .punct ',', .word "name".toList, .punct ',',
    .word "query_times".toList, .punct ',', .word "create_timestamp".toList, .punct ',',
    .word "last_access_timestamp".toList, .word "from".toList, .word "student".toList,
    .word "where".toList, .word "name".toList, .punct '=']

def incrementHead : List Token :=
  [.word "update".toList, .word "student".toList, .word "set".toList, .word "query_times".toList,
    .punct '=', .word "query_times".toList, .punct '+', .word "1".toList, .word "where".toList,
    .word "id".toList, .punct '=']

/-- An integer constant. -/
def readConstant : List Token → Option Int
  | [.word ds] => (readNat ds).map fun n : Nat => (n : Int)
  | [.punct '-', .word ds] => (readNat ds).map fun n : Nat => -(n : Int)
  | _ => none

/-- How MySQL understands a SQL text, as far as the script uses it. -/
def parseSql (sql : Text) : Option Statement := do
  let ts ← tokens sql
  match ts.dropPrefix? selectHead with
  | some [.literal name] => some (.select name)
  | _ =>
    let constant ← ts.dropPrefix? incrementHead
    (readConstant constant).map .increment

/-! ## Commands and replies -/

inductive Command
  | hgetall (key : Text)
  | hmset (key : Text) (pairs : List (Text × Text))
  | expire (key : Text) (seconds : Nat)
  | query (sql : Text)
  | osTime
  deriving DecidableEq, Repr

inductive QueryResult
  | rows (rs : List Student)
  | ok
  deriving DecidableEq, Repr

/-- What the script gets back; `none` and `false` stand for a reported error. -/
@[reducible] def Reply : Command → Type
  | .hgetall _ => Option (List Text)
  | .hmset _ _ => Bool
  | .expire _ _ => Bool
  | .query _ => Option QueryResult
  | .osTime => Nat

/-- The answer of a server: the order of the selected rows and the clocks are its own. -/
inductive Answer
  | done
  | failed
  | rows (rs : List Student)
  | updated (stamp : Text)
  | time (seconds : Nat)
  deriving DecidableEq, Repr

structure Store where
  redis : Text → Option Hash
  students : StudentTable

namespace Store

def fieldsAt (s : Store) (key : Text) : Fields := ((s.redis key).map Hash.fields).getD []

def setHash (s : Store) (key : Text) (h : Option Hash) : Store :=
  { s with redis := Function.update s.redis key h }

def serve (s : Store) : (c : Command) → Answer → Option (Reply c × Store)
  | .hgetall key, .done => some (some (flatten (s.fieldsAt key)), s)
  | .hgetall _, .failed => some (none, s)
  | .hmset key pairs, .done =>
    let expires := ((s.redis key).map Hash.expires).getD false
    some (true, s.setHash key (some ⟨setFields (s.fieldsAt key) pairs, expires⟩))
  | .hmset _ _, .failed => some (false, s)
  | .expire key _, .done =>
    some (true, s.setHash key ((s.redis key).map fun h => { h with expires := true }))
  | .expire _ _, .failed => some (false, s)
  | .query sql, .rows rs =>
    match parseSql sql with
    | some (.select name) =>
      if rs.Perm (s.students.select name) then some (some (.rows rs), s) else none
    | _ => none
  | .query sql, .updated stamp =>
    match parseSql sql with
    | some (.increment id) => some (some .ok, { s with students := s.students.increment id stamp })
    | _ => none
  | .query _, .failed => some (none, s)
  | .osTime, .time seconds => some (seconds, s)
  | _, _ => none

/-- The time to live of a key has run out. -/
def expireKey (s : Store) (key : Text) : Option Store :=
  if ((s.redis key).map Hash.expires) = some true then some (s.setHash key none) else none

/-! ## Inversion of the commands -/

variable {s s' : Store} {answer : Answer}

theorem serve_hgetall {key : Text} {r : Option (List Text)} (ha : answer ≠ .failed)
    (h : s.serve (.hgetall key) answer = some (r, s')) :
    r = some (flatten (s.fieldsAt key)) ∧ s' = s := by
  cases answer with
  | done =>
    simp only [serve, Option.some.injEq, Prod.mk.injEq] at h
    exact ⟨h.1.symm, h.2.symm⟩
  | failed => exact absurd rfl ha
  | rows => cases h
  | updated => cases h
  | time => cases h

theorem serve_hmset {key : Text} {pairs : List (Text × Text)} {r : Bool} (ha : answer ≠ .failed)
    (h : s.serve (.hmset key pairs) answer = some (r, s')) :
    ∃ expires, s' = s.setHash key (some ⟨setFields (s.fieldsAt key) pairs, expires⟩) := by
  cases answer with
  | done =>
    simp only [serve, Option.some.injEq, Prod.mk.injEq] at h
    exact ⟨_, h.2.symm⟩
  | failed => exact absurd rfl ha
  | rows => cases h
  | updated => cases h
  | time => cases h

theorem serve_expire {key : Text} {seconds : Nat} {r : Bool} (ha : answer ≠ .failed)
    (h : s.serve (.expire key seconds) answer = some (r, s')) :
    s' = s.setHash key ((s.redis key).map fun hash => { hash with expires := true }) := by
  cases answer with
  | done =>
    simp only [serve, Option.some.injEq, Prod.mk.injEq] at h
    exact h.2.symm
  | failed => exact absurd rfl ha
  | rows => cases h
  | updated => cases h
  | time => cases h

theorem serve_select {sql name : Text} {r : Option QueryResult} (ha : answer ≠ .failed)
    (hsql : parseSql sql = some (.select name)) (h : s.serve (.query sql) answer = some (r, s')) :
    ∃ rs, rs.Perm (s.students.select name) ∧ r = some (.rows rs) ∧ s' = s := by
  cases answer with
  | rows rs =>
    simp only [serve, hsql] at h
    split at h
    · rename_i hperm
      simp only [Option.some.injEq, Prod.mk.injEq] at h
      exact ⟨rs, hperm, h.1.symm, h.2.symm⟩
    · cases h
  | failed => exact absurd rfl ha
  | done => cases h
  | updated => simp [serve, hsql] at h
  | time => cases h

theorem serve_increment {sql : Text} {id : Int} {r : Option QueryResult} (ha : answer ≠ .failed)
    (hsql : parseSql sql = some (.increment id)) (h : s.serve (.query sql) answer = some (r, s')) :
    ∃ stamp, r = some .ok ∧ s' = { s with students := s.students.increment id stamp } := by
  cases answer with
  | updated stamp =>
    simp only [serve, hsql, Option.some.injEq, Prod.mk.injEq] at h
    exact ⟨stamp, h.1.symm, h.2.symm⟩
  | failed => exact absurd rfl ha
  | done => cases h
  | rows => simp [serve, hsql] at h
  | time => cases h

theorem serve_osTime {r : Nat} (ha : answer ≠ .failed) (h : s.serve .osTime answer = some (r, s')) :
    s' = s := by
  cases answer with
  | time seconds =>
    simp only [serve, Option.some.injEq, Prod.mk.injEq] at h
    exact h.2.symm
  | failed => exact absurd rfl ha
  | done => cases h
  | rows => cases h
  | updated => cases h

/-- What a command can do to the two servers, whatever the answer. -/
theorem serve_cases {c : Command} {r : Reply c} (h : s.serve c answer = some (r, s')) :
    s' = s ∨
    (∃ key pairs expires, c = .hmset key pairs ∧
      s' = s.setHash key (some ⟨setFields (s.fieldsAt key) pairs, expires⟩)) ∨
    (∃ key, s' = s.setHash key ((s.redis key).map fun hash => { hash with expires := true })) ∨
    ∃ id stamp, s' = { s with students := s.students.increment id stamp } := by
  unfold serve at h
  split at h
  · exact Or.inl (by cases h; rfl)
  · exact Or.inl (by cases h; rfl)
  · cases h
    exact Or.inr (Or.inl ⟨_, _, _, rfl, rfl⟩)
  · exact Or.inl (by cases h; rfl)
  · cases h
    exact Or.inr (Or.inr (Or.inl ⟨_, rfl⟩))
  · exact Or.inl (by cases h; rfl)
  · split at h
    · split at h
      · exact Or.inl (by cases h; rfl)
      · cases h
    · cases h
  · split at h
    · cases h
      exact Or.inr (Or.inr (Or.inr ⟨_, _, rfl⟩))
    · cases h
  · exact Or.inl (by cases h; rfl)
  · exact Or.inl (by cases h; rfl)
  · cases h

theorem setHash_self (key : Text) (hash : Option Hash) : (s.setHash key hash).redis key = hash :=
  Function.update_self _ _ _

theorem setHash_of_ne {key key' : Text} (hne : key ≠ key') (hash : Option Hash) :
    (s.setHash key' hash).redis key = s.redis key :=
  Function.update_of_ne hne _ _

theorem setHash_setHash (key : Text) (hash hash' : Option Hash) :
    (s.setHash key hash).setHash key hash' = s.setHash key hash' := by
  simp only [setHash, Function.update_idem]

/-- No command removes a key. -/
theorem serve_keeps {key : Text} {c : Command} {r : Reply c} (hkey : s.redis key ≠ none)
    (h : s.serve c answer = some (r, s')) : s'.redis key ≠ none := by
  rcases serve_cases h with rfl | ⟨key', pairs, expires, -, rfl⟩ | ⟨key', rfl⟩ | ⟨id, stamp, rfl⟩
  · exact hkey
  · by_cases heq : key = key'
    · rw [heq, setHash_self]
      exact nofun
    · rwa [setHash_of_ne heq]
  · by_cases heq : key = key'
    · rw [← heq, setHash_self]
      simpa using hkey
    · rwa [setHash_of_ne heq]
  · exact hkey

/-- Only HMSET changes the fields of a hash. -/
theorem serve_fields {c : Command} {r : Reply c} (hc : ∀ key pairs, c ≠ .hmset key pairs)
    (h : s.serve c answer = some (r, s')) (key : Text) :
    (s'.redis key).map Hash.fields = (s.redis key).map Hash.fields := by
  rcases serve_cases h with rfl | ⟨key', pairs, expires, heq, -⟩ | ⟨key', rfl⟩ | ⟨id, stamp, rfl⟩
  · rfl
  · exact absurd heq (hc key' pairs)
  · by_cases heq : key = key'
    · rw [← heq, setHash_self, Option.map_map]
      rfl
    · rw [setHash_of_ne heq]
  · rfl

/-- No command renames or removes a row, or changes how names are compared. -/
theorem serve_named {c : Command} {r : Reply c} (h : s.serve c answer = some (r, s')) :
    s'.students.Named = s.students.Named ∧ s'.students.Exact = s.students.Exact := by
  rcases serve_cases h with rfl | ⟨key, pairs, expires, -, rfl⟩ | ⟨key, rfl⟩ | ⟨id, stamp, rfl⟩
  · exact ⟨rfl, rfl⟩
  · exact ⟨rfl, rfl⟩
  · exact ⟨rfl, rfl⟩
  · exact ⟨StudentTable.increment_named _ id stamp, StudentTable.increment_exact _ id stamp⟩

theorem expireKey_cases {key : Text} (h : s.expireKey key = some s') : s' = s.setHash key none := by
  unfold expireKey at h
  split at h
  · exact (Option.some.inj h).symm
  · cases h

end Store

end RedisLuaLinux.Lua
