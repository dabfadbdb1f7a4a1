import Mathlib.Data.List.Nodup
import Mathlib.Logic.Function.Basic

/-!
# Tables with a unique key

A table holds rows with different keys, in the order of their insertion. A row is rejected,
and the table left as it is, if its key is present or its values are not accepted.

* `mem_insertAll`: of rows that agree wherever their keys do, the set that is stored does not
  depend on their order or on how often they come.
* `insertAll_fresh`: rows with new and different keys are stored in their order.
* `Tables.table_insertAll`: a table changes by the rows inserted into it only.
* `Tables.foldl_modify_congr`: changes to a table each, which repeating does not add to, may come
  in any order and number.
-/

namespace RedisLuaLinux.Library

structure KeyedTable {Row Key : Type} (key : Row → Key) where
  rows : List Row
  unique : (rows.map key).Nodup

namespace KeyedTable

variable {Row Key : Type} [DecidableEq Key] {key : Row → Key}

def empty : KeyedTable key := ⟨[], List.nodup_nil⟩

/-- The key of the row is present. -/
def Has (t : KeyedTable key) (k : Key) : Prop := k ∈ t.rows.map key

instance (t : KeyedTable key) (k : Key) : Decidable (t.Has k) :=
  inferInstanceAs (Decidable (k ∈ t.rows.map key))

def insert (accepts : Row → Bool) (r : Row) (t : KeyedTable key) : KeyedTable key :=
  if h : accepts r = true ∧ ¬ t.Has (key r) then
    ⟨t.rows ++ [r], by
      rw [List.map_append, List.map_singleton]
      exact List.nodup_append.mpr ⟨t.unique, List.nodup_singleton _, by
        intro k hk k' hk' heq
        rw [List.mem_singleton.mp hk'] at heq
        exact h.2 (heq ▸ hk)⟩⟩
  else t

/-- Insert a row if there is one. -/
def gain (accepts : Row → Bool) (row : Option Row) (t : KeyedTable key) : KeyedTable key :=
  row.elim t fun r => t.insert accepts r

def insertAll (accepts : Row → Bool) (rs : List Row) (t : KeyedTable key) : KeyedTable key :=
  rs.foldl (fun t r => t.insert accepts r) t

section

variable {accepts : Row → Bool} {t : KeyedTable key} {r x : Row} {rs : List Row}

theorem insert_rows (haccepts : accepts r = true) (hnew : ¬ t.Has (key r)) :
    (t.insert accepts r).rows = t.rows ++ [r] := by
  rw [insert, dif_pos ⟨haccepts, hnew⟩]

theorem insert_of_has (h : t.Has (key r)) : t.insert accepts r = t := by
  rw [insert, dif_neg]
  intro hnew
  exact hnew.2 h

theorem rows_insert : (t.insert accepts r).rows =
    t.rows ++ [r].filter fun x => accepts x = true ∧ ¬ t.Has (key r) := by
  by_cases h : accepts r = true ∧ ¬ t.Has (key r)
  · rw [insert_rows h.1 h.2, List.filter_cons_of_pos (by simpa using h)]
    rfl
  · rw [insert, dif_neg h, List.filter_cons_of_neg (by simpa using h)]
    exact (List.append_nil _).symm

theorem mem_insert : x ∈ (t.insert accepts r).rows ↔
    x ∈ t.rows ∨ x = r ∧ accepts r = true ∧ ¬ t.Has (key r) := by
  by_cases h : accepts r = true ∧ ¬ t.Has (key r)
  · rw [insert_rows h.1 h.2, List.mem_append, List.mem_singleton]
    constructor
    · rintro (hx | hx)
      · exact Or.inl hx
      · exact Or.inr ⟨hx, h⟩
    · rintro (hx | hx)
      · exact Or.inl hx
      · exact Or.inr hx.1
  · rw [insert, dif_neg h]
    constructor
    · exact Or.inl
    · rintro (hx | hx)
      · exact hx
      · exact absurd hx.2 h

theorem has_insert {k : Key} : (t.insert accepts r).Has k ↔
    t.Has k ∨ k = key r ∧ accepts r = true ∧ ¬ t.Has (key r) := by
  unfold Has
  simp only [List.mem_map]
  constructor
  · rintro ⟨x, hx, rfl⟩
    rcases mem_insert.mp hx with hx | ⟨rfl, h⟩
    · exact Or.inl ⟨x, hx, rfl⟩
    · exact Or.inr ⟨rfl, by simpa [Has] using h⟩
  · rintro (⟨x, hx, rfl⟩ | ⟨rfl, h⟩)
    · exact ⟨x, mem_insert.mpr (Or.inl hx), rfl⟩
    · exact ⟨r, mem_insert.mpr (Or.inr ⟨rfl, by simpa [Has] using h⟩), rfl⟩

theorem insert_insert : (t.insert accepts r).insert accepts r = t.insert accepts r := by
  by_cases h : accepts r = true ∧ ¬ t.Has (key r)
  · apply insert_of_has
    exact has_insert.mpr (Or.inr ⟨rfl, h⟩)
  · have hsame : t.insert accepts r = t := by
      rw [insert, dif_neg h]
    rw [hsame, hsame]

theorem gain_gain (row : Option Row) : (t.gain accepts row).gain accepts row = t.gain accepts row := by
  cases row with
  | none => rfl
  | some r => exact insert_insert

/-- The rows after an insert under a known key. -/
theorem rows_gain {row : Option Row} {k : Key} (hkey : ∀ r, row = some r → key r = k) :
    (t.gain accepts row).rows =
      t.rows ++ row.toList.filter fun r => accepts r = true ∧ ¬ t.Has k := by
  cases row with
  | none => exact (List.append_nil _).symm
  | some r =>
    rw [← hkey r rfl]
    exact rows_insert

/-- What is stored of rows that agree wherever their keys do. -/
theorem mem_insertAll (hagree : ∀ a ∈ rs, ∀ b ∈ rs, key a = key b → a = b) :
    x ∈ (t.insertAll accepts rs).rows ↔
      x ∈ t.rows ∨ x ∈ rs ∧ accepts x = true ∧ ¬ t.Has (key x) := by
  induction rs generalizing t with
  | nil => simp [insertAll]
  | cons r rs ih =>
    have hrest := ih (t := t.insert accepts r) fun a ha b hb =>
      hagree a (List.mem_cons_of_mem r ha) b (List.mem_cons_of_mem r hb)
    show x ∈ ((t.insert accepts r).insertAll accepts rs).rows ↔ _
    rw [hrest, mem_insert, has_insert, List.mem_cons]
    constructor
    · rintro ((hx | ⟨rfl, hr⟩) | ⟨hx, haccepts, hnew⟩)
      · exact Or.inl hx
      · exact Or.inr ⟨Or.inl rfl, hr⟩
      · exact Or.inr ⟨Or.inr hx, haccepts, fun h => hnew (Or.inl h)⟩
    · rintro (hx | ⟨rfl | hx, haccepts, hnew⟩)
      · exact Or.inl (Or.inl hx)
      · exact Or.inl (Or.inr ⟨rfl, haccepts, hnew⟩)
      · by_cases hsame : key x = key r
        · -- a row with the key of the one just inserted is that row
          obtain rfl := hagree x (List.mem_cons_of_mem r hx) r List.mem_cons_self hsame
          exact Or.inl (Or.inr ⟨rfl, haccepts, hnew⟩)
        · refine Or.inr ⟨hx, haccepts, ?_⟩
          rintro (h | ⟨h, -⟩)
          · exact hnew h
          · exact hsame h

theorem insertAll_fresh (haccepts : ∀ r ∈ rs, accepts r = true) (hkeys : (rs.map key).Nodup)
    (hnew : ∀ r ∈ rs, ¬ t.Has (key r)) : (t.insertAll accepts rs).rows = t.rows ++ rs := by
  induction rs generalizing t with
  | nil => simp [insertAll]
  | cons r rs ih =>
    rw [List.map_cons, List.nodup_cons] at hkeys
    have hr := insert_rows (haccepts r List.mem_cons_self) (hnew r List.mem_cons_self)
    have hrest : ∀ r' ∈ rs, ¬ (t.insert accepts r).Has (key r') := by
      intro r' hr' h
      rcases has_insert.mp h with h | ⟨h, -⟩
      · exact hnew r' (List.mem_cons_of_mem r hr') h
      · exact hkeys.1 (h ▸ List.mem_map_of_mem hr')
    show ((t.insert accepts r).insertAll accepts rs).rows = _
    rw [ih (fun r' hr' => haccepts r' (List.mem_cons_of_mem r hr')) hkeys.2 hrest, hr,
      List.append_assoc, List.singleton_append]

end

end KeyedTable

/-! ## Named tables -/

/-- The tables of a database by name. -/
@[ext]
structure Tables (Name : Type) {Row Key : Type} (key : Row → Key) where
  table : Name → Option (KeyedTable key)

namespace Tables

variable {Name Row Key : Type} [DecidableEq Name] {key : Row → Key}

/-- Change a table, where there is one of that name. -/
def modify (name : Name) (change : KeyedTable key → KeyedTable key) (db : Tables Name key) : Tables Name key :=
  ⟨Function.update db.table name ((db.table name).map change)⟩

section

variable {db : Tables Name key} {name : Name}

theorem modify_id : db.modify name (fun t => t) = db := by
  ext1
  show Function.update db.table name ((db.table name).map id) = db.table
  rw [Option.map_id_apply, Function.update_eq_self]

theorem table_modify_self (change : KeyedTable key → KeyedTable key) :
    (db.modify name change).table name = (db.table name).map change :=
  Function.update_self name _ db.table

theorem table_modify_of_ne {other : Name} (h : name ≠ other) (change : KeyedTable key → KeyedTable key) :
    (db.modify other change).table name = db.table name :=
  Function.update_of_ne h _ db.table

end

section

variable {ι : Type} {nameOf : ι → Name} {change : ι → KeyedTable key → KeyedTable key} {is is' : List ι}

theorem table_foldl_of_ne {name : Name} (h : ∀ i ∈ is, name ≠ nameOf i) (db : Tables Name key) :
    (is.foldl (fun db i => db.modify (nameOf i) (change i)) db).table name = db.table name := by
  induction is generalizing db with
  | nil => rfl
  | cons i is ih =>
    rw [List.foldl_cons, ih fun i' hi' => h i' (List.mem_cons_of_mem i hi')]
    exact table_modify_of_ne (h i List.mem_cons_self) _

/-- Changes that have no effect when they are repeated, each to a table of its own. -/
theorem table_foldl_modify (hname : Function.Injective nameOf)
    (hchange : ∀ i t, change i (change i t) = change i t) {i : ι} (hi : i ∈ is) (db : Tables Name key) :
    (is.foldl (fun db i => db.modify (nameOf i) (change i)) db).table (nameOf i) =
      (db.table (nameOf i)).map (change i) := by
  induction is generalizing db with
  | nil => cases hi
  | cons j is ih =>
    rw [List.foldl_cons]
    by_cases hlater : i ∈ is
    · rw [ih hlater]
      by_cases hsame : i = j
      · subst hsame
        rw [table_modify_self, Option.map_map]
        congr 1
        funext t
        exact hchange i t
      · rw [table_modify_of_ne fun heq => hsame (hname heq)]
    · obtain rfl : i = j := (List.mem_cons.mp hi).resolve_right hlater
      rw [table_foldl_of_ne, table_modify_self]
      intro i' hi' heq
      exact hlater (hname heq ▸ hi')

/-- The order of the changes and their number do not matter. -/
theorem foldl_modify_congr (hname : Function.Injective nameOf)
    (hchange : ∀ i t, change i (change i t) = change i t) (hsame : ∀ i, i ∈ is ↔ i ∈ is')
    (db : Tables Name key) :
    is.foldl (fun db i => db.modify (nameOf i) (change i)) db =
      is'.foldl (fun db i => db.modify (nameOf i) (change i)) db := by
  ext1
  funext name
  by_cases h : ∃ i ∈ is, name = nameOf i
  · obtain ⟨i, hi, rfl⟩ := h
    rw [table_foldl_modify hname hchange hi, table_foldl_modify hname hchange ((hsame i).mp hi)]
  · have hne : ∀ i ∈ is, name ≠ nameOf i := fun i hi heq => h ⟨i, hi, heq⟩
    rw [table_foldl_of_ne hne, table_foldl_of_ne fun i hi => hne i ((hsame i).mpr hi)]

end

/-! ## Inserts by name -/

variable [DecidableEq Key]

/-- Insert into a table; rejected if there is none of that name. -/
def insert (accepts : Row → Bool) (name : Name) (r : Row) (db : Tables Name key) : Tables Name key :=
  ⟨Function.update db.table name ((db.table name).map fun t => t.insert accepts r)⟩

def insertAll (accepts : Row → Bool) (calls : List (Name × Row)) (db : Tables Name key) :
    Tables Name key :=
  calls.foldl (fun db call => db.insert accepts call.1 call.2) db

/-- The rows that a list of inserts has for one table. -/
def rowsFor (name : Name) (calls : List (Name × Row)) : List Row :=
  (calls.filter fun call => call.1 = name).map Prod.snd

section

variable {accepts : Row → Bool} {db : Tables Name key} {name : Name}

theorem insert_eq_modify (r : Row) :
    db.insert accepts name r = db.modify name fun t => t.insert accepts r := rfl

theorem insertAll_append (calls calls' : List (Name × Row)) :
    db.insertAll accepts (calls ++ calls') = (db.insertAll accepts calls).insertAll accepts calls' :=
  List.foldl_append

theorem table_insert_self (r : Row) :
    (db.insert accepts name r).table name = (db.table name).map fun t => t.insert accepts r :=
  table_modify_self _

theorem table_insert_of_ne {other : Name} (h : name ≠ other) (r : Row) :
    (db.insert accepts other r).table name = db.table name :=
  table_modify_of_ne h _

theorem table_insertAll (calls : List (Name × Row)) :
    (db.insertAll accepts calls).table name =
      (db.table name).map fun t => t.insertAll accepts (rowsFor name calls) := by
  induction calls generalizing db with
  | nil => exact Option.map_id_apply.symm
  | cons call calls ih =>
    show ((db.insert accepts call.1 call.2).insertAll accepts calls).table name = _
    rw [ih]
    by_cases h : call.1 = name
    · subst h
      have hrows : rowsFor call.1 (call :: calls) = call.2 :: rowsFor call.1 calls := by
        rw [rowsFor, List.filter_cons_of_pos (by simp)]
        rfl
      rw [table_insert_self, Option.map_map, hrows]
      rfl
    · have hrows : rowsFor name (call :: calls) = rowsFor name calls := by
        rw [rowsFor, List.filter_cons_of_neg (by simpa using h)]
        rfl
      rw [table_insert_of_ne (Ne.symm h), hrows]

/-- The tables exist alike and hold the same rows, in any order. -/
def SameRows (db db' : Tables Name key) : Prop :=
  ∀ name, (db.table name).isSome = (db'.table name).isSome ∧
    ∀ t t', db.table name = some t → db'.table name = some t' → ∀ r, r ∈ t.rows ↔ r ∈ t'.rows

/-- Inserts that come again later may as well not have come before. -/
theorem sameRows_insertAll {earlier calls : List (Name × Row)} (hagain : ∀ call ∈ earlier, call ∈ calls)
    (hagree : ∀ name r r', (name, r) ∈ calls → (name, r') ∈ calls → key r = key r' → r = r') :
    SameRows ((db.insertAll accepts earlier).insertAll accepts calls) (db.insertAll accepts calls) := by
  intro name
  have hrows : ∀ part : List (Name × Row), ∀ r, r ∈ rowsFor name part ↔ (name, r) ∈ part := by
    intro part r
    simp only [rowsFor, List.mem_map, List.mem_filter, decide_eq_true_eq]
    constructor
    · rintro ⟨⟨n, r'⟩, ⟨hmem, rfl⟩, rfl⟩
      exact hmem
    · intro hmem
      exact ⟨(name, r), ⟨hmem, rfl⟩, rfl⟩
  rw [← insertAll_append, table_insertAll, table_insertAll]
  refine ⟨by simp, fun t t' ht ht' r => ?_⟩
  obtain ⟨t₀, hget, rfl⟩ := Option.map_eq_some_iff.mp ht
  obtain ⟨t₀', hget', rfl⟩ := Option.map_eq_some_iff.mp ht'
  obtain rfl := Option.some.inj (hget.symm.trans hget')
  have hall : ∀ r, (name, r) ∈ earlier ++ calls → (name, r) ∈ calls := by
    intro r hr
    rcases List.mem_append.mp hr with hr | hr
    · exact hagain _ hr
    · exact hr
  rw [KeyedTable.mem_insertAll, KeyedTable.mem_insertAll]
  · simp only [hrows]
    constructor
    · rintro (hr | ⟨hr, hnew⟩)
      · exact Or.inl hr
      · exact Or.inr ⟨hall r hr, hnew⟩
    · rintro (hr | ⟨hr, hnew⟩)
      · exact Or.inl hr
      · exact Or.inr ⟨List.mem_append_right _ hr, hnew⟩
  · intro a ha b hb
    exact hagree name a b ((hrows _ a).mp ha) ((hrows _ b).mp hb)
  · intro a ha b hb
    exact hagree name a b (hall a ((hrows _ a).mp ha)) (hall b ((hrows _ b).mp hb))

end

end Tables

end RedisLuaLinux.Library
