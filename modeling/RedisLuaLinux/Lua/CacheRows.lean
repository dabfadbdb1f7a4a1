import RedisLuaLinux.Lua.Userquery

/-!
# The cache never names another row

* `request_step`: what serving one command of a request does to the cache.
* `cache_names_row`: while no hit writes to a key that is gone, every hash begins with the
  id of a row of its name, and every UPDATE is for a row of the requested name.
* `cache_names_row_fails`: a key that expires between the read and the write of a hit.
-/

namespace RedisLuaLinux.Lua

open Library

/-! ## Cached rows -/

/-- The fields of a row of `name` with the count `q`. `N` relates names to ids. -/
def Cached (N : Text → Int → Prop) (name : Text) (fields : Fields) (q : Option Int) : Prop :=
  ∃ id created accessed, N name id ∧
    fields = shape (intText id) (columnText (q.map intText)) created accessed

section Cached

variable {N : Text → Int → Prop} {name : Text} {fields : Fields} {q : Option Int}

theorem Cached.fill {row : Student} (hrow : N name row.id)
    (h : fields = [] ∨ ∃ q, Cached N name fields q) :
    Cached N name (setFields fields (rowPairs row)) row.queryTimes := by
  refine ⟨row.id, columnText (row.createTimestamp.map intText), columnText row.lastAccessTimestamp,
    hrow, ?_⟩
  rcases h with rfl | ⟨q, id, created, accessed, -, rfl⟩
  · rfl
  · rfl

theorem Cached.rewrite (h : Cached N name fields q) (time : Nat) (count : Int) :
    Cached N name (setFields fields (hitPairs time (intText count))) (some count) := by
  obtain ⟨id, created, accessed, hid, rfl⟩ := h
  exact ⟨id, created, natText time, hid, rfl⟩

theorem Cached.head (h : Cached N name fields q) :
    ∃ id, N name id ∧ fields.head? = some ("id".toList, intText id) := by
  obtain ⟨id, created, accessed, hid, rfl⟩ := h
  exact ⟨id, hid, rfl⟩

theorem Cached.second (h : Cached N name fields q) :
    ∃ id, N name id ∧ (flatten fields)[1]? = some (intText id) := by
  obtain ⟨id, created, accessed, hid, rfl⟩ := h
  exact ⟨id, hid, rfl⟩

/-- The text that stands for `NULL` is no number. -/
theorem readInt_columnText (q : Option Int) : readInt (columnText (q.map intText)) = q := by
  cases q with
  | none => rfl
  | some z => exact readInt_intText z

theorem Cached.nextCount (h : Cached N name fields q) (lua : LuaNumbers) :
    lua.nextCount (flatten fields) = q.map fun z => intText (z + 1) := by
  obtain ⟨id, created, accessed, hid, rfl⟩ := h
  exact lua.addOne_columnText q

end Cached

/-- A hash of the row `id` that holds the count `q`. -/
def HoldsCount (name : Text) (id q : Int) (hash : Hash) : Prop :=
  Cached (fun _ id' => id' = id) name hash.fields (some q)

theorem Store.fieldsAt_eq_nil {s : Store} {key : Text} (h : s.redis key = none) :
    s.fieldsAt key = [] := by
  simp [Store.fieldsAt, h]

theorem Store.fieldsAt_eq {s : Store} {key : Text} {hash : Hash} (h : s.redis key = some hash) :
    s.fieldsAt key = hash.fields := by
  simp [Store.fieldsAt, h]

/-! ## Sound states

`Q` holds of the values of `query_times` that are expected. -/

section Sound

variable {lua : LuaNumbers} {N : Text → Int → Prop} {Q : Option Int → Prop} {s s' : Store} {name : Text}

/-- Every hash under the name of a student is a cached row of that name. -/
def CacheSound (N : Text → Int → Prop) (Q : Option Int → Prop) (s : Store) : Prop :=
  ∀ name hash, (∃ id, N name id) → s.redis name = some hash →
    ∃ q, Q q ∧ Cached N name hash.fields q

theorem CacheSound.set (h : CacheSound N Q s) {key : Text} {hash : Option Hash}
    (hhash : ∀ hash', hash = some hash' → ∃ q, Q q ∧ Cached N key hash'.fields q) :
    CacheSound N Q (s.setHash key hash) := by
  intro name hash' hname hget
  by_cases heq : name = key
  · rw [heq, Store.setHash_self] at hget
    rw [heq]
    exact hhash hash' hget
  · rw [Store.setHash_of_ne heq] at hget
    exact h name hash' hname hget

theorem CacheSound.fieldsAt (h : CacheSound N Q s) (hname : ∃ id, N name id) :
    s.fieldsAt name = [] ∨ ∃ q, Q q ∧ Cached N name (s.fieldsAt name) q := by
  cases hget : s.redis name with
  | none => exact Or.inl (Store.fieldsAt_eq_nil hget)
  | some hash =>
    rw [Store.fieldsAt_eq hget]
    exact Or.inr (h name hash hname hget)

/-- For the names of `N`, the SELECT finds the rows with the ids that `N` gives. -/
def Finds (N : Text → Int → Prop) (t : StudentTable) : Prop :=
  ∀ name id, N name id → t.Matches name = N name

theorem Finds.increment {t : StudentTable} (h : Finds N t) (id : Int) (stamp : Text) :
    Finds N (t.increment id stamp) := by
  intro name id' hid
  rw [increment_matches]
  exact h name id' hid

/-- The rows that a request for `name` finds have expected counts. -/
def CountsIn (Q : Option Int → Prop) (t : StudentTable) (name : Text) : Prop :=
  ∀ r ∈ matched t name, Q r.queryTimes

theorem CountsIn.increment (hQ : ∀ z, Q (some z)) {t : StudentTable} (h : CountsIn Q t name) (id : Int)
    (stamp : Text) : CountsIn Q (t.increment id stamp) name := by
  intro r hr
  rw [matched_increment_map] at hr
  obtain ⟨r₀, hr₀, rfl⟩ := List.mem_map.mp hr
  have hcount := h r₀ hr₀
  unfold countRow Student.count
  split
  · split
    · exact hcount
    · exact hQ _
  · exact hcount

/-- A reply that names rows of `name` only. -/
def GoodReply (N : Text → Int → Prop) (Q : Option Int → Prop) (name : Text) :
    ((c : Command) × Reply c) → Prop
  | ⟨.hgetall _, some result⟩ =>
    result = [] ∨ ∃ fields q, result = flatten fields ∧ Q q ∧ Cached N name fields q
  | ⟨.query _, some (.rows rs)⟩ => ∀ r ∈ rs, N name r.id ∧ Q r.queryTimes
  | _ => True

/-- What a hit writes after a good reply. -/
theorem GoodReply.nextCount {f : Text} {result : List Text} {count : Text}
    (h : GoodReply N Q name (readReply name (f :: result)))
    (hcount : lua.nextCount (f :: result) = some count) : ∃ z, count = intText z := by
  rcases h with hnil | ⟨fields, q, hfields, -, hcached⟩
  · cases hnil
  · rw [hfields, hcached.nextCount lua] at hcount
    obtain ⟨z, -, rfl⟩ := Option.map_eq_some_iff.mp hcount
    exact ⟨z + 1, rfl⟩

/-! ## One command of a request -/

/-- The UPDATE of a request is for a row of its name. -/
theorem update_names_row {log : Log} {id : Text} (hlog : ∀ e ∈ log, GoodReply N Q name e)
    (h : (∃ row more, id = intText row.id ∧ selectReply name (row :: more) ∈ log) ∨
      ∃ result, result[1]? = some id ∧ readReply name result ∈ log) :
    ∃ z, N name z ∧ id = intText z := by
  rcases h with ⟨row, more, rfl, hmem⟩ | ⟨result, hid, hmem⟩
  · exact ⟨row.id, (hlog _ hmem row List.mem_cons_self).1, rfl⟩
  · rcases hlog _ hmem with rfl | ⟨fields, q, rfl, -, hcached⟩
    · cases hid
    · obtain ⟨z, hz, hsecond⟩ := hcached.second
      rw [hsecond] at hid
      exact ⟨z, hz, (Option.some.inj hid).symm⟩

/-- The reply to the SELECT of a request whose name has a row. -/
theorem select_reply {answer : Answer} {r : Option QueryResult} (hnames : Finds N s.students)
    (hname : ∃ id, N name id) (ha : answer ≠ .failed)
    (h : s.serve (.query (selectText name)) answer = some (r, s')) :
    ∃ rs, rs.Perm (matched s.students name) ∧ r = some (.rows rs) ∧ s' = s := by
  obtain ⟨id, hid⟩ := hname
  have hfound : s.students.Matches name id := by
    rw [hnames name id hid]
    exact hid
  obtain ⟨row, hrow, -⟩ := List.mem_map.mp hfound
  obtain ⟨-, literal, hparse⟩ := parse_of_matched hrow
  rw [matched_of_parse _ hparse]
  exact Store.serve_select ha hparse h

/-- Serving the next command of a request for `name`, unless a hit writes to a key that is
gone: the cache stays sound, names and expected counts stay, and the reply is a good one. -/
theorem request_step {log : Log} {c : Command} {next : Reply c → Script} {answer : Answer}
    {r : Reply c} (hQ : ∀ z, Q (some z)) (hat : At lua name log (.call c next))
    (hname : ∃ id, N name id) (hnames : Finds N s.students)
    (hcounts : CountsIn Q s.students name) (hcache : CacheSound N Q s)
    (hlog : ∀ e ∈ log, GoodReply N Q name e)
    (hfinds : ∀ time count, c = .hmset name (hitPairs time count) → s.redis name ≠ none)
    (ha : answer ≠ .failed) (h : s.serve c answer = some (r, s')) :
    Finds N s'.students ∧ CacheSound N Q s' ∧ GoodReply N Q name ⟨c, r⟩ ∧
      ∀ m, CountsIn Q s.students m → CountsIn Q s'.students m := by
  rcases hat.command_cases with rfl | rfl | ⟨row, more, rfl, rfl⟩ | rfl | rfl |
      ⟨f, result, count, time, rfl, hcount, rfl⟩ | ⟨id, rfl, hid⟩
  · obtain ⟨rfl, rfl⟩ := Store.serve_hgetall ha h
    refine ⟨hnames, hcache, ?_, fun _ hm => hm⟩
    rcases hcache.fieldsAt hname with hnil | ⟨q, hq, hcached⟩
    · exact Or.inl (by rw [hnil]; rfl)
    · exact Or.inr ⟨_, q, rfl, hq, hcached⟩
  · obtain ⟨rs, hperm, rfl, rfl⟩ := select_reply hnames hname ha h
    refine ⟨hnames, hcache, fun row hrow => ?_, fun _ hm => hm⟩
    have hfound := hperm.mem_iff.mp hrow
    obtain ⟨id, hid⟩ := hname
    refine ⟨?_, hcounts row hfound⟩
    rw [← hnames name id hid]
    exact List.mem_map_of_mem hfound
  · obtain ⟨expires, rfl⟩ := Store.serve_hmset ha h
    refine ⟨hnames, hcache.set fun hash hhash => ?_, trivial, fun _ hm => hm⟩
    rw [← Option.some.inj hhash]
    obtain ⟨hrow, hq⟩ := hlog _ List.mem_cons_self row List.mem_cons_self
    refine ⟨_, hq, Cached.fill hrow ((hcache.fieldsAt hname).imp_right ?_)⟩
    rintro ⟨q, -, hcached⟩
    exact ⟨q, hcached⟩
  · obtain rfl := Store.serve_expire ha h
    refine ⟨hnames, hcache.set fun hash hhash => ?_, trivial, fun _ hm => hm⟩
    obtain ⟨old, hold, rfl⟩ := Option.map_eq_some_iff.mp hhash
    exact hcache name old hname hold
  · obtain rfl := Store.serve_osTime ha h
    exact ⟨hnames, hcache, trivial, fun _ hm => hm⟩
  · obtain ⟨expires, rfl⟩ := Store.serve_hmset ha h
    refine ⟨hnames, hcache.set fun hash hhash => ?_, trivial, fun _ hm => hm⟩
    rw [← Option.some.inj hhash]
    obtain ⟨old, hold⟩ := Option.ne_none_iff_exists'.mp (hfinds time count rfl)
    obtain ⟨q, -, hcached⟩ := hcache name old hname hold
    have hread : GoodReply N Q name (readReply name (f :: result)) :=
      hlog _ (List.mem_cons_of_mem _ List.mem_cons_self)
    obtain ⟨z, rfl⟩ := hread.nextCount hcount
    rw [Store.fieldsAt_eq hold]
    exact ⟨_, hQ z, hcached.rewrite time z⟩
  · obtain ⟨z, -, rfl⟩ := update_names_row hlog hid
    obtain ⟨stamp, rfl, rfl⟩ := Store.serve_increment ha (parse_updateText z) h
    exact ⟨hnames.increment z stamp, hcache, trivial,
      fun _ hm => hm.increment hQ z stamp⟩

end Sound

/-! ## Runs -/

/-- Commands succeed, and names are requested that have a row, pass through the SELECT text and
are compared exactly. Keys may expire at any time. -/
def Served (p : UserPool) : UserEvent → Prop
  | .env _ => True
  | .spawn none => True
  | .spawn (some name) =>
    Carried '\'' name ∧ p.shared.students.Exact name ∧ ∃ r ∈ p.shared.students.rows, r.name = name
  | .advance _ answer => answer ≠ .failed

instance decidableServed (p : UserPool) : (e : UserEvent) → Decidable (Served p e)
  | .env _ => isTrue trivial
  | .spawn none => isTrue trivial
  | .spawn (some name) =>
    inferInstanceAs (Decidable
      (Carried '\'' name ∧ p.shared.students.Exact name ∧ ∃ r ∈ p.shared.students.rows, r.name = name))
  | .advance _ answer => inferInstanceAs (Decidable (answer ≠ .failed))

/-- Commands succeed, and requests are for the names of `N`. -/
def Answered (N : Text → Int → Prop) : UserEvent → Prop
  | .spawn (some name) => ∃ id, N name id
  | .advance _ answer => answer ≠ .failed
  | _ => True

/-- The name passes through the SELECT text and is compared exactly. -/
def Plain (t : StudentTable) (name : Text) : Prop := Carried '\'' name ∧ t.Exact name

/-- The rows with plain names. -/
def plainNames (t : StudentTable) (name : Text) (id : Int) : Prop := Plain t name ∧ t.Named name id

theorem plainNames_finds (t : StudentTable) : Finds (plainNames t) t := by
  intro name id hid
  funext id'
  rw [eq_iff_iff, matches_of_carried hid.1.1 hid.1.2]
  exact ⟨fun h => ⟨hid.1, h⟩, fun h => h.2⟩

theorem Served.answered {p : UserPool} {e : UserEvent} (h : Served p e) :
    Answered (plainNames p.shared.students) e := by
  unfold Answered
  split
  · obtain ⟨hcarried, hexact, row, hrow, hname⟩ := h
    exact ⟨row.id, ⟨hcarried, hexact⟩, row, hrow, hname, rfl⟩
  · exact h
  · trivial

/-- The command that a request issues next. -/
def nextCommand (p : UserPool) (i : Nat) : Option Command := p.threads[i]?.bind fun t => t.rest.command

/-- The step is not a HMSET without the field `id`, as the hit branch issues it, to a key
that is gone. -/
def HitFindsKey (p : UserPool) : UserEvent → Prop
  | .advance i _ =>
    match nextCommand p i with
    | some (.hmset name pairs) => "id".toList ∉ pairs.map Prod.fst → (p.shared.redis name).isSome
    | _ => True
  | _ => True

instance decidableHitFindsKey (p : UserPool) : (e : UserEvent) → Decidable (HitFindsKey p e)
  | .env _ => isTrue trivial
  | .spawn _ => isTrue trivial
  | .advance i answer => by
    unfold HitFindsKey
    dsimp only
    split <;> infer_instance

structure ThreadSound (lua : LuaNumbers) (N : Text → Int → Prop) (Q : Option Int → Prop) (students : StudentTable)
    (t : Request) : Prop where
  point : AtRequest lua t.request t.log t.rest
  requested : ∀ name, t.request = some name → ∃ id, N name id
  counts : ∀ name, t.request = some name → CountsIn Q students name
  replies : ∀ name, t.request = some name → ∀ e ∈ t.log, GoodReply N Q name e

structure PoolSound (lua : LuaNumbers) (N : Text → Int → Prop) (Q : Option Int → Prop) (p : UserPool) : Prop where
  names : Finds N p.shared.students
  cache : CacheSound N Q p.shared
  threads : ∀ t ∈ p.threads, ThreadSound lua N Q p.shared.students t

/-- A request is for a name whose rows have expected counts. -/
def CountsExpected (Q : Option Int → Prop) (p : UserPool) : UserEvent → Prop
  | .spawn (some name) => CountsIn Q p.shared.students name
  | _ => True

instance decidableCountsExpected (Q : Option Int → Prop) [DecidablePred Q] (p : UserPool) :
    (e : UserEvent) → Decidable (CountsExpected Q p e)
  | .spawn (some name) =>
    inferInstanceAs (Decidable (∀ r ∈ matched p.shared.students name, Q r.queryTimes))
  | .spawn none => isTrue trivial
  | .env _ => isTrue trivial
  | .advance _ _ => isTrue trivial

theorem countsExpected_true (p : UserPool) (e : UserEvent) : CountsExpected (fun _ => True) p e := by
  unfold CountsExpected
  split
  · exact fun _ _ => trivial
  · trivial

theorem nextCommand_eq {p : UserPool} {before after : List Request} {t : Request} {c : Command}
    {next : Reply c → Script} (hthreads : p.threads = before ++ t :: after)
    (hrest : t.rest = .call c next) : nextCommand p before.length = some c := by
  simp [nextCommand, hthreads, hrest, Prog.command]

/-- A thread with a command to issue is a request for a name. -/
theorem AtRequest.name {lua : LuaNumbers} {request : Option Text} {log : Log} {c : Command} {next : Reply c → Script}
    (h : AtRequest lua request log (.call c next)) :
    ∃ name, request = some name ∧ At lua name log (.call c next) := by
  cases request with
  | none => exact absurd h.2 nofun
  | some name => exact ⟨name, rfl, h⟩

section Pool

variable {lua : LuaNumbers} {N : Text → Int → Prop} {Q : Option Int → Prop} {p p' : UserPool} {e : UserEvent}

/-- A thread with a command to issue is a request for a name at one of its points. -/
theorem PoolSound.thread (hp : PoolSound lua N Q p) {t : Request} {c : Command}
    {next : Reply c → Script} (ht : t ∈ p.threads) (hrest : t.rest = .call c next) :
    ThreadSound lua N Q p.shared.students t ∧
      ∃ name, t.request = some name ∧ At lua name t.log (.call c next) := by
  have hpoint := (hp.threads t ht).point
  rw [hrest] at hpoint
  exact ⟨hp.threads t ht, hpoint.name⟩

theorem poolSound_step (hQ : ∀ z, Q (some z)) (hp : PoolSound lua N Q p) (hserved : Answered N e)
    (hexpected : CountsExpected Q p e) (hfinds : HitFindsKey p e)
    (h : (userquery lua).step p e = some p') : PoolSound lua N Q p' := by
  obtain ⟨hnames, hcache, hsound⟩ := id hp
  rcases System.step_cases h with ⟨key, s, rfl, hexpire, rfl⟩ | ⟨request, rfl, rfl⟩ |
      ⟨before, t, after, answer, c, next, r, s, rfl, hthreads, hrest, hserve, rfl⟩
  · obtain rfl := Store.expireKey_cases hexpire
    exact ⟨hnames, hcache.set nofun, hsound⟩
  · refine ⟨hnames, hcache, fun u hu => ?_⟩
    rcases List.mem_append.mp hu with hu | hu
    · exact hsound u hu
    · rw [List.mem_singleton.mp hu]
      refine ⟨AtRequest.start request, fun name hname => ?_, fun name hname => ?_,
        fun name hname e he => absurd he List.not_mem_nil⟩
      · have hrequest : request = some name := hname
        subst hrequest
        exact hserved
      · have hrequest : request = some name := hname
        subst hrequest
        exact hexpected
  · obtain ⟨ht, name, hrequest, hat⟩ := hp.thread (Pool.mem_served hthreads) hrest
    have hname := ht.requested name hrequest
    have hkey : ∀ time count, c = .hmset name (hitPairs time count) → p.shared.redis name ≠ none := by
      intro time count hc
      subst hc
      simp only [HitFindsKey, nextCommand_eq hthreads hrest] at hfinds
      have hfields : "id".toList ∉ ["last_access_timestamp".toList, "query_times".toList] := by decide
      exact Option.isSome_iff_ne_none.mp (hfinds hfields)
    obtain ⟨hnames', hcache', hreply, hcounts'⟩ :=
      request_step hQ hat hname hnames (ht.counts name hrequest) hcache
        (ht.replies name hrequest) hkey hserved hserve
    refine ⟨hnames', hcache', fun u hu => ?_⟩
    have hkeeps : ∀ u, ThreadSound lua N Q p.shared.students u → ThreadSound lua N Q s.students u :=
      fun u hu => ⟨hu.point, hu.requested, fun m hm => hcounts' m (hu.counts m hm), hu.replies⟩
    rcases Pool.mem_replaced hthreads hu with rfl | hu
    · refine ⟨?_, ht.requested, (hkeeps t ht).counts, fun name' hname' e he => ?_⟩
      · rw [Thread.reply, hrequest]
        exact hat.reply r
      · obtain rfl : name = name' := Option.some.inj (hrequest.symm.trans hname')
        rcases List.mem_cons.mp he with rfl | he
        · exact hreply
        · exact ht.replies name hrequest e he
    · exact hkeeps u (hsound u hu)

end Pool

/-- Redis holds nothing under the names of the students. -/
def Fresh (s : Store) : Prop := ∀ r ∈ s.students.rows, s.redis r.name = none

theorem Fresh.cacheSound {s : Store} (h : Fresh s) (Q : Option Int → Prop) :
    CacheSound (plainNames s.students) Q s := by
  intro name hash hname hget
  obtain ⟨id, -, r, hr, hrname, -⟩ := hname
  have hnone := h r hr
  rw [hrname, hget] at hnone
  cases hnone

/-- The servers as they stand, with no request yet. -/
def idle (s : Store) : UserPool := ⟨s, []⟩

theorem idle_sound {lua : LuaNumbers} {N : Text → Int → Prop} {s : Store} {Q : Option Int → Prop} (hnames : Finds N s.students)
    (hcache : CacheSound N Q s) : PoolSound lua N Q (idle s) :=
  ⟨hnames, hcache, fun _ ht => absurd ht List.not_mem_nil⟩

/-- Rows keep their names, and a new hash is one of a plain name. -/
structure PlainPool (s₀ : Store) (p : UserPool) : Prop where
  named : p.shared.students.Named = s₀.students.Named
  compared : p.shared.students.Exact = s₀.students.Exact
  hashes : ∀ name, p.shared.redis name ≠ none → Plain s₀.students name ∨ s₀.redis name ≠ none

section Plain

variable {lua : LuaNumbers} {s₀ s : Store} {Q : Option Int → Prop} {p p' : UserPool} {e : UserEvent}

theorem PlainPool.answered (hp : PlainPool s₀ p) (hserved : Served p e) :
    Answered (plainNames s₀.students) e := by
  have hanswered := hserved.answered
  unfold plainNames Plain at hanswered ⊢
  rwa [hp.named, hp.compared] at hanswered

/-- A new hash is one of the name of the request that is served. -/
theorem new_hash {name key : Text} {log : Log} {c : Command} {next : Reply c → Script}
    {answer : Answer} {r : Reply c} (hat : At lua name log (.call c next))
    (h : s₀.serve c answer = some (r, s)) (hnew : s.redis key ≠ none) (hold : s₀.redis key = none) :
    key = name := by
  rcases Store.serve_cases h with rfl | ⟨key', pairs, expires, rfl, rfl⟩ | ⟨key', rfl⟩ | ⟨id, stamp, rfl⟩
  · exact absurd hold hnew
  · by_cases heq : key = key'
    · rw [heq]
      exact hat.hmset_key
    · rw [Store.setHash_of_ne heq] at hnew
      exact absurd hold hnew
  · by_cases heq : key = key'
    · rw [← heq, Store.setHash_self, hold] at hnew
      exact absurd rfl hnew
    · rw [Store.setHash_of_ne heq] at hnew
      exact absurd hold hnew
  · exact absurd hold hnew

theorem plainPool_step (hp : PlainPool s₀ p) (hsound : PoolSound lua (plainNames s₀.students) Q p)
    (h : (userquery lua).step p e = some p') : PlainPool s₀ p' := by
  rcases System.step_cases h with ⟨key, s, rfl, hexpire, rfl⟩ | ⟨request, rfl, rfl⟩ |
      ⟨before, t, after, answer, c, next, r, s, rfl, hthreads, hrest, hserve, rfl⟩
  · obtain rfl := Store.expireKey_cases hexpire
    refine ⟨hp.named, hp.compared, fun name hne => ?_⟩
    have heq : name ≠ key := by
      rintro rfl
      exact hne (Store.setHash_self _ _)
    apply hp.hashes
    rwa [← Store.setHash_of_ne heq none]
  · exact ⟨hp.named, hp.compared, hp.hashes⟩
  · obtain ⟨ht, key, hrequest, hat⟩ := hsound.thread (Pool.mem_served hthreads) hrest
    obtain ⟨hnamed, hexact⟩ := Store.serve_named hserve
    refine ⟨hnamed.trans hp.named, hexact.trans hp.compared, fun name hne => ?_⟩
    by_cases hold : p.shared.redis name = none
    · obtain rfl := new_hash hat hserve hne hold
      obtain ⟨id, hplain, -⟩ := ht.requested name hrequest
      exact Or.inl hplain
    · exact hp.hashes name hold

end Plain

/-- In every run in which no hit writes to a key that is gone: every hash under the name of
a student begins with the id of a row of that name, and every statement of a request is its
SELECT or an UPDATE of a row of its name. -/
theorem cache_names_row {lua : LuaNumbers} {s : Store} (hfresh : Fresh s) {es : List UserEvent} {p : UserPool}
    (h : Run (userquery lua).step (fun p e => Served p e ∧ HitFindsKey p e) (idle s) es p) :
    (∀ name hash, (∃ id, p.shared.students.Named name id) → p.shared.redis name = some hash →
      ∃ id, p.shared.students.Named name id ∧ hash.fields.head? = some ("id".toList, intText id)) ∧
    ∀ t ∈ p.threads, ∀ name sql, t.request = some name → t.rest.command = some (.query sql) →
      parseSql sql = some (.select name) ∨
        ∃ id, p.shared.students.Named name id ∧ parseSql sql = some (.increment id) := by
  obtain ⟨⟨-, hcache, hsound⟩, hnamed, -, hhashes⟩ := h.invariant
    (I := fun p => PoolSound lua (plainNames s.students) (fun _ => True) p ∧ PlainPool s p)
    ⟨idle_sound (plainNames_finds _) (hfresh.cacheSound _), rfl, rfl, fun _ hne => Or.inr hne⟩
    fun _ _ _ hp hadmits hs =>
      ⟨poolSound_step (fun _ => trivial) hp.1 (hp.2.answered hadmits.1) (countsExpected_true _ _)
        hadmits.2 hs, plainPool_step hp.2 hp.1 hs⟩
  rw [hnamed]
  refine ⟨fun name hash hname hget => ?_, fun t ht name sql hrequest hcommand => ?_⟩
  · have hplain : Plain s.students name := by
      rcases hhashes name (by rw [hget]; exact nofun) with hplain | hold
      · exact hplain
      · obtain ⟨id, row, hrow, hrowname, -⟩ := hname
        exact absurd (hrowname ▸ hfresh row hrow) hold
    obtain ⟨id, hid⟩ := hname
    obtain ⟨q, -, hcached⟩ := hcache name hash ⟨id, hplain, hid⟩ hget
    obtain ⟨id', ⟨-, hid'⟩, hhead⟩ := hcached.head
    exact ⟨id', hid', hhead⟩
  · obtain ⟨hpoint, hrequested, -, hreplies⟩ := hsound t ht
    cases hrest : t.rest with
    | ret o =>
      rw [hrest] at hcommand
      cases hcommand
    | call c next =>
      rw [hrest, Prog.command, Option.some.injEq] at hcommand
      rw [hrest, hrequest] at hpoint
      have hat : At lua name t.log (.call c next) := hpoint
      rcases hat.command_cases with rfl | rfl | ⟨row, more, rfl, -⟩ | rfl | rfl |
          ⟨f, result, count, time, rfl, -, -⟩ | ⟨id, rfl, hid⟩
      · cases hcommand
      · obtain rfl := Command.query.inj hcommand
        obtain ⟨id, hplain, -⟩ := hrequested name hrequest
        exact Or.inl (parse_selectText hplain.1)
      · cases hcommand
      · cases hcommand
      · cases hcommand
      · cases hcommand
      · obtain rfl := Command.query.inj hcommand
        obtain ⟨z, hz, rfl⟩ := update_names_row (hreplies name hrequest) hid
        exact Or.inr ⟨z, hz.2, parse_updateText z⟩

/-! ## A key that expires between the read and the write of a hit -/

def ann : Student := ⟨1, "ann".toList, some 7, some 0, some "t0".toList⟩
def bob : Student := ⟨1000, "bob".toList, some 0, some 0, some "t0".toList⟩

def storeExample : Store := ⟨fun _ => none, ⟨[ann, bob], by decide, binaryCollation⟩⟩

/-- A request for `ann` that finds no hash. -/
def missRun : List UserEvent :=
  [.spawn (some "ann".toList), .advance 0 .done, .advance 0 (.rows [ann]), .advance 0 .done,
    .advance 0 .done, .advance 0 (.updated "t1".toList)]

/-- A second request at time 1000; `expiring` happens between its read and its write. -/
def hitRun (expiring : List UserEvent) : List UserEvent :=
  [.spawn (some "ann".toList), .advance 1 .done, .advance 1 (.time 1000)] ++ expiring ++
    [.advance 1 .done, .advance 1 .done, .advance 1 .done]

/-- What a run leaves under `ann`, and what its second request issues next. -/
def observed (p : UserPool) : Option Hash × Option (Option Text × Option Command) :=
  (p.shared.redis "ann".toList, p.threads[1]?.map fun t => (t.request, t.rest.command))

theorem cache_names_row_example :
    ∃ p, Run (userquery integersOnly).step (fun p e => Served p e ∧ HitFindsKey p e) (idle storeExample)
        (missRun ++ hitRun []) p ∧
      (∃ id, p.shared.students.Named "ann".toList id ∧
        (p.shared.fieldsAt "ann".toList).head? = some ("id".toList, intText id)) ∧
      ∃ id, p.shared.students.Named "ann".toList id ∧
        parseSql (updateText "1".toList) = some (.increment id) := by
  have hreplay : (replay (guarded (userquery integersOnly).step fun p e => Served p e ∧ HitFindsKey p e)
      (idle storeExample) (missRun ++ hitRun [])).map observed =
      some (some ⟨shape "1".toList "8".toList "0".toList "1000".toList, true⟩,
        some (some "ann".toList, some (.query (updateText "1".toList)))) := by
    decide +kernel
  obtain ⟨p, hp, hobs⟩ := Option.map_eq_some_iff.mp hreplay
  simp only [observed, Prod.mk.injEq] at hobs
  obtain ⟨hget, hthread⟩ := hobs
  obtain ⟨t, ht, hcommand⟩ := Option.map_eq_some_iff.mp hthread
  simp only [Prod.mk.injEq] at hcommand
  have hrun := Run.of_replay_guarded hp
  obtain ⟨hhead, hstatement⟩ := cache_names_row (fun _ _ => rfl) hrun
  have hupdate := hstatement t (List.mem_of_getElem? ht) _ _ hcommand.1 hcommand.2
  have hparse : parseSql (updateText "1".toList) = some (.increment 1) := parse_updateText 1
  have hnamed : ∃ id, p.shared.students.Named "ann".toList id := by
    rcases hupdate with hselect | ⟨id, hid, -⟩
    · rw [hparse] at hselect
      cases hselect
    · exact ⟨id, hid⟩
  refine ⟨p, hrun, ?_, ?_⟩
  · rw [Store.fieldsAt_eq hget]
    exact hhead _ _ hnamed hget
  · rcases hupdate with hselect | hincrement
    · rw [hparse] at hselect
      cases hselect
    · exact hincrement

def observedRows (p : UserPool) : Option Hash × Option Command × List (Text × Int) :=
  (p.shared.redis "ann".toList, nextCommand p 1, p.shared.students.rows.map fun r => (r.name, r.id))

/-- The key of `ann` expires after the second request has read its hash: the hash is made
anew without an id, and the request goes on to count for the row with the id 1000. -/
theorem cache_names_row_fails :
    ∃ p, Run (userquery integersOnly).step Served (idle storeExample) (missRun ++ hitRun [.env "ann".toList]) p ∧
      (∃ hash, p.shared.redis "ann".toList = some hash ∧
        hash.fields.head? = some ("last_access_timestamp".toList, "1000".toList)) ∧
      nextCommand p 1 = some (.query (updateText (intText 1000))) ∧
      parseSql (updateText (intText 1000)) = some (.increment 1000) ∧
      ¬ p.shared.students.Named "ann".toList 1000 ∧ p.shared.students.Named "bob".toList 1000 := by
  have hreplay : (replay (guarded (userquery integersOnly).step Served)
      (idle storeExample) (missRun ++ hitRun [.env "ann".toList])).map observedRows =
      some (some ⟨[("last_access_timestamp".toList, "1000".toList),
          ("query_times".toList, "8".toList)], true⟩,
        some (.query (updateText (intText 1000))), [("ann".toList, 1), ("bob".toList, 1000)]) := by
    decide +kernel
  obtain ⟨p, hp, hobs⟩ := Option.map_eq_some_iff.mp hreplay
  simp only [observedRows, Prod.mk.injEq] at hobs
  obtain ⟨hget, hcommand, hrows⟩ := hobs
  have hnamed : ∀ name id, p.shared.students.Named name id ↔
      (name, id) ∈ [("ann".toList, (1 : Int)), ("bob".toList, 1000)] := by
    intro name id
    rw [← hrows, List.mem_map]
    simp only [StudentTable.Named, Prod.mk.injEq]
  refine ⟨p, Run.of_replay_guarded hp, ⟨_, hget, rfl⟩, hcommand,
    parse_updateText 1000, ?_, ?_⟩
  · rw [hnamed]
    decide
  · rw [hnamed]
    decide

end RedisLuaLinux.Lua
