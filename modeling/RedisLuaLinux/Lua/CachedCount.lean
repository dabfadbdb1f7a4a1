import RedisLuaLinux.Lua.Counting

/-!
# The cached counter of one name

Requests for a name with one row, whose key does not expire. `WriteFollows` says of a step
that writes to the cache that it writes one more than the hash holds: a hit finds the count
it has read, and a miss finds no hash or the count before the one it has selected.

* `serial_run`: then the cached counter grows by one with every write.
* `cached_count_serialisable`: the value left is the one that the requests leave when they
  run one after another.
* `cached_count_lost`: two hits that read before either of them writes.
-/

namespace RedisLuaLinux.Lua

open Library

/-- The count that a hash holds. -/
def countIn (fields : Fields) : Option Int := (fields.lookup "query_times".toList).bind readInt

def Store.cachedCount (s : Store) (name : Text) : Option Int :=
  (s.redis name).bind fun hash => countIn hash.fields

theorem Cached.countIn_eq {N : Text → Int → Prop} {name : Text} {fields : Fields} {q : Option Int}
    (h : Cached N name fields q) : countIn fields = q := by
  obtain ⟨id, created, accessed, -, rfl⟩ := h
  exact readInt_columnText q

/-- The row that a request has selected. -/
def selectedRow (log : Log) : Option Student :=
  log.findSome? fun
    | ⟨.query _, some (.rows (row :: _))⟩ => some row
    | _ => none

/-- What a request with this log is about to write follows the count in the hash. -/
def Follows (s : Store) (name : Text) (log : Log) : Prop :=
  match selectedRow log with
  | some row => s.redis name = none ∨ row.queryTimes = (s.cachedCount name).map (· + 1)
  | none => ∀ result ∈ reads log, result[3]? = (flatten (s.fieldsAt name))[3]?

instance decidableFollows (s : Store) (name : Text) (log : Log) : Decidable (Follows s name log) := by
  unfold Follows
  split
  · infer_instance
  · exact List.decidableBAll _ _

/-- If the command of a request writes to the cache, it follows the count in the hash. -/
def CommandFollows (s : Store) (log : Log) : Option Command → Prop
  | some (.hmset name _) => Follows s name log
  | _ => True

instance decidableCommandFollows (s : Store) (log : Log) : (c : Option Command) →
    Decidable (CommandFollows s log c)
  | some (.hmset name _) => decidableFollows s name log
  | some (.hgetall _) => isTrue trivial
  | some (.expire _ _) => isTrue trivial
  | some (.query _) => isTrue trivial
  | some .osTime => isTrue trivial
  | none => isTrue trivial

/-- A step that writes to the cache follows the count in the hash. -/
def WriteFollows (p : UserPool) : UserEvent → Prop
  | .advance i _ => ∀ t ∈ p.threads[i]?, CommandFollows p.shared t.log t.rest.command
  | _ => True

instance decidableWriteFollows (p : UserPool) : (e : UserEvent) → Decidable (WriteFollows p e)
  | .env _ => isTrue trivial
  | .spawn _ => isTrue trivial
  | .advance i _ =>
    inferInstanceAs (Decidable (∀ t ∈ p.threads[i]?, CommandFollows p.shared t.log t.rest.command))

/-- Only `name` is asked for, and its key does not expire. -/
def OnlyFor (name : Text) : UserEvent → Prop
  | .env key => key ≠ name
  | .spawn (some other) => other = name
  | _ => True

instance decidableOnlyFor (name : Text) : (e : UserEvent) → Decidable (OnlyFor name e)
  | .env key => inferInstanceAs (Decidable (key ≠ name))
  | .spawn (some other) => inferInstanceAs (Decidable (other = name))
  | .spawn none => isTrue trivial
  | .advance _ _ => isTrue trivial

/-- The commands succeed. -/
def Succeeds : UserEvent → Prop
  | .advance _ answer => answer ≠ .failed
  | _ => True

instance decidableSucceeds : (e : UserEvent) → Decidable (Succeeds e)
  | .advance _ answer => inferInstanceAs (Decidable (answer ≠ .failed))
  | .env _ => isTrue trivial
  | .spawn _ => isTrue trivial

/-- What the runs for one name meet: commands succeed, only `name` is asked for, and its key
does not expire. -/
def AloneAdmits (name : Text) (_ : UserPool) (e : UserEvent) : Prop := Succeeds e ∧ OnlyFor name e

instance (name : Text) (p : UserPool) (e : UserEvent) : Decidable (AloneAdmits name p e) :=
  inferInstanceAs (Decidable (Succeeds e ∧ OnlyFor name e))

/-- The one name and the id of its one row. -/
def oneRow (name : Text) (id : Int) (other : Text) (id' : Int) : Prop := other = name ∧ id' = id

theorem oneRow_finds {t : StudentTable} {name : Text} {row : Student} (h : matched t name = [row]) :
    Finds (oneRow name row.id) t := by
  rintro other id ⟨rfl, rfl⟩
  funext id'
  rw [StudentTable.Matches, h]
  simp [oneRow]

/-- The request for `name` has written to the cache. -/
def writtenBy (name : Text) (t : Request) : Bool := decide (t.request = some name) && wrote t.log

/-- The number of requests for `name` that have written to the cache. -/
def written (p : UserPool) (name : Text) : Nat := p.threads.countP (writtenBy name)

/-- `id` is the id of the one row of `name` and `q` its count at the start; `base` is the cached
count there, or the count before `q` if nothing was cached. -/
structure Serial (lua : LuaNumbers) (name : Text) (id q base : Int) (p : UserPool) : Prop where
  live : Live lua (oneRow name id) p
  row : ∃ row, matched p.shared.students name = [row] ∧ row.id = id ∧
    row.queryTimes = some (q + completed p name)
  closed : ∀ t ∈ p.threads, completedFor name t = true → writtenBy name t = true
  cached : ∀ hash, p.shared.redis name = some hash → countIn hash.fields = some (base + written p name)
  absent : p.shared.redis name = none → base = q - 1 ∧ written p name = 0 ∧
    ∀ t ∈ p.threads, ∀ row, selectedRow t.log = some row → row.queryTimes = some q

section Serial

variable {lua : LuaNumbers} {s : Store} {name : Text} {id q base : Int} {p p' : UserPool} {e : UserEvent}
  {before after : List Request} {t : Request} {c : Command} {next : Reply c → Script}
  {answer : Answer} {r : Reply c}

theorem Serial.completed_le (hp : Serial lua name id q base p) : completed p name ≤ written p name :=
  List.countP_mono_left hp.closed

/-- Every request is one for `name`. -/
theorem Serial.only (hp : Serial lua name id q base p) (ht : t ∈ p.threads) {other : Text}
    (hrequest : t.request = some other) : other = name := by
  obtain ⟨-, hother, -⟩ := (hp.live.sound.threads t ht).requested other hrequest
  exact hother

/-- A thread with a command to issue is a request for `name`. -/
theorem Serial.thread (hp : Serial lua name id q base p) (ht : t ∈ p.threads)
    (hrest : t.rest = .call c next) :
    t.request = some name ∧ At lua name t.log (.call c next) ∧
      ∀ e ∈ t.log, GoodReply (oneRow name id) IsCount name e := by
  obtain ⟨hsound, key, hrequest, hat⟩ := hp.live.sound.thread ht hrest
  obtain rfl := hp.only ht hrequest
  exact ⟨hrequest, hat, hsound.replies key hrequest⟩

/-- A run for one name whose key does not expire stays live. -/
theorem Serial.admits (hp : Serial lua name id q base p) (ha : AloneAdmits name p e) :
    LiveAdmits (oneRow name id) p e := by
  obtain ⟨hsucceeds, honly⟩ := ha
  cases e with
  | env key =>
    refine ⟨trivial, trivial, fun t ht hrequest => ?_⟩
    exact absurd (hp.only ht hrequest) honly
  | spawn request =>
    cases request with
    | none => exact ⟨trivial, trivial, trivial⟩
    | some other =>
      obtain rfl : other = name := honly
      refine ⟨⟨id, rfl, rfl⟩, fun r hr => ?_, trivial⟩
      obtain ⟨row, hselect, -, hcount⟩ := hp.row
      rw [hselect, List.mem_singleton] at hr
      rw [hr, hcount]
      rfl
  | advance i answer => exact ⟨hsucceeds, trivial, trivial⟩

/-- What a hit writes, where it has read the count in the hash. -/
theorem count_of_hit {N : Text → Int → Prop} {hash : Hash} {q : Option Int} {result : List Text}
    {count : Text} {n : Int} (hcached : Cached N name hash.fields q)
    (hsame : result[3]? = (flatten hash.fields)[3]?) (hnext : lua.nextCount result = some count)
    (hold : countIn hash.fields = some n) : count = intText (n + 1) := by
  have hreply : lua.nextCount result = lua.nextCount (flatten hash.fields) := by
    unfold LuaNumbers.nextCount
    rw [hsame]
  rw [hcached.countIn_eq] at hold
  rw [hreply, hcached.nextCount lua, hold, Option.map_some] at hnext
  exact (Option.some.inj hnext).symm

/-- What a miss writes, where nothing is cached or the count before the one it has selected. -/
theorem Serial.count_of_miss (hp : Serial lua name id q base p) (ht : t ∈ p.threads) {row : Student}
    (hselected : selectedRow t.log = some row)
    (h : p.shared.redis name = none ∨ row.queryTimes = (p.shared.cachedCount name).map (· + 1)) :
    row.queryTimes = some (base + written p name + 1) := by
  cases hget : p.shared.redis name with
  | none =>
    obtain ⟨hbase, hzero, hrows⟩ := hp.absent hget
    rw [hrows t ht row hselected, hbase, hzero]
    simp
  | some hash =>
    rw [hget] at h
    have hcount := h.resolve_left nofun
    rw [hcount, Store.cachedCount, hget, Option.bind_some, hp.cached hash hget]
    rfl

/-- A write to the cache: the request has not written before, and what it writes follows. -/
theorem Serial.write {key : Text} {pairs : List (Text × Text)} {r : Bool}
    {next : Reply (.hmset key pairs) → Script}
    (hp : Serial lua name id q base p) (hthreads : p.threads = before ++ t :: after)
    (hrest : t.rest = .call (.hmset key pairs) next) (hfollows : Follows p.shared key t.log)
    (ha : answer ≠ .failed) (h : p.shared.serve (.hmset key pairs) answer = some (r, s)) :
    wrote t.log = false ∧
      ∃ hash, s.redis name = some hash ∧ countIn hash.fields = some (base + written p name + 1) := by
  have hmem := Pool.mem_served hthreads
  obtain ⟨hrequest, hat, hreplies⟩ := hp.thread hmem hrest
  have hname : ∃ id', oneRow name id name id' := ⟨id, rfl, rfl⟩
  obtain ⟨expires, rfl⟩ := Store.serve_hmset ha h
  have hcache := hp.live.sound.cache
  rcases hat.command_cases with hc | hc | ⟨row, more, hc, hlog⟩ | hc | hc |
      ⟨f, result, count, time, hc, hnext, hlog⟩ | ⟨id, hc, -⟩
  · cases hc
  · cases hc
  · obtain ⟨rfl, rfl⟩ := Command.hmset.inj hc
    refine ⟨by rw [hlog]; rfl, _, Store.setHash_self _ _, ?_⟩
    have hrow := hreplies (selectReply key (row :: more)) (by rw [hlog]; simp) row List.mem_cons_self
    have hfill := Cached.fill hrow.1 ((hcache.fieldsAt hname).imp_right fun h => h.imp fun _ h => h.2)
    have hselected : selectedRow t.log = some row := by rw [hlog]; rfl
    rw [Follows, hselected] at hfollows
    rw [hfill.countIn_eq]
    exact hp.count_of_miss hmem hselected hfollows
  · cases hc
  · cases hc
  · obtain ⟨rfl, rfl⟩ := Command.hmset.inj hc
    refine ⟨by rw [hlog]; rfl, _, Store.setHash_self _ _, ?_⟩
    have hfinds := hp.live.hitFindsKey (.advance before.length answer)
    simp only [HitFindsKey, nextCommand_eq hthreads hrest] at hfinds
    have hfields : "id".toList ∉ ["last_access_timestamp".toList, "query_times".toList] := by decide
    obtain ⟨hash, hget⟩ := Option.isSome_iff_exists.mp (hfinds hfields)
    obtain ⟨q', -, hcached⟩ := hcache key hash hname hget
    have hselected : selectedRow t.log = none := by rw [hlog]; rfl
    rw [Follows, hselected] at hfollows
    have hsame := hfollows (f :: result) (by rw [hlog]; exact List.mem_cons_self)
    rw [Store.fieldsAt_eq hget] at hsame ⊢
    obtain rfl := count_of_hit hcached hsame hnext (hp.cached hash hget)
    exact (hcached.rewrite time _).countIn_eq
  · cases hc

/-- A command that does not write to the cache: what a request has selected while nothing
was cached is the row as it was at the start. -/
theorem Serial.selected (hp : Serial lua name id q base p) (hthreads : p.threads = before ++ t :: after)
    (hrest : t.rest = .call c next) (ha : answer ≠ .failed)
    (h : p.shared.serve c answer = some (r, s)) (hnone : p.shared.redis name = none) {row : Student}
    (hselected : selectedRow (⟨c, r⟩ :: t.log) = some row) : row.queryTimes = some q := by
  have hmem := Pool.mem_served hthreads
  obtain ⟨-, hzero, hrows⟩ := hp.absent hnone
  obtain ⟨hrequest, hat, hreplies⟩ := hp.thread hmem hrest
  rcases hat.command_cases with rfl | rfl | ⟨row, more, rfl, -⟩ | rfl | rfl |
      ⟨f, result, count, time, rfl, -, -⟩ | ⟨id', rfl, hid⟩
  · exact hrows t hmem row hselected
  · obtain ⟨rs, hperm, rfl, rfl⟩ := select_reply hp.live.sound.names ⟨id, rfl, rfl⟩ ha h
    obtain ⟨row₀, hselect, -, hcount⟩ := hp.row
    rw [hselect] at hperm
    obtain rfl := List.perm_singleton.mp hperm
    obtain rfl : row₀ = row := Option.some.inj hselected
    have hle := hp.completed_le
    have hdone : completed p name = 0 := by omega
    rw [hcount, hdone]
    simp
  · exact hrows t hmem _ hselected
  · exact hrows t hmem row hselected
  · exact hrows t hmem row hselected
  · exact hrows t hmem row hselected
  · obtain ⟨z, -, rfl⟩ := update_names_row hreplies hid
    obtain ⟨stamp, rfl, rfl⟩ := Store.serve_increment ha (parse_updateText z) h
    exact hrows t hmem row hselected

theorem wrote_cons (hc : ∀ key pairs, c ≠ .hmset key pairs) (log : Log) :
    wrote (⟨c, r⟩ :: log) = wrote log := by
  cases c with
  | hmset key pairs => exact absurd rfl (hc key pairs)
  | hgetall key => rfl
  | expire key seconds => rfl
  | query sql => rfl
  | osTime => rfl

theorem written_reply (hthreads : p.threads = before ++ t :: after) (s : Store) (name : Text)
    (next : Reply c → Script) (r : Reply c) :
    written ⟨s, before ++ t.reply next r :: after⟩ name + (if writtenBy name t then 1 else 0) =
      written p name + if writtenBy name (t.reply next r) then 1 else 0 := by
  unfold written
  rw [hthreads]
  exact countP_reply (writtenBy name) before after t (t.reply next r)

/-- A write to the cache keeps the cached count in step with the number of writes. -/
theorem Serial.cached_write {key : Text} {pairs : List (Text × Text)} {r : Bool}
    {next : Reply (.hmset key pairs) → Script}
    (hp : Serial lua name id q base p) (hthreads : p.threads = before ++ t :: after)
    (hrest : t.rest = .call (.hmset key pairs) next) (hfollows : Follows p.shared key t.log)
    (ha : answer ≠ .failed) (h : p.shared.serve (.hmset key pairs) answer = some (r, s)) :
    ∃ hash, s.redis name = some hash ∧
      countIn hash.fields = some (base + written ⟨s, before ++ t.reply next r :: after⟩ name) := by
  obtain ⟨hrequest, -, -⟩ := hp.thread (Pool.mem_served hthreads) hrest
  obtain ⟨hfirst, hash, hget, hcount⟩ := hp.write hthreads hrest hfollows ha h
  have hwritten := written_reply hthreads s name next r
  have hbefore : writtenBy name t = false := by simp [writtenBy, hfirst]
  have hafter : writtenBy name (t.reply next r) = true := by
    simp [writtenBy, Thread.reply, hrequest, wrote]
  rw [hbefore, hafter] at hwritten
  refine ⟨hash, hget, ?_⟩
  rw [hcount, Option.some.injEq]
  simp only [Bool.false_eq_true, if_false, if_true] at hwritten
  omega

/-- Any other command leaves the number of writes as it is. -/
theorem written_keep (hthreads : p.threads = before ++ t :: after)
    (hc : ∀ key pairs, c ≠ .hmset key pairs) (r : Reply c) :
    written ⟨s, before ++ t.reply next r :: after⟩ name = written p name := by
  have hwritten := written_reply hthreads s name next r
  have hsame : writtenBy name (t.reply next r) = writtenBy name t := by
    show (decide (t.request = some name) && wrote (⟨c, r⟩ :: t.log)) = _
    rw [wrote_cons hc]
    rfl
  rw [hsame] at hwritten
  exact Nat.add_right_cancel hwritten

theorem Serial.cached_reply (hp : Serial lua name id q base p) (hthreads : p.threads = before ++ t :: after)
    (hrest : t.rest = .call c next) (hfollows : CommandFollows p.shared t.log (some c))
    (ha : answer ≠ .failed) (h : p.shared.serve c answer = some (r, s)) {hash : Hash}
    (hget : s.redis name = some hash) :
    countIn hash.fields = some (base + written ⟨s, before ++ t.reply next r :: after⟩ name) := by
  by_cases hc : ∃ key pairs, c = .hmset key pairs
  · obtain ⟨key, pairs, rfl⟩ := hc
    obtain ⟨hash', hget', hcount⟩ := hp.cached_write hthreads hrest hfollows ha h
    obtain rfl := Option.some.inj (hget.symm.trans hget')
    exact hcount
  · have hkeep : ∀ key pairs, c ≠ .hmset key pairs := fun key pairs heq => hc ⟨key, pairs, heq⟩
    have hfields := Store.serve_fields hkeep h name
    rw [hget, Option.map_some] at hfields
    obtain ⟨old, hold, heq⟩ := Option.map_eq_some_iff.mp hfields.symm
    rw [written_keep hthreads hkeep, ← heq]
    exact hp.cached old hold

theorem Serial.absent_reply (hp : Serial lua name id q base p) (hthreads : p.threads = before ++ t :: after)
    (hrest : t.rest = .call c next) (hfollows : CommandFollows p.shared t.log (some c))
    (ha : answer ≠ .failed) (h : p.shared.serve c answer = some (r, s))
    (hnone : s.redis name = none) :
    base = q - 1 ∧ written ⟨s, before ++ t.reply next r :: after⟩ name = 0 ∧
      ∀ u ∈ before ++ t.reply next r :: after, ∀ row, selectedRow u.log = some row →
        row.queryTimes = some q := by
  have hkeep : ∀ key pairs, c ≠ .hmset key pairs := by
    rintro key pairs rfl
    obtain ⟨hash, hget, -⟩ := hp.cached_write hthreads hrest hfollows ha h
    rw [hget] at hnone
    cases hnone
  have hfields := Store.serve_fields hkeep h name
  rw [hnone, Option.map_none] at hfields
  have hold := Option.map_eq_none_iff.mp hfields.symm
  obtain ⟨hbase, hzero, hrows⟩ := hp.absent hold
  refine ⟨hbase, (written_keep hthreads hkeep r).trans hzero, fun u hu row hselected => ?_⟩
  rcases Pool.mem_replaced hthreads hu with rfl | hu
  · exact hp.selected hthreads hrest ha h hold hselected
  · exact hrows u hu row hselected

theorem serial_advance (hp : Serial lua name id q base p) (hthreads : p.threads = before ++ t :: after)
    (hrest : t.rest = .call c next) (hfollows : CommandFollows p.shared t.log (some c))
    (ha : answer ≠ .failed) (h : p.shared.serve c answer = some (r, s))
    (hlive : Live lua (oneRow name id) ⟨s, before ++ t.reply next r :: after⟩) :
    Serial lua name id q base ⟨s, before ++ t.reply next r :: after⟩ := by
  obtain ⟨hrequest, hat, -⟩ := hp.thread (Pool.mem_served hthreads) hrest
  have hprogress := hp.live.progress hthreads hrest hrequest hat ha h
  have hcompleted := completed_reply (s := s) hthreads hrest r name
  refine ⟨hlive, ?_, fun u hu hdone => ?_, fun hash => hp.cached_reply hthreads hrest hfollows ha h,
    hp.absent_reply hthreads hrest hfollows ha h⟩
  · obtain ⟨row, hselect, hid, hcount⟩ := hp.row
    rcases hprogress with ⟨hs, hout⟩ | ⟨z, stamp, ⟨-, rfl⟩, hs, hout, -⟩
    · refine ⟨row, by rw [hs]; exact hselect, hid, ?_⟩
      rw [hcompleted, completedFor_unfinished hout]
      simpa using hcount
    · subst hid
      refine ⟨row.count stamp, by rw [hs]; exact matched_increment hselect stamp,
        row.count_id stamp, ?_⟩
      rw [hcompleted, completedFor_reply hrequest hout]
      simp only [Student.count, hcount, decide_true, if_true, Option.some.injEq]
      omega
  · rcases Pool.mem_replaced hthreads hu with rfl | hu
    · rcases hprogress with ⟨-, hout⟩ | ⟨z, stamp, -, -, -, hwrote⟩
      · rw [completedFor_unfinished hout] at hdone
        cases hdone
      · have hlog : wrote (⟨c, r⟩ :: t.log) = true := by
          rw [wrote, List.any_cons, Bool.or_eq_true]
          exact Or.inr hwrote
        simp [writtenBy, Thread.reply, hrequest, hlog]
    · exact hp.closed u hu hdone

theorem serial_spawn {request : Option Text} (hp : Serial lua name id q base p)
    (hlive : Live lua (oneRow name id) { p with threads := p.threads ++ [(userquery lua).start request] }) :
    Serial lua name id q base { p with threads := p.threads ++ [(userquery lua).start request] } := by
  have hnew : ∀ t ∈ p.threads ++ [(userquery lua).start request],
      t = (userquery lua).start request ∨ t ∈ p.threads := by
    intro t ht
    rcases List.mem_append.mp ht with ht | ht
    · exact Or.inr ht
    · exact Or.inl (List.mem_singleton.mp ht)
  have hwritten : written { p with threads := p.threads ++ [(userquery lua).start request] } name =
      written p name := by
    simp [written, writtenBy, System.start, wrote]
  refine ⟨hlive, ?_, fun t ht hdone => ?_, fun hash hhash => ?_, fun hnone => ?_⟩
  · rw [completed_spawn p request name]
    exact hp.row
  · rcases hnew t ht with rfl | ht
    · cases request with
      | none => simp [completedFor, System.start] at hdone
      | some other =>
        rw [completedFor_unfinished rfl] at hdone
        cases hdone
    · exact hp.closed t ht hdone
  · rw [hwritten]
    exact hp.cached hash hhash
  · rw [hwritten]
    obtain ⟨hbase, hzero, hrows⟩ := hp.absent hnone
    refine ⟨hbase, hzero, fun t ht row hselected => ?_⟩
    rcases hnew t ht with rfl | ht
    · cases hselected
    · exact hrows t ht row hselected

theorem serial_step (hp : Serial lua name id q base p) (ha : AloneAdmits name p e)
    (hfollows : WriteFollows p e) (h : (userquery lua).step p e = some p') : Serial lua name id q base p' := by
  have hlive := live_step hp.live (hp.admits ha) h
  rcases System.step_cases h with ⟨key, s, rfl, hexpire, rfl⟩ | ⟨request, rfl, rfl⟩ |
      ⟨before, t, after, answer, c, next, r, s, rfl, hthreads, hrest, hserve, rfl⟩
  · obtain rfl := Store.expireKey_cases hexpire
    have hget : (p.shared.setHash key none).redis name = p.shared.redis name :=
      Store.setHash_of_ne (Ne.symm ha.2) none
    refine ⟨hlive, hp.row, hp.closed, fun hash hhash => ?_, fun hnone => ?_⟩
    · exact hp.cached hash (hget.symm.trans hhash)
    · exact hp.absent (hget.symm.trans hnone)
  · exact serial_spawn hp hlive
  · have hcommand : CommandFollows p.shared t.log t.rest.command := hfollows t (by rw [hthreads]; simp)
    rw [hrest] at hcommand
    exact serial_advance hp hthreads hrest hcommand ha.1 hserve hlive

/-- The cached count at the start, or the count before the one in the table. -/
def startCount (s : Store) (name : Text) (q : Int) : Int := (s.cachedCount name).getD (q - 1)

theorem serial_idle {row : Student} (hselect : matched s.students name = [row])
    (hq : row.queryTimes = some q)
    (hcache : ∀ hash, s.redis name = some hash → ∃ c, HoldsCount name row.id c hash) :
    Serial lua name row.id q (startCount s name q) (idle s) := by
  have hsound : CacheSound (oneRow name row.id) IsCount s := by
    rintro other hash ⟨-, rfl, -⟩ hget
    obtain ⟨c, id, created, accessed, rfl, hfields⟩ := hcache hash hget
    exact ⟨some c, rfl, row.id, created, accessed, ⟨rfl, rfl⟩, hfields⟩
  refine ⟨live_idle (oneRow_finds hselect) hsound, ⟨row, hselect, rfl, ?_⟩,
    fun t ht => absurd ht List.not_mem_nil, fun hash hhash => ?_,
    fun hget => ⟨?_, rfl, fun t ht => absurd ht List.not_mem_nil⟩⟩
  · simpa [idle, completed] using hq
  · obtain ⟨c, hcached⟩ := hcache hash hhash
    have hcount : countIn hash.fields = some c := Cached.countIn_eq hcached
    have hstart : s.cachedCount name = some c := by
      have hget : s.redis name = some hash := hhash
      rw [Store.cachedCount, hget, Option.bind_some, hcount]
    rw [hcount, startCount, hstart]
    simp [idle, written]
  · have hget' : s.redis name = none := hget
    simp [startCount, Store.cachedCount, hget']

end Serial

section Runs

variable {lua : LuaNumbers} {s : Store} {name : Text} {row : Student} {q : Int} {es : List UserEvent} {p p' : UserPool}
  {e : UserEvent}

/-- While nobody has asked for the name, its key is as it was at the start. -/
theorem serial_untouched {id base : Int} (hp : Serial lua name id q base p)
    (hold : (∀ t ∈ p.threads, t.request ≠ some name) → p.shared.redis name = s.redis name)
    (honly : OnlyFor name e) (h : (userquery lua).step p e = some p')
    (hnobody : ∀ t ∈ p'.threads, t.request ≠ some name) :
    p'.shared.redis name = s.redis name := by
  rcases System.step_cases h with ⟨key, s, rfl, hexpire, rfl⟩ | ⟨request, rfl, rfl⟩ |
      ⟨before, t, after, answer, c, next, r, s, rfl, hthreads, hrest, hserve, rfl⟩
  · obtain rfl := Store.expireKey_cases hexpire
    exact (Store.setHash_of_ne (Ne.symm honly) none).trans (hold hnobody)
  · exact hold fun t ht => hnobody t (List.mem_append_left _ ht)
  · obtain ⟨hrequest, -, -⟩ := hp.thread (Pool.mem_served hthreads) hrest
    exact absurd hrequest (hnobody (t.reply next r) (List.mem_append_right _ List.mem_cons_self))

/-- When no request is in progress, the cached counter has grown by the number of requests. -/
theorem serial_run (hselect : matched s.students name = [row]) (hq : row.queryTimes = some q)
    (hcache : ∀ hash, s.redis name = some hash → ∃ c, HoldsCount name row.id c hash)
    (h : Run (userquery lua).step (fun p e => AloneAdmits name p e ∧ WriteFollows p e) (idle s) es p)
    (hquiet : System.Quiet p) :
    p.shared.cachedCount name =
      if some name ∈ System.requests es then
        some (startCount s name q + (System.requests es).count (some name))
      else s.cachedCount name := by
  obtain ⟨hserial, huntouched⟩ := h.invariant
    (I := fun p => Serial lua name row.id q (startCount s name q) p ∧
      ((∀ t ∈ p.threads, t.request ≠ some name) → p.shared.redis name = s.redis name))
    ⟨serial_idle hselect hq hcache, fun _ => rfl⟩
    fun _ _ _ hp ha hs =>
      ⟨serial_step hp.1 ha.1 ha.2 hs, serial_untouched hp.1 hp.2 ha.1.2 hs⟩
  have hrequests : p.threads.map Thread.request = System.requests es := by
    simpa [idle] using System.run_requests h
  split
  · rename_i hsome
    have hcompleted : completed p name = (System.requests es).count (some name) :=
      hserial.live.completed_quiet hquiet h name
    have hpos : 0 < (System.requests es).count (some name) := List.count_pos_iff.mpr hsome
    have hle := hserial.completed_le
    have hge : written p name ≤ (System.requests es).count (some name) := by
      rw [← hrequests, List.count, List.countP_map]
      refine List.countP_mono_left fun t _ hw => ?_
      simp only [writtenBy, Bool.and_eq_true, decide_eq_true_eq] at hw
      simp [hw.1]
    cases hget : p.shared.redis name with
    | none =>
      obtain ⟨-, hzero, -⟩ := hserial.absent hget
      omega
    | some hash =>
      have hcount := hserial.cached hash hget
      rw [Store.cachedCount, hget, Option.bind_some, hcount]
      congr 1
      omega
  · rename_i hnone
    rw [← hrequests] at hnone
    unfold Store.cachedCount
    rw [huntouched fun t ht heq => hnone (List.mem_map.mpr ⟨t, ht, heq⟩)]

/-! ## One after another -/

/-- A request starts when no other is in progress. -/
def OneByOne (p : UserPool) : UserEvent → Prop
  | .spawn _ => ∀ t ∈ p.threads, t.rest.outcome.isSome = true
  | _ => True

instance decidableOneByOne (p : UserPool) : (e : UserEvent) → Decidable (OneByOne p e)
  | .spawn _ => inferInstanceAs (Decidable (∀ t ∈ p.threads, t.rest.outcome.isSome = true))
  | .env _ => isTrue trivial
  | .advance _ _ => isTrue trivial

/-- Only the last thread is in progress, and what it has read is still in the cache until it
writes. -/
structure OneAtATime (name : Text) (p : UserPool) : Prop where
  front : ∀ t ∈ p.threads.dropLast, t.rest.outcome.isSome = true
  unread : ∀ t ∈ p.threads, t.rest.outcome = none → wrote t.log = false →
    ∀ result ∈ reads t.log, result = flatten (p.shared.fieldsAt name)

theorem OneAtATime.writeFollows {id base : Int} (h1 : OneAtATime name p)
    (hp : Serial lua name id q base p) (e : UserEvent) : WriteFollows p e := by
  cases e with
  | env key => trivial
  | spawn request => trivial
  | advance i answer =>
    intro t hthread
    have hmem : t ∈ p.threads := List.mem_of_getElem? hthread
    cases hrest : t.rest with
    | ret o => trivial
    | call c next =>
      obtain ⟨-, hat, -⟩ := hp.thread hmem hrest
      have hunread := h1.unread t hmem (by rw [hrest]; rfl)
      rcases hat.command_cases with rfl | rfl | ⟨row, more, rfl, hlog⟩ | rfl | rfl |
          ⟨f, result, count, time, rfl, -, hlog⟩ | ⟨id', rfl, -⟩
      · trivial
      · trivial
      · have hselected : selectedRow t.log = some row := by rw [hlog]; rfl
        show Follows p.shared name t.log
        rw [Follows, hselected]
        left
        have hempty : [] = flatten (p.shared.fieldsAt name) :=
          hunread (by rw [hlog]; rfl) [] (by rw [hlog]; exact List.mem_singleton_self _)
        cases hget : p.shared.redis name with
        | none => rfl
        | some hash =>
          obtain ⟨q', -, id, created, accessed, -, hfields⟩ :=
            hp.live.sound.cache name hash ⟨id, rfl, rfl⟩ hget
          rw [Store.fieldsAt_eq hget, hfields] at hempty
          cases hempty
      · trivial
      · trivial
      · have hselected : selectedRow t.log = none := by rw [hlog]; rfl
        show Follows p.shared name t.log
        rw [Follows, hselected]
        intro result' hresult'
        rw [← hunread (by rw [hlog]; rfl) result' hresult']
      · trivial

theorem oneAtATime_step {id base : Int} (h1 : OneAtATime name p) (hp : Serial lua name id q base p)
    (ha : AloneAdmits name p e) (hone : OneByOne p e) (h : (userquery lua).step p e = some p') :
    OneAtATime name p' := by
  rcases System.step_cases h with ⟨key, s, rfl, hexpire, rfl⟩ | ⟨request, rfl, rfl⟩ |
      ⟨before, t, after, answer, c, next, r, s, rfl, hthreads, hrest, hserve, rfl⟩
  · obtain rfl := Store.expireKey_cases hexpire
    have hfields : (p.shared.setHash key none).fieldsAt name = p.shared.fieldsAt name := by
      unfold Store.fieldsAt
      rw [Store.setHash_of_ne (Ne.symm ha.2)]
    refine ⟨h1.front, fun t ht hnone hwrote result hresult => ?_⟩
    rw [hfields]
    exact h1.unread t ht hnone hwrote result hresult
  · refine ⟨?_, fun t ht hnone hwrote result hresult => ?_⟩
    · rw [List.dropLast_concat]
      exact hone
    · rcases List.mem_append.mp ht with ht | ht
      · exact h1.unread t ht hnone hwrote result hresult
      · rw [List.mem_singleton.mp ht] at hresult
        cases hresult
  · have hmem := Pool.mem_served hthreads
    obtain ⟨-, hat, -⟩ := hp.thread hmem hrest
    -- the thread that is served is the last one
    obtain rfl : after = [] := by
      by_contra hne
      have hin : t ∈ p.threads.dropLast := by
        rw [hthreads, List.dropLast_append_of_ne_nil (by simp), List.dropLast_cons_of_ne_nil hne]
        simp
      have hdone := h1.front t hin
      rw [hrest] at hdone
      cases hdone
    have hbefore : ∀ u ∈ before, u.rest.outcome.isSome = true := by
      intro u hu
      refine h1.front u ?_
      rw [hthreads, List.dropLast_concat]
      exact hu
    refine ⟨by rw [List.dropLast_concat]; exact hbefore, fun u hu hnone hwrote result hresult => ?_⟩
    rcases List.mem_append.mp hu with hu | hu
    · have hdone := hbefore u hu
      rw [hnone] at hdone
      cases hdone
    · rw [List.mem_singleton.mp hu] at hwrote hresult
      have hc : ∀ key' pairs, c ≠ .hmset key' pairs := by
        rintro key' pairs rfl
        cases hwrote
      have hold : wrote t.log = false := (wrote_cons hc t.log).symm.trans hwrote
      have hfields : s.fieldsAt name = p.shared.fieldsAt name := by
        unfold Store.fieldsAt
        rw [Store.serve_fields hc hserve]
      have hearlier : ∀ result ∈ reads t.log, result = flatten (s.fieldsAt name) := by
        rw [hfields]
        exact h1.unread t hmem (by rw [hrest]; rfl) hold
      cases c with
      | hgetall key' =>
        obtain rfl := hat.hgetall_key
        obtain ⟨rfl, -⟩ := Store.serve_hgetall ha.1 hserve
        rcases List.mem_cons.mp hresult with rfl | hresult
        · rw [hfields]
        · exact hearlier result hresult
      | hmset key' pairs => exact absurd rfl (hc key' pairs)
      | expire key' seconds => exact hearlier result hresult
      | query sql => exact hearlier result hresult
      | osTime => exact hearlier result hresult

/-- Requests that run one after another follow the count in the hash. -/
theorem run_follows (hselect : matched s.students name = [row]) (hq : row.queryTimes = some q)
    (hcache : ∀ hash, s.redis name = some hash → ∃ c, HoldsCount name row.id c hash)
    (h : Run (userquery lua).step (fun p e => AloneAdmits name p e ∧ OneByOne p e) (idle s) es p) :
    Run (userquery lua).step (fun p e => AloneAdmits name p e ∧ WriteFollows p e) (idle s) es p := by
  have hstart : OneAtATime name (idle s) :=
    ⟨fun t ht => absurd ht List.not_mem_nil, fun t ht => absurd ht List.not_mem_nil⟩
  refine h.strengthen
    (I := fun p => Serial lua name row.id q (startCount s name q) p ∧ OneAtATime name p)
    ⟨serial_idle hselect hq hcache, hstart⟩ (fun p e p' hp ha hs => ?_) fun p e hp ha => ?_
  · have hfollows := hp.2.writeFollows hp.1 e
    exact ⟨serial_step hp.1 ha.1 hfollows hs, oneAtATime_step hp.2 hp.1 ha.1 ha.2 hs⟩
  · exact ⟨ha.1, hp.2.writeFollows hp.1 e⟩

/-- The cached counter that requests for a name with one row leave, in every run whose
writes follow the count in the hash, is the one that the same requests leave when they run
one after another. -/
theorem cached_count_serialisable {es' : List UserEvent}
    (hselect : matched s.students name = [row]) (hcount : IsCount row.queryTimes)
    (hcache : ∀ hash, s.redis name = some hash → ∃ c, HoldsCount name row.id c hash)
    (h : Run (userquery lua).step (fun p e => AloneAdmits name p e ∧ WriteFollows p e) (idle s) es p)
    (hquiet : System.Quiet p)
    (h' : Run (userquery lua).step (fun p e => AloneAdmits name p e ∧ OneByOne p e) (idle s) es' p')
    (hquiet' : System.Quiet p') (hsame : System.requests es' = System.requests es) :
    p.shared.cachedCount name = p'.shared.cachedCount name := by
  obtain ⟨q, hq⟩ := Option.isSome_iff_exists.mp hcount
  have hleft := serial_run hselect hq hcache h hquiet
  have hright := serial_run hselect hq hcache (run_follows hselect hq hcache h') hquiet'
  rw [hleft, hright, hsame]

end Runs

/-! ## Two hits at once -/

/-- A hit on `ann` that starts before the miss has issued its UPDATE. -/
def overlappedRun : List UserEvent :=
  [.spawn (some "ann".toList), .advance 0 .done, .advance 0 (.rows [ann]), .advance 0 .done,
    .spawn (some "ann".toList), .advance 1 .done, .advance 0 .done, .advance 1 (.time 1000)]
  ++ [.advance 1 .done, .advance 0 (.updated "t1".toList), .advance 1 .done, .advance 1 .done,
    .advance 1 (.updated "t2".toList)]

/-- The whole of a hit as the thread `i`, at time 1000. -/
def wholeHit (i : Nat) : List UserEvent :=
  [.spawn (some "ann".toList), .advance i .done, .advance i (.time 1000), .advance i .done,
    .advance i .done, .advance i .done, .advance i (.updated "t2".toList)]

/-- Two hits that both read before either of them writes. -/
def crossedHits : List UserEvent :=
  [.spawn (some "ann".toList), .spawn (some "ann".toList), .advance 1 .done, .advance 2 .done,
    .advance 1 (.time 1000), .advance 2 (.time 1000), .advance 1 .done, .advance 2 .done]
  ++ [.advance 1 .done, .advance 2 .done, .advance 1 .done, .advance 2 .done,
    .advance 1 (.updated "t2".toList), .advance 2 (.updated "t3".toList)]

def observedCount (p : UserPool) : Option Int × Bool :=
  (p.shared.cachedCount "ann".toList, p.threads.all fun t => t.rest.outcome.isSome)

theorem cached_count_serialisable_example :
    ∃ p p', Run (userquery integersOnly).step (fun p e => AloneAdmits "ann".toList p e ∧ WriteFollows p e)
        (idle storeExample) overlappedRun p ∧
      Run (userquery integersOnly).step (fun p e => AloneAdmits "ann".toList p e ∧ OneByOne p e)
        (idle storeExample) (missRun ++ wholeHit 1) p' ∧
      p'.shared.cachedCount "ann".toList = some 8 ∧
      p.shared.cachedCount "ann".toList = p'.shared.cachedCount "ann".toList := by
  have hreplay : (replay (guarded (userquery integersOnly).step
      fun p e => AloneAdmits "ann".toList p e ∧ WriteFollows p e)
      (idle storeExample) overlappedRun).map observedCount = some (some 8, true) := by
    decide +kernel
  have hserial : (replay (guarded (userquery integersOnly).step
      fun p e => AloneAdmits "ann".toList p e ∧ OneByOne p e)
      (idle storeExample) (missRun ++ wholeHit 1)).map observedCount = some (some 8, true) := by
    decide +kernel
  obtain ⟨p, hp, hobs⟩ := Option.map_eq_some_iff.mp hreplay
  obtain ⟨p', hp', hobs'⟩ := Option.map_eq_some_iff.mp hserial
  simp only [observedCount, Prod.mk.injEq] at hobs hobs'
  have hselect : matched storeExample.students "ann".toList = [ann] :=
    (matched_of_carried (by decide)).trans (by decide +kernel)
  have hrun := Run.of_replay_guarded hp
  have hrun' := Run.of_replay_guarded hp'
  exact ⟨p, p', hrun, hrun', hobs'.1,
    cached_count_serialisable hselect (by decide) nofun
      hrun (List.all_eq_true.mp hobs.2) hrun' (List.all_eq_true.mp hobs'.2) (by decide +kernel)⟩

/-- Two hits read the count 7 and both write 8. -/
theorem cached_count_lost :
    ∃ p p', Run (userquery integersOnly).step (AloneAdmits "ann".toList) (idle storeExample)
        (missRun ++ crossedHits) p ∧ System.Quiet p ∧
      Run (userquery integersOnly).step (fun p e => AloneAdmits "ann".toList p e ∧ OneByOne p e)
        (idle storeExample) (missRun ++ wholeHit 1 ++ wholeHit 2) p' ∧ System.Quiet p' ∧
      System.requests (missRun ++ wholeHit 1 ++ wholeHit 2) =
        System.requests (missRun ++ crossedHits) ∧
      p.shared.cachedCount "ann".toList = some 8 ∧ p'.shared.cachedCount "ann".toList = some 9 := by
  have hreplay : (replay (guarded (userquery integersOnly).step (AloneAdmits "ann".toList))
      (idle storeExample) (missRun ++ crossedHits)).map observedCount = some (some 8, true) := by
    decide +kernel
  have hserial : (replay (guarded (userquery integersOnly).step
      fun p e => AloneAdmits "ann".toList p e ∧ OneByOne p e)
      (idle storeExample) (missRun ++ wholeHit 1 ++ wholeHit 2)).map observedCount =
      some (some 9, true) := by
    decide +kernel
  obtain ⟨p, hp, hobs⟩ := Option.map_eq_some_iff.mp hreplay
  obtain ⟨p', hp', hobs'⟩ := Option.map_eq_some_iff.mp hserial
  simp only [observedCount, Prod.mk.injEq] at hobs hobs'
  exact ⟨p, p', Run.of_replay_guarded hp, List.all_eq_true.mp hobs.2, Run.of_replay_guarded hp',
    List.all_eq_true.mp hobs'.2, by decide +kernel, hobs.1, hobs'.1⟩

end RedisLuaLinux.Lua
