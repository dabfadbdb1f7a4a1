import RedisLuaLinux.Lua.CacheRows

/-!
# Requests one after another

Each request runs to its end before the next one starts, and keys expire between requests.

* `exec_handler`: what one request leaves, on either branch.
* `cache_transparent`: after each request the count in the table is the one at the start plus
  the number of requests for the name, and the cached count is one behind, wherever the
  expiries fall.
* `cache_transparent_aliases`: two names that the SELECT takes for one row.
* `seqRun_interleaved`: a sequential run is one of the interleaved runs.
-/

namespace RedisLuaLinux.Lua

open Library

inductive SeqEvent
  | request (name : Option Text) (answers : List Answer)
  | expire (key : Text)
  deriving DecidableEq, Repr

def seqStep (lua : LuaNumbers) (s : Store) : SeqEvent → Option Store
  | .request name answers => ((handler lua name).exec Store.serve s answers).map Prod.snd
  | .expire key => s.expireKey key

/-- The requests of a sequential run, in order. -/
def asked (es : List SeqEvent) : List (Option Text) :=
  es.filterMap fun
    | .request name _ => some name
    | .expire _ => none

/-- The id and the count that the hash of a name holds. -/
def Store.cachedRow (s : Store) (name : Text) : Option (Option Text × Option Text) :=
  (s.redis name).map fun hash =>
    (hash.fields.lookup "id".toList, hash.fields.lookup "query_times".toList)

/-! ## Names and their rows -/

section Matched

variable {t : StudentTable} {name other : Text} {row row' : Student}

theorem mem_of_matched (h : matched t name = [row]) : row ∈ matched t name := by
  rw [h]
  exact List.mem_singleton_self row

/-- A name that matches another row keeps it as it is. -/
theorem matched_increment_of_ne (h : matched t name = [row]) {id : Int} (hne : row.id ≠ id)
    (stamp : Text) : matched (t.increment id stamp) name = [row] := by
  rw [matched_increment_map, h, List.map_singleton, countRow, if_neg hne]

/-- The id is the primary key. -/
theorem matched_eq_of_id (h : matched t name = [row]) (hother : matched t other = [row'])
    (hid : row.id = row'.id) : matched t name = matched t other := by
  have hrow := (parse_of_matched (mem_of_matched h)).1
  have hrow' := (parse_of_matched (mem_of_matched hother)).1
  rw [h, hother, List.inj_on_of_nodup_map t.unique hrow hrow' hid]

end Matched

/-! ## One request -/

section Exec

variable {lua : LuaNumbers} {s s' : Store} {name : Text} {row : Student} {id : Int}
  {answers : List Answer} {o : Outcome}

/-- The row `id` is counted, and the hash of `name` holds the count `q`. -/
def Counts (s s' : Store) (name : Text) (id q : Int) : Prop :=
  ∃ hash stamp, HoldsCount name id q hash ∧
    s' = { s.setHash name (some hash) with students := s.students.increment id stamp }

/-- The first command of a request whose commands succeed. -/
theorem exec_command {c : Command} {next : Reply c → Script} (hserved : .failed ∉ answers)
    (h : Prog.exec Store.serve (.call c next) s answers = some (o, s')) :
    ∃ answer rest r mid, answer ≠ .failed ∧ .failed ∉ rest ∧ s.serve c answer = some (r, mid) ∧
      (next r).exec Store.serve mid rest = some (o, s') := by
  obtain ⟨answer, rest, r, mid, rfl, hserve, hrest⟩ := Prog.exec_call h
  obtain ⟨hanswer, hothers⟩ := List.ne_and_not_mem_of_not_mem_cons hserved
  exact ⟨answer, rest, r, mid, Ne.symm hanswer, hothers, hserve, hrest⟩

theorem exec_raiseCount (hserved : .failed ∉ answers)
    (h : (raiseCount (intText id)).exec Store.serve s answers = some (o, s')) :
    o = .closed ∧ ∃ stamp, s' = { s with students := s.students.increment id stamp } := by
  obtain ⟨answer, rest, r, mid, hanswer, hserved, hserve, hrest⟩ := exec_command hserved h
  obtain ⟨stamp, rfl, rfl⟩ := Store.serve_increment hanswer (parse_updateText id) hserve
  obtain ⟨-, hout⟩ := Prog.exec_ret hrest
  cases hout
  exact ⟨rfl, stamp, rfl⟩

/-- HMSET and EXPIRE leave one hash under the key. -/
theorem exec_write {pairs : List (Text × Text)} {seconds : Nat} {next : Script}
    (hserved : .failed ∉ answers)
    (h : Prog.exec Store.serve (.call (.hmset name pairs) fun _ => .call (.expire name seconds) fun _ => next)
      s answers = some (o, s')) :
    ∃ rest, .failed ∉ rest ∧
      next.exec Store.serve (s.setHash name (some ⟨setFields (s.fieldsAt name) pairs, true⟩)) rest =
        some (o, s') := by
  obtain ⟨answer, rest, r, mid, hanswer, hserved, hserve, hrest⟩ := exec_command hserved h
  obtain ⟨expires, rfl⟩ := Store.serve_hmset hanswer hserve
  obtain ⟨answer, rest, r, mid, hanswer, hserved, hserve, hrest⟩ := exec_command hserved hrest
  obtain rfl := Store.serve_expire hanswer hserve
  rw [Store.setHash_self, Store.setHash_setHash] at hrest
  exact ⟨rest, hserved, hrest⟩

theorem exec_missBranch (hserved : .failed ∉ answers) (hrow : matched s.students name = [row])
    (hnone : s.redis name = none) {q : Int} (hq : row.queryTimes = some q)
    (h : (missBranch name).exec Store.serve s answers = some (o, s')) :
    o = .closed ∧ Counts s s' name row.id q := by
  obtain ⟨answer, rest, r, mid, hanswer, hserved, hserve, hrest⟩ := exec_command hserved h
  obtain ⟨-, literal, hparse⟩ := parse_of_matched (mem_of_matched hrow)
  obtain ⟨rs, hperm, rfl, rfl⟩ := Store.serve_select hanswer hparse hserve
  rw [matched_of_parse _ hparse] at hrow
  rw [hrow] at hperm
  obtain rfl := List.perm_singleton.mp hperm
  obtain ⟨rest, hserved, hrest⟩ := exec_write hserved hrest
  obtain ⟨rfl, stamp, rfl⟩ := exec_raiseCount hserved hrest
  refine ⟨rfl, _, stamp, ?_, rfl⟩
  rw [HoldsCount, ← hq]
  exact Cached.fill rfl (Or.inl (Store.fieldsAt_eq_nil hnone))

theorem exec_hitTime (hserved : .failed ∉ answers) {hash : Hash} (hhash : s.redis name = some hash)
    {q count : Int} (hcached : HoldsCount name id q hash)
    (h : (hitTime name (intText count)).exec Store.serve s answers = some (o, s')) :
    o = .closed ∧ Counts s s' name id count := by
  obtain ⟨answer, rest, time, mid, hanswer, hserved, hserve, hrest⟩ := exec_command hserved h
  obtain rfl := Store.serve_osTime hanswer hserve
  obtain ⟨rest, hserved, hrest⟩ := exec_write hserved hrest
  have hnew : Cached (fun _ id' => id' = id) name
      (setFields (mid.fieldsAt name) (hitPairs time (intText count))) (some count) := by
    rw [Store.fieldsAt_eq hhash]
    exact Cached.rewrite hcached time count
  -- the second HGETALL finds the hash just written
  obtain ⟨answer, rest, r, mid, hanswer, hserved, hserve, hrest⟩ := exec_command hserved hrest
  obtain ⟨rfl, rfl⟩ := Store.serve_hgetall hanswer hserve
  obtain ⟨id', rfl, hsecond⟩ := hnew.second
  rw [Store.fieldsAt_eq (Store.setHash_self _ _)] at hrest
  dsimp only at hrest
  rw [hsecond] at hrest
  obtain ⟨rfl, stamp, rfl⟩ := exec_raiseCount hserved hrest
  exact ⟨rfl, ⟨setFields (mid.fieldsAt name) (hitPairs time (intText count)), true⟩, stamp, hnew, rfl⟩

/-- One request, where the hash of its name is missing or one behind: the row is counted, and
the hash is there and one behind. -/
theorem exec_handler (hserved : .failed ∉ answers) (hrow : matched s.students name = [row]) {q : Int}
    (hq : row.queryTimes = some q)
    (hcache : ∀ hash, s.redis name = some hash → HoldsCount name row.id (q - 1) hash)
    (h : (handler lua (some name)).exec Store.serve s answers = some (o, s')) :
    o = .closed ∧ Counts s s' name row.id q := by
  obtain ⟨answer, rest, r, mid, hanswer, hserved, hserve, hrest⟩ := exec_command hserved h
  obtain ⟨rfl, rfl⟩ := Store.serve_hgetall hanswer hserve
  cases hget : mid.redis name with
  | none =>
    rw [Store.fieldsAt_eq_nil hget] at hrest
    exact exec_missBranch hserved hrow hget hq hrest
  | some hash =>
    have hcached := hcache hash hget
    rw [Store.fieldsAt_eq hget] at hrest
    have hcount := hcached.nextCount lua
    rw [Option.map_some, Int.sub_add_cancel] at hcount
    have hbranch : (hitBranch lua name (flatten hash.fields)).exec Store.serve mid rest = some (o, s') := by
      obtain ⟨id, created, accessed, -, hfields⟩ := hcached
      rw [hfields] at hrest ⊢
      exact hrest
    rw [hitBranch, hcount] at hbranch
    exact exec_hitTime hserved hget hcached hbranch

end Exec

/-! ## Sequential runs -/

/-- The requests are for `Names`, and their commands succeed. -/
def SeqAdmits (Names : Text → Prop) : SeqEvent → Prop
  | .request (some name) answers => Names name ∧ .failed ∉ answers
  | _ => True

/-- Each name matches one row with a count, no two of them the same row, and nothing is
cached under them. -/
structure Matching (Names : Text → Prop) (s : Store) : Prop where
  one : ∀ name, Names name → ∃ row, matched s.students name = [row] ∧ row.queryTimes.isSome
  apart : ∀ name other, Names name → Names other →
    matched s.students name = matched s.students other → name = other
  uncached : ∀ name, Names name → s.redis name = none

/-- The table and the cache after the requests of `es`: the row of each name has been counted
once for each of them, and a hash that is there is one behind. -/
def InStep (Names : Text → Prop) (s₀ : Store) (es : List SeqEvent) (s : Store) : Prop :=
  ∀ name row q, Names name → matched s₀.students name = [row] → row.queryTimes = some q →
    (∃ row', matched s.students name = [row'] ∧ row'.id = row.id ∧
      row'.queryTimes = some (q + (asked es).count (some name))) ∧
    ∀ hash, s.redis name = some hash →
      HoldsCount name row.id (q + (asked es).count (some name) - 1) hash

section Runs

variable {lua : LuaNumbers} {Names : Text → Prop} {s₀ s s' : Store} {es : List SeqEvent} {name : Text}
  {answers : List Answer} {o : Outcome}

theorem asked_append (es : List SeqEvent) (e : SeqEvent) : asked (es ++ [e]) = asked es ++ asked [e] :=
  List.filterMap_append

/-- What a request for `name` does to a state in step. -/
theorem InStep.request {row : Student} {q : Int} (hp : InStep Names s₀ es s) (hname : Names name)
    (hrow : matched s₀.students name = [row]) (hq : row.queryTimes = some q)
    (hserved : .failed ∉ answers)
    (h : (handler lua (some name)).exec Store.serve s answers = some (o, s')) :
    o = .closed ∧ ∃ row', matched s.students name = [row'] ∧ row'.id = row.id ∧
      row'.queryTimes = some (q + (asked es).count (some name)) ∧
      Counts s s' name row'.id (q + (asked es).count (some name)) := by
  obtain ⟨⟨row', hrow', hid, hcount⟩, hcache⟩ := hp name row q hname hrow hq
  rw [← hid] at hcache
  obtain ⟨ho, hcounts⟩ := exec_handler hserved hrow' hcount hcache h
  exact ⟨ho, row', hrow', hid, hcount, hcounts⟩

theorem inStep_request (hstart : Matching Names s₀) (hp : InStep Names s₀ es s) (hname : Names name)
    (hserved : .failed ∉ answers)
    (h : (handler lua (some name)).exec Store.serve s answers = some (o, s')) :
    InStep Names s₀ (es ++ [.request (some name) answers]) s' := by
  intro other row q hother hrow hq
  obtain ⟨row₀, hrow₀, hsome⟩ := hstart.one name hname
  obtain ⟨q₀, hq₀⟩ := Option.isSome_iff_exists.mp hsome
  obtain ⟨-, row', hrow', hid, hcount, hash, stamp, hcached, rfl⟩ :=
    hp.request hname hrow₀ hq₀ hserved h
  have hasked : asked (es ++ [.request (some name) answers]) = asked es ++ [some name] :=
    asked_append es _
  rw [hasked, List.count_append]
  by_cases heq : other = name
  · subst heq
    rw [hrow, List.cons.injEq] at hrow₀
    obtain rfl := hrow₀.1
    obtain rfl : q = q₀ := Option.some.inj (hq.symm.trans hq₀)
    have hone : [some other].count (some other) = 1 := List.count_singleton_self
    rw [hone]
    refine ⟨⟨row'.count stamp, matched_increment hrow' stamp, ?_, ?_⟩, fun hash' hget => ?_⟩
    · rw [Student.count_id, hid]
    · simp only [Student.count, hcount, Option.some.injEq]
      omega
    · have hset : (s.setHash other (some hash)).redis other = some hash' := hget
      rw [Store.setHash_self] at hset
      obtain rfl := Option.some.inj hset
      rw [hid] at hcached
      have hlast : q + ((asked es).count (some other) + 1 : Nat) - 1 = q + (asked es).count (some other) := by
        omega
      rw [hlast]
      exact hcached
  · have hnone : [some name].count (some other) = 0 := by
      rw [List.count_eq_zero, List.mem_singleton, Option.some.injEq]
      exact heq
    rw [hnone, Nat.add_zero]
    obtain ⟨⟨row₁, hrow₁, hid₁, hcount₁⟩, hcache₁⟩ := hp other row q hother hrow hq
    have happart : row₁.id ≠ row'.id := by
      rw [hid₁, hid]
      intro hsame
      apply heq
      apply hstart.apart other name hother hname
      exact matched_eq_of_id hrow hrow₀ hsame
    refine ⟨⟨row₁, ?_, hid₁, hcount₁⟩, fun hash' hget => ?_⟩
    · exact matched_increment_of_ne hrow₁ happart stamp
    · have hset : (s.setHash name (some hash)).redis other = some hash' := hget
      rw [Store.setHash_of_ne heq] at hset
      exact hcache₁ hash' hset

theorem run_inStep (hstart : Matching Names s₀)
    (h : Run (seqStep lua) (fun _ e => SeqAdmits Names e) s₀ es s) : InStep Names s₀ es s := by
  induction h with
  | nil =>
    intro name row q hname hrow hq
    refine ⟨⟨row, hrow, rfl, ?_⟩, fun hash hget => ?_⟩
    · simpa [asked] using hq
    · rw [hstart.uncached name hname] at hget
      cases hget
  | @snoc es s s' e hrun hadmits hs ih =>
    cases e with
    | expire key =>
      obtain rfl := Store.expireKey_cases hs
      have hasked : asked (es ++ [.expire key]) = asked es := (asked_append es _).trans (List.append_nil _)
      intro name row q hname hrow hq
      obtain ⟨hcount, hcache⟩ := ih name row q hname hrow hq
      rw [hasked]
      refine ⟨hcount, fun hash hget => ?_⟩
      by_cases heq : name = key
      · rw [heq, Store.setHash_self] at hget
        cases hget
      · rw [Store.setHash_of_ne heq] at hget
        exact hcache hash hget
    | request arg answers =>
      obtain ⟨⟨o, mid⟩, hexec, rfl⟩ := Option.map_eq_some_iff.mp hs
      cases arg with
      | some name => exact inStep_request hstart ih hadmits.1 hadmits.2 hexec
      | none =>
        obtain ⟨-, hout⟩ := Prog.exec_ret hexec
        cases hout
        intro name row q hname hrow hq
        have hasked : (asked (es ++ [.request none answers])).count (some name) =
            (asked es).count (some name) := by
          rw [asked_append, List.count_append]
          rfl
        rw [hasked]
        exact ih name row q hname hrow hq

/-- A sequential run is a run of the interleaved requests in which none is in progress at
the end. -/
theorem seqRun_interleaved (h : Run (seqStep lua) (fun _ e => SeqAdmits Names e) s₀ es s) :
    ∃ es' p, Run (userquery lua).step AnyStep (idle s₀) es' p ∧ System.Quiet p ∧ p.shared = s ∧
      System.requests es' = asked es := by
  induction h with
  | nil => exact ⟨[], idle s₀, .nil, fun t ht => absurd ht List.not_mem_nil, rfl, rfl⟩
  | @snoc es s s' e _ _ hs ih =>
    obtain ⟨es', p, hrun, hquiet, rfl, hrequests⟩ := ih
    cases e with
    | expire key =>
      refine ⟨es' ++ [.env key], { p with shared := s' }, .snoc hrun trivial ?_, hquiet, rfl, ?_⟩
      · exact Option.map_eq_some_iff.mpr ⟨s', hs, rfl⟩
      · rw [System.requests_append, hrequests, asked_append]
        rfl
    | request arg answers =>
      obtain ⟨⟨o, mid⟩, hexec, rfl⟩ := Option.map_eq_some_iff.mp hs
      have hspawn : Run (userquery lua).step AnyStep (idle s₀) (es' ++ [.spawn arg])
          ⟨p.shared, p.threads ++ [(userquery lua).start arg]⟩ := .snoc hrun trivial rfl
      have hlast : ∃ t, t.request = ((userquery lua).start arg).request ∧ t.rest = .ret o ∧
          Run (userquery lua).step AnyStep ⟨p.shared, p.threads ++ [(userquery lua).start arg]⟩
            (answers.map (.advance p.threads.length)) ⟨mid, p.threads ++ [t]⟩ :=
        System.run_of_exec (fun _ _ _ => trivial) hexec
      obtain ⟨t, -, hrest, hserved⟩ := hlast
      refine ⟨_, _, hspawn.trans hserved, fun u hu => ?_, rfl, ?_⟩
      · rcases List.mem_append.mp hu with hu | hu
        · exact hquiet u hu
        · rw [List.mem_singleton.mp hu, hrest]
          rfl
      · rw [System.requests_append, System.requests_append, System.requests_advance, hrequests,
          asked_append, List.append_nil]
        rfl

theorem HoldsCount.cachedRow {id q : Int} {hash : Hash} (h : HoldsCount name id q hash)
    (hget : s.redis name = some hash) :
    s.cachedRow name = some (some (intText id), some (intText q)) := by
  obtain ⟨id', created, accessed, rfl, hfields⟩ := h
  unfold Store.cachedRow
  rw [hget, Option.map_some, hfields]
  rfl

/-- After the requests of `es` and one more for `name`. -/
theorem request_leaves (hstart : Matching Names s₀)
    (h : Run (seqStep lua) (fun _ e => SeqAdmits Names e) s₀ es s) (hname : Names name)
    (hserved : .failed ∉ answers)
    (hexec : (handler lua (some name)).exec Store.serve s answers = some (o, s')) {row : Student} {q : Int}
    (hrow : matched s₀.students name = [row]) (hq : row.queryTimes = some q) :
    o = .closed ∧
    (∃ row', matched s'.students name = [row'] ∧ row'.id = row.id ∧
      row'.queryTimes = some (q + ((asked es).count (some name) + 1))) ∧
    s'.cachedRow name =
      some (some (intText row.id), some (intText (q + (asked es).count (some name)))) := by
  obtain ⟨ho, row', hrow', hid, hcount, hash, stamp, hcached, rfl⟩ :=
    (run_inStep hstart h).request hname hrow hq hserved hexec
  rw [hid] at hcached
  refine ⟨ho, ⟨row'.count stamp, matched_increment hrow' stamp, ?_, ?_⟩, ?_⟩
  · rw [Student.count_id, hid]
  · simp only [Student.count, hcount, Option.some.injEq]
    omega
  · exact hcached.cachedRow (Store.setHash_self name _)

/-- For requests one after another, with keys expiring anywhere in between: the k-th request
for `name` reaches the closing of its connections, the row of the name then has the count at
the start plus k, and the hash of the name holds the id of that row and a count one behind.
Every other such run with as many requests for the name leaves the same id and count in the
hash; in particular one in which each request finds nothing cached. -/
theorem cache_transparent (hstart : Matching Names s₀)
    (h : Run (seqStep lua) (fun _ e => SeqAdmits Names e) s₀ es s) (hname : Names name)
    (hserved : .failed ∉ answers)
    (hexec : (handler lua (some name)).exec Store.serve s answers = some (o, s')) :
    (∃ row q, matched s₀.students name = [row] ∧ row.queryTimes = some q ∧ o = .closed ∧
      (∃ row', matched s'.students name = [row'] ∧ row'.id = row.id ∧
        row'.queryTimes = some (q + ((asked es).count (some name) + 1))) ∧
      s'.cachedRow name =
        some (some (intText row.id), some (intText (q + (asked es).count (some name))))) ∧
    ∀ es₁ s₁ answers₁ o₁ s₁', Run (seqStep lua) (fun _ e => SeqAdmits Names e) s₀ es₁ s₁ →
      (asked es₁).count (some name) = (asked es).count (some name) → .failed ∉ answers₁ →
      (handler lua (some name)).exec Store.serve s₁ answers₁ = some (o₁, s₁') →
      s₁'.cachedRow name = s'.cachedRow name := by
  obtain ⟨row, hrow, hsome⟩ := hstart.one name hname
  obtain ⟨q, hq⟩ := Option.isSome_iff_exists.mp hsome
  have hleaves := request_leaves hstart h hname hserved hexec hrow hq
  refine ⟨⟨row, q, hrow, hq, hleaves⟩, ?_⟩
  intro es₁ s₁ answers₁ o₁ s₁' h₁ hsame hserved₁ hexec₁
  obtain ⟨-, -, hcached₁⟩ := request_leaves hstart h₁ hname hserved₁ hexec₁ hrow hq
  rw [hcached₁, hsame]
  exact hleaves.2.2.symm

end Runs

/-- Two requests for `ann` and one for `bob`; the key of `ann` expires after the first. -/
def seqExample : List SeqEvent :=
  [.request (some "ann".toList) [.done, .rows [ann], .done, .done, .updated "t1".toList],
    .expire "ann".toList,
    .request (some "bob".toList) [.done, .rows [bob], .done, .done, .updated "t2".toList],
    .request (some "ann".toList) [.done, .rows [⟨1, "ann".toList, some 8, some 0, some "t1".toList⟩],
      .done, .done, .updated "t3".toList]]

def annOrBob (name : Text) : Prop := name = "ann".toList ∨ name = "bob".toList

theorem storeExample_matching : Matching annOrBob storeExample := by
  have hann : matched storeExample.students "ann".toList = [ann] :=
    (matched_of_carried (by decide)).trans (by decide)
  have hbob : matched storeExample.students "bob".toList = [bob] :=
    (matched_of_carried (by decide)).trans (by decide)
  refine ⟨fun name hname => ?_, fun name other hname hother hsame => ?_, fun _ _ => rfl⟩
  · rcases hname with rfl | rfl
    · exact ⟨ann, hann, rfl⟩
    · exact ⟨bob, hbob, rfl⟩
  · rcases hname with rfl | rfl
    · rcases hother with rfl | rfl
      · rfl
      · rw [hann, hbob] at hsame
        exact absurd hsame (by decide)
    · rcases hother with rfl | rfl
      · rw [hann, hbob] at hsame
        exact absurd hsame (by decide)
      · rfl

/-- The answers to a request that finds its hash. -/
def hitAnswers : List Answer := [.done, .time 1000, .done, .done, .done, .updated "t4".toList]

theorem cache_transparent_example :
    ∃ s o s', Run (seqStep integersOnly) (fun _ e => SeqAdmits annOrBob e) storeExample seqExample s ∧
      (handler integersOnly (some "ann".toList)).exec Store.serve s
        hitAnswers = some (o, s') ∧
      ∃ row q, matched storeExample.students "ann".toList = [row] ∧ row.queryTimes = some q ∧
        o = .closed ∧ s'.cachedRow "ann".toList = some (some (intText row.id), some (intText (q + 2))) := by
  have hreplay : ((replay (seqStep integersOnly) storeExample seqExample).bind fun s =>
      ((handler integersOnly (some "ann".toList)).exec Store.serve s hitAnswers).map Prod.fst) = some .closed := by
    decide +kernel
  obtain ⟨s, hs, hexec⟩ := Option.bind_eq_some_iff.mp hreplay
  obtain ⟨⟨o, s'⟩, hexec, -⟩ := Option.map_eq_some_iff.mp hexec
  have hadmits : ∀ e ∈ seqExample, Store → SeqAdmits annOrBob e := by
    intro e he _
    simp only [seqExample, List.mem_cons, List.not_mem_nil, or_false] at he
    rcases he with rfl | rfl | rfl | rfl
    · exact ⟨Or.inl rfl, by decide⟩
    · trivial
    · exact ⟨Or.inr rfl, by decide⟩
    · exact ⟨Or.inl rfl, by decide⟩
  have hrun := Run.of_replay_admits hadmits hs
  obtain ⟨⟨row, q, hrow, hq, ho, -, hcached⟩, -⟩ :=
    cache_transparent storeExample_matching hrun (Or.inl rfl) (by decide) hexec
  have htwice : (asked seqExample).count (some "ann".toList) = 2 := by decide
  rw [htwice] at hcached
  exact ⟨s, o, s', hrun, hexec, row, q, hrow, hq, ho, hcached⟩

/-! ## Two names for one row -/

/-- A backslash before `a` stands for `a` alone. -/
def annNames (name : Text) : Prop := name = "ann".toList ∨ name = "\\ann".toList

/-- A request for `ann`, one for the same row under the other name, and one more for `ann`,
which finds the hash of the first. -/
def aliasedRun : List SeqEvent :=
  [.request (some "ann".toList) [.done, .rows [ann], .done, .done, .updated "t1".toList],
    .request (some "\\ann".toList) [.done, .rows [⟨1, "ann".toList, some 8, some 0, some "t1".toList⟩],
      .done, .done, .updated "t2".toList],
    .request (some "ann".toList) hitAnswers]

/-- The same requests, where the key of `ann` expires before the last one. -/
def aliasedMisses : List SeqEvent :=
  [.request (some "ann".toList) [.done, .rows [ann], .done, .done, .updated "t1".toList],
    .request (some "\\ann".toList) [.done, .rows [⟨1, "ann".toList, some 8, some 0, some "t1".toList⟩],
      .done, .done, .updated "t2".toList],
    .expire "ann".toList,
    .request (some "ann".toList) [.done, .rows [⟨1, "ann".toList, some 9, some 0, some "t2".toList⟩],
      .done, .done, .updated "t4".toList]]

def observedRow (s : Store) : List (Option Int) × Option (Option Text × Option Text) :=
  ((matched s.students "ann".toList).map Student.queryTimes, s.cachedRow "ann".toList)

/-- After the second request for `ann` its row has been counted three times, and what the cache
holds depends on whether the key has expired. -/
theorem cache_transparent_aliases :
    (∀ name, annNames name → matched storeExample.students name = [ann]) ∧
    ∃ s s', Run (seqStep integersOnly) (fun _ e => SeqAdmits annNames e) storeExample aliasedRun s ∧
      Run (seqStep integersOnly) (fun _ e => SeqAdmits annNames e) storeExample aliasedMisses s' ∧
      asked aliasedMisses = asked aliasedRun ∧ (asked aliasedRun).count (some "ann".toList) = 2 ∧
      (matched s.students "ann".toList).map Student.queryTimes = [some (7 + 3)] ∧
      s.cachedRow "ann".toList = some (some "1".toList, some "8".toList) ∧
      s'.cachedRow "ann".toList = some (some "1".toList, some "9".toList) := by
  have halias : parseSql (selectText "\\ann".toList) = some (.select "ann".toList) := by
    decide +kernel
  have hrun : (replay (seqStep integersOnly) storeExample aliasedRun).map observedRow =
      some ([some (7 + 3)], some (some "1".toList, some "8".toList)) := by
    decide +kernel
  have hmisses : (replay (seqStep integersOnly) storeExample aliasedMisses).map observedRow =
      some ([some (7 + 3)], some (some "1".toList, some "9".toList)) := by
    decide +kernel
  obtain ⟨s, hs, hobs⟩ := Option.map_eq_some_iff.mp hrun
  obtain ⟨s', hs', hobs'⟩ := Option.map_eq_some_iff.mp hmisses
  simp only [observedRow, Prod.mk.injEq] at hobs hobs'
  refine ⟨?_, s, s', Run.of_replay_admits ?_ hs, Run.of_replay_admits ?_ hs', by decide, by decide,
    hobs.1, hobs.2, hobs'.2⟩
  · rintro name (rfl | rfl)
    · exact (matched_of_carried (by decide)).trans (by decide)
    · exact (matched_of_parse _ halias).trans (by decide)
  · intro e he _
    simp only [aliasedRun, List.mem_cons, List.not_mem_nil, or_false] at he
    rcases he with rfl | rfl | rfl
    · exact ⟨Or.inl rfl, by decide⟩
    · exact ⟨Or.inr rfl, by decide⟩
    · exact ⟨Or.inl rfl, by decide⟩
  · intro e he _
    simp only [aliasedMisses, List.mem_cons, List.not_mem_nil, or_false] at he
    rcases he with rfl | rfl | rfl | rfl
    · exact ⟨Or.inl rfl, by decide⟩
    · exact ⟨Or.inr rfl, by decide⟩
    · trivial
    · exact ⟨Or.inl rfl, by decide⟩

end RedisLuaLinux.Lua
