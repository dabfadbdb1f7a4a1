import RedisLuaLinux.Lua.MissingReplies

/-!
# A request whose UPDATE fails

Both branches write to Redis before the UPDATE that can report a failure.

* `countsPlaced_step`: `query_times` stays the second field of every hash, and holds a count.
* `failed_update_leaves`: from every reachable state, a request that ends with its UPDATE refused
  leaves the cached row as it was if and only if its HMSET was refused too.
-/

namespace RedisLuaLinux.Lua

open Library

/-! ## The place of the count -/

theorem lookup_setField (f v : Text) (fields : Fields) : (setField f v fields).lookup f = some v := by
  induction fields with
  | nil => simp [setField]
  | cons pair fields ih =>
    obtain ⟨g, w⟩ := pair
    unfold setField
    split
    · rename_i heq
      simp [heq]
    · rename_i hne
      rw [List.lookup_cons, beq_eq_false_iff_ne.mpr (Ne.symm hne)]
      exact ih

/-- The text of a value of the column `query_times`. -/
def CountText (count : Text) : Prop := ∃ q : Option Int, count = columnText (q.map intText)

theorem countText_intText (z : Int) : CountText (intText z) := ⟨some z, rfl⟩

/-- The sum with 1 is a count, and another one. -/
theorem CountText.addOne {lua : LuaNumbers} {count sum : Text} (h : CountText count)
    (hsum : lua.addOne count = some sum) : CountText sum ∧ sum ≠ count := by
  obtain ⟨q, rfl⟩ := h
  rw [lua.addOne_columnText] at hsum
  obtain ⟨z, rfl, rfl⟩ := Option.map_eq_some_iff.mp hsum
  refine ⟨countText_intText (z + 1), fun hsame => ?_⟩
  have hread : readInt (intText (z + 1)) = readInt (intText z) := congrArg readInt hsame
  rw [readInt_intText, readInt_intText, Option.some.injEq] at hread
  omega

/-- The second field, and no earlier one, is `query_times`. -/
def CountSecond (fields : Fields) : Prop :=
  ∃ first count more, fields = first :: ("query_times".toList, count) :: more ∧
    first.1 ≠ "query_times".toList ∧ CountText count

theorem CountSecond.setField {fields : Fields} (h : CountSecond fields) {f v : Text}
    (hv : f = "query_times".toList → CountText v) : CountSecond (setField f v fields) := by
  obtain ⟨⟨g, w⟩, count, more, rfl, hfirst, hcount⟩ := h
  unfold Lua.setField
  split
  · exact ⟨_, _, _, rfl, hfirst, hcount⟩
  · unfold Lua.setField
    split
    · rename_i hname
      exact ⟨_, _, _, rfl, hfirst, hv hname.symm⟩
    · exact ⟨_, _, _, rfl, hfirst, hcount⟩

theorem CountSecond.setFields {fields : Fields} (h : CountSecond fields) {pairs : List (Text × Text)}
    (hpairs : ∀ pair ∈ pairs, pair.1 = "query_times".toList → CountText pair.2) :
    CountSecond (setFields fields pairs) := by
  induction pairs generalizing fields with
  | nil => exact h
  | cons pair pairs ih =>
    obtain ⟨hpair, hrest⟩ := List.forall_mem_cons.mp hpairs
    exact ih (h.setField hpair) hrest

/-- The count is what the script takes from the reply by its position. -/
theorem CountSecond.lookup {fields : Fields} (h : CountSecond fields) :
    ∃ count, CountText count ∧ fields.lookup "query_times".toList = some count ∧
      (flatten fields)[3]? = some count := by
  obtain ⟨⟨g, w⟩, count, more, rfl, hfirst, hcount⟩ := h
  refine ⟨count, hcount, ?_, rfl⟩
  rw [List.lookup_cons, beq_eq_false_iff_ne.mpr (Ne.symm hfirst)]
  simp

/-- The pairs that the script writes. -/
def Written (pairs : List (Text × Text)) : Prop :=
  (∃ row, pairs = rowPairs row) ∨ ∃ time count, CountText count ∧ pairs = hitPairs time count

theorem Written.count {pairs : List (Text × Text)} (h : Written pairs) :
    ∀ pair ∈ pairs, pair.1 = "query_times".toList → CountText pair.2 := by
  rcases h with ⟨row, rfl⟩ | ⟨time, count, hcount, rfl⟩
  · simp only [rowPairs, List.forall_mem_cons]
    exact ⟨fun h => absurd h (by decide), fun _ => ⟨row.queryTimes, rfl⟩, fun h => absurd h (by decide),
      fun h => absurd h (by decide), fun _ h => absurd h List.not_mem_nil⟩
  · simp only [hitPairs, List.forall_mem_cons]
    exact ⟨fun h => absurd h (by decide), fun _ => hcount, fun _ h => absurd h List.not_mem_nil⟩

theorem countSecond_write {fields : Fields} {pairs : List (Text × Text)} (hpairs : Written pairs)
    (h : fields = [] ∨ CountSecond fields) : CountSecond (setFields fields pairs) := by
  rcases h with rfl | h
  · have hid : "id".toList ≠ "query_times".toList := by decide
    have haccess : "last_access_timestamp".toList ≠ "query_times".toList := by decide
    rcases hpairs with ⟨row, rfl⟩ | ⟨time, count, hcount, rfl⟩
    · exact ⟨("id".toList, _), _, _, rfl, hid, row.queryTimes, rfl⟩
    · exact ⟨("last_access_timestamp".toList, _), count, [], rfl, haccess, hcount⟩
  · exact h.setFields hpairs.count

/-- Every hash has its count in second place. -/
def CountsSecond (s : Store) : Prop := ∀ key hash, s.redis key = some hash → CountSecond hash.fields

theorem countsSecond_empty (t : StudentTable) : CountsSecond ⟨fun _ => none, t⟩ := by
  intro key hash hget
  cases hget

theorem CountsSecond.fieldsAt {s : Store} (h : CountsSecond s) (key : Text) :
    s.fieldsAt key = [] ∨ CountSecond (s.fieldsAt key) := by
  cases hget : s.redis key with
  | none => exact Or.inl (Store.fieldsAt_eq_nil hget)
  | some hash =>
    rw [Store.fieldsAt_eq hget]
    exact Or.inr (h key hash hget)

theorem CountsSecond.set {s : Store} (h : CountsSecond s) {key : Text} {hash : Option Hash}
    (hhash : ∀ hash', hash = some hash' → CountSecond hash'.fields) : CountsSecond (s.setHash key hash) := by
  intro key' hash' hget
  by_cases heq : key' = key
  · rw [heq, Store.setHash_self] at hget
    exact hhash hash' hget
  · rw [Store.setHash_of_ne heq] at hget
    exact h key' hash' hget

theorem countsSecond_serve {s s' : Store} {c : Command} {answer : Answer} {r : Reply c}
    (h : CountsSecond s) (hpairs : ∀ key pairs, c = .hmset key pairs → Written pairs)
    (hserve : s.serve c answer = some (r, s')) : CountsSecond s' := by
  rcases Store.serve_cases hserve with rfl | ⟨key, pairs, expires, rfl, rfl⟩ | ⟨key, rfl⟩ |
      ⟨id, stamp, rfl⟩
  · exact h
  · refine h.set fun hash hhash => ?_
    rw [← Option.some.inj hhash]
    exact countSecond_write (hpairs key pairs rfl) (h.fieldsAt key)
  · refine h.set fun hash hhash => ?_
    obtain ⟨old, hold, rfl⟩ := Option.map_eq_some_iff.mp hhash
    exact h key old hold
  · exact h

/-- The count in a reply is one of the column. -/
def CountReply : ((c : Command) × Reply c) → Prop
  | ⟨.hgetall _, some result⟩ => ∀ count ∈ result[3]?, CountText count
  | _ => True

theorem countReply_serve {s s' : Store} {c : Command} {answer : Answer} {r : Reply c}
    (h : CountsSecond s) (hserve : s.serve c answer = some (r, s')) : CountReply ⟨c, r⟩ := by
  cases c with
  | hgetall key =>
    cases answer with
    | done =>
      cases hserve
      intro count hcount
      rcases h.fieldsAt key with hnil | hsecond
      · rw [hnil] at hcount
        cases hcount
      · obtain ⟨count', hcount', -, hfourth⟩ := hsecond.lookup
        rw [hfourth] at hcount
        obtain rfl := Option.some.inj hcount
        exact hcount'
    | failed =>
      cases hserve
      trivial
    | rows | updated | time => cases hserve
  | hmset | expire | query | osTime => trivial

/-- What a hit writes is a count. -/
theorem countText_next {lua : LuaNumbers} {name : Text} {result : List Text} {count : Text}
    (h : CountReply (readReply name result)) (hcount : lua.nextCount result = some count) :
    CountText count := by
  unfold LuaNumbers.nextCount at hcount
  split at hcount
  · rw [← Option.some.inj hcount]
    exact countText_intText _
  · rename_i old hold
    exact ((h old hold).addOne hcount).1

/-- The requests are at their points, every hash has its count in second place, and so have the
replies. -/
structure CountsPlaced (lua : LuaNumbers) (p : UserPool) : Prop where
  shared : CountsSecond p.shared
  points : ∀ t ∈ p.threads, AtRequest lua t.request t.log t.rest
  replies : ∀ t ∈ p.threads, ∀ e ∈ t.log, CountReply e

variable {lua : LuaNumbers}

theorem countsPlaced_step {p p' : UserPool} {e : UserEvent} (hp : CountsPlaced lua p)
    (h : (userquery lua).step p e = some p') : CountsPlaced lua p' := by
  obtain ⟨hcounts, hpoints, hreplies⟩ := hp
  rcases System.step_cases h with ⟨key, s, rfl, hexpire, rfl⟩ | ⟨request, rfl, rfl⟩ |
      ⟨before, t, after, answer, c, next, r, s, rfl, hthreads, hrest, hserve, rfl⟩
  · obtain rfl := Store.expireKey_cases hexpire
    exact ⟨hcounts.set nofun, hpoints, hreplies⟩
  · refine ⟨hcounts, fun u hu => ?_, fun u hu => ?_⟩
    · rcases List.mem_append.mp hu with hu | hu
      · exact hpoints u hu
      · rw [List.mem_singleton.mp hu]
        exact AtRequest.start request
    · rcases List.mem_append.mp hu with hu | hu
      · exact hreplies u hu
      · rw [List.mem_singleton.mp hu]
        exact fun e he => absurd he List.not_mem_nil
  · have hpoint := hpoints t (Pool.mem_served hthreads)
    rw [hrest] at hpoint
    obtain ⟨name, hrequest, hat⟩ := hpoint.name
    refine ⟨countsSecond_serve hcounts (fun key pairs hc => ?_) hserve, fun u hu => ?_, fun u hu => ?_⟩
    · rcases hat.command_cases with hc' | hc' | ⟨row, more, hc', -⟩ | hc' | hc' |
          ⟨f, result, count, time, hc', hcount, hlog⟩ | ⟨id, hc', -⟩ <;> rw [hc] at hc'
      · cases hc'
      · cases hc'
      · exact Or.inl ⟨row, (Command.hmset.inj hc').2⟩
      · cases hc'
      · cases hc'
      · have hread := hreplies t (Pool.mem_served hthreads) (readReply name (f :: result)) (by simp [hlog])
        exact Or.inr ⟨time, count, countText_next hread hcount, (Command.hmset.inj hc').2⟩
      · cases hc'
    · rcases Pool.mem_replaced hthreads hu with rfl | hu
      · rw [Thread.reply, hrequest]
        exact hat.reply r
      · exact hpoints u hu
    · rcases Pool.mem_replaced hthreads hu with rfl | hu
      · exact List.forall_mem_cons.mpr
          ⟨countReply_serve hcounts hserve, hreplies t (Pool.mem_served hthreads)⟩
      · exact hreplies u hu

/-! ## One request -/

section Exec

variable {s s' : Store} {name : Text} {answers : List Answer}

/-- A refused statement has no effect. -/
theorem serve_refused {sql : Text} {answer : Answer} (h : s.serve (.query sql) answer = some (none, s')) :
    s' = s := by
  cases answer with
  | failed =>
    cases h
    rfl
  | done => cases h
  | rows rs =>
    simp only [Store.serve] at h
    split at h
    · split at h <;> cases h
    · cases h
  | updated stamp =>
    simp only [Store.serve] at h
    split at h <;> cases h
  | time => cases h

/-- Only a statement changes the table. -/
theorem serve_students {c : Command} {answer : Answer} {r : Reply c} (hc : ∀ sql, c ≠ .query sql)
    (h : s.serve c answer = some (r, s')) : s'.students = s.students := by
  unfold Store.serve at h
  split at h
  · cases h; rfl
  · cases h; rfl
  · cases h; rfl
  · cases h; rfl
  · cases h; rfl
  · cases h; rfl
  · exact absurd rfl (hc _)
  · exact absurd rfl (hc _)
  · exact absurd rfl (hc _)
  · cases h; rfl
  · cases h

theorem exec_refused {id : Text}
    (h : (raiseCount id).exec Store.serve s answers = some (.updateFailed, s')) : s' = s := by
  obtain ⟨answer, rest, r, mid, -, hserve, hrest⟩ := Prog.exec_call h
  cases r with
  | none =>
    obtain ⟨-, hout⟩ := Prog.exec_ret hrest
    cases hout
    exact serve_refused hserve
  | some result =>
    obtain ⟨-, hout⟩ := Prog.exec_ret hrest
    cases hout

theorem cachedRow_congr (h : (s'.redis name).map Hash.fields = (s.redis name).map Hash.fields) :
    s'.cachedRow name = s.cachedRow name := by
  have hrow : ∀ s : Store, s.cachedRow name = ((s.redis name).map Hash.fields).map fun fields =>
      (fields.lookup "id".toList, fields.lookup "query_times".toList) := by
    intro s
    rw [Option.map_map]
    rfl
  rw [hrow, hrow, h]

theorem cachedRow_id (s : Store) (name : Text) :
    (s.cachedRow name).bind Prod.fst = (s.fieldsAt name).lookup "id".toList := by
  unfold Store.cachedRow Store.fieldsAt
  cases s.redis name with
  | none => rfl
  | some hash => rfl

theorem cachedRow_count (s : Store) (name : Text) :
    (s.cachedRow name).bind Prod.snd = (s.fieldsAt name).lookup "query_times".toList := by
  unfold Store.cachedRow Store.fieldsAt
  cases s.redis name with
  | none => rfl
  | some hash => rfl

/-- HMSET and EXPIRE: the hash is written unless the HMSET is refused. -/
theorem exec_cacheWrite {pairs : List (Text × Text)} {seconds : Nat} {next : Script}
    {out : Outcome × Store}
    (h : Prog.exec Store.serve (.call (.hmset name pairs) fun _ => .call (.expire name seconds) fun _ => next)
      s answers = some out) :
    ∃ answer answer' rest mid, answers = answer :: answer' :: rest ∧
      next.exec Store.serve mid rest = some out ∧ mid.students = s.students ∧
      (answer = .failed ∧ mid.cachedRow name = s.cachedRow name ∨
        answer ≠ .failed ∧ mid.fieldsAt name = setFields (s.fieldsAt name) pairs) := by
  obtain ⟨answer, rest, r, written, rfl, hwrite, hrest⟩ := Prog.exec_call h
  obtain ⟨answer', rest, r', mid, rfl, hexpire, hrest⟩ := Prog.exec_call hrest
  have hfields := Store.serve_fields (fun _ _ h => by cases h) hexpire name
  refine ⟨answer, answer', rest, mid, rfl, hrest, ?_, ?_⟩
  · rw [serve_students (fun _ h => by cases h) hexpire, serve_students (fun _ h => by cases h) hwrite]
  · by_cases ha : answer = .failed
    · subst ha
      cases hwrite
      exact Or.inl ⟨rfl, cachedRow_congr hfields⟩
    · obtain ⟨expires, rfl⟩ := Store.serve_hmset ha hwrite
      rw [Store.setHash_self] at hfields
      exact Or.inr ⟨ha, by simp [Store.fieldsAt, hfields]⟩

/-- A miss: the key was absent, or its hash had no field. -/
theorem miss_refused (hnone : s.fieldsAt name = [])
    (h : (missBranch name).exec Store.serve s answers = some (.updateFailed, s')) :
    s'.students = s.students ∧ (s'.cachedRow name = s.cachedRow name ↔ answers[1]? = some .failed) := by
  obtain ⟨answer, rest, r, mid, rfl, hserve, hrest⟩ := Prog.exec_call h
  obtain rfl := Store.serve_reads (select_reads name) hserve
  rcases r with _ | ((_ | ⟨row, more⟩) | _)
  · cases (Prog.exec_ret hrest).2
  · cases (Prog.exec_ret hrest).2
  · obtain ⟨written, expired, rest, last, rfl, hrest, hstudents, hhash⟩ := exec_cacheWrite hrest
    obtain rfl := exec_refused hrest
    refine ⟨hstudents, ?_⟩
    rcases hhash with ⟨rfl, hsame⟩ | ⟨hdone, hnew⟩
    · simp [hsame]
    · have hid : (s'.fieldsAt name).lookup "id".toList = some (intText row.id) := by
        rw [hnew, hnone]
        rfl
      have hrow : s'.cachedRow name ≠ mid.cachedRow name := by
        intro hsame
        rw [← cachedRow_id, hsame, cachedRow_id, hnone] at hid
        cases hid
      simp [hrow, hdone]
  · cases (Prog.exec_ret hrest).2

/-- A hit: the key held a hash. -/
theorem hit_refused {count : Text} (hcounts : CountsSecond s)
    (hcount : lua.nextCount (flatten (s.fieldsAt name)) = some count) (hsome : s.fieldsAt name ≠ [])
    (h : (hitTime name count).exec Store.serve s answers = some (.updateFailed, s')) :
    s'.students = s.students ∧ (s'.cachedRow name = s.cachedRow name ↔ answers[1]? = some .failed) := by
  obtain ⟨answer, rest, time, mid, rfl, hserve, hrest⟩ := Prog.exec_call h
  obtain rfl := Store.serve_reads id hserve
  obtain ⟨written, expired, rest, last, rfl, hrest, hstudents, hhash⟩ := exec_cacheWrite hrest
  obtain ⟨answer', rest, r, last', rfl, hserve', hrest⟩ := Prog.exec_call hrest
  obtain rfl := Store.serve_reads id hserve'
  have hlast : s' = last' := by
    rcases r with _ | result
    · cases (Prog.exec_ret hrest).2
    · dsimp only at hrest
      split at hrest
      · cases (Prog.exec_ret hrest).2
      · exact exec_refused hrest
  subst hlast
  refine ⟨hstudents, ?_⟩
  rcases hhash with ⟨rfl, hsame⟩ | ⟨hdone, hnew⟩
  · simp [hsame]
  · obtain ⟨old, hold, hlookup, hfourth⟩ := ((hcounts.fieldsAt name).resolve_left hsome).lookup
    have hraised : (s'.fieldsAt name).lookup "query_times".toList = some count := by
      rw [hnew]
      exact lookup_setField _ _ _
    have hrow : s'.cachedRow name ≠ mid.cachedRow name := by
      intro hsame
      rw [← cachedRow_count, hsame, cachedRow_count, hlookup] at hraised
      obtain rfl := Option.some.inj hraised
      rw [LuaNumbers.nextCount, hfourth] at hcount
      exact (hold.addOne hcount).2 rfl
    simp [hrow, hdone]

end Exec

/-- From every state that is reached from an empty Redis, a request that ends with its UPDATE
refused leaves the table as it was; and it leaves the cached row of its name as it was if and only
if its HMSET, the third command on both branches, was refused. -/
theorem failed_update_leaves {t : StudentTable} {es : List UserEvent} {p : UserPool}
    (h : Run (userquery lua).step AnyStep (idle ⟨fun _ => none, t⟩) es p) {name : Text}
    {answers : List Answer} {s : Store}
    (hexec : (handler lua (some name)).exec Store.serve p.shared answers = some (.updateFailed, s)) :
    (s.students = p.shared.students ∧ s.cachedRow name = p.shared.cachedRow name) ↔
      answers[2]? = some .failed := by
  have hempty : CountsPlaced lua (idle ⟨fun _ => none, t⟩) :=
    ⟨countsSecond_empty t, fun _ ht => absurd ht List.not_mem_nil, fun _ ht => absurd ht List.not_mem_nil⟩
  obtain ⟨hcounts, -, -⟩ := h.invariant (I := CountsPlaced lua) hempty fun _ _ _ hp _ hs => countsPlaced_step hp hs
  obtain ⟨answer, rest, r, mid, rfl, hserve, hrest⟩ := Prog.exec_call hexec
  obtain rfl := Store.serve_reads id hserve
  have hleaves : s.students = p.shared.students ∧
      (s.cachedRow name = p.shared.cachedRow name ↔ rest[1]? = some .failed) := by
    rcases r with _ | result
    · cases (Prog.exec_ret hrest).2
    · cases answer with
      | done =>
        cases hserve
        cases hfields : p.shared.fieldsAt name with
        | nil =>
          rw [hfields] at hrest
          exact miss_refused hfields hrest
        | cons pair fields =>
          have hsome : p.shared.fieldsAt name ≠ [] := by
            rw [hfields]
            exact List.cons_ne_nil pair fields
          have hhit : (hitBranch lua name (flatten (p.shared.fieldsAt name))).exec Store.serve p.shared rest =
              some (.updateFailed, s) := by
            rw [hfields] at hrest ⊢
            exact hrest
          unfold hitBranch at hhit
          split at hhit
          · cases (Prog.exec_ret hhit).2
          · rename_i count hcount
            exact hit_refused hcounts hcount hsome hhit
      | failed => cases hserve
      | rows => cases hserve
      | updated => cases hserve
      | time => cases hserve
  simp [hleaves.1, hleaves.2]

/-! ## A hit whose UPDATE is refused -/

/-- The answers to a second request for `ann`; `write` is the one to its HMSET. -/
def refusedHit (write : Answer) : List Answer := [.done, .time 1000, write, .done, .done, .failed]

/-- How the second request for `ann` ends, and what the cache holds for her before and after it. -/
def observedRefused (write : Answer) (p : UserPool) : Option (Outcome × List (Option (Option Text × Option Text))) :=
  ((handler integersOnly (some "ann".toList)).exec Store.serve p.shared (refusedHit write)).map fun out =>
    (out.1, [p.shared.cachedRow "ann".toList, out.2.cachedRow "ann".toList])

theorem failed_update_leaves_example :
    ∃ p s, Run (userquery integersOnly).step AnyStep (idle storeExample) missRun p ∧
      (handler integersOnly (some "ann".toList)).exec Store.serve p.shared (refusedHit .failed) = some (.updateFailed, s) ∧
      s.students = p.shared.students ∧ s.cachedRow "ann".toList = p.shared.cachedRow "ann".toList := by
  have hreplay : ((replay (userquery integersOnly).step (idle storeExample) missRun).bind (observedRefused .failed)).map
      Prod.fst = some .updateFailed := by
    decide +kernel
  obtain ⟨seen, hseen, hend⟩ := Option.map_eq_some_iff.mp hreplay
  obtain ⟨p, hp, hobs⟩ := Option.bind_eq_some_iff.mp hseen
  obtain ⟨⟨o, s⟩, hexec, rfl⟩ := Option.map_eq_some_iff.mp hobs
  obtain rfl : o = .updateFailed := hend
  exact ⟨p, s, Run.of_replay hp, hexec, (failed_update_leaves (Run.of_replay hp) hexec).mpr rfl⟩

/-- The hash of `ann` is cached with the count 7. The UPDATE of a second request is refused after
its HMSET has raised the cached count to 8. -/
theorem failed_update_leaves_fails :
    ∃ p s, Run (userquery integersOnly).step AnyStep (idle storeExample) missRun p ∧
      (handler integersOnly (some "ann".toList)).exec Store.serve p.shared (refusedHit .done) = some (.updateFailed, s) ∧
      p.shared.cachedRow "ann".toList = some (some "1".toList, some "7".toList) ∧
      s.cachedRow "ann".toList = some (some "1".toList, some "8".toList) := by
  have hend : ((replay (userquery integersOnly).step (idle storeExample) missRun).bind (observedRefused .done)).map
      Prod.fst = some .updateFailed := by
    decide +kernel
  have hrows : ((replay (userquery integersOnly).step (idle storeExample) missRun).bind (observedRefused .done)).map
      Prod.snd = some [some (some "1".toList, some "7".toList), some (some "1".toList, some "8".toList)] := by
    decide +kernel
  obtain ⟨seen, hseen, hend⟩ := Option.map_eq_some_iff.mp hend
  rw [hseen, Option.map_some, Option.some.injEq] at hrows
  obtain ⟨p, hp, hobs⟩ := Option.bind_eq_some_iff.mp hseen
  obtain ⟨⟨o, s⟩, hexec, rfl⟩ := Option.map_eq_some_iff.mp hobs
  obtain rfl : o = .updateFailed := hend
  simp only [List.cons.injEq, and_true] at hrows
  exact ⟨p, s, Run.of_replay hp, hexec, hrows.1, hrows.2⟩

end RedisLuaLinux.Lua
