import RedisLuaLinux.Lua.CacheRows

/-!
# Every completed request is counted once

The key of a request must not expire between its two reads in the hit branch (`KeyStays`).
Then every request ends at the closing of the connections, and the sum of `query_times` over
the rows of a name grows by exactly one for each of them (`counts_every_request`).
-/

namespace RedisLuaLinux.Lua

open Library

/-! ## The window of a hit -/

/-- The replies of the HGETALL commands of a request, the last one first. -/
def reads (log : Log) : List (List Text) :=
  log.filterMap fun
    | ⟨.hgetall _, some result⟩ => some result
    | _ => none

/-- The request has written to the cache. -/
def wrote (log : Log) : Bool :=
  log.any fun
    | ⟨.hmset _ _, _⟩ => true
    | _ => false

/-- The request is in the hit branch, between its two reads. -/
def inHitWindow (t : Request) : Bool :=
  match reads t.log with
  | [_ :: _] => t.rest.outcome.isNone
  | _ => false

/-- No key expires while a request for it is between its two reads in the hit branch. -/
def KeyStays (p : UserPool) : UserEvent → Prop
  | .env key => ∀ t ∈ p.threads, t.request = some key → inHitWindow t = false
  | _ => True

instance decidableKeyStays (p : UserPool) : (e : UserEvent) → Decidable (KeyStays p e)
  | .env key =>
    inferInstanceAs (Decidable (∀ t ∈ p.threads, t.request = some key → inHitWindow t = false))
  | .spawn _ => isTrue trivial
  | .advance _ _ => isTrue trivial

theorem inHitWindow_eq {t : Request} :
    inHitWindow t = true ↔ (∃ f result, reads t.log = [f :: result]) ∧ t.rest.outcome = none := by
  unfold inHitWindow
  split
  · rename_i f result hreads
    simp [hreads]
  · rename_i hreads
    simp only [Bool.false_eq_true, false_iff, not_and]
    rintro ⟨f, result, h⟩
    exact absurd h (hreads f result)

/-- A count that is not `NULL`. -/
def IsCount (q : Option Int) : Prop := q.isSome

instance : DecidablePred IsCount := fun q => inferInstanceAs (Decidable (q.isSome = true))

variable {lua : LuaNumbers} {N : Text → Int → Prop} {s s' : Store} {name : Text}

/-- Serving one command of a request: it goes on and the table stays, or its UPDATE of a row
of its name is done and the request ends at the closing of the connections. -/
theorem request_progress {log : Log} {c : Command} {next : Reply c → Script} {answer : Answer}
    {r : Reply c} (hat : At lua name log (.call c next)) (hname : ∃ id, N name id)
    (hnames : Finds N s.students) (hcache : CacheSound N IsCount s)
    (hlog : ∀ e ∈ log, GoodReply N IsCount name e)
    (hwindow : (∃ f result, reads log = [f :: result]) → s.redis name ≠ none)
    (ha : answer ≠ .failed) (h : s.serve c answer = some (r, s')) :
    (s'.students = s.students ∧ (next r).outcome = none) ∨
    ∃ z stamp, N name z ∧ s'.students = s.students.increment z stamp ∧
      (next r).outcome = some .closed ∧ wrote log = true := by
  -- the UPDATE is for a row of the name
  have hupdate : ∀ id, ((∃ row more, id = intText row.id ∧ selectReply name (row :: more) ∈ log) ∨
      ∃ result, result[1]? = some id ∧ readReply name result ∈ log) →
      ∀ r', s.serve (.query (updateText id)) answer = some (r', s') →
        r' = some .ok ∧ ∃ z stamp, N name z ∧ s'.students = s.students.increment z stamp := by
    intro id hid r' hserve
    obtain ⟨z, hz, rfl⟩ := update_names_row hlog hid
    obtain ⟨stamp, hr', rfl⟩ := Store.serve_increment ha (parse_updateText z) hserve
    exact ⟨hr', z, stamp, hz, rfl⟩
  generalize hrest : Prog.call c next = rest at hat
  cases hat with
  | start =>
    cases hrest
    obtain ⟨rfl, rfl⟩ := Store.serve_hgetall ha h
    left
    refine ⟨rfl, ?_⟩
    rcases hcache.fieldsAt hname with hnil | ⟨q, hq, hcached⟩
    · rw [hnil]
      rfl
    · obtain ⟨count, hcount⟩ := Option.isSome_iff_exists.mp hq
      have hnext := hcached.nextCount lua
      obtain ⟨id, created, accessed, -, hfields⟩ := hcached
      rw [hfields] at hnext ⊢
      show (hitBranch lua name (flatten (shape _ _ _ _))).outcome = none
      unfold hitBranch
      rw [hnext, hcount]
      rfl
  | missed =>
    cases hrest
    obtain ⟨rs, hperm, rfl, rfl⟩ := select_reply hnames hname ha h
    left
    refine ⟨rfl, ?_⟩
    obtain ⟨id, hid⟩ := hname
    rw [← hnames name id hid] at hid
    obtain ⟨row, hrow, -⟩ := List.mem_map.mp hid
    have hmem : row ∈ rs := hperm.mem_iff.mpr hrow
    obtain ⟨first, more, rfl⟩ := List.exists_cons_of_ne_nil (List.ne_nil_of_mem hmem)
    rfl
  | selected row more =>
    cases hrest
    obtain ⟨expires, rfl⟩ := Store.serve_hmset ha h
    exact Or.inl ⟨rfl, rfl⟩
  | filled row more b =>
    cases hrest
    obtain rfl := Store.serve_expire ha h
    exact Or.inl ⟨rfl, rfl⟩
  | renewed row more b b' =>
    cases hrest
    obtain ⟨rfl, z, stamp, hz, hs⟩ := hupdate _ (Or.inl ⟨row, more, rfl, by simp⟩) _ h
    exact Or.inr ⟨z, stamp, hz, hs, rfl, rfl⟩
  | hit f result count hcount =>
    cases hrest
    obtain rfl := Store.serve_osTime ha h
    exact Or.inl ⟨rfl, rfl⟩
  | timed f result count time hcount =>
    cases hrest
    obtain ⟨expires, rfl⟩ := Store.serve_hmset ha h
    exact Or.inl ⟨rfl, rfl⟩
  | written f result count time b hcount =>
    cases hrest
    obtain rfl := Store.serve_expire ha h
    exact Or.inl ⟨rfl, rfl⟩
  | extended f result count time b b' hcount =>
    cases hrest
    obtain ⟨rfl, rfl⟩ := Store.serve_hgetall ha h
    left
    refine ⟨rfl, ?_⟩
    obtain ⟨hash, hhash⟩ := Option.ne_none_iff_exists'.mp (hwindow ⟨f, result, rfl⟩)
    obtain ⟨q, -, hcached⟩ := hcache name hash hname hhash
    obtain ⟨z, -, hsecond⟩ := hcached.second
    rw [Store.fieldsAt_eq hhash]
    dsimp only
    rw [hsecond]
    rfl
  | reread f result count time b b' result' id hcount hid =>
    cases hrest
    obtain ⟨rfl, z, stamp, hz, hs⟩ := hupdate _ (Or.inr ⟨result', hid, by simp⟩) _ h
    exact Or.inr ⟨z, stamp, hz, hs, rfl, rfl⟩
  | ended log id r h => cases hrest
  | failed log o ho => cases hrest

/-! ## Requests that come to their end -/

/-- The requests find their rows, and their keys while they are in the window. -/
structure Live (lua : LuaNumbers) (N : Text → Int → Prop) (p : UserPool) : Prop where
  sound : PoolSound lua N IsCount p
  window : ∀ t ∈ p.threads, ∀ name, t.request = some name → inHitWindow t = true →
    p.shared.redis name ≠ none
  healthy : ∀ t ∈ p.threads, t.rest.outcome = none ∨ t.rest.outcome = some .closed

/-- What a step of a live pool meets: commands succeed, requests are for the names of `N` whose
rows have counts, and a key stays while a hit on it is between its reads. -/
def LiveAdmits (N : Text → Int → Prop) (p : UserPool) (e : UserEvent) : Prop :=
  Answered N e ∧ CountsExpected IsCount p e ∧ KeyStays p e

variable {p p' : UserPool} {e : UserEvent} {before after : List Request} {t : Request}
  {c : Command} {next : Reply c → Script} {answer : Answer} {r : Reply c}

/-- The hit branch writes inside its window. -/
theorem Live.hitFindsKey (hp : Live lua N p) (e : UserEvent) : HitFindsKey p e := by
  cases e with
  | env key => trivial
  | spawn request => trivial
  | advance i answer =>
    unfold HitFindsKey
    dsimp only
    split
    · rename_i key pairs hcommand
      intro hid
      obtain ⟨t, ht, hrest⟩ := Option.bind_eq_some_iff.mp hcommand
      have hmem : t ∈ p.threads := List.mem_of_getElem? ht
      cases hc : t.rest with
      | ret o =>
        rw [hc] at hrest
        cases hrest
      | call c next =>
        rw [hc, Prog.command, Option.some.injEq] at hrest
        obtain ⟨-, name, hrequest, hat⟩ := hp.sound.thread hmem hc
        rcases hat.command_cases with rfl | rfl | ⟨row, more, rfl, -⟩ | rfl | rfl |
            ⟨f, result, count, time, rfl, -, hlog⟩ | ⟨id, rfl, -⟩
        · cases hrest
        · cases hrest
        · obtain ⟨-, rfl⟩ := Command.hmset.inj hrest
          exact absurd List.mem_cons_self hid
        · cases hrest
        · cases hrest
        · obtain ⟨rfl, -⟩ := Command.hmset.inj hrest
          have hwindow : inHitWindow t = true := by
            refine inHitWindow_eq.mpr ⟨⟨f, result, ?_⟩, by rw [hc]; rfl⟩
            rw [hlog]
            rfl
          exact Option.isSome_iff_ne_none.mpr (hp.window t hmem name hrequest hwindow)
        · cases hrest
    · trivial

/-- A request that is served inside its window, or enters it, finds its key. -/
theorem window_reply (hrest : t.rest = .call c next) (hkey : ∀ key, c = .hgetall key → key = name)
    (hold : inHitWindow t = true → s.redis name ≠ none) (ha : answer ≠ .failed)
    (h : s.serve c answer = some (r, s')) (hnew : inHitWindow (t.reply next r) = true) :
    s'.redis name ≠ none := by
  obtain ⟨⟨f, result, hreads⟩, -⟩ := inHitWindow_eq.mp hnew
  have hbefore : (∃ f result, reads t.log = [f :: result]) → s.redis name ≠ none := fun hlog =>
    hold (inHitWindow_eq.mpr ⟨hlog, by rw [hrest]; rfl⟩)
  cases c with
  | hgetall key =>
    obtain rfl := hkey key rfl
    obtain ⟨rfl, hs⟩ := Store.serve_hgetall ha h
    rw [hs]
    intro hnone
    have hcons : flatten (s.fieldsAt key) :: reads t.log = [f :: result] := hreads
    rw [Store.fieldsAt_eq_nil hnone] at hcons
    cases hcons
  | hmset key pairs => exact Store.serve_keeps (hbefore ⟨f, result, hreads⟩) h
  | expire key seconds => exact Store.serve_keeps (hbefore ⟨f, result, hreads⟩) h
  | query sql => exact Store.serve_keeps (hbefore ⟨f, result, hreads⟩) h
  | osTime => exact Store.serve_keeps (hbefore ⟨f, result, hreads⟩) h

/-- What serving one thread of a live pool does. -/
theorem Live.progress (hp : Live lua N p) (hthreads : p.threads = before ++ t :: after)
    (hrest : t.rest = .call c next) (hrequest : t.request = some name)
    (hat : At lua name t.log (.call c next)) (ha : answer ≠ .failed)
    (h : p.shared.serve c answer = some (r, s)) :
    (s.students = p.shared.students ∧ (next r).outcome = none) ∨
    ∃ z stamp, N name z ∧ s.students = p.shared.students.increment z stamp ∧
      (next r).outcome = some .closed ∧ wrote t.log = true := by
  have hmem : t ∈ p.threads := Pool.mem_served hthreads
  have ht := hp.sound.threads t hmem
  refine request_progress hat (ht.requested name hrequest) hp.sound.names hp.sound.cache
    (ht.replies name hrequest) (fun hlog => ?_) ha h
  exact hp.window t hmem name hrequest (inHitWindow_eq.mpr ⟨hlog, by rw [hrest]; rfl⟩)

theorem live_expire {key : Text} (hp : Live lua N p) (hstays : KeyStays p (.env key))
    (hsound : PoolSound lua N IsCount { p with shared := p.shared.setHash key none }) :
    Live lua N { p with shared := p.shared.setHash key none } := by
  refine ⟨hsound, fun t ht name hrequest hwindow => ?_, hp.healthy⟩
  have hne : name ≠ key := by
    rintro rfl
    have houtside := hstays t ht hrequest
    rw [hwindow] at houtside
    cases houtside
  show (p.shared.setHash key none).redis name ≠ none
  rw [Store.setHash_of_ne hne]
  exact hp.window t ht name hrequest hwindow

theorem live_spawn {request : Option Text} (hp : Live lua N p)
    (hsound : PoolSound lua N IsCount { p with threads := p.threads ++ [(userquery lua).start request] }) :
    Live lua N { p with threads := p.threads ++ [(userquery lua).start request] } := by
  refine ⟨hsound, fun t ht name hrequest hwindow => ?_, fun t ht => ?_⟩
  · rcases List.mem_append.mp ht with ht | ht
    · exact hp.window t ht name hrequest hwindow
    · rw [List.mem_singleton.mp ht] at hwindow
      cases hwindow
  · rcases List.mem_append.mp ht with ht | ht
    · exact hp.healthy t ht
    · rw [List.mem_singleton.mp ht]
      cases request with
      | none => exact Or.inr rfl
      | some name => exact Or.inl rfl

theorem live_advance (hp : Live lua N p) (hthreads : p.threads = before ++ t :: after)
    (hrest : t.rest = .call c next) (ha : answer ≠ .failed)
    (h : p.shared.serve c answer = some (r, s))
    (hsound : PoolSound lua N IsCount ⟨s, before ++ t.reply next r :: after⟩) :
    Live lua N ⟨s, before ++ t.reply next r :: after⟩ := by
  obtain ⟨-, name, hrequest, hat⟩ := hp.sound.thread (Pool.mem_served hthreads) hrest
  refine ⟨hsound, fun u hu m hm hin => ?_, fun u hu => ?_⟩
  · rcases Pool.mem_replaced hthreads hu with rfl | hu
    · obtain rfl : name = m := Option.some.inj (hrequest.symm.trans hm)
      refine window_reply hrest (fun key hkey => ?_)
        (hp.window t (Pool.mem_served hthreads) name hrequest) ha h hin
      subst hkey
      exact hat.hgetall_key
    · exact Store.serve_keeps (hp.window u hu m hm hin) h
  · rcases Pool.mem_replaced hthreads hu with rfl | hu
    · rcases hp.progress hthreads hrest hrequest hat ha h with ⟨-, hout⟩ | ⟨z, stamp, -, -, hout, -⟩
      · exact Or.inl hout
      · exact Or.inr hout
    · exact hp.healthy u hu

theorem live_step (hp : Live lua N p) (hadmits : LiveAdmits N p e) (h : (userquery lua).step p e = some p') :
    Live lua N p' := by
  obtain ⟨hanswered, hexpected, hstays⟩ := hadmits
  have hsound : PoolSound lua N IsCount p' :=
    poolSound_step (fun _ => rfl) hp.sound hanswered hexpected (hp.hitFindsKey e) h
  rcases System.step_cases h with ⟨key, s, rfl, hexpire, rfl⟩ | ⟨request, rfl, rfl⟩ |
      ⟨before, t, after, answer, c, next, r, s, rfl, hthreads, hrest, hserve, rfl⟩
  · obtain rfl := Store.expireKey_cases hexpire
    exact live_expire hp hstays hsound
  · exact live_spawn hp hsound
  · exact live_advance hp hthreads hrest hanswered hserve hsound

theorem live_idle (hnames : Finds N s.students) (hcache : CacheSound N IsCount s) : Live lua N (idle s) :=
  ⟨idle_sound hnames hcache, fun _ ht => absurd ht List.not_mem_nil,
    fun _ ht => absurd ht List.not_mem_nil⟩

theorem Live.all_closed (hp : Live lua N p) (hquiet : System.Quiet p) :
    ∀ t ∈ p.threads, t.rest.outcome = some .closed := by
  intro t ht
  have hdone := hquiet t ht
  rcases hp.healthy t ht with hnone | hclosed
  · rw [hnone] at hdone
    cases hdone
  · exact hclosed

/-! ## Completed requests -/

/-- The request for `name` has reached the closing of the connections. -/
def completedFor (name : Text) (t : Request) : Bool :=
  decide (t.request = some name ∧ t.rest.outcome = some .closed)

/-- The number of completed requests for a name. -/
def completed (p : UserPool) (name : Text) : Nat := p.threads.countP (completedFor name)

/-- Counting threads before and after one of them is served. -/
theorem countP_reply (f : Request → Bool) (before after : List Request) (t t' : Request) :
    (before ++ t' :: after).countP f + (if f t then 1 else 0) =
      (before ++ t :: after).countP f + if f t' then 1 else 0 := by
  simp only [List.countP_append, List.countP_cons]
  omega

theorem completedFor_unfinished (h : t.rest.outcome = none) (name : Text) :
    completedFor name t = false := by
  simp [completedFor, h]

theorem completedFor_reply (hrequest : t.request = some name)
    (hout : (next r).outcome = some .closed) (m : Text) :
    completedFor m (t.reply next r) = decide (name = m) := by
  simp [completedFor, Thread.reply, hrequest, hout]

theorem completed_reply (hthreads : p.threads = before ++ t :: after) (hrest : t.rest = .call c next)
    (r : Reply c) (m : Text) :
    completed ⟨s, before ++ t.reply next r :: after⟩ m =
      completed p m + if completedFor m (t.reply next r) then 1 else 0 := by
  have hold : completedFor m t = false := completedFor_unfinished (by rw [hrest]; rfl) m
  have hcount := countP_reply (completedFor m) before after t (t.reply next r)
  rw [hold, ← hthreads] at hcount
  exact hcount

theorem completed_spawn (p : UserPool) (request : Option Text) (name : Text) :
    completed { p with threads := p.threads ++ [(userquery lua).start request] } name = completed p name := by
  have hnew : completedFor name ((userquery lua).start request) = false := by
    cases request with
    | none => simp [completedFor, System.start]
    | some other => exact completedFor_unfinished rfl name
  simp [completed, hnew]

theorem Live.completed_quiet {Admits : UserPool → UserEvent → Prop} {es : List UserEvent}
    (hp : Live lua N p) (hquiet : System.Quiet p) (h : Run (userquery lua).step Admits (idle s) es p)
    (name : Text) : completed p name = (System.requests es).count (some name) := by
  have hclosed := hp.all_closed hquiet
  have hrequests : p.threads.map Thread.request = System.requests es := by
    simpa [idle] using System.run_requests h
  rw [← hrequests, List.count, List.countP_map]
  refine List.countP_congr fun t ht => ?_
  simp [completedFor, hclosed t ht]

/-! ## The invariant of the counts -/

structure Counted (lua : LuaNumbers) (s₀ : Store) (p : UserPool) : Prop where
  live : Live lua (plainNames s₀.students) p
  plain : PlainPool s₀ p
  totals : ∀ name, p.shared.students.total name = s₀.students.total name + completed p name
  others : ∀ name, completed p name = 0 → p.shared.students.rowsNamed name = s₀.students.rowsNamed name

variable {s₀ : Store}

/-- The UPDATE of a request for `name` counts a row of that name. -/
theorem Counted.row (hp : Counted lua s₀ p) {z : Int} (hz : plainNames s₀.students name z)
    (hcounts : CountsIn IsCount p.shared.students name) :
    ∃ row ∈ p.shared.students.rows, row.id = z ∧ row.name = name ∧ row.queryTimes.isSome := by
  obtain ⟨hplain, hnamed⟩ := hz
  rw [← hp.plain.named] at hnamed
  obtain ⟨row, hrow, hname, hid⟩ := hnamed
  refine ⟨row, hrow, hid, hname, hcounts row ?_⟩
  have hexact := hplain.2
  rw [← hp.plain.compared] at hexact
  rw [matched_of_carried hplain.1]
  exact List.mem_filter.mpr ⟨hrow, (hexact row hrow).mpr hname⟩

theorem counted_advance (hp : Counted lua s₀ p) (hthreads : p.threads = before ++ t :: after)
    (hrest : t.rest = .call c next) (ha : answer ≠ .failed)
    (h : p.shared.serve c answer = some (r, s))
    (hlive : Live lua (plainNames s₀.students) ⟨s, before ++ t.reply next r :: after⟩)
    (hplain : PlainPool s₀ ⟨s, before ++ t.reply next r :: after⟩) :
    Counted lua s₀ ⟨s, before ++ t.reply next r :: after⟩ := by
  obtain ⟨ht, name, hrequest, hat⟩ := hp.live.sound.thread (Pool.mem_served hthreads) hrest
  have hprogress := hp.live.progress hthreads hrest hrequest hat ha h
  have hcompleted := completed_reply (s := s) hthreads hrest r
  refine ⟨hlive, hplain, fun m => ?_, fun m hm => ?_⟩
  · rw [hcompleted]
    rcases hprogress with ⟨hs, hout⟩ | ⟨z, stamp, hz, hs, hout, -⟩
    · rw [hs, hp.totals, completedFor_unfinished hout]
      simp
    · obtain ⟨row, hrow, rfl, rfl, hcount⟩ := hp.row hz (ht.counts _ hrequest)
      rw [hs, completedFor_reply hrequest hout]
      by_cases heq : row.name = m
      · subst heq
        rw [StudentTable.total_increment hrow stamp hcount, hp.totals]
        simp only [decide_true, if_true]
        omega
      · rw [StudentTable.total_increment_of_ne hrow stamp heq, hp.totals]
        simp [heq]
  · rw [hcompleted] at hm
    rcases hprogress with ⟨hs, -⟩ | ⟨z, stamp, hz, hs, hout, -⟩
    · rw [hs]
      exact hp.others m (by omega)
    · obtain ⟨row, hrow, rfl, rfl, -⟩ := hp.row hz (ht.counts _ hrequest)
      rw [completedFor_reply hrequest hout] at hm
      have hne : row.name ≠ m := by
        rintro rfl
        simp at hm
      rw [hs, StudentTable.rowsNamed_increment_of_ne hrow stamp hne]
      exact hp.others m (by omega)

theorem counted_step (hp : Counted lua s₀ p) (hserved : Served p e) (hexpected : CountsExpected IsCount p e)
    (hstays : KeyStays p e) (h : (userquery lua).step p e = some p') : Counted lua s₀ p' := by
  have hlive := live_step hp.live ⟨hp.plain.answered hserved, hexpected, hstays⟩ h
  have hplain := plainPool_step hp.plain hp.live.sound h
  rcases System.step_cases h with ⟨key, s, rfl, hexpire, rfl⟩ | ⟨request, rfl, rfl⟩ |
      ⟨before, t, after, answer, c, next, r, s, rfl, hthreads, hrest, hserve, rfl⟩
  · obtain rfl := Store.expireKey_cases hexpire
    exact ⟨hlive, hplain, hp.totals, hp.others⟩
  · refine ⟨hlive, hplain, fun name => ?_, fun name => ?_⟩
    · rw [completed_spawn]
      exact hp.totals name
    · rw [completed_spawn]
      exact hp.others name
  · exact counted_advance hp hthreads hrest hserved hserve hlive hplain

/-- What the runs of the count meet: commands succeed, requested names have rows with
counts, and a key stays while a hit on it is between its reads. -/
def CountAdmits (p : UserPool) (e : UserEvent) : Prop :=
  Served p e ∧ CountsExpected IsCount p e ∧ KeyStays p e

instance (p : UserPool) (e : UserEvent) : Decidable (CountAdmits p e) :=
  inferInstanceAs (Decidable (Served p e ∧ CountsExpected IsCount p e ∧ KeyStays p e))

theorem run_counted (hfresh : Fresh s) {es : List UserEvent}
    (h : Run (userquery lua).step CountAdmits (idle s) es p) : Counted lua s p := by
  refine h.invariant ⟨live_idle (plainNames_finds _) (hfresh.cacheSound _),
    ⟨rfl, rfl, fun _ hne => Or.inr hne⟩, fun name => ?_, fun name _ => rfl⟩
    fun _ _ _ hp ha hs => counted_step hp ha.1 ha.2.1 ha.2.2 hs
  simp [idle, completed]

/-- Whenever no request is in progress, for every interleaving: every request has reached
the closing of its connections, the counts of the rows of a name have grown by the number of
requests for it, and the rows of the names that nobody asked for are as they were. -/
theorem counts_every_request {s : Store} (hfresh : Fresh s) {es : List UserEvent} {p : UserPool}
    (h : Run (userquery lua).step CountAdmits (idle s) es p) (hquiet : System.Quiet p) :
    (∀ t ∈ p.threads, t.rest.outcome = some .closed) ∧
    ∀ name, p.shared.students.total name =
        s.students.total name + (System.requests es).count (some name) ∧
      (some name ∉ System.requests es →
        p.shared.students.rowsNamed name = s.students.rowsNamed name) := by
  have hcounted := run_counted hfresh h
  have hcompleted := hcounted.live.completed_quiet hquiet h
  refine ⟨hcounted.live.all_closed hquiet, fun name => ⟨?_, fun hnone => hcounted.others name ?_⟩⟩
  · rw [hcounted.totals, hcompleted]
  · rw [hcompleted]
    exact List.count_eq_zero.mpr hnone

/-- A miss, an expiry, and two requests that both miss at the same time. -/
def countRun : List UserEvent :=
  missRun ++ [.env "ann".toList, .spawn (some "ann".toList), .spawn (some "ann".toList),
    .advance 1 .done, .advance 2 .done]
  ++ [.advance 1 (.rows [⟨1, "ann".toList, some 8, some 0, some "t1".toList⟩]),
    .advance 2 (.rows [⟨1, "ann".toList, some 8, some 0, some "t1".toList⟩])]
  ++ [.advance 1 .done, .advance 2 .done, .advance 2 .done, .advance 1 .done,
    .advance 2 (.updated "t2".toList), .advance 1 (.updated "t3".toList)]

theorem counts_every_request_example :
    ∃ p, Run (userquery integersOnly).step CountAdmits (idle storeExample) countRun p ∧ System.Quiet p ∧
      p.shared.students.total "ann".toList = 10 ∧
      p.shared.students.rowsNamed "bob".toList = [bob] := by
  have hreplay : (replay (guarded (userquery integersOnly).step CountAdmits) (idle storeExample) countRun).map
      (fun p => p.threads.all fun t => t.rest.outcome.isSome) = some true := by
    decide +kernel
  obtain ⟨p, hp, hquiet⟩ := Option.map_eq_some_iff.mp hreplay
  have hrun := Run.of_replay_guarded hp
  have hq : System.Quiet p := List.all_eq_true.mp hquiet
  obtain ⟨-, hcounts⟩ := counts_every_request (fun _ _ => rfl) hrun hq
  refine ⟨p, hrun, hq, (hcounts "ann".toList).1.trans (by decide +kernel), ?_⟩
  exact ((hcounts "bob".toList).2 (by decide +kernel)).trans (by decide +kernel)

end RedisLuaLinux.Lua
