import RedisLuaLinux.Lua.SelectText

/-!
# Replies that the script does not check

`userquery.lua` takes `next(result)`, `res[1]`, `result[4]` and `result[2]` of the replies as
they come.

* `ends_without_luaError`: the replies with which a request ends without an error of the Lua
  runtime, and without a write where its name has no row.
* `ends_without_luaError_fails`: a name without a row.
* `request_meets`: the requests of a run of the two servers meet such replies, and one without
  a write leaves the servers as they are.
-/

namespace RedisLuaLinux.Lua

open Library

/-- The replies to a request: the `n`-th one, for the command that is then issued. -/
abbrev Replies := Nat → (c : Command) → Reply c

def defaultReply : (c : Command) → Reply c
  | .hgetall _ => none
  | .hmset _ _ => false
  | .expire _ _ => false
  | .query _ => none
  | .osTime => (0 : Nat)

/-- A command that may change Redis or MySQL. -/
def Writes : Command → Prop
  | .hgetall _ => False
  | .hmset _ _ => True
  | .expire _ _ => True
  | .query sql => ∃ id, parseSql sql = some (.increment id)
  | .osTime => False

/-- The other commands change nothing. -/
theorem Store.serve_reads {s s' : Store} {c : Command} {answer : Answer} {r : Reply c} (hc : ¬ Writes c)
    (h : s.serve c answer = some (r, s')) : s' = s := by
  unfold Store.serve at h
  split at h
  · cases h
    rfl
  · cases h
    rfl
  · exact absurd trivial hc
  · cases h
    rfl
  · exact absurd trivial hc
  · cases h
    rfl
  · split at h
    · split at h
      · cases h
        rfl
      · cases h
    · cases h
  · split at h
    · rename_i id hparse
      exact absurd ⟨id, hparse⟩ hc
    · cases h
  · cases h
    rfl
  · cases h
    rfl
  · cases h

theorem select_reads (name : Text) : ¬ Writes (.query (selectText name)) := by
  rintro ⟨id, hparse⟩
  obtain ⟨literal, rest, -, heq⟩ := parse_selectText_cases hparse
  cases heq

/-- The second HGETALL returns a field. -/
def Refound : Option (List Text) → Prop
  | none => False
  | some result => 2 ≤ result.length

/-- The first HGETALL is answered. After an empty answer the SELECT fails, or the name has a row
and the SELECT returns one. After fields the name has a row, the fourth element, where there is one,
is a text that Lua converts to a number, and the second HGETALL returns a field. -/
def Answerable (lua : LuaNumbers) (t : StudentTable) (name : Text) (replies : Replies) : Prop :=
  match replies 0 (.hgetall name) with
  | none => False
  | some [] =>
    match replies 1 (.query (selectText name)) with
    | none => True
    | some (.rows (_ :: _)) => t.select name ≠ []
    | some _ => False
  | some result =>
    t.select name ≠ [] ∧ (∀ count ∈ result[3]?, (lua.addOne count).isSome) ∧
      Refound (replies 4 (.hgetall name))

/-- Counting ends the request with the answer to its UPDATE. -/
theorem raiseCount_meet (replies : Replies) (id : Text) (n : Nat) :
    ((raiseCount id).meet replies n).1 ≠ .luaError := by
  rw [raiseCount, Prog.meet_call]
  cases replies n (.query (updateText id)) with
  | none => nofun
  | some result => nofun

theorem fillCache_meet (name : Text) (replies : Replies) (row : Student) (n : Nat) :
    ((fillCache name row).meet replies n).1 ≠ .luaError ∧
      ∃ c ∈ ((fillCache name row).meet replies n).2, Writes c := by
  rw [fillCache, Prog.meet_call, fillExpire, Prog.meet_call]
  exact ⟨raiseCount_meet replies _ _, _, List.mem_cons_self, trivial⟩

theorem hitTime_meet (name : Text) (replies : Replies) (count : Text) :
    (∃ c ∈ ((hitTime name count).meet replies 1).2, Writes c) ∧
      (((hitTime name count).meet replies 1).1 ≠ .luaError ↔
        Refound (replies 4 (.hgetall name))) := by
  rw [hitTime, Prog.meet_call, hitWrite, Prog.meet_call, hitExpire, Prog.meet_call, hitReread,
    Prog.meet_call]
  refine ⟨⟨_, List.mem_cons_of_mem _ List.mem_cons_self, trivial⟩, ?_⟩
  cases replies 4 (.hgetall name) with
  | none => simp [Refound]
  | some result =>
    rcases result with _ | ⟨first, _ | ⟨id, more⟩⟩
    · simp [Refound]
    · simp [Refound]
    · simpa [Refound] using raiseCount_meet replies id 5

/-- Where a write is issued, "no write if `p`" says that `p` fails. -/
theorem writes_iff {p : Prop} {cs : List Command} (h : ∃ c ∈ cs, Writes c) :
    (p → ∀ c ∈ cs, ¬ Writes c) ↔ ¬ p := by
  obtain ⟨c, hc, hwrites⟩ := h
  exact ⟨fun hreads hp => hreads hp c hc hwrites, fun hp hp' => absurd hp' hp⟩

theorem handler_meet (lua : LuaNumbers) (t : StudentTable) (name : Text) (replies : Replies) :
    (((handler lua (some name)).meet replies 0).1 ≠ .luaError ∧
      (t.select name = [] → ∀ c ∈ ((handler lua (some name)).meet replies 0).2, ¬ Writes c)) ↔
    Answerable lua t name replies := by
  have hread : ¬ Writes (.hgetall name) := id
  have hselect := select_reads name
  rw [handler, Prog.meet_call]
  cases hfirst : replies 0 (.hgetall name) with
  | none => simp [Answerable, hfirst]
  | some result =>
    cases result with
    | nil =>
      cases hrows : replies 1 (.query (selectText name)) with
      | none => simp [Answerable, hfirst, hrows, missBranch, hread, hselect]
      | some result =>
        rcases result with (_ | ⟨row, more⟩) | _
        · simp [Answerable, hfirst, hrows, missBranch]
        · obtain ⟨hend, c, hc, hwrites⟩ := fillCache_meet name replies row 2
          rw [writes_iff ⟨c, List.mem_cons_of_mem _ (by simpa [missBranch, hrows] using Or.inr hc), hwrites⟩]
          simp [Answerable, hfirst, hrows, missBranch, hend]
        · simp [Answerable, hfirst, hrows, missBranch]
    | cons first rest =>
      have hnumber := lua.nextCount_isSome (first :: rest)
      cases hcount : lua.nextCount (first :: rest) with
      | none =>
        have hnone : ¬ Answerable lua t name replies := by
          intro hanswerable
          simp only [Answerable, hfirst] at hanswerable
          have hsome := hnumber.mpr hanswerable.2.1
          rw [hcount] at hsome
          cases hsome
        simp [hitBranch, hcount, hnone]
      | some count =>
        rw [hcount] at hnumber
        obtain ⟨⟨c, hc, hwrites⟩, hend⟩ := hitTime_meet name replies count
        rw [writes_iff ⟨c, List.mem_cons_of_mem _ (by simpa [hitBranch, hcount] using hc), hwrites⟩]
        simp only [hitBranch, hcount, Answerable, hfirst, ← hnumber, Option.isSome_some, true_and]
        rw [hend, and_comm]

/-- A request ends without an error of the runtime, and issues no write where no row has its
name, if and only if its replies are answerable. -/
theorem ends_without_luaError (lua : LuaNumbers) (t : StudentTable) (request : Option Text) (replies : Replies) :
    (((handler lua request).meet replies 0).1 ≠ .luaError ∧
      ∀ name, request = some name → t.select name = [] →
        ∀ c ∈ ((handler lua request).meet replies 0).2, ¬ Writes c) ↔
    ∀ name, request = some name → Answerable lua t name replies := by
  cases request with
  | none => simp [handler]
  | some name =>
    simp only [Option.some.injEq, forall_eq']
    exact handler_meet lua t name replies

/-- A name without a row: the SELECT returns no row, and the script indexes the first one. -/
theorem ends_without_luaError_fails :
    storeExample.students.select "carl".toList = [] ∧
    ((handler integersOnly (some "carl".toList)).exec Store.serve storeExample [.done, .rows []]).map Prod.fst =
      some .luaError :=
  ⟨by decide, by decide +kernel⟩

/-! ## Requests of a run -/

/-- A request that runs alone meets the replies of the two servers. If these are answerable and no
row has its name, it leaves the servers as they were. -/
theorem alone_meets {lua : LuaNumbers} {s : Store} {name : Text} {answers : List Answer} {out : Outcome × Store}
    (h : (handler lua (some name)).exec Store.serve s answers = some out) :
    ∃ replies, ((handler lua (some name)).meet replies 0).1 = out.1 ∧
      (Answerable lua s.students name replies → s.students.select name = [] → out.2 = s) := by
  obtain ⟨replies, hend, hkept⟩ := Prog.exec_meets (I := fun c => ¬ Writes c) defaultReply
    (fun _ _ _ _ _ hc hserve => Store.serve_reads hc hserve) h 0
  exact ⟨replies, hend, fun hanswerable hname =>
    hkept (((handler_meet _ _ _ _).mpr hanswerable).2 hname)⟩

/-- A request of a run that has ended meets the replies of its log, whatever the others did in
between. -/
theorem request_meets {lua : LuaNumbers} {s : Store} {es : List UserEvent} {p : UserPool} {t : Request} {o : Outcome}
    (h : Run (userquery lua).step AnyStep (idle s) es p) (ht : t ∈ p.threads) (hend : t.rest = .ret o) :
    ∃ replies : Replies, System.Gives replies t.log ∧
      (handler lua t.request).meet replies 0 = (o, t.log.reverse.map Sigma.fst) := by
  obtain ⟨replies, hgives⟩ := System.exists_gives defaultReply t.log
  have hstand : (handler lua t.request).meet replies 0 = _ := System.run_meets h t ht replies hgives
  rw [hend] at hstand
  exact ⟨replies, hgives, by simpa using hstand⟩

end RedisLuaLinux.Lua
