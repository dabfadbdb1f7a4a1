import RedisLuaLinux.Library.Run
import Mathlib.Data.List.Basic

/-!
# Requests that share a server

A request is a program that issues commands one at a time and goes on with the reply
(`Prog`). A `System` runs any number of requests against one shared state: an event lets
the environment act, starts a request, or serves the next command of one request, so that
the commands of different requests interleave freely.

* `System.step_cases`: what one event does to the shared state and to the threads.
* `Prog.exec`: a program that runs alone; `System.run_of_exec`: a thread that is served so
  without interruption takes the same steps.
* `Prog.meet`: a program that meets given replies; `System.run_meets`: so does every thread of
  every run.
-/

namespace RedisLuaLinux.Library

variable {C : Type} {R : C → Type} {α ι σ ω ε : Type}

/-- A program that issues commands of `C`; the reply to `c` has type `R c`. -/
inductive Prog (C : Type) (R : C → Type) (α : Type)
  | ret (a : α)
  | call (c : C) (next : R c → Prog C R α)

namespace Prog

def outcome : Prog C R α → Option α
  | ret a => some a
  | call _ _ => none

/-- The command that the program issues next. -/
def command : Prog C R α → Option C
  | ret _ => none
  | call c _ => some c

/-- The program runs alone to its end and uses up the answers. -/
def exec (serve : σ → (c : C) → ω → Option (R c × σ)) : Prog C R α → σ → List ω → Option (α × σ)
  | ret a, s, [] => some (a, s)
  | ret _, _, _ :: _ => none
  | call _ _, _, [] => none
  | call c next, s, answer :: answers =>
    (serve s c answer).bind fun reply => (next reply.1).exec serve reply.2 answers

variable {serve : σ → (c : C) → ω → Option (R c × σ)} {s : σ} {answers : List ω} {out : α × σ}

theorem exec_ret {a : α} (h : (ret a : Prog C R α).exec serve s answers = some out) :
    answers = [] ∧ out = (a, s) := by
  cases answers with
  | nil => exact ⟨rfl, (Option.some.inj h).symm⟩
  | cons answer answers => cases h

theorem exec_call {c : C} {next : R c → Prog C R α}
    (h : (call c next).exec serve s answers = some out) :
    ∃ answer rest r s', answers = answer :: rest ∧ serve s c answer = some (r, s') ∧
      (next r).exec serve s' rest = some out := by
  cases answers with
  | nil => cases h
  | cons answer rest =>
    obtain ⟨⟨r, s'⟩, hserve, hrest⟩ := Option.bind_eq_some_iff.mp h
    exact ⟨answer, rest, r, s', rfl, hserve, hrest⟩

/-- The program meets given replies, where the next command is the `n`-th: its end, and the
commands it issues. -/
def meet (replies : Nat → (c : C) → R c) : Prog C R α → Nat → α × List C
  | ret a, _ => (a, [])
  | call c next, n =>
    let rest := (next (replies n c)).meet replies (n + 1)
    (rest.1, c :: rest.2)

@[simp]
theorem meet_ret (replies : Nat → (c : C) → R c) (a : α) (n : Nat) :
    (ret a : Prog C R α).meet replies n = (a, []) := rfl

@[simp]
theorem meet_call (replies : Nat → (c : C) → R c) (c : C) (next : R c → Prog C R α) (n : Nat) :
    (call c next).meet replies n =
      (((next (replies n c)).meet replies (n + 1)).1, c :: ((next (replies n c)).meet replies (n + 1)).2) :=
  rfl

/-- Only the replies to come count. -/
theorem meet_congr {replies replies' : Nat → (c : C) → R c} {p : Prog C R α} {n : Nat}
    (hsame : ∀ m, n ≤ m → replies' m = replies m) : p.meet replies' n = p.meet replies n := by
  induction p generalizing n with
  | ret a => rfl
  | call c next ih =>
    rw [meet_call, meet_call, hsame n (Nat.le_refl n), ih _ fun m hm => hsame m (Nat.le_of_succ_le hm)]

/-- A program that runs alone meets the replies it gets. If its commands are all in `I`, which
change nothing, it leaves the state as it was. -/
theorem exec_meets [DecidableEq C] (default : (c : C) → R c) {I : C → Prop} {p : Prog C R α}
    (hreads : ∀ s c answer r s', I c → serve s c answer = some (r, s') → s' = s)
    (h : p.exec serve s answers = some out) (n : Nat) :
    ∃ replies, (p.meet replies n).1 = out.1 ∧ ((∀ c ∈ (p.meet replies n).2, I c) → out.2 = s) := by
  induction p generalizing s answers n with
  | ret a =>
    obtain ⟨rfl, rfl⟩ := exec_ret h
    exact ⟨fun _ => default, rfl, fun _ => rfl⟩
  | call c next ih =>
    obtain ⟨answer, rest, r, mid, rfl, hserve, hrest⟩ := exec_call h
    obtain ⟨later, hend, hkept⟩ := ih r hrest (n + 1)
    have hmeet : (call c next).meet (Function.update later n (Function.update (later n) c r)) n =
        (((next r).meet later (n + 1)).1, c :: ((next r).meet later (n + 1)).2) := by
      rw [meet_call, Function.update_self, Function.update_self,
        meet_congr fun m hm => Function.update_of_ne (Nat.ne_of_gt hm) _ later]
    refine ⟨_, by rw [hmeet, hend], fun hall => ?_⟩
    rw [hmeet] at hall
    rw [hkept fun c' hc' => hall c' (List.mem_cons_of_mem c hc')]
    exact hreads s c answer r mid (hall c List.mem_cons_self) hserve

end Prog

/-- A request in progress. `log` holds the commands served so far with their replies, the
last one first; the program does not see it. -/
structure Thread (C : Type) (R : C → Type) (α ι : Type) where
  request : ι
  log : List ((c : C) × R c)
  rest : Prog C R α

structure Pool (C : Type) (R : C → Type) (α ι σ : Type) where
  shared : σ
  threads : List (Thread C R α ι)

namespace Pool

variable {p : Pool C R α ι σ} {before after : List (Thread C R α ι)} {t t' u : Thread C R α ι}

theorem mem_served (hthreads : p.threads = before ++ t :: after) : t ∈ p.threads := by
  rw [hthreads]
  exact List.mem_append_right before List.mem_cons_self

/-- The threads after one of them is served. -/
theorem mem_replaced (hthreads : p.threads = before ++ t :: after) (hu : u ∈ before ++ t' :: after) :
    u = t' ∨ u ∈ p.threads := by
  rw [hthreads, List.mem_append, List.mem_cons]
  rcases List.mem_append.mp hu with hu | hu
  · exact Or.inr (Or.inl hu)
  · rcases List.mem_cons.mp hu with hu | hu
    · exact Or.inl hu
    · exact Or.inr (Or.inr (Or.inr hu))

end Pool

inductive PoolEvent (ι ω ε : Type)
  | env (e : ε)
  | spawn (request : ι)
  | advance (i : Nat) (answer : ω)
  deriving DecidableEq, Repr

/-- `serve` is partial: `none` means that the server cannot answer so in that state. -/
structure System (C : Type) (R : C → Type) (α ι σ ω ε : Type) where
  body : ι → Prog C R α
  serve : σ → (c : C) → ω → Option (R c × σ)
  env : σ → ε → Option σ

def Thread.reply {c : C} (t : Thread C R α ι) (next : R c → Prog C R α) (r : R c) :
    Thread C R α ι :=
  ⟨t.request, ⟨c, r⟩ :: t.log, next r⟩

namespace System

variable (sys : System C R α ι σ ω ε)

def start (request : ι) : Thread C R α ι := ⟨request, [], sys.body request⟩

def step (p : Pool C R α ι σ) : PoolEvent ι ω ε → Option (Pool C R α ι σ)
  | .env e => (sys.env p.shared e).map fun s => { p with shared := s }
  | .spawn request => some { p with threads := p.threads ++ [sys.start request] }
  | .advance i answer => do
    let t ← p.threads[i]?
    match t.rest with
    | .ret _ => none
    | .call c next =>
      let (r, s) ← sys.serve p.shared c answer
      some ⟨s, p.threads.set i (t.reply next r)⟩

/-- No request in progress. -/
def Quiet (p : Pool C R α ι σ) : Prop := ∀ t ∈ p.threads, t.rest.outcome.isSome

variable {sys}

/-- What one event does. -/
theorem step_cases {p p' : Pool C R α ι σ} {e : PoolEvent ι ω ε} (h : sys.step p e = some p') :
    (∃ e' s, e = .env e' ∧ sys.env p.shared e' = some s ∧ p' = { p with shared := s }) ∨
    (∃ request, e = .spawn request ∧ p' = { p with threads := p.threads ++ [sys.start request] }) ∨
    ∃ before t after answer c next r s, e = .advance before.length answer ∧
      p.threads = before ++ t :: after ∧ t.rest = .call c next ∧
      sys.serve p.shared c answer = some (r, s) ∧
      p' = ⟨s, before ++ t.reply next r :: after⟩ := by
  cases e with
  | env e' =>
    obtain ⟨s, hs, rfl⟩ := Option.map_eq_some_iff.mp h
    exact Or.inl ⟨e', s, rfl, hs, rfl⟩
  | spawn request => exact Or.inr (Or.inl ⟨request, rfl, (Option.some.inj h).symm⟩)
  | advance i answer =>
    obtain ⟨t, ht, h⟩ := Option.bind_eq_some_iff.mp h
    split at h
    · cases h
    · rename_i c next hrest
      obtain ⟨⟨r, s⟩, hserve, h⟩ := Option.bind_eq_some_iff.mp h
      obtain ⟨hi, rfl⟩ := List.getElem?_eq_some_iff.mp ht
      have hlen : (p.threads.take i).length = i := List.length_take_of_le (Nat.le_of_lt hi)
      refine Or.inr (Or.inr ⟨p.threads.take i, p.threads[i], p.threads.drop (i + 1), answer, c, next,
        r, s, by rw [hlen], ?_, hrest, hserve, ?_⟩)
      · rw [List.getElem_cons_drop, List.take_append_drop]
      · rw [← Option.some.inj h, List.set_eq_take_append_cons_drop, if_pos hi]

/-- A program that runs alone is the last thread, served without interruption. -/
theorem run_of_exec {Admits : Pool C R α ι σ → PoolEvent ι ω ε → Prop} {s s' : σ}
    {ts : List (Thread C R α ι)} {t : Thread C R α ι} {a : α} {answers : List ω}
    (hadmits : ∀ answer ∈ answers, ∀ p, Admits p (.advance ts.length answer))
    (h : t.rest.exec sys.serve s answers = some (a, s')) :
    ∃ t', t'.request = t.request ∧ t'.rest = .ret a ∧
      Run sys.step Admits ⟨s, ts ++ [t]⟩ (answers.map (.advance ts.length)) ⟨s', ts ++ [t']⟩ := by
  obtain ⟨request, log, rest⟩ := t
  induction rest generalizing s log answers with
  | ret b =>
    obtain ⟨rfl, heq⟩ := Prog.exec_ret h
    cases heq
    exact ⟨_, rfl, rfl, .nil⟩
  | call c next ih =>
    obtain ⟨answer, answers, r, mid, rfl, hserve, hrest⟩ := Prog.exec_call h
    obtain ⟨t', hrequest, hret, hrun⟩ := ih r
      (fun answer' h' => hadmits answer' (List.mem_cons_of_mem _ h')) (⟨c, r⟩ :: log) hrest
    have hfirst : Run sys.step Admits ⟨s, ts ++ [⟨request, log, .call c next⟩]⟩ [.advance ts.length answer]
        ⟨mid, ts ++ [⟨request, ⟨c, r⟩ :: log, next r⟩]⟩ := by
      refine .snoc .nil (hadmits answer List.mem_cons_self _) ?_
      simp [step, hserve, Thread.reply]
    exact ⟨t', hrequest, hret, Run.trans hfirst hrun⟩

/-- `replies` gives the replies of a log, whose last entry comes first. -/
def Gives (replies : Nat → (c : C) → R c) : List ((c : C) × R c) → Prop
  | [] => True
  | ⟨c, r⟩ :: log => replies log.length c = r ∧ Gives replies log

theorem Gives.congr {replies replies' : Nat → (c : C) → R c} {log : List ((c : C) × R c)}
    (h : Gives replies log) (hsame : ∀ m < log.length, replies' m = replies m) : Gives replies' log := by
  induction log with
  | nil => trivial
  | cons entry log ih =>
    obtain ⟨hentry, hlog⟩ := h
    refine ⟨?_, ih hlog fun m hm => hsame m (Nat.lt_succ_of_lt hm)⟩
    rw [hsame log.length (Nat.lt_succ_self _)]
    exact hentry

/-- Every log is given by some replies. -/
theorem exists_gives [DecidableEq C] (default : (c : C) → R c) (log : List ((c : C) × R c)) :
    ∃ replies, Gives replies log := by
  induction log with
  | nil => exact ⟨fun _ => default, trivial⟩
  | cons entry log ih =>
    obtain ⟨replies, hlog⟩ := ih
    refine ⟨Function.update replies log.length (Function.update default entry.1 entry.2), ?_, ?_⟩
    · rw [Function.update_self, Function.update_self]
    · exact hlog.congr fun m hm => Function.update_of_ne (Nat.ne_of_lt hm) _ _

/-- What has been served of a thread, and what is left: with the replies of its log its program
comes to where it stands. -/
def Stands (sys : System C R α ι σ ω ε) (t : Thread C R α ι) : Prop :=
  ∀ replies, Gives replies t.log → (sys.body t.request).meet replies 0 =
    ((t.rest.meet replies t.log.length).1,
      t.log.reverse.map Sigma.fst ++ (t.rest.meet replies t.log.length).2)

theorem Stands.reply {t : Thread C R α ι} {c : C} {next : R c → Prog C R α} (ht : Stands sys t)
    (hrest : t.rest = .call c next) (r : R c) : Stands sys (t.reply next r) := by
  rintro replies ⟨hr, hlog⟩
  have hstand := ht replies hlog
  rw [hrest, Prog.meet_call, hr] at hstand
  simpa [Thread.reply] using hstand

/-- Every thread of every run stands where the replies of its log have brought it. -/
theorem run_meets {Admits : Pool C R α ι σ → PoolEvent ι ω ε → Prop} {s : σ} {p : Pool C R α ι σ}
    {es : List (PoolEvent ι ω ε)} (h : Run sys.step Admits ⟨s, []⟩ es p) :
    ∀ t ∈ p.threads, Stands sys t := by
  refine h.invariant (I := fun p => ∀ t ∈ p.threads, Stands sys t)
    (fun t ht => absurd ht List.not_mem_nil) fun p e p' hp _ hs u hu => ?_
  rcases step_cases hs with ⟨e', s, rfl, -, rfl⟩ | ⟨request, rfl, rfl⟩ |
      ⟨before, t, after, answer, c, next, r, s, rfl, hthreads, hrest, -, rfl⟩
  · exact hp u hu
  · rcases List.mem_append.mp hu with hu | hu
    · exact hp u hu
    · rw [List.mem_singleton.mp hu]
      intro replies _
      simp [start]
  · rcases Pool.mem_replaced hthreads hu with rfl | hu
    · exact (hp t (Pool.mem_served hthreads)).reply hrest r
    · exact hp u hu

/-- The requests that the events start, in order. -/
def requests (es : List (PoolEvent ι ω ε)) : List ι :=
  es.filterMap fun
    | .spawn request => some request
    | _ => none

theorem requests_append (es es' : List (PoolEvent ι ω ε)) :
    requests (es ++ es') = requests es ++ requests es' := List.filterMap_append

/-- Serving commands starts no request. -/
theorem requests_advance (i : Nat) (answers : List ω) :
    requests (answers.map (.advance i) : List (PoolEvent ι ω ε)) = [] := by
  rw [requests, List.filterMap_map]
  exact List.filterMap_eq_nil_iff.mpr fun _ _ => rfl

/-- Threads are never removed. -/
theorem run_requests {Admits : Pool C R α ι σ → PoolEvent ι ω ε → Prop} {start p : Pool C R α ι σ}
    {es : List (PoolEvent ι ω ε)} (h : Run sys.step Admits start es p) :
    p.threads.map Thread.request = start.threads.map Thread.request ++ requests es := by
  induction h with
  | nil => simp [requests]
  | snoc hrun _ hs ih =>
    rcases step_cases hs with ⟨e', s, rfl, -, rfl⟩ | ⟨request, rfl, rfl⟩ |
        ⟨before, t, after, answer, c, next, r, s, rfl, hthreads, -, -, rfl⟩
    · simpa [requests] using ih
    · rw [requests_append, List.map_append, ih, List.append_assoc]
      rfl
    · rw [hthreads] at ih
      simpa [requests, Thread.reply] using ih

end System

end RedisLuaLinux.Library
