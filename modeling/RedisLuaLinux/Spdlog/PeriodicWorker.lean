import RedisLuaLinux.Library.Progress

/-!
# The periodic flusher

`periodic_worker`, and the calls of the registry that make and destroy one: `flush_every` and
`shutdown`. A step is what one thread does between two points at which another thread can come in.
Three mutexes are taken, in this order: `flusher_mutex_` for the whole of a call, the worker's own
mutex in the thread and in the destructor, and `logger_map_mutex_` in the callback, which is
`flush_all`.

* `call_returns`: a call returns without waiting for the interval to end, and leaves no thread behind.
-/

namespace RedisLuaLinux.Spdlog

open Library

/-- The thread of a worker: about to lock its mutex, waiting in `wait_for`, out of the wait but not yet
holding the mutex again, in the callback before or after it has locked `logger_map_mutex_`, or returned. -/
inductive WorkerThread
  | locking
  | asleep
  | awake (timedOut : Bool)
  | calling
  | flushing
  | ended
  deriving DecidableEq, Repr

inductive ThreadEvent
  | lock
  | timeout
  -- a wake-up without a notice
  | wake
  | flush
  | callback
  deriving DecidableEq, Repr

/-- The event is not the end of a wait. -/
def ThreadEvent.prompt : ThreadEvent → Bool
  | timeout => false
  | wake => false
  | _ => true

namespace WorkerThread

/-- The loop of the thread. Where the wait is over by the timeout, the predicate is asked once more. -/
def step (active mapFree : Bool) : WorkerThread → ThreadEvent → Option WorkerThread
  | locking, .lock => some (if active then asleep else ended)
  | asleep, .timeout => some (awake true)
  | asleep, .wake => some (awake false)
  | awake false, .lock => some (if active then asleep else ended)
  | awake true, .lock => some (if active then calling else ended)
  | calling, .flush => if mapFree then some flushing else none
  | flushing, .callback => some locking
  | _, _ => none

/-- The callback runs under the mutex of the worker. -/
def inCallback : WorkerThread → Bool
  | calling => true
  | flushing => true
  | _ => false

/-- How many steps the thread takes at most before it waits. -/
def work : WorkerThread → Nat
  | locking => 1
  | asleep => 0
  | awake false => 1
  | awake true => 4
  | calling => 3
  | flushing => 2
  | ended => 0

variable {active mapFree : Bool} {thread thread' : WorkerThread} {e : ThreadEvent}

/-- A thread ends only where it finds the worker no longer active. -/
theorem step_ne_ended (h : thread.step true mapFree e = some thread') : thread' ≠ .ended := by
  rintro rfl
  cases thread with
  | awake timedOut => cases timedOut <;> cases e <;> cases h
  | calling => cases e <;> cases mapFree <;> cases h
  | _ => cases e <;> cases h

/-- And then it neither waits again nor runs the callback. -/
theorem step_inactive (h : thread.step false mapFree e = some thread') (hcall : thread.inCallback = false) :
    thread'.inCallback = false ∧ (thread ≠ .asleep → thread' ≠ .asleep) := by
  cases thread with
  | locking =>
    cases e <;> cases h
    exact ⟨rfl, fun _ => WorkerThread.noConfusion⟩
  | asleep =>
    refine ⟨?_, fun hasleep => absurd rfl hasleep⟩
    cases e <;> cases h <;> rfl
  | awake timedOut =>
    cases timedOut <;> cases e <;> cases h
    · exact ⟨rfl, fun _ => WorkerThread.noConfusion⟩
    · exact ⟨rfl, fun _ => WorkerThread.noConfusion⟩
  | calling | flushing => cases hcall
  | ended => cases e <;> cases h

theorem step_ended (active mapFree : Bool) (e : ThreadEvent) : ended.step active mapFree e = none := by
  cases e <;> rfl

/-- Every step but the end of a wait takes away from the work. -/
theorem work_step (h : thread.step active mapFree e = some thread') (he : e.prompt = true) :
    thread'.work < thread.work := by
  cases thread with
  | locking =>
    cases e <;> cases h
    cases active <;> exact Nat.zero_lt_one
  | asleep =>
    cases e with
    | timeout | wake => cases he
    | lock | flush | callback => cases h
  | awake timedOut => cases timedOut <;> cases e <;> cases h <;> cases active <;> simp [work]
  | calling => cases e <;> cases mapFree <;> cases h; exact Nat.lt_succ_self 2
  | flushing => cases e <;> cases h; exact Nat.lt_succ_self 1
  | ended => cases e <;> cases h

end WorkerThread

structure PeriodicWorker where
  active : Bool
  -- none if no thread was started
  thread : Option WorkerThread
  deriving DecidableEq, Repr

namespace PeriodicWorker

/-- The constructor: without an interval there is no thread. -/
def new (interval : Int) : PeriodicWorker :=
  if 0 < interval then ⟨true, some .locking⟩ else ⟨false, none⟩

def step (mapFree : Bool) (w : PeriodicWorker) (e : ThreadEvent) : Option PeriodicWorker :=
  (w.thread.bind fun thread => thread.step w.active mapFree e).map fun thread => { w with thread := some thread }

/-- `cv_.notify_one()`. -/
def notifyOne (w : PeriodicWorker) : PeriodicWorker :=
  if w.thread = some .asleep then { w with thread := some (.awake false) } else w

def work (w : PeriodicWorker) : Nat := (w.thread.map WorkerThread.work).getD 0

variable {mapFree : Bool} {w w' : PeriodicWorker} {e : ThreadEvent}

theorem step_eq_some (h : w.step mapFree e = some w') :
    w'.active = w.active ∧ ∃ thread thread', w.thread = some thread ∧ w'.thread = some thread' ∧
      thread.step w.active mapFree e = some thread' := by
  obtain ⟨thread', hthread', rfl⟩ := Option.map_eq_some_iff.mp h
  obtain ⟨thread, hthread, hstep⟩ := Option.bind_eq_some_iff.mp hthread'
  exact ⟨rfl, thread, thread', hthread, rfl, hstep⟩

theorem work_step (h : w.step mapFree e = some w') (he : e.prompt = true) : w'.work < w.work := by
  obtain ⟨-, thread, thread', hthread, hthread', hstep⟩ := step_eq_some h
  rw [work, work, hthread, hthread']
  exact WorkerThread.work_step hstep he

/-- The thread runs until it is told to stop. -/
def Running (w : PeriodicWorker) : Prop := w.active = true ∧ ∃ thread, w.thread = some thread ∧ thread ≠ .ended

/-- The thread is told to stop, and is not in the callback. -/
def Leaving (w : PeriodicWorker) : Prop :=
  w.active = false ∧ ∃ thread, w.thread = some thread ∧ thread.inCallback = false

def Stopped (w : PeriodicWorker) : Prop := w.thread = none ∨ w.thread = some .ended

theorem new_running (interval : Int) : (new interval).thread = none ∨ (new interval).Running := by
  unfold new
  split
  · exact Or.inr ⟨rfl, .locking, rfl, WorkerThread.noConfusion⟩
  · exact Or.inl rfl

theorem Running.step (h : w.Running) (hstep : w.step mapFree e = some w') : w'.Running := by
  obtain ⟨hactive, thread, thread', -, hthread', hmove⟩ := step_eq_some hstep
  rw [h.1] at hmove hactive
  exact ⟨hactive, thread', hthread', WorkerThread.step_ne_ended hmove⟩

theorem Leaving.step (h : w.Leaving) (hstep : w.step mapFree e = some w') :
    w'.Leaving ∧ (w.thread ≠ some .asleep → w'.thread ≠ some .asleep) := by
  obtain ⟨hactive, thread, thread', hthread, hthread', hmove⟩ := step_eq_some hstep
  obtain ⟨hinactive, thread₀, hthread₀, hcall⟩ := h
  obtain rfl : thread = thread₀ := Option.some.inj (hthread.symm.trans hthread₀)
  rw [hinactive] at hmove hactive
  obtain ⟨hcall', hasleep⟩ := WorkerThread.step_inactive hmove hcall
  refine ⟨⟨hactive, thread', hthread', hcall'⟩, ?_⟩
  rw [hthread, hthread']
  simpa using hasleep

theorem Stopped.step (h : w.Stopped) : w.step mapFree e = none := by
  unfold PeriodicWorker.step
  rcases h with hnone | hended
  · rw [hnone]
    rfl
  · rw [hended, Option.bind_some, WorkerThread.step_ended]
    rfl

/-- The notice does not get lost: a thread that waits is woken, and another one asks the predicate again. -/
theorem Leaving.notifyOne (h : w.Leaving) : w.notifyOne.Leaving ∧ w.notifyOne.thread ≠ some .asleep := by
  unfold PeriodicWorker.notifyOne
  split
  · exact ⟨⟨h.1, .awake false, rfl, rfl⟩, by simp⟩
  · rename_i hasleep
    exact ⟨h, hasleep⟩

theorem work_notifyOne (w : PeriodicWorker) : w.notifyOne.work ≤ w.work + 1 := by
  unfold notifyOne
  split
  · exact Nat.le_add_left 1 w.work
  · exact Nat.le_succ w.work

end PeriodicWorker

/-- Where the destructor is: before `active_ = false`, before the notice, or before the join. -/
inductive Ending
  | clearing
  | notifying
  | joining
  deriving DecidableEq, Repr

def Ending.work : Ending → Nat
  | clearing => 4
  | notifying => 3
  | joining => 1

/-- What the destructor has brought about. -/
def Ending.Allows : Ending → PeriodicWorker → Prop
  | clearing, w => w.Running
  | notifying, w => w.Leaving
  | joining, w => w.Leaving ∧ w.thread ≠ some .asleep

theorem Ending.Allows.step {phase : Ending} {mapFree : Bool} {w w' : PeriodicWorker} {e : ThreadEvent}
    (h : phase.Allows w) (hstep : w.step mapFree e = some w') : phase.Allows w' := by
  cases phase with
  | clearing => exact PeriodicWorker.Running.step h hstep
  | notifying => exact (PeriodicWorker.Leaving.step h hstep).1
  | joining => exact ⟨(h.1.step hstep).1, (h.1.step hstep).2 h.2⟩

/-- The workers of the registry. -/
structure Flushers where
  periodicFlusher : Option PeriodicWorker := none
  -- the worker whose destructor runs, in a call that holds `flusher_mutex_`
  ending : Option (PeriodicWorker × Ending) := none
  -- the workers that are no more
  destroyed : List PeriodicWorker := []
  -- another function of the registry holds `logger_map_mutex_`
  busy : Bool := false
  deriving DecidableEq, Repr

/-- Whose thread takes a step. -/
inductive Place
  | current
  | ending
  | destroyed (k : Nat)
  deriving DecidableEq, Repr

inductive FlusherEvent
  | flushEvery (interval : Int)
  | shutdown
  | clear
  | notify
  | join
  | thread (place : Place) (e : ThreadEvent)
  | enter
  | leave
  deriving DecidableEq, Repr

namespace Flushers

def workers (s : Flushers) : List PeriodicWorker :=
  s.periodicFlusher.toList ++ s.ending.toList.map Prod.fst ++ s.destroyed

def mapFree (s : Flushers) : Bool := !s.busy && s.workers.all fun w => w.thread ≠ some .flushing

def worker? (s : Flushers) : Place → Option PeriodicWorker
  | .current => s.periodicFlusher
  | .ending => s.ending.map Prod.fst
  | .destroyed k => s.destroyed[k]?

def setWorker (s : Flushers) (w : PeriodicWorker) : Place → Flushers
  | .current => { s with periodicFlusher := some w }
  | .ending => { s with ending := s.ending.map fun old => (w, old.2) }
  | .destroyed k => { s with destroyed := s.destroyed.set k w }

/-- `periodic_flusher_` is given up: the destructor begins, or is over where there is no thread to join. -/
def retire (s : Flushers) : Flushers :=
  match s.periodicFlusher with
  | none => s
  | some w =>
    if w.thread.isSome then { s with periodicFlusher := none, ending := some (w, .clearing) }
    else { s with periodicFlusher := none, destroyed := w :: s.destroyed }

def step (s : Flushers) : FlusherEvent → Option Flushers
  | .flushEvery interval =>
    if s.ending.isSome then none else some { s.retire with periodicFlusher := some (.new interval) }
  | .shutdown => if s.ending.isSome then none else some s.retire
  | .clear =>
    match s.ending with
    | some (w, .clearing) =>
      if (w.thread.map WorkerThread.inCallback).getD false then none
      else some { s with ending := some ({ w with active := false }, .notifying) }
    | _ => none
  | .notify =>
    match s.ending with
    | some (w, .notifying) => some { s with ending := some (w.notifyOne, .joining) }
    | _ => none
  | .join =>
    match s.ending with
    | some (w, .joining) =>
      if w.thread = some .ended then some { s with ending := none, destroyed := w :: s.destroyed } else none
    | _ => none
  | .thread place e => ((s.worker? place).bind fun w => w.step s.mapFree e).map fun w => s.setWorker w place
  | .enter => if s.mapFree then some { s with busy := true } else none
  | .leave => if s.busy then some { s with busy := false } else none

variable {s s' : Flushers} {e : FlusherEvent} {es : List FlusherEvent}

/-- What a step can do. -/
inductive Move (s : Flushers) : FlusherEvent → Flushers → Prop
  | flushEvery (interval : Int) : s.ending = none →
      Move s (.flushEvery interval) { s.retire with periodicFlusher := some (.new interval) }
  | shutdown : s.ending = none → Move s .shutdown s.retire
  | clear {w : PeriodicWorker} : s.ending = some (w, .clearing) →
      (∀ thread, w.thread = some thread → thread.inCallback = false) →
      Move s .clear { s with ending := some ({ w with active := false }, .notifying) }
  | notify {w : PeriodicWorker} : s.ending = some (w, .notifying) →
      Move s .notify { s with ending := some (w.notifyOne, .joining) }
  | join {w : PeriodicWorker} : s.ending = some (w, .joining) → w.thread = some .ended →
      Move s .join { s with ending := none, destroyed := w :: s.destroyed }
  | thread {place : Place} {e : ThreadEvent} {w w' : PeriodicWorker} : s.worker? place = some w →
      w.step s.mapFree e = some w' → Move s (.thread place e) (s.setWorker w' place)
  | enter : s.mapFree = true → Move s .enter { s with busy := true }
  | leave : s.busy = true → Move s .leave { s with busy := false }

theorem move_of_step (h : s.step e = some s') : Move s e s' := by
  cases e with
  | flushEvery interval =>
    obtain ⟨hfree, hnew⟩ := Option.ite_none_left_eq_some.mp h
    obtain rfl := Option.some.inj hnew
    exact .flushEvery interval (Option.not_isSome_iff_eq_none.mp hfree)
  | shutdown =>
    obtain ⟨hfree, hnew⟩ := Option.ite_none_left_eq_some.mp h
    obtain rfl := Option.some.inj hnew
    exact .shutdown (Option.not_isSome_iff_eq_none.mp hfree)
  | clear =>
    simp only [step] at h
    split at h
    · rename_i w hw
      obtain ⟨hcall, hnew⟩ := Option.ite_none_left_eq_some.mp h
      obtain rfl := Option.some.inj hnew
      refine .clear hw ?_
      intro thread hthread
      rw [hthread] at hcall
      exact Bool.eq_false_iff.mpr hcall
    · cases h
  | notify =>
    simp only [step] at h
    split at h
    · rename_i w hw
      obtain rfl := Option.some.inj h
      exact .notify hw
    · cases h
  | join =>
    simp only [step] at h
    split at h
    · rename_i w hw
      obtain ⟨hended, hnew⟩ := Option.ite_none_right_eq_some.mp h
      obtain rfl := Option.some.inj hnew
      exact .join hw hended
    · cases h
  | thread place event =>
    obtain ⟨w', hw', rfl⟩ := Option.map_eq_some_iff.mp h
    obtain ⟨w, hw, hmove⟩ := Option.bind_eq_some_iff.mp hw'
    exact .thread hw hmove
  | enter =>
    obtain ⟨hfree, hnew⟩ := Option.ite_none_right_eq_some.mp h
    obtain rfl := Option.some.inj hnew
    exact .enter hfree
  | leave =>
    obtain ⟨hbusy, hnew⟩ := Option.ite_none_right_eq_some.mp h
    obtain rfl := Option.some.inj hnew
    exact .leave hbusy

/-! ## The threads -/

/-- The current worker runs or has no thread, and the thread of a destroyed one has ended. -/
structure Sound (s : Flushers) : Prop where
  current : ∀ w, s.periodicFlusher = some w → w.thread = none ∨ w.Running
  ending : ∀ w phase, s.ending = some (w, phase) → phase.Allows w
  destroyed : ∀ w ∈ s.destroyed, w.Stopped

theorem Sound.retire (h : Sound s) : Sound s.retire := by
  unfold Flushers.retire
  split
  · exact h
  · rename_i w hw
    split
    · rename_i hthread
      refine ⟨nofun, ?_, h.destroyed⟩
      intro w' phase hending
      cases hending
      refine (h.current w hw).resolve_left ?_
      intro hnone
      rw [hnone] at hthread
      cases hthread
    · rename_i hthread
      refine ⟨nofun, h.ending, ?_⟩
      intro w' hw'
      rcases List.mem_cons.mp hw' with rfl | hold
      · exact Or.inl (Option.not_isSome_iff_eq_none.mp hthread)
      · exact h.destroyed w' hold

theorem Sound.thread {place : Place} {event : ThreadEvent} {w w' : PeriodicWorker} (h : Sound s)
    (hw : s.worker? place = some w) (hstep : w.step s.mapFree event = some w') : Sound (s.setWorker w' place) := by
  cases place with
  | current =>
    refine ⟨?_, h.ending, h.destroyed⟩
    intro w'' hw''
    cases hw''
    rcases h.current w hw with hnone | hrunning
    · rw [PeriodicWorker.Stopped.step (Or.inl hnone)] at hstep
      cases hstep
    · exact Or.inr (hrunning.step hstep)
  | ending =>
    refine ⟨h.current, ?_, h.destroyed⟩
    intro w'' phase hending
    obtain ⟨⟨old, phase'⟩, hold, heq⟩ := Option.map_eq_some_iff.mp hending
    cases heq
    obtain rfl : old = w := by
      unfold worker? at hw
      rw [hold] at hw
      exact Option.some.inj hw
    exact (h.ending old phase' hold).step hstep
  | destroyed k =>
    have hstopped := h.destroyed w (List.mem_of_getElem? hw)
    rw [hstopped.step] at hstep
    cases hstep

theorem sound_move (h : Sound s) (hm : Move s e s') : Sound s' := by
  cases hm with
  | flushEvery interval =>
    refine ⟨?_, h.retire.ending, h.retire.destroyed⟩
    intro w hw
    cases hw
    exact PeriodicWorker.new_running interval
  | shutdown => exact h.retire
  | @clear w hw hcall =>
    refine ⟨h.current, ?_, h.destroyed⟩
    intro w' phase hending
    cases hending
    obtain ⟨-, thread, hthread, -⟩ := h.ending w .clearing hw
    exact ⟨rfl, thread, hthread, hcall thread hthread⟩
  | @notify w hw =>
    refine ⟨h.current, ?_, h.destroyed⟩
    intro w' phase hending
    cases hending
    exact PeriodicWorker.Leaving.notifyOne (h.ending w .notifying hw)
  | @join w hw hended =>
    refine ⟨h.current, nofun, ?_⟩
    intro w' hw'
    rcases List.mem_cons.mp hw' with rfl | hold
    · exact Or.inr hended
    · exact h.destroyed w' hold
  | thread hw hmove => exact h.thread hw hmove
  | enter | leave => exact ⟨h.current, h.ending, h.destroyed⟩

theorem sound_of_run (h : Run step AnyStep {} es s) : Sound s := by
  apply h.invariant
  · exact ⟨nofun, nofun, nofun⟩
  · exact fun s e s' hs _ hstep => sound_move hs (move_of_step hstep)

/-! ## The end of a call -/

/-- The event is neither a new call nor the end of a wait. -/
def prompt : FlusherEvent → Bool
  | .flushEvery _ => false
  | .shutdown => false
  | .enter => false
  | .thread _ e => e.prompt
  | _ => true

def Prompt (_ : Flushers) (e : FlusherEvent) : Prop := prompt e = true

instance (s : Flushers) (e : FlusherEvent) : Decidable (Prompt s e) := inferInstanceAs (Decidable (prompt e = true))

/-- A bound on the steps without new calls and the ends of waits. -/
def work (s : Flushers) : Nat :=
  (s.workers.map PeriodicWorker.work).sum + (s.ending.map fun ending => ending.2.work).getD 0 + s.busy.toNat

theorem work_setWorker {place : Place} {w w' : PeriodicWorker} (hw : s.worker? place = some w) :
    (s.setWorker w' place).work + w.work = s.work + w'.work := by
  cases place with
  | current =>
    have hcurrent : s.periodicFlusher = some w := hw
    simp only [work, workers, setWorker, hcurrent, Option.toList_some, List.map_append, List.sum_append,
      List.map_cons, List.map_nil, List.sum_cons, List.sum_nil]
    omega
  | ending =>
    obtain ⟨⟨old, phase⟩, hold, rfl⟩ := Option.map_eq_some_iff.mp hw
    simp only [work, workers, setWorker, hold, Option.map_some, Option.toList_some, List.map_append, List.sum_append,
      List.map_cons, List.map_nil, List.sum_cons, List.sum_nil]
    omega
  | destroyed k =>
    have hset := sum_map_set PeriodicWorker.work hw w'
    simp only [work, workers, setWorker, List.map_append, List.sum_append]
    omega

/-- The work in the course of a destructor. -/
theorem work_of_ending {w : PeriodicWorker} {phase : Ending} (h : s.ending = some (w, phase)) :
    s.work = (s.periodicFlusher.toList.map PeriodicWorker.work).sum + w.work +
      (s.destroyed.map PeriodicWorker.work).sum + phase.work + s.busy.toNat := by
  simp only [work, workers, h, Option.toList_some, List.map_append, List.sum_append, List.map_cons, List.map_nil,
    List.sum_cons, List.sum_nil, Nat.add_zero, Option.map_some, Option.getD_some]

theorem work_move (hm : Move s e s') (he : prompt e = true) : s'.work < s.work := by
  cases hm with
  | flushEvery | shutdown | enter => cases he
  | @clear w hw =>
    have hsame : ({ w with active := false } : PeriodicWorker).work = w.work := rfl
    rw [work_of_ending hw, work_of_ending rfl, hsame]
    simp only [Ending.work]
    omega
  | @notify w hw =>
    have hnotice := w.work_notifyOne
    rw [work_of_ending hw, work_of_ending rfl]
    simp only [Ending.work]
    omega
  | @join w hw =>
    rw [work_of_ending hw]
    simp only [work, workers, Option.toList_none, List.map_nil, List.append_nil, List.map_append, List.sum_append,
      List.map_cons, List.sum_cons, Option.map_none, Option.getD_none, Ending.work]
    omega
  | @thread place event w w' hw hmove =>
    have hless := PeriodicWorker.work_step hmove he
    have hset : (s.setWorker w' place).work + w.work = s.work + w'.work := work_setWorker hw
    omega
  | leave hbusy =>
    simp only [work, workers, hbusy, Bool.toNat_true, Bool.toNat_false]
    omega

theorem step_thread {place : Place} {event : ThreadEvent} {w : PeriodicWorker} {thread thread' : WorkerThread}
    (hw : s.worker? place = some w) (hthread : w.thread = some thread)
    (hstep : thread.step w.active s.mapFree event = some thread') :
    s.step (.thread place event) = some (s.setWorker { w with thread := some thread' } place) := by
  simp only [step, hw, Option.bind_some, PeriodicWorker.step, hthread, hstep, Option.map_some]

theorem step_clear {w : PeriodicWorker} {thread : WorkerThread} (hending : s.ending = some (w, .clearing))
    (hthread : w.thread = some thread) (hcall : thread.inCallback = false) :
    s.step .clear = some { s with ending := some ({ w with active := false }, .notifying) } := by
  simp only [step, hending, hthread, Option.map_some, Option.getD_some, hcall, Bool.false_eq_true, if_false]

theorem step_notify {w : PeriodicWorker} (hending : s.ending = some (w, .notifying)) :
    s.step .notify = some { s with ending := some (w.notifyOne, .joining) } := by
  simp only [step, hending]

theorem step_join {w : PeriodicWorker} (hending : s.ending = some (w, .joining)) (hthread : w.thread = some .ended) :
    s.step .join = some { s with ending := none, destroyed := w :: s.destroyed } := by
  simp only [step, hending, hthread, if_true]

/-- Whoever holds `logger_map_mutex_` gives it back. -/
theorem exists_release (hheld : s.mapFree = false) : ∃ e s', prompt e = true ∧ s.step e = some s' := by
  by_cases hbusy : s.busy = true
  · exact ⟨.leave, { s with busy := false }, rfl, if_pos hbusy⟩
  · have hsome : ∃ w ∈ s.workers, w.thread = some .flushing := by
      simpa [mapFree, hbusy] using hheld
    obtain ⟨w, hw, hthread⟩ := hsome
    obtain ⟨place, hplace⟩ : ∃ place, s.worker? place = some w := by
      rcases List.mem_append.mp hw with hfirst | hdestroyed
      · rcases List.mem_append.mp hfirst with hcurrent | hending
        · exact ⟨.current, Option.mem_toList.mp hcurrent⟩
        · rw [← Option.toList_map] at hending
          exact ⟨.ending, Option.mem_toList.mp hending⟩
      · obtain ⟨k, hk⟩ := List.mem_iff_getElem?.mp hdestroyed
        exact ⟨.destroyed k, hk⟩
    exact ⟨.thread place .callback, _, rfl, step_thread hplace hthread rfl⟩

/-- In a call there is always a step to take. -/
theorem exists_step (h : Sound s) {w : PeriodicWorker} {phase : Ending} (hending : s.ending = some (w, phase)) :
    ∃ e s', prompt e = true ∧ s.step e = some s' := by
  have hplace : s.worker? .ending = some w := congrArg (Option.map Prod.fst) hending
  have hallows := h.ending w phase hending
  cases phase with
  | clearing =>
    obtain ⟨-, thread, hthread, -⟩ := hallows
    cases thread with
    | calling =>
      cases hmap : s.mapFree with
      | false => exact exists_release hmap
      | true =>
        have hflush : WorkerThread.calling.step w.active s.mapFree .flush = some .flushing := if_pos hmap
        exact ⟨.thread .ending .flush, _, rfl, step_thread hplace hthread hflush⟩
    | flushing => exact ⟨.thread .ending .callback, _, rfl, step_thread hplace hthread rfl⟩
    | locking | asleep | awake | ended => exact ⟨.clear, _, rfl, step_clear hending hthread rfl⟩
  | notifying => exact ⟨.notify, _, rfl, step_notify hending⟩
  | joining =>
    obtain ⟨⟨-, thread, hthread, hcall⟩, hasleep⟩ := hallows
    cases thread with
    | locking => exact ⟨.thread .ending .lock, _, rfl, step_thread hplace hthread rfl⟩
    | asleep => exact absurd hthread hasleep
    | awake timedOut =>
      cases timedOut with
      | false => exact ⟨.thread .ending .lock, _, rfl, step_thread hplace hthread rfl⟩
      | true => exact ⟨.thread .ending .lock, _, rfl, step_thread hplace hthread rfl⟩
    | calling | flushing => cases hcall
    | ended => exact ⟨.join, _, rfl, step_join hending hthread⟩

/-- A call of `flush_every` or of `shutdown` neither runs forever nor gets stuck, although no interval ends and no
thread wakes up without a notice. When it returns, the threads of the workers before have ended, and at no time
is a thread in the callback once the destructor has told it to stop. -/
theorem call_returns (h : Run step AnyStep {} es s) {es' : List FlusherEvent} (h' : Run step Prompt s es' s') :
    es'.length ≤ s.work ∧ (s'.ending = none ∨ ∃ e s'', prompt e = true ∧ s'.step e = some s'') ∧
    (∀ w ∈ s'.destroyed, w.thread = none ∨ w.thread = some .ended) ∧
    ∀ w phase thread, s'.ending = some (w, phase) → phase ≠ .clearing → w.thread = some thread →
      thread.inCallback = false := by
  have hwork := h'.length_le (I := fun _ => True) (m := work)
    (fun s e s' _ hprompt hstep => ⟨trivial, work_move (move_of_step hstep) hprompt⟩) trivial
  have hsound := sound_of_run (h.trans h'.anyStep)
  refine ⟨by omega, ?_, hsound.destroyed, ?_⟩
  · cases hending : s'.ending with
    | none => exact Or.inl rfl
    | some ending => exact Or.inr (exists_step hsound hending)
  · intro w phase thread hending hphase hthread
    have hleaving : w.Leaving := by
      have hallows := hsound.ending w phase hending
      cases phase with
      | clearing => exact absurd rfl hphase
      | notifying => exact hallows
      | joining => exact hallows.1
    obtain ⟨-, thread', hthread', hcall⟩ := hleaving
    obtain rfl : thread = thread' := Option.some.inj (hthread.symm.trans hthread')
    exact hcall

/-- The thread waits for the end of the interval when the registry shuts down. -/
theorem call_returns_of_sleeping_thread :
    4 ≤ ({ ending := some (⟨true, some .asleep⟩, .clearing) } : Flushers).work := by
  have hbefore : Run step AnyStep {} [.flushEvery 5, .thread .current .lock, .shutdown]
      { ending := some (⟨true, some .asleep⟩, .clearing) } := Run.of_replay rfl
  have hafter : Run step Prompt { ending := some (⟨true, some .asleep⟩, .clearing) }
      [.clear, .notify, .thread .ending .lock, .join] { destroyed := [⟨false, some .ended⟩] } :=
    Run.of_replay_guarded rfl
  exact (call_returns hbefore hafter).1

end Flushers

end RedisLuaLinux.Spdlog
