import RedisLuaLinux.Library.Progress
import RedisLuaLinux.Spdlog.PoolEnding

/-!
# No lost wake-ups

One notice is given for each item, to one thread. `NoLostWakeup` says why that is enough: where a
producer waits, as many threads are on their way to the room that there is, and where a worker waits,
as many are on their way to the items.

* `pool_drains`: without new messages the pool handles all that it has, and no producer waits forever.
* `destructor_returns`: the destructor returns.

Neither needs a spurious wake-up or a timeout of `dequeue_for`.
-/

namespace RedisLuaLinux.Spdlog

open Library

def Worker.isNotifying : Worker → Bool
  | notifying _ => true
  | _ => false

/-- How many steps a worker takes at most before it waits. -/
def Worker.work : Worker → Nat
  | locking => 1
  | asleep => 0
  | notifying _ => 4
  | handling _ => 2
  | ended => 0

def Shutdown.work : Shutdown → Nat
  | running => 0
  | posting left => 8 * left + 1
  | joined => 0

/-- A wait ends without a notice. -/
def PoolEvent.spurious : PoolEvent → Bool
  | wakeProducer _ => true
  | wakeWorker _ => true
  | _ => false

/-- What the pool does by itself. -/
def PoolEvent.internal : PoolEvent → Bool
  | lock _ => true
  | notifyWorker _ => true
  | dequeue _ => true
  | notifyProducer _ _ => true
  | handle _ => true
  | _ => false

namespace ThreadPool

variable {n : Nat} {p p' : ThreadPool n} {e : PoolEvent}

structure NoLostWakeup (p : ThreadPool n) : Prop where
  producers : p.asleep ≠ [] → n ≤ p.q.items.length + p.awake.length + p.workers.countP Worker.isNotifying
  workers : .asleep ∈ p.workers → p.q.items.length ≤ p.workers.count .locking + p.pushNotices

namespace NoLostWakeup

theorem length_pushBack_le (q : CircularQ AsyncMsg n) (msg : AsyncMsg) :
    q.items.length ≤ (q.pushBack msg).items.length ∧
      (q.pushBack msg).items.length ≤ q.items.length + 1 := by
  rw [(q.items_pushBack msg).1]
  split
  · rename_i hfull
    rw [List.length_tail, List.length_append, List.length_singleton]
    omega
  · rw [List.length_append, List.length_singleton]
    omega

theorem length_pushBack (q : CircularQ AsyncMsg n) (msg : AsyncMsg) (h : q.full = false) :
    (q.pushBack msg).items.length = q.items.length + 1 := by
  rw [(q.items_pushBack msg).1, h, if_neg Bool.false_ne_true, List.length_append, List.length_singleton]

theorem producers_move (h : NoLostWakeup p) (hm : Move p e p') (hasleep : p'.asleep ≠ []) :
    n ≤ p'.q.items.length + p'.awake.length + p'.workers.countP Worker.isNotifying := by
  cases hm with
  | call =>
    have hroom := h.producers hasleep
    simp only [List.length_append]
    omega
  | @overrun e msg =>
    have hroom := h.producers hasleep
    have hlength := length_pushBack_le p.q msg
    simp only [push]
    omega
  | wait hmsg hfull =>
    rw [p.q.full_iff] at hfull
    simp only
    omega
  | @enqueue k msg hmsg hfull =>
    have hroom := h.producers hasleep
    have hlength := length_pushBack p.q msg hfull
    have hawake := (perm_eraseIdx hmsg).length_eq
    rw [List.length_cons] at hawake
    simp only [push]
    omega
  | wakeProducer hmsg =>
    have hroom := h.producers (List.ne_nil_of_mem (List.mem_of_getElem? hmsg))
    simp only [List.length_append]
    omega
  | @notice i _ hi | @wakeWorker i hi =>
    have hroom := h.producers hasleep
    have hset : (p.workers.set i .locking).countP Worker.isNotifying + 0 =
        p.workers.countP Worker.isNotifying + 0 := countP_set Worker.isNotifying hi .locking
    simp only
    omega
  | @sleep i hi =>
    have hroom := h.producers hasleep
    have hset : (p.workers.set i .asleep).countP Worker.isNotifying + 0 =
        p.workers.countP Worker.isNotifying + 0 := countP_set Worker.isNotifying hi .asleep
    simp only
    omega
  | @dequeue i hi hempty =>
    have hroom := h.producers hasleep
    have hset : (p.workers.set i (.notifying p.q.popFront.1)).countP Worker.isNotifying + 0 =
        p.workers.countP Worker.isNotifying + 1 := countP_set Worker.isNotifying hi (.notifying p.q.popFront.1)
    rw [(p.q.items_popFront hempty).1, List.length_cons] at hroom
    simp only
    omega
  | roomUnused _ hnone => exact absurd hnone hasleep
  | @room i k msg item hi hitem =>
    have hroom := h.producers (List.ne_nil_of_mem (List.mem_of_getElem? hitem))
    have hset : (p.workers.set i (.handling msg)).countP Worker.isNotifying + 1 =
        p.workers.countP Worker.isNotifying + 0 := countP_set Worker.isNotifying hi (.handling msg)
    simp only [List.length_append, List.length_singleton]
    omega
  | @handle i msg hi =>
    have hroom := h.producers hasleep
    have hset := countP_set Worker.isNotifying hi (afterMsg msg)
    have hhandling : [Worker.handling msg].countP Worker.isNotifying = 0 := rfl
    simp only
    omega
  | postTerminate _ hno => exact absurd hno.2.1 hasleep
  | noticeLost | destroy | join => exact h.producers hasleep

theorem afterMsg_ne_asleep (msg : AsyncMsg) : afterMsg msg ≠ .asleep := by
  unfold afterMsg
  cases msg.msgType with
  | log | flush | terminate => simp

theorem asleep_of_set {workers : List Worker} {i : Nat} {worker : Worker} (hne : worker ≠ .asleep)
    (h : .asleep ∈ workers.set i worker) : .asleep ∈ workers := by
  rcases List.mem_or_eq_of_mem_set h with hmem | heq
  · exact hmem
  · exact absurd heq.symm hne

theorem workers_move (h : NoLostWakeup p) (hm : Move p e p') (hasleep : .asleep ∈ p'.workers) :
    p'.q.items.length ≤ p'.workers.count .locking + p'.pushNotices := by
  cases hm with
  | @overrun e msg =>
    have hitems := h.workers hasleep
    have hlength := length_pushBack_le p.q msg
    simp only [push]
    omega
  | @enqueue k msg hmsg hfull =>
    have hitems := h.workers hasleep
    have hlength := length_pushBack_le p.q msg
    simp only [push]
    omega
  | noticeLost _ hnone => exact absurd hasleep hnone
  | @notice i hpos hi =>
    have hitems := h.workers (List.mem_of_getElem? hi)
    have hset : (p.workers.set i .locking).count .locking + 0 = p.workers.count .locking + 1 :=
      countP_set (· == Worker.locking) hi .locking
    simp only
    omega
  | sleep _ hempty =>
    have hnone : p.q.items = [] := p.q.empty_iff.mp hempty
    simp only [hnone]
    exact Nat.zero_le _
  | @dequeue i hi hempty =>
    have hitems := h.workers (asleep_of_set (by simp) hasleep)
    have hset : (p.workers.set i (.notifying p.q.popFront.1)).count .locking + 1 =
        p.workers.count .locking + 0 := countP_set (· == Worker.locking) hi (.notifying p.q.popFront.1)
    rw [(p.q.items_popFront hempty).1, List.length_cons] at hitems
    simp only
    omega
  | @wakeWorker i hi =>
    have hitems := h.workers (List.mem_of_getElem? hi)
    have hset : (p.workers.set i .locking).count .locking + 0 = p.workers.count .locking + 1 :=
      countP_set (· == Worker.locking) hi .locking
    simp only
    omega
  | @roomUnused i msg hi | @room i k msg item hi =>
    have hitems := h.workers (asleep_of_set (by simp) hasleep)
    have hset : (p.workers.set i (.handling msg)).count .locking + 0 = p.workers.count .locking + 0 :=
      countP_set (· == Worker.locking) hi (.handling msg)
    simp only
    omega
  | @handle i msg hi =>
    have hitems := h.workers (asleep_of_set (afterMsg_ne_asleep msg) hasleep)
    have hset : (p.workers.set i (afterMsg msg)).count .locking + 0 =
        p.workers.count .locking + [afterMsg msg].count .locking :=
      countP_set (· == Worker.locking) hi (afterMsg msg)
    simp only
    omega
  | call | wait | wakeProducer | destroy | postTerminate | join => exact h.workers hasleep

end NoLostWakeup

theorem noLostWakeup_move (h : NoLostWakeup p) (hm : Move p e p') : NoLostWakeup p' :=
  ⟨h.producers_move hm, h.workers_move hm⟩

theorem noLostWakeup_of_run {Admits : ThreadPool n → PoolEvent → Prop} {threadsN : Nat} {es : List PoolEvent}
    (h : Run step Admits (new n threadsN) es p) : NoLostWakeup p := by
  apply h.invariant
  · constructor
    · intro hasleep
      exact absurd rfl hasleep
    · intro hasleep
      have heq := List.eq_of_mem_replicate hasleep
      cases heq
  · intro s e s' hs _ hstep
    exact noLostWakeup_move hs (move_of_step hstep)

/-! ## The work that is left -/

/-- A bound on the steps that the pool takes by itself, and on those of the destructor. -/
def work (p : ThreadPool n) : Nat :=
  p.shutdown.work + 7 * p.awake.length + 6 * p.asleep.length + 2 * p.pushNotices + 4 * p.q.items.length +
    (p.workers.map Worker.work).sum

theorem work_afterMsg (msg : AsyncMsg) : (afterMsg msg).work ≤ 1 := by
  unfold afterMsg
  cases msg.msgType with
  | log | flush => exact Nat.le_refl 1
  | terminate => exact Nat.zero_le 1

theorem policy_of_internal (h : e.internal = true) : e.policy? = none := by
  cases e with
  | postLog | postFlush => cases h
  | _ => rfl

/-- Every step takes away from the work, but for new messages, the call of the destructor and spurious
wake-ups. -/
theorem work_move (hm : Move p e p') (hkind : e.internal = true ∨ p.shutdown ≠ .running ∧ e.spurious = false) :
    p'.work < p.work := by
  cases hm with
  | @wait k msg hmsg hfull =>
    have herase := (perm_eraseIdx hmsg).length_eq
    simp only [work, List.length_append, List.length_cons, List.length_nil] at herase ⊢
    omega
  | @enqueue k msg hmsg hfull =>
    have herase := (perm_eraseIdx hmsg).length_eq
    have hlength := NoLostWakeup.length_pushBack p.q msg hfull
    simp only [work, push, List.length_cons] at herase ⊢
    omega
  | noticeLost hpos =>
    simp only [work]
    omega
  | @notice i hpos hi =>
    have hset := sum_map_set Worker.work hi .locking
    simp only [work, Worker.work] at hset ⊢
    omega
  | @sleep i hi =>
    have hset := sum_map_set Worker.work hi .asleep
    simp only [work, Worker.work] at hset ⊢
    omega
  | @dequeue i hi hempty =>
    have hset := sum_map_set Worker.work hi (.notifying p.q.popFront.1)
    have hitems := congrArg List.length (p.q.items_popFront hempty).1
    simp only [work, Worker.work, List.length_cons] at hset hitems ⊢
    omega
  | @roomUnused i msg hi =>
    have hset := sum_map_set Worker.work hi (.handling msg)
    simp only [work, Worker.work] at hset ⊢
    omega
  | @room i k msg item hi hitem =>
    have hset := sum_map_set Worker.work hi (.handling msg)
    have herase := (perm_eraseIdx hitem).length_eq
    simp only [work, Worker.work, List.length_append, List.length_cons, List.length_nil] at hset herase ⊢
    omega
  | @handle i msg hi =>
    have hset := sum_map_set Worker.work hi (afterMsg msg)
    have hafter := work_afterMsg msg
    have hhandling : (Worker.handling msg).work = 2 := rfl
    simp only [work] at hset ⊢
    omega
  | postTerminate hleft hno =>
    simp only [work, hleft, hno.1, Shutdown.work, List.length_singleton, List.length_nil]
    omega
  | join hleft =>
    simp only [work, hleft, Shutdown.work]
    omega
  | call hrunning _ _ hpolicy | overrun hrunning _ _ hpolicy =>
    rcases hkind with hinternal | ⟨hshutdown, -⟩
    · exact absurd hpolicy (by simp [policy_of_internal hinternal])
    · exact absurd hrunning hshutdown
  | destroy hrunning =>
    rcases hkind with hinternal | ⟨hshutdown, -⟩
    · cases hinternal
    · exact absurd hrunning hshutdown
  | wakeProducer | wakeWorker =>
    rcases hkind with hinternal | ⟨-, hprompt⟩
    · cases hinternal
    · cases hprompt

/-! ## Nothing left to do -/

/-- The pool can do nothing by itself. -/
def Idle (p : ThreadPool n) : Prop := ∀ e, e.internal = true → p.step e = none

namespace Idle

theorem awake_eq (h : Idle p) : p.awake = [] := by
  cases hawake : p.awake with
  | nil => rfl
  | cons msg rest =>
    have hlock := h (.lock 0) rfl
    simp only [step, hawake, List.getElem?_cons_zero] at hlock
    split at hlock
    · cases hlock
    · cases hlock

theorem pushNotices_eq (h : Idle p) : p.pushNotices = 0 := by
  by_contra hpos
  by_cases hasleep : .asleep ∈ p.workers
  · obtain ⟨i, hi⟩ := List.mem_iff_getElem?.mp hasleep
    have hnotice := h (.notifyWorker (some i)) rfl
    simp only [step, if_neg hpos, if_pos hi] at hnotice
    cases hnotice
  · have hnotice := h (.notifyWorker none) rfl
    simp only [step, if_neg hpos, if_neg hasleep] at hnotice
    cases hnotice

theorem worker_eq (h : Idle p) {worker : Worker} (hworker : worker ∈ p.workers) :
    worker = .asleep ∨ worker = .ended := by
  obtain ⟨i, hi⟩ := List.mem_iff_getElem?.mp hworker
  cases worker with
  | asleep => exact Or.inl rfl
  | ended => exact Or.inr rfl
  | locking =>
    have hdequeue := h (.dequeue i) rfl
    simp only [step, if_pos hi] at hdequeue
    split at hdequeue
    · cases hdequeue
    · cases hdequeue
  | handling msg =>
    have hhandle := h (.handle i) rfl
    simp only [step, hi] at hhandle
    cases hhandle
  | notifying msg =>
    cases hasleep : p.asleep with
    | nil =>
      have hnotice := h (.notifyProducer i none) rfl
      simp only [step, hi, hasleep, if_true] at hnotice
      cases hnotice
    | cons item rest =>
      have hnotice := h (.notifyProducer i (some 0)) rfl
      simp only [step, hi, hasleep, List.getElem?_cons_zero] at hnotice
      cases hnotice

theorem inHand_eq (h : Idle p) : p.inHand = [] := by
  rw [inHand, List.filterMap_eq_nil_iff]
  intro worker hworker
  rcases h.worker_eq hworker with rfl | rfl
  · rfl
  · rfl

/-- A worker that waits finds nothing. -/
theorem items_eq (h : Idle p) (hwakeup : NoLostWakeup p) (hasleep : .asleep ∈ p.workers) : p.q.items = [] := by
  have hitems := hwakeup.workers hasleep
  have hlocking : p.workers.count .locking = 0 := by
    rw [List.count_eq_zero]
    intro hmem
    rcases h.worker_eq hmem with heq | heq
    · cases heq
    · cases heq
  rw [h.pushNotices_eq, hlocking] at hitems
  exact List.length_eq_zero_iff.mp (Nat.le_zero.mp hitems)

theorem endings_eq (h : Idle p) : endings p.workers = p.workers.count .ended := by
  have hnone : p.workers.filterMap Worker.msg? = [] := h.inHand_eq
  rw [endings, hnone]
  rfl

theorem ended_of_not_asleep (h : Idle p) (hasleep : .asleep ∉ p.workers) : endings p.workers = p.workers.length := by
  rw [h.endings_eq, List.count_eq_length]
  intro worker hworker
  rcases h.worker_eq hworker with rfl | rfl
  · exact absurd hworker hasleep
  · rfl

/-- No producer waits for room. -/
theorem noProducer (h : Idle p) (hwakeup : NoLostWakeup p) (hending : PoolEnding p) (hroom : 0 < n)
    (hthreads : 0 < p.workers.length) : p.NoProducer := by
  refine ⟨h.awake_eq, ?_, h.pushNotices_eq⟩
  by_contra hasleep
  have hfull := hwakeup.producers hasleep
  have hnotifying : p.workers.countP Worker.isNotifying = 0 := by
    rw [List.countP_eq_zero]
    intro worker hworker
    rcases h.worker_eq hworker with rfl | rfl
    · exact Bool.false_ne_true
    · exact Bool.false_ne_true
  rw [h.awake_eq, hnotifying] at hfull
  -- the queue is full, so no worker waits, and all of them have ended
  have hnone : .asleep ∉ p.workers := by
    intro hworker
    rw [h.items_eq hwakeup hworker] at hfull
    exact absurd hroom (Nat.not_lt.mpr hfull)
  have hcounted := hending.counted
  rw [h.ended_of_not_asleep hnone] at hcounted
  by_cases hrunning : p.shutdown = .running
  · have hzero := (hending.none_waits hrunning).2.2.2
    rw [h.ended_of_not_asleep hnone] at hzero
    omega
  · obtain ⟨msg, hmsg⟩ := List.exists_mem_of_ne_nil _ hasleep
    have hterminate := hending.producers hrunning msg (List.mem_append_right _ hmsg)
    have hzero : terminates p.asleep = 0 := by omega
    exact terminates_eq_zero.mp hzero msg hmsg hterminate

theorem items_eq_of_running (h : Idle p) (hwakeup : NoLostWakeup p) (hending : PoolEnding p)
    (hthreads : 0 < p.workers.length) (hrunning : p.shutdown = .running) : p.q.items = [] := by
  apply h.items_eq hwakeup
  by_contra hnone
  have hzero := (hending.none_waits hrunning).2.2.2
  rw [h.ended_of_not_asleep hnone] at hzero
  omega

theorem asleep_of_running (h : Idle p) (hending : PoolEnding p) (hrunning : p.shutdown = .running) :
    ∀ worker ∈ p.workers, worker = .asleep := by
  intro worker hworker
  rcases h.worker_eq hworker with hasleep | rfl
  · exact hasleep
  · have hpos := List.count_pos_iff.mpr hworker
    rw [← h.endings_eq, (hending.none_waits hrunning).2.2.2] at hpos
    exact absurd hpos (Nat.lt_irrefl 0)

theorem ended_of_posted (h : Idle p) (hwakeup : NoLostWakeup p) (hending : PoolEnding p)
    (hno : p.NoProducer) (hposted : p.shutdown = .posting 0) : ∀ worker ∈ p.workers, worker = .ended := by
  intro worker hworker
  rcases h.worker_eq hworker with rfl | rfl
  · have hcounted := hending.counted
    rw [hposted, hno.1, hno.2.1, h.items_eq hwakeup hworker, h.endings_eq] at hcounted
    have hall : p.workers.count .ended = p.workers.length := by
      simpa [Shutdown.toPost, terminates] using hcounted
    exact (List.count_eq_length.mp hall _ hworker).symm
  · rfl

end Idle

/-! ## The pool comes to its ends -/

def Internal (_ : ThreadPool n) (e : PoolEvent) : Prop := e.internal = true

def Prompt (_ : ThreadPool n) (e : PoolEvent) : Prop := e.spurious = false

instance (p : ThreadPool n) (e : PoolEvent) : Decidable (Internal p e) :=
  inferInstanceAs (Decidable (e.internal = true))

instance (p : ThreadPool n) (e : PoolEvent) : Decidable (Prompt p e) :=
  inferInstanceAs (Decidable (e.spurious = false))

theorem shutdown_of_internal (hm : Move p e p') (h : e.internal = true) : p'.shutdown = p.shutdown := by
  cases hm with
  | destroy | postTerminate | join => cases h
  | call | overrun | wait | enqueue | noticeLost | notice | wakeProducer | sleep | dequeue | wakeWorker |
      roomUnused | room | handle => rfl

theorem not_running_move (hm : Move p e p') (h : p.shutdown ≠ .running) : p'.shutdown ≠ .running := by
  cases hm with
  | destroy hrunning => exact absurd hrunning h
  | postTerminate | join => exact Shutdown.noConfusion
  | call | overrun | wait | enqueue | noticeLost | notice | wakeProducer | sleep | dequeue | wakeWorker |
      roomUnused | room | handle => exact h

theorem msgs_of_internal {es : List PoolEvent} (h : Run step Internal p es p') :
    es.filterMap PoolEvent.msg? = [] := by
  induction h with
  | nil => rfl
  | @snoc es s s' e _ hinternal _ ih =>
    rw [List.filterMap_append, ih, List.nil_append, List.filterMap_cons_none, List.filterMap_nil]
    cases e with
    | postLog | postFlush | postTerminate => cases hinternal
    | _ => rfl

/-- Left to itself, before its destructor is called, a pool with room for a message comes to rest, in any
order of its steps. Then each message has been handled or overrun, no logger waits in a call and all
workers sleep. -/
theorem pool_drains {threadsN : Nat} {start : ThreadPool n} {es es' : List PoolEvent}
    (hstart : construct n threadsN = .ok start) (hroom : 0 < n) (h : Run step AnyStep start es p)
    (hrunning : p.shutdown = .running) (h' : Run step Internal p es' p') :
    es'.length ≤ p.work ∧
    (p'.Idle → p'.NoProducer ∧ (es.filterMap PoolEvent.msg?).Perm (p'.dropped ++ p'.handled) ∧
      ∀ worker ∈ p'.workers, worker = .asleep) := by
  obtain ⟨hthreads, -, rfl⟩ := construct_ok hstart
  have hwork := h'.length_le (I := fun s => s.shutdown = .running) (m := work)
    (fun s e s' hs hinternal hstep => ⟨(shutdown_of_internal (move_of_step hstep) hinternal).trans hs,
      work_move (move_of_step hstep) (Or.inl hinternal)⟩) hrunning
  refine ⟨by omega, fun hidle => ?_⟩
  have hall := h.trans h'.anyStep
  have hwakeup := noLostWakeup_of_run hall
  have hending := poolEnding_of_run hall
  have hlength : 0 < p'.workers.length := by
    rw [workers_length hall]
    exact hthreads
  have hno := hidle.noProducer hwakeup hending hroom hlength
  refine ⟨hno, ?_, hidle.asleep_of_running hending hwork.2⟩
  have hmsgs := (pool_history hall).1
  rw [List.filterMap_append, msgs_of_internal h', hno.1, hno.2.1, hidle.inHand_eq,
    hidle.items_eq_of_running hwakeup hending hlength hwork.2] at hmsgs
  simp only [List.append_nil, List.nil_append] at hmsgs
  exact hmsgs

/-- A call, and the steps that it takes. -/
theorem pool_drains_of_call :
    6 ≤ ({ new 1 1 with awake := [.ofLogMsg 0 .sample] } : ThreadPool 1).work := by
  have hstart : construct 1 1 = .ok (new 1 1) := rfl
  have hbefore : Run step AnyStep (new 1 1) [.postLog 0 .sample .block]
      { new 1 1 with awake := [.ofLogMsg 0 .sample] } := Run.of_replay rfl
  have hafter : Run step Internal { new 1 1 with awake := [.ofLogMsg 0 .sample] }
      [.lock 0, .notifyWorker none, .dequeue 0, .notifyProducer 0 none, .handle 0, .dequeue 0] _ :=
    Run.of_replay_guarded rfl
  exact (pool_drains hstart Nat.one_pos hbefore rfl hafter).1

/-- In the course of its destructor a pool with room for a message does not run forever, and there is
always a step to take, one that a notice or a return allows, until all threads are joined. -/
theorem destructor_returns {threadsN : Nat} {start : ThreadPool n} {es es' : List PoolEvent}
    (hstart : construct n threadsN = .ok start) (hroom : 0 < n) (h : Run step AnyStep start es p)
    (hbegun : p.shutdown ≠ .running) (h' : Run step Prompt p es' p') :
    es'.length ≤ p.work ∧
    (p'.shutdown = .joined ∨ ∃ e p'', e.spurious = false ∧ p'.step e = some p'') := by
  obtain ⟨hthreads, -, rfl⟩ := construct_ok hstart
  have hwork := h'.length_le (I := fun s => s.shutdown ≠ .running) (m := work)
    (fun s e s' hs hprompt hstep => ⟨not_running_move (move_of_step hstep) hs,
      work_move (move_of_step hstep) (Or.inr ⟨hs, hprompt⟩)⟩) hbegun
  refine ⟨by omega, ?_⟩
  have hall := h.trans h'.anyStep
  have hwakeup := noLostWakeup_of_run hall
  have hending := poolEnding_of_run hall
  have hlength : 0 < p'.workers.length := by
    rw [workers_length hall]
    exact hthreads
  by_cases hidle : p'.Idle
  · have hno := hidle.noProducer hwakeup hending hroom hlength
    cases hshutdown : p'.shutdown with
    | running => exact absurd hshutdown hwork.2
    | joined => exact Or.inl rfl
    | posting left =>
      right
      cases left with
      | zero =>
        have hended := hidle.ended_of_posted hwakeup hending hno hshutdown
        exact ⟨.join, { p' with shutdown := .joined }, rfl, if_pos ⟨hshutdown, hno, hended⟩⟩
      | succ left =>
        refine ⟨.postTerminate, { p' with shutdown := .posting left, awake := [.ofType none .terminate] },
          rfl, ?_⟩
        simp only [step, hshutdown]
        exact if_pos hno
  · right
    simp only [Idle, not_forall] at hidle
    obtain ⟨e, hinternal, hsome⟩ := hidle
    obtain ⟨p'', hp''⟩ := Option.ne_none_iff_exists'.mp hsome
    refine ⟨e, p'', ?_, hp''⟩
    cases e with
    | wakeProducer | wakeWorker => cases hinternal
    | _ => rfl

/-- A worker that sleeps is woken for the terminate message. -/
theorem destructor_returns_of_sleeping_worker :
    7 ≤ ({ new 1 1 with workers := [.asleep], shutdown := .posting 1 } : ThreadPool 1).work := by
  have hstart : construct 1 1 = .ok (new 1 1) := rfl
  have hbefore : Run step AnyStep (new 1 1) [.dequeue 0, .destroy]
      { new 1 1 with workers := [.asleep], shutdown := .posting 1 } := Run.of_replay rfl
  have hafter : Run step Prompt { new 1 1 with workers := [.asleep], shutdown := .posting 1 }
      [.postTerminate, .lock 0, .notifyWorker (some 0), .dequeue 0, .notifyProducer 0 none, .handle 0, .join] _ :=
    Run.of_replay_guarded rfl
  exact (destructor_returns hstart Nat.one_pos hbefore Shutdown.noConfusion hafter).1

end ThreadPool

end RedisLuaLinux.Spdlog
