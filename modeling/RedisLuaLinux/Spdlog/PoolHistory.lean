import RedisLuaLinux.Library.Progress
import RedisLuaLinux.Spdlog.ThreadPool

/-!
# What becomes of the messages

* `pool_history`: in every run of a pool, each posted message is overrun, waits, is in the hands of
  a worker or was handled, exactly once, and the overruns are counted.
* `blocking_history`: where all loggers block, nothing is overrun, and one worker keeps the order.
-/

namespace RedisLuaLinux.Spdlog

open Library

/-- The message that a worker holds. -/
def Worker.msg? : Worker → Option AsyncMsg
  | .notifying msg => some msg
  | .handling msg => some msg
  | _ => none

namespace ThreadPool

variable {n : Nat} {p p' : ThreadPool n} {e : PoolEvent}

def inHand (p : ThreadPool n) : List AsyncMsg := p.workers.filterMap Worker.msg?

theorem afterMsg_msg? (msg : AsyncMsg) : (afterMsg msg).msg? = none := by
  unfold afterMsg
  cases msg.msgType with
  | log | flush | terminate => rfl

structure PoolHistory (p : ThreadPool n) : Prop where
  fifo : FifoHistory p.posted p.dropped p.taken p.q.items
  overruns : p.q.overrunCounter = p.dropped.length
  handled : p.taken.Perm (p.handled ++ p.inHand)

namespace PoolHistory

theorem push (h : PoolHistory p) (msg : AsyncMsg) : PoolHistory (p.push msg) := by
  obtain ⟨hitems, hcounter⟩ := p.q.items_pushBack msg
  refine ⟨?_, ?_, h.handled⟩
  · show FifoHistory (p.posted ++ [msg]) (p.dropped ++ if p.q.full then _ else _) p.taken
      (p.q.pushBack msg).items
    rw [hitems]
    by_cases hfull : p.q.full
    · rw [if_pos hfull, if_pos hfull]
      cases hall : p.q.items ++ [msg] with
      | nil => simp at hall
      | cons oldest rest => exact h.fifo.overrun hall
    · rw [if_neg hfull, if_neg hfull, List.append_nil]
      exact h.fifo.push msg
  · show (p.q.pushBack msg).overrunCounter = (p.dropped ++ if p.q.full then _ else _).length
    rw [hcounter, h.overruns]
    by_cases hfull : p.q.full
    · rw [if_pos hfull, if_pos hfull]
      simp
    · rw [if_neg hfull, if_neg hfull]
      simp

/-- What a worker does without a message of its own changing. -/
theorem replace (h : PoolHistory p) {i : Nat} {worker : Worker} (hi : p.workers[i]? = some worker)
    (worker' : Worker) (hmsg : worker'.msg? = worker.msg?) : PoolHistory { p with workers := p.workers.set i worker' } := by
  refine ⟨h.fifo, h.overruns, ?_⟩
  obtain ⟨others, hold, hnew⟩ := exists_replaced hi
  have hsame : ((p.workers.set i worker').filterMap Worker.msg?).Perm p.inHand := by
    apply ((hnew worker').filterMap Worker.msg?).trans
    apply List.Perm.trans _ (hold.filterMap Worker.msg?).symm
    rw [List.filterMap_cons, List.filterMap_cons, hmsg]
  exact h.handled.trans (hsame.symm.append_left p.handled)

theorem dequeue (h : PoolHistory p) {i : Nat} (hi : p.workers[i]? = some .locking)
    (hempty : p.q.empty = false) : PoolHistory { p with
      q := p.q.popFront.2
      taken := p.taken ++ [p.q.popFront.1]
      workers := p.workers.set i (.notifying p.q.popFront.1) } := by
  obtain ⟨hitems, hcounter⟩ := p.q.items_popFront hempty
  refine ⟨?_, hcounter.trans h.overruns, ?_⟩
  · have hfifo := h.fifo
    rw [hitems] at hfifo
    exact hfifo.take
  · obtain ⟨others, hold, hnew⟩ := exists_replaced hi
    have holder : p.inHand.Perm (others.filterMap Worker.msg?) := hold.filterMap Worker.msg?
    have hnewer := (hnew (.notifying p.q.popFront.1)).filterMap Worker.msg?
    have htaken := (h.handled.trans (holder.append_left p.handled)).append_right [p.q.popFront.1]
    apply htaken.trans
    rw [List.append_assoc]
    apply List.Perm.append_left p.handled
    exact List.perm_append_singleton _ _ |>.trans hnewer.symm

theorem handle (h : PoolHistory p) {i : Nat} {msg : AsyncMsg} (hi : p.workers[i]? = some (.handling msg)) :
    PoolHistory { p with workers := p.workers.set i (afterMsg msg), handled := p.handled ++ [msg] } := by
  refine ⟨h.fifo, h.overruns, ?_⟩
  obtain ⟨others, hold, hnew⟩ := exists_replaced hi
  have holder : p.inHand.Perm (msg :: others.filterMap Worker.msg?) := hold.filterMap Worker.msg?
  have hnewer := (hnew (afterMsg msg)).filterMap Worker.msg?
  rw [List.filterMap_cons, afterMsg_msg?] at hnewer
  apply (h.handled.trans (holder.append_left p.handled)).trans
  show (p.handled ++ msg :: _).Perm (p.handled ++ [msg] ++ _)
  rw [List.append_assoc, List.singleton_append]
  exact (hnewer.symm.cons msg).append_left p.handled

end PoolHistory

theorem poolHistory_move (h : PoolHistory p) (hm : Move p e p') : PoolHistory p' := by
  cases hm with
  | call => exact ⟨h.fifo, h.overruns, h.handled⟩
  | @overrun e msg => exact h.push msg
  | wait => exact ⟨h.fifo, h.overruns, h.handled⟩
  | @enqueue k msg hmsg hfull =>
    have hrest : PoolHistory { p with awake := p.awake.eraseIdx k } := ⟨h.fifo, h.overruns, h.handled⟩
    exact hrest.push msg
  | noticeLost => exact ⟨h.fifo, h.overruns, h.handled⟩
  | notice hpos hasleep =>
    obtain ⟨hfifo, hoverruns, hhandled⟩ := h.replace hasleep .locking rfl
    exact ⟨hfifo, hoverruns, hhandled⟩
  | wakeProducer => exact ⟨h.fifo, h.overruns, h.handled⟩
  | sleep hlocking => exact h.replace hlocking .asleep rfl
  | dequeue hlocking hempty => exact h.dequeue hlocking hempty
  | wakeWorker hasleep => exact h.replace hasleep .locking rfl
  | roomUnused hmsg => exact h.replace hmsg _ rfl
  | @room i k msg item hmsg =>
    obtain ⟨hfifo, hoverruns, hhandled⟩ := h.replace hmsg (.handling msg) rfl
    exact ⟨hfifo, hoverruns, hhandled⟩
  | handle hmsg => exact h.handle hmsg
  | destroy => exact ⟨h.fifo, h.overruns, h.handled⟩
  | postTerminate => exact ⟨h.fifo, h.overruns, h.handled⟩
  | join => exact ⟨h.fifo, h.overruns, h.handled⟩

theorem poolHistory_new (qMaxItems threadsN : Nat) : PoolHistory (new qMaxItems threadsN) := by
  refine ⟨?_, rfl, ?_⟩
  · show FifoHistory [] [] [] (CircularQ.new AsyncMsg qMaxItems).items
    rw [CircularQ.items_new]
    exact FifoHistory.nil
  · show ([] : List AsyncMsg).Perm ((List.replicate threadsN Worker.locking).filterMap Worker.msg?)
    rw [List.filterMap_replicate_of_none rfl]

theorem poolHistory_of_run {Admits : ThreadPool n → PoolEvent → Prop} {threadsN : Nat} {es : List PoolEvent}
    (h : Run step Admits (new n threadsN) es p) : PoolHistory p := by
  apply h.invariant (poolHistory_new n threadsN)
  intro s e s' hs _ hstep
  exact poolHistory_move hs (move_of_step hstep)

/-- The messages that have come in and those that wait for room. -/
def handedOver (p : ThreadPool n) : List AsyncMsg := p.posted ++ (p.awake ++ p.asleep)

theorem handedOver_move (hm : Move p e p') : p'.handedOver.Perm (p.handedOver ++ e.msg?.toList) := by
  rw [List.perm_iff_count]
  intro a
  cases hm with
  | call _ hmsg =>
    rw [hmsg]
    simp only [handedOver, List.count_append, Option.toList_some]
    omega
  | overrun _ hmsg =>
    rw [hmsg]
    simp only [handedOver, push, List.count_append, Option.toList_some]
    omega
  | wait hmsg =>
    have hcount := (perm_eraseIdx hmsg).count_eq a
    simp only [handedOver, PoolEvent.msg?, List.count_append, Option.toList_none, List.count_nil]
    rw [← List.singleton_append, List.count_append] at hcount
    omega
  | enqueue hmsg =>
    have hcount := (perm_eraseIdx hmsg).count_eq a
    simp only [handedOver, push, PoolEvent.msg?, List.count_append, Option.toList_none, List.count_nil]
    rw [← List.singleton_append, List.count_append] at hcount
    omega
  | wakeProducer hmsg =>
    have hcount := (perm_eraseIdx hmsg).count_eq a
    simp only [handedOver, PoolEvent.msg?, List.count_append, Option.toList_none, List.count_nil]
    rw [← List.singleton_append, List.count_append] at hcount
    omega
  | room hworker hitem =>
    have hcount := (perm_eraseIdx hitem).count_eq a
    simp only [handedOver, PoolEvent.msg?, List.count_append, Option.toList_none, List.count_nil]
    rw [← List.singleton_append, List.count_append] at hcount
    omega
  | postTerminate hleft hno =>
    simp only [handedOver, hno.1, hno.2.1, PoolEvent.msg?, List.append_nil, Option.toList_some]
  | noticeLost | notice | sleep | dequeue | wakeWorker | roomUnused | handle | destroy | join =>
    exact congrArg (List.count a) (List.append_nil p.handedOver).symm

theorem handedOver_of_run {Admits : ThreadPool n → PoolEvent → Prop} {threadsN : Nat} {es : List PoolEvent}
    (h : Run step Admits (new n threadsN) es p) : (es.filterMap PoolEvent.msg?).Perm p.handedOver := by
  induction h with
  | nil => exact List.Perm.refl []
  | @snoc es s s' e hrun _ hstep ih =>
    rw [List.filterMap_append]
    apply (ih.append_right _).trans
    have hone : [e].filterMap PoolEvent.msg? = e.msg?.toList := by
      cases he : e.msg? with
      | none => rw [List.filterMap_cons_none he, List.filterMap_nil, Option.toList_none]
      | some msg => rw [List.filterMap_cons_some he, List.filterMap_nil, Option.toList_some]
    rw [hone]
    exact (handedOver_move (move_of_step hstep)).symm

/-- Each message that has come in waits for room, was overrun, is queued, is in the hands of a worker
or was handled, and only one of these, once. The queue gives out what it has room for in the order of
its arrival, and overruns the rest in this order and counts it. -/
theorem pool_history {threadsN : Nat} {es : List PoolEvent} (h : Run step AnyStep (new n threadsN) es p) :
    (es.filterMap PoolEvent.msg?).Perm
      (p.awake ++ p.asleep ++ (p.dropped ++ (p.handled ++ p.inHand ++ p.q.items))) ∧
    (p.taken ++ p.q.items).Sublist p.posted ∧ (p.dropped ++ p.q.items).Sublist p.posted ∧
    p.q.overrunCounter = p.dropped.length ∧ p.q.items.length ≤ n := by
  have hhistory := poolHistory_of_run h
  refine ⟨?_, hhistory.fifo.order, hhistory.fifo.overruns, hhistory.overruns, ?_⟩
  · apply (handedOver_of_run h).trans
    apply List.perm_append_comm.trans
    apply List.Perm.append_left (p.awake ++ p.asleep)
    apply hhistory.fifo.perm.trans
    apply List.Perm.append_left p.dropped
    exact hhistory.handled.append_right p.q.items
  · rw [CircularQ.length_items]
    exact p.q.size_le

/-- Of two messages to a queue for one, with no worker in between, the first is overrun. -/
theorem pool_history_of_overrun : ∃ p : ThreadPool 1,
    Run step AnyStep (new 1 1) [.postLog 0 .sample .overrunOldest, .postFlush 0 .overrunOldest] p ∧
    p.q.overrunCounter = p.dropped.length ∧ p.q.overrunCounter = 1 := by
  have hrun : Run step AnyStep (new 1 1)
      [.postLog 0 .sample .overrunOldest, .postFlush 0 .overrunOldest] _ := Run.of_replay rfl
  exact ⟨_, hrun, (pool_history hrun).2.2.2.1, rfl⟩

/-! ## Loggers that block -/

def Blocking (_ : ThreadPool n) (e : PoolEvent) : Prop := e.policy? ≠ some .overrunOldest

instance (p : ThreadPool n) (e : PoolEvent) : Decidable (Blocking p e) :=
  inferInstanceAs (Decidable (e.policy? ≠ some .overrunOldest))

theorem dropped_move (h : p.dropped = []) (hb : Blocking p e) (hm : Move p e p') : p'.dropped = [] := by
  cases hm with
  | overrun _ _ _ hpolicy => exact absurd hpolicy hb
  | enqueue _ hfull =>
    show p.dropped ++ (if p.q.full = true then _ else []) = []
    rw [hfull, h]
    rfl
  | call | wait | noticeLost | notice | wakeProducer | sleep | dequeue | wakeWorker | roomUnused | room |
      handle | destroy | postTerminate | join => exact h

/-- The only worker has handled what was taken, but for the message in its hands. -/
def OneWorker (p : ThreadPool n) : Prop :=
  ∃ worker, p.workers = [worker] ∧ p.taken = p.handled ++ worker.msg?.toList

theorem OneWorker.set (h : OneWorker p) {i : Nat} {worker : Worker} (hi : p.workers[i]? = some worker)
    (worker' : Worker) :
    p.workers.set i worker' = [worker'] ∧ p.taken = p.handled ++ worker.msg?.toList := by
  obtain ⟨only, hworkers, htaken⟩ := h
  rw [hworkers] at hi ⊢
  obtain ⟨hlt, rfl⟩ := List.getElem?_eq_some_iff.mp hi
  obtain rfl : i = 0 := Nat.lt_one_iff.mp hlt
  exact ⟨rfl, htaken⟩

theorem oneWorker_move (h : OneWorker p) (hm : Move p e p') : OneWorker p' := by
  cases hm with
  | call | overrun | wait | enqueue | noticeLost | wakeProducer | destroy | postTerminate | join => exact h
  | notice _ hi | sleep hi | wakeWorker hi | roomUnused hi | room hi =>
    obtain ⟨hworkers, htaken⟩ := h.set hi _
    exact ⟨_, hworkers, htaken⟩
  | dequeue hi hempty =>
    obtain ⟨hworkers, htaken⟩ := h.set hi (.notifying p.q.popFront.1)
    refine ⟨_, hworkers, ?_⟩
    show p.taken ++ [_] = p.handled ++ [_]
    rw [htaken]
    exact congrArg (· ++ [_]) (List.append_nil p.handled)
  | @handle i msg hi =>
    obtain ⟨hworkers, htaken⟩ := h.set hi (afterMsg msg)
    refine ⟨_, hworkers, ?_⟩
    rw [afterMsg_msg?]
    show p.taken = p.handled ++ [msg] ++ []
    rw [htaken, List.append_nil]
    rfl

theorem oneWorker_of_run {Admits : ThreadPool n → PoolEvent → Prop} {es : List PoolEvent}
    (h : Run step Admits (new n 1) es p) : OneWorker p := by
  apply h.invariant ⟨.locking, rfl, rfl⟩
  intro s e s' hs _ hstep
  exact oneWorker_move hs (move_of_step hstep)

theorem dropped_of_run {threadsN : Nat} {es : List PoolEvent}
    (h : Run step Blocking (new n threadsN) es p) : p.dropped = [] := by
  apply h.invariant (I := fun p => p.dropped = []) rfl
  intro s e s' hs hb hstep
  exact dropped_move hs hb (move_of_step hstep)

/-- Where all loggers block nothing is overrun, however many workers there are, and one worker handles
the messages in the order in which they came into the queue. -/
theorem blocking_history {threadsN : Nat} {es : List PoolEvent}
    (h : Run step Blocking (new n threadsN) es p) :
    p.dropped = [] ∧ p.q.overrunCounter = 0 ∧
    (threadsN = 1 → p.posted = p.handled ++ p.inHand ++ p.q.items) := by
  have hdropped := dropped_of_run h
  have hhistory := poolHistory_of_run h
  refine ⟨hdropped, ?_, fun hone => ?_⟩
  · rw [hhistory.overruns, hdropped, List.length_nil]
  · subst hone
    obtain ⟨worker, hworkers, htaken⟩ := oneWorker_of_run h
    have hfifo := hhistory.fifo
    rw [hdropped] at hfifo
    rw [hfifo.posted_eq, htaken, inHand, hworkers]
    cases worker with
    | locking | asleep | notifying | handling | ended => rfl

/-- A message on its way through the pool. -/
theorem blocking_history_of_message : ∃ p : ThreadPool 1,
    Run step Blocking (new 1 1) [.postLog 0 .sample .block, .lock 0, .notifyWorker none, .dequeue 0,
      .notifyProducer 0 none, .handle 0] p ∧
    p.posted = p.handled ++ p.inHand ++ p.q.items ∧ p.handled = [.ofLogMsg 0 .sample] := by
  have hrun : Run step Blocking (new 1 1) [.postLog 0 .sample .block, .lock 0, .notifyWorker none,
      .dequeue 0, .notifyProducer 0 none, .handle 0] _ := Run.of_replay_guarded rfl
  exact ⟨_, hrun, (blocking_history hrun).2.2 rfl, rfl⟩

end ThreadPool

end RedisLuaLinux.Spdlog
