import RedisLuaLinux.Spdlog.PoolHistory

/-!
# The end of the thread pool

The constructor, and what the destructor leaves behind. It posts one terminate message for each
thread, and each thread ends with the one that it takes.

* `joined_handled`: when the destructor is done, every message has been overrun or handled.
* `no_room_never_joined`: it is never done where the queue has no room for a single message.
-/

namespace RedisLuaLinux.Spdlog

open Library

def AsyncMsg.isTerminate (msg : AsyncMsg) : Bool := msg.msgType = .terminate

theorem AsyncMsg.isTerminate_iff (msg : AsyncMsg) : msg.isTerminate = true ↔ msg.msgType = .terminate :=
  decide_eq_true_iff

/-- How many of the messages end a worker. -/
def terminates (msgs : List AsyncMsg) : Nat := msgs.countP AsyncMsg.isTerminate

theorem terminates_append (msgs msgs' : List AsyncMsg) :
    terminates (msgs ++ msgs') = terminates msgs + terminates msgs' := List.countP_append

theorem terminates_cons (msg : AsyncMsg) (msgs : List AsyncMsg) :
    terminates (msg :: msgs) = terminates msgs + terminates [msg] := by
  rw [← List.singleton_append, terminates_append, Nat.add_comm]

theorem terminates_eraseIdx {msgs : List AsyncMsg} {k : Nat} {msg : AsyncMsg} (h : msgs[k]? = some msg) :
    terminates msgs = terminates (msgs.eraseIdx k) + terminates [msg] := by
  rw [← terminates_cons]
  exact (perm_eraseIdx h).countP_eq AsyncMsg.isTerminate

theorem terminates_eq_zero {msgs : List AsyncMsg} :
    terminates msgs = 0 ↔ ∀ msg ∈ msgs, msg.msgType ≠ .terminate := by
  rw [terminates, List.countP_eq_zero]
  apply forall₂_congr
  intro msg _
  rw [AsyncMsg.isTerminate_iff]

theorem terminates_singleton (msg : AsyncMsg) :
    terminates [msg] = if msg.msgType = .terminate then 1 else 0 := by
  rw [terminates, List.countP_singleton]
  by_cases h : msg.msgType = .terminate
  · rw [if_pos h, if_pos (msg.isTerminate_iff.mpr h)]
  · rw [if_neg h, if_neg (fun h' => h (msg.isTerminate_iff.mp h'))]

/-- How many terminate messages are not posted yet. -/
def Shutdown.toPost (threadsN : Nat) : Shutdown → Nat
  | running => threadsN
  | posting left => left
  | joined => 0

namespace ThreadPool

variable {n : Nat} {p p' : ThreadPool n} {e : PoolEvent}

/-- The constructor of the pool. -/
def construct (qMaxItems threadsN : Nat) : Except Text (ThreadPool qMaxItems) :=
  if threadsN = 0 ∨ 1000 < threadsN then
    .error "spdlog::thread_pool(): invalid threads_n param (valid range is 1-1000)".toList
  else .ok (new qMaxItems threadsN)

/-- The workers that have ended, or will without a further message. -/
def endings (workers : List Worker) : Nat :=
  workers.count .ended + terminates (workers.filterMap Worker.msg?)

theorem endings_cons (worker : Worker) (workers : List Worker) :
    endings (worker :: workers) = endings workers + endings [worker] := by
  rw [← List.singleton_append, endings, endings, endings, List.count_append, List.filterMap_append,
    terminates_append]
  omega

theorem endings_set {workers : List Worker} {i : Nat} {worker : Worker} (h : workers[i]? = some worker)
    (worker' : Worker) : endings (workers.set i worker') + endings [worker] = endings workers + endings [worker'] := by
  obtain ⟨others, hold, hnew⟩ := exists_replaced h
  have hperm {ws ws' : List Worker} (hws : ws.Perm ws') : endings ws = endings ws' := by
    rw [endings, endings, hws.count_eq]
    congr 1
    exact (hws.filterMap Worker.msg?).countP_eq AsyncMsg.isTerminate
  rw [hperm hold, hperm (hnew worker'), endings_cons worker' others, endings_cons worker others]
  omega

theorem endings_afterMsg (msg : AsyncMsg) : endings [afterMsg msg] = endings [.handling msg] := by
  have hhandling : endings [.handling msg] = terminates [msg] := Nat.zero_add _
  rw [hhandling, terminates_singleton, afterMsg]
  cases msg.msgType with
  | log | flush | terminate => rfl

theorem endings_kept {workers : List Worker} {i : Nat} {worker : Worker} (h : workers[i]? = some worker)
    (worker' : Worker) (hsame : endings [worker'] = endings [worker]) : endings (workers.set i worker') = endings workers := by
  have hset := endings_set h worker'
  rw [hsame] at hset
  exact Nat.add_right_cancel hset

theorem ended_afterMsg (msg : AsyncMsg) : [afterMsg msg].count .ended = terminates [msg] := by
  rw [terminates_singleton, afterMsg]
  cases msg.msgType with
  | log | flush | terminate => rfl

/-- One thread ends for each terminate message. -/
structure PoolEnding (p : ThreadPool n) : Prop where
  ended : terminates p.handled = p.workers.count .ended
  counted : p.shutdown.toPost p.workers.length + (terminates p.awake + terminates p.asleep + terminates p.q.items) +
    endings p.workers = p.workers.length
  running : p.shutdown = .running → ∀ msg ∈ p.posted, msg.msgType ≠ .terminate
  producers : p.shutdown ≠ .running → ∀ msg ∈ p.awake ++ p.asleep, msg.msgType = .terminate
  last : p.posted.Pairwise fun msg msg' => msg.msgType = .terminate → msg'.msgType = .terminate
  dropped : ∀ msg ∈ p.dropped, msg.msgType ≠ .terminate
  joined : p.shutdown = .joined → p.NoProducer ∧ ∀ worker ∈ p.workers, worker = .ended

namespace PoolEnding

/-- Before the destructor there is no terminate message. -/
theorem none_waits (h : PoolEnding p) (hrunning : p.shutdown = .running) :
    terminates p.awake = 0 ∧ terminates p.asleep = 0 ∧ terminates p.q.items = 0 ∧ endings p.workers = 0 := by
  have hcounted := h.counted
  rw [hrunning] at hcounted
  simp only [Shutdown.toPost] at hcounted
  omega

theorem terminates_pushBack (q : CircularQ AsyncMsg n) (msg : AsyncMsg) (h : q.full = false) :
    terminates (q.pushBack msg).items = terminates q.items + terminates [msg] := by
  rw [(q.items_pushBack msg).1, h, if_neg Bool.false_ne_true, terminates_append]

theorem terminates_pushBack_le (q : CircularQ AsyncMsg n) (msg : AsyncMsg) :
    terminates (q.pushBack msg).items ≤ terminates q.items + terminates [msg] := by
  rw [(q.items_pushBack msg).1, ← terminates_append]
  split
  · exact (List.tail_sublist _).countP_le
  · exact Nat.le_refl _

theorem counted_move (h : PoolEnding p) (hm : Move p e p') :
    p'.shutdown.toPost p'.workers.length +
      (terminates p'.awake + terminates p'.asleep + terminates p'.q.items) + endings p'.workers =
    p'.workers.length := by
  have hcounted := h.counted
  cases hm with
  | @call e msg _ _ htype =>
    have hmsg : terminates [msg] = 0 := by rw [terminates_singleton, if_neg htype]
    simp only [terminates_append]
    omega
  | @overrun e msg hrunning _ htype =>
    have hmsg : terminates [msg] = 0 := by rw [terminates_singleton, if_neg htype]
    obtain ⟨-, -, hitems, -⟩ := h.none_waits hrunning
    have hpush := terminates_pushBack_le p.q msg
    simp only [push]
    omega
  | wait hmsg =>
    have herase := terminates_eraseIdx hmsg
    simp only [terminates_append]
    omega
  | @enqueue k msg hmsg hfull =>
    have herase := terminates_eraseIdx hmsg
    have hpush := terminates_pushBack p.q msg hfull
    simp only [push]
    omega
  | wakeProducer hmsg =>
    have herase := terminates_eraseIdx hmsg
    simp only [terminates_append]
    omega
  | notice _ hi | wakeWorker hi =>
    simp only [List.length_set]
    rw [endings_kept hi .locking rfl]
    exact hcounted
  | sleep hi =>
    simp only [List.length_set]
    rw [endings_kept hi .asleep rfl]
    exact hcounted
  | @dequeue i hi hempty =>
    have hset := endings_set hi (.notifying p.q.popFront.1)
    have hlocking : endings [.locking] = 0 := rfl
    have hnotifying : endings [.notifying p.q.popFront.1] = terminates [p.q.popFront.1] := Nat.zero_add _
    have hpop := congrArg terminates (p.q.items_popFront hempty).1
    rw [terminates_cons] at hpop
    simp only [List.length_set]
    omega
  | @roomUnused i msg hi =>
    simp only [List.length_set]
    rw [endings_kept hi (.handling msg) rfl]
    exact hcounted
  | @room i k msg item hi hitem =>
    have herase := terminates_eraseIdx hitem
    simp only [List.length_set, terminates_append]
    rw [endings_kept hi (.handling msg) rfl]
    omega
  | @handle i msg hi =>
    simp only [List.length_set]
    rw [endings_kept hi _ (endings_afterMsg msg)]
    exact hcounted
  | destroy hrunning =>
    rw [hrunning] at hcounted
    exact hcounted
  | postTerminate hleft hno =>
    rw [hleft, hno.1] at hcounted
    simp only [Shutdown.toPost, hno.2.1] at hcounted ⊢
    have hone : terminates [AsyncMsg.ofType none .terminate] = terminates [] + 1 := rfl
    omega
  | join hleft =>
    rw [hleft] at hcounted
    exact hcounted
  | noticeLost => exact hcounted

theorem ended_move (h : PoolEnding p) (hm : Move p e p') : terminates p'.handled = p'.workers.count .ended := by
  have hended := h.ended
  cases hm with
  | call | overrun | wait | enqueue | noticeLost | wakeProducer | destroy | postTerminate | join => exact hended
  | notice _ hi | wakeWorker hi => exact hended.trans (countP_set (· == Worker.ended) hi .locking).symm
  | sleep hi => exact hended.trans (countP_set (· == Worker.ended) hi .asleep).symm
  | @dequeue i hi => exact hended.trans (countP_set (· == Worker.ended) hi (.notifying _)).symm
  | @roomUnused i msg hi | @room i k msg item hi => exact hended.trans (countP_set (· == Worker.ended) hi (.handling msg)).symm
  | @handle i msg hi =>
    have hset : (p.workers.set i (afterMsg msg)).count .ended + 0 = p.workers.count .ended + terminates [msg] := by
      rw [← ended_afterMsg]
      exact countP_set (· == Worker.ended) hi (afterMsg msg)
    simp only [terminates_append]
    omega

theorem producers_move (h : PoolEnding p) (hm : Move p e p') (hshutdown : p'.shutdown ≠ .running) :
    ∀ msg ∈ p'.awake ++ p'.asleep, msg.msgType = .terminate := by
  intro msg hmem
  cases hm with
  | call hrunning | overrun hrunning => exact absurd hrunning hshutdown
  | @wait k item hitem =>
    apply h.producers hshutdown
    rw [List.mem_append, List.mem_append, List.mem_singleton] at hmem
    rw [List.mem_append]
    rcases hmem with hawake | hasleep | rfl
    · exact Or.inl (List.mem_of_mem_eraseIdx hawake)
    · exact Or.inr hasleep
    · exact Or.inl (List.mem_of_getElem? hitem)
  | enqueue hitem =>
    apply h.producers hshutdown
    rw [List.mem_append] at hmem ⊢
    exact hmem.imp_left List.mem_of_mem_eraseIdx
  | wakeProducer hitem | room _ hitem =>
    apply h.producers hshutdown
    rw [List.mem_append, List.mem_append, List.mem_singleton] at hmem
    rw [List.mem_append]
    rcases hmem with (hawake | rfl) | hasleep
    · exact Or.inl hawake
    · exact Or.inr (List.mem_of_getElem? hitem)
    · exact Or.inr (List.mem_of_mem_eraseIdx hasleep)
  | destroy _ hno =>
    rw [hno.1, hno.2.1] at hmem
    cases hmem
  | postTerminate _ hno =>
    rw [hno.2.1, List.append_nil, List.mem_singleton] at hmem
    rw [hmem]
    rfl
  | join hleft =>
    apply h.producers _ msg hmem
    rw [hleft]
    exact Shutdown.noConfusion
  | noticeLost | notice | sleep | dequeue | wakeWorker | roomUnused | handle =>
    exact h.producers hshutdown msg hmem

theorem joined_move (h : PoolEnding p) (hm : Move p e p') (hjoined : p'.shutdown = .joined) :
    p'.NoProducer ∧ ∀ worker ∈ p'.workers, worker = .ended := by
  cases hm with
  | join _ hno hall => exact ⟨hno, hall⟩
  | destroy => cases hjoined
  | postTerminate => cases hjoined
  | call hrunning | overrun hrunning => cases hrunning.symm.trans hjoined
  | wait hmsg | enqueue hmsg =>
    rw [(h.joined hjoined).1.1] at hmsg
    cases hmsg
  | wakeProducer hmsg =>
    rw [(h.joined hjoined).1.2.1] at hmsg
    cases hmsg
  | noticeLost hpos | notice hpos =>
    rw [(h.joined hjoined).1.2.2] at hpos
    cases hpos
  | sleep hi | dequeue hi | wakeWorker hi | roomUnused hi | room hi | handle hi =>
    have hended := (h.joined hjoined).2 _ (List.mem_of_getElem? hi)
    cases hended

/-- A further message, of the kind that its time allows. -/
theorem push_posted (h : PoolEnding p) {msg : AsyncMsg}
    (hkind : msg.msgType = .terminate ↔ p.shutdown ≠ .running) :
    (p.shutdown = .running → ∀ m ∈ p.posted ++ [msg], m.msgType ≠ .terminate) ∧
    (p.posted ++ [msg]).Pairwise fun m m' => m.msgType = .terminate → m'.msgType = .terminate := by
  constructor
  · intro hrunning m hm
    rcases List.mem_append.mp hm with hm | hm
    · exact h.running hrunning m hm
    · rw [List.mem_singleton.mp hm]
      exact fun hterminate => hkind.mp hterminate hrunning
  · rw [List.pairwise_append]
    refine ⟨h.last, List.pairwise_singleton _ _, ?_⟩
    intro m hm m' hm' hterminate
    rw [List.mem_singleton.mp hm', hkind]
    exact fun hrunning => h.running hrunning m hm hterminate

/-- The kind of the message of a producer. -/
theorem kind_of_awake (h : PoolEnding p) {k : Nat} {msg : AsyncMsg} (hmsg : p.awake[k]? = some msg) :
    msg.msgType = .terminate ↔ p.shutdown ≠ .running := by
  have hmem : msg ∈ p.awake := List.mem_of_getElem? hmsg
  constructor
  · intro hterminate hrunning
    exact terminates_eq_zero.mp (h.none_waits hrunning).1 msg hmem hterminate
  · intro hshutdown
    exact h.producers hshutdown msg (List.mem_append_left p.asleep hmem)

theorem posted_move (h : PoolEnding p) (hm : Move p e p') :
    (p'.shutdown = .running → ∀ m ∈ p'.posted, m.msgType ≠ .terminate) ∧
    p'.posted.Pairwise (fun m m' => m.msgType = .terminate → m'.msgType = .terminate) ∧
    ∀ m ∈ p'.dropped, m.msgType ≠ .terminate := by
  cases hm with
  | @overrun e msg hrunning _ htype =>
    obtain ⟨hnone, hlast⟩ := h.push_posted (iff_of_false htype (fun hnot => hnot hrunning))
    refine ⟨hnone, hlast, ?_⟩
    intro m hm
    rcases List.mem_append.mp hm with hm | hm
    · exact h.dropped m hm
    · split at hm
      · have hold := List.mem_of_mem_take hm
        rw [List.mem_append, List.mem_singleton] at hold
        rcases hold with hold | rfl
        · exact terminates_eq_zero.mp (h.none_waits hrunning).2.2.1 m hold
        · exact htype
      · cases hm
  | @enqueue k msg hmsg hfull =>
    obtain ⟨hnone, hlast⟩ := h.push_posted (h.kind_of_awake hmsg)
    refine ⟨hnone, hlast, ?_⟩
    intro m hm
    rcases List.mem_append.mp hm with hm | hm
    · exact h.dropped m hm
    · rw [hfull] at hm
      cases hm
  | destroy => exact ⟨Shutdown.noConfusion, h.last, h.dropped⟩
  | postTerminate => exact ⟨Shutdown.noConfusion, h.last, h.dropped⟩
  | join => exact ⟨Shutdown.noConfusion, h.last, h.dropped⟩
  | call | wait | noticeLost | notice | wakeProducer | sleep | dequeue | wakeWorker | roomUnused | room |
      handle => exact ⟨h.running, h.last, h.dropped⟩

end PoolEnding

theorem poolEnding_move (h : PoolEnding p) (hm : Move p e p') : PoolEnding p' where
  ended := h.ended_move hm
  counted := h.counted_move hm
  running := (h.posted_move hm).1
  producers := h.producers_move hm
  last := (h.posted_move hm).2.1
  dropped := (h.posted_move hm).2.2
  joined := h.joined_move hm

theorem poolEnding_new (n threadsN : Nat) : PoolEnding (new n threadsN) where
  ended := by
    show 0 = (List.replicate threadsN Worker.locking).count .ended
    rw [List.count_replicate]
    rfl
  counted := by
    have hendings : endings (List.replicate threadsN Worker.locking) = 0 := by
      rw [endings, List.count_replicate, List.filterMap_replicate_of_none rfl]
      rfl
    have hitems : (new n threadsN).q.items = [] := CircularQ.items_new
    rw [hitems]
    exact congrArg ((List.replicate threadsN Worker.locking).length + ·) hendings
  running := by simp [new]
  producers := by simp [new]
  last := List.Pairwise.nil
  dropped := by simp [new]
  joined := by simp [new]

theorem poolEnding_of_run {Admits : ThreadPool n → PoolEvent → Prop} {threadsN : Nat} {es : List PoolEvent}
    (h : Run step Admits (new n threadsN) es p) : PoolEnding p := by
  apply h.invariant (poolEnding_new n threadsN)
  intro s e s' hs _ hstep
  exact poolEnding_move hs (move_of_step hstep)

theorem construct_ok {qMaxItems threadsN : Nat} {start : ThreadPool qMaxItems}
    (h : construct qMaxItems threadsN = .ok start) :
    0 < threadsN ∧ threadsN ≤ 1000 ∧ start = new qMaxItems threadsN := by
  unfold construct at h
  split at h
  · cases h
  · rename_i hvalid
    cases h
    refine ⟨?_, ?_, rfl⟩
    · omega
    · omega

theorem workers_length {Admits : ThreadPool n → PoolEvent → Prop} {threadsN : Nat} {es : List PoolEvent}
    (h : Run step Admits (new n threadsN) es p) : p.workers.length = threadsN := by
  apply h.invariant (I := fun p => p.workers.length = threadsN) (List.length_replicate)
  intro s e s' hs _ hstep
  rw [← hs]
  cases move_of_step hstep with
  | notice | sleep | dequeue | wakeWorker | roomUnused | room | handle => exact List.length_set
  | call | overrun | wait | enqueue | noticeLost | wakeProducer | destroy | postTerminate | join => rfl

/-- When the destructor is done nothing waits any more: every message has been handled, or overrun and
counted, no terminate message was overrun, and as many were handled as there were threads. -/
theorem joined_handled {threadsN : Nat} {start : ThreadPool n} {es : List PoolEvent}
    (hstart : construct n threadsN = .ok start) (h : Run step AnyStep start es p)
    (hjoined : p.shutdown = .joined) :
    (es.filterMap PoolEvent.msg?).Perm (p.dropped ++ p.handled) ∧
    p.q.overrunCounter = p.dropped.length ∧ (∀ msg ∈ p.dropped, msg.msgType ≠ .terminate) ∧
    terminates p.handled = threadsN := by
  obtain ⟨hpos, -, rfl⟩ := construct_ok hstart
  have hending := poolEnding_of_run h
  have hhistory := poolHistory_of_run h
  obtain ⟨hno, hall⟩ := hending.joined hjoined
  have hworkers : p.workers = List.replicate threadsN .ended := by
    rw [List.eq_replicate_iff]
    exact ⟨workers_length h, hall⟩
  have hnone : p.inHand = [] := by
    rw [inHand, hworkers]
    exact List.filterMap_replicate_of_none rfl
  have hended : p.workers.count .ended = threadsN := by rw [hworkers, List.count_replicate_self]
  have hhandled : terminates p.handled = threadsN := hending.ended.trans hended
  have htaken : p.taken.Perm p.handled := by
    have hperm := hhistory.handled
    rwa [hnone, List.append_nil] at hperm
  -- no terminate message is left, and only these can follow one that was taken
  have hleft : terminates p.q.items = 0 := by
    have hcounted := hending.counted
    rw [endings, hended, workers_length h] at hcounted
    omega
  have hitems : p.q.items = [] := by
    have hfirst : 0 < terminates p.taken := by
      rw [terminates, htaken.countP_eq, ← terminates, hhandled]
      exact hpos
    obtain ⟨msg, hmsg, hterminate⟩ := List.countP_pos_iff.mp hfirst
    have hlast := hending.last.sublist hhistory.fifo.order
    rw [List.eq_nil_iff_forall_not_mem]
    intro msg' hmsg'
    have hafter := (List.pairwise_append.mp hlast).2.2 msg hmsg msg' hmsg'
    exact terminates_eq_zero.mp hleft msg' hmsg' (hafter (msg.isTerminate_iff.mp hterminate))
  refine ⟨?_, hhistory.overruns, hending.dropped, hhandled⟩
  have hall := (pool_history h).1
  simp only [hno.1, hno.2.1, hnone, hitems, List.append_nil, List.nil_append] at hall
  exact hall

/-- A message, and then the end. -/
theorem joined_handled_of_message : ∃ p : ThreadPool 1,
    Run step AnyStep (new 1 1) [.postLog 0 .sample .overrunOldest, .notifyWorker none, .dequeue 0,
      .notifyProducer 0 none, .handle 0, .destroy, .postTerminate, .lock 0, .notifyWorker none, .dequeue 0,
      .notifyProducer 0 none, .handle 0, .join] p ∧
    terminates p.handled = 1 ∧ p.dropped = [] := by
  have hrun : Run step AnyStep (new 1 1) [.postLog 0 .sample .overrunOldest, .notifyWorker none, .dequeue 0,
      .notifyProducer 0 none, .handle 0, .destroy, .postTerminate, .lock 0, .notifyWorker none, .dequeue 0,
      .notifyProducer 0 none, .handle 0, .join] _ := Run.of_replay rfl
  exact ⟨_, hrun, (joined_handled rfl hrun rfl).2.2.2, rfl⟩

/-! ## A queue without room -/

theorem taken_move_of_no_room {p p' : ThreadPool 0} (h : p.taken = []) (hm : Move p e p') : p'.taken = [] := by
  cases hm with
  | dequeue _ hempty =>
    have hlen : p.q.items.length = 0 := by
      rw [CircularQ.length_items]
      exact Nat.le_zero.mp p.q.size_le
    rw [(p.q.empty_iff).mpr (List.length_eq_zero_iff.mp hlen)] at hempty
    cases hempty
  | call | overrun | wait | enqueue | noticeLost | notice | wakeProducer | sleep | wakeWorker | roomUnused |
      room | handle | destroy | postTerminate | join => exact h

/-- The constructor takes a queue size of zero, but then the destructor never returns. -/
theorem no_room_never_joined {p start : ThreadPool 0} {threadsN : Nat} {es : List PoolEvent}
    (hstart : construct 0 threadsN = .ok start) (h : Run step AnyStep start es p) :
    p.shutdown ≠ .joined := by
  intro hjoined
  obtain ⟨-, -, -, hhandled⟩ := joined_handled hstart h hjoined
  obtain ⟨hpos, -, rfl⟩ := construct_ok hstart
  have htaken : p.taken = [] := by
    apply h.invariant (I := fun p => p.taken = []) rfl
    intro s e s' hs _ hstep
    exact taken_move_of_no_room hs (move_of_step hstep)
  have hnone : p.handled = [] := by
    have hperm := (poolHistory_of_run h).handled
    rw [htaken] at hperm
    exact (List.append_eq_nil_iff.mp hperm.nil_eq.symm).1
  rw [hnone] at hhandled
  exact absurd hhandled.symm (Nat.ne_of_gt hpos)

theorem no_room_never_joined_of_destroy : ∃ p : ThreadPool 0,
    Run step AnyStep (new 0 1) [.destroy, .postTerminate, .lock 0] p ∧ p.shutdown ≠ .joined := by
  have hrun : Run step AnyStep (new 0 1) [.destroy, .postTerminate, .lock 0] _ := Run.of_replay rfl
  have hstart : construct 0 1 = .ok (new 0 1) := rfl
  exact ⟨_, hrun, no_room_never_joined hstart hrun⟩

end ThreadPool

end RedisLuaLinux.Spdlog
