import RedisLuaLinux.Library.Fifo
import RedisLuaLinux.Library.Run
import RedisLuaLinux.Spdlog.CircularQ
import RedisLuaLinux.Spdlog.LogMsg

/-!
# The thread pool of the asynchronous loggers

`mpmc_blocking_queue` and `thread_pool` as a step function. A step is what one thread does between
two points at which another thread can come in: the part of a queue operation under the mutex, one
`notify_one`, a wake-up from a wait, or the callback of a message run to its end. A thread that
waits on a condition variable is woken by a notice, and may wake up without one or, in
`dequeue_for`, when its time is over.

The histories `posted`, `dropped`, `taken` and `handled` are not in the program: what was pushed,
overrun and popped, and whose callback has ended.

`move_of_step` says once what a step can do.
-/

namespace RedisLuaLinux.Spdlog

open Library

inductive OverflowPolicy
  | block
  | overrunOldest
  deriving DecidableEq, Repr

/-- A thread of the pool: about to lock the mutex in `dequeue_for`, waiting there for an item, about to
notify a producer, running the callback of a message, or at the end of its loop. -/
inductive Worker
  | locking
  | asleep
  | notifying (msg : AsyncMsg)
  | handling (msg : AsyncMsg)
  | ended
  deriving DecidableEq, Repr

/-- The destructor: not called, with terminate messages left to post, or done. -/
inductive Shutdown
  | running
  | posting (left : Nat)
  | joined
  deriving DecidableEq, Repr

structure ThreadPool (n : Nat) where
  q : CircularQ AsyncMsg n
  -- the items of the threads in `enqueue` that are about to lock the mutex
  awake : List AsyncMsg
  -- the items of the threads that wait in `enqueue` for room
  asleep : List AsyncMsg
  -- threads that have pushed and are about to notify a worker
  pushNotices : Nat
  workers : List Worker
  shutdown : Shutdown
  posted : List AsyncMsg
  dropped : List AsyncMsg
  taken : List AsyncMsg
  handled : List AsyncMsg

inductive PoolEvent
  | postLog (workerPtr : Ptr) (msg : LogMsg) (policy : OverflowPolicy)
  | postFlush (workerPtr : Ptr) (policy : OverflowPolicy)
  | lock (k : Nat)
  | notifyWorker (i : Option Nat)
  | wakeProducer (k : Nat)
  | dequeue (i : Nat)
  | wakeWorker (i : Nat)
  | notifyProducer (i : Nat) (k : Option Nat)
  | handle (i : Nat)
  | destroy
  | postTerminate
  | join
  deriving DecidableEq, Repr

/-- The policy of a logger that posts. -/
def PoolEvent.policy? : PoolEvent → Option OverflowPolicy
  | .postLog _ _ policy => some policy
  | .postFlush _ policy => some policy
  | _ => none

/-- The message that an event brings in. -/
def PoolEvent.msg? : PoolEvent → Option AsyncMsg
  | .postLog workerPtr msg _ => some (.ofLogMsg workerPtr msg)
  | .postFlush workerPtr _ => some (.ofType (some workerPtr) .flush)
  | .postTerminate => some (.ofType none .terminate)
  | _ => none

namespace ThreadPool

variable {n : Nat}

/-- `threads_n` threads at the start of their loops. -/
def new (qMaxItems threadsN : Nat) : ThreadPool qMaxItems where
  q := CircularQ.new AsyncMsg qMaxItems
  awake := []
  asleep := []
  pushNotices := 0
  workers := List.replicate threadsN .locking
  shutdown := .running
  posted := []
  dropped := []
  taken := []
  handled := []

/-- `push_back` under the mutex. -/
def push (p : ThreadPool n) (msg : AsyncMsg) : ThreadPool n :=
  { p with
    q := p.q.pushBack msg
    pushNotices := p.pushNotices + 1
    posted := p.posted ++ [msg]
    dropped := p.dropped ++ if p.q.full then (p.q.items ++ [msg]).take 1 else [] }

/-- `post_async_msg_`: `enqueue` up to the mutex, or all of `enqueue_nowait` but its notice. -/
def postAsyncMsg (p : ThreadPool n) (msg : AsyncMsg) : OverflowPolicy → ThreadPool n
  | .block => { p with awake := p.awake ++ [msg] }
  | .overrunOldest => p.push msg

/-- No thread is inside of `post_async_msg_`. -/
def NoProducer (p : ThreadPool n) : Prop := p.awake = [] ∧ p.asleep = [] ∧ p.pushNotices = 0

instance (p : ThreadPool n) : Decidable p.NoProducer :=
  inferInstanceAs (Decidable (p.awake = [] ∧ p.asleep = [] ∧ p.pushNotices = 0))

/-- What a worker does with a message whose callback has ended. -/
def afterMsg (msg : AsyncMsg) : Worker :=
  match msg.msgType with
  | .log => .locking
  | .flush => .locking
  | .terminate => .ended

/-- Who posts to the pool holds a pointer to it, so that the destructor runs when no one does. -/
def step (p : ThreadPool n) : PoolEvent → Option (ThreadPool n)
  | .postLog workerPtr msg policy =>
    if p.shutdown = .running then some (p.postAsyncMsg (.ofLogMsg workerPtr msg) policy) else none
  | .postFlush workerPtr policy =>
    if p.shutdown = .running then some (p.postAsyncMsg (.ofType (some workerPtr) .flush) policy) else none
  | .lock k =>
    match p.awake[k]? with
    | none => none
    | some msg =>
      let p := { p with awake := p.awake.eraseIdx k }
      if p.q.full then some { p with asleep := p.asleep ++ [msg] } else some (p.push msg)
  | .notifyWorker i =>
    if p.pushNotices = 0 then none
    else
      let p := { p with pushNotices := p.pushNotices - 1 }
      match i with
      | none => if .asleep ∈ p.workers then none else some p
      | some i =>
        if p.workers[i]? = some .asleep then some { p with workers := p.workers.set i .locking }
        else none
  | .wakeProducer k =>
    match p.asleep[k]? with
    | none => none
    | some msg => some { p with asleep := p.asleep.eraseIdx k, awake := p.awake ++ [msg] }
  | .dequeue i =>
    if p.workers[i]? = some .locking then
      if p.q.empty then some { p with workers := p.workers.set i .asleep }
      else
        let (msg, q) := p.q.popFront
        some { p with q := q, taken := p.taken ++ [msg], workers := p.workers.set i (.notifying msg) }
    else none
  | .wakeWorker i =>
    if p.workers[i]? = some .asleep then some { p with workers := p.workers.set i .locking } else none
  | .notifyProducer i k =>
    match p.workers[i]? with
    | some (.notifying msg) =>
      let p := { p with workers := p.workers.set i (.handling msg) }
      match k with
      | none => if p.asleep = [] then some p else none
      | some k =>
        match p.asleep[k]? with
        | none => none
        | some item => some { p with asleep := p.asleep.eraseIdx k, awake := p.awake ++ [item] }
    | _ => none
  | .handle i =>
    match p.workers[i]? with
    | some (.handling msg) =>
      some { p with workers := p.workers.set i (afterMsg msg), handled := p.handled ++ [msg] }
    | _ => none
  | .destroy =>
    if p.shutdown = .running ∧ p.NoProducer then
      some { p with shutdown := .posting p.workers.length }
    else none
  | .postTerminate =>
    match p.shutdown with
    | .posting (left + 1) =>
      if p.NoProducer then
        some { p with shutdown := .posting left, awake := [.ofType none .terminate] }
      else none
    | _ => none
  | .join =>
    if p.shutdown = .posting 0 ∧ p.NoProducer ∧ ∀ worker ∈ p.workers, worker = .ended then
      some { p with shutdown := .joined }
    else none

/-- What one step can do. -/
inductive Move (p : ThreadPool n) : PoolEvent → ThreadPool n → Prop
  | call {e : PoolEvent} {msg : AsyncMsg} : p.shutdown = .running → e.msg? = some msg →
      msg.msgType ≠ .terminate → e.policy? = some .block → Move p e { p with awake := p.awake ++ [msg] }
  | overrun {e : PoolEvent} {msg : AsyncMsg} : p.shutdown = .running → e.msg? = some msg →
      msg.msgType ≠ .terminate → e.policy? = some .overrunOldest → Move p e (p.push msg)
  | wait {k : Nat} {msg : AsyncMsg} : p.awake[k]? = some msg → p.q.full = true →
      Move p (.lock k) { p with awake := p.awake.eraseIdx k, asleep := p.asleep ++ [msg] }
  | enqueue {k : Nat} {msg : AsyncMsg} : p.awake[k]? = some msg → p.q.full = false →
      Move p (.lock k) (push { p with awake := p.awake.eraseIdx k } msg)
  | noticeLost : 0 < p.pushNotices → .asleep ∉ p.workers →
      Move p (.notifyWorker none) { p with pushNotices := p.pushNotices - 1 }
  | notice {i : Nat} : 0 < p.pushNotices → p.workers[i]? = some .asleep →
      Move p (.notifyWorker (some i))
        { p with pushNotices := p.pushNotices - 1, workers := p.workers.set i .locking }
  | wakeProducer {k : Nat} {msg : AsyncMsg} : p.asleep[k]? = some msg →
      Move p (.wakeProducer k) { p with asleep := p.asleep.eraseIdx k, awake := p.awake ++ [msg] }
  | sleep {i : Nat} : p.workers[i]? = some .locking → p.q.empty = true →
      Move p (.dequeue i) { p with workers := p.workers.set i .asleep }
  | dequeue {i : Nat} : p.workers[i]? = some .locking → p.q.empty = false →
      Move p (.dequeue i) { p with
        q := p.q.popFront.2
        taken := p.taken ++ [p.q.popFront.1]
        workers := p.workers.set i (.notifying p.q.popFront.1) }
  | wakeWorker {i : Nat} : p.workers[i]? = some .asleep →
      Move p (.wakeWorker i) { p with workers := p.workers.set i .locking }
  | roomUnused {i : Nat} {msg : AsyncMsg} : p.workers[i]? = some (.notifying msg) → p.asleep = [] →
      Move p (.notifyProducer i none) { p with workers := p.workers.set i (.handling msg) }
  | room {i k : Nat} {msg item : AsyncMsg} : p.workers[i]? = some (.notifying msg) →
      p.asleep[k]? = some item → Move p (.notifyProducer i (some k)) { p with
        workers := p.workers.set i (.handling msg)
        asleep := p.asleep.eraseIdx k
        awake := p.awake ++ [item] }
  | handle {i : Nat} {msg : AsyncMsg} : p.workers[i]? = some (.handling msg) →
      Move p (.handle i)
        { p with workers := p.workers.set i (afterMsg msg), handled := p.handled ++ [msg] }
  | destroy : p.shutdown = .running → p.NoProducer →
      Move p .destroy { p with shutdown := .posting p.workers.length }
  | postTerminate {left : Nat} : p.shutdown = .posting (left + 1) → p.NoProducer →
      Move p .postTerminate
        { p with shutdown := .posting left, awake := [.ofType none .terminate] }
  | join : p.shutdown = .posting 0 → p.NoProducer → (∀ worker ∈ p.workers, worker = .ended) →
      Move p .join { p with shutdown := .joined }

theorem move_of_post {p p' : ThreadPool n} {e : PoolEvent} {msg : AsyncMsg} {policy : OverflowPolicy}
    (hmsg : e.msg? = some msg) (htype : msg.msgType ≠ .terminate) (hpolicy : e.policy? = some policy)
    (h : (if p.shutdown = .running then some (p.postAsyncMsg msg policy) else none) = some p') :
    Move p e p' := by
  split at h
  · rename_i hrunning
    cases h
    cases policy with
    | block => exact Move.call hrunning hmsg htype hpolicy
    | overrunOldest => exact Move.overrun hrunning hmsg htype hpolicy
  · cases h

theorem move_of_step {p p' : ThreadPool n} {e : PoolEvent} (h : p.step e = some p') : Move p e p' := by
  cases e with
  | postLog workerPtr msg policy => exact move_of_post rfl (by simp [AsyncMsg.ofLogMsg]) rfl h
  | postFlush workerPtr policy => exact move_of_post rfl (by simp [AsyncMsg.ofType]) rfl h
  | lock k =>
    simp only [step] at h
    split at h
    · cases h
    · rename_i msg hmsg
      split at h
      · rename_i hfull
        cases h
        exact Move.wait hmsg hfull
      · rename_i hfull
        cases h
        exact Move.enqueue hmsg (Bool.eq_false_of_not_eq_true hfull)
  | notifyWorker i =>
    simp only [step] at h
    split at h
    · cases h
    · rename_i hpos
      have hpos := Nat.pos_of_ne_zero hpos
      cases i with
      | none =>
        dsimp only at h
        split at h
        · cases h
        · rename_i hasleep
          cases h
          exact Move.noticeLost hpos hasleep
      | some i =>
        dsimp only at h
        split at h
        · rename_i hasleep
          cases h
          exact Move.notice hpos hasleep
        · cases h
  | wakeProducer k =>
    simp only [step] at h
    split at h
    · cases h
    · rename_i msg hmsg
      cases h
      exact Move.wakeProducer hmsg
  | dequeue i =>
    simp only [step] at h
    split at h
    · rename_i hlocking
      split at h
      · rename_i hempty
        cases h
        exact Move.sleep hlocking hempty
      · rename_i hempty
        cases h
        exact Move.dequeue hlocking (Bool.eq_false_of_not_eq_true hempty)
    · cases h
  | wakeWorker i =>
    simp only [step] at h
    split at h
    · rename_i hasleep
      cases h
      exact Move.wakeWorker hasleep
    · cases h
  | notifyProducer i k =>
    simp only [step] at h
    split at h
    · rename_i msg hmsg
      cases k with
      | none =>
        dsimp only at h
        split at h
        · rename_i hasleep
          cases h
          exact Move.roomUnused hmsg hasleep
        · cases h
      | some k =>
        dsimp only at h
        split at h
        · cases h
        · rename_i item hitem
          cases h
          exact Move.room hmsg hitem
    · cases h
  | handle i =>
    simp only [step] at h
    split at h
    · rename_i msg hmsg
      cases h
      exact Move.handle hmsg
    · cases h
  | destroy =>
    simp only [step] at h
    split at h
    · rename_i hcan
      cases h
      exact Move.destroy hcan.1 hcan.2
    · cases h
  | postTerminate =>
    simp only [step] at h
    split at h
    · rename_i left hleft
      split at h
      · rename_i hno
        cases h
        exact Move.postTerminate hleft hno
      · cases h
    · cases h
  | join =>
    simp only [step] at h
    split at h
    · rename_i hcan
      cases h
      exact Move.join hcan.1 hcan.2.1 hcan.2.2
    · cases h

end ThreadPool

end RedisLuaLinux.Spdlog
