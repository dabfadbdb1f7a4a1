import RedisLuaLinux.Library.Progress
import RedisLuaLinux.Spdlog.Logger
import RedisLuaLinux.Spdlog.PoolEnding

/-!
# Asynchronous loggers

The functions that a worker of the pool calls for a message. Their `try` is around the loops over the
sinks, that of a synchronous logger is inside of them.

* `backend_reaches`: a sink that raises an exception keeps the message from the sinks behind it.
* `async_as_sync`: where none does, a pool with one worker leaves the sinks, when its destructor is
  done, as synchronous loggers do with the same calls in the order in which they were pushed, but for
  the messages that were overrun.
* `async_in_order`: with one logging thread that blocks, these are its calls in their order.
-/

namespace RedisLuaLinux.Spdlog

open Library

variable {δ : Type} (code : SinkCode δ)

namespace Logger

def backendFlush (logger : Logger) (w : Outputs δ) : Outputs δ :=
  tryAll (Outputs.act code.flush) (logger.errHandler code) logger.sinks w

def backendLog (logger : Logger) (msg : LogMsg) (w : Outputs δ) : Outputs δ :=
  let w := tryAll (Outputs.act (code.sinkIt msg)) (logger.errHandler code) logger.sinks w
  if logger.shouldFlush msg then logger.backendFlush code w else w

variable {code}

/-- What becomes of a sink where the sinks before it may raise an exception. -/
def unlessRaised (own : δ → δ × Option Text) (before : List Ptr) (sinks : Ptr → δ) (ptr : Ptr) : δ :=
  if ∀ ptr' ∈ before, (own (sinks ptr')).2 = none then (own (sinks ptr)).1 else sinks ptr

variable (code) in
theorem tryAll_unlessRaised (logger : Logger) (own : δ → δ × Option Text) (hnodup : logger.sinks.Nodup)
    (w : Outputs δ) {ptr : Ptr} (hptr : ptr ∈ logger.sinks) :
    (tryAll (Outputs.act own) (logger.errHandler code) logger.sinks w).sinks ptr =
      unlessRaised own (before ptr logger.sinks) w.sinks ptr := by
  obtain ⟨hcalm, hraised⟩ := tryAll_at (logger.ownAction code own) hptr hnodup w
  unfold unlessRaised
  split
  · rename_i hall
    exact hcalm hall
  · rename_i hsome
    apply hraised
    by_contra hnone
    apply hsome
    intro ptr' hptr'
    by_contra hne
    exact hnone ⟨ptr', hptr', hne⟩

/-- A sink of an asynchronous logger has the message unless one of the sinks before it raises an
exception over it, and the same goes for a flush. -/
theorem backend_reaches (logger : Logger) (hnodup : logger.sinks.Nodup) (msg : LogMsg) (w : Outputs δ)
    {ptr : Ptr} (hptr : ptr ∈ logger.sinks) :
    let logged := fun ptr' => unlessRaised (code.sinkIt msg) (before ptr' logger.sinks) w.sinks ptr'
    (logger.backendLog code msg w).sinks ptr =
      if logger.shouldFlush msg then unlessRaised code.flush (before ptr logger.sinks) logged ptr
      else logged ptr := by
  intro logged
  have hlogged (ptr' : Ptr) (hmem : ptr' ∈ logger.sinks) :
      (tryAll (Outputs.act (code.sinkIt msg)) (logger.errHandler code) logger.sinks w).sinks ptr' = logged ptr' :=
    logger.tryAll_unlessRaised code (code.sinkIt msg) hnodup w hmem
  unfold backendLog
  by_cases hflush : logger.shouldFlush msg
  · simp only [if_pos hflush]
    rw [backendFlush, logger.tryAll_unlessRaised code code.flush hnodup _ hptr]
    have hbefore : ∀ ptr' ∈ before ptr logger.sinks, ptr' ∈ logger.sinks := by
      intro ptr' hmem
      exact (List.takeWhile_sublist _).subset hmem
    unfold unlessRaised
    rw [hlogged ptr hptr]
    have hcond : (∀ ptr' ∈ before ptr logger.sinks,
        (code.flush ((tryAll (Outputs.act (code.sinkIt msg)) (logger.errHandler code) logger.sinks w).sinks ptr')).2 = none) ↔
        ∀ ptr' ∈ before ptr logger.sinks, (code.flush (logged ptr')).2 = none := by
      apply forall₂_congr
      intro ptr' hmem
      rw [hlogged ptr' (hbefore ptr' hmem)]
    simp only [hcond]
  · simp only [if_neg hflush]
    exact hlogged ptr hptr

/-- The sink behind one that raises an exception goes without the message. -/
theorem backend_reaches_of_full : (oneFull.backendLog fullAtZero .sample ⟨fun ptr => (ptr, []), []⟩).sinks 1 =
    if oneFull.shouldFlush .sample then
      unlessRaised fullAtZero.flush [0]
        (fun ptr => unlessRaised (fullAtZero.sinkIt .sample) (before ptr oneFull.sinks) (fun ptr => (ptr, [])) ptr) 1
    else (1, []) :=
  backend_reaches oneFull (by decide) .sample ⟨fun ptr => (ptr, []), []⟩ (by decide)

end Logger

/-! ## A pool of loggers -/

/-- The case of `process_next_msg_` for a message. -/
def callback (loggers : Ptr → Logger) (w : Outputs δ) (msg : AsyncMsg) : Outputs δ :=
  match msg.msgType, msg.workerPtr with
  | .log, some ptr => (loggers ptr).backendLog code (msg.toLogMsg (loggers ptr).name) w
  | .flush, some ptr => (loggers ptr).backendFlush code w
  | _, _ => w

/-- A call of a logger. -/
inductive LogCall
  | log (ptr : Ptr) (msg : LogMsg)
  | flush (ptr : Ptr)
  deriving DecidableEq, Repr

/-- What the call does where the logger is a synchronous one. -/
def LogCall.run (loggers : Ptr → Logger) (w : Outputs δ) : LogCall → Outputs δ
  | log ptr msg => (loggers ptr).log code msg w
  | flush ptr => (loggers ptr).flush code w

def PoolEvent.call? : PoolEvent → Option LogCall
  | postLog ptr msg _ => some (.log ptr msg)
  | postFlush ptr _ => some (.flush ptr)
  | _ => none

/-- A logger posts what its level admits, under its name. -/
def PoolEvent.ByLogger (loggers : Ptr → Logger) : PoolEvent → Prop
  | postLog ptr msg _ => (loggers ptr).shouldLog msg.level ∧ msg.loggerName = (loggers ptr).name
  | _ => True

def AsyncMsg.call? (loggers : Ptr → Logger) (msg : AsyncMsg) : Option LogCall :=
  match msg.msgType, msg.workerPtr with
  | .log, some ptr => some (.log ptr (msg.toLogMsg (loggers ptr).name))
  | .flush, some ptr => some (.flush ptr)
  | _, _ => none

/-- A message comes from a logger that admits it, or is a terminate message. -/
def AsyncMsg.ByLogger (loggers : Ptr → Logger) (msg : AsyncMsg) : Prop :=
  msg.msgType = .terminate ∨ ∃ ptr, msg.workerPtr = some ptr ∧
    (msg.msgType = .log → (loggers ptr).shouldLog msg.level)

variable {code} {loggers : Ptr → Logger}

theorem PoolEvent.ByLogger.msg {e : PoolEvent} (h : e.ByLogger loggers) :
    e.msg?.bind (AsyncMsg.call? loggers) = e.call? ∧ ∀ msg ∈ e.msg?, msg.ByLogger loggers := by
  cases e with
  | postLog ptr msg policy =>
    obtain ⟨hlevel, hname⟩ := h
    constructor
    · simp only [PoolEvent.msg?, Option.bind_some, AsyncMsg.call?, AsyncMsg.ofLogMsg, AsyncMsg.toLogMsg,
        ← hname]
      rfl
    · intro m hm
      cases hm
      exact Or.inr ⟨ptr, rfl, fun _ => hlevel⟩
  | postFlush ptr policy =>
    refine ⟨rfl, ?_⟩
    intro m hm
    cases hm
    refine Or.inr ⟨ptr, rfl, ?_⟩
    intro hlog
    cases hlog
  | postTerminate =>
    refine ⟨rfl, ?_⟩
    intro m hm
    cases hm
    exact Or.inl rfl
  | lock | notifyWorker | wakeProducer | dequeue | wakeWorker | notifyProducer | handle | destroy | join =>
    refine ⟨rfl, ?_⟩
    intro m hm
    cases hm

theorem call_of_not_terminate {msg : AsyncMsg} (h : msg.ByLogger loggers) (htype : msg.msgType ≠ .terminate) :
    (msg.call? loggers).isSome := by
  rcases h with hterminate | ⟨ptr, hptr, -⟩
  · exact absurd hterminate htype
  · unfold AsyncMsg.call?
    rw [hptr]
    cases hmsg : msg.msgType with
    | log => rfl
    | flush => rfl
    | terminate => exact absurd hmsg htype

theorem backendFlush_calm (hcalm : code.Calm) (logger : Logger) (w : Outputs δ) :
    logger.backendFlush code w = logger.flush code w := by
  apply tryAll_eq_tryEach
  intro ptr w
  exact hcalm.flush (w.sinks ptr)

theorem backendLog_calm (hcalm : code.Calm) (logger : Logger) (msg : LogMsg) (w : Outputs δ) :
    logger.backendLog code msg w = logger.sinkIt code msg w := by
  unfold Logger.backendLog Logger.sinkIt
  rw [tryAll_eq_tryEach (sinkIt_calm hcalm msg)]
  simp only [backendFlush_calm hcalm]

/-- The worker does what a synchronous logger would have done. -/
theorem callback_eq (hcalm : code.Calm) {msg : AsyncMsg} (h : msg.ByLogger loggers) (w : Outputs δ) :
    callback code loggers w msg = (msg.call? loggers).elim w (LogCall.run code loggers w) := by
  unfold callback AsyncMsg.call?
  cases hmsg : msg.msgType with
  | terminate => rfl
  | flush =>
    cases hptr : msg.workerPtr with
    | none => rfl
    | some ptr => exact backendFlush_calm hcalm (loggers ptr) w
  | log =>
    rcases h with hterminate | ⟨ptr, hptr, hlevel⟩
    · rw [hmsg] at hterminate
      cases hterminate
    · rw [hptr]
      dsimp only
      rw [backendLog_calm hcalm]
      exact (if_pos (hlevel hmsg)).symm

theorem foldl_callback (hcalm : code.Calm) {msgs : List AsyncMsg} (h : ∀ msg ∈ msgs, msg.ByLogger loggers)
    (w : Outputs δ) :
    msgs.foldl (callback code loggers) w =
      (msgs.filterMap (AsyncMsg.call? loggers)).foldl (LogCall.run code loggers) w := by
  induction msgs generalizing w with
  | nil => rfl
  | cons msg msgs ih =>
    have hrest := ih (fun m hm => h m (List.mem_cons_of_mem msg hm))
    rw [List.foldl_cons, callback_eq hcalm (h msg List.mem_cons_self), hrest]
    cases hcall : msg.call? loggers with
    | none =>
      rw [List.filterMap_cons_none hcall]
      rfl
    | some call =>
      rw [List.filterMap_cons_some hcall]
      rfl

section OneWorker

open ThreadPool

variable {n : Nat} {start p p' : ThreadPool n} {e : PoolEvent} {es : List PoolEvent}

def FromLoggers (loggers : Ptr → Logger) (_ : ThreadPool n) (e : PoolEvent) : Prop := e.ByLogger loggers

theorem msgs_byLogger (h : ∀ e ∈ es, e.ByLogger loggers) :
    (∀ msg ∈ es.filterMap PoolEvent.msg?, msg.ByLogger loggers) ∧
    (es.filterMap PoolEvent.msg?).filterMap (AsyncMsg.call? loggers) = es.filterMap PoolEvent.call? := by
  constructor
  · intro msg hmsg
    obtain ⟨e, he, hmsg⟩ := List.mem_filterMap.mp hmsg
    exact (h e he).msg.2 msg hmsg
  · rw [List.filterMap_filterMap]
    apply List.filterMap_congr
    intro e he
    exact (h e he).msg.1

/-- When the destructor of a pool with one worker is done, each call that was made has been pushed, and
the sinks are as synchronous loggers leave them with the calls in the order of the pushes, less those that
were overrun and counted. -/
theorem async_as_sync (hcalm : code.Calm) (hstart : construct n 1 = .ok start)
    (h : Run step (FromLoggers loggers) start es p) (hjoined : p.shutdown = .joined) (w : Outputs δ) :
    let order := p.posted.filterMap (AsyncMsg.call? loggers)
    order.Perm (es.filterMap PoolEvent.call?) ∧
    ∃ kept : List LogCall, kept.Sublist order ∧ kept.length + p.q.overrunCounter = order.length ∧
      p.handled.foldl (callback code loggers) w = kept.foldl (LogCall.run code loggers) w := by
  intro order
  obtain ⟨hperm, hcounter, hdropped, -⟩ := joined_handled hstart h.anyStep hjoined
  obtain ⟨-, -, rfl⟩ := construct_ok hstart
  obtain ⟨hmsgs, hcalls⟩ := msgs_byLogger (h.forall_events (fun _ _ hadmits => hadmits))
  have hhistory := poolHistory_of_run h
  obtain ⟨hno, hended⟩ := (poolEnding_of_run h).joined hjoined
  have hposted : (es.filterMap PoolEvent.msg?).Perm p.posted := by
    have hall := handedOver_of_run h
    rwa [handedOver, hno.1, hno.2.1, List.append_nil, List.append_nil] at hall
  have hhandled : p.handled.Sublist p.posted := by
    obtain ⟨worker, hworkers, htaken⟩ := oneWorker_of_run h
    rw [hended worker (by rw [hworkers]; exact List.mem_singleton_self worker)] at htaken
    have hsame : p.taken = p.handled := htaken.trans (List.append_nil p.handled)
    rw [← hsame]
    exact (List.sublist_append_left _ _).trans hhistory.fifo.order
  refine ⟨?_, p.handled.filterMap (AsyncMsg.call? loggers), hhandled.filterMap _, ?_, ?_⟩
  · rw [← hcalls]
    exact (hposted.filterMap _).symm
  · have hlost : (p.dropped.filterMap (AsyncMsg.call? loggers)).length = p.dropped.length := by
      rw [List.filterMap_length_eq_length]
      intro msg hmsg
      apply call_of_not_terminate _ (hdropped msg hmsg)
      apply hmsgs
      exact hperm.symm.subset (List.mem_append_left _ hmsg)
    have hall := ((hposted.symm.trans hperm).filterMap (AsyncMsg.call? loggers)).length_eq
    rw [List.filterMap_append, List.length_append] at hall
    show _ = (p.posted.filterMap (AsyncMsg.call? loggers)).length
    omega
  · apply foldl_callback hcalm
    intro msg hmsg
    apply hmsgs
    exact hposted.symm.subset (hhandled.subset hmsg)

def oneMessage : List PoolEvent :=
  [.postLog 0 .sample .block, .lock 0, .notifyWorker none, .dequeue 0, .notifyProducer 0 none, .handle 0,
    .destroy, .postTerminate, .lock 0, .notifyWorker none, .dequeue 0, .notifyProducer 0 none, .handle 0, .join]

/-- A logger with one sink. -/
def appLogger : Ptr → Logger := fun _ => { name := LogMsg.sample.loggerName, sinks := [0] }

instance (loggers : Ptr → Logger) (e : PoolEvent) : Decidable (e.ByLogger loggers) :=
  match e with
  | .postLog ptr msg _ =>
    inferInstanceAs (Decidable ((loggers ptr).shouldLog msg.level ∧ msg.loggerName = (loggers ptr).name))
  | .postFlush _ _ | .lock _ | .notifyWorker _ | .wakeProducer _ | .dequeue _ | .wakeWorker _
  | .notifyProducer _ _ | .handle _ | .destroy | .postTerminate | .join => isTrue trivial

instance (loggers : Ptr → Logger) (p : ThreadPool n) (e : PoolEvent) : Decidable (FromLoggers loggers p e) :=
  inferInstanceAs (Decidable (e.ByLogger loggers))

theorem async_as_sync_of_message : ∃ p : ThreadPool 1, Run step (FromLoggers appLogger) (new 1 1) oneMessage p ∧
    ∃ kept : List LogCall, p.handled.foldl (callback memory appLogger) ⟨fun _ => [], []⟩ =
      kept.foldl (LogCall.run memory appLogger) ⟨fun _ => [], []⟩ := by
  have hstart : construct 1 1 = .ok (new 1 1) := rfl
  have hrun : Run step (FromLoggers appLogger) (new 1 1) oneMessage _ := Run.of_replay_guarded rfl
  obtain ⟨-, kept, -, -, hsame⟩ := async_as_sync memory_calm hstart hrun rfl ⟨fun _ => [], []⟩
  exact ⟨_, hrun, kept, hsame⟩

/-! ## One logging thread -/

/-- The thread makes its next call when the one before has returned, and blocks. -/
def OneCaller (loggers : Ptr → Logger) (p : ThreadPool n) (e : PoolEvent) : Prop :=
  e.ByLogger loggers ∧ e.policy? ≠ some .overrunOldest ∧ (e.policy? = some .block → p.awake = [] ∧ p.asleep = [])

/-- What has come in is posted, but for one message at most. -/
def InOrder (es : List PoolEvent) (p : ThreadPool n) : Prop :=
  es.filterMap PoolEvent.msg? = p.handedOver ∧ (p.awake ++ p.asleep).length ≤ 1

theorem eq_singleton {msgs : List AsyncMsg} {k : Nat} {msg : AsyncMsg} (hk : msgs[k]? = some msg)
    (hlength : msgs.length ≤ 1) : k = 0 ∧ msgs = [msg] := by
  obtain ⟨hlt, rfl⟩ := List.getElem?_eq_some_iff.mp hk
  obtain ⟨only, rfl⟩ := List.length_eq_one_iff.mp (by omega : msgs.length = 1)
  have hzero : k = 0 := by
    rw [List.length_singleton] at hlt
    omega
  subst hzero
  exact ⟨rfl, rfl⟩

theorem handedOver_inOrder (hlength : (p.awake ++ p.asleep).length ≤ 1)
    (hone : e.policy? ≠ some .overrunOldest ∧ (e.policy? = some .block → p.awake = [] ∧ p.asleep = []))
    (hm : Move p e p') :
    p'.handedOver = p.handedOver ++ e.msg?.toList ∧ (p'.awake ++ p'.asleep).length ≤ 1 := by
  rw [List.length_append] at hlength
  cases hm with
  | call _ hmsg _ hpolicy =>
    obtain ⟨hawake, hasleep⟩ := hone.2 hpolicy
    simp [handedOver, hawake, hasleep, hmsg]
  | overrun _ _ _ hpolicy => exact absurd hpolicy hone.1
  | wait hmsg hfull =>
    obtain ⟨rfl, hawake⟩ := eq_singleton hmsg (by omega)
    have hasleep : p.asleep = [] := by
      rw [hawake, List.length_singleton] at hlength
      exact List.length_eq_zero_iff.mp (by omega)
    simp [handedOver, hawake, hasleep, PoolEvent.msg?]
  | enqueue hmsg hfull =>
    obtain ⟨rfl, hawake⟩ := eq_singleton hmsg (by omega)
    have hasleep : p.asleep = [] := by
      rw [hawake, List.length_singleton] at hlength
      exact List.length_eq_zero_iff.mp (by omega)
    simp [handedOver, push, hawake, hasleep, PoolEvent.msg?]
  | wakeProducer hmsg | room _ hmsg =>
    obtain ⟨rfl, hasleep⟩ := eq_singleton hmsg (by omega)
    have hawake : p.awake = [] := by
      rw [hasleep, List.length_singleton] at hlength
      exact List.length_eq_zero_iff.mp (by omega)
    simp [handedOver, hawake, hasleep, PoolEvent.msg?]
  | postTerminate _ hno => simp [handedOver, hno.1, hno.2.1, PoolEvent.msg?]
  | noticeLost | notice | sleep | dequeue | wakeWorker | roomUnused | handle | destroy | join =>
    refine ⟨(List.append_nil p.handedOver).symm, ?_⟩
    rw [List.length_append]
    exact hlength

theorem inOrder_of_run (h : Run step (OneCaller loggers) (new n 1) es p) : InOrder es p := by
  induction h with
  | nil => exact ⟨rfl, Nat.zero_le 1⟩
  | @snoc es s s' e _ hadmits hstep ih =>
    obtain ⟨hover, hlength⟩ := handedOver_inOrder ih.2 hadmits.2 (move_of_step hstep)
    refine ⟨?_, hlength⟩
    rw [List.filterMap_append, ih.1, hover]
    cases he : e.msg? with
    | none => rw [List.filterMap_cons_none he, List.filterMap_nil, Option.toList_none]
    | some msg => rw [List.filterMap_cons_some he, List.filterMap_nil, Option.toList_some]

/-- With one logging thread that blocks where the queue is full, and one worker, an asynchronous logger
leaves in the end exactly what a synchronous one does. -/
theorem async_in_order (hcalm : code.Calm) (hstart : construct n 1 = .ok start)
    (h : Run step (OneCaller loggers) start es p) (hjoined : p.shutdown = .joined) (w : Outputs δ) :
    p.handled.foldl (callback code loggers) w =
      (es.filterMap PoolEvent.call?).foldl (LogCall.run code loggers) w := by
  obtain ⟨hperm, hcounter, -⟩ := joined_handled hstart h.anyStep hjoined
  obtain ⟨-, -, rfl⟩ := construct_ok hstart
  obtain ⟨hmsgs, hcalls⟩ := msgs_byLogger (h.forall_events (fun _ _ hadmits => hadmits.1))
  have horder := inOrder_of_run h
  obtain ⟨hno, hended⟩ := (poolEnding_of_run h).joined hjoined
  have hblocking : Run step Blocking (new n 1) es p :=
    h.strengthen (I := fun _ => True) trivial (fun _ _ _ _ _ _ => trivial) (fun _ _ _ hadmits => hadmits.2.1)
  obtain ⟨-, hnone, horderly⟩ := blocking_history hblocking
  have hposted := horderly rfl
  have hall : es.filterMap PoolEvent.msg? = p.handled := by
    have hlength := hperm.length_eq
    rw [List.length_append, ← hcounter, hnone, Nat.zero_add] at hlength
    rw [horder.1, handedOver, hno.1, hno.2.1, List.append_nil, List.append_nil, hposted] at hlength ⊢
    rw [List.length_append, List.length_append] at hlength
    rw [List.length_eq_zero_iff.mp (by omega : p.inHand.length = 0),
      List.length_eq_zero_iff.mp (by omega : p.q.items.length = 0), List.append_nil, List.append_nil]
  rw [← hcalls, hall]
  apply foldl_callback hcalm
  intro msg hmsg
  apply hmsgs
  rw [hall]
  exact hmsg

instance (p : ThreadPool n) (e : PoolEvent) : Decidable (OneCaller loggers p e) :=
  inferInstanceAs (Decidable (e.ByLogger loggers ∧ e.policy? ≠ some .overrunOldest ∧
    (e.policy? = some .block → p.awake = [] ∧ p.asleep = [])))

theorem async_in_order_of_message : ∃ p : ThreadPool 1, Run step (OneCaller appLogger) (new 1 1) oneMessage p ∧
    p.handled.foldl (callback memory appLogger) ⟨fun _ => [], []⟩ =
      [LogCall.log 0 .sample].foldl (LogCall.run memory appLogger) ⟨fun _ => [], []⟩ := by
  have hstart : construct 1 1 = .ok (new 1 1) := rfl
  have hrun : Run step (OneCaller appLogger) (new 1 1) oneMessage _ := Run.of_replay_guarded rfl
  exact ⟨_, hrun, async_in_order memory_calm hstart hrun rfl ⟨fun _ => [], []⟩⟩

end OneWorker

end RedisLuaLinux.Spdlog
