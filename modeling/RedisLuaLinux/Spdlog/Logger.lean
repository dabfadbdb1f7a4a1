import RedisLuaLinux.Library.TryLoops
import RedisLuaLinux.Spdlog.LogMsg

/-!
# Loggers and their sinks

A logger hands each message that its level admits to its sinks. Sinks are shared between loggers, so
that a logger knows them by their addresses. What a sink is, is left open: it has a level and may raise
an exception, whose text goes to the error handler of the logger. So is what an error handler does, which may
be code of the user: it returns, and leaves the sinks as they are.

* `logger_reaches`: whatever the other sinks do, a logger hands a message to every sink that admits it,
  and flushes every sink after a message of its flush level.
-/

namespace RedisLuaLinux.Spdlog

open Library

variable {δ : Type}

/-- The sinks, and the calls of the error handlers with the name of their logger. -/
structure Outputs (δ : Type) where
  sinks : Ptr → δ
  errors : List (Text × Text)

/-- The error handler that writes a report. -/
def Outputs.report (name err : Text) (w : Outputs δ) : Outputs δ :=
  { w with errors := w.errors ++ [(name, err)] }

theorem Outputs.report_sinks (name err : Text) (w : Outputs δ) : (w.report name err).sinks = w.sinks := rfl

/-- The code of the sinks: `log` and `flush`, each with the text of an exception where it raises one;
and that of the error handlers, for the name of the logger and the text of an exception. -/
structure SinkCode (δ : Type) where
  level : δ → Level
  log : LogMsg → δ → δ × Option Text
  flush : δ → δ × Option Text
  handleErr : Text → Text → Outputs δ → Outputs δ
  keeps : ∀ name err w, (handleErr name err w).sinks = w.sinks

structure Logger where
  name : Text
  sinks : List Ptr
  level : Level := defaultLevel
  flushLevel : Level := .off
  deriving DecidableEq, Repr

variable (code : SinkCode δ)

def SinkCode.shouldLog (d : δ) (msgLevel : Level) : Bool := code.level d ≤ msgLevel

/-- The body of the loop of `sink_it_`. -/
def SinkCode.sinkIt (msg : LogMsg) (d : δ) : δ × Option Text :=
  if code.shouldLog d msg.level then code.log msg d else (d, none)

/-- No sink raises an exception. -/
structure SinkCode.Calm : Prop where
  log : ∀ msg d, (code.log msg d).2 = none
  flush : ∀ d, (code.flush d).2 = none

/-- An action of one sink. -/
def Outputs.act (own : δ → δ × Option Text) (ptr : Ptr) (w : Outputs δ) : Outputs δ × Option Text :=
  ({ w with sinks := Function.update w.sinks ptr (own (w.sinks ptr)).1 }, (own (w.sinks ptr)).2)

variable {code} in
theorem sinkIt_calm (hcalm : code.Calm) (msg : LogMsg) (ptr : Ptr) (w : Outputs δ) :
    (Outputs.act (code.sinkIt msg) ptr w).2 = none := by
  show (code.sinkIt msg (w.sinks ptr)).2 = none
  unfold SinkCode.sinkIt
  split
  · exact hcalm.log msg _
  · rfl

theorem Outputs.ownAction (own : δ → δ × Option Text) {report : Text → Outputs δ → Outputs δ}
    (hreport : ∀ err w, (report err w).sinks = w.sinks) :
    OwnAction (Outputs.act own) report (fun ptr w => w.sinks ptr) fun _ => own where
  self ptr w := Function.update_self ptr _ w.sinks
  other _ _ w hne := Function.update_of_ne hne _ w.sinks
  raises _ _ := rfl
  report err ptr w := congrFun (hreport err w) ptr

namespace Logger

/-- `err_handler_`. -/
def errHandler (logger : Logger) : Text → Outputs δ → Outputs δ := code.handleErr logger.name

def shouldLog (logger : Logger) (msgLevel : Level) : Bool := logger.level ≤ msgLevel

def shouldFlush (logger : Logger) (msg : LogMsg) : Bool :=
  logger.flushLevel ≤ msg.level ∧ msg.level ≠ .off

def flush (logger : Logger) (w : Outputs δ) : Outputs δ :=
  tryEach (Outputs.act code.flush) (logger.errHandler code) logger.sinks w

def sinkIt (logger : Logger) (msg : LogMsg) (w : Outputs δ) : Outputs δ :=
  let w := tryEach (Outputs.act (code.sinkIt msg)) (logger.errHandler code) logger.sinks w
  if logger.shouldFlush msg then logger.flush code w else w

def log (logger : Logger) (msg : LogMsg) (w : Outputs δ) : Outputs δ :=
  if logger.shouldLog msg.level then logger.sinkIt code msg w else w

theorem ownAction (logger : Logger) (own : δ → δ × Option Text) :
    OwnAction (Outputs.act own) (logger.errHandler code) (fun ptr w => w.sinks ptr) fun _ => own :=
  Outputs.ownAction own (code.keeps logger.name)

variable {code}

/-- What a logger does to one of its sinks does not depend on the others, raise what they may. -/
theorem logger_reaches (logger : Logger) (hnodup : logger.sinks.Nodup) (msg : LogMsg) (w : Outputs δ)
    {ptr : Ptr} (hptr : ptr ∈ logger.sinks) :
    let logged := if code.shouldLog (w.sinks ptr) msg.level then (code.log msg (w.sinks ptr)).1 else w.sinks ptr
    (logger.sinkIt code msg w).sinks ptr =
      if logger.shouldFlush msg then (code.flush logged).1 else logged := by
  intro logged
  have hlogged : (tryEach (Outputs.act (code.sinkIt msg)) (logger.errHandler code) logger.sinks w).sinks ptr =
      logged := by
    have hat := tryEach_at (logger.ownAction code (code.sinkIt msg)) hptr hnodup w
    rw [hat]
    unfold SinkCode.sinkIt
    by_cases hlevel : code.shouldLog (w.sinks ptr) msg.level
    · simp only [logged, if_pos hlevel]
    · simp only [logged, if_neg hlevel]
  unfold sinkIt
  by_cases hflush : logger.shouldFlush msg
  · simp only [if_pos hflush]
    have hat := tryEach_at (logger.ownAction code code.flush) hptr hnodup
      (tryEach (Outputs.act (code.sinkIt msg)) (logger.errHandler code) logger.sinks w)
    rw [hlogged] at hat
    exact hat
  · simp only [if_neg hflush]
    exact hlogged

/-- Two sinks, the first of which is full. -/
def fullAtZero : SinkCode (Ptr × List LogMsg) where
  level _ := .trace
  log msg d := if d.1 = 0 then (d, some "disk full".toList) else ((d.1, d.2 ++ [msg]), none)
  flush d := (d, none)
  handleErr := Outputs.report
  keeps := Outputs.report_sinks

def oneFull : Logger := { name := "app".toList, sinks := [0, 1] }

theorem logger_reaches_of_full :
    (oneFull.sinkIt fullAtZero .sample ⟨fun ptr => (ptr, []), []⟩).sinks 1 = (1, [.sample]) :=
  logger_reaches oneFull (by decide) .sample ⟨fun ptr => (ptr, []), []⟩ (by decide)

end Logger

/-- A sink that keeps what it gets. -/
def memory : SinkCode (List LogMsg) where
  level _ := .trace
  log msg d := (d ++ [msg], none)
  flush d := (d, none)
  handleErr := Outputs.report
  keeps := Outputs.report_sinks

theorem memory_calm : memory.Calm := ⟨fun _ _ => rfl, fun _ => rfl⟩

end RedisLuaLinux.Spdlog
