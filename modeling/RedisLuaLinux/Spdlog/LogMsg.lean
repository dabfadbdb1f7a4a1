import RedisLuaLinux.Library.Text

/-!
# Log messages

Levels, source locations, `log_msg`, and `async_msg`, the form in which a message waits in the
queue of a thread pool. Times are nanoseconds since the epoch. The color range of a message is
kept apart from it, since formatters write it.
-/

namespace RedisLuaLinux.Spdlog

open Library

inductive Level
  | trace
  | debug
  | info
  | warn
  | err
  | critical
  | off
  deriving DecidableEq, Repr

namespace Level

def value : Level → Nat
  | trace => 0
  | debug => 1
  | info => 2
  | warn => 3
  | err => 4
  | critical => 5
  | off => 6

instance : LE Level := ⟨fun a b => a.value ≤ b.value⟩

instance (a b : Level) : Decidable (a ≤ b) := inferInstanceAs (Decidable (a.value ≤ b.value))

/-- `level_string_views`. -/
def toStringView : Level → Text
  | trace => "trace".toList
  | debug => "debug".toList
  | info => "info".toList
  | warn => "warning".toList
  | err => "error".toList
  | critical => "critical".toList
  | off => "off".toList

/-- `short_level_names`. -/
def toShortCStr : Level → Text
  | trace => "T".toList
  | debug => "D".toList
  | info => "I".toList
  | warn => "W".toList
  | err => "E".toList
  | critical => "C".toList
  | off => "O".toList

end Level

/-- `SPDLOG_ACTIVE_LEVEL`. -/
def defaultLevel : Level := .info

structure SourceLoc where
  filename : Text := []
  line : Int := 0
  funcname : Text := []
  deriving DecidableEq, Repr

def SourceLoc.empty (source : SourceLoc) : Bool := source.line = 0

structure LogMsg where
  loggerName : Text
  level : Level
  time : Int
  threadId : Nat
  source : SourceLoc
  payload : Text
  deriving DecidableEq, Repr

/-- A message for runs on fixed events. -/
def LogMsg.sample : LogMsg := ⟨"app".toList, .info, 0, 1, {}, "hello".toList⟩

/-- The address of a logger or of a sink. -/
abbrev Ptr := Nat

inductive AsyncMsgType
  | log
  | flush
  | terminate
  deriving DecidableEq, Repr

structure AsyncMsg where
  msgType : AsyncMsgType
  level : Level
  time : Int
  threadId : Nat
  raw : Text
  source : SourceLoc
  workerPtr : Option Ptr
  deriving DecidableEq, Repr

namespace AsyncMsg

/-- A message without text. -/
def ofType (workerPtr : Option Ptr) (msgType : AsyncMsgType) : AsyncMsg :=
  { msgType, level := .off, time := 0, threadId := 0, raw := [], source := {}, workerPtr }

instance : Inhabited AsyncMsg := ⟨ofType none .log⟩

/-- The text is copied, the name is left to the logger. -/
def ofLogMsg (workerPtr : Ptr) (m : LogMsg) : AsyncMsg :=
  { msgType := .log, level := m.level, time := m.time, threadId := m.threadId, raw := m.payload,
    source := m.source, workerPtr := some workerPtr }

/-- `name` is that of the logger. -/
def toLogMsg (m : AsyncMsg) (name : Text) : LogMsg :=
  { loggerName := name, level := m.level, time := m.time, threadId := m.threadId, source := m.source,
    payload := m.raw }

/-- The message comes back as it was posted. -/
@[simp] theorem toLogMsg_ofLogMsg (workerPtr : Ptr) (m : LogMsg) :
    (ofLogMsg workerPtr m).toLogMsg m.loggerName = m := rfl

end AsyncMsg

end RedisLuaLinux.Spdlog
