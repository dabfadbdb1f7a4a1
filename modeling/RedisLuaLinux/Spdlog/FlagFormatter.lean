import Mathlib
import RedisLuaLinux.Spdlog.FileHelper
import RedisLuaLinux.Spdlog.LogMsg

/-!
# The flags of a pattern

`fmt_helper` and the formatters of the flags that a pattern can have. A formatter appends to a text and may
keep something for the next message: `full_formatter` the date of the second it was last called in,
`elapsed_formatter` the time of the last message. Texts are bytes here, one character each. Times are
nanoseconds since the epoch.

* `FlagFormatter.plainFormat`: how a formatter formats, if nothing were kept but the time of the last message.
* `FlagFormatter.format_plain`: a formatter whose date is not stale formats so.
-/

namespace RedisLuaLinux.Spdlog

open Library

/-- `std::tm`, as `localtime` and `gmtime` fill it. -/
structure Tm where
  sec : Int
  min : Int
  hour : Int
  mday : Int
  mon : Fin 12
  year : Int
  wday : Fin 7
  gmtoff : Int
  deriving DecidableEq, Repr

theorem zero_lt_months : 0 < 12 := Nat.succ_pos 11

theorem zero_lt_weekdays : 0 < 7 := Nat.succ_pos 6

/-- `memset` to zero. -/
def Tm.zero : Tm := ⟨0, 0, 0, 0, ⟨0, zero_lt_months⟩, 0, ⟨0, zero_lt_weekdays⟩, 0⟩

/-- What the formatters ask of the system: the calendar, and the number of the process. -/
structure OS where
  localtime : Int → Tm
  gmtime : Int → Tm
  pid : Nat

/-! ## The format helper -/

def digit (n : Int) : Char := Char.ofNat ('0'.toNat + n.toNat)

def pad2 (n : Int) : Text :=
  if 99 < n then intText n
  else if 9 < n then [digit (n / 10), digit (n % 10)]
  else if 0 ≤ n then ['0', digit n]
  else intText n

def countDigits (n : Nat) : Nat := (natText n).length

def padUint (n width : Nat) : Text := List.replicate (width - countDigits n) '0' ++ natText n

/-- `duration_cast<seconds>` of a time. -/
def seconds (time : Int) : Int := time.tdiv 1000000000

/-- The part of a time below the second, in units of so many nanoseconds. -/
def timeFraction (units : Nat) (time : Int) : Int :=
  time.tdiv units - (seconds time * 1000000000).tdiv units

/-- A cast to an unsigned integer of so many bits. -/
def castUint (bits : Nat) (n : Int) : Nat := (n % 2 ^ bits).toNat

/-! ## Padding -/

inductive PadSide
  | left
  | right
  | center
  deriving DecidableEq, Repr

/-- The width is at most that of the blanks a padder has. -/
structure PaddingInfo where
  width : Nat := 0
  side : PadSide := .left
  width_le : width ≤ 64 := by decide
  deriving DecidableEq, Repr

def PaddingInfo.enabled (pad : PaddingInfo) : Bool := pad.width ≠ 0

def spaces (count : Nat) : Text := List.replicate count ' '

/-- `scoped_padder` around a text, whose size is given apart from it. -/
def scopedPadder (wrappedSize : Nat) (pad : PaddingInfo) (text : Text) : Text :=
  if pad.width ≤ wrappedSize then text
  else
    let totalPad := pad.width - wrappedSize
    match pad.side with
    | .left => spaces totalPad ++ text
    | .center => spaces (totalPad / 2) ++ text ++ spaces (totalPad / 2 + totalPad % 2)
    | .right => text ++ spaces totalPad

/-! ## The flags -/

/-- The flags without a state of their own, under the names of their classes. -/
inductive Field
  | name
  | level
  | shortLevel
  | a
  | A
  | b
  | B
  | c
  | C
  | D
  | Y
  | m
  | d
  | H
  | I
  | M
  | S
  | e
  | f
  | F
  | E
  | p
  | r
  | R
  | T
  | z
  | t
  | pid
  | v
  deriving DecidableEq, Repr

def ampm (tm : Tm) : Text := if 12 ≤ tm.hour then "PM".toList else "AM".toList

def to12h (tm : Tm) : Int := if 12 < tm.hour then tm.hour - 12 else tm.hour

def days : List String := ["Sun", "Mon", "Tue", "Wed", "Thu", "Fri", "Sat"]

def fullDays : List String :=
  ["Sunday", "Monday", "Tuesday", "Wednesday", "Thursday", "Friday", "Saturday"]

def months : List String :=
  ["Jan", "Feb", "Mar", "Apr", "May", "Jun", "Jul", "Aug", "Sept", "Oct", "Nov", "Dec"]

def fullMonths : List String :=
  ["January", "February", "March", "April", "May", "June", "July", "August", "September", "October",
    "November", "December"]

def Tm.day (tm : Tm) : Text := (days.get tm.wday).toList

def Tm.fullDay (tm : Tm) : Text := (fullDays.get tm.wday).toList

def Tm.month (tm : Tm) : Text := (months.get tm.mon).toList

def Tm.fullMonth (tm : Tm) : Text := (fullMonths.get tm.mon).toList

def utcMinutesOffset (tm : Tm) : Int := tm.gmtoff.tdiv 60

/-- The remainder of a division that rounds towards zero. -/
def cMod (n m : Int) : Int := n.tmod m

/-- The size that a field is padded by, and its text. -/
def Field.text (os : OS) (msg : LogMsg) (tm : Tm) : Field → Nat × Text
  | .name => (msg.loggerName.length, msg.loggerName)
  | .level => (msg.level.toStringView.length, msg.level.toStringView)
  | .shortLevel => (msg.level.toShortCStr.length, msg.level.toShortCStr)
  | .a => (tm.day.length, tm.day)
  | .A => (tm.fullDay.length, tm.fullDay)
  | .b => (tm.month.length, tm.month)
  | .B => (tm.fullMonth.length, tm.fullMonth)
  | .c => (24, tm.day ++ " ".toList ++ tm.month ++ " ".toList ++ intText tm.mday ++ " ".toList ++
      pad2 tm.hour ++ ":".toList ++ pad2 tm.min ++ ":".toList ++ pad2 tm.sec ++ " ".toList ++
      intText (tm.year + 1900))
  | .C => (2, pad2 (cMod tm.year 100))
  | .D => (10, pad2 (tm.mon.val + 1) ++ "/".toList ++ pad2 tm.mday ++ "/".toList ++ pad2 (cMod tm.year 100))
  | .Y => (4, intText (tm.year + 1900))
  | .m => (2, pad2 (tm.mon.val + 1))
  | .d => (2, pad2 tm.mday)
  | .H => (2, pad2 tm.hour)
  | .I => (2, pad2 (to12h tm))
  | .M => (2, pad2 tm.min)
  | .S => (2, pad2 tm.sec)
  | .e => (3, padUint (castUint 32 (timeFraction 1000000 msg.time)) 3)
  | .f => (6, padUint (castUint 64 (timeFraction 1000 msg.time)) 6)
  | .F => (9, padUint (castUint 64 (timeFraction 1 msg.time)) 9)
  | .E => (10, intText (seconds msg.time))
  | .p => (2, ampm tm)
  | .r => (11, pad2 (to12h tm) ++ ":".toList ++ pad2 tm.min ++ ":".toList ++ pad2 tm.sec ++ " ".toList ++
      ampm tm)
  | .R => (5, pad2 tm.hour ++ ":".toList ++ pad2 tm.min)
  | .T => (8, pad2 tm.hour ++ ":".toList ++ pad2 tm.min ++ ":".toList ++ pad2 tm.sec)
  | .z =>
    let totalMinutes := (utcMinutesOffset tm).natAbs
    (6, (if utcMinutesOffset tm < 0 then "-".toList else "+".toList) ++
      pad2 (totalMinutes / 60 : Nat) ++ ":".toList ++ pad2 (totalMinutes % 60 : Nat))
  | .t => (countDigits msg.threadId, natText msg.threadId)
  | .pid => (countDigits (os.pid % 2 ^ 32), natText (os.pid % 2 ^ 32))
  | .v => (msg.payload.length, msg.payload)

/-- The flags that print the source location, and nothing if there is none. -/
inductive SourceField
  | location
  | shortFilename
  | filename
  | linenum
  | funcname
  deriving DecidableEq, Repr

def basename (filename : Text) : Text :=
  match rfind '/' filename with
  | some i => filename.drop (i + 1)
  | none => filename

/-- The size that a source field is padded by, and its text. -/
def SourceField.text (pad : PaddingInfo) (source : SourceLoc) : SourceField → Nat × Text
  | .location =>
    (if pad.enabled then source.filename.length + countDigits (castUint 32 source.line) + 1 else 0,
      source.filename ++ ":".toList ++ intText source.line)
  | .shortFilename =>
    (if pad.enabled then (basename source.filename).length else 0, basename source.filename)
  | .filename => (if pad.enabled then source.filename.length else 0, source.filename)
  | .linenum => (countDigits (castUint 32 source.line), intText source.line)
  | .funcname => (if pad.enabled then source.funcname.length else 0, source.funcname)

inductive FlagFormatter
  | full (cacheTimestamp : Int) (cachedDatetime : Text)
  | field (flag : Field) (pad : PaddingInfo)
  | source (flag : SourceField) (pad : PaddingInfo)
  | colorStart
  | colorStop
  | ch (c : Char)
  | aggregate (str : Text)
  -- the units are so many nanoseconds
  | elapsed (units : Nat) (pad : PaddingInfo) (lastMessageTime : Int)
  deriving DecidableEq, Repr

/-- The buffer that is written to, with the color range of the message. -/
structure Formatted where
  dest : Text
  colorRangeStart : Nat
  colorRangeEnd : Nat
  deriving DecidableEq, Repr

def Formatted.append (out : Formatted) (text : Text) : Formatted := { out with dest := out.dest ++ text }

@[simp] theorem Formatted.append_nil (out : Formatted) : out.append [] = out := by
  unfold Formatted.append
  rw [List.append_nil]

theorem Formatted.append_append (out : Formatted) (text text' : Text) :
    (out.append text).append text' = out.append (text ++ text') := by
  unfold Formatted.append
  rw [List.append_assoc]

/-- The date and the time, up to the second. -/
def datetime (tm : Tm) : Text :=
  "[".toList ++ intText (tm.year + 1900) ++ "-".toList ++ pad2 (tm.mon.val + 1) ++ "-".toList ++ pad2 tm.mday ++
    " ".toList ++ pad2 tm.hour ++ ":".toList ++ pad2 tm.min ++ ":".toList ++ pad2 tm.sec ++ ".".toList

/-- What `full_formatter` puts between the date and the level. -/
def fullHead (msg : LogMsg) : Text :=
  padUint (castUint 32 (timeFraction 1000000 msg.time)) 3 ++ "] ".toList ++
    (if 0 < msg.loggerName.length then "[".toList ++ msg.loggerName ++ "] ".toList else []) ++ "[".toList

/-- What `full_formatter` puts after the level. -/
def fullTail (msg : LogMsg) : Text :=
  "] ".toList ++
    (if msg.source.empty then []
      else "[".toList ++ basename msg.source.filename ++ ":".toList ++ intText msg.source.line ++ "] ".toList) ++
    msg.payload

/-- The texts of the last message's time and this one's. -/
def elapsedText (units : Nat) (pad : PaddingInfo) (last : Int) (msg : LogMsg) : Text :=
  scopedPadder 6 pad (padUint (castUint 64 ((msg.time - last).tdiv units)) 6)

def fieldText (os : OS) (msg : LogMsg) (tm : Tm) (flag : Field) (pad : PaddingInfo) : Text :=
  scopedPadder (flag.text os msg tm).1 pad (flag.text os msg tm).2

def sourceText (msg : LogMsg) (flag : SourceField) (pad : PaddingInfo) : Text :=
  if msg.source.empty then []
  else scopedPadder (flag.text pad msg.source).1 pad (flag.text pad msg.source).2

namespace FlagFormatter

def format (os : OS) (msg : LogMsg) (tm : Tm) (out : Formatted) : FlagFormatter → FlagFormatter × Formatted
  | full cacheTimestamp cachedDatetime =>
    let secs := seconds msg.time
    let cached := if cacheTimestamp ≠ secs ∨ cachedDatetime.length = 0 then datetime tm else cachedDatetime
    let head := (out.append cached).append (fullHead msg)
    let level := head.append msg.level.toStringView
    (full secs cached,
      { level.append (fullTail msg) with
        colorRangeStart := head.dest.length
        colorRangeEnd := level.dest.length })
  | field flag pad => (field flag pad, out.append (fieldText os msg tm flag pad))
  | source flag pad => (source flag pad, out.append (sourceText msg flag pad))
  | colorStart => (colorStart, { out with colorRangeStart := out.dest.length })
  | colorStop => (colorStop, { out with colorRangeEnd := out.dest.length })
  | ch c => (ch c, out.append [c])
  | aggregate str => (aggregate str, out.append str)
  | elapsed units pad last => (elapsed units pad msg.time, out.append (elapsedText units pad last msg))

/-- What is appended for a message, the message before it being of the time `last`. -/
def plainText (os : OS) (msg : LogMsg) (tm : Tm) (last : Int) : FlagFormatter → Text
  | full _ _ => datetime tm ++ fullHead msg ++ msg.level.toStringView ++ fullTail msg
  | field flag pad => fieldText os msg tm flag pad
  | source flag pad => sourceText msg flag pad
  | colorStart => []
  | colorStop => []
  | ch c => [c]
  | aggregate str => str
  | elapsed units pad _ => elapsedText units pad last msg

/-- How a message is formatted, if nothing were kept but the time of the message before it. -/
def plainFormat (os : OS) (msg : LogMsg) (tm : Tm) (last : Int) (out : Formatted) : FlagFormatter → Formatted
  | full _ _ =>
    let head := out.append (datetime tm ++ fullHead msg)
    let level := head.append msg.level.toStringView
    { level.append (fullTail msg) with
      colorRangeStart := head.dest.length
      colorRangeEnd := level.dest.length }
  | colorStart => { out with colorRangeStart := out.dest.length }
  | colorStop => { out with colorRangeEnd := out.dest.length }
  | flag => out.append (flag.plainText os msg tm last)

/-- What the formatter keeps is right: the date is that of its second, and the time that of the last message. -/
def Current (getTime : Int → Tm) (last : Int) : FlagFormatter → Prop
  | full cacheTimestamp cachedDatetime =>
    cachedDatetime = [] ∨ cachedDatetime = datetime (getTime cacheTimestamp)
  | elapsed _ _ lastMessageTime => lastMessageTime = last
  | _ => True

variable {os : OS} {getTime : Int → Tm} {last : Int} {msg : LogMsg}

theorem plainFormat_dest (flag : FlagFormatter) (tm : Tm) (out : Formatted) :
    (flag.plainFormat os msg tm last out).dest = out.dest ++ flag.plainText os msg tm last := by
  cases flag with
  | full cacheTimestamp cachedDatetime => simp only [plainFormat, plainText, Formatted.append, List.append_assoc]
  | colorStart => exact (List.append_nil _).symm
  | colorStop => exact (List.append_nil _).symm
  | field flag pad => rfl
  | source flag pad => rfl
  | ch c => rfl
  | aggregate str => rfl
  | elapsed units pad lastMessageTime => rfl

/-- A formatter formats as if it kept nothing, and what it keeps is right for the next message. -/
theorem format_plain (os : OS) (msg : LogMsg) (flag : FlagFormatter) (h : flag.Current getTime last)
    (out : Formatted) :
    (flag.format os msg (getTime (seconds msg.time)) out).2 =
        flag.plainFormat os msg (getTime (seconds msg.time)) last out ∧
      (flag.format os msg (getTime (seconds msg.time)) out).1.Current getTime msg.time := by
  cases flag with
  | full cacheTimestamp cachedDatetime =>
    have hcached : (if cacheTimestamp ≠ seconds msg.time ∨ cachedDatetime.length = 0
        then datetime (getTime (seconds msg.time)) else cachedDatetime) =
        datetime (getTime (seconds msg.time)) := by
      split
      · rfl
      · rename_i hkeep
        rw [not_or, not_not] at hkeep
        rw [← hkeep.1]
        apply h.resolve_left
        intro hnil
        rw [hnil] at hkeep
        exact hkeep.2 rfl
    unfold format
    simp only [hcached]
    refine ⟨?_, Or.inr rfl⟩
    simp only [Formatted.append, plainFormat, List.append_assoc]
  | elapsed units pad lastMessageTime =>
    obtain rfl : lastMessageTime = last := h
    exact ⟨rfl, rfl⟩
  | field flag pad => exact ⟨rfl, trivial⟩
  | source flag pad => exact ⟨rfl, trivial⟩
  | colorStart => exact ⟨rfl, trivial⟩
  | colorStop => exact ⟨rfl, trivial⟩
  | ch c => exact ⟨rfl, trivial⟩
  | aggregate str => exact ⟨rfl, trivial⟩

/-- What a formatter keeps does not matter to how it formats plainly. -/
theorem plainFormat_format (flag : FlagFormatter) (msg' : LogMsg) (tm tm' : Tm) (out out' : Formatted) :
    (flag.format os msg tm out).1.plainFormat os msg' tm' last out' = flag.plainFormat os msg' tm' last out' := by
  cases flag <;> rfl

end FlagFormatter

end RedisLuaLinux.Spdlog
