import RedisLuaLinux.Library.CString

/-!
# The event socket library under the FreeSWITCH programs

What the programs use of `esl.h` and `esl_event.h`: events, what a receive answers, and the calls
on a handle. A NULL pointer is `none`.
-/

namespace RedisLuaLinux.FreeSwitch

open Library

/-- `esl_event_types_t`; of its values only `ESL_EVENT_CUSTOM` is tested. -/
inductive EventType
  | eslEventCustom
  | other (number : Nat)
  deriving DecidableEq

/-- An event; `getHeader` is `esl_event_get_header` of it. -/
structure Event where
  eventId : EventType
  getHeader : CString → Option CString
  body : Option CString

/-- What `esl_recv_event_timed` answers; with `ESL_SUCCESS`, the `last_event` and the `last_ievent`
that the handle then has. -/
inductive Receipt
  | eslSuccess (lastEvent : Event) (lastIevent : Option Event)
  | eslFail
  | eslBreak
  | eslDisconnected
  | eslGenerr

inductive EventFormat
  | eslEventTypePlain
  | eslEventTypeXml
  | eslEventTypeJson

/-- An event that a program makes: its headers stand in the order in which they are added. -/
structure OutEvent where
  eventId : EventType
  subclassName : CString
  headers : List (CString × CString)
  body : CString

/-- The calls on a handle. -/
inductive Call
  | connect (host : CString) (port : Nat) (user : Option CString) (password : CString)
  | attachHandle
  | filter (header : CString) (value : Option CString)
  | events (etype : EventFormat) (value : CString)
  | sendRecv (cmd : CString)
  | execute (app : CString) (arg uuid : Option CString)
  | recvTimed (ms : Nat)
  | sendevent (event : OutEvent)
  | disconnect

end RedisLuaLinux.FreeSwitch
