import RedisLuaLinux.FreeSwitch.Esl
import RedisLuaLinux.Library.LoopEnd

/-!
# The linger loop of the outbound servers

`mycallback` of `testserver.c` and `testcharge.c`. Both set up their call, run the same loop and
disconnect. An iteration receives once and reads the clock at most once.

* `isLinger_iff`: the two header tests accept the lingering notices.
* `lingerStep_cases`: what one iteration does.
* `mycallback_ends`: the iteration in which the loop ends.
-/

namespace RedisLuaLinux.FreeSwitch

open Library Library.CString

/-- The variables of the loop. -/
structure LingerState where
  done : Bool
  exp : Int

/-- The two tests on the headers of a received event. -/
def isLinger (event : Event) : Bool :=
  match event.getHeader (literal "content-type") with
  | some type =>
    if strcasecmp type (literal "text/disconnect-notice") = 0 then
      match event.getHeader (literal "content-disposition") with
      | some dispo => strcmp dispo (literal "linger") = 0
      | none => false
    else false
  | none => false

/-- One iteration, with what is received and the time on the clock; `none` where the loop is left. -/
def lingerStep (s : LingerState) (input : Receipt × Int) : Option LingerState :=
  match input with
  | (.eslFail, _) => none
  | (receipt, time) =>
    if s.done then
      if time ≥ s.exp then none else some s
    else
      match receipt with
      | .eslSuccess lastEvent _ => if isLinger lastEvent then some ⟨true, time + 5⟩ else some s
      | _ => some s

/-- What a callback has done when it returns: its calls, and the iteration that ended its loop. -/
structure Returned where
  calls : List Call
  iteration : Nat

/-- The loop between the calls of the set-up and `esl_disconnect`; `none` means that it would go on
after `fuel` iterations. -/
def lingerCallback (setup : List Call) (receipts : Nat → Receipt) (time : Nat → Int) (fuel : Nat) :
    Option Returned :=
  (loopEnd lingerStep (fun k => (receipts k, time k)) fuel 0 ⟨false, 0⟩).map fun k =>
    ⟨.attachHandle :: setup ++ List.replicate (k + 1) (.recvTimed 1000) ++ [.disconnect], k⟩

def Testserver.mycallback (infoEvent : Event) : (Nat → Receipt) → (Nat → Int) → Nat → Option Returned :=
  lingerCallback [
    .filter (literal "unique-id") (infoEvent.getHeader (literal "caller-unique-id")),
    .events .eslEventTypePlain (literal ("SESSION_HEARTBEAT CHANNEL_ANSWER CHANNEL_ORIGINATE CHANNEL_PROGRESS CHANNEL_HANGUP " ++
      "CHANNEL_BRIDGE CHANNEL_UNBRIDGE CHANNEL_OUTGOING CHANNEL_EXECUTE CHANNEL_EXECUTE_COMPLETE DTMF CUSTOM conference::maintenance")),
    .sendRecv (literal "linger"),
    .execute (literal "answer") none none,
    .execute (literal "conference") (some (literal "3000@default")) none]

def Testcharge.mycallback (infoEvent : Event) : (Nat → Receipt) → (Nat → Int) → Nat → Option Returned :=
  lingerCallback [
    .filter (literal "unique-id") (infoEvent.getHeader (literal "caller-unique-id")),
    .events .eslEventTypePlain (literal (" CHANNEL_ANSWER CHANNEL_ORIGINATE CHANNEL_PROGRESS CHANNEL_HANGUP " ++
      " CHANNEL_EXECUTE_COMPLETE")),
    .sendRecv (literal "linger 5"),
    .execute (literal "answer") none none,
    .execute (literal "set") (some (literal "tts_engine=flite")) none,
    .execute (literal "set") (some (literal "tts_voice=kal")) none,
    .execute (literal "speak")
      (some (literal "Hello shen guang yao, Welcome to Freeswitch, you are the best, go go go ")) none]

inductive Server
  | testserver
  | testcharge

def Server.mycallback : Server → Event → (Nat → Receipt) → (Nat → Int) → Nat → Option Returned
  | .testserver => Testserver.mycallback
  | .testcharge => Testcharge.mycallback

/-- An event was received whose content-type is text/disconnect-notice in any letter case and whose
content-disposition is linger. -/
def LingerNotice (receipt : Receipt) : Prop :=
  ∃ event ievent type, receipt = .eslSuccess event ievent ∧
    event.getHeader (literal "content-type") = some type ∧
    type.bytes.map tolower = (literal "text/disconnect-notice").bytes ∧
    event.getHeader (literal "content-disposition") = some (literal "linger")

/-- The receive of the iteration fails, or it comes after the first lingering notice and reads a
clock at least 5 seconds after the one read then. -/
def Ends (receipts : Nat → Receipt) (time : Nat → Int) (k : Nat) : Prop :=
  receipts k = .eslFail ∨ ∃ s < k, First (fun i => LingerNotice (receipts i)) s ∧ time s + 5 ≤ time k

theorem isLinger_iff {event : Event} {ievent : Option Event} :
    isLinger event = true ↔ LingerNotice (.eslSuccess event ievent) := by
  have hlower : (literal "text/disconnect-notice").bytes.map tolower = (literal "text/disconnect-notice").bytes := by
    decide +kernel
  constructor
  · intro h
    unfold isLinger at h
    split at h
    · rename_i type htype
      split at h
      · rename_i hnotice
        split at h
        · rename_i dispo hdispo
          have hsame := strcmp_eq_zero.mp (of_decide_eq_true h)
          rw [strcasecmp_eq_zero, hlower] at hnotice
          exact ⟨event, ievent, type, rfl, htype, hnotice, hsame ▸ hdispo⟩
        · cases h
      · cases h
    · cases h
  · rintro ⟨event', ievent', type, heq, htype, hnotice, hdispo⟩
    obtain ⟨rfl, rfl⟩ := Receipt.eslSuccess.inj heq
    have hsame : strcmp (literal "linger") (literal "linger") = 0 := strcmp_eq_zero.mpr rfl
    rw [← hlower, ← strcasecmp_eq_zero] at hnotice
    simp only [isLinger, htype, if_pos hnotice, hdispo, hsame, decide_true]

variable {s : LingerState} {receipt : Receipt} {time : Int}

theorem lingerStep_done (hdone : s.done = true) (hreceived : receipt ≠ .eslFail) :
    lingerStep s (receipt, time) = if s.exp ≤ time then none else some s := by
  cases receipt with
  | eslFail => exact absurd rfl hreceived
  | _ => simp only [lingerStep, hdone, if_true, ge_iff_le]

theorem lingerStep_notice (hdone : s.done = false) (hnotice : LingerNotice receipt) :
    lingerStep s (receipt, time) = some ⟨true, time + 5⟩ := by
  obtain ⟨event, ievent, type, rfl, hheaders⟩ := hnotice
  have hlinger : isLinger event = true := isLinger_iff.mpr ⟨event, ievent, type, rfl, hheaders⟩
  simp only [lingerStep, hdone, Bool.false_eq_true, if_false, hlinger, if_true]

theorem lingerStep_other (hdone : s.done = false) (hreceived : receipt ≠ .eslFail)
    (hother : ¬ LingerNotice receipt) : lingerStep s (receipt, time) = some s := by
  cases receipt with
  | eslFail => exact absurd rfl hreceived
  | eslSuccess event ievent =>
    have hlinger : ¬ isLinger event = true := fun h => hother (isLinger_iff.mp h)
    simp only [lingerStep, hdone, Bool.false_eq_true, if_false, if_neg hlinger]
  | _ => simp only [lingerStep, hdone, Bool.false_eq_true, if_false]

/-- The variables before iteration `k`: no lingering notice was received yet, or the first one has
set the deadline. -/
structure Tracks (receipts : Nat → Receipt) (time : Nat → Int) (k : Nat) (s : LingerState) : Prop where
  waiting : s.done = false → ∀ i < k, ¬ LingerNotice (receipts i)
  lingering : s.done = true → ∃ i < k, First (fun i => LingerNotice (receipts i)) i ∧ s.exp = time i + 5

variable {receipts : Nat → Receipt} {clock : Nat → Int} {k : Nat}

theorem Tracks.ends (h : Tracks receipts clock k s) :
    lingerStep s (receipts k, clock k) = none ↔ Ends receipts clock k := by
  by_cases hfail : receipts k = .eslFail
  · rw [hfail]
    exact iff_of_true rfl (Or.inl hfail)
  · rw [Ends, or_iff_right hfail]
    cases hdone : s.done with
    | true =>
      obtain ⟨i, hi, hfirst, hexp⟩ := h.lingering hdone
      rw [lingerStep_done hdone hfail, hexp]
      constructor
      · intro hleft
        refine ⟨i, hi, hfirst, ?_⟩
        by_contra hearly
        rw [if_neg hearly] at hleft
        cases hleft
      · rintro ⟨j, -, hfirst', hlate⟩
        rw [hfirst.unique hfirst', if_pos hlate]
    | false =>
      refine iff_of_false ?_ ?_
      · by_cases hnotice : LingerNotice (receipts k)
        · rw [lingerStep_notice hdone hnotice]
          nofun
        · rw [lingerStep_other hdone hfail hnotice]
          nofun
      · rintro ⟨i, hi, hfirst, -⟩
        exact h.waiting hdone i hi hfirst.1

theorem Tracks.step (h : Tracks receipts clock k s) {s' : LingerState}
    (hstep : lingerStep s (receipts k, clock k) = some s') : Tracks receipts clock (k + 1) s' := by
  have hfail : receipts k ≠ .eslFail := by
    intro hfail
    rw [hfail] at hstep
    cases hstep
  cases hdone : s.done with
  | true =>
    -- a later notice does not reach the branch that sets the deadline
    rw [lingerStep_done hdone hfail] at hstep
    split at hstep
    · cases hstep
    · cases hstep
      obtain ⟨i, hi, hfirst, hexp⟩ := h.lingering hdone
      refine ⟨fun hwait => ?_, fun _ => ⟨i, by omega, hfirst, hexp⟩⟩
      rw [hdone] at hwait
      cases hwait
  | false =>
    have hbefore := h.waiting hdone
    by_cases hnotice : LingerNotice (receipts k)
    · rw [lingerStep_notice hdone hnotice] at hstep
      cases hstep
      exact ⟨nofun, fun _ => ⟨k, by omega, ⟨hnotice, hbefore⟩, rfl⟩⟩
    · rw [lingerStep_other hdone hfail hnotice] at hstep
      cases hstep
      refine ⟨fun _ i hi => ?_, fun hlinger => ?_⟩
      · rcases Nat.lt_succ_iff_lt_or_eq.mp hi with hlt | rfl
        · exact hbefore i hlt
        · exact hnotice
      · rw [hdone] at hlinger
        cases hlinger

theorem tracks_start : Tracks receipts clock 0 ⟨false, 0⟩ := by
  refine ⟨fun _ i hi => ?_, nofun⟩
  omega

theorem lingerCallback_ends (setup : List Call) (receipts : Nat → Receipt) (clock : Nat → Int)
    (fuel k : Nat) :
    (lingerCallback setup receipts clock fuel).map Returned.iteration = some k ↔
      k < fuel ∧ First (Ends receipts clock) k := by
  rw [lingerCallback, Option.map_map]
  have hsame : (Returned.iteration ∘ fun k =>
      Returned.mk (.attachHandle :: setup ++ List.replicate (k + 1) (.recvTimed 1000) ++ [.disconnect]) k) = id := rfl
  rw [hsame, Option.map_id_fun, id]
  exact loopEnd_eq_some_iff tracks_start (fun _ _ h => h.ends) (fun _ _ _ h hstep => h.step hstep) fuel k

/-- For both servers, every sequence of receives and every sequence of clock readings: the loop ends
in the first iteration whose receive fails or that comes after the first lingering notice and reads
a clock at least 5 seconds after the one read there. Later notices do not move the deadline, and
without a notice only a failing receive ends the loop. -/
theorem mycallback_ends (server : Server) (infoEvent : Event) (receipts : Nat → Receipt)
    (clock : Nat → Int) (fuel k : Nat) :
    (server.mycallback infoEvent receipts clock fuel).map Returned.iteration = some k ↔
      k < fuel ∧ First (Ends receipts clock) k := by
  cases server with
  | testserver => exact lingerCallback_ends _ receipts clock fuel k
  | testcharge => exact lingerCallback_ends _ receipts clock fuel k

end RedisLuaLinux.FreeSwitch
