import Mathlib
import RedisLuaLinux.Library.Repeats
import RedisLuaLinux.Library.Run
import RedisLuaLinux.Spdlog.Logger

/-!
# The sink that leaves out repeated messages

`dup_filter_sink` hands a message to its sinks, as `dist_sink` does, unless it repeats the one before, and
says of those that it has left out how many they were. An exception of one of the sinks leaves the loop
over them and the call.

* `left_out_repeats`: whatever the sinks raise, what is left out is counted, and repeats the last message that
  all of them have taken.
* `shown_exactly`: where nothing is raised, what a sink is offered says which payloads were handed over, and no
  message of it repeats the one before.
-/

namespace RedisLuaLinux.Spdlog

open Library

variable {δ : Type} (code : SinkCode δ)

structure DistSink where
  sinks : List Ptr
  deriving DecidableEq, Repr

namespace DistSink

def addSink (ptr : Ptr) (d : DistSink) : DistSink := ⟨d.sinks ++ [ptr]⟩

def removeSink (ptr : Ptr) (d : DistSink) : DistSink := ⟨d.sinks.filter (· ≠ ptr)⟩

def sinkIt (d : DistSink) (msg : LogMsg) (w : Outputs δ) : Outputs δ × Option Text :=
  forEach (Outputs.act (code.sinkIt msg)) d.sinks w

end DistSink

structure DupFilterSink extends DistSink where
  -- in microseconds
  maxSkipDuration : Int
  lastMsgTime : Int := 0
  lastMsgPayload : Text := []
  skipCounter : Nat := 0
  deriving DecidableEq, Repr

/-- What a new `log_msg` asks the system for. -/
structure Now where
  time : Int
  threadId : Nat
  deriving DecidableEq, Repr

def skippedText (n : Nat) : Text := "Skipped ".toList ++ natText n ++ " duplicate messages..".toList

namespace DupFilterSink

def filter (f : DupFilterSink) (msg : LogMsg) : Bool :=
  f.maxSkipDuration * 1000 < msg.time - f.lastMsgTime ∨ msg.payload ≠ f.lastMsgPayload

/-- `skipped_msg`. -/
def skippedMsg (f : DupFilterSink) (now : Now) (msg : LogMsg) : LogMsg where
  loggerName := msg.loggerName
  level := msg.level
  time := now.time
  threadId := now.threadId
  source := {}
  payload := skippedText f.skipCounter

/-- After a message that is left out. -/
def skip (f : DupFilterSink) : DupFilterSink := { f with skipCounter := (f.skipCounter + 1) % 2 ^ 64 }

/-- After a message that the sinks have taken. -/
def pass (f : DupFilterSink) (msg : LogMsg) : DupFilterSink :=
  { f with lastMsgTime := msg.time, skipCounter := 0, lastMsgPayload := msg.payload }

def sinkIt (now : Now) (msg : LogMsg) (f : DupFilterSink) (w : Outputs δ) :
    (DupFilterSink × Outputs δ) × Option Text :=
  if f.filter msg then
    let noticed := if 0 < f.skipCounter then f.toDistSink.sinkIt code (f.skippedMsg now msg) w else (w, none)
    match noticed.2 with
    | some err => ((f, noticed.1), some err)
    | none =>
      let handed := f.toDistSink.sinkIt code msg noticed.1
      match handed.2 with
      | some err => ((f, handed.1), some err)
      | none => ((f.pass msg, handed.1), none)
  else ((f.skip, w), none)

end DupFilterSink

/-! ## What is left out -/

/-- How a call ends. -/
inductive DupOutcome
  | skipped
  | raised (err : Text)
  | passed
  deriving DecidableEq, Repr

/-- A call of the sink with its outcome, or a change of its sinks. -/
inductive DupEvent
  | log (now : Now) (msg : LogMsg) (outcome : DupOutcome)
  | addSink (ptr : Ptr)
  | removeSink (ptr : Ptr)
  | setSinks (sinks : List Ptr)

namespace DupFilterSink

def outcome (f : DupFilterSink) (msg : LogMsg) (err : Option Text) : DupOutcome :=
  match err with
  | some err => .raised err
  | none => if f.filter msg then .passed else .skipped

def step (s : DupFilterSink × Outputs δ) : DupEvent → Option (DupFilterSink × Outputs δ)
  | .log now msg outcome =>
    let called := s.1.sinkIt code now msg s.2
    if s.1.outcome msg called.2 = outcome then some called.1 else none
  | .addSink ptr => some ({ s.1 with toDistSink := s.1.addSink ptr }, s.2)
  | .removeSink ptr => some ({ s.1 with toDistSink := s.1.removeSink ptr }, s.2)
  | .setSinks sinks => some ({ s.1 with sinks }, s.2)

/-- The last message that the sinks have taken, and the messages left out since then. -/
def sincePassed (acc : Option LogMsg × List LogMsg) : DupEvent → Option LogMsg × List LogMsg
  | .log _ msg .passed => (some msg, [])
  | .log _ msg .skipped => (acc.1, acc.2 ++ [msg])
  | _ => acc

/-- When a message was, and what it says. -/
abbrev Stamp := Int × Text

def stampOf (msg : LogMsg) : Stamp := (msg.time, msg.payload)

/-- What a sink has before the first message. -/
def noStamp : Stamp := (0, [])

def stamp (f : DupFilterSink) : Stamp := (f.lastMsgTime, f.lastMsgPayload)

/-- The same payload, within the time limit. -/
def repeats (maxSkipDuration : Int) (last new : Stamp) : Bool :=
  new.2 = last.2 ∧ new.1 - last.1 ≤ maxSkipDuration * 1000

theorem filter_eq (f : DupFilterSink) (msg : LogMsg) :
    f.filter msg = !repeats f.maxSkipDuration f.stamp (stampOf msg) := by
  unfold filter repeats stamp stampOf
  rw [← decide_not]
  apply decide_eq_decide.mpr
  rw [not_and_or, Int.not_le]
  exact Or.comm

/-- What the sink knows of the messages before. -/
structure LeftOut (f : DupFilterSink) (acc : Option LogMsg × List LogMsg) : Prop where
  last : f.stamp = (acc.1.map stampOf).getD noStamp
  counted : f.skipCounter = acc.2.length % 2 ^ 64
  repeated : ∀ msg ∈ acc.2, repeats f.maxSkipDuration f.stamp (stampOf msg)

/-- A call leaves the sink as it was, unless the message is left out or taken. -/
theorem sinkIt_cases (now : Now) (msg : LogMsg) (f : DupFilterSink) (w : Outputs δ) :
    (f.filter msg = false ∧ f.sinkIt code now msg w = ((f.skip, w), none)) ∨
      (f.filter msg = true ∧ ∃ w', (∃ err, f.sinkIt code now msg w = ((f, w'), some err)) ∨
        f.sinkIt code now msg w = ((f.pass msg, w'), none)) := by
  unfold sinkIt
  by_cases hfilter : f.filter msg
  · refine Or.inr ⟨hfilter, ?_⟩
    rw [if_pos hfilter]
    dsimp only
    split
    · rename_i err _
      exact ⟨_, Or.inl ⟨err, rfl⟩⟩
    · split
      · rename_i err _
        exact ⟨_, Or.inl ⟨err, rfl⟩⟩
      · exact ⟨_, Or.inr rfl⟩
  · rw [if_neg hfilter]
    exact Or.inl ⟨Bool.eq_false_iff.mpr hfilter, rfl⟩

variable {code} {s s' : DupFilterSink × Outputs δ} {e : DupEvent} {acc : Option LogMsg × List LogMsg}

theorem leftOut_step (h : LeftOut s.1 acc) (hstep : step code s e = some s') :
    LeftOut s'.1 (sincePassed acc e) ∧ s'.1.maxSkipDuration = s.1.maxSkipDuration := by
  cases e with
  | log now msg outcome =>
    obtain ⟨houtcome, hcall⟩ := Option.ite_none_right_eq_some.mp hstep
    obtain rfl := Option.some.inj hcall
    rcases sinkIt_cases code now msg s.1 s.2 with ⟨hfilter, hskip⟩ |
      ⟨hfilter, w', ⟨err, hraised⟩ | hpassed⟩
    · rw [hskip] at houtcome ⊢
      obtain rfl : DupOutcome.skipped = outcome := by
        rw [← houtcome]
        simp [DupFilterSink.outcome, hfilter]
      refine ⟨⟨h.last, ?_, ?_⟩, rfl⟩
      · show (s.1.skipCounter + 1) % 2 ^ 64 = (acc.2 ++ [msg]).length % 2 ^ 64
        rw [h.counted, List.length_append, List.length_singleton, Nat.mod_add_mod]
      · intro m hm
        rcases List.mem_append.mp hm with hold | hnew
        · exact h.repeated m hold
        · rw [List.mem_singleton.mp hnew]
          rw [filter_eq, Bool.not_eq_false'] at hfilter
          exact hfilter
    · rw [hraised] at houtcome ⊢
      obtain rfl : DupOutcome.raised err = outcome := houtcome
      exact ⟨h, rfl⟩
    · rw [hpassed] at houtcome ⊢
      obtain rfl : DupOutcome.passed = outcome := by
        rw [← houtcome]
        simp [DupFilterSink.outcome, hfilter]
      exact ⟨⟨rfl, rfl, fun m hm => absurd hm List.not_mem_nil⟩, rfl⟩
  | addSink ptr =>
    obtain rfl := Option.some.inj hstep
    exact ⟨⟨h.last, h.counted, h.repeated⟩, rfl⟩
  | removeSink ptr =>
    obtain rfl := Option.some.inj hstep
    exact ⟨⟨h.last, h.counted, h.repeated⟩, rfl⟩
  | setSinks sinks =>
    obtain rfl := Option.some.inj hstep
    exact ⟨⟨h.last, h.counted, h.repeated⟩, rfl⟩

/-- A new sink. -/
def new (maxSkipDuration : Int) (sinks : List Ptr) : DupFilterSink := { sinks, maxSkipDuration }

theorem leftOut_of_run {maxSkipDuration : Int} {sinks : List Ptr} {w : Outputs δ} {es : List DupEvent}
    (h : Run (step code) AnyStep (new maxSkipDuration sinks, w) es s) :
    LeftOut s.1 (es.foldl sincePassed (none, [])) ∧ s.1.maxSkipDuration = maxSkipDuration := by
  induction h with
  | nil => exact ⟨⟨rfl, rfl, fun m hm => absurd hm List.not_mem_nil⟩, rfl⟩
  | snoc _ _ hstep ih =>
    obtain ⟨hleft, hduration⟩ := leftOut_step ih.1 hstep
    rw [List.foldl_append]
    exact ⟨hleft, hduration.trans ih.2⟩

/-- Whatever the sinks raise and however they are changed: the number in the next notice is that of the messages
left out since the last one that all sinks have taken, and each of these repeats it. -/
theorem left_out_repeats {maxSkipDuration : Int} {sinks : List Ptr} {w : Outputs δ} {es : List DupEvent}
    (h : Run (step code) AnyStep (new maxSkipDuration sinks, w) es s) (now : Now) (msg : LogMsg) :
    let since := es.foldl sincePassed (none, [])
    (s.1.skippedMsg now msg).payload = skippedText (since.2.length % 2 ^ 64) ∧
      ∀ m ∈ since.2, repeats maxSkipDuration ((since.1.map stampOf).getD noStamp) (stampOf m) := by
  obtain ⟨hleft, hduration⟩ := leftOut_of_run h
  intro since
  constructor
  · exact congrArg skippedText hleft.counted
  · intro m hm
    rw [← hleft.last, ← hduration]
    exact hleft.repeated m hm

/-- A message is repeated, and the next one is not taken by a sink that was added. -/
def fullForTheLast : List DupEvent :=
  [.log ⟨0, 1⟩ .sample .passed, .log ⟨0, 1⟩ .sample .skipped, .addSink 0,
    .log ⟨0, 1⟩ { LogMsg.sample with payload := "other".toList } (.raised "disk full".toList)]

theorem left_out_repeats_of_full : ∃ s, Run (step Logger.fullAtZero) AnyStep
    (new 5000000 [1], ⟨fun ptr => (ptr, []), []⟩) fullForTheLast s ∧
      (s.1.skippedMsg ⟨0, 1⟩ .sample).payload = skippedText 1 ∧
      ∀ m ∈ [LogMsg.sample], repeats 5000000 (stampOf .sample) (stampOf m) := by
  have hrun : Run (step Logger.fullAtZero) AnyStep (new 5000000 [1], ⟨fun ptr => (ptr, []), []⟩)
      fullForTheLast _ := Run.of_replay rfl
  exact ⟨_, hrun, left_out_repeats hrun ⟨0, 1⟩ .sample⟩

/-! ## What the sinks see -/

/-- The number in a notice. -/
def readSkipped (t : Text) : Option Nat :=
  let rest := t.drop "Skipped ".toList.length
  (readNat (rest.take (rest.length - " duplicate messages..".toList.length))).filter fun n => t = skippedText n

/-- What a payload stands for. -/
def readEntry (t : Text) : Entry Text :=
  match readSkipped t with
  | some n => .again n
  | none => .item t

/-- One call after the other; the exceptions are left to the callers. -/
def logAll (code : SinkCode δ) (calls : List (Now × LogMsg)) (s : DupFilterSink × Outputs δ) :
    DupFilterSink × Outputs δ :=
  calls.foldl (fun s call => (s.1.sinkIt code call.1 call.2 s.2).1) s

/-- The messages that the sinks are handed for a message. -/
def handed (f : DupFilterSink) (now : Now) (msg : LogMsg) : List LogMsg :=
  (if 0 < f.skipCounter then [f.skippedMsg now msg] else []) ++ [msg]

/-- The messages that the sinks are handed, if none of them raises an exception. -/
def shown (f : DupFilterSink) : List (Now × LogMsg) → List LogMsg
  | [] => []
  | (now, msg) :: calls =>
    if f.filter msg then f.handed now msg ++ (f.pass msg).shown calls else f.skip.shown calls

def after (f : DupFilterSink) : List (Now × LogMsg) → DupFilterSink
  | [] => f
  | (_, msg) :: calls => if f.filter msg then (f.pass msg).after calls else f.skip.after calls

@[simp] theorem readSkipped_skippedText (n : Nat) : readSkipped (skippedText n) = some n := by
  have hrest : (skippedText n).drop "Skipped ".toList.length = natText n ++ " duplicate messages..".toList := by
    unfold skippedText
    rw [List.append_assoc, List.drop_left]
  unfold readSkipped
  dsimp only
  rw [hrest, List.length_append, Nat.add_sub_cancel, List.take_left, readNat_natText, Option.filter_some,
    if_pos (decide_eq_true rfl)]

theorem distribute_calm (hcalm : code.Calm) (d : DistSink) (hnodup : d.sinks.Nodup) {ptr : Ptr}
    (hptr : ptr ∈ d.sinks) (msg : LogMsg) (w : Outputs δ) :
    (d.sinkIt code msg w).2 = none ∧ (d.sinkIt code msg w).1.sinks ptr = (code.sinkIt msg (w.sinks ptr)).1 := by
  unfold DistSink.sinkIt
  rw [forEach_eq_tryEach (sinkIt_calm hcalm msg) fun _ w => w]
  exact ⟨rfl, tryEach_at (Outputs.ownAction (code.sinkIt msg) fun _ _ => rfl) hptr hnodup w⟩

theorem sinkIt_calm (hcalm : code.Calm) (f : DupFilterSink) (hnodup : f.sinks.Nodup) {ptr : Ptr}
    (hptr : ptr ∈ f.sinks) (now : Now) (msg : LogMsg) (w : Outputs δ) (hfilter : f.filter msg) :
    (f.sinkIt code now msg w).1.1 = f.pass msg ∧
      (f.sinkIt code now msg w).1.2.sinks ptr =
        (f.handed now msg).foldl (fun d m => (code.sinkIt m d).1) (w.sinks ptr) := by
  unfold sinkIt handed
  rw [if_pos hfilter]
  by_cases hcount : 0 < f.skipCounter
  · obtain ⟨hnotice, hnoticed⟩ := distribute_calm hcalm f.toDistSink hnodup hptr (f.skippedMsg now msg) w
    obtain ⟨hnone, hat⟩ := distribute_calm hcalm f.toDistSink hnodup hptr msg
      (f.toDistSink.sinkIt code (f.skippedMsg now msg) w).1
    simp only [if_pos hcount, hnotice, hnone, true_and]
    rw [hat, hnoticed]
    rfl
  · obtain ⟨hnone, hat⟩ := distribute_calm hcalm f.toDistSink hnodup hptr msg w
    simp only [if_neg hcount, hnone, true_and]
    exact hat

theorem logAll_calm (hcalm : code.Calm) (calls : List (Now × LogMsg)) (f : DupFilterSink)
    (hnodup : f.sinks.Nodup) {ptr : Ptr} (hptr : ptr ∈ f.sinks) (w : Outputs δ) :
    (logAll code calls (f, w)).1 = f.after calls ∧
      (logAll code calls (f, w)).2.sinks ptr =
        (f.shown calls).foldl (fun d m => (code.sinkIt m d).1) (w.sinks ptr) := by
  induction calls generalizing f w with
  | nil => exact ⟨rfl, rfl⟩
  | cons call calls ih =>
    obtain ⟨now, msg⟩ := call
    unfold logAll
    rw [List.foldl_cons, shown, after]
    by_cases hfilter : f.filter msg
    · obtain ⟨hpass, hat⟩ := sinkIt_calm hcalm f hnodup hptr now msg w hfilter
      rw [if_pos hfilter, if_pos hfilter, List.foldl_append, ← hat]
      dsimp only
      generalize (f.sinkIt code now msg w).1 = next at hpass ⊢
      obtain ⟨f', w'⟩ := next
      obtain rfl : f' = f.pass msg := hpass
      exact ih (f.pass msg) hnodup hptr w'
    · have hskip : f.sinkIt code now msg w = ((f.skip, w), none) := if_neg hfilter
      rw [if_neg hfilter, if_neg hfilter, hskip]
      exact ih f.skip hnodup hptr w

/-- A message as an entry. -/
def entryOf (msg : LogMsg) : Entry Stamp :=
  match readSkipped msg.payload with
  | some n => .again n
  | none => .item (stampOf msg)

theorem handed_entries (f : DupFilterSink) (now : Now) {msg : LogMsg} (hplain : readSkipped msg.payload = none) :
    (f.handed now msg).map entryOf = againEntry f.skipCounter ++ [.item (stampOf msg)] := by
  have hitem : entryOf msg = .item (stampOf msg) := by
    unfold entryOf
    rw [hplain]
  have hnotice : entryOf (f.skippedMsg now msg) = .again f.skipCounter := by
    unfold entryOf skippedMsg
    rw [readSkipped_skippedText]
  unfold handed againEntry
  split
  · rw [List.map_append, List.map_singleton, List.map_singleton, hitem, hnotice]
  · rw [List.nil_append, List.map_singleton, hitem, List.nil_append]

/-- What is shown is the collapsed list of the messages. -/
theorem shown_collapse (calls : List (Now × LogMsg)) (f : DupFilterSink)
    (hplain : ∀ call ∈ calls, readSkipped call.2.payload = none) (hcount : f.skipCounter + calls.length < 2 ^ 64) :
    (f.shown calls).map entryOf =
        collapse (repeats f.maxSkipDuration) f.stamp f.skipCounter (calls.map fun call => stampOf call.2) ∧
      ((f.after calls).stamp, (f.after calls).skipCounter) =
        pending (repeats f.maxSkipDuration) f.stamp f.skipCounter (calls.map fun call => stampOf call.2) := by
  induction calls generalizing f with
  | nil => exact ⟨rfl, rfl⟩
  | cons call calls ih =>
    obtain ⟨now, msg⟩ := call
    have hfirst : readSkipped msg.payload = none := hplain (now, msg) List.mem_cons_self
    have hrest : ∀ call ∈ calls, readSkipped call.2.payload = none :=
      fun call hcall => hplain call (List.mem_cons_of_mem _ hcall)
    rw [List.length_cons] at hcount
    rw [List.map_cons, collapse, pending, shown, after, filter_eq]
    by_cases hrepeats : repeats f.maxSkipDuration f.stamp (stampOf msg)
    · have hcounted : f.skip.skipCounter = f.skipCounter + 1 := Nat.mod_eq_of_lt (by omega)
      have hskip := ih f.skip hrest (by omega)
      rw [hcounted] at hskip
      simp only [hrepeats, Bool.not_true, Bool.false_eq_true, if_false, if_true]
      exact hskip
    · have hpass := ih (f.pass msg) hrest (by show 0 + calls.length < _; omega)
      rw [Bool.not_eq_true] at hrepeats
      simp only [hrepeats, Bool.not_false, Bool.false_eq_true, if_false, if_true, List.map_append,
        handed_entries f now hfirst, List.append_assoc]
      refine ⟨?_, hpass.2⟩
      apply congrArg (againEntry f.skipCounter ++ ·)
      exact congrArg (Entry.item (stampOf msg) :: ·) hpass.1

theorem entryOf_payload (msg : LogMsg) : readEntry msg.payload = (entryOf msg).map Prod.snd := by
  unfold readEntry entryOf
  cases readSkipped msg.payload with
  | some n => rfl
  | none => rfl

theorem entryOf_items (msgs : List LogMsg) :
    (msgs.filter fun msg => readSkipped msg.payload = none).map stampOf =
      (msgs.map entryOf).filterMap Entry.item? := by
  induction msgs with
  | nil => rfl
  | cons msg msgs ih =>
    rw [List.map_cons, List.filterMap_cons, List.filter_cons, ← ih]
    unfold entryOf
    cases readSkipped msg.payload with
    | some n => rfl
    | none => rfl

/-- If no sink raises an exception and no message looks like a notice, a sink is offered every message in its place,
once or counted by the next notice or still left out; and no message it is offered repeats the one before. -/
theorem shown_exactly (hcalm : code.Calm) {sinks : List Ptr} (hnodup : sinks.Nodup) {ptr : Ptr}
    (hptr : ptr ∈ sinks) (maxSkipDuration : Int) (w : Outputs δ) {calls : List (Now × LogMsg)}
    (hplain : ∀ call ∈ calls, readSkipped call.2.payload = none) (hcount : calls.length < 2 ^ 64) :
    let s := logAll code calls (new maxSkipDuration sinks, w)
    ∃ seen : List LogMsg, s.2.sinks ptr = seen.foldl (fun d msg => (code.sinkIt msg d).1) (w.sinks ptr) ∧
      Entry.expand [] (seen.map fun msg => readEntry msg.payload) ++
          List.replicate s.1.skipCounter s.1.lastMsgPayload = calls.map (fun call => call.2.payload) ∧
      List.IsChain (fun last new => repeats maxSkipDuration last new = false)
        (noStamp :: (seen.filter fun msg => readSkipped msg.payload = none).map stampOf) := by
  intro s
  obtain ⟨hafter, hseen⟩ := logAll_calm hcalm calls (new maxSkipDuration sinks) hnodup hptr w
  have hstart : (new maxSkipDuration sinks).skipCounter + calls.length < 2 ^ 64 := by
    show 0 + calls.length < 2 ^ 64
    omega
  obtain ⟨hcollapse, hpending⟩ := shown_collapse calls (new maxSkipDuration sinks) hplain hstart
  refine ⟨(new maxSkipDuration sinks).shown calls, hseen, ?_, ?_⟩
  · have hkey : ∀ last new, repeats maxSkipDuration last new → new.2 = last.2 :=
      fun last new h => (of_decide_eq_true h).1
    have hentries : ((new maxSkipDuration sinks).shown calls).map (fun msg => readEntry msg.payload) =
        (((new maxSkipDuration sinks).shown calls).map entryOf).map (Entry.map Prod.snd) := by
      rw [List.map_map]
      exact List.map_congr_left fun msg _ => entryOf_payload msg
    have hexpand := expand_collapse hkey noStamp 0 (calls.map fun call => stampOf call.2)
    have hstamp : (s.1.stamp, s.1.skipCounter) =
        pending (repeats maxSkipDuration) noStamp 0 (calls.map fun call => stampOf call.2) := by
      rw [hafter]
      exact hpending
    rw [← hstamp, List.map_map] at hexpand
    rw [hentries, hcollapse]
    exact hexpand
  · rw [entryOf_items, hcollapse]
    exact isChain_items noStamp 0 _

/-- The example of the header. -/
def threeHellos : List (Now × LogMsg) :=
  [(⟨0, 1⟩, .sample), (⟨0, 1⟩, .sample), (⟨0, 1⟩, .sample),
    (⟨0, 1⟩, { LogMsg.sample with payload := "different hello".toList })]

theorem shown_exactly_of_hellos :
    ∃ seen : List LogMsg, (logAll memory threeHellos (new 5000000 [0], ⟨fun _ => [], []⟩)).2.sinks 0 =
        seen.foldl (fun d msg => (memory.sinkIt msg d).1) [] ∧
      Entry.expand [] (seen.map fun msg => readEntry msg.payload) ++
          List.replicate (logAll memory threeHellos (new 5000000 [0], ⟨fun _ => [], []⟩)).1.skipCounter
            (logAll memory threeHellos (new 5000000 [0], ⟨fun _ => [], []⟩)).1.lastMsgPayload =
        ["hello".toList, "hello".toList, "hello".toList, "different hello".toList] ∧
      List.IsChain (fun last new => repeats 5000000 last new = false)
        (noStamp :: (seen.filter fun msg => readSkipped msg.payload = none).map stampOf) :=
  shown_exactly memory_calm (List.nodup_singleton 0) List.mem_cons_self 5000000 ⟨fun _ => [], []⟩
    (by decide) (by decide)

end DupFilterSink

end RedisLuaLinux.Spdlog
