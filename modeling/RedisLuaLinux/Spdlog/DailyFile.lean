import Mathlib
import RedisLuaLinux.Library.Run
import RedisLuaLinux.Spdlog.FlagFormatter

/-!
# The daily file sink

`daily_file_sink` over the files of a disk. A sink opens the file of the day and the next time of its rotation,
takes formatted messages under its mutex, and is destroyed; the next one finds the files as they were left. Times
are nanoseconds since the epoch, as in the messages; the calendar is that of the system.

* `daily_opened`: as long as the times of the messages do not fall, no failure of the disk makes a sink write
  without an open file.
-/

namespace RedisLuaLinux.Spdlog

open Library

/-- An integer in so many places, with zeros behind the sign. -/
def paddedInt (width : Nat) : Int → Text
  | .ofNat n => padUint n width
  | .negSucc n => '-' :: padUint (n + 1) (width - 1)

/-- `daily_filename_calculator::calc_filename`. -/
def dailyFilename (filename : Text) (tm : Tm) : Text :=
  (splitByExtension filename).1 ++ "_".toList ++ paddedInt 4 (tm.year + 1900) ++ "-".toList ++
    paddedInt 2 (tm.mon.val + 1) ++ "-".toList ++ paddedInt 2 tm.mday ++ (splitByExtension filename).2

/-- What the constructor is given. -/
structure DailyConf where
  baseFilename : Text
  rotationH : Int
  rotationM : Int
  truncate : Bool := false
  deriving DecidableEq, Repr

/-- The calendar and `mktime`. -/
structure Calendar where
  localtime : Int → Tm
  mktime : Tm → Int

/-- A sink, if there is one, with its disk. -/
structure DailyFile where
  file : FileHelper
  rotationTp : Int
  alive : Bool

/-- Calls with the times that the clock shows, and the answers of the disk. -/
inductive DailyEvent
  | construct (now now' : Int) (opens : Nat → Bool)
  | sinkIt (time : Int) (formatted : Bytes) (now : Int) (opens : Nat → Bool) (taken : Nat)
  | destroy

namespace DailyConf

variable (cal : Calendar) (conf : DailyConf)

def day : Int := 24 * 60 * 60 * 1000000000

def nowTm (tp : Int) : Tm := cal.localtime (seconds tp)

def nameAt (tp : Int) : Text := dailyFilename conf.baseFilename (nowTm cal tp)

def nextRotationTp (now : Int) : Int :=
  let date := { nowTm cal now with hour := conf.rotationH, min := conf.rotationM, sec := 0 }
  let rotationTime := cal.mktime date * 1000000000
  if now < rotationTime then rotationTime else rotationTime + day

def Valid : Prop := 0 ≤ conf.rotationH ∧ conf.rotationH ≤ 23 ∧ 0 ≤ conf.rotationM ∧ conf.rotationM ≤ 59

instance : Decidable conf.Valid := inferInstanceAs (Decidable (_ ∧ _))

def construct (now now' : Int) (opens : Nat → Bool) (files : Files) : DailyFile × Option Text :=
  if conf.Valid then
    let opened := { files := files : FileHelper }.openFile (conf.nameAt cal now) conf.truncate opens
    match opened.2 with
    | some err => ({ file := opened.1.close, rotationTp := 0, alive := false }, some err)
    | none => ({ file := opened.1, rotationTp := conf.nextRotationTp cal now', alive := true }, none)
  else
    ({ file := { files }, rotationTp := 0, alive := false },
      some "daily_file_sink: Invalid rotation time in ctor".toList)

/-- The start of `sink_it_`. -/
def rotate (time now : Int) (opens : Nat → Bool) (s : DailyFile) : DailyFile × Option Text :=
  if s.rotationTp ≤ time then
    let opened := s.file.openFile (conf.nameAt cal time) conf.truncate opens
    match opened.2 with
    | some err => ({ s with file := opened.1 }, some err)
    | none => ({ s with file := opened.1, rotationTp := conf.nextRotationTp cal now }, none)
  else (s, none)

/-- `none` where the message is written without an open file. -/
def sinkIt (time : Int) (formatted : Bytes) (now : Int) (opens : Nat → Bool) (taken : Nat) (s : DailyFile) :
    Option (DailyFile × Option Text) :=
  let rotated := conf.rotate cal time now opens s
  match rotated.2 with
  | some err => some (rotated.1, some err)
  | none =>
    (rotated.1.file.write formatted taken).map fun written => ({ rotated.1 with file := written.1 }, written.2)

def step (s : DailyFile) : DailyEvent → Option DailyFile
  | .construct now now' opens => if s.alive then none else some (conf.construct cal now now' opens s.file.files).1
  | .sinkIt time formatted now opens taken =>
    if s.alive then (conf.sinkIt cal time formatted now opens taken s).map Prod.fst else none
  | .destroy => if s.alive then some { s with file := s.file.close, alive := false } else none

/-- Before the first sink. -/
def start (first : Files) : DailyFile := { file := { files := first }, rotationTp := 0, alive := false }

end DailyConf

/-! ## No sink writes without an open file -/

/-- The time of the message that an event hands to the sink. -/
def DailyEvent.msgTimes : DailyEvent → List Int
  | .sinkIt time _ _ _ _ => [time]
  | _ => []

namespace DailyConf

variable {cal : Calendar} {conf : DailyConf} {first : Files} {s s' : DailyFile} {e : DailyEvent}
  {es : List DailyEvent} {times : List Int}

/-- A file is open, or a rotation was due before one of these times. -/
def OpenOrDue (times : List Int) (s : DailyFile) : Prop :=
  s.file.fd.isSome ∨ ∃ time ∈ times, s.rotationTp ≤ time

/-- A rotation opens a file, or leaves the time of the rotation as it was, before that of the message. -/
theorem rotate_cases (cal : Calendar) (time now : Int) (opens : Nat → Bool) (s : DailyFile) :
    ((conf.rotate cal time now opens s).2 = none ∧
        (s.rotationTp ≤ time → (conf.rotate cal time now opens s).1.file.fd.isSome) ∧
        (time < s.rotationTp → (conf.rotate cal time now opens s).1 = s)) ∨
      (∃ err, (conf.rotate cal time now opens s).2 = some err) ∧ s.rotationTp ≤ time ∧
        (conf.rotate cal time now opens s).1.rotationTp = s.rotationTp := by
  unfold rotate
  by_cases hdue : s.rotationTp ≤ time
  · rw [if_pos hdue]
    rcases FileHelper.openFile_cases (conf.nameAt cal time) conf.truncate opens s.file with hopen | hfail
    · rw [hopen]
      exact Or.inl ⟨rfl, fun _ => rfl, fun hlt => absurd hdue (Int.not_le.mpr hlt)⟩
    · rw [hfail]
      exact Or.inr ⟨⟨_, rfl⟩, hdue, rfl⟩
  · rw [if_neg hdue]
    exact Or.inl ⟨rfl, fun hle => absurd hle hdue, fun _ => rfl⟩

/-- A message that is not older than the ones before is written to an open file, unless the rotation fails. -/
theorem sinkIt_openOrDue (cal : Calendar) (h : OpenOrDue times s) (time : Int) (htimes : ∀ t ∈ times, t ≤ time) (formatted : Bytes)
    (now : Int) (opens : Nat → Bool) (taken : Nat) :
    ∃ r, conf.sinkIt cal time formatted now opens taken s = some r ∧ OpenOrDue (times ++ [time]) r.1 := by
  unfold sinkIt
  rcases conf.rotate_cases cal time now opens s with ⟨hnone, hdue, hearly⟩ | ⟨⟨err, hraised⟩, hdue, hkept⟩
  · have hopen : (conf.rotate cal time now opens s).1.file.fd.isSome := by
      by_cases hle : s.rotationTp ≤ time
      · exact hdue hle
      · rw [hearly (Int.not_le.mp hle)]
        apply h.resolve_right
        intro hsome
        obtain ⟨t, ht, htp⟩ := hsome
        exact hle (Int.le_trans htp (htimes t ht))
    obtain ⟨name, hname⟩ := Option.isSome_iff_exists.mp hopen
    simp only [hnone, FileHelper.write, hname, Option.map_some]
    exact ⟨_, rfl, Or.inl rfl⟩
  · simp only [hraised]
    refine ⟨_, rfl, Or.inr ⟨time, List.mem_append_right times List.mem_cons_self, ?_⟩⟩
    rw [hkept]
    exact hdue

theorem openOrDue_step (h : s.alive → OpenOrDue times s) (hsorted : (times ++ e.msgTimes).Pairwise (· ≤ ·))
    (hstep : conf.step cal s e = some s') : s'.alive → OpenOrDue (times ++ e.msgTimes) s' := by
  cases e with
  | construct now now' opens =>
    obtain ⟨_, hnew⟩ := Option.ite_none_left_eq_some.mp hstep
    obtain rfl := Option.some.inj hnew
    unfold construct
    split
    · rcases FileHelper.openFile_cases (conf.nameAt cal now) conf.truncate opens { files := s.file.files } with
        hopen | hfail
      · rw [hopen]
        exact fun _ => Or.inl rfl
      · rw [hfail]
        intro halive
        cases halive
    · intro halive
      cases halive
  | sinkIt time formatted now opens taken =>
    obtain ⟨halive, hcall⟩ := Option.ite_none_right_eq_some.mp hstep
    have htimes : ∀ t ∈ times, t ≤ time :=
      fun t ht => (List.pairwise_append.mp hsorted).2.2 t ht time List.mem_cons_self
    obtain ⟨r, hr, hopen⟩ := conf.sinkIt_openOrDue cal (h halive) time htimes formatted now opens taken
    rw [hr] at hcall
    obtain rfl := Option.some.inj hcall
    exact fun _ => hopen
  | destroy =>
    obtain ⟨_, hend⟩ := Option.ite_none_right_eq_some.mp hstep
    obtain rfl := Option.some.inj hend
    intro halive
    cases halive

theorem openOrDue_run (h : Run (conf.step cal) AnyStep (start first) es s)
    (hsorted : (es.flatMap DailyEvent.msgTimes).Pairwise (· ≤ ·)) :
    s.alive → OpenOrDue (es.flatMap DailyEvent.msgTimes) s := by
  induction h with
  | nil =>
    intro halive
    cases halive
  | snoc _ _ hstep ih =>
    rw [List.flatMap_append, List.flatMap_singleton] at hsorted ⊢
    exact openOrDue_step (ih (List.pairwise_append.mp hsorted).1) hsorted hstep

/-- As long as the times of the messages do not fall, no sink writes without an open file: a rotation that could
not open one is made again by the next message. -/
theorem daily_opened (h : Run (conf.step cal) AnyStep (start first) es s) (halive : s.alive) (time : Int)
    (hsorted : (es.flatMap DailyEvent.msgTimes ++ [time]).Pairwise (· ≤ ·)) (formatted : Bytes) (now : Int)
    (opens : Nat → Bool) (taken : Nat) :
    ∃ s', conf.step cal s (.sinkIt time formatted now opens taken) = some s' := by
  obtain ⟨hbefore, -, hlast⟩ := List.pairwise_append.mp hsorted
  obtain ⟨r, hr, -⟩ := conf.sinkIt_openOrDue cal (openOrDue_run h hbefore halive) time
    (fun t ht => hlast t ht time List.mem_cons_self) formatted now opens taken
  refine ⟨r.1, ?_⟩
  show (if s.alive then (conf.sinkIt cal time formatted now opens taken s).map Prod.fst else none) = some r.1
  rw [if_pos halive, hr]
  rfl

/-- The first days of 1970, at the place of the epoch. -/
def january : Calendar where
  localtime t :=
    { sec := t % 60, min := t / 60 % 60, hour := t / 3600 % 24, mday := t / 86400 + 1,
      mon := ⟨0, zero_lt_months⟩, year := 70, wday := ⟨(t / 86400 + 4).toNat % 7, Nat.mod_lt _ zero_lt_weekdays⟩,
      gmtoff := 0 }
  mktime tm := (tm.mday - 1) * 86400 + tm.hour * 3600 + tm.min * 60 + tm.sec

def atMidnight : DailyConf := { baseFilename := "log.txt".toList, rotationH := 0, rotationM := 0 }

/-- The file of the second day cannot be opened. -/
def refusedSecondDay : List DailyEvent :=
  [.construct 5 6 fun _ => true, .sinkIt 7 [1] 8 (fun _ => true) 1, .sinkIt day [2] day (fun _ => false) 1]

theorem daily_opened_of_refused :
    ∃ s, Run (atMidnight.step january) AnyStep (start fun _ => none) refusedSecondDay s ∧
      ∃ s', atMidnight.step january s (.sinkIt (day + 1) [3] (day + 1) (fun _ => true) 1) = some s' := by
  have hrun : Run (atMidnight.step january) AnyStep (start fun _ => none) refusedSecondDay _ := Run.of_replay rfl
  exact ⟨_, hrun, daily_opened hrun rfl (day + 1) (by decide) [3] (day + 1) (fun _ => true) 1⟩

end DailyConf

end RedisLuaLinux.Spdlog
