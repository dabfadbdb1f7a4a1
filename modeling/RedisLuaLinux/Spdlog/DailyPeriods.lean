import RedisLuaLinux.Spdlog.DailyFile

/-!
# The periods of the daily file sink

The times from one rotation to the next are a period. Where the local time is a fixed number of seconds ahead, the
calls are made in the period of their message, the times do not fall, and the disk answers, a sink keeps a daybook:
what it writes in a period goes to one file, named for the day of the first message or of the constructor.

* `daily_daybook`: the times of the rotations, which `mktime` makes from the clock, amount to the periods.
* `daily_by_date`: with the rotation at midnight, each file has the messages of its day.
-/

namespace RedisLuaLinux.Spdlog

open Library

/-- The local time is some seconds ahead, and the date changes with the day. -/
structure Calendar.Fixed (cal : Calendar) (offset : Int) : Prop where
  mktime : ∀ t hour min, 0 ≤ hour → hour ≤ 23 → 0 ≤ min → min ≤ 59 →
    cal.mktime { cal.localtime t with hour := hour, min := min, sec := 0 } =
      (t + offset) / 86400 * 86400 - offset + (hour * 3600 + min * 60)
  date : ∀ t t', (t + offset) / 86400 = (t' + offset) / 86400 →
    (cal.localtime t).year = (cal.localtime t').year ∧ (cal.localtime t).mon = (cal.localtime t').mon ∧
      (cal.localtime t).mday = (cal.localtime t').mday

namespace DailyConf

variable (cal : Calendar) (conf : DailyConf) (offset : Int)

/-- The number of the period of a time. -/
def period (tp : Int) : Int := (seconds tp + offset - (conf.rotationH * 3600 + conf.rotationM * 60)) / 86400

end DailyConf

/-! ## Calls in their period -/

namespace DailyEvent

/-- The times that a file may be named for. -/
def times : DailyEvent → List Int
  | construct now _ _ => [now]
  | sinkIt time _ _ _ _ => [time]
  | destroy => []

/-- The clock shows the period of the message. -/
def Timely (conf : DailyConf) (offset : Int) : DailyEvent → Prop
  | construct now now' _ => 0 ≤ now ∧ 0 ≤ now' ∧ conf.period offset now = conf.period offset now'
  | sinkIt time _ now _ _ => 0 ≤ time ∧ 0 ≤ now ∧ conf.period offset time = conf.period offset now
  | destroy => True

/-- The disk answers. -/
def Smooth : DailyEvent → Prop
  | construct _ _ opens => ∃ t < FileHelper.openTries, opens t
  | sinkIt _ formatted _ opens taken => (∃ t < FileHelper.openTries, opens t) ∧ formatted.length ≤ taken
  | destroy => True

end DailyEvent

/-- The files, and the period and the file that a sink writes. -/
structure Daybook where
  files : Files
  page : Option (Int × Text) := none

namespace Daybook

variable (cal : Calendar) (conf : DailyConf) (offset : Int)

/-- The page of a time. -/
def turn (tp : Int) (book : Daybook) : Daybook where
  files := Function.update book.files (conf.nameAt cal tp)
    (some (if conf.truncate then [] else book.files.content (conf.nameAt cal tp)))
  page := some (conf.period offset tp, conf.nameAt cal tp)

def append (name : Text) (formatted : Bytes) (book : Daybook) : Daybook :=
  { book with files := Function.update book.files name (some (book.files.content name ++ [formatted])) }

def step (book : Daybook) : DailyEvent → Option Daybook
  | .construct now _ _ => if book.page.isSome then none else some (book.turn cal conf offset now)
  | .sinkIt time formatted _ _ _ =>
    book.page.map fun page =>
      if page.1 = conf.period offset time then book.append page.2 formatted
      else (book.turn cal conf offset time).append (conf.nameAt cal time) formatted
  | .destroy => if book.page.isSome then some { book with page := none } else none

end Daybook

namespace DailyConf

variable {cal : Calendar} {conf : DailyConf} {offset : Int} {first : Files} {s s' : DailyFile} {book : Daybook}
  {e : DailyEvent} {es : List DailyEvent}

theorem seconds_of_nonneg {tp : Int} (h : 0 ≤ tp) : seconds tp = tp / 1000000000 :=
  Int.tdiv_eq_ediv_of_nonneg h

/-- The rotation is after the period. -/
theorem before_rotation_iff (hcal : cal.Fixed offset) (hvalid : conf.Valid) {time now : Int} (htime : 0 ≤ time)
    (hnow : 0 ≤ now) :
    time < conf.nextRotationTp cal now ↔ conf.period offset time ≤ conf.period offset now := by
  obtain ⟨hhour, hhour', hmin, hmin'⟩ := hvalid
  have hmk := hcal.mktime (seconds now) conf.rotationH conf.rotationM hhour hhour' hmin hmin'
  unfold nextRotationTp nowTm period day
  dsimp only
  rw [hmk, seconds_of_nonneg htime, seconds_of_nonneg hnow]
  split <;> omega

theorem period_mono {tp tp' : Int} (h : 0 ≤ tp) (hle : tp ≤ tp') : conf.period offset tp ≤ conf.period offset tp' := by
  unfold period
  rw [seconds_of_nonneg h, seconds_of_nonneg (Int.le_trans h hle)]
  omega

/-- A sink that writes the page of a daybook, with the time of the page. -/
structure OnPage (cal : Calendar) (conf : DailyConf) (offset : Int) (times : List Int) (s : DailyFile)
    (book : Daybook) (p : Int) (name : Text) : Prop where
  page : book.page = some (p, name)
  opened : s.file.fd = some name
  rotation : ∀ time, 0 ≤ time → (time < s.rotationTp ↔ conf.period offset time ≤ p)
  begun : ∃ t ∈ times, 0 ≤ t ∧ conf.period offset t = p

/-- The sink and the daybook. -/
structure Keeps (cal : Calendar) (conf : DailyConf) (offset : Int) (times : List Int) (s : DailyFile)
    (book : Daybook) : Prop where
  files : s.file.files = book.files
  absent : s.alive = false → book.page = none
  present : s.alive → ∃ p name, OnPage cal conf offset times s book p name

variable {times : List Int}

theorem construct_keeps (hcal : cal.Fixed offset) (hvalid : conf.Valid) {now now' : Int} {opens : Nat → Bool}
    (hopens : ∃ t < FileHelper.openTries, opens t) (hnow : 0 ≤ now) (hnow' : 0 ≤ now')
    (hperiod : conf.period offset now = conf.period offset now') :
    Keeps cal conf offset (times ++ [now]) (conf.construct cal now now' opens book.files).1
      (book.turn cal conf offset now) := by
  unfold construct
  rw [if_pos hvalid, FileHelper.openFile_of_ok hopens]
  refine ⟨rfl, ?_, fun _ => ⟨conf.period offset now, conf.nameAt cal now, rfl, rfl, ?_, ?_⟩⟩
  · intro hdead
    cases hdead
  · intro time htime
    rw [hperiod]
    exact before_rotation_iff hcal hvalid htime hnow'
  · exact ⟨now, List.mem_append_right times List.mem_cons_self, hnow, rfl⟩

/-- The message is on the page of the daybook, and the page is that of the message. -/
theorem sinkIt_keeps (hcal : cal.Fixed offset) (hvalid : conf.Valid) {time now : Int} {formatted : Bytes}
    {opens : Nat → Bool} {taken : Nat} (hopens : ∃ t < FileHelper.openTries, opens t)
    (htaken : formatted.length ≤ taken) (htime : 0 ≤ time) (hnow : 0 ≤ now)
    (hperiod : conf.period offset time = conf.period offset now) (hlater : ∀ t ∈ times, t ≤ time)
    (h : Keeps cal conf offset times s book) (halive : s.alive) :
    ∃ r book', conf.sinkIt cal time formatted now opens taken s = some r ∧
      book.step cal conf offset (.sinkIt time formatted now opens taken) = some book' ∧
      Keeps cal conf offset (times ++ [time]) r.1 book' := by
  obtain ⟨p, name, hpage, hopened, hrotation, t, ht, htpos, rfl⟩ := h.present halive
  have hle : conf.period offset t ≤ conf.period offset time := period_mono htpos (hlater t ht)
  have hwhole : formatted.take taken = formatted := List.take_of_length_le htaken
  unfold sinkIt rotate Daybook.step
  simp only [hpage, Option.map_some]
  by_cases hsame : conf.period offset t = conf.period offset time
  · have hbefore : ¬ s.rotationTp ≤ time := Int.not_le.mpr ((hrotation time htime).mpr (Int.le_of_eq hsame.symm))
    simp only [if_neg hbefore, if_pos hsame, FileHelper.write, hopened, Option.map_some, hwhole, h.files]
    refine ⟨_, _, rfl, rfl, rfl, fun hdead => ?_, fun _ => ⟨_, name, hpage, rfl, hrotation, ?_⟩⟩
    · rw [halive] at hdead
      cases hdead
    · exact ⟨t, List.mem_append_left [time] ht, htpos, rfl⟩
  · have hdue : s.rotationTp ≤ time := by
      apply Int.not_lt.mp
      intro hlt
      exact hsame (Int.le_antisymm hle ((hrotation time htime).mp hlt))
    simp only [if_pos hdue, if_neg hsame, FileHelper.openFile_of_ok hopens, FileHelper.write, FileHelper.fopen,
      Option.map_some, hwhole]
    refine ⟨_, _, rfl, rfl, ?_, fun hdead => ?_, fun _ => ⟨_, conf.nameAt cal time, rfl, rfl, ?_, ?_⟩⟩
    · simp only [Daybook.append, Daybook.turn, Files.content, h.files]
    · rw [halive] at hdead
      cases hdead
    · intro time' htime'
      rw [hperiod]
      exact before_rotation_iff hcal hvalid htime' hnow
    · exact ⟨time, List.mem_append_right times List.mem_cons_self, htime, rfl⟩

theorem step_keeps (hcal : cal.Fixed offset) (hvalid : conf.Valid) (hsmooth : e.Smooth)
    (htimely : e.Timely conf offset) (hsorted : (times ++ e.times).Pairwise (· ≤ ·))
    (h : Keeps cal conf offset times s book) (hstep : conf.step cal s e = some s') :
    ∃ book', book.step cal conf offset e = some book' ∧ Keeps cal conf offset (times ++ e.times) s' book' := by
  cases e with
  | construct now now' opens =>
    obtain ⟨hdead, hnew⟩ := Option.ite_none_left_eq_some.mp hstep
    obtain rfl := Option.some.inj hnew
    have hpage := h.absent (Bool.eq_false_iff.mpr hdead)
    refine ⟨book.turn cal conf offset now, if_neg (by simp [hpage]), ?_⟩
    rw [h.files]
    exact construct_keeps hcal hvalid hsmooth htimely.1 htimely.2.1 htimely.2.2
  | sinkIt time formatted now opens taken =>
    obtain ⟨halive, hcall⟩ := Option.ite_none_right_eq_some.mp hstep
    have hlater : ∀ t ∈ times, t ≤ time :=
      fun t ht => (List.pairwise_append.mp hsorted).2.2 t ht time List.mem_cons_self
    obtain ⟨r, book', hr, hbook, hkeeps⟩ := sinkIt_keeps hcal hvalid hsmooth.1 hsmooth.2 htimely.1 htimely.2.1
      htimely.2.2 hlater h halive
    rw [hr] at hcall
    obtain rfl := Option.some.inj hcall
    exact ⟨book', hbook, hkeeps⟩
  | destroy =>
    obtain ⟨halive, hend⟩ := Option.ite_none_right_eq_some.mp hstep
    obtain rfl := Option.some.inj hend
    obtain ⟨p, name, hpage⟩ := h.present halive
    refine ⟨{ book with page := none }, if_pos (by simp [hpage.page]), h.files, fun _ => rfl, ?_⟩
    intro hdead
    cases hdead

theorem run_keeps (hcal : cal.Fixed offset) (hvalid : conf.Valid)
    (h : Run (conf.step cal) AnyStep (start first) es s) (hsmooth : ∀ e ∈ es, e.Smooth)
    (htimely : ∀ e ∈ es, e.Timely conf offset) (hsorted : (es.flatMap DailyEvent.times).Pairwise (· ≤ ·)) :
    ∃ book, Run (Daybook.step cal conf offset) AnyStep { files := first } es book ∧
      Keeps cal conf offset (es.flatMap DailyEvent.times) s book := by
  induction h with
  | nil => exact ⟨_, .nil, rfl, fun _ => rfl, fun halive => by cases halive⟩
  | @snoc es s s' e _ _ hstep ih =>
    rw [List.flatMap_append, List.flatMap_singleton] at hsorted ⊢
    obtain ⟨book, hrun, hkeeps⟩ := ih (fun e he => hsmooth e (List.mem_append_left _ he))
      (fun e he => htimely e (List.mem_append_left _ he)) (List.pairwise_append.mp hsorted).1
    have hlast : e ∈ es ++ [e] := List.mem_append_right es List.mem_cons_self
    obtain ⟨book', hbook, hnext⟩ := step_keeps hcal hvalid (hsmooth e hlast) (htimely e hlast) hsorted hkeeps hstep
    exact ⟨book', .snoc hrun trivial hbook, hnext⟩

/-- The files are those of a daybook: a sink turns the page when it is made and at its first message of each
later period. -/
theorem daily_daybook (hcal : cal.Fixed offset) (hvalid : conf.Valid)
    (h : Run (conf.step cal) AnyStep (start first) es s) (hsmooth : ∀ e ∈ es, e.Smooth)
    (htimely : ∀ e ∈ es, e.Timely conf offset) (hsorted : (es.flatMap DailyEvent.times).Pairwise (· ≤ ·)) :
    ∃ book, Run (Daybook.step cal conf offset) AnyStep { files := first } es book ∧
      s.file.files = book.files := by
  obtain ⟨book, hrun, hkeeps⟩ := run_keeps hcal hvalid h hsmooth htimely hsorted
  exact ⟨book, hrun, hkeeps.files⟩

/-- Two messages of the first day and one of the second. -/
def threeMessages : List DailyEvent :=
  [.construct 5 6 fun _ => true, .sinkIt 7 [1] 8 (fun _ => true) 1, .sinkIt 9 [2] 9 (fun _ => true) 1,
    .sinkIt day [3] day (fun _ => true) 1]

theorem january_fixed : january.Fixed 0 := by
  constructor
  · intro t hour min _ _ _ _
    show (t / 86400 + 1 - 1) * 86400 + hour * 3600 + min * 60 + 0 = _
    rw [Int.add_zero, Int.add_zero, Int.add_sub_cancel]
    omega
  · intro t t' h
    rw [Int.add_zero, Int.add_zero] at h
    exact ⟨rfl, rfl, congrArg (· + 1) h⟩

theorem threeMessages_smooth : ∀ e ∈ threeMessages, e.Smooth := by
  simp only [threeMessages, List.forall_mem_cons, DailyEvent.Smooth, List.length_singleton]
  exact ⟨⟨0, by decide⟩, ⟨⟨0, by decide⟩, Nat.le_refl 1⟩, ⟨⟨0, by decide⟩, Nat.le_refl 1⟩,
    ⟨⟨0, by decide⟩, Nat.le_refl 1⟩, fun e he => absurd he List.not_mem_nil⟩

theorem threeMessages_timely : ∀ e ∈ threeMessages, e.Timely atMidnight 0 := by
  simp only [threeMessages, List.forall_mem_cons, DailyEvent.Timely]
  exact ⟨by decide, by decide, by decide, by decide, fun e he => absurd he List.not_mem_nil⟩

theorem daily_daybook_of_three : ∃ s, Run (atMidnight.step january) AnyStep (start fun _ => none) threeMessages s ∧
    ∃ book, Run (Daybook.step january atMidnight 0) AnyStep { files := fun _ => none } threeMessages book ∧
      s.file.files = book.files := by
  have hrun : Run (atMidnight.step january) AnyStep (start fun _ => none) threeMessages _ := Run.of_replay rfl
  exact ⟨_, hrun, daily_daybook january_fixed (by decide) hrun threeMessages_smooth threeMessages_timely (by decide)⟩

/-! ## The rotation at midnight -/

/-- The message, if it is of the day of a file. -/
def written (cal : Calendar) (conf : DailyConf) (name : Text) : DailyEvent → List Bytes
  | .sinkIt time formatted _ _ _ => if conf.nameAt cal time = name then [formatted] else []
  | _ => []

theorem nameAt_of_period (hcal : cal.Fixed offset) (hh : conf.rotationH = 0) (hm : conf.rotationM = 0) {tp tp' : Int}
    (h : conf.period offset tp = conf.period offset tp') : conf.nameAt cal tp = conf.nameAt cal tp' := by
  unfold period at h
  rw [hh, hm, Int.zero_mul, Int.zero_mul, Int.add_zero, Int.sub_zero, Int.sub_zero] at h
  obtain ⟨hyear, hmon, hmday⟩ := hcal.date (seconds tp) (seconds tp') h
  unfold nameAt nowTm dailyFilename
  rw [hyear, hmon, hmday]

/-- A page is for one day, and the files have the messages of their days. -/
structure ByDate (cal : Calendar) (conf : DailyConf) (offset : Int) (first : Files) (es : List DailyEvent)
    (book : Daybook) : Prop where
  page : ∀ p name, book.page = some (p, name) → ∀ tp, conf.period offset tp = p → conf.nameAt cal tp = name
  content : ∀ name, book.files.content name = first.content name ++ es.flatMap (written cal conf name)

theorem content_update (files : Files) (name name' : Text) (pieces : List Bytes) :
    Files.content (Function.update files name (some pieces)) name' =
      if name = name' then pieces else files.content name' := by
  unfold Files.content
  by_cases h : name = name'
  · subst h
    rw [Function.update_self, if_pos rfl]
    rfl
  · rw [Function.update_of_ne (Ne.symm h), if_neg h]

/-- Without truncation, a file that is opened is as it was. -/
theorem turn_content (happend : conf.truncate = false) (tp : Int) (book : Daybook) (name : Text) :
    (book.turn cal conf offset tp).files.content name = book.files.content name := by
  unfold Daybook.turn
  dsimp only
  rw [happend, content_update]
  split
  · rename_i heq
    rw [← heq]
    rfl
  · rfl

theorem append_content (name : Text) (formatted : Bytes) (book : Daybook) (name' : Text) :
    (book.append name formatted).files.content name' =
      book.files.content name' ++ if name = name' then [formatted] else [] := by
  unfold Daybook.append
  dsimp only
  rw [content_update]
  split
  · rename_i heq
    rw [heq]
  · exact (List.append_nil _).symm

theorem byDate_run (hcal : cal.Fixed offset) (hh : conf.rotationH = 0) (hm : conf.rotationM = 0)
    (happend : conf.truncate = false)
    (h : Run (Daybook.step cal conf offset) AnyStep { files := first } es book) :
    ByDate cal conf offset first es book := by
  have hnames (tp : Int) : ∀ p name, some (conf.period offset tp, conf.nameAt cal tp) = some (p, name) →
      ∀ tp', conf.period offset tp' = p → conf.nameAt cal tp' = name := by
    intro p name hpage tp' htp'
    obtain ⟨rfl, rfl⟩ := Prod.mk.inj (Option.some.inj hpage)
    exact nameAt_of_period hcal hh hm htp'
  induction h with
  | nil =>
    refine ⟨?_, fun name => (List.append_nil _).symm⟩
    intro p name hpage
    cases hpage
  | @snoc es book book' e _ _ hstep ih =>
    have hcontent (name : Text) : first.content name ++ (es ++ [e]).flatMap (written cal conf name) =
        book.files.content name ++ written cal conf name e := by
      rw [List.flatMap_append, List.flatMap_singleton, ih.content, List.append_assoc]
    cases e with
    | construct now now' opens =>
      obtain ⟨-, hnew⟩ := Option.ite_none_left_eq_some.mp hstep
      obtain rfl := Option.some.inj hnew
      refine ⟨hnames now, fun name => ?_⟩
      rw [hcontent, turn_content happend]
      exact (List.append_nil _).symm
    | sinkIt time formatted now opens taken =>
      obtain ⟨⟨p, name⟩, hpage, hnew⟩ := Option.map_eq_some_iff.mp hstep
      dsimp only at hnew
      split at hnew
      · rename_i hsame
        obtain rfl := hnew
        refine ⟨ih.page, fun name' => ?_⟩
        rw [hcontent, append_content, ← ih.page p name hpage time hsame.symm]
        rfl
      · obtain rfl := hnew
        refine ⟨hnames time, fun name' => ?_⟩
        rw [hcontent, append_content, turn_content happend]
        rfl
    | destroy =>
      obtain ⟨-, hnew⟩ := Option.ite_none_right_eq_some.mp hstep
      obtain rfl := Option.some.inj hnew
      constructor
      · intro p name hpage
        cases hpage
      · intro name
        rw [hcontent]
        exact (List.append_nil _).symm

/-- With the rotation at midnight and without truncation, a file has what it had before and the messages of its day,
in the order of their calls. -/
theorem daily_by_date (hcal : cal.Fixed offset) (hh : conf.rotationH = 0) (hm : conf.rotationM = 0)
    (happend : conf.truncate = false) (h : Run (conf.step cal) AnyStep (start first) es s)
    (hsmooth : ∀ e ∈ es, e.Smooth) (htimely : ∀ e ∈ es, e.Timely conf offset)
    (hsorted : (es.flatMap DailyEvent.times).Pairwise (· ≤ ·)) (name : Text) :
    s.file.files.content name = first.content name ++ es.flatMap (written cal conf name) := by
  have hvalid : conf.Valid := by
    unfold Valid
    omega
  obtain ⟨book, hrun, hkeeps⟩ := run_keeps hcal hvalid h hsmooth htimely hsorted
  rw [hkeeps.files]
  exact (byDate_run hcal hh hm happend hrun).content name

theorem daily_by_date_of_three :
    ∃ s, Run (atMidnight.step january) AnyStep (start fun _ => none) threeMessages s ∧
      s.file.files.content "log_1970-01-01.txt".toList = [[1], [2]] := by
  have hrun : Run (atMidnight.step january) AnyStep (start fun _ => none) threeMessages _ := Run.of_replay rfl
  refine ⟨_, hrun, ?_⟩
  rw [daily_by_date january_fixed rfl rfl rfl hrun threeMessages_smooth threeMessages_timely (by decide)]
  decide

end DailyConf

end RedisLuaLinux.Spdlog
