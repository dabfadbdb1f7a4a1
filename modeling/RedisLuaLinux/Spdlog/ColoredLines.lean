import RedisLuaLinux.Spdlog.AnsicolorSink

/-!
# Lines in color

What a color sink prints of one message after the other.

* `colored_lines`: with the range marked in the pattern, exactly what is between the marks is colored.
* `default_logger_lines`: what the default logger prints.
-/

namespace RedisLuaLinux.Spdlog

open Library

namespace AnsicolorSink

variable {os : OS} {msg : LogMsg}

/-! ## Runs of one sink -/

/-- Messages one after the other, each with a range of its own. -/
def logRun (os : OS) : AnsicolorSink → List LogMsg → Option AnsicolorSink
  | sink, [] => some sink
  | sink, msg :: msgs => (sink.log os msg (0, 0)).bind fun logged => logRun os logged.1 msgs

/-- A text in color, if there is any. -/
def highlight (color : Text) : Text → Text
  | [] => []
  | c :: t => color ++ (c :: t) ++ reset

/-- A text in three parts, with the color range in the middle. -/
def parts (before colored after : Text) : Formatted :=
  ⟨before ++ colored ++ after, before.length, before.length + colored.length⟩

/-- The three parts, the middle one in color. -/
def coloredLine (sink : AnsicolorSink) (msgLevel : Level) (before colored after : Text) : Text :=
  before ++ (if sink.shouldDoColors then highlight (sink.colors msgLevel) colored else colored) ++ after

theorem print_parts (sink : AnsicolorSink) (msgLevel : Level) (before colored after : Text) :
    sink.print msgLevel (parts before colored after) = some (sink.coloredLine msgLevel before colored after) := by
  have hall := printRange_all (before ++ colored ++ after)
  unfold print parts coloredLine
  by_cases hcolors : sink.shouldDoColors
  · rw [if_pos hcolors]
    cases colored with
    | nil =>
      rw [if_neg (by simp)]
      exact hall
    | cons c t =>
      have hbefore : (before ++ (c :: t) ++ after).take before.length = before := by
        rw [List.append_assoc, List.take_left]
      have hmiddle : (before ++ (c :: t) ++ after).take (before.length + (c :: t).length) = before ++ (c :: t) := by
        rw [← List.length_append, List.take_left]
      have hend : (before ++ (c :: t) ++ after).drop (before.length + (c :: t).length) = after := by
        rw [← List.length_append, List.drop_left]
      have hsize : before.length + (c :: t).length ≤ (before ++ (c :: t) ++ after).length := by
        rw [← List.length_append]
        exact (List.sublist_append_left _ _).length_le
      have hstart : before.length ≤ (before ++ (c :: t) ++ after).length := by omega
      rw [if_pos ⟨hcolors, by simp⟩]
      dsimp only
      rw [printRange_of_le (Nat.zero_le _) hstart, printRange_of_le (Nat.le_add_right _ _) hsize,
        printRange_of_le hsize (Nat.le_refl _), List.take_length, List.drop_zero, hbefore, hmiddle, hend,
        List.drop_left]
      show some (before ++ sink.colors msgLevel ++ (c :: t) ++ reset ++ after) = _
      unfold highlight
      simp only [List.append_assoc]
  · rw [if_neg (fun h => hcolors h.1), if_neg hcolors]
    exact hall

/-- Where each message is formatted in three parts with the range in the middle, the parts are printed. -/
theorem logRun_parts {before colored after : Int → LogMsg → Text} {msgs : List LogMsg} {last : Int}
    (sink : AnsicolorSink)
    (h : PatternFormatter.formatRun os sink.formatter msgs = PatternFormatter.plainRun
      (fun last msg => parts (before last msg) (colored last msg) (after last msg)) last msgs) :
    (logRun os sink msgs).map AnsicolorSink.printed =
      some (sink.printed ++ (PatternFormatter.plainRun (fun last msg =>
        sink.coloredLine msg.level (before last msg) (colored last msg) (after last msg)) last msgs).flatten) := by
  induction msgs generalizing sink last with
  | nil => exact congrArg some (List.append_nil _).symm
  | cons msg msgs ih =>
    obtain ⟨hfirst, hrest⟩ := List.cons.inj h
    have hfirst : (sink.formatter.format os msg ⟨[], 0, 0⟩).2 =
        parts (before last msg) (colored last msg) (after last msg) := hfirst
    have hprint := print_parts sink msg.level (before last msg) (colored last msg) (after last msg)
    have hafter := ih { sink with
      formatter := (sink.formatter.format os msg ⟨[], 0, 0⟩).1
      printed := sink.printed ++
        sink.coloredLine msg.level (before last msg) (colored last msg) (after last msg) } hrest
    unfold logRun log
    dsimp only
    rw [hfirst, hprint, Option.map_some, Option.bind_some, hafter, List.append_assoc]
    rfl

theorem parts_append (before colored after eol : Text) :
    (parts before colored after).append eol = parts before colored (after ++ eol) := by
  unfold parts Formatted.append
  rw [← List.append_assoc]

end AnsicolorSink

/-! ## Ranges marked in a pattern -/

namespace PatternItem

/-- An item that marks no end of a range. -/
def Unmarked : PatternItem → Prop
  | char _ _ => True
  | flag spec => spec.flag ≠ '^' ∧ spec.flag ≠ '$' ∧ spec.flag ≠ '+'

/-- `%^`. -/
def colorStart : PatternItem := .flag ⟨⟨.left, [], List.forall_mem_nil _⟩, '^', rfl, fun _ _ => rfl⟩

/-- `%$`. -/
def colorStop : PatternItem := .flag ⟨⟨.left, [], List.forall_mem_nil _⟩, '$', rfl, fun _ _ => rfl⟩

variable {os : OS} {tm : Tm} {last : Int} {msg : LogMsg}

end PatternItem

/-- The items before a range, in it and after it. -/
structure MarkedPattern where
  before : List PatternItem
  colored : List PatternItem
  after : List PatternItem
  unmarked : ∀ item ∈ before ++ colored ++ after, item.Unmarked

def MarkedPattern.pattern (p : MarkedPattern) : Pattern where
  items := p.before ++ .colorStart :: p.colored ++ .colorStop :: p.after
  dangling := none

namespace AnsicolorSink

/-- The first message of a log. -/
def firstMessage : LogMsg := { LogMsg.sample with time := 1500000000 }

theorem seconds_firstMessage : seconds firstMessage.time ≠ 0 := by decide

/-- The sink as one of a logger's; `none` after a read outside of a text. Each message comes with a range of its
own. -/
def code (os : OS) : SinkCode (Option AnsicolorSink) where
  level d := (d.map AnsicolorSink.level).getD .trace
  log msg d := (d.bind fun sink => (sink.log os msg (0, 0)).map Prod.fst, none)
  flush d := (d, none)
  handleErr := Outputs.report
  keeps := Outputs.report_sinks

/-- The default logger of the registry, whose only sink is number 0. -/
def defaultLogger : Logger := { name := [], sinks := [0] }

/-- The messages that the default logger admits. -/
def admitted (msgs : List LogMsg) : List LogMsg := msgs.filter fun msg => defaultLogger.shouldLog msg.level

/-- What the default logger prints for a message. -/
def defaultLine (os : OS) (sink : AnsicolorSink) (msg : LogMsg) : Text :=
  sink.coloredLine msg.level (datetime (os.localtime (seconds msg.time)) ++ fullHead msg) msg.level.toStringView
    (fullTail msg ++ "\n".toList)

theorem plainRun_const {α : Type} (f : LogMsg → α) (last : Int) (msgs : List LogMsg) :
    PatternFormatter.plainRun (fun _ msg => f msg) last msgs = msgs.map f := by
  induction msgs generalizing last with
  | nil => rfl
  | cons msg msgs ih =>
    unfold PatternFormatter.plainRun
    rw [List.map_cons, ih]

/-- The default formatter colors the level. -/
theorem formatRun_default (os : OS) {msgs : List LogMsg} (hfirst : ∀ msg ∈ msgs.head?, seconds msg.time ≠ 0) :
    PatternFormatter.formatRun os (.newDefault .local "\n".toList) msgs = PatternFormatter.plainRun
      (fun _ msg => parts (datetime (os.localtime (seconds msg.time)) ++ fullHead msg) msg.level.toStringView
        (fullTail msg ++ "\n".toList)) 0 msgs := by
  have hcurrent : ∀ f ∈ (PatternFormatter.newDefault .local "\n".toList).formatters,
      f.Current (os.getTime .local) 0 := by
    intro f hf
    obtain rfl := List.mem_singleton.mp hf
    exact Or.inl rfl
  have hrun := PatternFormatter.formatRun_of_new (p := .newDefault .local "\n".toList) rfl hcurrent hfirst
  rw [hrun]
  apply PatternFormatter.plainRun_congr
  intro last msg
  rw [← parts_append]
  show Formatted.append (Formatted.mk _ _ _) _ = Formatted.append (Formatted.mk _ _ _) _
  simp only [Formatted.append, List.nil_append, List.length_append]
  rfl

/-- The sink of the default logger gets the messages of its level, one after the other. -/
theorem log_default (os : OS) (msg : LogMsg) (w : Outputs (Option AnsicolorSink))
    (hlevel : ∀ sink ∈ w.sinks 0, sink.level = .trace) :
    (defaultLogger.log (code os) msg w).sinks 0 =
      if defaultLogger.shouldLog msg.level then
        (w.sinks 0).bind fun sink => (sink.log os msg (0, 0)).map Prod.fst
      else w.sinks 0 := by
  unfold Logger.log
  split
  · have hmem : 0 ∈ defaultLogger.sinks := List.mem_singleton_self 0
    have hat := tryEach_at (defaultLogger.ownAction (code os) ((code os).sinkIt msg)) hmem (by decide) w
    have hadmits : (code os).shouldLog (w.sinks 0) msg.level = true := by
      unfold SinkCode.shouldLog code
      cases hsink : w.sinks 0 with
      | none => exact decide_eq_true (Nat.zero_le _)
      | some sink =>
        have htrace := hlevel sink hsink
        show decide (sink.level ≤ msg.level) = true
        rw [htrace]
        exact decide_eq_true (Nat.zero_le _)
    have hflush : defaultLogger.shouldFlush msg = false := by
      unfold Logger.shouldFlush defaultLogger
      cases msg.level <;> decide
    unfold Logger.sinkIt
    rw [hflush]
    show (tryEach _ _ defaultLogger.sinks w).sinks 0 = _
    rw [hat]
    unfold SinkCode.sinkIt
    rw [if_pos hadmits]
    rfl
  · rfl

theorem level_of_log {os : OS} {msg : LogMsg} {range : Nat × Nat} {sink sink' : AnsicolorSink}
    (h : (sink.log os msg range).map Prod.fst = some sink') : sink'.level = sink.level := by
  unfold log at h
  rw [Option.map_map] at h
  obtain ⟨line, _, hsink⟩ := Option.map_eq_some_iff.mp h
  rw [← hsink]
  rfl

theorem logRun_default {os : OS} (msgs : List LogMsg) {w : Outputs (Option AnsicolorSink)}
    (hlevel : ∀ sink ∈ w.sinks 0, sink.level = .trace) :
    (msgs.foldl (fun w msg => defaultLogger.log (code os) msg w) w).sinks 0 =
      (w.sinks 0).bind fun sink => logRun os sink (admitted msgs) := by
  induction msgs generalizing w with
  | nil =>
    show w.sinks 0 = (w.sinks 0).bind some
    cases w.sinks 0 <;> rfl
  | cons msg msgs ih =>
    have hlog := log_default os msg w hlevel
    have hnext : ∀ sink ∈ (defaultLogger.log (code os) msg w).sinks 0, sink.level = .trace := by
      rw [hlog]
      split
      · intro sink' hsink'
        obtain ⟨sink, hsink, hmap⟩ := Option.bind_eq_some_iff.mp hsink'
        rw [level_of_log hmap]
        exact hlevel sink hsink
      · exact hlevel
    rw [List.foldl_cons, ih hnext, hlog]
    by_cases hadmits : defaultLogger.shouldLog msg.level
    · have hcons : admitted (msg :: msgs) = msg :: admitted msgs :=
        List.filter_cons_of_pos (p := fun msg : LogMsg => defaultLogger.shouldLog msg.level) hadmits
      rw [if_pos hadmits, hcons, Option.bind_assoc]
      congr 1
      ext1 sink
      show _ = (sink.log os msg (0, 0)).bind fun logged => logRun os logged.1 (admitted msgs)
      cases sink.log os msg (0, 0) <;> rfl
    · have hcons : admitted (msg :: msgs) = admitted msgs :=
        List.filter_cons_of_neg (p := fun msg : LogMsg => defaultLogger.shouldLog msg.level) hadmits
      rw [if_neg hadmits, hcons]

/-- The default logger prints a line for every message from the level `info` on, in order: the date, the level in
its color and the text; what its formatter keeps from one message to the next is not seen. -/
theorem default_logger_lines (os : OS) (shouldDoColors : Bool) {w : Outputs (Option AnsicolorSink)}
    (hsink : w.sinks 0 = some (.new shouldDoColors)) (msgs : List LogMsg)
    (hfirst : ∀ msg ∈ (admitted msgs).head?, seconds msg.time ≠ 0) :
    ((msgs.foldl (fun w msg => defaultLogger.log (code os) msg w) w).sinks 0).map AnsicolorSink.printed =
      some ((admitted msgs).flatMap (defaultLine os (.new shouldDoColors))) := by
  have hlevel : ∀ sink ∈ w.sinks 0, sink.level = .trace := by
    intro sink h
    rw [hsink] at h
    obtain rfl := Option.some.inj h
    rfl
  rw [logRun_default msgs hlevel, hsink, Option.bind_some]
  have hrun := logRun_parts (.new shouldDoColors) (formatRun_default os hfirst)
  rw [plainRun_const (fun msg => (AnsicolorSink.new shouldDoColors).coloredLine msg.level
    (datetime (os.localtime (seconds msg.time)) ++ fullHead msg) msg.level.toStringView
    (fullTail msg ++ "\n".toList))] at hrun
  rw [List.flatMap_def]
  exact hrun

theorem default_logger_lines_of_first :
    (([firstMessage].foldl (fun w msg => defaultLogger.log (code stillOS) msg w)
      ⟨fun _ => some (.new true), []⟩).sinks 0).map AnsicolorSink.printed =
      some ((admitted [firstMessage]).flatMap (defaultLine stillOS (.new true))) :=
  default_logger_lines stillOS true rfl [firstMessage] (by
    have hadmitted : admitted [firstMessage] = [firstMessage] := by decide
    rw [hadmitted]
    simp [seconds_firstMessage])

end AnsicolorSink

end RedisLuaLinux.Spdlog
