import RedisLuaLinux.Spdlog.Logger
import RedisLuaLinux.Spdlog.PatternLanguage

/-!
# The color sink

`ansicolor_sink` prints a formatted message with the color range of the message between two color codes. The
color range is kept in the message: a formatter without color flags leaves it as the sink before has set it.

* `chain_in_range`: from one sink to the next, nothing outside of a formatted text is read, as long as each
  pattern after the first marks a range of its own.
-/

namespace RedisLuaLinux.Spdlog

open Library

structure AnsicolorSink where
  level : Level := .trace
  shouldDoColors : Bool
  formatter : PatternFormatter
  colors : Level → Text
  -- what was written to `target_file_`
  printed : Text := []

namespace AnsicolorSink

/-- The escape sequence of some codes. -/
def ansi (codes : List String) : Text := codes.flatMap fun code => "\x1b[".toList ++ code.toList ++ "m".toList

def reset : Text := ansi [""]

def defaultColors : Level → Text
  | .trace => ansi ["37"]
  | .debug => ansi ["36"]
  | .info => ansi ["32"]
  | .warn => ansi ["33", "1"]
  | .err => ansi ["31", "1"]
  | .critical => ansi ["1", "41"]
  | .off => reset

/-- `shouldDoColors` is what the color mode makes of the terminal. -/
def new (shouldDoColors : Bool) : AnsicolorSink where
  shouldDoColors := shouldDoColors
  formatter := .newDefault .local "\n".toList
  colors := defaultColors

/-- `print_range_`; `none` where a position is outside of the text. -/
def printRange (formatted : Text) (first last : Nat) : Option Text :=
  if first ≤ last ∧ last ≤ formatted.length then some ((formatted.take last).drop first) else none

/-- What is printed of a formatted message. -/
def print (sink : AnsicolorSink) (msgLevel : Level) (formatted : Formatted) : Option Text :=
  if sink.shouldDoColors ∧ formatted.colorRangeStart < formatted.colorRangeEnd then do
    let before ← printRange formatted.dest 0 formatted.colorRangeStart
    let colored ← printRange formatted.dest formatted.colorRangeStart formatted.colorRangeEnd
    let after ← printRange formatted.dest formatted.colorRangeEnd formatted.dest.length
    return before ++ sink.colors msgLevel ++ colored ++ reset ++ after
  else printRange formatted.dest 0 formatted.dest.length

/-- The message comes with a color range and leaves with one. -/
def log (os : OS) (msg : LogMsg) (range : Nat × Nat) (sink : AnsicolorSink) :
    Option (AnsicolorSink × (Nat × Nat)) :=
  let formatted := sink.formatter.format os msg ⟨[], range.1, range.2⟩
  (sink.print msg.level formatted.2).map fun text =>
    ({ sink with formatter := formatted.1, printed := sink.printed ++ text },
      (formatted.2.colorRangeStart, formatted.2.colorRangeEnd))

/-! ## What is printed of a range -/

/-- A text, or a text with a part of it between color codes. -/
def Highlighted (color text line : Text) : Prop :=
  line = text ∨ ∃ before colored after, text = before ++ colored ++ after ∧
    line = before ++ color ++ colored ++ reset ++ after

/-- The ends of the color range are in the text. -/
structure InRange (formatted : Formatted) : Prop where
  start_le : formatted.colorRangeStart ≤ formatted.dest.length
  end_le : formatted.colorRangeEnd ≤ formatted.dest.length

theorem printRange_of_le {t : Text} {i j : Nat} (hi : i ≤ j) (hj : j ≤ t.length) :
    printRange t i j = some ((t.take j).drop i) := if_pos ⟨hi, hj⟩

theorem printRange_all (t : Text) : printRange t 0 t.length = some t := by
  rw [printRange_of_le (Nat.zero_le _) (Nat.le_refl _), List.drop_zero, List.take_length]

/-- Three ranges, one after the other. -/
theorem split_at (t : Text) {i j : Nat} (hi : i ≤ j) :
    t = t.take i ++ (t.take j).drop i ++ t.drop j := by
  have hfront : (t.take j).take i = t.take i := by rw [List.take_take, Nat.min_eq_left hi]
  have hpart := List.take_append_drop i (t.take j)
  rw [hfront] at hpart
  rw [hpart, List.take_append_drop]

/-- In range, the whole text is printed, with color codes around the range. -/
theorem print_of_inRange (sink : AnsicolorSink) (msgLevel : Level) {formatted : Formatted}
    (h : InRange formatted) :
    ∃ line, sink.print msgLevel formatted = some line ∧
      Highlighted (sink.colors msgLevel) formatted.dest line := by
  unfold print
  split
  · rename_i hcolored
    have hle := Nat.le_of_lt hcolored.2
    rw [printRange_of_le (Nat.zero_le _) h.start_le, printRange_of_le hle h.end_le,
      printRange_of_le h.end_le (Nat.le_refl _), List.take_length, List.drop_zero]
    exact ⟨_, rfl, Or.inr ⟨_, _, _, split_at formatted.dest hle, rfl⟩⟩
  · rw [printRange_all]
    exact ⟨_, rfl, Or.inl rfl⟩

end AnsicolorSink

/-! ## Which formatters mark a range -/

namespace FlagFormatter

def marksStart : FlagFormatter → Bool
  | full _ _ => true
  | colorStart => true
  | _ => false

def marksEnd : FlagFormatter → Bool
  | full _ _ => true
  | colorStop => true
  | _ => false

variable {os : OS} {msg : LogMsg} {tm : Tm}

/-- A flag only appends. -/
theorem length_le_format (os : OS) (msg : LogMsg) (tm : Tm) (flag : FlagFormatter) (out : Formatted) :
    out.dest.length ≤ (flag.format os msg tm out).2.dest.length := by
  cases flag <;> simp only [format, Formatted.append, List.length_append] <;> omega

theorem format_start (flag : FlagFormatter) (out : Formatted)
    (h : out.colorRangeStart ≤ out.dest.length ∨ flag.marksStart) :
    (flag.format os msg tm out).2.colorRangeStart ≤ (flag.format os msg tm out).2.dest.length := by
  have hgrows := flag.length_le_format os msg tm out
  cases flag with
  | full cacheTimestamp cachedDatetime =>
    simp only [format, Formatted.append, List.length_append]
    omega
  | colorStart => exact Nat.le_refl _
  | colorStop => exact h.resolve_right (by simp [marksStart])
  | _ => exact Nat.le_trans (h.resolve_right (by simp [marksStart])) hgrows

theorem format_end (flag : FlagFormatter) (out : Formatted)
    (h : out.colorRangeEnd ≤ out.dest.length ∨ flag.marksEnd) :
    (flag.format os msg tm out).2.colorRangeEnd ≤ (flag.format os msg tm out).2.dest.length := by
  have hgrows := flag.length_le_format os msg tm out
  cases flag with
  | full cacheTimestamp cachedDatetime =>
    simp only [format, Formatted.append, List.length_append]
    omega
  | colorStop => exact Nat.le_refl _
  | colorStart => exact h.resolve_right (by simp [marksEnd])
  | _ => exact Nat.le_trans (h.resolve_right (by simp [marksEnd])) hgrows

end FlagFormatter

namespace PatternFormatter

variable {os : OS} {msg : LogMsg}

/-- The pattern marks both ends of a range. -/
def Marks (p : PatternFormatter) : Prop :=
  (∃ f ∈ p.formatters, f.marksStart) ∧ ∃ f ∈ p.formatters, f.marksEnd

/-- What one flag keeps or brings about, a pattern with such a flag brings about. -/
theorem formatAll_marks {tm : Tm} {P : Formatted → Prop} {marks : FlagFormatter → Bool}
    (hflag : ∀ f out, (P out ∨ marks f) → P (f.format os msg tm out).2) {fs : List FlagFormatter} {out : Formatted}
    (h : P out ∨ ∃ f ∈ fs, marks f) : P (formatAll os msg tm fs out).2 := by
  induction fs generalizing out with
  | nil => exact h.resolve_right (by simp)
  | cons f fs ih =>
    apply ih
    by_cases hrest : ∃ g ∈ fs, marks g
    · exact Or.inr hrest
    · apply Or.inl
      apply hflag f out
      apply h.imp_right
      intro hmarks
      obtain ⟨g, hg, hmark⟩ := hmarks
      rcases List.mem_cons.mp hg with rfl | hg
      · exact hmark
      · exact absurd ⟨g, hg, hmark⟩ hrest

theorem formatAll_start (os : OS) (msg : LogMsg) (tm : Tm) {fs : List FlagFormatter} {out : Formatted}
    (h : out.colorRangeStart ≤ out.dest.length ∨ ∃ f ∈ fs, f.marksStart) :
    (formatAll os msg tm fs out).2.colorRangeStart ≤ (formatAll os msg tm fs out).2.dest.length :=
  formatAll_marks (P := fun out => out.colorRangeStart ≤ out.dest.length) (fun f => f.format_start) h

theorem formatAll_end (os : OS) (msg : LogMsg) (tm : Tm) {fs : List FlagFormatter} {out : Formatted}
    (h : out.colorRangeEnd ≤ out.dest.length ∨ ∃ f ∈ fs, f.marksEnd) :
    (formatAll os msg tm fs out).2.colorRangeEnd ≤ (formatAll os msg tm fs out).2.dest.length :=
  formatAll_marks (P := fun out => out.colorRangeEnd ≤ out.dest.length) (fun f => f.format_end) h

theorem formatAll_dest_congr (tm : Tm) (fs : List FlagFormatter) {out out' : Formatted} (h : out.dest = out'.dest) :
    (formatAll os msg tm fs out).2.dest = (formatAll os msg tm fs out').2.dest := by
  induction fs generalizing out out' with
  | nil => exact h
  | cons f fs ih =>
    apply ih
    cases f <;> simp only [FlagFormatter.format, Formatted.append, h]

/-- The text does not depend on the range before. -/
theorem format_dest_of_range (p : PatternFormatter) (first last : Nat) :
    (p.format os msg ⟨[], first, last⟩).2.dest = (p.format os msg ⟨[], 0, 0⟩).2.dest :=
  congrArg (· ++ p.eol) (formatAll_dest_congr (p.tmFor os msg) p.formatters rfl)

/-- The range is in the text, if it was empty before or the pattern marks one. -/
theorem format_inRange (os : OS) (msg : LogMsg) (p : PatternFormatter) {range : Nat × Nat} (h : range = (0, 0) ∨ p.Marks) :
    AnsicolorSink.InRange (p.format os msg ⟨[], range.1, range.2⟩).2 := by
  have hlength : ∀ out : Formatted, out.dest.length ≤ (out.append p.eol).dest.length := by
    intro out
    exact (List.sublist_append_left _ _).length_le
  constructor
  · refine Nat.le_trans (formatAll_start os msg (p.tmFor os msg) ?_) (hlength _)
    exact h.imp (fun hzero => by rw [hzero]; exact Nat.le_refl 0) And.left
  · refine Nat.le_trans (formatAll_end os msg (p.tmFor os msg) ?_) (hlength _)
    exact h.imp (fun hzero => by rw [hzero]; exact Nat.le_refl 0) And.right

end PatternFormatter

namespace AnsicolorSink

variable {os : OS} {msg : LogMsg}

/-- A message through one sink after the other. -/
def logChain (os : OS) (msg : LogMsg) : Nat × Nat → List AnsicolorSink → Option (List AnsicolorSink)
  | _, [] => some []
  | range, sink :: sinks => do
    let logged ← sink.log os msg range
    let rest ← logChain os msg logged.2 sinks
    return logged.1 :: rest

/-- A sink prints the text that its formatter makes of a message. -/
def Printed (os : OS) (msg : LogMsg) (sink sink' : AnsicolorSink) : Prop :=
  ∃ line, sink'.printed = sink.printed ++ line ∧
    Highlighted (sink.colors msg.level) (sink.formatter.format os msg ⟨[], 0, 0⟩).2.dest line

theorem log_of_marks (os : OS) (msg : LogMsg) {range : Nat × Nat} {sink : AnsicolorSink} (h : range = (0, 0) ∨ sink.formatter.Marks) :
    ∃ sink' range', sink.log os msg range = some (sink', range') ∧ Printed os msg sink sink' := by
  obtain ⟨line, hprint, hline⟩ := print_of_inRange sink msg.level
    (sink.formatter.format_inRange os msg h)
  rw [sink.formatter.format_dest_of_range] at hline
  unfold log
  dsimp only
  rw [hprint]
  exact ⟨_, _, rfl, line, rfl, hline⟩

/-- No sink reads outside of the text that it has formatted: each prints that text, with color codes around a part
of it or without, as long as the patterns of all but the first mark a range. -/
theorem chain_in_range (os : OS) (msg : LogMsg) {sinks : List AnsicolorSink}
    (hmarks : ∀ sink ∈ sinks.tail, sink.formatter.Marks) :
    ∃ sinks', logChain os msg (0, 0) sinks = some sinks' ∧ List.Forall₂ (Printed os msg) sinks sinks' := by
  have hall : ∀ (sinks : List AnsicolorSink) (range : Nat × Nat),
      (∀ sink ∈ sinks.tail, sink.formatter.Marks) →
      (∀ sink ∈ sinks.head?, range = (0, 0) ∨ sink.formatter.Marks) →
      ∃ sinks', logChain os msg range sinks = some sinks' ∧ List.Forall₂ (Printed os msg) sinks sinks' := by
    intro sinks
    induction sinks with
    | nil => exact fun _ _ _ => ⟨[], rfl, .nil⟩
    | cons sink sinks ih =>
      intro range htail hhead
      obtain ⟨sink', range', hlog, hprinted⟩ := log_of_marks os msg (hhead sink rfl)
      obtain ⟨sinks', hchain, hrest⟩ := ih range' (fun s hs => htail s (List.mem_of_mem_tail hs))
        (fun s hs => Or.inr (htail s (List.mem_of_mem_head? hs)))
      refine ⟨sink' :: sinks', ?_, .cons hprinted hrest⟩
      unfold logChain
      rw [hlog]
      show (logChain os msg range' sinks).bind _ = _
      rw [hchain]
      rfl
  exact hall sinks (0, 0) hmarks fun _ _ => Or.inl rfl

theorem newDefault_marks (timeType : PatternTimeType) (eol : Text) : (PatternFormatter.newDefault timeType eol).Marks :=
  ⟨⟨_, List.mem_singleton_self _, rfl⟩, ⟨_, List.mem_singleton_self _, rfl⟩⟩

theorem chain_in_range_of_two :
    ∃ sinks', logChain stillOS .sample (0, 0) [.new true, .new false] = some sinks' ∧
      List.Forall₂ (Printed stillOS .sample) [.new true, .new false] sinks' :=
  chain_in_range stillOS .sample (by
    intro sink hsink
    obtain rfl := List.mem_singleton.mp hsink
    exact newDefault_marks .local _)

end AnsicolorSink

end RedisLuaLinux.Spdlog
