import RedisLuaLinux.Spdlog.FlagFormatter

/-!
# The pattern formatter

`pattern_formatter` compiles a pattern into a list of formatters, and formats each message with them, under a
calendar date that it keeps from one message to the next in the same second.

* `formatRun_of_new`: what a formatter keeps is not seen in what it prints, unless a message of the second of
  the epoch comes first.
-/

namespace RedisLuaLinux.Spdlog

open Library

inductive PatternTimeType
  | local
  | utc
  deriving DecidableEq, Repr

def OS.getTime (os : OS) : PatternTimeType → Int → Tm
  | .local => os.localtime
  | .utc => os.gmtime

/-! ## Compiling a pattern -/

def PadSide.ofChar : Char → Option PadSide
  | '-' => some .right
  | '=' => some .center
  | _ => none

/-- The loop over the digits of a width. -/
def padWidth (digits : Text) : Nat :=
  digits.foldl (fun width c => (width * 10 + (c.toNat - '0'.toNat)) % 2 ^ 64) 0

/-- The padding at the start of a text, and the text after it. -/
def handlePadspec : Text → PaddingInfo × Text
  | [] => ({}, [])
  | c :: t =>
    let side := (PadSide.ofChar c).getD .left
    let rest := if (PadSide.ofChar c).isSome then t else c :: t
    ({ width := min (padWidth (rest.takeWhile Char.isDigit)) 64, side, width_le := Nat.min_le_right _ _ },
      rest.dropWhile Char.isDigit)

/-- The null padder is a padder of width 0. -/
def handleFlag (flag : Char) (padding : PaddingInfo) (now : Int) : FlagFormatter :=
  match flag with
  | '+' => .full 0 []
  | 'n' => .field .name padding
  | 'l' => .field .level padding
  | 'L' => .field .shortLevel padding
  | 't' => .field .t padding
  | 'v' => .field .v padding
  | 'a' => .field .a padding
  | 'A' => .field .A padding
  | 'b' => .field .b padding
  | 'h' => .field .b padding
  | 'B' => .field .B padding
  | 'c' => .field .c padding
  | 'C' => .field .C padding
  | 'Y' => .field .Y padding
  | 'D' => .field .D padding
  | 'x' => .field .D padding
  | 'm' => .field .m padding
  | 'd' => .field .d padding
  | 'H' => .field .H padding
  | 'I' => .field .I padding
  | 'M' => .field .M padding
  | 'S' => .field .S padding
  | 'e' => .field .e padding
  | 'f' => .field .f padding
  | 'F' => .field .F padding
  | 'E' => .field .E padding
  | 'p' => .field .p padding
  | 'r' => .field .r padding
  | 'R' => .field .R padding
  | 'T' => .field .T padding
  | 'X' => .field .T padding
  | 'z' => .field .z padding
  | 'P' => .field .pid padding
  | '^' => .colorStart
  | '$' => .colorStop
  | '@' => .source .location padding
  | 's' => .source .shortFilename padding
  | 'g' => .source .filename padding
  | '#' => .source .linenum padding
  | '!' => .source .funcname padding
  | '%' => .ch '%'
  | 'u' => .elapsed 1 padding now
  | 'i' => .elapsed 1000 padding now
  | 'o' => .elapsed 1000000 padding now
  | 'O' => .elapsed 1000000000 padding now
  | c => .aggregate ['%', c]

theorem length_handlePadspec (t : Text) : (handlePadspec t).2.length ≤ t.length := by
  cases t with
  | nil => exact Nat.le_refl _
  | cons c t =>
    unfold handlePadspec
    have hdrop := (List.dropWhile_sublist Char.isDigit
      (l := if (PadSide.ofChar c).isSome then t else c :: t)).length_le
    refine Nat.le_trans hdrop ?_
    split
    · exact Nat.le_succ _
    · exact Nat.le_refl _

/-- The characters found so far. -/
def flushChars : Text → List FlagFormatter
  | [] => []
  | c :: str => [.aggregate (c :: str)]

/-- The loop of `compile_pattern_`, with the characters found so far. -/
def compileFrom (now : Int) (userChars : Text) : Text → List FlagFormatter
  | [] => flushChars userChars
  | c :: t =>
    if c = '%' then
      match _hspec : handlePadspec t with
      | (_, []) => flushChars userChars
      | (padding, flag :: rest) => flushChars userChars ++ handleFlag flag padding now :: compileFrom now [] rest
    else compileFrom now (userChars ++ [c]) t
termination_by t => t.length
decreasing_by
  · have hshorter := length_handlePadspec t
    rw [_hspec] at hshorter
    simp only [List.length_cons] at hshorter ⊢
    omega
  · simp

section Equations

variable (now : Int) (userChars : Text)

theorem compileFrom_nil : compileFrom now userChars [] = flushChars userChars := by
  unfold compileFrom
  rfl

theorem compileFrom_char {c : Char} (hc : c ≠ '%') (t : Text) :
    compileFrom now userChars (c :: t) = compileFrom now (userChars ++ [c]) t := by
  conv => left; unfold compileFrom
  rw [if_neg hc]

/-- A percent sign and a padding at the end of a pattern. -/
theorem compileFrom_dangling {t : Text} {padding : PaddingInfo} (h : handlePadspec t = (padding, [])) :
    compileFrom now userChars ('%' :: t) = flushChars userChars := by
  unfold compileFrom
  rw [if_pos rfl]
  split
  · rfl
  · rename_i hspec
    rw [h] at hspec
    cases hspec

theorem compileFrom_flag {t rest : Text} {padding : PaddingInfo} {flag : Char}
    (h : handlePadspec t = (padding, flag :: rest)) :
    compileFrom now userChars ('%' :: t) =
      flushChars userChars ++ handleFlag flag padding now :: compileFrom now [] rest := by
  conv => left; unfold compileFrom
  rw [if_pos rfl]
  split
  · rename_i hspec
    rw [h] at hspec
    cases hspec
  · rename_i hspec
    rw [h] at hspec
    cases hspec
    rfl

end Equations

/-- Elapsed times are counted from `now` on. -/
def compilePattern (now : Int) (pattern : Text) : List FlagFormatter := compileFrom now [] pattern

/-! ## Formatting -/

structure PatternFormatter where
  pattern : Text
  eol : Text
  patternTimeType : PatternTimeType
  cachedTm : Tm
  lastLogSecs : Int
  formatters : List FlagFormatter
  deriving DecidableEq, Repr

namespace PatternFormatter

def new (pattern : Text) (timeType : PatternTimeType) (eol : Text) (now : Int) : PatternFormatter where
  pattern := pattern
  eol := eol
  patternTimeType := timeType
  cachedTm := .zero
  lastLogSecs := 0
  formatters := compilePattern now pattern

/-- Without a pattern, the default formatter is taken. -/
def newDefault (timeType : PatternTimeType) (eol : Text) : PatternFormatter where
  pattern := "%+".toList
  eol := eol
  patternTimeType := timeType
  cachedTm := .zero
  lastLogSecs := 0
  formatters := [.full 0 []]

/-- The loop of `format`. -/
def formatAll (os : OS) (msg : LogMsg) (tm : Tm) : List FlagFormatter → Formatted →
    List FlagFormatter × Formatted
  | [], out => ([], out)
  | f :: fs, out =>
    let formatted := f.format os msg tm out
    let rest := formatAll os msg tm fs formatted.2
    (formatted.1 :: rest.1, rest.2)

/-- The date for a message. -/
def tmFor (os : OS) (p : PatternFormatter) (msg : LogMsg) : Tm :=
  if seconds msg.time ≠ p.lastLogSecs then os.getTime p.patternTimeType (seconds msg.time) else p.cachedTm

def format (os : OS) (msg : LogMsg) (p : PatternFormatter) (out : Formatted) : PatternFormatter × Formatted :=
  let formatted := formatAll os msg (p.tmFor os msg) p.formatters out
  ({ p with
      cachedTm := p.tmFor os msg
      lastLogSecs := seconds msg.time
      formatters := formatted.1 },
    formatted.2.append p.eol)

/-- Messages one after the other, each into a buffer of its own. -/
def formatRun (os : OS) : PatternFormatter → List LogMsg → List Formatted
  | _, [] => []
  | p, msg :: msgs =>
    let formatted := p.format os msg ⟨[], 0, 0⟩
    formatted.2 :: formatRun os formatted.1 msgs

variable {os : OS} {msg : LogMsg}

/-- The flags format a message without anything kept, the message before being of the time `last`. -/
def plainAll (os : OS) (getTime : Int → Tm) (fs : List FlagFormatter) (last : Int) (msg : LogMsg) :
    Formatted → Formatted :=
  fs.foldl fun out f => f.plainFormat os msg (getTime (seconds msg.time)) last out

/-- A result for each of the messages, with the time of the message before it. -/
def plainRun {α : Type} (line : Int → LogMsg → α) : Int → List LogMsg → List α
  | _, [] => []
  | last, msg :: msgs => line last msg :: plainRun line msg.time msgs

theorem map_plainRun {α β : Type} (f : α → β) (line : Int → LogMsg → α) (last : Int) (msgs : List LogMsg) :
    (plainRun line last msgs).map f = plainRun (fun last msg => f (line last msg)) last msgs := by
  induction msgs generalizing last with
  | nil => rfl
  | cons msg msgs ih =>
    unfold plainRun
    rw [List.map_cons, ih]

theorem plainRun_congr {α : Type} {line line' : Int → LogMsg → α} (h : ∀ last msg, line last msg = line' last msg)
    (last : Int) (msgs : List LogMsg) : plainRun line last msgs = plainRun line' last msgs := by
  have heq : line = line' := by
    ext1 last
    ext1 msg
    exact h last msg
  rw [heq]

/-- The line of a formatter that keeps nothing. -/
def plainLine (os : OS) (p : PatternFormatter) (last : Int) (msg : LogMsg) : Formatted :=
  (plainAll os (os.getTime p.patternTimeType) p.formatters last msg ⟨[], 0, 0⟩).append p.eol

theorem formatAll_plain (os : OS) (msg : LogMsg) {getTime : Int → Tm} {last : Int} {fs : List FlagFormatter}
    (h : ∀ f ∈ fs, f.Current getTime last) (out : Formatted) :
    (formatAll os msg (getTime (seconds msg.time)) fs out).2 = plainAll os getTime fs last msg out ∧
      ∀ f ∈ (formatAll os msg (getTime (seconds msg.time)) fs out).1, f.Current getTime msg.time := by
  induction fs generalizing out with
  | nil => exact ⟨rfl, by simp [formatAll]⟩
  | cons f fs ih =>
    obtain ⟨hplain, hcurrent⟩ := f.format_plain os msg (h f List.mem_cons_self) out
    obtain ⟨hrest, hall⟩ := ih (fun g hg => h g (List.mem_cons_of_mem f hg))
      (f.format os msg (getTime (seconds msg.time)) out).2
    constructor
    · unfold formatAll
      dsimp only
      rw [hrest, hplain]
      rfl
    · intro g hg
      rcases List.mem_cons.mp hg with rfl | hg
      · exact hcurrent
      · exact hall g hg

/-- The flags are the same but for what they keep. -/
theorem plainAll_formatAll (tm : Tm) (getTime : Int → Tm) (fs : List FlagFormatter) (out out' : Formatted)
    (last : Int) (msg' : LogMsg) :
    plainAll os getTime (formatAll os msg tm fs out).1 last msg' out' = plainAll os getTime fs last msg' out' := by
  induction fs generalizing out out' with
  | nil => rfl
  | cons f fs ih =>
    unfold formatAll plainAll
    rw [List.foldl_cons, List.foldl_cons, FlagFormatter.plainFormat_format]
    exact ih _ _

/-- Under the right date, a message is formatted as if nothing were kept, and the date is kept for the next. -/
theorem format_plain (msg : LogMsg) {p : PatternFormatter} {last : Int}
    (hcurrent : ∀ f ∈ p.formatters, f.Current (os.getTime p.patternTimeType) last)
    (htm : p.tmFor os msg = os.getTime p.patternTimeType (seconds msg.time)) :
    (p.format os msg ⟨[], 0, 0⟩).2 = p.plainLine os last msg ∧
      ∀ f ∈ (p.format os msg ⟨[], 0, 0⟩).1.formatters, f.Current (os.getTime p.patternTimeType) msg.time := by
  obtain ⟨hplain, hnext⟩ := formatAll_plain os msg hcurrent ⟨[], 0, 0⟩
  unfold format
  rw [htm]
  refine ⟨?_, hnext⟩
  show (formatAll os msg _ p.formatters _).2.append p.eol = _
  rw [hplain]
  rfl

/-- What is kept does not change the line. -/
theorem plainLine_format (p : PatternFormatter) (out : Formatted) :
    (p.format os msg out).1.plainLine os = p.plainLine os := by
  ext1 last
  ext1 msg'
  unfold plainLine
  exact congrArg (Formatted.append · p.eol) (plainAll_formatAll _ _ p.formatters out _ last msg')

/-- The date that is kept is that of its second. -/
def Dated (os : OS) (p : PatternFormatter) : Prop :=
  p.cachedTm = os.getTime p.patternTimeType p.lastLogSecs

theorem tmFor_of_dated {p : PatternFormatter} (h : p.Dated os) :
    p.tmFor os msg = os.getTime p.patternTimeType (seconds msg.time) := by
  unfold tmFor
  split
  · rfl
  · rename_i hsame
    rw [not_not] at hsame
    rw [hsame]
    exact h

/-- One message, and a run of messages after it under a right date. -/
theorem formatRun_cons {p : PatternFormatter} {last : Int}
    (hcurrent : ∀ f ∈ p.formatters, f.Current (os.getTime p.patternTimeType) last)
    (htm : p.tmFor os msg = os.getTime p.patternTimeType (seconds msg.time)) {msgs : List LogMsg}
    (hrest : ∀ q : PatternFormatter, q.Dated os →
      (∀ f ∈ q.formatters, f.Current (os.getTime q.patternTimeType) msg.time) →
      formatRun os q msgs = plainRun (q.plainLine os) msg.time msgs) :
    formatRun os p (msg :: msgs) = plainRun (p.plainLine os) last (msg :: msgs) := by
  obtain ⟨hplain, hnext⟩ := format_plain msg hcurrent htm
  have hafter := hrest (p.format os msg ⟨[], 0, 0⟩).1 htm hnext
  unfold formatRun plainRun
  dsimp only
  rw [hplain, hafter, plainLine_format]

theorem formatRun_of_dated {p : PatternFormatter} (hdated : p.Dated os) {last : Int}
    (hcurrent : ∀ f ∈ p.formatters, f.Current (os.getTime p.patternTimeType) last) (msgs : List LogMsg) :
    formatRun os p msgs = plainRun (p.plainLine os) last msgs := by
  induction msgs generalizing p last with
  | nil => rfl
  | cons msg msgs ih =>
    apply formatRun_cons hcurrent (tmFor_of_dated hdated)
    intro q hq hcurrent'
    exact ih hq hcurrent'

/-- A new formatter has no date, and gets one with the first message that is not of second 0. -/
theorem formatRun_of_new {p : PatternFormatter} (hnew : p.lastLogSecs = 0) {last : Int}
    (hcurrent : ∀ f ∈ p.formatters, f.Current (os.getTime p.patternTimeType) last) {msgs : List LogMsg}
    (hfirst : ∀ msg ∈ msgs.head?, seconds msg.time ≠ 0) :
    formatRun os p msgs = plainRun (p.plainLine os) last msgs := by
  cases msgs with
  | nil => rfl
  | cons msg msgs =>
    apply formatRun_cons hcurrent
    · unfold tmFor
      rw [if_pos (by rw [hnew]; exact hfirst msg rfl)]
    · intro q hq hcurrent'
      exact formatRun_of_dated hq hcurrent' msgs

end PatternFormatter

theorem handleFlag_current (flag : Char) (padding : PaddingInfo) (now : Int) (getTime : Int → Tm) :
    (handleFlag flag padding now).Current getTime now := by
  unfold handleFlag
  split
  all_goals first | exact trivial | exact rfl | exact Or.inl rfl

theorem flushChars_current (str : Text) (getTime : Int → Tm) (last : Int) :
    ∀ f ∈ flushChars str, f.Current getTime last := by
  cases str with
  | nil => simp [flushChars]
  | cons c str =>
    intro f hf
    obtain rfl := List.mem_singleton.mp hf
    trivial

/-- A compiled pattern keeps nothing yet. -/
theorem compileFrom_current (now : Int) (getTime : Int → Tm) (userChars pattern : Text) :
    ∀ f ∈ compileFrom now userChars pattern, f.Current getTime now := by
  induction userChars, pattern using compileFrom.induct with
  | case1 userChars =>
    rw [compileFrom_nil]
    exact flushChars_current userChars getTime now
  | case2 userChars t padding hspec =>
    rw [compileFrom_dangling now userChars hspec]
    exact flushChars_current userChars getTime now
  | case3 userChars t padding flag rest hspec ih =>
    rw [compileFrom_flag now userChars hspec]
    intro f hf
    rcases List.mem_append.mp hf with hf | hf
    · exact flushChars_current userChars getTime now f hf
    · rcases List.mem_cons.mp hf with rfl | hf
      · exact handleFlag_current flag padding now getTime
      · exact ih f hf
  | case4 userChars c t hchar ih =>
    rw [compileFrom_char now userChars hchar]
    exact ih

end RedisLuaLinux.Spdlog
