import RedisLuaLinux.Spdlog.PatternFormatter

/-!
# The language of patterns

A pattern is a sequence of characters and of flags, each flag with a side and a width or without. Its end may
be a percent sign without a flag, which prints nothing. `Pattern.render` writes a pattern out, and
`Pattern.text` says what it stands for.

* `render_surjective`: every text is a pattern.
* `pattern_lines`: a formatter made from the text of a pattern prints for each message what the pattern stands
  for.
-/

namespace RedisLuaLinux.Spdlog

open Library

/-- A side and the digits of a width. -/
structure PadSpec where
  side : PadSide
  digits : Text
  all_digits : ∀ c ∈ digits, c.isDigit
  deriving DecidableEq, Repr

/-- A flag, which is not taken for a part of its padding. -/
structure FlagSpec extends PadSpec where
  flag : Char
  flag_not_digit : flag.isDigit = false
  flag_not_side : side = .left → digits = [] → PadSide.ofChar flag = none
  deriving DecidableEq, Repr

inductive PatternItem
  | char (c : Char) (h : c ≠ '%')
  | flag (spec : FlagSpec)
  deriving DecidableEq, Repr

structure Pattern where
  items : List PatternItem
  dangling : Option PadSpec
  deriving DecidableEq, Repr

def PadSide.text : PadSide → Text
  | left => []
  | right => ['-']
  | center => ['=']

namespace PadSpec

def render (spec : PadSpec) : Text := spec.side.text ++ spec.digits

def padding (spec : PadSpec) : PaddingInfo where
  width := min (padWidth spec.digits) 64
  side := spec.side
  width_le := Nat.min_le_right _ _

theorem takeWhile_digits {digits rest : Text} (hall : ∀ c ∈ digits, c.isDigit)
    (hrest : ∀ c ∈ rest.head?, c.isDigit = false) :
    (digits ++ rest).takeWhile Char.isDigit = digits ∧ (digits ++ rest).dropWhile Char.isDigit = rest := by
  induction digits with
  | nil =>
    cases rest with
    | nil => exact ⟨rfl, rfl⟩
    | cons c rest =>
      have hc := hrest c rfl
      exact ⟨List.takeWhile_cons_of_neg (by simp [hc]), List.dropWhile_cons_of_neg (by simp [hc])⟩
  | cons d digits ih =>
    have hd := hall d List.mem_cons_self
    obtain ⟨htake, hdrop⟩ := ih fun c hc => hall c (List.mem_cons_of_mem d hc)
    constructor
    · rw [List.cons_append, List.takeWhile_cons_of_pos hd, htake]
    · rw [List.cons_append, List.dropWhile_cons_of_pos hd, hdrop]

theorem ofChar_digit {c : Char} (h : c.isDigit) : PadSide.ofChar c = none := by
  unfold PadSide.ofChar
  split
  · cases h
  · cases h
  · rfl

/-- A padding is read back, up to the flag. -/
theorem handlePadspec_render (spec : PadSpec) {rest : Text} (hdigit : ∀ c ∈ rest.head?, c.isDigit = false)
    (hside : spec.side = .left → spec.digits = [] → ∀ c ∈ rest.head?, PadSide.ofChar c = none) :
    handlePadspec (spec.render ++ rest) = (spec.padding, rest) := by
  obtain ⟨side, digits, hall⟩ := spec
  obtain ⟨htake, hdrop⟩ := takeWhile_digits hall hdigit
  unfold render padding
  cases side with
  | right =>
    show handlePadspec ('-' :: (digits ++ rest)) = _
    unfold handlePadspec
    have hchar : PadSide.ofChar '-' = some .right := rfl
    simp only [hchar, Option.getD_some, Option.isSome_some, if_true, htake, hdrop]
  | center =>
    show handlePadspec ('=' :: (digits ++ rest)) = _
    unfold handlePadspec
    have hchar : PadSide.ofChar '=' = some .center := rfl
    simp only [hchar, Option.getD_some, Option.isSome_some, if_true, htake, hdrop]
  | left =>
    show handlePadspec (digits ++ rest) = _
    cases digits with
    | nil =>
      cases rest with
      | nil => rfl
      | cons c rest =>
        have hchar := hside rfl rfl c rfl
        unfold handlePadspec
        rw [List.nil_append] at htake hdrop ⊢
        simp only [hchar, Option.getD_none, Option.isSome_none, Bool.false_eq_true, if_false, htake, hdrop]
    | cons d digits =>
      have hchar := ofChar_digit (hall d List.mem_cons_self)
      rw [List.cons_append] at htake hdrop ⊢
      unfold handlePadspec
      simp only [hchar, Option.getD_none, Option.isSome_none, Bool.false_eq_true, if_false, htake, hdrop]

end PadSpec

namespace PatternItem

def render : PatternItem → Text
  | char c _ => [c]
  | flag spec => '%' :: (spec.render ++ [spec.flag])

/-- The characters stand for themselves; an unknown flag stands for itself after a percent sign. -/
def text (os : OS) (tm : Tm) (last : Int) (msg : LogMsg) : PatternItem → Text
  | char c _ => [c]
  | flag spec => (handleFlag spec.flag spec.padding 0).plainText os msg tm last

/-- The text of an item, and the end of a color range where it marks one. -/
def format (os : OS) (tm : Tm) (last : Int) (msg : LogMsg) (out : Formatted) : PatternItem → Formatted
  | char c _ => out.append [c]
  | flag spec => (handleFlag spec.flag spec.padding 0).plainFormat os msg tm last out

end PatternItem

namespace Pattern

def render (p : Pattern) : Text :=
  p.items.flatMap PatternItem.render ++ (p.dangling.map fun spec => '%' :: spec.render).getD []

/-- What a pattern stands for, the message before being of the time `last`. -/
def text (os : OS) (getTime : Int → Tm) (p : Pattern) (last : Int) (msg : LogMsg) : Text :=
  p.items.flatMap (PatternItem.text os (getTime (seconds msg.time)) last msg)

/-- The text of a pattern, with the color range that it marks. -/
def format (os : OS) (getTime : Int → Tm) (p : Pattern) (last : Int) (msg : LogMsg) (out : Formatted) : Formatted :=
  p.items.foldl (fun out item => item.format os (getTime (seconds msg.time)) last msg out) out

theorem format_dest {os : OS} {getTime : Int → Tm} (p : Pattern) (last : Int) (msg : LogMsg) (out : Formatted) :
    (p.format os getTime last msg out).dest = out.dest ++ p.text os getTime last msg := by
  obtain ⟨items, dangling⟩ := p
  unfold format text
  dsimp only
  induction items generalizing out with
  | nil => exact (List.append_nil _).symm
  | cons item items ih =>
    rw [List.foldl_cons, ih, List.flatMap_cons, ← List.append_assoc]
    congr 1
    cases item with
    | char c h => rfl
    | flag spec => exact FlagFormatter.plainFormat_dest _ _ out

end Pattern

/-! ## Every text is a pattern -/

/-- A padding and what follows it. -/
theorem exists_padSpec (t : Text) : ∃ (spec : PadSpec) (rest : Text), t = spec.render ++ rest ∧
    (∀ c ∈ rest.head?, c.isDigit = false) ∧
      (spec.side = .left → spec.digits = [] → ∀ c ∈ rest.head?, PadSide.ofChar c = none) := by
  have hdigits : ∀ (t : Text), ∀ c ∈ t.takeWhile Char.isDigit, c.isDigit := by
    intro t
    exact List.all_eq_true.mp List.all_takeWhile
  have hhead : ∀ (t : Text), ∀ c ∈ (t.dropWhile Char.isDigit).head?, c.isDigit = false := by
    intro t c hc
    have hdrop := List.head?_dropWhile_not Char.isDigit t
    rw [hc] at hdrop
    simpa using hdrop
  have hsplit : ∀ (side : PadSide) (t : Text), side.text ++ t =
      side.text ++ t.takeWhile Char.isDigit ++ t.dropWhile Char.isDigit := by
    intro side t
    rw [List.append_assoc, List.takeWhile_append_dropWhile]
  cases t with
  | nil => exact ⟨⟨.left, [], by simp⟩, [], rfl, by simp, by simp⟩
  | cons c t =>
    by_cases hright : c = '-'
    · exact ⟨⟨.right, t.takeWhile Char.isDigit, hdigits t⟩, t.dropWhile Char.isDigit,
        hright ▸ hsplit .right t, hhead t, by simp⟩
    · by_cases hcenter : c = '='
      · exact ⟨⟨.center, t.takeWhile Char.isDigit, hdigits t⟩, t.dropWhile Char.isDigit,
          hcenter ▸ hsplit .center t, hhead t, by simp⟩
      · refine ⟨⟨.left, (c :: t).takeWhile Char.isDigit, hdigits _⟩, (c :: t).dropWhile Char.isDigit,
          hsplit .left (c :: t), hhead _, ?_⟩
        intro _ hnone d hd
        have hall := List.takeWhile_append_dropWhile (p := Char.isDigit) (l := c :: t)
        have hnil : (c :: t).takeWhile Char.isDigit = [] := hnone
        rw [hnil, List.nil_append] at hall
        rw [hall] at hd
        obtain rfl : c = d := Option.some.inj hd
        unfold PadSide.ofChar
        split
        · exact absurd rfl hright
        · exact absurd rfl hcenter
        · rfl

theorem render_surjective (t : Text) : ∃ p : Pattern, p.render = t := by
  induction hn : t.length using Nat.strongRecOn generalizing t with
  | ind n ih =>
    cases t with
    | nil => exact ⟨⟨[], none⟩, rfl⟩
    | cons c t =>
      have hlength : (c :: t).length = t.length + 1 := rfl
      by_cases hc : c = '%'
      · obtain ⟨spec, rest, hsplit, hdigit, hside⟩ := exists_padSpec t
        cases rest with
        | nil =>
          refine ⟨⟨[], some spec⟩, ?_⟩
          rw [List.append_nil] at hsplit
          rw [hc, hsplit]
          rfl
        | cons flag rest =>
          have hrest : t.length = spec.render.length + (rest.length + 1) := by
            rw [hsplit, List.length_append]
            rfl
          obtain ⟨p, hp⟩ := ih rest.length (by omega) rest rfl
          let spec' : FlagSpec :=
            { spec with
              flag
              flag_not_digit := hdigit flag rfl
              flag_not_side := fun hleft hnone => hside hleft hnone flag rfl }
          refine ⟨⟨.flag spec' :: p.items, p.dangling⟩, ?_⟩
          unfold Pattern.render at hp ⊢
          rw [List.flatMap_cons, List.append_assoc, hp, hc, hsplit]
          show '%' :: (spec.render ++ [flag]) ++ rest = _
          simp
      · obtain ⟨p, hp⟩ := ih t.length (by omega) t rfl
        refine ⟨⟨.char c hc :: p.items, p.dangling⟩, ?_⟩
        unfold Pattern.render at hp ⊢
        rw [List.flatMap_cons, List.append_assoc, hp]
        rfl

/-! ## What a compiled pattern prints -/

section Compiled

variable {os : OS} {getTime : Int → Tm} {last : Int} {msg : LogMsg}

theorem plainFormat_handleFlag (flag : Char) (padding : PaddingInfo) (now now' : Int) (tm : Tm)
    (out : Formatted) :
    (handleFlag flag padding now).plainFormat os msg tm last out =
      (handleFlag flag padding now').plainFormat os msg tm last out := by
  unfold handleFlag
  split <;> rfl

theorem plainAll_flushChars (str : Text) (out : Formatted) :
    PatternFormatter.plainAll os getTime (flushChars str) last msg out = out.append str := by
  cases str with
  | nil => exact out.append_nil.symm
  | cons c str => rfl

/-- The flag of an item, with its padding. -/
theorem handlePadspec_flag (spec : FlagSpec) (rest : Text) :
    handlePadspec (spec.render ++ spec.flag :: rest) = (spec.padding, spec.flag :: rest) := by
  apply spec.handlePadspec_render
  · intro c hc
    obtain rfl := Option.some.inj hc
    exact spec.flag_not_digit
  · intro hleft hnone c hc
    obtain rfl := Option.some.inj hc
    exact spec.flag_not_side hleft hnone

/-- A compiled pattern prints the characters found before it, and what it stands for. -/
theorem plainAll_compileFrom (now : Int) (userChars : Text) (p : Pattern) (out : Formatted) :
    PatternFormatter.plainAll os getTime (compileFrom now userChars p.render) last msg out =
      p.format os getTime last msg (out.append userChars) := by
  obtain ⟨items, dangling⟩ := p
  induction items generalizing userChars out with
  | nil =>
    show _ = out.append userChars
    cases dangling with
    | none =>
      show PatternFormatter.plainAll os getTime (compileFrom now userChars []) last msg out = _
      rw [compileFrom_nil, plainAll_flushChars]
    | some spec =>
      have hspec : handlePadspec (spec.render ++ []) = (spec.padding, []) :=
        spec.handlePadspec_render (by simp) (by simp)
      rw [List.append_nil] at hspec
      show PatternFormatter.plainAll os getTime (compileFrom now userChars ('%' :: spec.render)) last msg out = _
      rw [compileFrom_dangling now userChars hspec, plainAll_flushChars]
  | cons item items ih =>
    cases item with
    | char c hc =>
      have hrest := ih (userChars ++ [c]) out
      show PatternFormatter.plainAll os getTime
        (compileFrom now userChars (c :: Pattern.render ⟨items, dangling⟩)) last msg out = _
      rw [compileFrom_char now userChars hc, hrest, ← Formatted.append_append]
      rfl
    | flag spec =>
      have hrender : Pattern.render ⟨.flag spec :: items, dangling⟩ =
          '%' :: (spec.render ++ spec.flag :: Pattern.render ⟨items, dangling⟩) := by
        unfold Pattern.render
        rw [List.flatMap_cons, List.append_assoc]
        show '%' :: (spec.render ++ [spec.flag]) ++ _ = _
        simp
      have hrest := ih [] ((handleFlag spec.flag spec.padding now).plainFormat os msg
        (getTime (seconds msg.time)) last (out.append userChars))
      have hchars : PatternFormatter.plainAll os getTime (flushChars userChars) last msg out = out.append userChars :=
        plainAll_flushChars userChars out
      rw [hrender, compileFrom_flag now userChars (handlePadspec_flag spec _)]
      unfold PatternFormatter.plainAll at hrest hchars ⊢
      rw [List.foldl_append, hchars, List.foldl_cons, hrest, plainFormat_handleFlag _ _ now 0,
        Formatted.append_nil]
      rfl

end Compiled

/-- A formatter made from a pattern formats as the pattern says. -/
theorem formatRun_pattern (os : OS) (p : Pattern) (timeType : PatternTimeType) (eol : Text) (now : Int)
    {msgs : List LogMsg} (hfirst : ∀ msg ∈ msgs.head?, seconds msg.time ≠ 0) :
    PatternFormatter.formatRun os (.new p.render timeType eol now) msgs =
      PatternFormatter.plainRun
        (fun last msg => (p.format os (os.getTime timeType) last msg ⟨[], 0, 0⟩).append eol) now msgs := by
  have hcurrent := compileFrom_current now (os.getTime timeType) [] p.render
  have hrun := PatternFormatter.formatRun_of_new (p := .new p.render timeType eol now) rfl hcurrent hfirst
  rw [hrun]
  apply PatternFormatter.plainRun_congr
  intro last msg
  exact congrArg (Formatted.append · eol) (plainAll_compileFrom now [] p ⟨[], 0, 0⟩)

/-- A formatter made from a pattern prints what the pattern stands for: for each message its line, with the time
since the message before, the first one counted from the making of the formatter. -/
theorem pattern_lines (os : OS) (p : Pattern) (timeType : PatternTimeType) (eol : Text) (now : Int)
    {msgs : List LogMsg} (hfirst : ∀ msg ∈ msgs.head?, seconds msg.time ≠ 0) :
    (PatternFormatter.formatRun os (.new p.render timeType eol now) msgs).map Formatted.dest =
      PatternFormatter.plainRun (fun last msg => p.text os (os.getTime timeType) last msg ++ eol) now msgs := by
  rw [formatRun_pattern os p timeType eol now hfirst, PatternFormatter.map_plainRun]
  apply PatternFormatter.plainRun_congr
  intro last msg
  exact congrArg (· ++ eol) (p.format_dest last msg ⟨[], 0, 0⟩)

/-- The calendar of a place whose clock stands still. -/
def stillOS : OS := ⟨fun _ => .zero, fun _ => .zero, 1⟩

theorem level_flag : 'l'.isDigit = false := rfl

/-- `%-8l|`. -/
def leveled : Pattern where
  items := [.flag ⟨⟨.right, ['8'], List.forall_mem_singleton.mpr rfl⟩, 'l', level_flag, fun _ _ => rfl⟩, .char '|' (by decide)]
  dangling := none

theorem pattern_lines_of_leveled :
    (PatternFormatter.formatRun stillOS (.new leveled.render .local "\n".toList 0)
        [{ LogMsg.sample with time := 1500000000 }]).map Formatted.dest =
      PatternFormatter.plainRun
        (fun last msg => leveled.text stillOS (stillOS.getTime .local) last msg ++ "\n".toList) 0
        [{ LogMsg.sample with time := 1500000000 }] :=
  pattern_lines stillOS leveled .local "\n".toList 0 (by simp [seconds])

end RedisLuaLinux.Spdlog
