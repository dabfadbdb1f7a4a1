import Mathlib
import RedisLuaLinux.Library.Hex
import RedisLuaLinux.Spdlog.FileHelper

/-!
# Dumps of bytes

The formatter of `bytes_range`: two hexadecimal digits for each byte, on lines of about a hundred characters
that start with the position of their first byte.

* `readDump_dump`: bytes are read back from their dump, whatever its flags.
* `dump_lines`: which bytes are on a line, and the position in front of them.
-/

namespace RedisLuaLinux.Spdlog

open Library

structure BytesFormatter where
  putNewlines : Bool := true
  putDelimiters : Bool := true
  useUppercase : Bool := false
  putPositions : Bool := true
  deriving DecidableEq, Repr

namespace BytesFormatter

def lineSize : Nat := 100

def delimiter : Char := ' '

/-- The flags of a format specification, up to its end. -/
def parse (f : BytesFormatter) : Text → BytesFormatter
  | [] => f
  | c :: t =>
    if c = '\x00' ∨ c = '\x7d' then f
    else if c = 'X' then { f with useUppercase := true }.parse t
    else if c = 's' then { f with putDelimiters := false }.parse t
    else if c = 'p' then { f with putPositions := false }.parse t
    else if c = 'n' then { f with putNewlines := false }.parse t
    else f.parse t

/-- What starts a line, and the next column. -/
def putNewline (f : BytesFormatter) (pos : Nat) : Text × Nat :=
  if f.putPositions then ('\n' :: (hexNumeral true 4 (pos - 1) ++ ": ".toList), 7) else (['\n'], 1)

def delimiters (f : BytesFormatter) : Text := if f.putDelimiters then [delimiter] else []

/-- The loop of `format`. -/
def formatFrom (f : BytesFormatter) (pos column : Nat) : Bytes → Text
  | [] => []
  | ch :: bytes =>
    let pos := pos + 1
    if f.putNewlines ∧ lineSize ≤ column then
      let newline := f.putNewline pos
      newline.1 ++ byteText f.useUppercase ch ++ f.formatFrom pos (newline.2 + 2) bytes
    else
      let column := if f.putDelimiters then column + 1 else column
      f.delimiters ++ byteText f.useUppercase ch ++ f.formatFrom pos (column + 2) bytes

def format (f : BytesFormatter) (bytes : Bytes) : Text := f.formatFrom 0 lineSize bytes

/-- The text of some bytes in a place with a format specification. -/
def dump (spec : Text) (bytes : Bytes) : Text := (parse {} spec).format bytes

/-- The flags of a specification. -/
def flags (spec : Text) : Text := spec.takeWhile fun c => c ≠ '\x00' ∧ c ≠ '\x7d'

theorem parse_eq (f : BytesFormatter) (spec : Text) :
    f.parse spec =
      { putNewlines := f.putNewlines && !(flags spec).contains 'n'
        putDelimiters := f.putDelimiters && !(flags spec).contains 's'
        useUppercase := f.useUppercase || (flags spec).contains 'X'
        putPositions := f.putPositions && !(flags spec).contains 'p' } := by
  induction spec generalizing f with
  | nil => simp [parse, flags]
  | cons c spec ih =>
    rw [parse]
    by_cases hend : c = '\x00' ∨ c = '\x7d'
    · have hflags : flags (c :: spec) = [] := by
        apply List.takeWhile_cons_of_neg
        rcases hend with rfl | rfl <;> decide
      rw [if_pos hend, hflags]
      simp
    · have hflags : flags (c :: spec) = c :: flags spec := by
        apply List.takeWhile_cons_of_pos
        rw [not_or] at hend
        exact decide_eq_true hend
      rw [if_neg hend, hflags]
      by_cases hX : c = 'X'
      · subst hX
        simp [ih]
      by_cases hs : c = 's'
      · subst hs
        simp [ih]
      by_cases hp : c = 'p'
      · subst hp
        simp [ih]
      by_cases hn : c = 'n'
      · subst hn
        simp [ih]
      simp [ih, hX, hs, hp, hn, Ne.symm hX, Ne.symm hs, Ne.symm hp, Ne.symm hn]

/-! ## Reading a dump -/

/-- A line without its position. -/
def dropPosition (line : Text) : Text :=
  match line.dropWhile (· ≠ ':') with
  | [] => line
  | _ :: rest => rest

/-- The digits of a line. -/
def lineDigits (line : Text) : Text := (dropPosition line).filter (· ≠ delimiter)

def dumpDigits (t : Text) : Text := (t.splitOn '\n').flatMap lineDigits

/-- The bytes of a dump, without a knowledge of its flags. -/
def readDump (t : Text) : Option Bytes := readBytes (dumpDigits t)

theorem lineDigits_append {t : Text} (ht : ':' ∉ t) (line : Text) :
    lineDigits (line ++ t) = lineDigits line ++ t.filter (· ≠ delimiter) := by
  unfold lineDigits
  rw [← List.filter_append]
  apply congrArg (List.filter _)
  unfold dropPosition
  rw [List.dropWhile_append]
  have hrest : t.dropWhile (· ≠ ':') = [] := by
    apply List.dropWhile_eq_nil_iff.mpr
    intro c hc
    exact decide_eq_true fun heq => ht (heq ▸ hc)
  cases hline : line.dropWhile (· ≠ ':') with
  | nil =>
    rw [List.isEmpty_nil, if_pos rfl, hrest]
  | cons c rest => rfl

theorem byteText_plain (upper : Bool) (b : UInt8) : (byteText upper b).filter (· ≠ delimiter) = byteText upper b := by
  have hblank : delimiter ∉ byteText upper b := byteText_ne rfl upper b
  apply List.filter_eq_self.mpr
  intro c hc
  exact decide_eq_true fun heq => hblank (heq ▸ hc)

/-- A line starts with its position, which has no digits of a byte. -/
theorem putNewline_cases (f : BytesFormatter) (pos : Nat) :
    ∃ header column, f.putNewline pos = ('\n' :: header, column) ∧ '\n' ∉ header ∧ lineDigits header = [] := by
  have hcolon : ':' ∉ hexNumeral true 4 (pos - 1) := hexNumeral_ne rfl true 4 (pos - 1)
  have hnewline : '\n' ∉ hexNumeral true 4 (pos - 1) := hexNumeral_ne rfl true 4 (pos - 1)
  unfold putNewline
  split
  · refine ⟨_, _, rfl, ?_, ?_⟩
    · intro hmem
      rcases List.mem_append.mp hmem with hnumeral | hrest
      · exact hnewline hnumeral
      · cases hrest with
        | tail _ hrest => cases hrest with | tail _ hrest => cases hrest
    · unfold lineDigits dropPosition
      have hdrop : (hexNumeral true 4 (pos - 1) ++ ": ".toList).dropWhile (· ≠ ':') = ": ".toList := by
        rw [List.dropWhile_append_of_pos]
        · rfl
        · intro c hc
          exact decide_eq_true fun heq => hcolon (heq ▸ hc)
      rw [hdrop]
      rfl
  · exact ⟨_, _, rfl, List.not_mem_nil, rfl⟩

/-- A line that was started, and the rest of the bytes. -/
theorem dumpDigits_formatFrom (f : BytesFormatter) (bytes : Bytes) (line : Text) (pos column : Nat)
    (hline : '\n' ∉ line) :
    dumpDigits (line ++ f.formatFrom pos column bytes) =
      lineDigits line ++ bytes.flatMap (byteText f.useUppercase) := by
  induction bytes generalizing line pos column with
  | nil =>
    unfold formatFrom dumpDigits
    rw [List.append_nil, List.splitOn_eq_singleton hline, List.flatMap_singleton]
    exact (List.append_nil _).symm
  | cons ch bytes ih =>
    have hnewline : '\n' ∉ byteText f.useUppercase ch := byteText_ne rfl f.useUppercase ch
    have hcolon : ':' ∉ byteText f.useUppercase ch := byteText_ne rfl f.useUppercase ch
    rw [formatFrom, List.flatMap_cons]
    split
    · obtain ⟨header, column', hstart, hheader, hdigits⟩ := f.putNewline_cases (pos + 1)
      have hnext : '\n' ∉ header ++ byteText f.useUppercase ch := by
        rw [List.mem_append, not_or]
        exact ⟨hheader, hnewline⟩
      have hrest := ih (header ++ byteText f.useUppercase ch) (pos + 1) (column' + 2) hnext
      rw [lineDigits_append hcolon, hdigits, List.nil_append, byteText_plain] at hrest
      simp only [hstart, List.cons_append]
      unfold dumpDigits at hrest ⊢
      rw [List.splitOn_append_cons_self_of_not_mem hline, List.flatMap_cons, hrest]
    · have hblanks : f.delimiters.filter (· ≠ delimiter) = [] := by
        unfold delimiters
        split <;> rfl
      have hdelimiters : '\n' ∉ f.delimiters ∧ ':' ∉ f.delimiters := by
        unfold delimiters delimiter
        split <;> decide
      have hnext : '\n' ∉ line ++ (f.delimiters ++ byteText f.useUppercase ch) := by
        simp only [List.mem_append, not_or]
        exact ⟨hline, hdelimiters.1, hnewline⟩
      have hplain : ':' ∉ f.delimiters ++ byteText f.useUppercase ch := by
        rw [List.mem_append, not_or]
        exact ⟨hdelimiters.2, hcolon⟩
      dsimp only
      rw [← List.append_assoc line, ih _ _ _ hnext, lineDigits_append hplain, List.filter_append, hblanks,
        byteText_plain, List.nil_append, List.append_assoc]

/-- Bytes are read back from their dump, whatever its flags. -/
theorem readDump_dump (spec : Text) (bytes : Bytes) : readDump (dump spec bytes) = some bytes := by
  have hdigits := (parse {} spec).dumpDigits_formatFrom bytes [] 0 lineSize List.not_mem_nil
  unfold readDump dump format
  rw [List.nil_append] at hdigits
  rw [hdigits]
  exact readBytes_flatMap (parse {} spec).useUppercase bytes

/-! ## The lines of a dump -/

/-- The columns of a byte behind the first one of its line. -/
def itemWidth (f : BytesFormatter) : Nat := if f.putDelimiters then 3 else 2

/-- The column behind the first byte of a line. -/
def firstColumn (f : BytesFormatter) : Nat := if f.putPositions then 9 else 3

def perLine (f : BytesFormatter) : Nat := (lineSize - f.firstColumn + f.itemWidth - 1) / f.itemWidth + 1

/-- The line of some bytes, of which the first has a position. -/
def line (f : BytesFormatter) (position : Nat) (bytes : Bytes) : Text :=
  (f.putNewline (position + 1)).1 ++ f.delimiters.intercalate (bytes.map (byteText f.useUppercase))

/-- The least number of lines for so many bytes. -/
def lineCount (f : BytesFormatter) (n : Nat) : Nat := (n + f.perLine - 1) / f.perLine

theorem perLine_cases (f : BytesFormatter) :
    (∀ j < f.perLine - 1, f.firstColumn + j * f.itemWidth < lineSize) ∧
      lineSize ≤ f.firstColumn + (f.perLine - 1) * f.itemWidth := by
  obtain ⟨-, delimiters, -, positions⟩ := f
  unfold perLine firstColumn itemWidth lineSize
  constructor
  · intro j hj
    cases delimiters <;> cases positions <;> simp only [if_true, Bool.false_eq_true, if_false] at hj ⊢ <;> omega
  · cases delimiters <;> cases positions <;> simp only [if_true, Bool.false_eq_true, if_false] <;> omega

/-- Bytes that are put on the line that was started. -/
theorem formatFrom_items (f : BytesFormatter) (k : Nat) (bytes : Bytes) (pos column : Nat)
    (hfit : ∀ j < k, column + j * f.itemWidth < lineSize) :
    f.formatFrom pos column bytes =
      (bytes.take k).flatMap (fun ch => f.delimiters ++ byteText f.useUppercase ch) ++
        f.formatFrom (pos + k) (column + k * f.itemWidth) (bytes.drop k) := by
  induction k generalizing bytes pos column with
  | zero => simp
  | succ k ih =>
    cases bytes with
    | nil => rfl
    | cons ch bytes =>
      have hfirst := hfit 0 (Nat.succ_pos k)
      have hcolumn : (if f.putDelimiters then column + 1 else column) + 2 = column + f.itemWidth := by
        unfold itemWidth
        split <;> rfl
      have hrest : ∀ j < k, column + f.itemWidth + j * f.itemWidth < lineSize := by
        intro j hj
        have hnext := hfit (j + 1) (Nat.succ_lt_succ hj)
        rw [Nat.succ_mul] at hnext
        omega
      have hpos : pos + 1 + k = pos + (k + 1) := by omega
      have hnext : column + f.itemWidth + k * f.itemWidth = column + (k + 1) * f.itemWidth := by
        rw [Nat.succ_mul]
        omega
      rw [formatFrom, if_neg (by omega)]
      dsimp only
      rw [hcolumn, ih bytes (pos + 1) (column + f.itemWidth) hrest, List.take_succ_cons, List.drop_succ_cons,
        List.flatMap_cons, hpos, hnext, List.append_assoc (f.delimiters ++ _)]

theorem intercalate_cons (sep t : Text) (ts : List Text) :
    sep.intercalate (t :: ts) = t ++ ts.flatMap (sep ++ ·) := by
  induction ts generalizing t with
  | nil => simp [List.intercalate]
  | cons u ts ih =>
    rw [List.intercalate_cons_cons, ih u, List.flatMap_cons, List.append_assoc, List.append_assoc]

/-- A line, and the bytes behind it. -/
theorem formatFrom_line (f : BytesFormatter) (hnewlines : f.putNewlines) (ch : UInt8) (bytes : Bytes)
    (pos : Nat) {column : Nat} (hcolumn : lineSize ≤ column) :
    ∃ column', lineSize ≤ column' ∧ f.formatFrom pos column (ch :: bytes) =
      f.line pos ((ch :: bytes).take f.perLine) ++
        f.formatFrom (pos + f.perLine) column' ((ch :: bytes).drop f.perLine) := by
  obtain ⟨hfit, hfull⟩ := f.perLine_cases
  obtain ⟨k, hk⟩ : ∃ k, f.perLine = k + 1 := ⟨_, rfl⟩
  have hfirst : (f.putNewline (pos + 1)).2 + 2 = f.firstColumn := by
    unfold putNewline firstColumn
    split <;> rfl
  rw [hk, Nat.add_sub_cancel] at hfit hfull
  refine ⟨_, hfull, ?_⟩
  rw [formatFrom, if_pos ⟨hnewlines, hcolumn⟩]
  dsimp only
  rw [hfirst, formatFrom_items f k bytes (pos + 1) f.firstColumn hfit, hk, List.take_succ_cons,
    List.drop_succ_cons]
  unfold line
  rw [List.map_cons, intercalate_cons, List.flatMap_map]
  simp only [List.append_assoc, Nat.add_assoc, Nat.add_comm 1 k]

theorem lineCount_succ (f : BytesFormatter) {n : Nat} (hn : 0 < n) :
    f.lineCount n = f.lineCount (n - f.perLine) + 1 := by
  have hpos : 0 < f.perLine := Nat.succ_pos _
  unfold lineCount
  by_cases hle : n ≤ f.perLine
  · have hnone : n - f.perLine = 0 := by omega
    have hzero : (0 + f.perLine - 1) / f.perLine = 0 := Nat.div_eq_of_lt (by omega)
    have hone : n + f.perLine - 1 = n - 1 + f.perLine := by omega
    rw [hnone, hzero, hone, Nat.add_div_right _ hpos, Nat.div_eq_of_lt (by omega)]
  · have hsplit : n + f.perLine - 1 = n - f.perLine + f.perLine - 1 + f.perLine := by omega
    rw [hsplit, Nat.add_div_right _ hpos]

theorem formatFrom_lines (f : BytesFormatter) (hnewlines : f.putNewlines) (bytes : Bytes) (pos : Nat)
    {column : Nat} (hcolumn : lineSize ≤ column) :
    f.formatFrom pos column bytes = (List.range (f.lineCount bytes.length)).flatMap fun i =>
      f.line (pos + i * f.perLine) ((bytes.drop (i * f.perLine)).take f.perLine) := by
  induction hlength : bytes.length using Nat.strongRecOn generalizing bytes pos column with
  | ind n ih =>
    cases bytes with
    | nil =>
      have hzero : f.lineCount 0 = 0 := by
        have hpos : 0 < f.perLine := Nat.succ_pos _
        exact Nat.div_eq_of_lt (by omega)
      rw [← hlength, List.length_nil, hzero]
      rfl
    | cons ch bytes =>
      obtain ⟨column', hcolumn', hline⟩ := f.formatFrom_line hnewlines ch bytes pos hcolumn
      have hpos : 0 < n := by rw [← hlength]; exact Nat.succ_pos _
      have hsmaller : n - f.perLine < n := Nat.sub_lt hpos (Nat.succ_pos _)
      have hdrop : ((ch :: bytes).drop f.perLine).length = n - f.perLine := by
        rw [List.length_drop, hlength]
      rw [hline, ih _ hsmaller _ (pos + f.perLine) hcolumn' hdrop, f.lineCount_succ hpos,
        List.range_succ_eq_map, List.flatMap_cons, List.flatMap_map, Nat.zero_mul, Nat.add_zero, List.drop_zero]
      apply congrArg (f.line pos _ ++ ·)
      apply List.flatMap_congr
      intro i _
      rw [Nat.succ_mul, List.drop_drop, Nat.add_assoc, Nat.add_comm f.perLine]

/-- Line `i` starts with the position `i * perLine`, which is that of its first byte. -/
theorem dump_lines {spec : Text} (hnewlines : 'n' ∉ flags spec) (bytes : Bytes) :
    let f := parse {} spec
    dump spec bytes = (List.range (f.lineCount bytes.length)).flatMap fun i =>
      f.line (i * f.perLine) ((bytes.drop (i * f.perLine)).take f.perLine) := by
  have hflag : (parse {} spec).putNewlines := by
    rw [parse_eq]
    simpa using hnewlines
  have hlines := (parse {} spec).formatFrom_lines hflag bytes 0 (Nat.le_refl lineSize)
  simp only [Nat.zero_add] at hlines
  exact hlines

theorem dump_lines_of_upper :
    dump ['X', '\x7d'] (List.replicate 40 0xab) = (List.range 2).flatMap fun i =>
      (parse {} ['X', '\x7d']).line (i * 32) (((List.replicate 40 0xab).drop (i * 32)).take 32) := by
  have hnewlines : 'n' ∉ flags ['X', '\x7d'] := by decide
  exact dump_lines hnewlines (List.replicate 40 0xab)

end BytesFormatter

end RedisLuaLinux.Spdlog
