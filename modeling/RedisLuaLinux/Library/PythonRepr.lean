import RedisLuaLinux.Library.Text

/-!
# Dictionaries of Python as text

A dictionary keeps its keys in the order in which they came in. `dictText` is `str` of a dictionary
of texts; `printable` tells the characters beyond ASCII that `repr` leaves as they are.

* `newline_notMem_dictText`: the text of a dictionary is one line.
-/

namespace RedisLuaLinux.Library

abbrev Dict := List (Text × Text)

/-- `d[key] = val`: the place of a key that is there stays. -/
def Dict.set (d : Dict) (key val : Text) : Dict :=
  match d with
  | [] => [(key, val)]
  | (k, v) :: d => if k = key then (k, val) :: d else (k, v) :: Dict.set d key val

/-- The last `width` hexadecimal digits. -/
def hexText : Nat → Nat → Text
  | 0, _ => []
  | width + 1, n => hexText width (n / 16) ++ [Nat.digitChar (n % 16)]

def escapeChar (printable : Char → Bool) (quote c : Char) : Text :=
  if c = quote ∨ c = '\\' then ['\\', c]
  else if c = '\t' then ['\\', 't']
  else if c = '\n' then ['\\', 'n']
  else if c = '\r' then ['\\', 'r']
  else if 0x20 ≤ c.toNat ∧ c.toNat < 0x7f ∨ 0x80 ≤ c.toNat ∧ printable c then [c]
  else if c.toNat ≤ 0xff then '\\' :: 'x' :: hexText 2 c.toNat
  else if c.toNat ≤ 0xffff then '\\' :: 'u' :: hexText 4 c.toNat
  else '\\' :: 'U' :: hexText 8 c.toNat

/-- Double quotes are used around a text that holds single ones only. -/
def quoteOf (t : Text) : Char := if t.contains '\'' ∧ ¬ t.contains '\"' then '\"' else '\''

/-- `repr` of a text. -/
def reprText (printable : Char → Bool) (t : Text) : Text :=
  quoteOf t :: t.flatMap (escapeChar printable (quoteOf t)) ++ [quoteOf t]

def itemsText (printable : Char → Bool) : Dict → Text
  | [] => []
  | [(k, v)] => reprText printable k ++ [':', ' '] ++ reprText printable v
  | (k, v) :: item :: d =>
    reprText printable k ++ [':', ' '] ++ reprText printable v ++ [',', ' '] ++ itemsText printable (item :: d)

/-- `str` of a dictionary. -/
def dictText (printable : Char → Bool) (d : Dict) : Text := '\x7b' :: itemsText printable d ++ ['\x7d']

variable {printable : Char → Bool}

theorem newline_notMem_hexText (width n : Nat) : '\n' ∉ hexText width n := by
  have hdigit : ∀ d < 16, Nat.digitChar d ≠ '\n' := by decide
  induction width generalizing n with
  | zero => exact List.not_mem_nil
  | succ width ih =>
    intro h
    rcases List.mem_append.mp h with h | h
    · exact ih (n / 16) h
    · exact hdigit (n % 16) (Nat.mod_lt n (by decide)) (List.mem_singleton.mp h).symm

theorem newline_notMem_escapeChar {quote : Char} (hquote : quote ≠ '\n') (c : Char) :
    '\n' ∉ escapeChar printable quote c := by
  have hhex : ∀ (kind : Char) (width : Nat), kind ≠ '\n' → '\n' ∉ '\\' :: kind :: hexText width c.toNat := by
    intro kind width hkind h
    rcases List.mem_cons.mp h with h | h
    · cases h
    · rcases List.mem_cons.mp h with h | h
      · exact hkind h.symm
      · exact newline_notMem_hexText width c.toNat h
  unfold escapeChar
  split
  · rename_i hc
    intro h
    rcases List.mem_cons.mp h with h | h
    · cases h
    · rw [← List.mem_singleton.mp h] at hc
      rcases hc with hc | hc
      · exact hquote hc.symm
      · cases hc
  · split
    · decide
    · split
      · decide
      · rename_i hnewline
        split
        · decide
        · split
          · intro h
            exact hnewline (List.mem_singleton.mp h).symm
          · split
            · exact hhex 'x' 2 (by decide)
            · split
              · exact hhex 'u' 4 (by decide)
              · exact hhex 'U' 8 (by decide)

theorem quoteOf_ne_newline (t : Text) : quoteOf t ≠ '\n' := by
  unfold quoteOf
  split
  · decide
  · decide

theorem newline_notMem_reprText (t : Text) : '\n' ∉ reprText printable t := by
  have hquote := quoteOf_ne_newline t
  intro h
  rcases List.mem_append.mp h with h | h
  · rcases List.mem_cons.mp h with h | h
    · exact hquote h.symm
    · obtain ⟨c, -, hc⟩ := List.mem_flatMap.mp h
      exact newline_notMem_escapeChar hquote c hc
  · exact hquote (List.mem_singleton.mp h).symm

theorem newline_notMem_itemsText (d : Dict) : '\n' ∉ itemsText printable d := by
  have hitem : ∀ k v, '\n' ∉ reprText printable k ++ [':', ' '] ++ reprText printable v := by
    intro k v h
    rcases List.mem_append.mp h with h | h
    · rcases List.mem_append.mp h with h | h
      · exact newline_notMem_reprText k h
      · exact absurd h (by decide)
    · exact newline_notMem_reprText v h
  induction d with
  | nil => exact List.not_mem_nil
  | cons item d ih =>
    obtain ⟨k, v⟩ := item
    cases d with
    | nil => exact hitem k v
    | cons item d =>
      intro h
      rcases List.mem_append.mp h with h | h
      · rcases List.mem_append.mp h with h | h
        · exact hitem k v h
        · exact absurd h (by decide)
      · exact ih h

theorem newline_notMem_dictText (d : Dict) : '\n' ∉ dictText printable d := by
  intro h
  rcases List.mem_append.mp h with h | h
  · rcases List.mem_cons.mp h with h | h
    · cases h
    · exact newline_notMem_itemsText d h
  · exact absurd h (by decide)

example : dictText (fun _ => true) [("name".toList, "Fu's".toList), ("high".toList, "6.9\n".toList)] =
    "\x7b'name': \"Fu's\", 'high': '6.9\\n'\x7d".toList := by decide

end RedisLuaLinux.Library
