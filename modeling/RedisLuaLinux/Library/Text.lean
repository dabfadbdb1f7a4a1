import Mathlib.Data.List.Basic

/-!
# Texts and decimal numerals

Texts are lists of characters. `intText` is the decimal numeral of an integer, as a number
is written into a command or a statement, and `readInt` reads it back. `percentFormat` puts
texts into a template, `firstWord` is the first word of a text between blanks.
-/

namespace RedisLuaLinux.Library

abbrev Text := List Char

/-- A long text, written in parts. -/
def textOf (parts : List String) : Text := parts.flatMap String.toList

def natText (n : Nat) : Text := Nat.toDigits 10 n

def readNat (t : Text) : Option Nat :=
  if t ≠ [] ∧ t.all Char.isDigit then some (Nat.ofDigitChars 10 t 0) else none

def intText : Int → Text
  | .ofNat n => natText n
  | .negSucc n => '-' :: natText (n + 1)

def readInt : Text → Option Int
  | '-' :: t => (readNat t).map fun n : Nat => -(n : Int)
  | t => (readNat t).map fun n : Nat => (n : Int)

/-- The blanks of Unicode. -/
def isBlank (c : Char) : Bool :=
  [0x09, 0x0a, 0x0b, 0x0c, 0x0d, 0x1c, 0x1d, 0x1e, 0x1f, 0x20, 0x85, 0xa0, 0x1680, 0x2028, 0x2029,
    0x202f, 0x205f, 0x3000].contains c.toNat || (0x2000 ≤ c.toNat && c.toNat ≤ 0x200a)

/-- `split()[0]`; a blank text has no words. -/
def firstWord (t : Text) : Option Text :=
  match (t.dropWhile isBlank).takeWhile (fun c => !isBlank c) with
  | [] => none
  | word => some word

/-- The pieces of a template between its conversions `%s`, the only ones it has. -/
def splitFormat : Text → List Text
  | [] => [[]]
  | '%' :: 's' :: t => [] :: splitFormat t
  | c :: t =>
    match splitFormat t with
    | [] => [[c]]
    | piece :: pieces => (c :: piece) :: pieces

/-- One argument between each two pieces. -/
def fill : List Text → List Text → Option Text
  | [piece], [] => some piece
  | piece :: pieces, arg :: args => (fill pieces args).map (piece ++ arg ++ ·)
  | _, _ => none

/-- The operator `%` of a template and its arguments, as many as it has conversions. -/
def percentFormat (template : Text) (args : List Text) : Option Text := fill (splitFormat template) args

theorem natText_isDigit {n : Nat} {c : Char} (h : c ∈ natText n) : c.isDigit :=
  Nat.isDigit_of_mem_toDigits (by decide) (by decide) h

theorem natText_ne_nil (n : Nat) : natText n ≠ [] := Nat.toDigits_ne_nil

@[simp] theorem readNat_natText (n : Nat) : readNat (natText n) = some n := by
  have hall : (natText n).all Char.isDigit := List.all_eq_true.mpr fun _ h => natText_isDigit h
  rw [readNat, if_pos ⟨natText_ne_nil n, hall⟩]
  exact congrArg some Nat.ofDigitChars_ten_toDigits

theorem natText_head_ne {n : Nat} {c : Char} (hc : c.isDigit = false) :
    ∀ t, natText n ≠ c :: t := by
  intro t h
  have hdigit : c.isDigit := natText_isDigit (n := n) (by rw [h]; exact List.mem_cons_self)
  rw [hc] at hdigit
  cases hdigit

@[simp] theorem readInt_intText (z : Int) : readInt (intText z) = some z := by
  cases z with
  | ofNat n =>
    have hhead := natText_head_ne (n := n) (c := '-') (by decide)
    unfold intText readInt
    split
    · rename_i t h
      exact absurd h (hhead t)
    · simp
  | negSucc n =>
    show (readNat (natText (n + 1))).map (fun n : Nat => -(n : Int)) = _
    rw [readNat_natText, Option.map_some, Option.some.injEq]
    omega

end RedisLuaLinux.Library
