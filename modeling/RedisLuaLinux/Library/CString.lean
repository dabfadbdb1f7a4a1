import Mathlib

/-!
# Strings of C

A zero-terminated string is the list of its bytes before the zero. The comparisons return what
the C functions return: 0, or the difference of the first two bytes that differ, where the zero
takes part.

* `strcmp_eq_zero`, `strcasecmp_eq_zero`: equal strings, and equal strings in lower case.
* `strncmp_length`: compared for the length of the first string, it is an initial part of the
  second one.
* `snprintf_eq_iff`: a text is kept if it has room before the zero.
-/

namespace RedisLuaLinux.Library

/-- A zero-terminated string, without its zero. -/
@[ext]
structure CString where
  bytes : List UInt8
  noZero : ∀ c ∈ bytes, c ≠ 0

namespace CString

/-- Two strings are equal if their bytes are. -/
instance : DecidableEq CString := fun s t => decidable_of_iff (s.bytes = t.bytes) CString.ext_iff.symm

/-- A string literal of C ends at its first zero. -/
def literal (text : String) : CString :=
  ⟨(text.toList.map fun c => c.toNat.toUInt8).takeWhile (fun c => c != 0), fun _ hc =>
    bne_iff_ne.mp (List.mem_takeWhile_imp (p := fun c => c != 0) hc)⟩

def strlen (s : CString) : Nat := s.bytes.length

def append (s t : CString) : CString :=
  ⟨s.bytes ++ t.bytes, fun c hc => (List.mem_append.mp hc).elim (s.noZero c) (t.noZero c)⟩

/-- The first `n` bytes. -/
def take (n : Nat) (s : CString) : CString :=
  ⟨s.bytes.take n, fun c hc => s.noZero c (List.mem_of_mem_take hc)⟩

/-- `tolower` of the C locale. -/
def tolower (c : UInt8) : UInt8 := if 65 ≤ c ∧ c ≤ 90 then c + 32 else c

/-- The difference of the first two bytes that differ; the end of a string counts as a zero. -/
def compareBytes : List UInt8 → List UInt8 → Int
  | [], [] => 0
  | [], d :: _ => -d.toNat
  | c :: _, [] => c.toNat
  | c :: s, d :: t => if c = d then compareBytes s t else (c.toNat : Int) - d.toNat

def strcmp (s t : CString) : Int := compareBytes s.bytes t.bytes

def strncmp (s t : CString) (n : Nat) : Int := compareBytes (s.bytes.take n) (t.bytes.take n)

def strcasecmp (s t : CString) : Int := compareBytes (s.bytes.map tolower) (t.bytes.map tolower)

/-- What `snprintf` leaves of a text in a buffer of `size` bytes. -/
def snprintf (size : Nat) (text : CString) : CString := text.take (size - 1)

variable {s t : CString}

theorem compareBytes_eq_zero {s t : List UInt8} (hs : ∀ c ∈ s, c ≠ 0) (ht : ∀ c ∈ t, c ≠ 0) :
    compareBytes s t = 0 ↔ s = t := by
  have hpos : ∀ c : UInt8, c ≠ 0 → c.toNat ≠ 0 := fun c hc h => hc (UInt8.toNat_inj.mp h)
  induction s generalizing t with
  | nil =>
    cases t with
    | nil => exact iff_of_true rfl rfl
    | cons d t =>
      have hd := hpos d (ht d List.mem_cons_self)
      rw [compareBytes]
      refine iff_of_false ?_ nofun
      omega
  | cons c s ih =>
    cases t with
    | nil =>
      have hc := hpos c (hs c List.mem_cons_self)
      rw [compareBytes]
      refine iff_of_false ?_ nofun
      omega
    | cons d t =>
      rw [compareBytes, List.cons.injEq]
      split
      · rename_i hcd
        rw [and_iff_right hcd]
        exact ih (fun x hx => hs x (List.mem_cons_of_mem c hx)) fun x hx => ht x (List.mem_cons_of_mem d hx)
      · rename_i hcd
        refine iff_of_false ?_ fun h => hcd h.1
        intro h
        exact hcd (UInt8.toNat_inj.mp (by omega))

theorem strcmp_eq_zero : strcmp s t = 0 ↔ s = t :=
  (compareBytes_eq_zero s.noZero t.noZero).trans CString.ext_iff.symm

theorem tolower_ne_zero {c : UInt8} (h : c ≠ 0) : tolower c ≠ 0 := by
  unfold tolower
  split
  · rename_i hupper
    intro hzero
    obtain ⟨hlow, hhigh⟩ := hupper
    rw [UInt8.le_iff_toNat_le] at hlow hhigh
    have hsum : (c + 32).toNat = 0 := congrArg UInt8.toNat hzero
    rw [UInt8.toNat_add] at hsum
    simp at hlow hhigh hsum
    omega
  · exact h

theorem strcasecmp_eq_zero : strcasecmp s t = 0 ↔ s.bytes.map tolower = t.bytes.map tolower := by
  have hlower : ∀ u : CString, ∀ c ∈ u.bytes.map tolower, c ≠ 0 := by
    intro u c hc
    obtain ⟨d, hd, rfl⟩ := List.mem_map.mp hc
    exact tolower_ne_zero (u.noZero d hd)
  exact compareBytes_eq_zero (hlower s) (hlower t)

theorem strncmp_eq_zero {n : Nat} : strncmp s t n = 0 ↔ s.take n = t.take n :=
  (compareBytes_eq_zero (s.take n).noZero (t.take n).noZero).trans CString.ext_iff.symm

/-- A comparison bounded by the length of the first string accepts each initial part of the second. -/
theorem strncmp_length : strncmp s t s.strlen = 0 ↔ s.bytes <+: t.bytes := by
  rw [strncmp_eq_zero, CString.ext_iff, List.prefix_iff_eq_take]
  show s.bytes.take s.bytes.length = _ ↔ _
  rw [List.take_length]
  rfl

theorem snprintf_eq_iff {size : Nat} (hsize : 0 < size) : snprintf size s = s ↔ s.strlen < size := by
  rw [CString.ext_iff]
  show s.bytes.take (size - 1) = s.bytes ↔ s.bytes.length < size
  rw [List.take_eq_self_iff]
  omega

@[simp] theorem strlen_append : (s.append t).strlen = s.strlen + t.strlen := List.length_append

example : strncmp (literal "sofia") (literal "sofia::register") 5 = 0 := by decide +kernel

end CString

end RedisLuaLinux.Library
