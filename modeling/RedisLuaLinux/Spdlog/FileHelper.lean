import Mathlib.Logic.Function.Basic
import RedisLuaLinux.Library.Text

/-!
# The file helper of the file sinks

`file_helper` over the files of a disk, each kept as the pieces that were written to it. The disk may
fail any call; how it answers is an argument. The number of an error, which is put after its text, is
left out.

* `splitByExtension_append`: a file name is its base and its extension.
* `openFile_cases`: what `open` does.
-/

namespace RedisLuaLinux.Spdlog

open Library

abbrev Bytes := List UInt8

abbrev Files := Text → Option (List Bytes)

def Files.content (files : Files) (name : Text) : List Bytes := (files name).getD []

def byteCount (pieces : List Bytes) : Nat := pieces.flatten.length

/-- The last place of a character. -/
def rfind (c : Char) : Text → Option Nat
  | [] => none
  | x :: t =>
    match rfind c t with
    | some i => some (i + 1)
    | none => if x = c then some 0 else none

/-- The base of a file name and its extension, empty for a hidden file or a name without one. -/
def splitByExtension (fname : Text) : Text × Text :=
  match rfind '.' fname with
  | none => (fname, [])
  | some extIndex =>
    if extIndex = 0 ∨ extIndex = fname.length - 1 then (fname, [])
    else
      match rfind '/' fname with
      | none => (fname.take extIndex, fname.drop extIndex)
      | some folderIndex =>
        if extIndex - 1 ≤ folderIndex then (fname, [])
        else (fname.take extIndex, fname.drop extIndex)

theorem splitByExtension_append (fname : Text) :
    (splitByExtension fname).1 ++ (splitByExtension fname).2 = fname := by
  unfold splitByExtension
  repeat' split
  all_goals simp only [List.append_nil, List.take_append_drop]

example : splitByExtension "my_folder/.mylog.txt".toList = ("my_folder/.mylog".toList, ".txt".toList) := by
  decide

/-- The helper and the disk. -/
structure FileHelper where
  files : Files
  -- the file that is open, `fd_`
  fd : Option Text := none
  filename : Text := []

namespace FileHelper

def openTries : Nat := 5

def close (h : FileHelper) : FileHelper := { h with fd := none }

/-- A successful `fopen`, with the mode `wb` or `ab`. -/
def fopen (fname : Text) (truncate : Bool) (h : FileHelper) : FileHelper :=
  { h with
    files := Function.update h.files fname (some (if truncate then [] else h.files.content fname))
    fd := some fname }

/-- The loop of `open`; `opens` says which of its tries succeed. -/
def tryOpen (fname : Text) (truncate : Bool) (opens : Nat → Bool) : Nat → FileHelper → FileHelper × Option Text
  | 0, h => (h, some ("Failed opening file ".toList ++ fname ++ " for writing".toList))
  | tries + 1, h =>
    if opens (openTries - (tries + 1)) then (fopen fname truncate h, none)
    else tryOpen fname truncate opens tries h

/-- `open`, with the text of the exception where it raises one. -/
def openFile (fname : Text) (truncate : Bool) (opens : Nat → Bool) (h : FileHelper) :
    FileHelper × Option Text :=
  tryOpen fname truncate opens openTries { h.close with filename := fname }

def reopen (truncate : Bool) (opens : Nat → Bool) (h : FileHelper) : FileHelper × Option Text :=
  if h.filename = [] then (h, some "Failed re opening file - was not opened before".toList)
  else openFile h.filename truncate opens h

/-- `write`, of which the stream takes a number of bytes; `none` where `fwrite` is called without a stream. -/
def write (buf : Bytes) (taken : Nat) (h : FileHelper) : Option (FileHelper × Option Text) :=
  h.fd.map fun name =>
    ({ h with files := Function.update h.files name (some (h.files.content name ++ [buf.take taken])) },
      if (buf.take taken).length = buf.length then none
      else some ("Failed writing to file ".toList ++ h.filename))

/-- `size`; `stat` says whether `fstat` succeeds. -/
def size (stat : Bool) (h : FileHelper) : Except Text Nat :=
  match h.fd with
  | none => .error ("Cannot use size() on closed file ".toList ++ h.filename)
  | some name =>
    if stat then .ok (byteCount (h.files.content name)) else .error "Failed getting file size from fd".toList

variable {fname : Text} {truncate : Bool} {opens : Nat → Bool} {h : FileHelper}

theorem tryOpen_cases (tries : Nat) :
    tryOpen fname truncate opens tries h = (fopen fname truncate h, none) ∨
      tryOpen fname truncate opens tries h =
        (h, some ("Failed opening file ".toList ++ fname ++ " for writing".toList)) := by
  induction tries with
  | zero => exact Or.inr rfl
  | succ tries ih =>
    unfold tryOpen
    split
    · exact Or.inl rfl
    · exact ih

/-- A file is opened, or an exception is raised and nothing is open. -/
theorem openFile_cases (fname : Text) (truncate : Bool) (opens : Nat → Bool) (h : FileHelper) :
    openFile fname truncate opens h = (fopen fname truncate { h with filename := fname }, none) ∨
      openFile fname truncate opens h =
        ({ h with fd := none, filename := fname },
          some ("Failed opening file ".toList ++ fname ++ " for writing".toList)) :=
  tryOpen_cases openTries

theorem tryOpen_of_ok {tries t : Nat} (ht : t < openTries) (hok : opens t)
    (hleft : openTries - tries ≤ t) (htries : tries ≤ openTries) :
    tryOpen fname truncate opens tries h = (fopen fname truncate h, none) := by
  induction tries with
  | zero => omega
  | succ tries ih =>
    unfold tryOpen
    split
    · rfl
    · rename_i hnot
      have hlater : openTries - (tries + 1) ≠ t := by
        intro heq
        rw [heq] at hnot
        exact hnot hok
      exact ih (by omega) (by omega)

/-- One of the tries is enough. -/
theorem openFile_of_ok (hok : ∃ t < openTries, opens t) :
    openFile fname truncate opens h = (fopen fname truncate { h with filename := fname }, none) := by
  obtain ⟨t, ht, hopen⟩ := hok
  exact tryOpen_of_ok ht hopen (by omega) (Nat.le_refl _)

end FileHelper

end RedisLuaLinux.Spdlog
