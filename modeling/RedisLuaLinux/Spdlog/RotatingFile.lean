import Mathlib
import RedisLuaLinux.Library.Run
import RedisLuaLinux.Library.Shelves
import RedisLuaLinux.Spdlog.FileHelper

/-!
# The rotating file sink

`rotating_file_sink` over the files of a disk. A sink is constructed, takes formatted messages under
its mutex, and is destroyed; the next one finds the files as they were left. Each file operation
succeeds or fails as the environment answers. No one else touches the files.

* `calcFilename_injective`: the numbered files have different names.
* `rotateFrom_ending`: how a rotation ends.
* `rotateFrom_files`: what each rename and the truncation keep, a rotation keeps.
-/

namespace RedisLuaLinux.Spdlog

open Library

/-- The answers of the environment to one call of the sink. Renames are made twice at most. -/
structure FileAnswers where
  opens : Nat → Bool
  stat : Bool
  reopens : Nat → Bool
  -- whether the file of a number is seen if it exists
  sees : Nat → Bool
  removes : Nat → Bool → Bool
  renames : Nat → Bool → Bool
  -- the bytes that `fwrite` takes
  taken : Nat

/-- What the constructor is given. -/
structure RotatingConf where
  baseFilename : Text
  maxSize : Nat
  maxFiles : Nat
  deriving DecidableEq, Repr

/-- A sink, if there is one, with its disk. -/
structure RotatingFile where
  file : FileHelper
  currentSize : Nat
  alive : Bool

def RotatingFile.setFiles (s : RotatingFile) (files : Files) : RotatingFile :=
  { s with file := { s.file with files } }

inductive RotatingEvent
  | construct (rotateOnOpen : Bool) (answers : FileAnswers)
  | sinkIt (formatted : Bytes) (answers : FileAnswers)
  | destroy

/-- The message that an event hands to the sink. -/
def RotatingEvent.handed : RotatingEvent → List Bytes
  | .sinkIt formatted _ => [formatted]
  | _ => []

def calcFilename (filename : Text) (index : Nat) : Text :=
  if index ≠ 0 then
    (splitByExtension filename).1 ++ ".".toList ++ natText index ++ (splitByExtension filename).2
  else filename

/-- The target is deleted, and the source gets its name. -/
def renameFile (src target : Text) (removed renamed : Bool) (files : Files) : Files × Bool :=
  let files := if removed then Function.update files target none else files
  if renamed ∧ (files src).isSome then
    (Function.update (Function.update files target (files src)) src none, true)
  else (files, false)

namespace RotatingConf

variable (conf : RotatingConf)

def numbered (i : Nat) : Text := calcFilename conf.baseFilename i

/-- Both renames have failed: the log file is truncated anyway, and an exception is raised. -/
def giveUp (a : FileAnswers) (i : Nat) (s : RotatingFile) : RotatingFile × Option Text :=
  let reopened := s.file.reopen true a.reopens
  match reopened.2 with
  | some err => ({ s with file := reopened.1 }, some err)
  | none => ({ s with file := reopened.1, currentSize := 0 },
      some ("rotating_file_sink: failed renaming ".toList ++ conf.numbered i ++ " to ".toList ++
        conf.numbered (i + 1)))

/-- The loop of `rotate_` from a number on, with the text of the exception where it raises one. -/
def rotateFrom (a : FileAnswers) : Nat → RotatingFile → RotatingFile × Option Text
  | 0, s =>
    let reopened := s.file.reopen true a.reopens
    ({ s with file := reopened.1 }, reopened.2)
  | i + 1, s =>
    if (s.file.files (conf.numbered i)).isNone || !a.sees i then rotateFrom a i s
    else
      let rename (again : Bool) := renameFile (conf.numbered i) (conf.numbered (i + 1)) (a.removes i again)
        (a.renames i again)
      let first := rename false s.file.files
      if first.2 then rotateFrom a i (s.setFiles first.1)
      else
        let second := rename true first.1
        if second.2 then rotateFrom a i (s.setFiles second.1) else conf.giveUp a i (s.setFiles second.1)

def rotate (a : FileAnswers) (s : RotatingFile) : RotatingFile × Option Text :=
  conf.rotateFrom a conf.maxFiles { s with file := s.file.close }

/-- The end of `sink_it_`. -/
def writeTo (a : FileAnswers) (formatted : Bytes) (s : RotatingFile) : Option (RotatingFile × Option Text) :=
  (s.file.write formatted a.taken).map fun written => ({ s with file := written.1 }, written.2)

/-- `none` where the message is written without an open file. -/
def sinkIt (a : FileAnswers) (formatted : Bytes) (s : RotatingFile) : Option (RotatingFile × Option Text) :=
  let s := { s with currentSize := (s.currentSize + formatted.length) % 2 ^ 64 }
  if conf.maxSize < s.currentSize then
    let rotated := conf.rotate a s
    match rotated.2 with
    | some err => some (rotated.1, some err)
    | none => writeTo a formatted { rotated.1 with currentSize := formatted.length }
  else writeTo a formatted s

/-- A constructor that raises an exception leaves no sink, and closes its file. -/
def construct (rotateOnOpen : Bool) (a : FileAnswers) (files : Files) : RotatingFile × Option Text :=
  let failed (file : FileHelper) (err : Text) : RotatingFile × Option Text :=
    ({ file := file.close, currentSize := 0, alive := false }, some err)
  let opened := { files := files : FileHelper }.openFile (conf.numbered 0) false a.opens
  match opened.2 with
  | some err => failed opened.1 err
  | none =>
    match opened.1.size a.stat with
    | .error err => failed opened.1 err
    | .ok size =>
      let s : RotatingFile := { file := opened.1, currentSize := size, alive := true }
      if rotateOnOpen ∧ 0 < size then
        let rotated := conf.rotate a s
        match rotated.2 with
        | some err => failed rotated.1.file err
        | none => (rotated.1, none)
      else (s, none)

def step (s : RotatingFile) : RotatingEvent → Option RotatingFile
  | .construct rotateOnOpen a => if s.alive then none else some (conf.construct rotateOnOpen a s.file.files).1
  | .sinkIt formatted a => if s.alive then (conf.sinkIt a formatted s).map Prod.fst else none
  | .destroy => if s.alive then some { s with file := s.file.close, alive := false } else none

/-! ## The numbered files -/

theorem calcFilename_length (filename : Text) {index : Nat} (h : index ≠ 0) :
    (calcFilename filename index).length = filename.length + 1 + (natText index).length := by
  have hparts := congrArg List.length (splitByExtension_append filename)
  unfold calcFilename
  rw [if_pos h]
  simp only [List.length_append] at hparts ⊢
  have hdot : ".".toList.length = 1 := rfl
  omega

theorem calcFilename_injective (filename : Text) : Function.Injective (calcFilename filename) := by
  intro i j h
  by_cases hi : i = 0 <;> by_cases hj : j = 0
  · rw [hi, hj]
  · have hlength := congrArg List.length h
    rw [calcFilename_length filename hj, hi] at hlength
    have hbase : calcFilename filename 0 = filename := rfl
    rw [hbase] at hlength
    omega
  · have hlength := congrArg List.length h
    rw [calcFilename_length filename hi, hj] at hlength
    have hbase : calcFilename filename 0 = filename := rfl
    rw [hbase] at hlength
    omega
  · unfold calcFilename at h
    rw [if_pos hi, if_pos hj] at h
    have hnumeral : natText i = natText j := List.append_cancel_left (List.append_cancel_right h)
    have hread := congrArg readNat hnumeral
    rw [readNat_natText, readNat_natText] at hread
    exact Option.some.inj hread

theorem numbered_ne {i j : Nat} (h : i ≠ j) : conf.numbered i ≠ conf.numbered j :=
  fun hname => h (calcFilename_injective conf.baseFilename hname)

/-! ## What a rotation does -/

/-- A file with these pieces gets another name. -/
def moveFile (src target : Text) (pieces : List Bytes) (files : Files) : Files :=
  Function.update (Function.update files target (some pieces)) src none

/-- The file is renamed, or neither file has changed, or the target is gone. -/
theorem renameFile_cases {src target : Text} (hne : src ≠ target) (removed renamed : Bool) (files : Files) :
    (∃ pieces, files src = some pieces ∧
        renameFile src target removed renamed files = (moveFile src target pieces files, true)) ∨
      renameFile src target removed renamed files = (files, false) ∨
      renameFile src target removed renamed files = (Function.update files target none, false) := by
  unfold renameFile
  cases removed with
  | false =>
    by_cases hrename : renamed ∧ (files src).isSome
    · obtain ⟨pieces, hpieces⟩ := Option.isSome_iff_exists.mp hrename.2
      refine Or.inl ⟨pieces, hpieces, ?_⟩
      simp [moveFile, hpieces, hrename.1]
    · exact Or.inr (Or.inl (if_neg hrename))
  | true =>
    have hsrc : Function.update files target none src = files src := Function.update_of_ne hne none files
    by_cases hrename : renamed ∧ (files src).isSome
    · obtain ⟨pieces, hpieces⟩ := Option.isSome_iff_exists.mp hrename.2
      refine Or.inl ⟨pieces, hpieces, ?_⟩
      simp [moveFile, hsrc, hpieces, hrename.1]
    · refine Or.inr (Or.inr ?_)
      simp only [if_true, hsrc]
      exact if_neg hrename

variable {conf}

/-- What a pass of the loop does: the file of a number is passed over, or moved, or the rotation is given up
with the target left in place or gone. -/
inductive RotatePass (conf : RotatingConf) (a : FileAnswers) (i : Nat) (s : RotatingFile) :
    RotatingFile × Option Text → Prop
  | skip (h : s.file.files (conf.numbered i) = none ∨ a.sees i = false) :
      RotatePass conf a i s (conf.rotateFrom a i s)
  | move {pieces : List Bytes} (h : s.file.files (conf.numbered i) = some pieces) :
      RotatePass conf a i s (conf.rotateFrom a i
        (s.setFiles (moveFile (conf.numbered i) (conf.numbered (i + 1)) pieces s.file.files)))
  | keep : RotatePass conf a i s (conf.giveUp a i s)
  | remove : RotatePass conf a i s
      (conf.giveUp a i (s.setFiles (Function.update s.file.files (conf.numbered (i + 1)) none)))

theorem rotateFrom_pass (conf : RotatingConf) (a : FileAnswers) (i : Nat) (s : RotatingFile) :
    RotatePass conf a i s (conf.rotateFrom a (i + 1) s) := by
  have hne : conf.numbered i ≠ conf.numbered (i + 1) := conf.numbered_ne (by omega)
  have hgone : Function.update s.file.files (conf.numbered (i + 1)) none (conf.numbered i) =
      s.file.files (conf.numbered i) := Function.update_of_ne hne none s.file.files
  have hmoved : ∀ pieces, moveFile (conf.numbered i) (conf.numbered (i + 1)) pieces
      (Function.update s.file.files (conf.numbered (i + 1)) none) =
        moveFile (conf.numbered i) (conf.numbered (i + 1)) pieces s.file.files := by
    intro pieces
    unfold moveFile
    rw [Function.update_idem]
  unfold rotateFrom
  by_cases hseen : (s.file.files (conf.numbered i)).isNone || !a.sees i
  · rw [if_pos hseen]
    apply RotatePass.skip
    simpa only [Bool.or_eq_true, Option.isNone_iff_eq_none, Bool.not_eq_true'] using hseen
  · rw [if_neg hseen]
    rcases renameFile_cases hne (a.removes i false) (a.renames i false) s.file.files with
      ⟨pieces, hpieces, hfirst⟩ | hfirst | hfirst <;> simp only [hfirst, if_true, Bool.false_eq_true, if_false]
    · exact .move hpieces
    · rcases renameFile_cases hne (a.removes i true) (a.renames i true) s.file.files with
        ⟨pieces, hpieces, hsecond⟩ | hsecond | hsecond <;>
        simp only [hsecond, if_true, Bool.false_eq_true, if_false]
      · exact .move hpieces
      · exact .keep
      · exact .remove
    · rcases renameFile_cases hne (a.removes i true) (a.renames i true)
        (Function.update s.file.files (conf.numbered (i + 1)) none) with
        ⟨pieces, hpieces, hsecond⟩ | hsecond | hsecond <;>
        simp only [hsecond, if_true, Bool.false_eq_true, if_false]
      · rw [hmoved]
        exact .move (hgone.symm.trans hpieces)
      · exact .remove
      · rw [Function.update_idem]
        exact .remove

/-- The file of a name is open and empty. -/
def Emptied (name : Text) (file : FileHelper) : Prop :=
  file.fd = some name ∧ file.files name = some []

/-- A rotation ends with a new file, or raises an exception: nothing is open and the count of bytes stands,
or the file was emptied and the count starts anew. -/
inductive RotateEnding (s : RotatingFile) : RotatingFile × Option Text → Prop
  | rotated {file : FileHelper} (h : Emptied s.file.filename file) (hname : file.filename = s.file.filename) :
      RotateEnding s ({ s with file }, none)
  | unopened {file : FileHelper} {err : Text} (h : file.fd = none) (hname : file.filename = s.file.filename) :
      RotateEnding s ({ s with file }, some err)
  | emptied {file : FileHelper} {err : Text} (h : Emptied s.file.filename file)
      (hname : file.filename = s.file.filename) : RotateEnding s ({ s with file, currentSize := 0 }, some err)

theorem RotateEnding.of_setFiles {s : RotatingFile} {files : Files} {r : RotatingFile × Option Text}
    (h : RotateEnding (s.setFiles files) r) : RotateEnding s r := by
  cases h with
  | rotated h hname => exact .rotated h hname
  | unopened h hname => exact .unopened h hname
  | emptied h hname => exact .emptied h hname

/-- `reopen(true)`: the file is emptied and open, or the files are as they were. -/
theorem reopen_cases (opens : Nat → Bool) {h : FileHelper} (hfd : h.fd = none) :
    h.reopen true opens = (FileHelper.fopen h.filename true h, none) ∨
      ∃ err, h.reopen true opens = (h, some err) := by
  unfold FileHelper.reopen
  split
  · exact Or.inr ⟨_, rfl⟩
  · rcases FileHelper.openFile_cases h.filename true opens h with hopen | hfail
    · exact Or.inl hopen
    · have hsame : ({ h with fd := none, filename := h.filename } : FileHelper) = h := by rw [← hfd]
      rw [hsame] at hfail
      exact Or.inr ⟨_, hfail⟩

theorem emptied_fopen (h : FileHelper) : Emptied h.filename (FileHelper.fopen h.filename true h) :=
  ⟨rfl, Function.update_self h.filename _ h.files⟩

theorem giveUp_ending (a : FileAnswers) (i : Nat) {s : RotatingFile} (hfd : s.file.fd = none) :
    RotateEnding s (conf.giveUp a i s) := by
  unfold giveUp
  rcases reopen_cases a.reopens hfd with hopen | ⟨err, hfail⟩
  · rw [hopen]
    exact .emptied (emptied_fopen s.file) rfl
  · rw [hfail]
    exact .unopened hfd rfl

theorem rotateFrom_ending (a : FileAnswers) (i : Nat) {s : RotatingFile} (hfd : s.file.fd = none) :
    RotateEnding s (conf.rotateFrom a i s) := by
  induction i generalizing s with
  | zero =>
    unfold rotateFrom
    rcases reopen_cases a.reopens hfd with hopen | ⟨err, hfail⟩
    · rw [hopen]
      exact .rotated (emptied_fopen s.file) rfl
    · rw [hfail]
      exact .unopened hfd rfl
  | succ i ih =>
    have hclosed : ∀ files, (s.setFiles files).file.fd = none := fun _ => hfd
    have hpass := rotateFrom_pass conf a i s
    generalize conf.rotateFrom a (i + 1) s = r at hpass ⊢
    cases hpass with
    | skip _ => exact ih hfd
    | move _ => exact (ih (hclosed _)).of_setFiles
    | keep => exact giveUp_ending a i hfd
    | remove => exact (giveUp_ending a i (hclosed _)).of_setFiles

/-- What the renames, the removals and the truncation keep of the files. -/
structure KeptByRotation (conf : RotatingConf) (filename : Text) (P : Files → Prop) : Prop where
  move : ∀ i pieces files, i < conf.maxFiles → files (conf.numbered i) = some pieces → P files →
    P (moveFile (conf.numbered i) (conf.numbered (i + 1)) pieces files)
  remove : ∀ i files, i < conf.maxFiles → P files → P (Function.update files (conf.numbered (i + 1)) none)
  truncate : ∀ files, P files → P (Function.update files filename (some []))

namespace KeptByRotation

variable {P : Files → Prop} {s : RotatingFile}

theorem reopen (hP : KeptByRotation conf s.file.filename P) (a : FileAnswers) (hfd : s.file.fd = none)
    (h : P s.file.files) : P (s.file.reopen true a.reopens).1.files := by
  rcases reopen_cases a.reopens hfd with hopen | ⟨err, hfail⟩
  · rw [hopen]
    exact hP.truncate _ h
  · rw [hfail]
    exact h

theorem giveUp (hP : KeptByRotation conf s.file.filename P) (a : FileAnswers) (i : Nat) (hfd : s.file.fd = none)
    (h : P s.file.files) : P (conf.giveUp a i s).1.file.files := by
  have hreopen := hP.reopen a hfd h
  unfold RotatingConf.giveUp
  dsimp only
  split <;> exact hreopen

theorem rotateFrom (a : FileAnswers) {i : Nat} (hi : i ≤ conf.maxFiles)
    (hP : KeptByRotation conf s.file.filename P) (hfd : s.file.fd = none) (h : P s.file.files) :
    P (conf.rotateFrom a i s).1.file.files := by
  induction i generalizing s with
  | zero => exact hP.reopen a hfd h
  | succ i ih =>
    have hrest : i ≤ conf.maxFiles := by omega
    have hclosed : ∀ files, (s.setFiles files).file.fd = none := fun _ => hfd
    have hpass := rotateFrom_pass conf a i s
    generalize conf.rotateFrom a (i + 1) s = r at hpass ⊢
    cases hpass with
    | skip _ => exact ih hrest hP hfd h
    | move hpieces => exact ih hrest hP (hclosed _) (hP.move i _ _ hi hpieces h)
    | keep => exact hP.giveUp a i hfd h
    | remove =>
      have hgone := hP.remove i s.file.files hi h
      exact KeptByRotation.giveUp (s := s.setFiles (Function.update s.file.files (conf.numbered (i + 1)) none))
        hP a i (hclosed _) hgone

end KeptByRotation

end RotatingConf

end RedisLuaLinux.Spdlog
