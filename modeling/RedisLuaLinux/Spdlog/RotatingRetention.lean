import RedisLuaLinux.Spdlog.RotatingHistory

/-!
# What rotation drops

On a disk that answers, if need be at a later try, the numbered files hold the newest records, and a
rotation drops the oldest file only.
-/

namespace RedisLuaLinux.Spdlog

open Library

/-- Each call succeeds at one of its tries. -/
structure FileAnswers.Smooth (a : FileAnswers) : Prop where
  opens : ∃ t < FileHelper.openTries, a.opens t
  stat : a.stat
  reopens : ∃ t < FileHelper.openTries, a.reopens t
  sees : ∀ i, a.sees i
  renames : ∀ i, a.renames i false ∨ a.renames i true

def RotatingEvent.Smooth : RotatingEvent → Prop
  | .construct _ a => a.Smooth
  | .sinkIt formatted a => a.Smooth ∧ formatted.length ≤ a.taken
  | .destroy => True

namespace RotatingConf

variable {conf : RotatingConf}

/-- The file of a number, if there is one, gets the next number. -/
def shifted (conf : RotatingConf) (i : Nat) (files : Files) : Files :=
  match files (conf.numbered i) with
  | none => files
  | some pieces => moveFile (conf.numbered i) (conf.numbered (i + 1)) pieces files

theorem shifted_of_none {i : Nat} {files : Files} (h : files (conf.numbered i) = none) :
    conf.shifted i files = files := by
  unfold shifted
  rw [h]

theorem shifted_of_some {i : Nat} {files : Files} {pieces : List Bytes}
    (h : files (conf.numbered i) = some pieces) :
    conf.shifted i files = moveFile (conf.numbered i) (conf.numbered (i + 1)) pieces files := by
  unfold shifted
  rw [h]

/-- Each file below a number gets the next one. -/
def shiftAll (conf : RotatingConf) : Nat → Files → Files
  | 0, files => files
  | i + 1, files => shiftAll conf i (conf.shifted i files)

theorem renameFile_of_renamed {src target : Text} (hne : src ≠ target) (removed : Bool) {files : Files}
    {pieces : List Bytes} (h : files src = some pieces) :
    renameFile src target removed true files = (moveFile src target pieces files, true) := by
  have hgone : Function.update files target none src = some pieces := by
    rw [Function.update_of_ne hne, h]
  unfold renameFile moveFile
  cases removed with
  | false => simp [h]
  | true => simp [hgone]

theorem moveFile_of_removed (src target : Text) (pieces : List Bytes) (files : Files) :
    moveFile src target pieces (Function.update files target none) = moveFile src target pieces files := by
  unfold moveFile
  rw [Function.update_idem]

theorem rotateFrom_succ_of_smooth {a : FileAnswers} (ha : a.Smooth) (i : Nat) (s : RotatingFile) :
    conf.rotateFrom a (i + 1) s = conf.rotateFrom a i (s.setFiles (conf.shifted i s.file.files)) := by
  have hne : conf.numbered i ≠ conf.numbered (i + 1) := conf.numbered_ne (by omega)
  cases hsrc : s.file.files (conf.numbered i) with
  | none =>
    rw [shifted_of_none hsrc]
    exact if_pos (by rw [hsrc]; rfl)
  | some pieces =>
    rw [shifted_of_some hsrc]
    conv => left; unfold rotateFrom
    rw [if_neg (by simp [hsrc, ha.sees i])]
    dsimp only
    rcases renameFile_cases hne (a.removes i false) (a.renames i false) s.file.files with
      ⟨moved, hmoved, hfirst⟩ | hfirst | hfirst
    · rw [hsrc] at hmoved
      obtain rfl := Option.some.inj hmoved
      simp only [hfirst, if_true]
    all_goals
      have hagain : a.renames i true := by
        apply (ha.renames i).resolve_left
        intro hrenamed
        rw [hrenamed, renameFile_of_renamed hne _ hsrc] at hfirst
        exact absurd (congrArg Prod.snd hfirst) (by simp)
      simp only [hfirst, hagain, Bool.false_eq_true, if_false]
    · simp only [renameFile_of_renamed hne _ hsrc, if_true]
    · have hleft : Function.update s.file.files (conf.numbered (i + 1)) none (conf.numbered i) = some pieces := by
        rw [Function.update_of_ne hne, hsrc]
      simp only [renameFile_of_renamed hne _ hleft, if_true, moveFile_of_removed]

/-- A rotation on a disk that answers. -/
theorem rotateFrom_of_smooth (conf : RotatingConf) {a : FileAnswers} (ha : a.Smooth) (i : Nat) {s : RotatingFile}
    (hname : s.file.filename ≠ []) :
    conf.rotateFrom a i s =
      ({ s with file := FileHelper.fopen s.file.filename true { s.file with files := conf.shiftAll i s.file.files } },
        none) := by
  induction i generalizing s with
  | zero =>
    unfold rotateFrom FileHelper.reopen
    rw [if_neg hname, FileHelper.openFile_of_ok ha.reopens]
    rfl
  | succ i ih =>
    have hrest := ih (s := s.setFiles (conf.shifted i s.file.files)) hname
    rw [rotateFrom_succ_of_smooth ha, hrest]
    rfl

/-! ## What shifting keeps and drops -/

theorem shelf_of_none {files : Files} {i : Nat} (h : files (conf.numbered i) = none) :
    conf.shelf files i = [] := by
  unfold shelf Files.content
  rw [h]
  rfl

/-- A shifted file leaves its shelf empty. -/
theorem shelf_shifted (i : Nat) (files : Files) : conf.shelf (conf.shifted i files) i = [] := by
  cases hsrc : files (conf.numbered i) with
  | none =>
    rw [shifted_of_none hsrc]
    exact shelf_of_none hsrc
  | some pieces =>
    rw [shifted_of_some hsrc]
    exact (moved_moveFile conf hsrc).source

theorem stored_shifted {files : Files} {i : Nat} (hi : i < conf.maxFiles) (hempty : conf.shelf files (i + 1) = []) :
    conf.stored (conf.shifted i files) = conf.stored files := by
  cases hsrc : files (conf.numbered i) with
  | none => rw [shifted_of_none hsrc]
  | some pieces =>
    rw [shifted_of_some hsrc]
    exact (moved_moveFile conf hsrc).eq_of_empty (by omega) hempty

/-- Below an empty shelf, shifting drops nothing and leaves shelf 0 empty. -/
theorem stored_shiftAll {i : Nat} (hi : i ≤ conf.maxFiles) {files : Files} (hempty : conf.shelf files i = []) :
    conf.stored (conf.shiftAll i files) = conf.stored files ∧ conf.shelf (conf.shiftAll i files) 0 = [] := by
  induction i generalizing files with
  | zero => exact ⟨rfl, hempty⟩
  | succ i ih =>
    obtain ⟨hstored, hzero⟩ := ih (by omega) (shelf_shifted i files)
    exact ⟨hstored.trans (stored_shifted hi hempty), hzero⟩

/-- The files of a rotation. -/
def rotatedFiles (conf : RotatingConf) (files : Files) : Files :=
  Function.update (conf.shiftAll conf.maxFiles files) (conf.numbered 0) (some [])

theorem stored_emptied_of_nil {files : Files} (hzero : conf.shelf files 0 = []) :
    conf.stored (Function.update files (conf.numbered 0) (some [])) = conf.stored files := by
  have hopen := stored_open conf files
  rwa [hzero] at hopen

/-- A rotation drops what the oldest file held, if its number is wanted, and nothing else. -/
theorem stored_rotatedFiles (conf : RotatingConf) (files : Files) :
    ∃ lost, conf.stored files = lost ++ conf.stored (conf.rotatedFiles files) ∧
      (lost = [] ∨ ∀ i, i + 1 = conf.maxFiles → (files (conf.numbered i)).isSome) := by
  unfold rotatedFiles
  cases hmax : conf.maxFiles with
  | zero =>
    refine ⟨conf.shelf files 0, ?_, Or.inr fun i hi => by omega⟩
    unfold stored
    rw [hmax]
    unfold joined joined shiftAll
    rw [shelf_update_self]
    rfl
  | succ i =>
    have hi : i ≤ conf.maxFiles := by omega
    obtain ⟨hstored, hzero⟩ := stored_shiftAll hi (shelf_shifted i files)
    have hrotated := stored_emptied_of_nil hzero
    show ∃ lost, _ = lost ++ conf.stored (Function.update (conf.shiftAll i (conf.shifted i files)) _ _) ∧ _
    rw [hrotated, hstored]
    cases hsrc : files (conf.numbered i) with
    | none =>
      rw [shifted_of_none hsrc]
      exact ⟨[], rfl, Or.inl rfl⟩
    | some pieces =>
      rw [shifted_of_some hsrc]
      have htop := (moved_moveFile conf hsrc).joined_top
      have hcount : conf.maxFiles + 1 = i + 2 := by omega
      refine ⟨conf.shelf files (i + 1), ?_, Or.inr ?_⟩
      · unfold stored
        rw [hcount]
        exact htop
      · intro j hj
        obtain rfl : j = i := by omega
        rw [hsrc]
        rfl

/-! ## Which files there are -/

/-- A file with a higher number comes after one with the number below. -/
def Contiguous (conf : RotatingConf) (files : Files) : Prop :=
  ∀ i < conf.maxFiles, (files (conf.numbered (i + 1))).isSome → (files (conf.numbered i)).isSome

/-- All of the numbered files are there. -/
def Full (conf : RotatingConf) (files : Files) : Prop := ∀ i ≤ conf.maxFiles, (files (conf.numbered i)).isSome

theorem moveFile_source (src target : Text) (pieces : List Bytes) (files : Files) :
    moveFile src target pieces files src = none := by
  unfold moveFile
  rw [Function.update_self]

theorem moveFile_target {src target : Text} (hne : src ≠ target) (pieces : List Bytes) (files : Files) :
    moveFile src target pieces files target = some pieces := by
  unfold moveFile
  rw [Function.update_of_ne hne.symm, Function.update_self]

theorem moveFile_other {src target name : Text} (hsrc : name ≠ src) (htarget : name ≠ target)
    (pieces : List Bytes) (files : Files) : moveFile src target pieces files name = files name := by
  unfold moveFile
  rw [Function.update_of_ne hsrc, Function.update_of_ne htarget]

theorem shifted_other {i j : Nat} (hi : j ≠ i) (hi' : j ≠ i + 1) (files : Files) :
    conf.shifted i files (conf.numbered j) = files (conf.numbered j) := by
  cases hsrc : files (conf.numbered i) with
  | none => rw [shifted_of_none hsrc]
  | some pieces =>
    rw [shifted_of_some hsrc]
    exact moveFile_other (conf.numbered_ne hi) (conf.numbered_ne hi') pieces files

theorem shifted_source (i : Nat) (files : Files) : conf.shifted i files (conf.numbered i) = none := by
  cases hsrc : files (conf.numbered i) with
  | none => rw [shifted_of_none hsrc, hsrc]
  | some pieces =>
    rw [shifted_of_some hsrc]
    exact moveFile_source _ _ pieces files

theorem shiftAll_above {i j : Nat} (h : i < j) (files : Files) :
    conf.shiftAll i files (conf.numbered j) = files (conf.numbered j) := by
  induction i generalizing files with
  | zero => rfl
  | succ i ih =>
    unfold shiftAll
    rw [ih (by omega), shifted_other (by omega) (by omega)]

/-- Each file is there after the shift if the one below it was there before. -/
theorem shiftAll_isSome {i : Nat} {files : Files}
    (htop : ∀ j, i = j + 1 → files (conf.numbered j) = none → files (conf.numbered (j + 1)) = none)
    {j : Nat} (hj : j < i) :
    (conf.shiftAll i files (conf.numbered (j + 1))).isSome = (files (conf.numbered j)).isSome := by
  induction i generalizing files with
  | zero => omega
  | succ i ih =>
    unfold shiftAll
    by_cases hlast : j = i
    · subst hlast
      rw [shiftAll_above (by omega)]
      cases hsrc : files (conf.numbered j) with
      | none =>
        rw [shifted_of_none hsrc]
        exact congrArg Option.isSome (htop j rfl hsrc)
      | some pieces =>
        rw [shifted_of_some hsrc, moveFile_target (conf.numbered_ne (by omega))]
    · have hrest : ∀ k, i = k + 1 → conf.shifted i files (conf.numbered k) = none →
          conf.shifted i files (conf.numbered (k + 1)) = none := by
        intro k hk _
        rw [← hk]
        exact shifted_source i files
      rw [ih hrest (by omega), shifted_other (by omega) (by omega)]

theorem rotatedFiles_isSome {files : Files} (h : conf.Contiguous files) {j : Nat} (hj : j < conf.maxFiles) :
    (conf.rotatedFiles files (conf.numbered (j + 1))).isSome = (files (conf.numbered j)).isSome := by
  unfold rotatedFiles
  rw [Function.update_of_ne (conf.numbered_ne (by omega))]
  apply shiftAll_isSome _ hj
  intro k hk hnone
  apply Option.not_isSome_iff_eq_none.mp
  intro habove
  have hbelow := h k (by omega) habove
  rw [hnone] at hbelow
  cases hbelow

theorem rotatedFiles_zero (files : Files) : conf.rotatedFiles files (conf.numbered 0) = some [] :=
  Function.update_self (conf.numbered 0) _ _

/-- All files are there after a rotation that has moved one from each number. -/
theorem full_rotatedFiles {files : Files} (h : conf.Contiguous files)
    (hbelow : ∀ j < conf.maxFiles, (files (conf.numbered j)).isSome) : conf.Full (conf.rotatedFiles files) := by
  intro i hi
  cases i with
  | zero => rw [rotatedFiles_zero]; rfl
  | succ j =>
    rw [rotatedFiles_isSome h hi]
    exact hbelow j hi

theorem Contiguous.rotatedFiles {files : Files} (h : conf.Contiguous files) :
    conf.Contiguous (conf.rotatedFiles files) := by
  intro i hi habove
  rw [rotatedFiles_isSome h hi] at habove
  cases i with
  | zero => rw [rotatedFiles_zero]; rfl
  | succ j =>
    rw [rotatedFiles_isSome h (by omega)]
    exact h j (by omega) habove

/-- Up to one of them, all of the files are there. -/
theorem Contiguous.below {files : Files} (h : conf.Contiguous files) {i : Nat} (hi : i ≤ conf.maxFiles)
    (hlast : (files (conf.numbered i)).isSome) {j : Nat} (hj : j ≤ i) : (files (conf.numbered j)).isSome := by
  induction i with
  | zero =>
    obtain rfl : j = 0 := by omega
    exact hlast
  | succ i ih =>
    by_cases heq : j = i + 1
    · rw [heq]
      exact hlast
    · exact ih (by omega) (h i hi hlast) (by omega)

theorem isSome_update_base {files : Files} {pieces : List Bytes} {j : Nat}
    (h : j = 0 ∨ (files (conf.numbered j)).isSome) :
    (Function.update files (conf.numbered 0) (some pieces) (conf.numbered j)).isSome := by
  by_cases hj : j = 0
  · rw [hj, Function.update_self]
    rfl
  · rw [Function.update_of_ne (conf.numbered_ne hj)]
    exact h.resolve_left hj

/-! ## What a run keeps -/

/-- The files hold the newest records; and if some are lost, no number is free. -/
structure Retained (conf : RotatingConf) (first : Files) (handed : List Bytes) (files : Files) : Prop where
  suffix : ∃ lost, conf.stored first ++ handed = lost ++ conf.stored files ∧
    (conf.Contiguous first → lost = [] ∨ conf.Full files)
  contiguous : conf.Contiguous first → conf.Contiguous files

namespace Retained

variable {first files : Files} {handed : List Bytes}

theorem rotate (h : Retained conf first handed files) : Retained conf first handed (conf.rotatedFiles files) where
  suffix := by
    obtain ⟨lost, hall, hfull⟩ := h.suffix
    obtain ⟨oldest, hstored, hwanted⟩ := stored_rotatedFiles conf files
    refine ⟨lost ++ oldest, ?_, fun hfirst => ?_⟩
    · rw [hall, hstored, List.append_assoc]
    · have hcontiguous := h.contiguous hfirst
      rcases hfull hfirst with hnone | hfull
      · rcases hwanted with hkept | hlast
        · apply Or.inl
          rw [hnone, hkept]
          rfl
        · apply Or.inr
          apply full_rotatedFiles hcontiguous
          intro j hj
          exact hcontiguous.below (i := conf.maxFiles - 1) (by omega) (hlast _ (by omega)) (by omega)
      · exact Or.inr (full_rotatedFiles hcontiguous fun j hj => hfull j (by omega))
  contiguous hfirst := (h.contiguous hfirst).rotatedFiles

/-- The base file is opened, or records are put at its end. -/
theorem update_base (h : Retained conf first handed files) {pieces more : List Bytes}
    (hstored : conf.stored (Function.update files (conf.numbered 0) (some pieces)) = conf.stored files ++ more) :
    Retained conf first (handed ++ more) (Function.update files (conf.numbered 0) (some pieces)) where
  suffix := by
    obtain ⟨lost, hall, hfull⟩ := h.suffix
    refine ⟨lost, ?_, fun hfirst => ?_⟩
    · rw [hstored, ← List.append_assoc, hall, List.append_assoc]
    · apply (hfull hfirst).imp_right
      intro hfull i hi
      exact isSome_update_base (Or.inr (hfull i hi))
  contiguous hfirst := by
    intro i hi habove
    apply isSome_update_base
    rw [Function.update_of_ne (conf.numbered_ne (by omega))] at habove
    exact Or.inr (h.contiguous hfirst i hi habove)

end Retained

/-- A sink with its file open. -/
structure Ready (conf : RotatingConf) (s : RotatingFile) : Prop where
  named : s.file.filename = conf.numbered 0
  opened : s.file.fd = some (conf.numbered 0)

theorem rotate_of_smooth (hbase : conf.baseFilename ≠ []) {a : FileAnswers} (ha : a.Smooth) {s : RotatingFile}
    (hname : s.file.filename = conf.numbered 0) :
    ∃ s', conf.rotate a s = (s', none) ∧ s'.file.files = conf.rotatedFiles s.file.files ∧
      conf.Ready s' ∧ s'.alive = s.alive := by
  have hnonempty : s.file.filename ≠ [] := by
    rw [hname]
    exact hbase
  have hrotate := rotateFrom_of_smooth conf ha conf.maxFiles
    (s := { s with file := s.file.close }) hnonempty
  refine ⟨_, hrotate, ?_, ⟨hname, ?_⟩, rfl⟩
  · show Function.update _ s.file.filename _ = _
    rw [hname]
    rfl
  · exact congrArg some hname

theorem writeTo_of_smooth {first : Files} {handed : List Bytes} {a : FileAnswers} {formatted : Bytes}
    (htaken : formatted.length ≤ a.taken) {s : RotatingFile} (hready : conf.Ready s)
    (h : Retained conf first handed s.file.files) :
    ∃ s', writeTo a formatted s = some (s', none) ∧ Retained conf first (handed ++ [formatted]) s'.file.files ∧
      conf.Ready s' := by
  obtain ⟨⟨files, fd, filename⟩, currentSize, alive⟩ := s
  obtain ⟨hname, hopen⟩ := hready
  obtain rfl : fd = some (conf.numbered 0) := hopen
  have hall : formatted.take a.taken = formatted := List.take_of_length_le htaken
  have hwrite : writeTo a formatted ⟨⟨files, some (conf.numbered 0), filename⟩, currentSize, alive⟩ =
      some (⟨⟨Function.update files (conf.numbered 0) (some (conf.shelf files 0 ++ [formatted])),
        some (conf.numbered 0), filename⟩, currentSize, alive⟩, none) := by
    unfold writeTo FileHelper.write
    simp only [Option.map_some, hall, if_true]
    rfl
  exact ⟨_, hwrite, h.update_base (stored_append files [formatted]), hname, rfl⟩

theorem sinkIt_of_smooth (hbase : conf.baseFilename ≠ []) {first : Files} {handed : List Bytes} {a : FileAnswers}
    (ha : a.Smooth) {formatted : Bytes} (htaken : formatted.length ≤ a.taken) {s : RotatingFile}
    (hready : conf.Ready s) (h : Retained conf first handed s.file.files) :
    ∃ s', conf.sinkIt a formatted s = some (s', none) ∧
      Retained conf first (handed ++ [formatted]) s'.file.files ∧ conf.Ready s' := by
  unfold sinkIt
  dsimp only
  split
  · obtain ⟨rotated, hrotate, hfiles, hready, _⟩ := rotate_of_smooth hbase ha
      (s := { s with currentSize := (s.currentSize + formatted.length) % 2 ^ 64 }) hready.named
    simp only [hrotate]
    have hretained := h.rotate
    rw [← hfiles] at hretained
    exact writeTo_of_smooth htaken (s := { rotated with currentSize := formatted.length })
      ⟨hready.named, hready.opened⟩ hretained
  · exact writeTo_of_smooth htaken
      (s := { s with currentSize := (s.currentSize + formatted.length) % 2 ^ 64 })
      ⟨hready.named, hready.opened⟩ h

theorem construct_of_smooth (hbase : conf.baseFilename ≠ []) {first files : Files} {handed : List Bytes}
    (rotateOnOpen : Bool) {a : FileAnswers} (ha : a.Smooth) (h : Retained conf first handed files) :
    Retained conf first handed (conf.construct rotateOnOpen a files).1.file.files ∧
      conf.Ready (conf.construct rotateOnOpen a files).1 := by
  have hopened : Retained conf first handed
      (Function.update files (conf.numbered 0) (some (conf.shelf files 0))) := by
    rw [← List.append_nil handed]
    apply h.update_base
    rw [stored_open, List.append_nil]
  unfold construct
  rw [FileHelper.openFile_of_ok ha.opens]
  have hsize : (FileHelper.fopen (conf.numbered 0) false { files := files, filename := conf.numbered 0 }).size
      a.stat = .ok (byteCount (conf.shelf
        (Function.update files (conf.numbered 0) (some (conf.shelf files 0))) 0)) := if_pos ha.stat
  dsimp only
  rw [hsize]
  dsimp only
  split
  · obtain ⟨rotated, hrotate, hfiles, hready, _⟩ := rotate_of_smooth hbase ha (s := {
      file := FileHelper.fopen (conf.numbered 0) false { files := files, filename := conf.numbered 0 }
      currentSize := byteCount (conf.shelf
        (Function.update files (conf.numbered 0) (some (conf.shelf files 0))) 0)
      alive := true }) rfl
    simp only [hrotate]
    have hretained := hopened.rotate
    exact ⟨hfiles ▸ hretained, hready⟩
  · exact ⟨hopened, rfl, rfl⟩

theorem step_of_smooth (hbase : conf.baseFilename ≠ []) {first : Files} {handed : List Bytes}
    {s s' : RotatingFile} {e : RotatingEvent} (he : e.Smooth)
    (h : Retained conf first handed s.file.files ∧ (s.alive → conf.Ready s))
    (hstep : conf.step s e = some s') :
    Retained conf first (handed ++ e.handed) s'.file.files ∧ (s'.alive → conf.Ready s') := by
  cases e with
  | construct rotateOnOpen a =>
    obtain ⟨_, hnew⟩ := Option.ite_none_left_eq_some.mp hstep
    obtain rfl := Option.some.inj hnew
    obtain ⟨hretained, hready⟩ := construct_of_smooth hbase rotateOnOpen he h.1
    rw [← List.append_nil handed] at hretained
    exact ⟨hretained, fun _ => hready⟩
  | sinkIt formatted a =>
    obtain ⟨halive, hcall⟩ := Option.ite_none_right_eq_some.mp hstep
    obtain ⟨s₁, hsink, hretained, hready⟩ := sinkIt_of_smooth hbase he.1 he.2 (h.2 halive) h.1
    rw [hsink] at hcall
    obtain rfl := Option.some.inj hcall
    exact ⟨hretained, fun _ => hready⟩
  | destroy =>
    obtain ⟨_, hend⟩ := Option.ite_none_right_eq_some.mp hstep
    obtain rfl := Option.some.inj hend
    have hretained := h.1
    rw [← List.append_nil handed] at hretained
    exact ⟨hretained, by simp⟩

variable {first : Files} {es : List RotatingEvent} {s : RotatingFile}

theorem run_of_smooth (hbase : conf.baseFilename ≠ [])
    (h : Run conf.step (fun _ e => e.Smooth) (start first) es s) :
    Retained conf first (es.flatMap RotatingEvent.handed) s.file.files ∧ (s.alive → conf.Ready s) := by
  induction h with
  | nil =>
    refine ⟨⟨⟨[], ?_, fun _ => Or.inl rfl⟩, id⟩, by simp [start]⟩
    rw [List.flatMap_nil, List.append_nil]
    rfl
  | snoc _ he hstep ih =>
    rw [List.flatMap_append, List.flatMap_singleton]
    exact step_of_smooth hbase he ih hstep

/-- On a disk that answers, the files hold the newest of all records, every one of them as long as a number is
free; and each message is written without an exception. -/
theorem rotating_retention (hbase : conf.baseFilename ≠ [])
    (h : Run conf.step (fun _ e => e.Smooth) (start first) es s) :
    (∃ lost, conf.stored first ++ es.flatMap RotatingEvent.handed = lost ++ conf.stored s.file.files ∧
      (conf.Contiguous first → lost = [] ∨ conf.Full s.file.files)) ∧
      ∀ formatted a, s.alive → (RotatingEvent.sinkIt formatted a).Smooth →
        ∃ s', conf.sinkIt a formatted s = some (s', none) := by
  obtain ⟨hretained, hready⟩ := run_of_smooth hbase h
  refine ⟨hretained.suffix, fun formatted a halive hsmooth => ?_⟩
  obtain ⟨s', hsink, _⟩ := sinkIt_of_smooth hbase hsmooth.1 hsmooth.2 (hready halive) hretained
  exact ⟨s', hsink⟩

theorem answering_smooth : answering.Smooth where
  opens := ⟨0, by decide, rfl⟩
  stat := rfl
  reopens := ⟨0, by decide, rfl⟩
  sees _ := rfl
  renames _ := Or.inl rfl

/-- Of three messages the third drops the first. -/
def threeMessages : List RotatingEvent :=
  [.construct false answering, .sinkIt [1, 2, 3] answering, .sinkIt [4, 5] answering, .sinkIt [6, 7, 8] answering]

theorem rotating_retention_of_three :
    ∃ s, Run oneOlder.step (fun _ e => e.Smooth) (start fun _ => none) threeMessages s ∧
      (∃ lost, oneOlder.stored (fun _ => none) ++ [[1, 2, 3], [4, 5], [6, 7, 8]] =
          lost ++ oneOlder.stored s.file.files ∧
        (oneOlder.Contiguous (fun _ => none) → lost = [] ∨ oneOlder.Full s.file.files)) ∧
        ∀ formatted a, s.alive → (RotatingEvent.sinkIt formatted a).Smooth →
          ∃ s', oneOlder.sinkIt a formatted s = some (s', none) := by
  have hsmooth : ∀ e ∈ threeMessages, ∀ _ : RotatingFile, e.Smooth := by
    have htaken : answering.taken = 8 := rfl
    simp [threeMessages, RotatingEvent.Smooth, answering_smooth, htaken]
  have hrun : Run oneOlder.step (fun _ e => e.Smooth) (start fun _ => none) threeMessages _ :=
    Run.of_replay_admits hsmooth rfl
  exact ⟨_, hrun, rotating_retention (by decide) hrun⟩

end RotatingConf

end RedisLuaLinux.Spdlog
