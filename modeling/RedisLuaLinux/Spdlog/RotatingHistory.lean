import RedisLuaLinux.Spdlog.RotatingFile

/-!
# The history in rotated files

What the numbered files hold after any number of sinks, one after the other, have written to them.
`stored` reads them from the oldest record to the newest.
-/

namespace RedisLuaLinux.Spdlog.RotatingConf

open Library

variable {conf : RotatingConf}

/-- What the file of a number holds. -/
def shelf (conf : RotatingConf) (files : Files) (i : Nat) : List Bytes := files.content (conf.numbered i)

/-- The records of the numbered files, from the oldest to the newest. -/
def stored (conf : RotatingConf) (files : Files) : List Bytes := joined (conf.shelf files) (conf.maxFiles + 1)

/-- A file is within the limit, or has one record, or is one of the first files. -/
def Fits (conf : RotatingConf) (first : Files) (pieces : List Bytes) : Prop :=
  byteCount pieces ≤ conf.maxSize ∨ pieces.length ≤ 1 ∨ ∃ i ≤ conf.maxFiles, pieces = conf.shelf first i

theorem byteCount_append (pieces pieces' : List Bytes) :
    byteCount (pieces ++ pieces') = byteCount pieces + byteCount pieces' := by
  unfold byteCount
  rw [List.flatten_append, List.length_append]

@[simp] theorem byteCount_singleton (piece : Bytes) : byteCount [piece] = piece.length := by
  unfold byteCount
  rw [List.flatten_singleton]

/-! ## The shelves under each file operation -/

@[simp] theorem shelf_update_self (conf : RotatingConf) (files : Files) (i : Nat) (pieces : Option (List Bytes)) :
    conf.shelf (Function.update files (conf.numbered i) pieces) i = pieces.getD [] := by
  unfold shelf Files.content
  rw [Function.update_self]

theorem shelf_update_of_ne (files : Files) {i j : Nat} (h : j ≠ i) (pieces : Option (List Bytes)) :
    conf.shelf (Function.update files (conf.numbered i) pieces) j = conf.shelf files j := by
  unfold shelf Files.content
  rw [Function.update_of_ne (conf.numbered_ne h)]

theorem moved_moveFile (conf : RotatingConf) {files : Files} {i : Nat} {pieces : List Bytes}
    (h : files (conf.numbered i) = some pieces) :
    Moved (conf.shelf files)
      (conf.shelf (moveFile (conf.numbered i) (conf.numbered (i + 1)) pieces files)) i where
  source := shelf_update_self conf _ i none
  target := by
    unfold moveFile
    rw [shelf_update_of_ne _ (by omega), shelf_update_self]
    unfold shelf Files.content
    rw [h]
  others j hj hj' := by
    unfold moveFile
    rw [shelf_update_of_ne _ hj, shelf_update_of_ne _ hj']

/-- A file that loses its pieces. -/
theorem stored_emptied_sublist (files : Files) (i : Nat) {pieces : Option (List Bytes)}
    (hempty : pieces.getD [] = []) :
    (conf.stored (Function.update files (conf.numbered i) pieces)).Sublist (conf.stored files) := by
  apply joined_sublist
  intro j _
  by_cases hj : j = i
  · rw [hj, shelf_update_self, hempty]
    exact List.nil_sublist _
  · rw [shelf_update_of_ne files hj]

theorem stored_moveFile_sublist {files : Files} {i : Nat} {pieces : List Bytes} (hi : i < conf.maxFiles)
    (h : files (conf.numbered i) = some pieces) :
    (conf.stored (moveFile (conf.numbered i) (conf.numbered (i + 1)) pieces files)).Sublist
      (conf.stored files) :=
  (moved_moveFile conf h).sublist (by omega)

/-- The base file is opened for appending. -/
theorem stored_open (conf : RotatingConf) (files : Files) :
    conf.stored (Function.update files (conf.numbered 0) (some (conf.shelf files 0))) = conf.stored files := by
  apply joined_congr
  intro j _
  by_cases hj : j = 0
  · rw [hj, shelf_update_self]
    rfl
  · rw [shelf_update_of_ne files hj]

theorem stored_append (files : Files) (pieces : List Bytes) :
    conf.stored (Function.update files (conf.numbered 0) (some (conf.shelf files 0 ++ pieces))) =
      conf.stored files ++ pieces := by
  apply joined_push
  · rw [shelf_update_self]
    rfl
  · intro j hj
    rw [shelf_update_of_ne files hj]

/-! ## What any failures leave true -/

/-- The files hold records of the first files and of the messages handed to the sinks, in their order, each
whole or cut short; every file is within its limit; and no other file has changed. -/
structure FilesSound (conf : RotatingConf) (first : Files) (handed : List Bytes) (files : Files) : Prop where
  kept : Kept (conf.stored files) (conf.stored first ++ handed)
  fits : ∀ i ≤ conf.maxFiles, conf.Fits first (conf.shelf files i)
  others : ∀ name, (∀ i ≤ conf.maxFiles, name ≠ conf.numbered i) → files name = first name

theorem fits_nil (first : Files) : conf.Fits first [] := Or.inr (Or.inl (Nat.zero_le 1))

namespace FilesSound

variable {first files : Files} {handed : List Bytes}

theorem start (conf : RotatingConf) (first : Files) : FilesSound conf first [] first where
  kept := by
    rw [List.append_nil]
    exact Kept.refl _
  fits i hi := Or.inr (Or.inr ⟨i, hi, rfl⟩)
  others _ _ := rfl

/-- One of the numbered files is written. -/
theorem update (h : FilesSound conf first handed files) {i : Nat} (hi : i ≤ conf.maxFiles)
    {pieces : Option (List Bytes)} {handed' : List Bytes}
    (hkept : Kept (conf.stored (Function.update files (conf.numbered i) pieces)) (conf.stored first ++ handed'))
    (hfits : conf.Fits first (pieces.getD [])) :
    FilesSound conf first handed' (Function.update files (conf.numbered i) pieces) where
  kept := hkept
  fits j hj := by
    by_cases heq : j = i
    · rw [heq, shelf_update_self]
      exact hfits
    · rw [shelf_update_of_ne files heq]
      exact h.fits j hj
  others name hname := by
    rw [Function.update_of_ne (hname i hi)]
    exact h.others name hname

theorem emptied (h : FilesSound conf first handed files) {i : Nat} (hi : i ≤ conf.maxFiles)
    {pieces : Option (List Bytes)} (hempty : pieces.getD [] = []) :
    FilesSound conf first handed (Function.update files (conf.numbered i) pieces) := by
  apply h.update hi (h.kept.of_sublist (stored_emptied_sublist files i hempty))
  rw [hempty]
  exact fits_nil first

theorem skip (h : FilesSound conf first handed files) (more : List Bytes) :
    FilesSound conf first (handed ++ more) files where
  kept := by
    rw [← List.append_assoc]
    exact h.kept.skip more
  fits := h.fits
  others := h.others

theorem keptByRotation : KeptByRotation conf (conf.numbered 0) (FilesSound conf first handed) where
  move i pieces files hi hpieces h := by
    have hkept := h.kept.of_sublist (stored_moveFile_sublist hi hpieces)
    have hmoved := moved_moveFile conf hpieces
    refine ⟨hkept, ?_, ?_⟩
    · intro j hj
      by_cases hsource : j = i
      · rw [hsource, hmoved.source]
        exact fits_nil first
      · by_cases htarget : j = i + 1
        · rw [htarget, hmoved.target]
          exact h.fits i (by omega)
        · rw [hmoved.others j hsource htarget]
          exact h.fits j hj
    · intro name hname
      unfold moveFile
      rw [Function.update_of_ne (hname i (by omega)), Function.update_of_ne (hname (i + 1) (by omega))]
      exact h.others name hname
  remove i files hi h := h.emptied (by omega) rfl
  truncate files h := h.emptied (Nat.zero_le _) rfl

/-- A record is written to the base file, whole or cut short. -/
theorem append (h : FilesSound conf first handed files) {formatted piece : Bytes} (hpiece : piece <+: formatted)
    (hfits : conf.Fits first (conf.shelf files 0 ++ [piece])) :
    FilesSound conf first (handed ++ [formatted])
      (Function.update files (conf.numbered 0) (some (conf.shelf files 0 ++ [piece]))) := by
  apply h.update (Nat.zero_le _)
  · rw [stored_append, ← List.append_assoc]
    exact h.kept.append (.cons hpiece .nil)
  · exact hfits

theorem byteCount_shelf_le (h : FilesSound conf first handed files) :
    byteCount (conf.shelf files 0) ≤ byteCount (conf.stored first ++ handed) :=
  (h.kept.of_sublist (sublist_joined (Nat.succ_pos _))).length_flatten_le

end FilesSound

/-- A sink that is in use: its file is the base file, and where that is not open the next message rotates the
files first. `total` bounds the bytes it can have counted. -/
structure Working (conf : RotatingConf) (total : Nat) (s : RotatingFile) : Prop where
  named : s.file.filename = conf.numbered 0
  opened : s.file.fd = none ∨ s.file.fd = some (conf.numbered 0)
  unopened : s.file.fd = none → conf.maxSize < s.currentSize
  sized : s.file.fd = some (conf.numbered 0) → byteCount (conf.shelf s.file.files 0) ≤ s.currentSize
  counted : s.currentSize ≤ total

theorem shelf_of_emptied {file : FileHelper} (h : Emptied (conf.numbered 0) file) :
    conf.shelf file.files 0 = [] := by
  unfold shelf Files.content
  rw [h.2]
  rfl

/-- After a rotation the sink is in use, whether an exception was raised or not. -/
theorem RotateEnding.working {s : RotatingFile} {r : RotatingFile × Option Text} (h : RotateEnding s r)
    {total : Nat} (hname : s.file.filename = conf.numbered 0) (hcount : s.currentSize ≤ total)
    (hover : r.2 ≠ none → conf.maxSize < s.currentSize) : Working conf total r.1 := by
  cases h with
  | rotated hempty hfile =>
    rw [hname] at hempty
    refine ⟨hfile.trans hname, Or.inr hempty.1, ?_, ?_, hcount⟩
    · intro hnone
      rw [hempty.1] at hnone
      cases hnone
    · intro _
      rw [shelf_of_emptied hempty]
      exact Nat.zero_le _
  | unopened hnone hfile =>
    refine ⟨hfile.trans hname, Or.inl hnone, fun _ => hover (by simp), ?_, hcount⟩
    intro hsome
    rw [hnone] at hsome
    cases hsome
  | emptied hempty hfile =>
    rw [hname] at hempty
    refine ⟨hfile.trans hname, Or.inr hempty.1, ?_, ?_, Nat.zero_le _⟩
    · intro hnone
      rw [hempty.1] at hnone
      cases hnone
    · intro _
      rw [shelf_of_emptied hempty]
      exact Nat.zero_le _

theorem rotate_ending (conf : RotatingConf) (a : FileAnswers) (s : RotatingFile) :
    RotateEnding { s with file := s.file.close } (conf.rotate a s) := rotateFrom_ending a conf.maxFiles rfl

theorem rotate_files {first : Files} {handed : List Bytes} (a : FileAnswers) {s : RotatingFile}
    (hname : s.file.filename = conf.numbered 0) (h : FilesSound conf first handed s.file.files) :
    FilesSound conf first handed (conf.rotate a s).1.file.files := by
  have hkept : KeptByRotation conf s.file.filename (FilesSound conf first handed) := by
    rw [hname]
    exact FilesSound.keptByRotation
  exact KeptByRotation.rotateFrom (s := { s with file := s.file.close }) a (Nat.le_refl _) hkept rfl h

/-- The files, and the sink if there is one. -/
structure SinkSound (conf : RotatingConf) (first : Files) (handed : List Bytes) (s : RotatingFile) : Prop where
  files : FilesSound conf first handed s.file.files
  working : s.alive → Working conf (byteCount (conf.stored first ++ handed)) s

theorem writeTo_of_open (a : FileAnswers) (formatted : Bytes) {s : RotatingFile}
    (hopen : s.file.fd = some (conf.numbered 0)) :
    ∃ err, writeTo a formatted s = some (s.setFiles (Function.update s.file.files (conf.numbered 0)
      (some (conf.shelf s.file.files 0 ++ [formatted.take a.taken]))), err) := by
  obtain ⟨⟨files, fd, filename⟩, currentSize, alive⟩ := s
  obtain rfl : fd = some (conf.numbered 0) := hopen
  exact ⟨_, rfl⟩

/-- A message is written to the base file, after it was counted. -/
theorem writeTo_sound {first : Files} {handed : List Bytes} (a : FileAnswers) (formatted : Bytes)
    {s : RotatingFile} (hfiles : FilesSound conf first handed s.file.files)
    (hname : s.file.filename = conf.numbered 0) (hopen : s.file.fd = some (conf.numbered 0))
    (hcount : s.currentSize ≤ byteCount (conf.stored first ++ (handed ++ [formatted])))
    (hroom : byteCount (conf.shelf s.file.files 0) + formatted.length ≤ s.currentSize)
    (hfits : s.currentSize ≤ conf.maxSize ∨ conf.shelf s.file.files 0 = []) :
    ∃ s' err, writeTo a formatted s = some (s', err) ∧ SinkSound conf first (handed ++ [formatted]) s' := by
  obtain ⟨err, hwrite⟩ := writeTo_of_open a formatted hopen
  have htaken : (formatted.take a.taken).length ≤ formatted.length := (List.take_prefix _ _).length_le
  have hsize : byteCount (conf.shelf s.file.files 0 ++ [formatted.take a.taken]) ≤ s.currentSize := by
    rw [byteCount_append, byteCount_singleton]
    omega
  refine ⟨_, err, hwrite, ?_, fun _ => ⟨hname, Or.inr hopen, ?_, ?_, hcount⟩⟩
  · apply hfiles.append (List.take_prefix _ _)
    rcases hfits with hlimit | hempty
    · exact Or.inl (Nat.le_trans hsize hlimit)
    · rw [hempty]
      exact Or.inr (Or.inl (Nat.le_refl 1))
  · intro hnone
    have hsome : s.file.fd = none := hnone
    rw [hopen] at hsome
    cases hsome
  · intro _
    have hshelf := shelf_update_self conf s.file.files 0
      (some (conf.shelf s.file.files 0 ++ [formatted.take a.taken]))
    show byteCount (conf.shelf (Function.update s.file.files _ _) 0) ≤ s.currentSize
    rw [hshelf]
    exact hsize

theorem sinkIt_sound {first : Files} {handed : List Bytes} (a : FileAnswers) (formatted : Bytes)
    {s : RotatingFile} (halive : s.alive) (h : SinkSound conf first handed s)
    (hbound : byteCount (conf.stored first ++ (handed ++ [formatted])) < 2 ^ 64) :
    ∃ s' err, conf.sinkIt a formatted s = some (s', err) ∧ SinkSound conf first (handed ++ [formatted]) s' := by
  have hworking := h.working halive
  have hcounted := hworking.counted
  rw [← List.append_assoc, byteCount_append, byteCount_singleton] at hbound
  have htotal : byteCount (conf.stored first ++ (handed ++ [formatted])) =
      byteCount (conf.stored first ++ handed) + formatted.length := by
    rw [← List.append_assoc, byteCount_append, byteCount_singleton]
  have hsum : (s.currentSize + formatted.length) % 2 ^ 64 = s.currentSize + formatted.length :=
    Nat.mod_eq_of_lt (by omega)
  unfold sinkIt
  rw [hsum]
  dsimp only
  by_cases hover : conf.maxSize < s.currentSize + formatted.length
  · rw [if_pos hover]
    generalize hcount : ({ s with currentSize := s.currentSize + formatted.length } : RotatingFile) = counted
    have hname : counted.file.filename = conf.numbered 0 := by rw [← hcount]; exact hworking.named
    have hfiles : FilesSound conf first handed counted.file.files := by rw [← hcount]; exact h.files
    have hsize : counted.currentSize = s.currentSize + formatted.length := by rw [← hcount]
    have hending := rotate_ending conf a counted
    have hrotated := rotate_files a hname hfiles
    have hafter : Working conf (byteCount (conf.stored first ++ (handed ++ [formatted])))
        (conf.rotate a counted).1 := by
      apply hending.working hname
      · show counted.currentSize ≤ _
        omega
      · intro _
        show conf.maxSize < counted.currentSize
        omega
    generalize hr : conf.rotate a counted = r at hending hrotated hafter ⊢
    obtain ⟨rotated, raised⟩ := r
    cases raised with
    | some err => exact ⟨rotated, some err, rfl, hrotated.skip [formatted], fun _ => hafter⟩
    | none =>
      have hempty : Emptied (conf.numbered 0) rotated.file := by
        cases hending with
        | rotated hempty _ => exact hname ▸ hempty
      have hshelf := shelf_of_emptied hempty
      apply writeTo_sound a formatted (s := { rotated with currentSize := formatted.length }) hrotated
        hafter.named hempty.1
      · show formatted.length ≤ _
        omega
      · show byteCount (conf.shelf rotated.file.files 0) + formatted.length ≤ formatted.length
        rw [hshelf]
        show 0 + formatted.length ≤ formatted.length
        omega
      · exact Or.inr hshelf
  · rw [if_neg hover]
    have hopen : s.file.fd = some (conf.numbered 0) := by
      apply hworking.opened.resolve_left
      intro hnone
      have hfull := hworking.unopened hnone
      omega
    have hsized := hworking.sized hopen
    apply writeTo_sound a formatted (s := { s with currentSize := s.currentSize + formatted.length }) h.files
      hworking.named hopen
    · show s.currentSize + formatted.length ≤ _
      omega
    · show byteCount (conf.shelf s.file.files 0) + formatted.length ≤ s.currentSize + formatted.length
      omega
    · apply Or.inl
      show s.currentSize + formatted.length ≤ conf.maxSize
      omega

theorem construct_sound {first files : Files} {handed : List Bytes} (rotateOnOpen : Bool) (a : FileAnswers)
    (h : FilesSound conf first handed files) :
    SinkSound conf first handed (conf.construct rotateOnOpen a files).1 := by
  unfold construct
  rcases FileHelper.openFile_cases (conf.numbered 0) false a.opens { files := files } with hopen | hfail
  · have hfiles : FilesSound conf first handed
        (Function.update files (conf.numbered 0) (some (conf.shelf files 0))) := by
      apply h.update (Nat.zero_le _)
      · rw [stored_open]
        exact h.kept
      · exact h.fits 0 (Nat.zero_le _)
    rw [hopen]
    dsimp only
    generalize hfile : FileHelper.fopen (conf.numbered 0) false _ = file
    have hnow : file.files = Function.update files (conf.numbered 0) (some (conf.shelf files 0)) := by
      rw [← hfile]
      rfl
    have hfd : file.fd = some (conf.numbered 0) := by rw [← hfile]; rfl
    have hname : file.filename = conf.numbered 0 := by rw [← hfile]; rfl
    rw [← hnow] at hfiles
    cases hsize : file.size a.stat with
    | error err => exact ⟨hfiles, by simp⟩
    | ok size =>
      have hcount : size = byteCount (conf.shelf file.files 0) := by
        unfold FileHelper.size at hsize
        rw [hfd] at hsize
        dsimp only at hsize
        split at hsize
        · exact (Except.ok.inj hsize).symm
        · cases hsize
      have htotal := hfiles.byteCount_shelf_le
      rw [← hcount] at htotal
      dsimp only
      split
      · generalize hs : ({ file, currentSize := size, alive := true } : RotatingFile) = s
        have hending := rotate_ending conf a s
        have hrotated := rotate_files (s := s) a (by rw [← hs]; exact hname)
          (by rw [← hs]; exact hfiles)
        generalize conf.rotate a s = r at hending hrotated ⊢
        obtain ⟨rotated, raised⟩ := r
        cases raised with
        | some err => exact ⟨hrotated, by simp⟩
        | none =>
          refine ⟨hrotated, fun _ => hending.working ?_ ?_ ?_⟩
          · rw [← hs]
            exact hname
          · rw [← hs]
            exact htotal
          · simp
      · refine ⟨hfiles, fun _ => ⟨hname, Or.inr hfd, ?_, ?_, htotal⟩⟩
        · intro hnone
          have hclosed : file.fd = none := hnone
          rw [hfd] at hclosed
          cases hclosed
        · intro _
          exact Nat.le_of_eq hcount.symm
  · rw [hfail]
    exact ⟨h, by simp⟩

/-- What one event keeps, as long as the bytes can be counted. -/
theorem step_sound {first : Files} {handed : List Bytes} {s s' : RotatingFile} {e : RotatingEvent}
    (h : SinkSound conf first handed s) (hstep : conf.step s e = some s')
    (hbound : byteCount (conf.stored first ++ (handed ++ e.handed)) < 2 ^ 64) :
    SinkSound conf first (handed ++ e.handed) s' := by
  cases e with
  | construct rotateOnOpen a =>
    obtain ⟨_, hnew⟩ := Option.ite_none_left_eq_some.mp hstep
    obtain rfl := Option.some.inj hnew
    have hsound := construct_sound rotateOnOpen a h.files
    rwa [← List.append_nil handed] at hsound
  | sinkIt formatted a =>
    obtain ⟨halive, hcall⟩ := Option.ite_none_right_eq_some.mp hstep
    obtain ⟨s₁, err, hsink, hsound⟩ := sinkIt_sound a formatted halive h hbound
    rw [hsink] at hcall
    obtain rfl := Option.some.inj hcall
    exact hsound
  | destroy =>
    obtain ⟨_, hend⟩ := Option.ite_none_right_eq_some.mp hstep
    obtain rfl := Option.some.inj hend
    have hfiles := h.files
    rw [← List.append_nil handed] at hfiles
    exact ⟨hfiles, by simp⟩

/-- Before the first sink. -/
def start (first : Files) : RotatingFile := { file := { files := first }, currentSize := 0, alive := false }

variable {first : Files} {es : List RotatingEvent} {s : RotatingFile}

theorem run_sound (h : Run conf.step AnyStep (start first) es s)
    (hbound : byteCount (conf.stored first ++ es.flatMap RotatingEvent.handed) < 2 ^ 64) :
    SinkSound conf first (es.flatMap RotatingEvent.handed) s := by
  induction h with
  | nil => exact ⟨FilesSound.start conf first, by simp [start]⟩
  | @snoc es s s' e _ _ hstep ih =>
    rw [List.flatMap_append, List.flatMap_singleton] at hbound ⊢
    have hbefore : byteCount (conf.stored first ++ es.flatMap RotatingEvent.handed) < 2 ^ 64 := by
      rw [← List.append_assoc, byteCount_append] at hbound
      omega
    exact step_sound (ih hbefore) hstep hbound

/-- Whatever the disk refuses: the files hold records of the first files and of the messages handed to the sinks,
in their order, each whole or cut short; no file that was written is over the limit, unless by a single message;
and the other files are left alone. -/
theorem rotating_history (h : Run conf.step AnyStep (start first) es s)
    (hbound : byteCount (conf.stored first ++ es.flatMap RotatingEvent.handed) < 2 ^ 64) :
    Kept (conf.stored s.file.files) (conf.stored first ++ es.flatMap RotatingEvent.handed) ∧
      (∀ i ≤ conf.maxFiles, conf.Fits first (conf.shelf s.file.files i)) ∧
      ∀ name, (∀ i ≤ conf.maxFiles, name ≠ conf.numbered i) → s.file.files name = first name := by
  have hsound := (run_sound h hbound).files
  exact ⟨hsound.kept, hsound.fits, hsound.others⟩

/-- A disk that answers. -/
def answering : FileAnswers where
  opens _ := true
  stat := true
  reopens _ := true
  sees _ := true
  removes _ _ := true
  renames _ _ := true
  taken := 8

/-- A disk on which no file can be renamed, and none opened anew. -/
def refusing : FileAnswers := { answering with renames := fun _ _ => false, reopens := fun _ => false }

def oneOlder : RotatingConf := { baseFilename := "log.txt".toList, maxSize := 4, maxFiles := 1 }

/-- The second message wants a rotation, which fails. -/
def refusedRotation : List RotatingEvent :=
  [.construct false answering, .sinkIt [1, 2, 3] answering, .sinkIt [4, 5] refusing]

theorem rotating_history_of_refused : ∃ s, Run oneOlder.step AnyStep (start fun _ => none) refusedRotation s ∧
    Kept (oneOlder.stored s.file.files) (oneOlder.stored (fun _ => none) ++ [[1, 2, 3], [4, 5]]) ∧
      (∀ i ≤ oneOlder.maxFiles, oneOlder.Fits (fun _ => none) (oneOlder.shelf s.file.files i)) ∧
      ∀ name, (∀ i ≤ oneOlder.maxFiles, name ≠ oneOlder.numbered i) → s.file.files name = none := by
  have hrun : Run oneOlder.step AnyStep (start fun _ => none) refusedRotation _ := Run.of_replay rfl
  exact ⟨_, hrun, rotating_history hrun (by decide)⟩

/-- No failure of the disk makes a sink write without an open file. -/
theorem rotating_opened (h : Run conf.step AnyStep (start first) es s) (halive : s.alive) (formatted : Bytes)
    (a : FileAnswers)
    (hbound : byteCount (conf.stored first ++ (es.flatMap RotatingEvent.handed ++ [formatted])) < 2 ^ 64) :
    ∃ s', conf.step s (.sinkIt formatted a) = some s' := by
  have hbefore : byteCount (conf.stored first ++ es.flatMap RotatingEvent.handed) < 2 ^ 64 := by
    rw [← List.append_assoc, byteCount_append] at hbound
    omega
  obtain ⟨s', err, hsink, _⟩ := sinkIt_sound a formatted halive (run_sound h hbefore) hbound
  refine ⟨s', ?_⟩
  show (if s.alive then (conf.sinkIt a formatted s).map Prod.fst else none) = some s'
  rw [if_pos halive, hsink]
  rfl

theorem rotating_opened_of_refused :
    ∃ s, Run oneOlder.step AnyStep (start fun _ => none) refusedRotation s ∧ s.file.fd = none ∧
      ∃ s', oneOlder.step s (.sinkIt [6] refusing) = some s' := by
  have hrun : Run oneOlder.step AnyStep (start fun _ => none) refusedRotation _ := Run.of_replay rfl
  exact ⟨_, hrun, rfl, rotating_opened hrun rfl [6] refusing (by decide)⟩

end RedisLuaLinux.Spdlog.RotatingConf
