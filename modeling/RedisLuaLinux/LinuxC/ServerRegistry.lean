import RedisLuaLinux.LinuxC.Server

/-!
# The registry of the server

* `server_registered`: in every reachable state every entry of the interest list belongs
  to a live object, for any answers of `epoll_ctl`.
* `attended_iff`: every accepted descriptor that is open is registered exactly as long as
  no `EPOLL_CTL_ADD` of the run was refused. A refused one is dropped by the wrapper, and
  its descriptor stays open and unregistered for the rest of the run.
-/

namespace RedisLuaLinux.LinuxC

open Library

theorem serverMain_registered (l : ServerLaunch) : Registered (serverMain l) := by
  let bare : ServerState :=
    ⟨serverKernel l, Function.update (fun _ => none) l.eventPtr (some (listenEvent l)), []⟩
  have hbare : Registered bare := Registered.empty rfl rfl
  have hobject : bare.heap l.eventPtr = some (listenEvent l) := by simp [bare]
  exact hbare.add l.ctlGranted hobject rfl
    ⟨nofun, fun hout => absurd epollIn_and_epollOut hout⟩

theorem registered_step {m m' : ServerState} {e : ServerEvent} (hm : Registered m)
    (h : serverStep m e = some m') : Registered m' := by
  rcases serverStep_cases h with ⟨id, bytes, k, -, hk, rfl⟩ | ⟨rs, -, -, hrs, rfl⟩ |
      ⟨io, r, rest, userEvent, -, hbatch, hheap, hcallback⟩
  · exact hm.arrive hk
  · exact hm.wait hrs
  · have htail := hm.tail hbatch
    obtain ⟨-, hepoll, hothers⟩ := hm.taken hbatch hheap
    rcases hcallback with hcb | hcb | ⟨-, rfl⟩
    · rcases socketAcceptCallback_cases hcb with ⟨-, -, -, rfl⟩ |
          ⟨newFd, eventPtr, granted, -, hfree, hfresh, rfl⟩
      · exact htail
      · have hopened : Registered { m with batch := rest, kernel := m.kernel.openStream newFd } :=
          htail.frame rfl rfl (fun _ => Kernel.openStream_isSome)
        exact (hopened.store hfresh (clientEventOf userEvent newFd)).add granted
          (Function.update_self _ _ _) hepoll ⟨nofun, fun hout => absurd epollIn_and_epollOut hout⟩
    · obtain ⟨readAnswer, writeAnswer, granted, -, hread⟩ := clientReadCallback_cases hcb
      rcases hread with ⟨id, bytes, rest', taken, failed, -, -, -, rfl⟩ | rfl
      · exact htail.frame rfl rfl (fun _ hopen => hopen)
      · exact htail.remove granted r.ptr userEvent hothers
    · exact htail

/-- The registry invariant holds in every reachable state of the server. -/
theorem server_registered {l : ServerLaunch} {es : List ServerEvent} {s : ServerState}
    (h : ServerRun l es s) : Registered s :=
  h.invariant (serverMain_registered l) fun _ _ _ hm _ hs => registered_step hm hs

/-! ## Accepted descriptors -/

/-- An accepted descriptor that is open and that the loop can never see. -/
def Unattended (m : ServerState) : Prop :=
  ∃ fd id, m.kernel.files fd = some (.stream id) ∧ m.kernel.interest.lookup fd = none

/-- Every accepted descriptor that is open is registered with epoll. -/
def Attended (m : ServerState) : Prop :=
  ∀ fd id, m.kernel.files fd = some (.stream id) → (m.kernel.interest.lookup fd).isSome

/-- The step accepts a connection and its `EPOLL_CTL_ADD` is refused. -/
def AddRefused (e : ServerEvent) : Prop :=
  ∃ newFd eventPtr, e = .dispatch (.accepting (some newFd) eventPtr false)

theorem attended_iff_not_unattended (m : ServerState) : Attended m ↔ ¬ Unattended m := by
  simp only [Attended, Unattended, not_exists, not_and, Option.isSome_iff_ne_none, ne_eq]

/-- A free descriptor is not registered. -/
theorem Registered.lookup_free {m : Machine κ} (hm : Registered m) {fd : Fd}
    (hfree : m.kernel.files fd = none) : m.kernel.interest.lookup fd = none := by
  cases hl : m.kernel.interest.lookup fd with
  | none => rfl
  | some entry =>
    obtain ⟨owner, ho⟩ := hm.owner fd entry hl
    have := ho.opened
    rw [hfree] at this
    cases this

/-- One step loses a descriptor exactly when it accepts one and the registration is
refused; a lost one stays lost, since only dispatched descriptors are closed. -/
theorem unattended_step {m m' : ServerState} {e : ServerEvent} (hm : Registered m)
    (h : serverStep m e = some m') : Unattended m' ↔ Unattended m ∨ AddRefused e := by
  rcases serverStep_cases h with ⟨id, bytes, k, rfl, hk, rfl⟩ | ⟨rs, rfl, -, -, rfl⟩ |
      ⟨io, r, rest, userEvent, rfl, hbatch, hheap, hcallback⟩
  · obtain ⟨f, rfl⟩ := Kernel.arrive_cases hk
    simp [Unattended, AddRefused, Kernel.mapStream]
  · simp [Unattended, AddRefused]
  · obtain ⟨hvalid, hepoll, -⟩ := hm.taken hbatch hheap
    rcases hcallback with hcb | hcb | ⟨rfl, rfl⟩
    · rcases socketAcceptCallback_cases hcb with ⟨eventPtr, granted, rfl, rfl⟩ |
          ⟨newFd, eventPtr, granted, rfl, hfree, hfresh, rfl⟩
      · simp [Unattended, AddRefused]
      · have hnone := hm.lookup_free hfree
        have hfree' : m.kernel.files newFd = none := hfree
        cases granted with
        | false =>
          -- the new descriptor itself is lost
          refine iff_of_true ⟨newFd, m.kernel.nextStream, ?_, ?_⟩ (Or.inr ⟨newFd, eventPtr, rfl⟩)
          · simp [socketEventOp, socketUtilEpollEventOpUser, Kernel.epollCtl, Kernel.openStream]
          · simpa [socketEventOp, socketUtilEpollEventOpUser, Kernel.epollCtl, Kernel.openStream]
              using hnone
        | true =>
          have hadd : (socketEventOp true (m.kernel.openStream newFd) eventPtr
              (clientEventOf userEvent newFd) .add).2 =
              { m.kernel.openStream newFd with
                interest := m.kernel.interest.insert newFd ⟨epollIn, eventPtr⟩ } := by
            unfold socketEventOp socketUtilEpollEventOpUser clientEventOf
            rw [hepoll]
            exact congrArg Prod.snd
              (Kernel.epollCtl_add_granted (m.kernel.openStream newFd) _ (by simp [Kernel.openStream]) hnone)
          dsimp only
          rw [hadd]
          constructor
          · rintro ⟨fd, id, hfile, hlookup⟩
            have hne : fd ≠ newFd := by
              rintro rfl
              simp at hlookup
            left
            refine ⟨fd, id, ?_, ?_⟩
            · simpa [Kernel.openStream, Function.update_of_ne hne] using hfile
            · simpa [AList.lookup_insert_ne hne] using hlookup
          · rintro (⟨fd, id, hfile, hlookup⟩ | ⟨_, _, hrefused⟩)
            · have hne : fd ≠ newFd := by
                rintro rfl
                rw [hfree'] at hfile
                cases hfile
              refine ⟨fd, id, ?_, ?_⟩
              · simpa [Kernel.openStream, Function.update_of_ne hne] using hfile
              · simpa [AList.lookup_insert_ne hne] using hlookup
            · simp at hrefused
    · obtain ⟨readAnswer, writeAnswer, granted, rfl, hread⟩ := clientReadCallback_cases hcb
      rcases hread with ⟨id, bytes, rest', taken, failed, -, -, -, rfl⟩ | rfl
      · simp [Unattended, AddRefused, Kernel.mapStream]
      · obtain ⟨hfiles, -, -, -, hgone, hothers⟩ :=
          close_after_del granted m.kernel r.ptr userEvent
        constructor
        · rintro ⟨fd, id, hfile, hlookup⟩
          dsimp only at hfile hlookup
          rw [hfiles] at hfile
          have hne : fd ≠ userEvent.fd := by
            rintro rfl
            simp at hfile
          exact Or.inl ⟨fd, id, by simpa [Function.update_of_ne hne] using hfile,
            (hothers fd hne).symm.trans hlookup⟩
        · rintro (⟨fd, id, hfile, hlookup⟩ | ⟨_, _, hrefused⟩)
          · have hne : fd ≠ userEvent.fd := by
              rintro rfl
              rw [hvalid.registered] at hlookup
              cases hlookup
            refine ⟨fd, id, ?_, (hothers fd hne).trans hlookup⟩
            dsimp only
            rw [hfiles, Function.update_of_ne hne]
            exact hfile
          · simp at hrefused
    · simp [Unattended, AddRefused]

theorem serverMain_attended (l : ServerLaunch) : Attended (serverMain l) := by
  intro fd id hfile
  have hkernel : (serverMain l).kernel.files = (serverKernel l).files :=
    (socketEventOp_files _ _ _ _ _).1
  rw [hkernel] at hfile
  simp only [serverKernel] at hfile
  split_ifs at hfile <;> cases hfile

/-- After every run, every accepted descriptor that is open is registered if and only if
no registration of an accepted descriptor was refused in the run. -/
theorem attended_iff {l : ServerLaunch} {es : List ServerEvent} {s : ServerState}
    (h : ServerRun l es s) : Attended s ↔ ∀ e ∈ es, ¬ AddRefused e := by
  induction h with
  | nil => exact iff_of_true (serverMain_attended l) (fun _ he => absurd he List.not_mem_nil)
  | snoc hr _ hs ih =>
    rw [attended_iff_not_unattended] at ih ⊢
    rw [unattended_step (server_registered hr) hs, not_or, ih]
    simp only [List.mem_append, List.mem_singleton, or_imp, forall_and, forall_eq]

/-- A client connects and the server accepts it as descriptor 5. -/
def acceptRun (granted : Bool) : List ServerEvent :=
  [.epollWait [⟨3, epollIn, 0⟩], .dispatch (.accepting (some 5) 1 granted)]

theorem attended_iff_example :
    ∃ s, ServerRun launchExample (acceptRun true) s ∧ s.kernel.files 5 = some (.stream 0) ∧
      Attended s := by
  have hreplay : (replay serverStep (serverMain launchExample) (acceptRun true)).map
      (fun s => s.kernel.files 5) = some (some (.stream 0)) := by decide
  obtain ⟨s, hs, hfile⟩ := Option.map_eq_some_iff.mp hreplay
  refine ⟨s, Run.of_replay hs, hfile, (attended_iff (Run.of_replay hs)).mpr ?_⟩
  simp [acceptRun, AddRefused]

/-- The kernel refuses the registration, as it does when the user's limit on epoll watches
is reached: the connection stays open and is never seen again. -/
theorem not_attended_example :
    ∃ s, ServerRun launchExample (acceptRun false) s ∧ s.batch = [] ∧ ¬ Attended s := by
  have hreplay : (replay serverStep (serverMain launchExample) (acceptRun false)).map
      (fun s => (s.batch, s.kernel.files 5, s.kernel.interest.lookup 5)) =
      some ([], some (.stream 0), none) := by decide
  obtain ⟨s, hs, hobs⟩ := Option.map_eq_some_iff.mp hreplay
  simp only [Prod.mk.injEq] at hobs
  refine ⟨s, Run.of_replay hs, hobs.1, fun h => ?_⟩
  have hsome := h 5 0 hobs.2.1
  rw [hobs.2.2] at hsome
  cases hsome

end RedisLuaLinux.LinuxC
