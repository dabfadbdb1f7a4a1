import RedisLuaLinux.LinuxC.BatchTurn
import RedisLuaLinux.LinuxC.Echo
import RedisLuaLinux.LinuxC.ClientDispatch
import RedisLuaLinux.LinuxC.ClientForward

/-!
# Hang-ups

A descriptor that hangs up without data is dropped by the read callback, which the dispatcher calls
for `EPOLLIN` only. A bare hang-up is passed over and stays registered.

* `serverStep_turn`, `clientStep_turn`: the steps of both programs are turns.
* `hang_ups_dropped`: which records lead to a descriptor being dropped, for both programs.
-/

namespace RedisLuaLinux.LinuxC

open Library

/-- The record carries `EPOLLHUP` or `EPOLLERR`. -/
def ReportsHangUp (r : EpollRecord) : Prop := r.events &&& (epollHup ||| epollErr) ≠ 0

instance (r : EpollRecord) : Decidable (ReportsHangUp r) := inferInstanceAs (Decidable (_ ≠ _))

/-! ## The server -/

/-- The event lets bytes arrive at the stream. -/
def ServerFeeds (e : ServerEvent) (id : StreamId) : Prop := ∃ bytes, e = .arrive id bytes ∧ bytes ≠ []

/-- The batch is processed without another `epoll_wait`. -/
def ServerBusy (_ : ServerState) (e : ServerEvent) : Prop := ∀ rs, e ≠ .epollWait rs

/-- The records for which the server runs `client_read_callback`. -/
def ServerCloses (r : EpollRecord) (file : Option File) : Prop :=
  r.events &&& epollIn ≠ 0 ∧ file ≠ some .listener

/-- The listening socket is registered with `socket_accept_callback`, and all others with
`client_read_callback`; no object has a write callback. -/
structure ServerRoles (m : ServerState) : Prop where
  objects : ∀ ptr userEvent, m.heap ptr = some userEvent → userEvent.writeCallback = none
  accepts : ∀ fd entry userEvent, m.kernel.interest.lookup fd = some entry →
    m.heap entry.ptr = some userEvent →
      (m.kernel.files fd = some .listener ∧ userEvent.readCallback = some .socketAccept) ∨
      (m.kernel.files fd ≠ some .listener ∧ userEvent.readCallback = some .clientRead)

/-- A connection is closed, or data that waits there is read and echoed. -/
theorem clientReadCallback_outcome {ptr : Addr} {userEvent : SocketEvent ServerCallback}
    {m m' : ServerState} {io : ServerAnswers} (h : clientReadCallback ptr userEvent m io = some m') :
    (∃ granted, m' = { m with
      kernel := (socketEventOp granted m.kernel ptr userEvent .del).2.close userEvent.fd }) ∨
    (¬ NoData m.kernel userEvent.fd ∧ ∃ streams, Drains m.kernel streams ∧
      m' = { m with kernel := { m.kernel with streams := streams } }) := by
  cases io with
  | accepting => cases h
  | idle => cases h
  | reading readAnswer writeAnswer granted =>
    obtain ⟨⟨ret, bytes, k⟩, hread, h⟩ := Option.bind_eq_some_iff.mp h
    rcases Kernel.read_outcome hread with ⟨hret, rfl⟩ | ⟨hret, hdata, streams, hdrains, rfl⟩
    · left
      simp only [show ¬ 0 < ret by omega, if_false, ite_self, Option.some.injEq] at h
      exact ⟨granted, h.symm⟩
    · right
      simp only [if_pos hret] at h
      obtain ⟨⟨wret, k'⟩, hwrite, h⟩ := Option.bind_eq_some_iff.mp h
      obtain ⟨streams', hdrains', rfl⟩ := Kernel.write_outcome hwrite
      exact ⟨hdata, streams', fun id hempty => hdrains' id (hdrains id hempty), (Option.some.inj h).symm⟩

theorem serverMain_roles (l : ServerLaunch) : ServerRoles (serverMain l) := by
  have hfiles := (socketEventOp_files l.ctlGranted (serverKernel l) l.eventPtr (listenEvent l) .add).1
  refine ⟨?_, ?_⟩
  · intro ptr userEvent hheap
    have hheap : Function.update (fun _ => none) l.eventPtr (some (listenEvent l)) ptr = some userEvent := hheap
    rw [Function.update_apply] at hheap
    split at hheap
    · cases hheap
      rfl
    · cases hheap
  · intro fd entry userEvent hentry hheap
    rcases socketEventOp_add_lookup hentry with hnone | ⟨rfl, rfl⟩
    · cases hnone
    · have hobject : (serverMain l).heap l.eventPtr = some (listenEvent l) := by
        simp [serverMain]
      obtain rfl : listenEvent l = userEvent := Option.some.inj (hobject.symm.trans hheap)
      refine Or.inl ⟨?_, rfl⟩
      show (serverMain l).kernel.files l.listenFd = some .listener
      exact (congrFun hfiles l.listenFd).trans (if_pos rfl)

/-- A connection is accepted as `newFd`. -/
theorem ServerRoles.accept {m : ServerState} (hm : Registered m) (h : ServerRoles m) {newFd : Fd}
    {eventPtr : Addr} {granted : Bool} (userEvent : SocketEvent ServerCallback)
    (hfree : m.kernel.files newFd = none) (hfresh : m.heap eventPtr = none) :
    ServerRoles { m with
      heap := Function.update m.heap eventPtr (some (clientEventOf userEvent newFd))
      kernel := (socketEventOp granted (m.kernel.openStream newFd) eventPtr
        (clientEventOf userEvent newFd) .add).2 } := by
  have hfiles := (socketEventOp_files granted (m.kernel.openStream newFd) eventPtr
    (clientEventOf userEvent newFd) .add).1
  refine ⟨?_, ?_⟩
  · intro ptr object hheap
    have hheap : Function.update m.heap eventPtr (some (clientEventOf userEvent newFd)) ptr = some object := hheap
    rw [Function.update_apply] at hheap
    split at hheap
    · cases hheap
      rfl
    · exact h.objects ptr object hheap
  · intro fd entry object hentry hheap
    have hheap : Function.update m.heap eventPtr (some (clientEventOf userEvent newFd)) entry.ptr = some object :=
      hheap
    show (socketEventOp _ _ _ _ _).2.files fd = _ ∧ _ ∨ (socketEventOp _ _ _ _ _).2.files fd ≠ _ ∧ _
    rw [hfiles]
    show Function.update m.kernel.files newFd _ fd = _ ∧ _ ∨ Function.update m.kernel.files newFd _ fd ≠ _ ∧ _
    rcases socketEventOp_add_lookup hentry with hold | ⟨hfd, rfl⟩
    · obtain ⟨owner, howner⟩ := hm.owner fd entry hold
      have hne : fd ≠ newFd := by
        rintro rfl
        have hopen := howner.opened
        rw [hfree] at hopen
        cases hopen
      have hptr : entry.ptr ≠ eventPtr := by
        intro hptr
        have hobject := howner.object
        rw [hptr, hfresh] at hobject
        cases hobject
      rw [Function.update_of_ne hptr] at hheap
      rw [Function.update_of_ne hne]
      exact h.accepts fd entry object hold hheap
    · rw [Function.update_self] at hheap
      cases hheap
      have hfd : fd = newFd := hfd
      rw [hfd, Function.update_self]
      exact Or.inr ⟨nofun, rfl⟩

theorem serverRoles_step {m m' : ServerState} {e : ServerEvent} (hm : Registered m) (hr : ServerRoles m)
    (h : serverStep m e = some m') : ServerRoles m' := by
  rcases serverStep_cases h with ⟨id, bytes, k, -, hk, rfl⟩ | ⟨rs, -, -, -, rfl⟩ |
      ⟨io, r, rest, userEvent, -, hbatch, hheap, hcallback⟩
  · obtain ⟨f, rfl⟩ := Kernel.arrive_cases hk
    exact ⟨hr.objects, hr.accepts⟩
  · exact ⟨hr.objects, hr.accepts⟩
  · have htail : ServerRoles { m with batch := rest } := ⟨hr.objects, hr.accepts⟩
    rcases hcallback with hcb | hcb | ⟨-, rfl⟩
    · rcases socketAcceptCallback_cases hcb with ⟨-, -, -, rfl⟩ |
          ⟨newFd, eventPtr, granted, -, hfree, hfresh, rfl⟩
      · exact htail
      · exact htail.accept (hm.tail hbatch) userEvent hfree hfresh
    · obtain ⟨readAnswer, writeAnswer, granted, -, hread⟩ := clientReadCallback_cases hcb
      rcases hread with ⟨id, bytes, rest', taken, failed, -, -, -, rfl⟩ | rfl
      · exact ⟨hr.objects, hr.accepts⟩
      · obtain ⟨hfiles, -, -, -, hgone, -⟩ := close_after_del granted m.kernel r.ptr userEvent
        refine ⟨hr.objects, ?_⟩
        intro fd entry object hentry hobject
        have hne : fd ≠ userEvent.fd := by
          rintro rfl
          rw [hgone] at hentry
          cases hentry
        show (Kernel.close _ _).files fd = _ ∧ _ ∨ (Kernel.close _ _).files fd ≠ _ ∧ _
        rw [hfiles, Function.update_of_ne hne]
        exact hr.accepts fd entry object (close_after_del_lookup hentry) hobject
    · exact htail

/-- What holds in every state of the server. -/
structure ServerSound (m : ServerState) : Prop where
  registered : Registered m
  roles : ServerRoles m
  connections : Connections m

theorem server_sound {l : ServerLaunch} {es : List ServerEvent} {m : ServerState}
    (h : ServerRun l es m) : ServerSound m := by
  refine ⟨server_registered h, ?_, server_connections h⟩
  induction h with
  | nil => exact serverMain_roles l
  | snoc hr _ hs ih => exact serverRoles_step (server_registered hr) ih hs

theorem serverSound_step {m m' : ServerState} {e : ServerEvent} (hm : ServerSound m)
    (h : serverStep m e = some m') : ServerSound m' :=
  ⟨registered_step hm.registered h, serverRoles_step hm.registered hm.roles h,
    connections_step hm.connections h⟩

/-- A connection is accepted, or none. -/
theorem socketAcceptCallback_turn {m m' : ServerState} {r : EpollRecord} {rest : List EpollRecord}
    {userEvent : SocketEvent ServerCallback} {io : ServerAnswers} {Fed : StreamId → Prop}
    (hbatch : m.batch = r :: rest) (hlistener : m.kernel.files r.fd = some .listener)
    (h : socketAcceptCallback userEvent { m with batch := rest } io = some m') :
    Turn ServerCloses Fed (some r) m m' := by
  have hkeeps : ¬ ServerCloses r (m.kernel.files r.fd) := fun hcloses => hcloses.2 hlistener
  rcases socketAcceptCallback_cases h with ⟨-, -, -, rfl⟩ | ⟨newFd, eventPtr, granted, -, hfree, hfresh, rfl⟩
  · exact Turn.skip hbatch hkeeps
  · apply Turn.accept hbatch _ hfree hfresh hkeeps
    rw [hlistener]
    nofun

/-- A connection is echoed, or closed where it has no data. -/
theorem clientReadCallback_turn {m m' : ServerState} {r : EpollRecord} {rest : List EpollRecord}
    {userEvent : SocketEvent ServerCallback} {io : ServerAnswers} {Fed : StreamId → Prop}
    (hbatch : m.batch = r :: rest) (hfd : userEvent.fd = r.fd)
    (hcloses : ServerCloses r (m.kernel.files r.fd))
    (h : clientReadCallback r.ptr userEvent { m with batch := rest } io = some m') :
    Turn ServerCloses Fed (some r) m m' := by
  rcases clientReadCallback_outcome h with ⟨granted, rfl⟩ | ⟨hdata, streams, hdrains, rfl⟩
  · exact Turn.close hbatch hfd hcloses
  · rw [hfd] at hdata
    exact Turn.drain hbatch hdata hdrains

/-- Each step of the server between two calls of `epoll_wait` is a turn. -/
theorem serverStep_turn {m m' : ServerState} {e : ServerEvent} (hm : ServerSound m)
    (hbusy : ServerBusy m e) (h : serverStep m e = some m') :
    ∃ taken, Turn ServerCloses (ServerFeeds e) taken m m' := by
  cases e with
  | arrive id bytes =>
    obtain ⟨k, hk, rfl⟩ := Option.map_eq_some_iff.mp h
    refine ⟨none, Turn.arrive hk ?_⟩
    intro hbytes
    exact ⟨bytes, rfl, hbytes⟩
  | epollWait rs => exact absurd rfl (hbusy rs)
  | dispatch io =>
    simp only [serverStep, activeFdProcess] at h
    split at h
    · cases h
    · rename_i r rest hbatch
      refine ⟨some r, ?_⟩
      obtain ⟨userEvent, hheap, hcases⟩ := dispatchRecord_cases h
      obtain ⟨hvalid, -, -⟩ := hm.registered.taken hbatch hheap
      have hfd := hvalid.descriptor
      have hrole := hm.roles.accepts _ _ userEvent hvalid.registered hheap
      rw [hfd] at hrole
      rcases hcases with ⟨hin, callback, hcallback, hrun⟩ | ⟨-, -, callback, hcallback, -⟩ | ⟨hin, -, hidle⟩
      · rw [hcallback, Option.some.injEq, Option.some.injEq] at hrole
        rcases hrole with ⟨hlistener, rfl⟩ | ⟨hother, rfl⟩
        · exact socketAcceptCallback_turn hbatch hlistener hrun
        · exact clientReadCallback_turn hbatch hfd ⟨hin, hother⟩ hrun
      · rw [hm.roles.objects r.ptr userEvent hheap] at hcallback
        cases hcallback
      · split at hidle
        · cases hidle
          apply Turn.skip hbatch
          intro hcloses
          exact hcloses.1 hin
        · cases hidle

/-! ## The client -/

/-- The event lets bytes arrive at the stream. -/
def ClientFeeds (e : ClientEvent) (id : StreamId) : Prop := ∃ bytes, e = .arrive id bytes ∧ bytes ≠ []

def ClientBusy (_ : ClientState) (e : ClientEvent) : Prop := ∀ rs, e ≠ .epollWait rs

/-- The records for which the client runs one of its read callbacks. -/
def ClientCloses (r : EpollRecord) (_ : Option File) : Prop := r.events &&& epollIn ≠ 0

/-- The callbacks of an object. -/
structure ClientKind (userEvent : SocketEvent ClientCallback) : Prop where
  read : userEvent.readCallback = some .socketRead ∨ userEvent.readCallback = some .stdinRead
  write : userEvent.writeCallback = none ∨ userEvent.writeCallback = some .socketConnect ∨
    userEvent.writeCallback = some .socketWrite

/-- What holds in every state of the client, also where an `EPOLL_CTL_MOD` was refused. -/
structure ClientRoles (s : ClientState) : Prop where
  paired : Paired s.toMachine
  objects : ∀ ptr userEvent, s.heap ptr = some userEvent → ClientKind userEvent
  older : ∀ fd id, s.kernel.files fd = some (.stream id) → id < s.kernel.nextStream

/-- A read callback closes its descriptor, or takes data that waits there. -/
theorem clientRead_outcome {ptr : Addr} {userEvent : SocketEvent ClientCallback} {s s' : ClientState}
    {io : ClientAnswers} {callback : ClientCallback}
    (hread : callback = .socketRead ∨ callback = .stdinRead)
    (h : clientCallback ptr s io callback userEvent = some s') :
    (∃ granted, s' = { s with
      kernel := (socketEventOp granted s.kernel ptr userEvent .del).2.close userEvent.fd }) ∨
    (¬ NoData s.kernel userEvent.fd ∧ ∃ streams writes, Drains s.kernel streams ∧
      s' = { s with kernel := { s.kernel with streams := streams }, writes := writes }) := by
  rcases hread with rfl | rfl
  · cases io with
    | socket answer granted =>
      obtain ⟨⟨ret, bytes, k⟩, hread, h⟩ := Option.bind_eq_some_iff.mp h
      rcases Kernel.read_outcome hread with ⟨hret, rfl⟩ | ⟨hret, hdata, streams, hdrains, rfl⟩
      · left
        simp only [show ¬ 0 < ret by omega, if_false, ite_self, Option.some.injEq] at h
        exact ⟨granted, h.symm⟩
      · right
        simp only [if_pos hret, Option.some.injEq] at h
        exact ⟨hdata, streams, s.writes, hdrains, h.symm⟩
    | stdin => cases h
    | modifying => cases h
    | idle => cases h
  · cases io with
    | stdin answer write granted =>
      obtain ⟨⟨ret, bytes, k⟩, hread, h⟩ := Option.bind_eq_some_iff.mp h
      rcases Kernel.read_outcome hread with ⟨hret, rfl⟩ | ⟨hret, hdata, streams, hdrains, rfl⟩
      · left
        simp only [show ¬ 0 < ret by omega, if_false, Option.some.injEq] at h
        exact ⟨granted, h.symm⟩
      · right
        simp only [if_pos hret] at h
        obtain ⟨⟨wret, k'⟩, hwrite, h⟩ := Option.bind_eq_some_iff.mp h
        obtain ⟨streams', hdrains', rfl⟩ := Kernel.write_outcome hwrite
        have hboth : Drains s.kernel streams' := fun id hempty => hdrains' id (hdrains id hempty)
        exact ⟨hdata, streams', _, hboth, (Option.some.inj h).symm⟩
    | socket => cases h
    | modifying => cases h
    | idle => cases h

/-- What one dispatch of the client does. -/
theorem clientDispatch_cases {s s' : ClientState} {io : ClientAnswers} (hs : ClientRoles s)
    (h : clientStep s (.dispatch io) = some s') :
    ∃ r rest userEvent, s.batch = r :: rest ∧ s.heap r.ptr = some userEvent ∧ userEvent.fd = r.fd ∧
      ((r.events &&& epollIn ≠ 0 ∧ ∃ granted, s' = { s with
          batch := rest
          kernel := (socketEventOp granted s.kernel r.ptr userEvent .del).2.close userEvent.fd }) ∨
        (¬ NoData s.kernel r.fd ∧ ∃ streams writes, Drains s.kernel streams ∧
          s' = { s with batch := rest, kernel := { s.kernel with streams := streams }, writes := writes }) ∨
        (r.events &&& epollIn = 0 ∧ ∃ updated granted calls,
          updated.fd = userEvent.fd ∧ ClientKind updated ∧
          s' = { s with
            batch := rest
            outCalls := calls
            heap := Function.update s.heap r.ptr (some updated)
            kernel := (socketEventOp granted s.kernel r.ptr updated .mod).2 }) ∨
        (r.events &&& epollIn = 0 ∧ s' = { s with batch := rest })) := by
  simp only [clientStep, clientActiveFdProcess] at h
  split at h
  · cases h
  · rename_i r rest hbatch
    obtain ⟨userEvent, hheap, hcases⟩ := dispatchRecord_cases h
    have hr : r ∈ s.batch := by
      rw [hbatch]
      exact List.mem_cons_self
    obtain ⟨owner, howner, hfd⟩ := hs.paired.object hr
    obtain rfl : owner = userEvent := Option.some.inj (howner.symm.trans hheap)
    refine ⟨r, rest, owner, hbatch, hheap, hfd, ?_⟩
    have hkind := hs.objects r.ptr owner hheap
    rcases hcases with ⟨hin, callback, hcallback, hrun⟩ | ⟨hin, -, callback, hcallback, hrun⟩ |
        ⟨hin, -, hidle⟩
    · have hread := hkind.read
      rw [hcallback, Option.some.injEq, Option.some.injEq] at hread
      rcases clientRead_outcome hread hrun with hclosed | ⟨hdata, hstreams⟩
      · exact Or.inl ⟨hin, hclosed⟩
      · rw [hfd] at hdata
        exact Or.inr (Or.inl ⟨hdata, hstreams⟩)
    · have hwrite := hkind.write
      rw [hcallback, Option.some.injEq, Option.some.injEq] at hwrite
      right
      right
      left
      refine ⟨hin, ?_⟩
      rcases clientCallback_cases hrun with ⟨hread, -⟩ | ⟨updated, granted, -, hupdated, rfl⟩
      · rcases hwrite with hwrite | rfl | rfl
        · cases hwrite
        · rcases hread with hread | hread <;> cases hread
        · rcases hread with hread | hread <;> cases hread
      · refine ⟨updated, granted, _, ?_, ?_, rfl⟩
        · rcases hupdated with ⟨-, rfl⟩ | ⟨-, rfl⟩ <;> rfl
        · rcases hupdated with ⟨-, rfl⟩ | ⟨-, rfl⟩
          · exact ⟨hkind.read, Or.inr (Or.inr rfl)⟩
          · exact ⟨hkind.read, hkind.write⟩
    · split at hidle
      · exact Or.inr (Or.inr (Or.inr ⟨hin, (Option.some.inj hidle).symm⟩))
      · cases hidle

theorem clientMain_roles (l : ClientLaunch) : ClientRoles (clientMain l) := by
  refine ⟨(clientMain_registered l).paired, ?_, ?_⟩
  · intro ptr userEvent hheap
    have hheap : Function.update (Function.update (fun _ => none) l.socketPtr (some (socketEvent l)))
        l.stdinPtr (some (stdinEvent l)) ptr = some userEvent := hheap
    rw [Function.update_apply, Function.update_apply] at hheap
    split at hheap
    · cases hheap
      exact ⟨Or.inr rfl, Or.inl rfl⟩
    · split at hheap
      · cases hheap
        exact ⟨Or.inl rfl, Or.inr (Or.inl rfl)⟩
      · cases hheap
  · intro fd id hfile
    have hfiles : (clientMain l).kernel.files = (clientKernel l).files := by
      unfold clientMain
      dsimp only
      rw [(socketEventOp_files _ _ _ _ _).1, (socketEventOp_files _ _ _ _ _).1]
    have hnext : (clientMain l).kernel.nextStream = 2 := by
      unfold clientMain
      dsimp only
      rw [(socketEventOp_files _ _ _ _ _).2, (socketEventOp_files _ _ _ _ _).2]
      rfl
    rw [hfiles] at hfile
    rw [hnext]
    simp only [clientKernel] at hfile
    split_ifs at hfile <;> cases hfile <;> decide

theorem clientRoles_step {s s' : ClientState} {e : ClientEvent} (hs : ClientRoles s)
    (h : clientStep s e = some s') : ClientRoles s' := by
  cases e with
  | arrive id bytes =>
    obtain ⟨k, hk, rfl⟩ := Option.map_eq_some_iff.mp h
    obtain ⟨f, rfl⟩ := Kernel.arrive_cases hk
    exact ⟨hs.paired.frame rfl rfl, hs.objects, hs.older⟩
  | establish =>
    cases h
    exact ⟨hs.paired.frame rfl rfl, hs.objects, hs.older⟩
  | epollWait rs =>
    simp only [clientStep] at h
    split at h
    · rename_i hrs
      cases h
      exact ⟨hs.paired.wait hrs.2, hs.objects, hs.older⟩
    · cases h
  | dispatch io =>
    obtain ⟨r, rest, userEvent, hbatch, hheap, hfd, hcases⟩ := clientDispatch_cases hs h
    have htail := hs.paired.tail hbatch
    have hothers : ∀ r' ∈ rest, r'.fd ≠ userEvent.fd := by
      rw [hfd]
      exact hs.paired.head_ne hbatch
    rcases hcases with ⟨-, granted, rfl⟩ | ⟨-, streams, writes, -, rfl⟩ |
        ⟨-, updated, granted, calls, hupdated, hkind, rfl⟩ | ⟨-, rfl⟩
    · refine ⟨htail.remove granted r.ptr userEvent hothers, hs.objects, ?_⟩
      obtain ⟨hfiles, -, -, hnext, -⟩ := close_after_del granted s.kernel r.ptr userEvent
      intro fd id hfile
      have hfile : (Kernel.close _ _).files fd = some (.stream id) := hfile
      show id < (Kernel.close _ _).nextStream
      rw [hnext]
      rw [hfiles, Function.update_apply] at hfile
      split at hfile
      · cases hfile
      · exact hs.older fd id hfile
    · exact ⟨htail.frame rfl rfl, hs.objects, hs.older⟩
    · refine ⟨htail.modify granted hheap hupdated hothers, ?_, ?_⟩
      · intro ptr object hobject
        have hobject : Function.update s.heap r.ptr (some updated) ptr = some object := hobject
        rw [Function.update_apply] at hobject
        split at hobject
        · cases hobject
          exact hkind
        · exact hs.objects ptr object hobject
      · intro fd id hfile
        obtain ⟨hfiles, hnext⟩ := socketEventOp_files granted s.kernel r.ptr updated .mod
        have hfile : (socketEventOp granted s.kernel r.ptr updated .mod).2.files fd = some (.stream id) := hfile
        show id < (socketEventOp _ _ _ _ _).2.nextStream
        rw [hfiles] at hfile
        rw [hnext]
        exact hs.older fd id hfile
    · exact ⟨htail, hs.objects, hs.older⟩

theorem client_roles {l : ClientLaunch} {es : List ClientEvent} {s : ClientState}
    (h : AnyClientRun l es s) : ClientRoles s :=
  h.invariant (clientMain_roles l) fun _ _ _ hs _ hstep => clientRoles_step hs hstep

/-- Each step of the client between two calls of `epoll_wait` is a turn. -/
theorem clientStep_turn {s s' : ClientState} {e : ClientEvent} (hs : ClientRoles s)
    (hbusy : ClientBusy s e) (h : clientStep s e = some s') :
    ∃ taken, Turn ClientCloses (ClientFeeds e) taken s.toMachine s'.toMachine := by
  cases e with
  | arrive id bytes =>
    obtain ⟨k, hk, rfl⟩ := Option.map_eq_some_iff.mp h
    refine ⟨none, Turn.arrive hk ?_⟩
    intro hbytes
    exact ⟨bytes, rfl, hbytes⟩
  | establish =>
    cases h
    refine ⟨none, Turn.same rfl rfl rfl rfl rfl ?_ nofun⟩
    intro id _ hempty
    show ((s.kernel.mapStream socketStream fun st => { st with established := true }).streams id).inbound = []
    rw [Kernel.mapStream_streams]
    split
    · exact hempty
    · exact hempty
  | epollWait rs => exact absurd rfl (hbusy rs)
  | dispatch io =>
    obtain ⟨r, rest, userEvent, hbatch, hheap, hfd, hcases⟩ := clientDispatch_cases hs h
    refine ⟨some r, ?_⟩
    rcases hcases with ⟨hin, granted, rfl⟩ | ⟨hdata, streams, writes, hdrains, rfl⟩ |
        ⟨hin, updated, granted, calls, hupdated, -, rfl⟩ | ⟨hin, rfl⟩
    · exact Turn.close hbatch hfd hin
    · exact Turn.drain hbatch hdata hdrains
    · apply Turn.modify hbatch (hupdated.trans hfd)
      intro hcloses
      exact hcloses hin
    · apply Turn.skip hbatch
      intro hcloses
      exact hcloses hin

/-! ## Hang-ups -/

/-- The descriptors that the server drops in a batch. -/
theorem server_dropped_iff {l : ServerLaunch} {es es' : List ServerEvent} {m m₁ m₂ : ServerState}
    {rs : List EpollRecord} {r : EpollRecord} (h : ServerRun l es m)
    (hwait : serverStep m (.epollWait rs) = some m₁) (h' : Run serverStep ServerBusy m₁ es' m₂)
    (hdone : m₂.batch = []) (hr : r ∈ rs)
    (hdata : NoMoreData m.kernel r.fd fun id => ∃ e ∈ es', ServerFeeds e id) :
    Dropped m.kernel m₂.kernel r ↔ ServerCloses r (m.kernel.files r.fd) := by
  have hs := serverSound_step (server_sound h) hwait
  obtain ⟨hkernel, hbatch⟩ : m₁.kernel = m.kernel ∧ m₁.batch = rs := by
    simp only [serverStep] at hwait
    split at hwait
    · cases hwait
      exact ⟨rfl, rfl⟩
    · cases hwait
  have hturn : ∀ m e m', ServerSound m → ServerBusy m e → serverStep m e = some m' →
      ∃ taken, Turn ServerCloses (ServerFeeds e) taken m m' :=
    fun _ _ _ hs hbusy hstep => serverStep_turn hs hbusy hstep
  rw [← hbatch] at hr
  rw [← hkernel] at hdata ⊢
  exact batch_dropped_iff (fun _ _ _ hs hstep => serverSound_step hs hstep)
    (fun _ hs => hs.registered.paired) hturn h' hs hr hdone
    (fun id hid => hs.connections.bound r.fd id hid) hdata

/-- The descriptors that the client drops in a batch. -/
theorem client_dropped_iff {l : ClientLaunch} {es es' : List ClientEvent} {s s₁ s₂ : ClientState}
    {rs : List EpollRecord} {r : EpollRecord} (h : AnyClientRun l es s)
    (hwait : clientStep s (.epollWait rs) = some s₁) (h' : Run clientStep ClientBusy s₁ es' s₂)
    (hdone : s₂.batch = []) (hr : r ∈ rs)
    (hdata : NoMoreData s.kernel r.fd fun id => ∃ e ∈ es', ClientFeeds e id) :
    Dropped s.kernel s₂.kernel r ↔ ClientCloses r (s.kernel.files r.fd) := by
  have hs := clientRoles_step (client_roles h) hwait
  obtain ⟨hkernel, hbatch⟩ : s₁.kernel = s.kernel ∧ s₁.batch = rs := by
    simp only [clientStep] at hwait
    split at hwait
    · cases hwait
      exact ⟨rfl, rfl⟩
    · cases hwait
  have hturn : ∀ s e s', ClientRoles s → ClientBusy s e → clientStep s e = some s' →
      ∃ taken, Turn ClientCloses (ClientFeeds e) taken s.toMachine s'.toMachine :=
    fun _ _ _ hs hbusy hstep => clientStep_turn hs hbusy hstep
  rw [← hbatch] at hr
  rw [← hkernel] at hdata ⊢
  exact batch_dropped_iff (fun _ _ _ hs hstep => clientRoles_step hs hstep) (fun _ hs => hs.paired)
    hturn h' hs hr hdone (fun id hid => hs.older r.fd id hid) hdata

/-- In every batch, a descriptor that hangs up without data is dropped if and only if its record
carries `EPOLLIN` as well, and it is not the listening socket of the server. -/
theorem hang_ups_dropped (r : EpollRecord) (_ : ReportsHangUp r) :
    (∀ l es m rs m₁ es' m₂, ServerRun l es m → serverStep m (.epollWait rs) = some m₁ →
      Run serverStep ServerBusy m₁ es' m₂ → m₂.batch = [] → r ∈ rs →
      NoMoreData m.kernel r.fd (fun id => ∃ e ∈ es', ServerFeeds e id) →
      (Dropped m.kernel m₂.kernel r ↔
        r.events &&& epollIn ≠ 0 ∧ m.kernel.files r.fd ≠ some .listener)) ∧
    ∀ l es s rs s₁ es' s₂, AnyClientRun l es s → clientStep s (.epollWait rs) = some s₁ →
      Run clientStep ClientBusy s₁ es' s₂ → s₂.batch = [] → r ∈ rs →
      NoMoreData s.kernel r.fd (fun id => ∃ e ∈ es', ClientFeeds e id) →
      (Dropped s.kernel s₂.kernel r ↔ r.events &&& epollIn ≠ 0) := by
  constructor
  · intro l es m rs m₁ es' m₂ h hwait h' hdone hr hdata
    exact server_dropped_iff h hwait h' hdone hr hdata
  · intro l es s rs s₁ es' s₂ h hwait h' hdone hr hdata
    exact client_dropped_iff h hwait h' hdone hr hdata

theorem clientLaunchExample_noMoreData {es : List ClientEvent} (hes : ∀ id bytes, .arrive id bytes ∉ es) :
    NoMoreData (clientMain clientLaunchExample).kernel 0 fun id => ∃ e ∈ es, ClientFeeds e id := by
  intro id hid
  have hstdin : some (File.stream stdinStream) = some (.stream id) := hid
  cases hstdin
  refine ⟨rfl, ?_⟩
  rintro ⟨e, he, bytes, rfl, -⟩
  exact hes _ _ he

/-- The writer of standard input has gone, and the record carries `EPOLLIN` as well. -/
theorem hang_ups_dropped_example :
    ∃ s₁ s₂, clientStep (clientMain clientLaunchExample) (.epollWait [⟨0, epollIn ||| epollHup, 1⟩]) = some s₁ ∧
      Run clientStep ClientBusy s₁ [.dispatch (.stdin .eof .full true)] s₂ ∧ s₂.batch = [] ∧
      Dropped (clientMain clientLaunchExample).kernel s₂.kernel ⟨0, epollIn ||| epollHup, 1⟩ := by
  have hreplay : ((clientStep (clientMain clientLaunchExample) (.epollWait [⟨0, epollIn ||| epollHup, 1⟩])).bind
      fun s₁ => (replay clientStep s₁ [.dispatch (.stdin .eof .full true)]).map fun s₂ => s₂.batch) =
      some [] := by
    decide
  obtain ⟨s₁, hwait, hrest⟩ := Option.bind_eq_some_iff.mp hreplay
  obtain ⟨s₂, hs₂, hdone⟩ := Option.map_eq_some_iff.mp hrest
  have hrun : Run clientStep ClientBusy s₁ [.dispatch (.stdin .eof .full true)] s₂ :=
    Run.of_replay_admits (by simp [ClientBusy]) hs₂
  refine ⟨s₁, s₂, hwait, hrun, hdone, ?_⟩
  exact ((hang_ups_dropped ⟨0, epollIn ||| epollHup, 1⟩ (by decide)).2 clientLaunchExample [] _ _ s₁ _ s₂
    Run.nil hwait hrun hdone List.mem_cons_self (clientLaunchExample_noMoreData (by simp))).mpr (by decide)

/-- The writer of standard input has gone, and the record carries nothing else: the client is back
in the state in which the record was reported. -/
theorem hang_ups_dropped_fails :
    ∃ s₁, clientStep (clientMain clientLaunchExample) (.epollWait [⟨0, epollHup, 1⟩]) = some s₁ ∧
      Run clientStep ClientBusy s₁ [.dispatch .idle] (clientMain clientLaunchExample) ∧
      ReportsHangUp ⟨0, epollHup, 1⟩ ∧
      NoMoreData (clientMain clientLaunchExample).kernel 0
        (fun id => ∃ e ∈ [ClientEvent.dispatch .idle], ClientFeeds e id) ∧
      ¬ Dropped (clientMain clientLaunchExample).kernel (clientMain clientLaunchExample).kernel
        ⟨0, epollHup, 1⟩ := by
  have hreturns : (clientMain clientLaunchExample).batch = [] ∧
      (clientMain clientLaunchExample).kernel.Batch recvEpEventMax [⟨0, epollHup, 1⟩] := by
    decide
  have hwait : clientStep (clientMain clientLaunchExample) (.epollWait [⟨0, epollHup, 1⟩]) =
      some { clientMain clientLaunchExample with batch := [⟨0, epollHup, 1⟩] } := by
    simp only [clientStep]
    rw [if_pos hreturns]
  refine ⟨_, hwait, Run.snoc Run.nil (by simp [ClientBusy]) rfl, by decide, clientLaunchExample_noMoreData (by simp), ?_⟩
  intro hdropped
  exact hdropped.1 rfl

end RedisLuaLinux.LinuxC
