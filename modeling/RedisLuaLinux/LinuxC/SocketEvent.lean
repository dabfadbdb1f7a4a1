import RedisLuaLinux.LinuxC.Kernel

/-!
# Event objects and the dispatch loop

`socket_handler.c`, `socket_util.c` and what `server.c` and `client.c` share: the heap
object `socket_event_t`, the two wrappers around `epoll_ctl`, and the body of the loop
over the records of one `epoll_wait`.

`Registered` is the invariant of both programs: every entry of the interest list points
to a live object for the same descriptor, with the same mask and callable callbacks, and
the records not dispatched yet are still the ones `epoll_wait` could report.
`Registered.dispatchValid` reads it at the moment a record is dispatched.
-/

namespace RedisLuaLinux.LinuxC

/-- `socket_event_t`; `κ` names the callbacks of the program. `none` is `NULL`. -/
structure SocketEvent (κ : Type) where
  fd : Fd
  epollFd : Fd
  events : Mask
  readCallback : Option κ
  writeCallback : Option κ
  deriving DecidableEq, Repr

/-- The state both programs share. `batch` holds the records of the last `epoll_wait`
that were not dispatched yet. -/
structure Machine (κ : Type) where
  kernel : Kernel
  heap : Addr → Option (SocketEvent κ)
  batch : List EpollRecord

def recvEpEventMax : Nat := 64
def readBufMax : Nat := 1024

variable {κ : Type}

/-- The result of `epoll_ctl` is dropped: the wrapper always returns `0`. -/
def socketUtilEpollEventOpUser (granted : Bool) (k : Kernel) (epollFd : Fd) (operation : CtlOp)
    (fd : Fd) (events : Mask) (userDataPtr : Addr) : Int × Kernel :=
  (0, (k.epollCtl granted epollFd operation fd ⟨events, userDataPtr⟩).2)

def socketEventOp (granted : Bool) (k : Kernel) (ptr : Addr) (userEvent : SocketEvent κ)
    (operation : CtlOp) : Int × Kernel :=
  socketUtilEpollEventOpUser granted k userEvent.epollFd operation userEvent.fd userEvent.events ptr

/-- The buffer after `read` has stored `bytes` at its start; it was zeroed before. -/
def filledBuf (bytes : List Byte) : List Byte :=
  bytes ++ List.replicate (readBufMax - bytes.length) 0

/-- One iteration of the dispatch loop: `EPOLLIN` hides `EPOLLOUT`, other bits are not
looked at. `none` is a call through `NULL` or a dangling pointer. -/
def dispatchRecord {σ : Type} (heap : Addr → Option (SocketEvent κ)) (r : EpollRecord)
    (onRead onWrite : κ → SocketEvent κ → Option σ) (next : Option σ) : Option σ := do
  let userEvent ← heap r.ptr
  if r.events &&& epollIn ≠ 0 then
    let callback ← userEvent.readCallback
    onRead callback userEvent
  else if r.events &&& epollOut ≠ 0 then
    let callback ← userEvent.writeCallback
    onWrite callback userEvent
  else next

theorem dispatchRecord_cases {σ : Type} {heap : Addr → Option (SocketEvent κ)} {r : EpollRecord}
    {onRead onWrite : κ → SocketEvent κ → Option σ} {next : Option σ} {s' : σ}
    (h : dispatchRecord heap r onRead onWrite next = some s') :
    ∃ userEvent, heap r.ptr = some userEvent ∧
      ((r.events &&& epollIn ≠ 0 ∧ ∃ callback, userEvent.readCallback = some callback ∧
          onRead callback userEvent = some s') ∨
       (r.events &&& epollIn = 0 ∧ r.events &&& epollOut ≠ 0 ∧
          ∃ callback, userEvent.writeCallback = some callback ∧
            onWrite callback userEvent = some s') ∨
       (r.events &&& epollIn = 0 ∧ r.events &&& epollOut = 0 ∧ next = some s')) := by
  unfold dispatchRecord at h
  obtain ⟨userEvent, hheap, h⟩ := Option.bind_eq_some_iff.mp h
  refine ⟨userEvent, hheap, ?_⟩
  split at h
  · rename_i hin
    exact Or.inl ⟨hin, Option.bind_eq_some_iff.mp h⟩
  · rename_i hin
    rw [not_not] at hin
    split at h
    · rename_i hout
      exact Or.inr (Or.inl ⟨hin, hout, Option.bind_eq_some_iff.mp h⟩)
    · rename_i hout
      rw [not_not] at hout
      exact Or.inr (Or.inr ⟨hin, hout, h⟩)

/-! ## The registry invariant -/

/-- The callbacks that the dispatcher may call for the registered bits are not `NULL`. -/
structure Callable (userEvent : SocketEvent κ) : Prop where
  read : userEvent.readCallback ≠ none
  write : userEvent.events &&& epollOut ≠ 0 → userEvent.writeCallback ≠ none

/-- The interest entry `entry` of `fd` belongs to the live object `userEvent`. -/
structure Owner (m : Machine κ) (fd : Fd) (entry : Interest) (userEvent : SocketEvent κ) :
    Prop where
  object : m.heap entry.ptr = some userEvent
  descriptor : userEvent.fd = fd
  instance_eq : userEvent.epollFd = m.kernel.epollFd
  mask : userEvent.events = entry.events
  opened : (m.kernel.files fd).isSome
  callable : Callable userEvent

structure Registered (m : Machine κ) : Prop where
  owner : ∀ fd entry, m.kernel.interest.lookup fd = some entry → ∃ userEvent, Owner m fd entry userEvent
  batch : m.kernel.Batch recvEpEventMax m.batch

/-- What must hold of a record when the loop reaches it. -/
structure DispatchValid (m : Machine κ) (r : EpollRecord) (userEvent : SocketEvent κ) : Prop where
  object : m.heap r.ptr = some userEvent
  descriptor : userEvent.fd = r.fd
  registered : m.kernel.interest.lookup userEvent.fd = some ⟨userEvent.events, r.ptr⟩
  opened : (m.kernel.files userEvent.fd).isSome
  read : r.events &&& epollIn ≠ 0 → userEvent.readCallback ≠ none
  write : r.events &&& epollIn = 0 → r.events &&& epollOut ≠ 0 → userEvent.writeCallback ≠ none

theorem epollIn_and_epollOut : epollIn &&& epollOut = 0 := by decide

/-- A reported bit that is neither `EPOLLERR` nor `EPOLLHUP` is a registered one. -/
theorem registered_of_reported {bits mask : Mask}
    (h : bits &&& ~~~(mask ||| epollErr ||| epollHup) = 0#32) (hout : bits &&& epollOut ≠ 0) :
    mask &&& epollOut ≠ 0 := by
  intro hmask
  apply hout
  have hother : epollOut &&& (epollErr ||| epollHup) = 0#32 := by decide
  ext i hi
  have hbit := congrArg (fun b : Mask => b[i]) h
  have hmaskBit := congrArg (fun b : Mask => b[i]) hmask
  have hotherBit := congrArg (fun b : Mask => b[i]) hother
  simp only [BitVec.getElem_and, BitVec.getElem_or, BitVec.getElem_not, BitVec.getElem_zero] at *
  cases hb : bits[i] <;> cases ho : epollOut[i] <;> simp_all

/-- A batch reports a descriptor at most once. -/
theorem head_fd_ne {r : EpollRecord} {rest : List EpollRecord}
    (h : ((r :: rest).map EpollRecord.fd).Nodup) : ∀ r' ∈ rest, r'.fd ≠ r.fd := by
  rw [List.map_cons, List.nodup_cons] at h
  intro r' hr' hsame
  exact h.1 (List.mem_map.mpr ⟨r', hr', hsame⟩)

namespace Registered

variable {m : Machine κ}

theorem empty (hinterest : m.kernel.interest = ∅) (hbatch : m.batch = []) :
    Registered m := by
  refine ⟨fun fd entry he => ?_, ?_⟩
  · rw [hinterest] at he
    cases he
  · rw [hbatch]
    exact ⟨Nat.zero_le _, List.nodup_nil, fun _ hr => absurd hr List.not_mem_nil⟩

theorem dispatchValid (h : Registered m) {r : EpollRecord} (hr : r ∈ m.batch) :
    ∃ userEvent, DispatchValid m r userEvent := by
  obtain ⟨entry, hentry, hptr, hbits⟩ := h.batch.reported r hr
  obtain ⟨userEvent, ho⟩ := h.owner r.fd entry hentry
  refine ⟨userEvent, hptr ▸ ho.object, ho.descriptor, ?_, ho.descriptor ▸ ho.opened,
    fun _ => ho.callable.read, fun _ hout => ho.callable.write ?_⟩
  · rw [ho.descriptor, ho.mask, hptr]
    exact hentry
  · rw [ho.mask]
    exact registered_of_reported hbits hout

theorem head_notMem (h : Registered m) {r : EpollRecord} {rest : List EpollRecord}
    (hb : m.batch = r :: rest) : ∀ r' ∈ rest, r'.fd ≠ r.fd := by
  have hnodup := h.batch.distinct
  rw [hb] at hnodup
  exact head_fd_ne hnodup

theorem mask_of_reported (h : Registered m) {r : EpollRecord} {userEvent : SocketEvent κ}
    (hr : r ∈ m.batch) (hheap : m.heap r.ptr = some userEvent) (hout : r.events &&& epollOut ≠ 0) :
    userEvent.events &&& epollOut ≠ 0 := by
  obtain ⟨entry, hentry, hptr, hbits⟩ := h.batch.reported r hr
  obtain ⟨owner, ho⟩ := h.owner r.fd entry hentry
  obtain rfl : owner = userEvent := Option.some.inj (ho.object.symm.trans (hptr ▸ hheap))
  rw [ho.mask]
  exact registered_of_reported hbits hout

/-- The record that was just taken from the batch belongs to the object whose callback
runs, and no record left in the batch is for its descriptor. -/
theorem taken (hm : Registered m) {r : EpollRecord}
    {rest : List EpollRecord} {userEvent : SocketEvent κ} (hbatch : m.batch = r :: rest)
    (hheap : m.heap r.ptr = some userEvent) :
    DispatchValid m r userEvent ∧ userEvent.epollFd = m.kernel.epollFd ∧
      ∀ r' ∈ rest, r'.fd ≠ userEvent.fd := by
  obtain ⟨owner, hvalid⟩ := hm.dispatchValid (r := r) (by rw [hbatch]; exact List.mem_cons_self)
  obtain rfl : owner = userEvent := Option.some.inj (hvalid.object.symm.trans hheap)
  obtain ⟨owner', ho⟩ := hm.owner _ _ hvalid.registered
  obtain rfl : owner' = owner := Option.some.inj (ho.object.symm.trans hheap)
  exact ⟨hvalid, ho.instance_eq, by rw [hvalid.descriptor]; exact hm.head_notMem hbatch⟩

theorem tail (h : Registered m) {r : EpollRecord} {rest : List EpollRecord}
    (hb : m.batch = r :: rest) : Registered { m with batch := rest } := by
  obtain ⟨hsize, hdistinct, hreported⟩ := h.batch
  rw [hb] at hsize hdistinct hreported
  refine ⟨fun fd entry he => ?_, ?_, ?_, ?_⟩
  · obtain ⟨userEvent, ho⟩ := h.owner fd entry he
    exact ⟨userEvent, ho.object, ho.descriptor, ho.instance_eq, ho.mask, ho.opened, ho.callable⟩
  · exact Nat.le_of_succ_le hsize
  · exact (List.nodup_cons.mp hdistinct).2
  · exact fun r' hr' => hreported r' (List.mem_cons_of_mem _ hr')

theorem wait (h : Registered m) {rs : List EpollRecord}
    (hrs : m.kernel.Batch recvEpEventMax rs) : Registered { m with batch := rs } := by
  refine ⟨fun fd entry he => ?_, hrs⟩
  obtain ⟨userEvent, ho⟩ := h.owner fd entry he
  exact ⟨userEvent, ho.object, ho.descriptor, ho.instance_eq, ho.mask, ho.opened, ho.callable⟩

/-- Kernel steps that touch streams or open further descriptors. -/
theorem frame (h : Registered m) {k' : Kernel} (hinterest : k'.interest = m.kernel.interest)
    (hepoll : k'.epollFd = m.kernel.epollFd)
    (hfiles : ∀ fd, (m.kernel.files fd).isSome → (k'.files fd).isSome) :
    Registered { m with kernel := k' } := by
  refine ⟨fun fd entry he => ?_, h.batch.size, h.batch.distinct, fun r hr => ?_⟩
  · obtain ⟨userEvent, ho⟩ := h.owner fd entry (hinterest ▸ he)
    exact ⟨userEvent, ho.object, ho.descriptor, ho.instance_eq.trans hepoll.symm, ho.mask,
      hfiles fd ho.opened, ho.callable⟩
  · have := h.batch.reported r hr
    unfold Kernel.Reports at this ⊢
    rwa [hinterest]

theorem arrive (hm : Registered m) {id : StreamId} {bytes : List Byte} {k : Kernel}
    (h : m.kernel.arrive id bytes = some k) : Registered { m with kernel := k } := by
  obtain ⟨f, rfl⟩ := Kernel.arrive_cases h
  exact hm.frame rfl rfl (fun _ hopen => hopen)

theorem store (h : Registered m) {ptr : Addr} (hfresh : m.heap ptr = none)
    (userEvent : SocketEvent κ) :
    Registered { m with heap := Function.update m.heap ptr (some userEvent) } := by
  refine ⟨fun fd entry he => ?_, h.batch⟩
  obtain ⟨owner, ho⟩ := h.owner fd entry he
  have hne : entry.ptr ≠ ptr := by
    intro heq
    have := ho.object
    rw [heq, hfresh] at this
    cases this
  exact ⟨owner, (Function.update_of_ne hne _ _).trans ho.object, ho.descriptor, ho.instance_eq,
    ho.mask, ho.opened, ho.callable⟩

/-- `EPOLL_CTL_ADD` of a live object, granted or not. -/
theorem add (h : Registered m) {ptr : Addr} {userEvent : SocketEvent κ} (granted : Bool)
    (hobject : m.heap ptr = some userEvent) (hepoll : userEvent.epollFd = m.kernel.epollFd)
    (hcallable : Callable userEvent) :
    Registered { m with kernel := (socketEventOp granted m.kernel ptr userEvent .add).2 } := by
  unfold socketEventOp socketUtilEpollEventOpUser
  rcases m.kernel.epollCtl_cases granted userEvent.epollFd .add userEvent.fd
      ⟨userEvent.events, ptr⟩ with hsame | ⟨_, hopen, ⟨_, hnone, hadd⟩ | ⟨hop, _⟩ | ⟨hop, _⟩⟩
  · rw [hsame]
    exact h
  · rw [hadd]
    refine ⟨fun fd entry he => ?_, h.batch.size, h.batch.distinct, fun r hr => ?_⟩
    · by_cases hfd : fd = userEvent.fd
      · subst hfd
        simp only [AList.lookup_insert, Option.some.injEq] at he
        subst he
        exact ⟨userEvent, hobject, rfl, hepoll, rfl, hopen, hcallable⟩
      · simp only [AList.lookup_insert_ne hfd] at he
        obtain ⟨owner, ho⟩ := h.owner fd entry he
        exact ⟨owner, ho.object, ho.descriptor, ho.instance_eq, ho.mask, ho.opened, ho.callable⟩
    · obtain ⟨entry, hentry, hrest⟩ := h.batch.reported r hr
      have hne : r.fd ≠ userEvent.fd := by
        intro heq
        rw [heq, hnone] at hentry
        cases hentry
      exact ⟨entry, (AList.lookup_insert_ne hne).trans hentry, hrest⟩
  · cases hop
  · cases hop

end Registered

/-! ## Removing and modifying an entry -/

/-- Only registrations change. -/
theorem socketEventOp_frame (granted : Bool) (k : Kernel) (ptr : Addr) (userEvent : SocketEvent κ)
    (operation : CtlOp) :
    ∃ interest, (socketEventOp granted k ptr userEvent operation).2 = { k with interest := interest } := by
  unfold socketEventOp socketUtilEpollEventOpUser
  rcases k.epollCtl_cases granted userEvent.epollFd operation userEvent.fd
      ⟨userEvent.events, ptr⟩ with h | ⟨-, -, ⟨-, -, h⟩ | ⟨-, -, h⟩ | ⟨-, -, h⟩⟩
  · exact ⟨k.interest, by rw [h]⟩
  · exact ⟨_, congrArg Prod.snd h⟩
  · exact ⟨_, congrArg Prod.snd h⟩
  · exact ⟨_, congrArg Prod.snd h⟩

theorem socketEventOp_files (granted : Bool) (k : Kernel) (ptr : Addr) (userEvent : SocketEvent κ)
    (operation : CtlOp) :
    (socketEventOp granted k ptr userEvent operation).2.files = k.files ∧
      (socketEventOp granted k ptr userEvent operation).2.nextStream = k.nextStream := by
  obtain ⟨interest, h⟩ := socketEventOp_frame granted k ptr userEvent operation
  rw [h]
  exact ⟨rfl, rfl⟩

theorem socketEventOp_streams (granted : Bool) (k : Kernel) (ptr : Addr)
    (userEvent : SocketEvent κ) (operation : CtlOp) :
    (socketEventOp granted k ptr userEvent operation).2.streams = k.streams := by
  obtain ⟨interest, h⟩ := socketEventOp_frame granted k ptr userEvent operation
  rw [h]

theorem socketEventOp_epollFd (granted : Bool) (k : Kernel) (ptr : Addr)
    (userEvent : SocketEvent κ) (operation : CtlOp) :
    (socketEventOp granted k ptr userEvent operation).2.epollFd = k.epollFd := by
  obtain ⟨interest, h⟩ := socketEventOp_frame granted k ptr userEvent operation
  rw [h]

theorem socketEventOp_lookup_of_ne {granted : Bool} {k : Kernel} {ptr : Addr} {userEvent : SocketEvent κ}
    {operation : CtlOp} {fd : Fd} (hne : fd ≠ userEvent.fd) :
    (socketEventOp granted k ptr userEvent operation).2.interest.lookup fd = k.interest.lookup fd := by
  unfold socketEventOp socketUtilEpollEventOpUser
  rcases k.epollCtl_cases granted userEvent.epollFd operation userEvent.fd
      ⟨userEvent.events, ptr⟩ with h | ⟨-, -, ⟨-, -, h⟩ | ⟨-, -, h⟩ | ⟨-, -, h⟩⟩
  · rw [h]
  · rw [h]
    exact AList.lookup_insert_ne hne
  · rw [h]
    exact AList.lookup_insert_ne hne
  · rw [h]
    exact AList.lookup_erase_ne hne

theorem socketEventOp_add_lookup {granted : Bool} {k : Kernel} {ptr : Addr}
    {userEvent : SocketEvent κ} {fd : Fd} {entry : Interest}
    (h : (socketEventOp granted k ptr userEvent .add).2.interest.lookup fd = some entry) :
    k.interest.lookup fd = some entry ∨ (fd = userEvent.fd ∧ entry = ⟨userEvent.events, ptr⟩) := by
  unfold socketEventOp socketUtilEpollEventOpUser at h
  rcases k.epollCtl_cases granted userEvent.epollFd .add userEvent.fd
      ⟨userEvent.events, ptr⟩ with hsame | ⟨-, -, ⟨-, -, hadd⟩ | ⟨hop, -⟩ | ⟨hop, -⟩⟩
  · rw [hsame] at h
    exact Or.inl h
  · rw [hadd] at h
    by_cases heq : fd = userEvent.fd
    · subst heq
      rw [AList.lookup_insert, Option.some.injEq] at h
      exact Or.inr ⟨rfl, h.symm⟩
    · rw [AList.lookup_insert_ne heq] at h
      exact Or.inl h
  · cases hop
  · cases hop

/-- A granted `EPOLL_CTL_MOD` replaces an entry by one for the object that was passed. -/
theorem socketEventOp_mod_lookup {granted : Bool} {k : Kernel} {ptr : Addr} {userEvent : SocketEvent κ}
    {entry : Interest}
    (h : (socketEventOp granted k ptr userEvent .mod).2.interest.lookup userEvent.fd = some entry) :
    ∃ old, k.interest.lookup userEvent.fd = some old ∧
      (entry.ptr = old.ptr ∨ entry.ptr = ptr) := by
  unfold socketEventOp socketUtilEpollEventOpUser at h
  rcases k.epollCtl_cases granted userEvent.epollFd .mod userEvent.fd
      ⟨userEvent.events, ptr⟩ with hsame | ⟨-, -, ⟨hop, -⟩ | ⟨-, hsome, hmod⟩ | ⟨hop, -⟩⟩
  · rw [hsame] at h
    exact ⟨entry, h, Or.inl rfl⟩
  · cases hop
  · rw [hmod, AList.lookup_insert, Option.some.injEq] at h
    obtain ⟨old, hold⟩ := Option.isSome_iff_exists.mp hsome
    exact ⟨old, hold, Or.inr (congrArg Interest.ptr h.symm)⟩
  · cases hop

/-- `EPOLL_CTL_DEL` followed by `close`: whether or not the first call was granted, the
descriptor is closed and unregistered, and the others keep what they had. -/
theorem close_after_del (granted : Bool) (k : Kernel) (ptr : Addr) (userEvent : SocketEvent κ) :
    let k' := (socketEventOp granted k ptr userEvent .del).2.close userEvent.fd
    k'.files = Function.update k.files userEvent.fd none ∧ k'.epollFd = k.epollFd ∧
      k'.streams = k.streams ∧ k'.nextStream = k.nextStream ∧
      k'.interest.lookup userEvent.fd = none ∧
      ∀ fd, fd ≠ userEvent.fd → k'.interest.lookup fd = k.interest.lookup fd := by
  unfold socketEventOp socketUtilEpollEventOpUser
  rcases k.epollCtl_cases granted userEvent.epollFd .del userEvent.fd
      ⟨userEvent.events, ptr⟩ with hsame | ⟨_, _, ⟨hop, _⟩ | ⟨hop, _⟩ | ⟨_, _, hdel⟩⟩
  · rw [hsame]
    exact ⟨rfl, rfl, rfl, rfl, AList.lookup_erase _ _, fun fd hfd => AList.lookup_erase_ne hfd⟩
  · cases hop
  · cases hop
  · rw [hdel]
    refine ⟨rfl, rfl, rfl, rfl, AList.lookup_erase _ _, fun fd hfd => ?_⟩
    exact (AList.lookup_erase_ne hfd).trans (AList.lookup_erase_ne hfd)

theorem close_after_del_lookup {granted : Bool} {k : Kernel} {ptr : Addr}
    {userEvent : SocketEvent κ} {fd : Fd} {entry : Interest}
    (h : ((socketEventOp granted k ptr userEvent .del).2.close userEvent.fd).interest.lookup fd =
      some entry) : k.interest.lookup fd = some entry := by
  obtain ⟨-, -, -, -, hgone, hothers⟩ := close_after_del granted k ptr userEvent
  by_cases heq : fd = userEvent.fd
  · rw [heq, hgone] at h
    cases h
  · exact (hothers fd heq).symm.trans h

namespace Registered

variable {m : Machine κ}

theorem remove (h : Registered m) (granted : Bool) (ptr : Addr) (userEvent : SocketEvent κ)
    (hbatch : ∀ r ∈ m.batch, r.fd ≠ userEvent.fd) :
    Registered { m with
      kernel := (socketEventOp granted m.kernel ptr userEvent .del).2.close userEvent.fd } := by
  obtain ⟨hfiles, hepoll, -, -, hgone, hothers⟩ := close_after_del granted m.kernel ptr userEvent
  refine ⟨fun fd entry he => ?_, h.batch.size, h.batch.distinct, fun r hr => ?_⟩
  · have hfd : fd ≠ userEvent.fd := by
      rintro rfl
      rw [hgone] at he
      cases he
    obtain ⟨owner, ho⟩ := h.owner fd entry ((hothers fd hfd).symm.trans he)
    refine ⟨owner, ho.object, ho.descriptor, ho.instance_eq.trans hepoll.symm, ho.mask, ?_, ho.callable⟩
    show ((Kernel.close _ _).files fd).isSome
    rw [hfiles, Function.update_of_ne hfd]
    exact ho.opened
  · obtain ⟨entry, hentry, hrest⟩ := h.batch.reported r hr
    exact ⟨entry, (hothers r.fd (hbatch r hr)).trans hentry, hrest⟩

/-- A live object is rewritten and its entry is renewed by a granted `EPOLL_CTL_MOD`. -/
theorem modify (h : Registered m) {ptr : Addr} {userEvent updated : SocketEvent κ}
    (hobject : m.heap ptr = some userEvent)
    (hentry : m.kernel.interest.lookup userEvent.fd = some ⟨userEvent.events, ptr⟩)
    (hfd : updated.fd = userEvent.fd) (hepoll : updated.epollFd = userEvent.epollFd)
    (hcallable : Callable updated) (hbatch : ∀ r ∈ m.batch, r.fd ≠ userEvent.fd) :
    Registered { m with
      heap := Function.update m.heap ptr (some updated)
      kernel := (socketEventOp true m.kernel ptr updated .mod).2 } := by
  obtain ⟨owner, ho⟩ := h.owner userEvent.fd _ hentry
  obtain rfl : owner = userEvent := Option.some.inj (ho.object.symm.trans hobject)
  have hmod : (socketEventOp true m.kernel ptr updated .mod).2 =
      { m.kernel with interest := m.kernel.interest.insert owner.fd ⟨updated.events, ptr⟩ } := by
    unfold socketEventOp socketUtilEpollEventOpUser
    rw [hfd, hepoll, ho.instance_eq, m.kernel.epollCtl_mod_granted _ ho.opened (by rw [hentry]; rfl)]
  rw [hmod]
  refine ⟨fun fd entry he => ?_, h.batch.size, h.batch.distinct, fun r hr => ?_⟩
  · by_cases heq : fd = owner.fd
    · subst heq
      simp only [AList.lookup_insert, Option.some.injEq] at he
      subst he
      exact ⟨updated, Function.update_self _ _ _, hfd, hepoll.trans ho.instance_eq, rfl, ho.opened,
        hcallable⟩
    · simp only [AList.lookup_insert_ne heq] at he
      obtain ⟨other, ho'⟩ := h.owner fd entry he
      have hne : entry.ptr ≠ ptr := by
        intro hptr
        have := ho'.object
        rw [hptr, hobject] at this
        cases this
        exact heq ho'.descriptor.symm
      exact ⟨other, (Function.update_of_ne hne _ _).trans ho'.object, ho'.descriptor,
        ho'.instance_eq, ho'.mask, ho'.opened, ho'.callable⟩
  · obtain ⟨entry, he, hrest⟩ := h.batch.reported r hr
    exact ⟨entry, (AList.lookup_insert_ne (hbatch r hr)).trans he, hrest⟩

end Registered

end RedisLuaLinux.LinuxC
