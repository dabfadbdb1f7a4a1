import RedisLuaLinux.LinuxC.SocketEvent
import RedisLuaLinux.Library.Run

/-!
# The echo server

`server.c` as a step function. One step is an arrival of bytes at a connection, a return
of `epoll_wait`, or the dispatch of the next record of the batch with its callback run to
the end; arrivals may fall between any two records. A dispatch carries the answers of the
system calls its callback makes. A run may stop anywhere, so that the death of the
process (a signal, a failed `malloc`) needs no step of its own.

`serverStep_cases` says once what a step can do; every invariant is derived from it.
`server_registered`: the registry invariant holds in every reachable state, whatever
`epoll_ctl` answers.
-/

namespace RedisLuaLinux.LinuxC

open Library

inductive ServerCallback
  | socketAccept
  | clientRead
  deriving DecidableEq, Repr

abbrev ServerState := Machine ServerCallback

/-- The answers of the system calls of one callback, in the order of the calls. -/
inductive ServerAnswers
  | accepting (acceptFd : Option Fd) (eventPtr : Addr) (ctlGranted : Bool)
  | reading (read : ReadAnswer) (write : WriteAnswer) (ctlGranted : Bool)
  | idle
  deriving DecidableEq, Repr

inductive ServerEvent
  | arrive (id : StreamId) (bytes : List Byte)
  | epollWait (rs : List EpollRecord)
  | dispatch (io : ServerAnswers)
  deriving DecidableEq, Repr

def socketAcceptCallback (userEvent : SocketEvent ServerCallback) (m : ServerState) :
    ServerAnswers → Option ServerState
  | .accepting acceptFd eventPtr ctlGranted => do
    let (ret, k) ← m.kernel.accept userEvent.fd acceptFd
    if ret < 0 then
      some { m with kernel := k }
    else if m.heap eventPtr = none then
      let clientEvent : SocketEvent ServerCallback :=
        { fd := ret.toNat
          epollFd := userEvent.epollFd
          events := epollIn
          readCallback := some .clientRead
          writeCallback := none }
      some { m with
        heap := Function.update m.heap eventPtr (some clientEvent)
        kernel := (socketEventOp ctlGranted k eventPtr clientEvent .add).2 }
    else none
  | _ => none

def clientReadCallback (ptr : Addr) (userEvent : SocketEvent ServerCallback) (m : ServerState) :
    ServerAnswers → Option ServerState
  | .reading readAnswer writeAnswer ctlGranted => do
    let (ret, bytes, k) ← m.kernel.read userEvent.fd readBufMax readAnswer
    let readBuf := filledBuf bytes
    if 0 < ret then
      let (_, k) ← k.write userEvent.fd (readBuf.take ret.toNat) writeAnswer
      some { m with kernel := k }
    else if ret = 0 then
      let (_, k) := socketEventOp ctlGranted k ptr userEvent .del
      some { m with kernel := k.close userEvent.fd }
    else
      let (_, k) := socketEventOp ctlGranted k ptr userEvent .del
      some { m with kernel := k.close userEvent.fd }
  | _ => none

def serverCallback (ptr : Addr) (m : ServerState) (io : ServerAnswers) :
    ServerCallback → SocketEvent ServerCallback → Option ServerState
  | .socketAccept, userEvent => socketAcceptCallback userEvent m io
  | .clientRead, userEvent => clientReadCallback ptr userEvent m io

/-- One iteration of the loop of `active_fd_process`. -/
def activeFdProcess (io : ServerAnswers) (m : ServerState) : Option ServerState :=
  match m.batch with
  | [] => none
  | r :: rest =>
    let m' := { m with batch := rest }
    dispatchRecord m.heap r (serverCallback r.ptr m' io) (serverCallback r.ptr m' io)
      (if io = .idle then some m' else none)

def serverStep (m : ServerState) : ServerEvent → Option ServerState
  | .arrive id bytes => (m.kernel.arrive id bytes).map fun k => { m with kernel := k }
  | .epollWait rs =>
    if m.batch = [] ∧ m.kernel.Batch recvEpEventMax rs then some { m with batch := rs } else none
  | .dispatch io => activeFdProcess io m

/-- What the server finds when it starts: the descriptors it inherits, and what `socket`,
`epoll_create`, `malloc` and `epoll_ctl` give it. -/
structure ServerLaunch where
  inherited : List Fd
  listenFd : Fd
  epollFd : Fd
  eventPtr : Addr
  ctlGranted : Bool
  listen_new : listenFd ∉ inherited
  epoll_new : epollFd ∉ listenFd :: inherited

/-- The kernel once `main` has its listening socket and its epoll instance. -/
def serverKernel (l : ServerLaunch) : Kernel where
  files fd :=
    if fd = l.listenFd then some .listener
    else if fd = l.epollFd then some .epoll
    else if fd ∈ l.inherited then some .other
    else none
  epollFd := l.epollFd
  interest := ∅
  streams _ := {}
  nextStream := 0

/-- The event object of the listening socket. -/
def listenEvent (l : ServerLaunch) : SocketEvent ServerCallback where
  fd := l.listenFd
  epollFd := l.epollFd
  events := epollIn
  readCallback := some .socketAccept
  writeCallback := none

/-- The state in which `main` enters its loop. -/
def serverMain (l : ServerLaunch) : ServerState where
  kernel := (socketEventOp l.ctlGranted (serverKernel l) l.eventPtr (listenEvent l) .add).2
  heap := Function.update (fun _ => none) l.eventPtr (some (listenEvent l))
  batch := []

/-- A run of the server from its start. -/
abbrev ServerRun (l : ServerLaunch) := Run serverStep AnyStep (serverMain l)

/-- A server started from a shell, for runs on fixed events: its first descriptors are 3
and 4. -/
def launchExample : ServerLaunch where
  inherited := [0, 1, 2]
  listenFd := 3
  epollFd := 4
  eventPtr := 0
  ctlGranted := true
  listen_new := by decide
  epoll_new := by decide

/-! ## What a step can do -/

/-- The object that `socket_accept_callback` allocates. -/
def clientEventOf (userEvent : SocketEvent ServerCallback) (newFd : Fd) :
    SocketEvent ServerCallback :=
  ⟨newFd, userEvent.epollFd, epollIn, some .clientRead, none⟩

theorem socketAcceptCallback_cases {userEvent : SocketEvent ServerCallback} {m m' : ServerState}
    {io : ServerAnswers} (h : socketAcceptCallback userEvent m io = some m') :
    (∃ eventPtr granted, io = .accepting none eventPtr granted ∧ m' = m) ∨
    ∃ newFd eventPtr granted, io = .accepting (some newFd) eventPtr granted ∧
      m.kernel.files newFd = none ∧ m.heap eventPtr = none ∧
      m' = { m with
        heap := Function.update m.heap eventPtr (some (clientEventOf userEvent newFd))
        kernel := (socketEventOp granted (m.kernel.openStream newFd) eventPtr
          (clientEventOf userEvent newFd) .add).2 } := by
  cases io with
  | accepting acceptFd eventPtr granted =>
    obtain ⟨⟨ret, k⟩, haccept, h⟩ := Option.bind_eq_some_iff.mp h
    rcases Kernel.accept_cases haccept with ⟨rfl, rfl, rfl⟩ | ⟨newFd, rfl, rfl, -, hfree, rfl⟩
    · simp only [Int.reduceNeg, Int.reduceLT, if_true, Option.some.injEq] at h
      exact Or.inl ⟨eventPtr, granted, rfl, h.symm⟩
    · have hpos : ¬ ((newFd : Int) < 0) := by omega
      simp only [hpos, if_false] at h
      split at h
      · rename_i hfresh
        exact Or.inr ⟨newFd, eventPtr, granted, rfl, hfree, hfresh, (Option.some.inj h).symm⟩
      · cases h
  | reading => cases h
  | idle => cases h

theorem filledBuf_take (bytes : List Byte) : (filledBuf bytes).take bytes.length = bytes :=
  List.take_left

/-- A read is echoed on the same descriptor, or the descriptor is unregistered and closed. -/
theorem clientReadCallback_cases {ptr : Addr} {userEvent : SocketEvent ServerCallback}
    {m m' : ServerState} {io : ServerAnswers} (h : clientReadCallback ptr userEvent m io = some m') :
    ∃ readAnswer writeAnswer granted, io = .reading readAnswer writeAnswer granted ∧
    ((∃ id bytes rest taken failed, m.kernel.files userEvent.fd = some (.stream id) ∧
        (m.kernel.streams id).inbound = bytes ++ rest ∧ (failed = false → taken = bytes) ∧
        m' = { m with kernel := m.kernel.mapStream id fun st =>
          { st with
            inbound := rest
            received := st.received ++ bytes
            written := st.written ++ taken
            writeFailed := st.writeFailed || failed } }) ∨
      m' = { m with
        kernel := (socketEventOp granted m.kernel ptr userEvent .del).2.close userEvent.fd }) := by
  cases io with
  | accepting => cases h
  | idle => cases h
  | reading readAnswer writeAnswer granted =>
    refine ⟨readAnswer, writeAnswer, granted, rfl, ?_⟩
    obtain ⟨⟨ret, bytes, k⟩, hread, h⟩ := Option.bind_eq_some_iff.mp h
    rcases Kernel.read_cases hread with ⟨hret, rfl⟩ | ⟨id, rest, hid, hpos, -, rfl, hin, rfl⟩
    · -- end of file and error run the same two calls
      right
      simp only [show ¬ 0 < ret by omega, if_false, ite_self, Option.some.injEq] at h
      exact h.symm
    · left
      simp only [show (0 : Int) < bytes.length by omega, if_true, Int.toNat_natCast,
        filledBuf_take] at h
      obtain ⟨⟨wret, k'⟩, hwrite, h⟩ := Option.bind_eq_some_iff.mp h
      rcases Kernel.write_cases hwrite with ⟨hnone, -⟩ | ⟨id', taken, failed, hid', hfull, rfl⟩
      · have := Kernel.stream?_eq_some.mpr hid
        rw [show m.kernel.stream? userEvent.fd = none from hnone] at this
        cases this
      · obtain rfl : id = id' := by
          have heq : some (File.stream id) = some (File.stream id') := hid.symm.trans hid'
          simpa using heq
        refine ⟨id, bytes, rest, taken, failed, hid, hin, hfull, ?_⟩
        rw [← Option.some.inj h]
        simp [Kernel.mapStream]

/-- What one step of the server can do. -/
theorem serverStep_cases {m m' : ServerState} {e : ServerEvent} (h : serverStep m e = some m') :
    (∃ id bytes k, e = .arrive id bytes ∧ m.kernel.arrive id bytes = some k ∧
      m' = { m with kernel := k }) ∨
    (∃ rs, e = .epollWait rs ∧ m.batch = [] ∧ m.kernel.Batch recvEpEventMax rs ∧
      m' = { m with batch := rs }) ∨
    ∃ io r rest userEvent, e = .dispatch io ∧ m.batch = r :: rest ∧
      m.heap r.ptr = some userEvent ∧
      (socketAcceptCallback userEvent { m with batch := rest } io = some m' ∨
        clientReadCallback r.ptr userEvent { m with batch := rest } io = some m' ∨
        (io = .idle ∧ m' = { m with batch := rest })) := by
  cases e with
  | arrive id bytes =>
    obtain ⟨k, hk, rfl⟩ := Option.map_eq_some_iff.mp h
    exact Or.inl ⟨id, bytes, k, rfl, hk, rfl⟩
  | epollWait rs =>
    simp only [serverStep] at h
    split at h
    · rename_i hrs
      exact Or.inr (Or.inl ⟨rs, rfl, hrs.1, hrs.2, (Option.some.inj h).symm⟩)
    · cases h
  | dispatch io =>
    simp only [serverStep, activeFdProcess] at h
    split at h
    · cases h
    · rename_i r rest hbatch
      obtain ⟨userEvent, hheap, hcases⟩ := dispatchRecord_cases h
      refine Or.inr (Or.inr ⟨io, r, rest, userEvent, rfl, hbatch, hheap, ?_⟩)
      have hcallback : ∀ cb, serverCallback r.ptr { m with batch := rest } io cb userEvent = some m' →
          socketAcceptCallback userEvent { m with batch := rest } io = some m' ∨
          clientReadCallback r.ptr userEvent { m with batch := rest } io = some m' := by
        intro cb hcb
        cases cb with
        | socketAccept => exact Or.inl hcb
        | clientRead => exact Or.inr hcb
      rcases hcases with ⟨-, cb, -, hcb⟩ | ⟨-, -, cb, -, hcb⟩ | ⟨-, -, hidle⟩
      · rcases hcallback cb hcb with h' | h'
        · exact Or.inl h'
        · exact Or.inr (Or.inl h')
      · rcases hcallback cb hcb with h' | h'
        · exact Or.inl h'
        · exact Or.inr (Or.inl h')
      · split at hidle
        · rename_i hio
          exact Or.inr (Or.inr ⟨hio, (Option.some.inj hidle).symm⟩)
        · cases hidle

end RedisLuaLinux.LinuxC
