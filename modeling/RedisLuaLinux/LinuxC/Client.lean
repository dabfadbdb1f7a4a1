import RedisLuaLinux.LinuxC.SocketEvent
import RedisLuaLinux.Library.Run

/-!
# The echo client

`client.c` as a step function, over the same event objects and dispatch loop as the
server. Standard input is stream 0 and the connection to the server is stream 1, which is
not established before the non-blocking `connect` completes (`ClientEvent.establish`).

Two histories are kept that the program does not have: `writes` are the calls of `write`
that `stdin_read_callback` makes, `outCalls` the callbacks that the `EPOLLOUT` branch of
the dispatcher has called.
-/

namespace RedisLuaLinux.LinuxC

open Library

inductive ClientCallback
  | socketRead
  | socketConnect
  | socketWrite
  | stdinRead
  deriving DecidableEq, Repr

/-- A call of `write`, and whether its descriptor is open on an established connection. -/
structure WriteCall where
  fd : Fd
  data : List Byte
  connected : Bool
  deriving DecidableEq, Repr

structure ClientState extends Machine ClientCallback where
  gSocketFd : Fd
  writes : List WriteCall
  outCalls : List ClientCallback

/-- The answers of the system calls of one callback, in the order of the calls. -/
inductive ClientAnswers
  | stdin (read : ReadAnswer) (write : WriteAnswer) (ctlGranted : Bool)
  | socket (read : ReadAnswer) (ctlGranted : Bool)
  | modifying (ctlGranted : Bool)
  | idle
  deriving DecidableEq, Repr

inductive ClientEvent
  | arrive (id : StreamId) (bytes : List Byte)
  | establish
  | epollWait (rs : List EpollRecord)
  | dispatch (io : ClientAnswers)
  deriving DecidableEq, Repr

def stdinStream : StreamId := 0
def socketStream : StreamId := 1

/-- The descriptor is open on an established connection. -/
def Kernel.connected (k : Kernel) (fd : Fd) : Bool :=
  match k.stream? fd with
  | some id => (k.streams id).established
  | none => false

/-- The last byte that was read is overwritten with zero and not sent. -/
def stdinReadCallback (ptr : Addr) (userEvent : SocketEvent ClientCallback) (s : ClientState) :
    ClientAnswers → Option ClientState
  | .stdin readAnswer writeAnswer ctlGranted => do
    let (ret, bytes, k) ← s.kernel.read userEvent.fd readBufMax readAnswer
    if 0 < ret then
      let readBuf := (filledBuf bytes).set (ret.toNat - 1) 0
      let data := readBuf.take (ret.toNat - 1)
      let call : WriteCall := ⟨s.gSocketFd, data, k.connected s.gSocketFd⟩
      let (_, k) ← k.write s.gSocketFd data writeAnswer
      some { s with kernel := k, writes := s.writes ++ [call] }
    else
      let (_, k) := socketEventOp ctlGranted k ptr userEvent .del
      some { s with kernel := k.close userEvent.fd }
  | _ => none

/-- What is read from the socket is printed only. -/
def socketReadCallback (ptr : Addr) (userEvent : SocketEvent ClientCallback) (s : ClientState) :
    ClientAnswers → Option ClientState
  | .socket readAnswer ctlGranted => do
    let (ret, _, k) ← s.kernel.read userEvent.fd readBufMax readAnswer
    if 0 < ret then
      some { s with kernel := k }
    else if ret = 0 then
      let (_, k) := socketEventOp ctlGranted k ptr userEvent .del
      some { s with kernel := k.close userEvent.fd }
    else
      let (_, k) := socketEventOp ctlGranted k ptr userEvent .del
      some { s with kernel := k.close userEvent.fd }
  | _ => none

/-- The two write callbacks rewrite their object and renew its registration. -/
def rewriteEvent (ptr : Addr) (updated : SocketEvent ClientCallback) (s : ClientState) :
    ClientAnswers → Option ClientState
  | .modifying ctlGranted =>
    some { s with
      heap := Function.update s.heap ptr (some updated)
      kernel := (socketEventOp ctlGranted s.kernel ptr updated .mod).2 }
  | _ => none

def socketConnectCallback (ptr : Addr) (userEvent : SocketEvent ClientCallback) (s : ClientState) :
    ClientAnswers → Option ClientState :=
  rewriteEvent ptr { userEvent with writeCallback := some .socketWrite } s

def socketWriteCallback (ptr : Addr) (userEvent : SocketEvent ClientCallback) (s : ClientState) :
    ClientAnswers → Option ClientState :=
  rewriteEvent ptr { userEvent with events := userEvent.events &&& ~~~epollOut } s

def clientCallback (ptr : Addr) (s : ClientState) (io : ClientAnswers) :
    ClientCallback → SocketEvent ClientCallback → Option ClientState
  | .socketRead, userEvent => socketReadCallback ptr userEvent s io
  | .socketConnect, userEvent => socketConnectCallback ptr userEvent s io
  | .socketWrite, userEvent => socketWriteCallback ptr userEvent s io
  | .stdinRead, userEvent => stdinReadCallback ptr userEvent s io

/-- One iteration of the loop of `client_active_fd_process`. -/
def clientActiveFdProcess (io : ClientAnswers) (s : ClientState) : Option ClientState :=
  match s.batch with
  | [] => none
  | r :: rest =>
    let s' := { s with batch := rest }
    dispatchRecord s.heap r (clientCallback r.ptr s' io)
      (fun callback => clientCallback r.ptr { s' with outCalls := s.outCalls ++ [callback] } io callback)
      (if io = .idle then some s' else none)

def clientStep (s : ClientState) : ClientEvent → Option ClientState
  | .arrive id bytes => (s.kernel.arrive id bytes).map fun k => { s with kernel := k }
  | .establish =>
    some { s with kernel := s.kernel.mapStream socketStream fun st => { st with established := true } }
  | .epollWait rs =>
    if s.batch = [] ∧ s.kernel.Batch recvEpEventMax rs then some { s with batch := rs } else none
  | .dispatch io => clientActiveFdProcess io s

/-- What the client finds when it starts; `established` tells whether `connect` completed
at once or answered `EINPROGRESS` (any other answer ends the program). -/
structure ClientLaunch where
  inherited : List Fd
  socketFd : Fd
  epollFd : Fd
  socketPtr : Addr
  stdinPtr : Addr
  socketGranted : Bool
  stdinGranted : Bool
  established : Bool
  socket_new : socketFd ∉ inherited
  epoll_new : epollFd ∉ socketFd :: inherited
  ptr_new : stdinPtr ≠ socketPtr

def clientKernel (l : ClientLaunch) : Kernel where
  files fd :=
    if fd = l.socketFd then some (.stream socketStream)
    else if fd = l.epollFd then some .epoll
    else if fd ∈ l.inherited then some (if fd = 0 then .stream stdinStream else .other)
    else none
  epollFd := l.epollFd
  interest := ∅
  streams id := if id = socketStream then { established := l.established } else {}
  nextStream := 2

def socketEvent (l : ClientLaunch) : SocketEvent ClientCallback where
  fd := l.socketFd
  epollFd := l.epollFd
  events := epollIn ||| epollOut
  readCallback := some .socketRead
  writeCallback := some .socketConnect

def stdinEvent (l : ClientLaunch) : SocketEvent ClientCallback where
  fd := 0
  epollFd := l.epollFd
  events := epollIn
  readCallback := some .stdinRead
  writeCallback := none

/-- The state in which `main` enters its loop. -/
def clientMain (l : ClientLaunch) : ClientState :=
  let (_, k) := socketEventOp l.socketGranted (clientKernel l) l.socketPtr (socketEvent l) .add
  let (_, k) := socketEventOp l.stdinGranted k l.stdinPtr (stdinEvent l) .add
  { kernel := k
    heap := Function.update (Function.update (fun _ => none) l.socketPtr (some (socketEvent l)))
      l.stdinPtr (some (stdinEvent l))
    batch := []
    gSocketFd := l.socketFd
    writes := []
    outCalls := [] }

/-! ## What a step can do -/

theorem socketReadCallback_cases {ptr : Addr} {userEvent : SocketEvent ClientCallback}
    {s s' : ClientState} {io : ClientAnswers} (h : socketReadCallback ptr userEvent s io = some s') :
    (∃ id f, s' = { s with kernel := s.kernel.mapStream id f }) ∨
    ∃ granted, s' = { s with
      kernel := (socketEventOp granted s.kernel ptr userEvent .del).2.close userEvent.fd } := by
  cases io with
  | socket readAnswer granted =>
    obtain ⟨⟨ret, bytes, k⟩, hread, h⟩ := Option.bind_eq_some_iff.mp h
    rcases Kernel.read_cases hread with ⟨hret, rfl⟩ | ⟨id, rest, -, hpos, -, rfl, -, rfl⟩
    · right
      simp only [show ¬ 0 < ret by omega, if_false, ite_self, Option.some.injEq] at h
      exact ⟨granted, h.symm⟩
    · left
      simp only [show (0 : Int) < bytes.length by omega, if_true, Option.some.injEq] at h
      exact ⟨id, _, h.symm⟩
  | stdin => cases h
  | modifying => cases h
  | idle => cases h

theorem stdinReadCallback_cases {ptr : Addr} {userEvent : SocketEvent ClientCallback}
    {s s' : ClientState} {io : ClientAnswers} (h : stdinReadCallback ptr userEvent s io = some s') :
    (∃ streams call, s' = { s with
      kernel := { s.kernel with streams := streams }, writes := s.writes ++ [call] }) ∨
    ∃ granted, s' = { s with
      kernel := (socketEventOp granted s.kernel ptr userEvent .del).2.close userEvent.fd } := by
  cases io with
  | stdin readAnswer writeAnswer granted =>
    obtain ⟨⟨ret, bytes, k⟩, hread, h⟩ := Option.bind_eq_some_iff.mp h
    rcases Kernel.read_cases hread with ⟨hret, rfl⟩ | ⟨id, rest, -, hpos, -, rfl, -, rfl⟩
    · right
      simp only [show ¬ 0 < ret by omega, if_false, Option.some.injEq] at h
      exact ⟨granted, h.symm⟩
    · left
      simp only [show (0 : Int) < bytes.length by omega, if_true] at h
      obtain ⟨⟨wret, k'⟩, hwrite, h⟩ := Option.bind_eq_some_iff.mp h
      rcases Kernel.write_cases hwrite with ⟨-, rfl⟩ | ⟨id', taken, failed, -, -, rfl⟩
      · exact ⟨_, _, (Option.some.inj h).symm⟩
      · exact ⟨_, _, (Option.some.inj h).symm⟩
  | socket => cases h
  | modifying => cases h
  | idle => cases h

end RedisLuaLinux.LinuxC
