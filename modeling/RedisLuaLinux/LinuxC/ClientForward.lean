import RedisLuaLinux.LinuxC.Client

/-!
# What the client forwards

Seen from its two ends, the client is a `Forwarder`: it takes pieces of its input and hands
each to a connection that is established and closed at some time.

* `ClientShape`: which descriptor and which callbacks an event object has.
* `clientStep_forwards`: each step of the client is a step of the forwarder.
-/

namespace RedisLuaLinux.LinuxC

open Library

structure Forwarder where
  established : Bool
  opened : Bool
  received : List Byte
  -- the data of each write, and whether the connection stood at that time
  sent : List (List Byte × Bool)
  deriving DecidableEq, Repr

inductive ForwarderEvent
  | connect
  | hangUp
  | forward (piece : List Byte)
  | quiet
  deriving DecidableEq, Repr

/-- The last byte of a piece is dropped. -/
def Forwarder.step (f : Forwarder) : ForwarderEvent → Forwarder
  | .connect => { f with established := true }
  | .hangUp => { f with opened := false }
  | .forward piece =>
    { f with
      received := f.received ++ piece
      sent := f.sent ++ [(piece.dropLast, f.established && f.opened)] }
  | .quiet => f

def ClientState.forwarder (s : ClientState) : Forwarder where
  established := (s.kernel.streams socketStream).established
  opened := (s.kernel.files s.gSocketFd).isSome
  received := (s.kernel.streams stdinStream).received
  sent := s.writes.map fun call => (call.data, call.connected)

/-- What an event of the client is to the forwarder. -/
def Observes : ClientEvent → ForwarderEvent → Prop
  | .establish, a => a = .connect
  | .dispatch (.socket .eof _), a => a = .hangUp
  | .dispatch (.socket .error _), a => a = .hangUp
  | .dispatch (.stdin (.data count) _ _), a =>
    ∃ piece, a = .forward piece ∧ piece.length = count ∧ 0 < count ∧ count ≤ readBufMax
  | _, a => a = .quiet

/-- A read of the socket finds its end or an error. -/
def IsHangUp : ClientEvent → Prop
  | .dispatch (.socket .eof _) => True
  | .dispatch (.socket .error _) => True
  | _ => False

/-- Data is read from standard input. -/
def ReadsInput : ClientEvent → Prop
  | .dispatch (.stdin (.data _) _ _) => True
  | _ => False

theorem Observes.cases {e : ClientEvent} {a : ForwarderEvent} (h : Observes e a) :
    (e = .establish ∧ a = .connect) ∨ (IsHangUp e ∧ ¬ ReadsInput e ∧ e ≠ .establish ∧ a = .hangUp) ∨
    (∃ piece, ReadsInput e ∧ ¬ IsHangUp e ∧ e ≠ .establish ∧ 0 < piece.length ∧
      piece.length ≤ readBufMax ∧ a = .forward piece) ∨
    (¬ IsHangUp e ∧ ¬ ReadsInput e ∧ e ≠ .establish ∧ a = .quiet) := by
  unfold Observes at h
  split at h
  · exact Or.inl ⟨rfl, h⟩
  · exact Or.inr (Or.inl ⟨trivial, id, nofun, h⟩)
  · exact Or.inr (Or.inl ⟨trivial, id, nofun, h⟩)
  · obtain ⟨piece, rfl, rfl, hpos, hsize⟩ := h
    exact Or.inr (Or.inr (Or.inl ⟨piece, trivial, id, nofun, hpos, hsize, rfl⟩))
  · rename_i hestablish heof herror hdata
    refine Or.inr (Or.inr (Or.inr ⟨fun hhang => ?_, fun hreads => ?_, hestablish, h⟩))
    · unfold IsHangUp at hhang
      split at hhang
      · exact heof _ rfl
      · exact herror _ rfl
      · exact hhang
    · unfold ReadsInput at hreads
      split at hreads
      · exact hdata _ _ _ rfl
      · exact hreads

/-- Objects are for the socket or for standard input, which lead to their streams while they are
open. -/
structure ClientShape (s : ClientState) : Prop where
  socket_ne : s.gSocketFd ≠ 0
  objects : ∀ ptr userEvent, s.heap ptr = some userEvent →
    (userEvent.fd = s.gSocketFd ∧ userEvent.readCallback = some .socketRead ∧
      userEvent.writeCallback ≠ some .stdinRead ∧ userEvent.writeCallback ≠ some .socketRead) ∨
    (userEvent.fd = 0 ∧ userEvent.readCallback = some .stdinRead ∧ userEvent.writeCallback = none)
  socketFile : s.kernel.files s.gSocketFd = some (.stream socketStream) ∨
    s.kernel.files s.gSocketFd = none
  stdinFile : s.kernel.files 0 = some (.stream stdinStream) ∨ s.kernel.files 0 = none

variable {s s' : ClientState}

theorem ClientShape.connected (h : ClientShape s) :
    s.kernel.connected s.gSocketFd = (s.forwarder.established && s.forwarder.opened) := by
  unfold Kernel.connected ClientState.forwarder
  rcases h.socketFile with hfile | hfile
  · simp [Kernel.stream?, hfile]
  · simp [Kernel.stream?, hfile]

/-- The objects are kept by a step that leaves them alone, or rewrites one in its place. -/
theorem ClientShape.keep (h : ClientShape s) (hfd : s'.gSocketFd = s.gSocketFd)
    (hheap : s'.heap = s.heap)
    (hfiles : ∀ fd, s'.kernel.files fd = s.kernel.files fd ∨ s'.kernel.files fd = none) :
    ClientShape s' := by
  refine ⟨?_, ?_, ?_, ?_⟩
  · rw [hfd]
    exact h.socket_ne
  · rw [hheap, hfd]
    exact h.objects
  · rw [hfd]
    rcases hfiles s.gSocketFd with heq | hnone
    · rw [heq]
      exact h.socketFile
    · exact Or.inr hnone
  · rcases hfiles 0 with heq | hnone
    · rw [heq]
      exact h.stdinFile
    · exact Or.inr hnone

/-! ## The callbacks -/

/-- A kernel that has the same descriptors, with the same connections behind them. -/
structure SameLinks (k k' : Kernel) : Prop where
  files : k'.files = k.files
  established : ∀ id, (k'.streams id).established = (k.streams id).established

theorem Kernel.mapStream_streams (k : Kernel) (id id' : StreamId) (f : Stream → Stream) :
    (k.mapStream id f).streams id' = if id' = id then f (k.streams id') else k.streams id' := by
  unfold Kernel.mapStream
  by_cases heq : id' = id
  · subst heq
    simp
  · simp [heq]

theorem sameLinks_mapStream {k : Kernel} {id : StreamId} {f : Stream → Stream}
    (hf : ∀ st, (f st).established = st.established) : SameLinks k (k.mapStream id f) := by
  refine ⟨rfl, fun id' => ?_⟩
  rw [Kernel.mapStream_streams]
  split
  · exact hf _
  · rfl

theorem Kernel.write_frame {k k' : Kernel} {fd : Fd} {buf : List Byte} {answer : WriteAnswer} {ret : Int}
    (h : k.write fd buf answer = some (ret, k')) :
    SameLinks k k' ∧ ∀ id, (k'.streams id).received = (k.streams id).received := by
  rcases Kernel.write_cases h with ⟨-, rfl⟩ | ⟨id, taken, failed, -, -, rfl⟩
  · exact ⟨⟨rfl, fun _ => rfl⟩, fun _ => rfl⟩
  · refine ⟨sameLinks_mapStream fun _ => rfl, fun id' => ?_⟩
    rw [Kernel.mapStream_streams]
    split
    · rfl
    · rfl

theorem SameLinks.trans {k k' k'' : Kernel} (h : SameLinks k k') (h' : SameLinks k' k'') :
    SameLinks k k'' :=
  ⟨h'.files.trans h.files, fun id => (h'.established id).trans (h.established id)⟩

theorem SameLinks.connected {k k' : Kernel} (h : SameLinks k k') (fd : Fd) :
    k'.connected fd = k.connected fd := by
  unfold Kernel.connected Kernel.stream?
  rw [h.files]
  split
  · exact h.established _
  · rfl

/-- The bytes that are left once the last one is overwritten. -/
theorem sentData {bytes : List Byte} {count : Nat} (hlen : bytes.length = count) :
    ((filledBuf bytes).set (count - 1) 0).take (count - 1) = bytes.dropLast := by
  rw [List.take_set_of_le (Nat.le_refl _), filledBuf, List.take_append_of_le_length (by omega),
    List.dropLast_eq_take, hlen]

section Callbacks

variable {ptr : Addr} {userEvent : SocketEvent ClientCallback} {io : ClientAnswers}

/-- Data from standard input: all but the last byte is handed to `write`. -/
theorem stdinReadCallback_data {count : Nat} {answer : WriteAnswer} {granted : Bool}
    (h : stdinReadCallback ptr userEvent s (.stdin (.data count) answer granted) = some s') :
    ∃ id bytes k, s.kernel.files userEvent.fd = some (.stream id) ∧ bytes.length = count ∧ 0 < count ∧
      count ≤ readBufMax ∧ SameLinks s.kernel k ∧
      (∀ id', (k.streams id').received =
        if id' = id then (s.kernel.streams id').received ++ bytes else (s.kernel.streams id').received) ∧
      s' = { s with
        kernel := k
        writes := s.writes ++ [⟨s.gSocketFd, bytes.dropLast, s.kernel.connected s.gSocketFd⟩] } := by
  obtain ⟨⟨ret, bytes, k⟩, hread, h⟩ := Option.bind_eq_some_iff.mp h
  obtain ⟨id, rest, hfile, hpos, hsize, hlen, rfl, hinbound, rfl⟩ := Kernel.read_data hread
  simp only [show (0 : Int) < count by omega, if_true] at h
  obtain ⟨⟨wret, k⟩, hwrite, h⟩ := Option.bind_eq_some_iff.mp h
  obtain ⟨hwritten, hreceived⟩ := Kernel.write_frame hwrite
  have hkept : SameLinks s.kernel (s.kernel.mapStream id fun st =>
      { st with inbound := rest, received := st.received ++ bytes }) := sameLinks_mapStream fun _ => rfl
  have hconnected : (s.kernel.mapStream id fun st =>
      { st with inbound := rest, received := st.received ++ bytes }).connected s.gSocketFd =
      s.kernel.connected s.gSocketFd := hkept.connected s.gSocketFd
  refine ⟨id, bytes, k, hfile, hlen, hpos, hsize, hkept.trans hwritten, fun id' => ?_, ?_⟩
  · rw [hreceived, Kernel.mapStream_streams]
    split
    · rfl
    · rfl
  · rw [← Option.some.inj h, hconnected, Int.toNat_natCast, sentData hlen]

/-- The end of standard input, or an error. -/
theorem stdinReadCallback_end {answer : ReadAnswer} {write : WriteAnswer} {granted : Bool}
    (ha : ∀ count, answer ≠ .data count)
    (h : stdinReadCallback ptr userEvent s (.stdin answer write granted) = some s') :
    s' = { s with kernel := (socketEventOp granted s.kernel ptr userEvent .del).2.close userEvent.fd } := by
  obtain ⟨⟨ret, bytes, k⟩, hread, h⟩ := Option.bind_eq_some_iff.mp h
  obtain ⟨hret, -, rfl⟩ := Kernel.read_none ha hread
  simp only [show ¬ 0 < ret by omega, if_false, Option.some.injEq] at h
  exact h.symm

/-- Data from the socket is read and dropped. -/
theorem socketReadCallback_data {count : Nat} {granted : Bool}
    (h : socketReadCallback ptr userEvent s (.socket (.data count) granted) = some s') :
    ∃ id k, s.kernel.files userEvent.fd = some (.stream id) ∧ SameLinks s.kernel k ∧
      (∀ id', id' ≠ id → (k.streams id').received = (s.kernel.streams id').received) ∧
      s' = { s with kernel := k } := by
  obtain ⟨⟨ret, bytes, k⟩, hread, h⟩ := Option.bind_eq_some_iff.mp h
  obtain ⟨id, rest, hfile, hpos, -, -, rfl, -, rfl⟩ := Kernel.read_data hread
  simp only [show (0 : Int) < count by omega, if_true, Option.some.injEq] at h
  have hkept : SameLinks s.kernel (s.kernel.mapStream id fun st =>
      { st with inbound := rest, received := st.received ++ bytes }) := sameLinks_mapStream fun _ => rfl
  refine ⟨id, _, hfile, hkept, fun id' hne => ?_, h.symm⟩
  rw [Kernel.mapStream_streams, if_neg hne]

theorem socketReadCallback_end {answer : ReadAnswer} {granted : Bool}
    (ha : ∀ count, answer ≠ .data count)
    (h : socketReadCallback ptr userEvent s (.socket answer granted) = some s') :
    s' = { s with kernel := (socketEventOp granted s.kernel ptr userEvent .del).2.close userEvent.fd } := by
  obtain ⟨⟨ret, bytes, k⟩, hread, h⟩ := Option.bind_eq_some_iff.mp h
  obtain ⟨hret, -, rfl⟩ := Kernel.read_none ha hread
  simp only [show ¬ 0 < ret by omega, if_false, ite_self, Option.some.injEq] at h
  exact h.symm

end Callbacks

/-! ## One step -/

/-- A step that neither sends nor reads standard input, nor opens or closes the socket. -/
theorem forwarder_same (hlinks : SameLinks s.kernel s'.kernel) (hfd : s'.gSocketFd = s.gSocketFd)
    (hwrites : s'.writes = s.writes)
    (hreceived : (s'.kernel.streams stdinStream).received = (s.kernel.streams stdinStream).received) :
    s'.forwarder = s.forwarder := by
  unfold ClientState.forwarder
  rw [hlinks.files, hlinks.established, hfd, hwrites, hreceived]

/-- A descriptor is closed, with its entry in the interest list. -/
theorem forwarder_close {ptr : Addr} {userEvent : SocketEvent ClientCallback} {granted : Bool}
    (hs : ClientShape s) (hs' : s' = { s with
      kernel := (socketEventOp granted s.kernel ptr userEvent .del).2.close userEvent.fd }) :
    ClientShape s' ∧ s'.forwarder = { s.forwarder with
      opened := if userEvent.fd = s.gSocketFd then false else s.forwarder.opened } := by
  obtain ⟨hfiles, -, hstreams, -⟩ := close_after_del granted s.kernel ptr userEvent
  subst hs'
  refine ⟨hs.keep rfl rfl fun fd => ?_, ?_⟩
  · dsimp only
    rw [hfiles]
    by_cases heq : fd = userEvent.fd
    · rw [heq, Function.update_self]
      exact Or.inr rfl
    · rw [Function.update_of_ne heq]
      exact Or.inl rfl
  · unfold ClientState.forwarder
    dsimp only
    rw [hfiles, hstreams, Function.update_apply]
    by_cases heq : userEvent.fd = s.gSocketFd
    · rw [if_pos heq.symm, if_pos heq]
      rfl
    · rw [if_neg (Ne.symm heq), if_neg heq]

/-- The two write callbacks rewrite the object of the socket in its place. -/
theorem rewriteEvent_forwards {ptr : Addr} {updated : SocketEvent ClientCallback} {io : ClientAnswers}
    (hs : ClientShape s)
    (hupdated : updated.fd = s.gSocketFd ∧ updated.readCallback = some .socketRead ∧
      updated.writeCallback ≠ some .stdinRead ∧ updated.writeCallback ≠ some .socketRead)
    (h : rewriteEvent ptr updated s io = some s') :
    ClientShape s' ∧ ∃ a, Observes (.dispatch io) a ∧ s'.forwarder = s.forwarder.step a := by
  cases io with
  | modifying granted =>
    obtain ⟨hfiles, -⟩ := socketEventOp_files granted s.kernel ptr updated .mod
    have hstreams := socketEventOp_streams granted s.kernel ptr updated .mod
    cases h
    refine ⟨⟨hs.socket_ne, fun ptr' userEvent hheap => ?_, ?_, ?_⟩, .quiet, rfl, ?_⟩
    · have hheap : Function.update s.heap ptr (some updated) ptr' = some userEvent := hheap
      by_cases heq : ptr' = ptr
      · rw [heq, Function.update_self] at hheap
        cases hheap
        exact Or.inl hupdated
      · rw [Function.update_of_ne heq] at hheap
        exact hs.objects ptr' userEvent hheap
    · dsimp only
      rw [hfiles]
      exact hs.socketFile
    · dsimp only
      rw [hfiles]
      exact hs.stdinFile
    · refine forwarder_same ⟨hfiles, fun id => ?_⟩ rfl rfl ?_
      · dsimp only
        rw [hstreams]
      · dsimp only
        rw [hstreams]
  | stdin => cases h
  | socket => cases h
  | idle => cases h

theorem stream_eq {file : Option File} {id id' : StreamId} (hfile : file = some (.stream id))
    (h : file = some (.stream id') ∨ file = none) : id = id' := by
  rcases h with h | h
  · rw [hfile] at h
    exact File.stream.inj (Option.some.inj h)
  · rw [hfile] at h
    cases h

section Reads

variable {ptr : Addr} {userEvent : SocketEvent ClientCallback} {io : ClientAnswers}

theorem socketReadCallback_forwards (hs : ClientShape s) (hfd : userEvent.fd = s.gSocketFd)
    (h : socketReadCallback ptr userEvent s io = some s') :
    ClientShape s' ∧ ∃ a, Observes (.dispatch io) a ∧ s'.forwarder = s.forwarder.step a := by
  cases io with
  | socket answer granted =>
    have hend : (∀ count, answer ≠ .data count) → ClientShape s' ∧
        s'.forwarder = s.forwarder.step .hangUp := by
      intro ha
      have hclosed := forwarder_close hs (socketReadCallback_end ha h)
      rw [if_pos hfd] at hclosed
      exact hclosed
    cases answer with
    | data count =>
      obtain ⟨id, k, hfile, hlinks, hreceived, rfl⟩ := socketReadCallback_data h
      rw [hfd] at hfile
      obtain rfl := stream_eq hfile hs.socketFile
      refine ⟨hs.keep rfl rfl fun fd => Or.inl (congrFun hlinks.files fd), .quiet, rfl, ?_⟩
      exact forwarder_same hlinks rfl rfl (hreceived stdinStream (by decide))
    | eof =>
      obtain ⟨hshape, hforwarder⟩ := hend nofun
      exact ⟨hshape, .hangUp, rfl, hforwarder⟩
    | error =>
      obtain ⟨hshape, hforwarder⟩ := hend nofun
      exact ⟨hshape, .hangUp, rfl, hforwarder⟩
  | stdin => cases h
  | modifying => cases h
  | idle => cases h

theorem stdinReadCallback_forwards (hs : ClientShape s) (hfd : userEvent.fd = 0)
    (h : stdinReadCallback ptr userEvent s io = some s') :
    ClientShape s' ∧ ∃ a, Observes (.dispatch io) a ∧ s'.forwarder = s.forwarder.step a := by
  cases io with
  | stdin answer write granted =>
    have hend : (∀ count, answer ≠ .data count) → ClientShape s' ∧ s'.forwarder = s.forwarder := by
      intro ha
      have hclosed := forwarder_close hs (stdinReadCallback_end ha h)
      rw [if_neg (by rw [hfd]; exact Ne.symm hs.socket_ne)] at hclosed
      exact hclosed
    cases answer with
    | data count =>
      obtain ⟨id, bytes, k, hfile, hlen, hpos, hsize, hlinks, hreceived, rfl⟩ := stdinReadCallback_data h
      rw [hfd] at hfile
      obtain rfl := stream_eq hfile hs.stdinFile
      refine ⟨hs.keep rfl rfl fun fd => Or.inl (congrFun hlinks.files fd), .forward bytes,
        ⟨bytes, rfl, hlen, hpos, hsize⟩, ?_⟩
      unfold ClientState.forwarder Forwarder.step
      simp only [hlinks.files, hlinks.established, hreceived, if_pos, List.map_append, List.map_cons,
        List.map_nil, hs.connected]
      rfl
    | eof =>
      obtain ⟨hshape, hforwarder⟩ := hend nofun
      exact ⟨hshape, .quiet, rfl, hforwarder⟩
    | error =>
      obtain ⟨hshape, hforwarder⟩ := hend nofun
      exact ⟨hshape, .quiet, rfl, hforwarder⟩
  | socket => cases h
  | modifying => cases h
  | idle => cases h

end Reads

theorem clientCallback_forwards {ptr : Addr} {userEvent : SocketEvent ClientCallback} {io : ClientAnswers}
    {callback : ClientCallback} (hs : ClientShape s) (hheap : s.heap ptr = some userEvent)
    (hcallback : userEvent.readCallback = some callback ∨ userEvent.writeCallback = some callback)
    (h : clientCallback ptr s io callback userEvent = some s') :
    ClientShape s' ∧ ∃ a, Observes (.dispatch io) a ∧ s'.forwarder = s.forwarder.step a := by
  -- the object tells which descriptor the callback is for
  have hkind := hs.objects ptr userEvent hheap
  cases callback with
  | socketRead => exact socketReadCallback_forwards hs (by grind) h
  | stdinRead => exact stdinReadCallback_forwards hs (by grind) h
  | socketConnect => exact rewriteEvent_forwards hs (by grind) h
  | socketWrite => exact rewriteEvent_forwards hs (by grind) h

/-- Each step of the client is a step of the forwarder. -/
theorem clientStep_forwards {e : ClientEvent} (hs : ClientShape s) (h : clientStep s e = some s') :
    ClientShape s' ∧ ∃ a, Observes e a ∧ s'.forwarder = s.forwarder.step a := by
  cases e with
  | arrive id bytes =>
    obtain ⟨k, hk, rfl⟩ := Option.map_eq_some_iff.mp h
    unfold Kernel.arrive at hk
    split at hk
    · have hlinks : SameLinks s.kernel (s.kernel.mapStream id fun st =>
          { st with sent := st.sent ++ bytes, inbound := st.inbound ++ bytes }) :=
        sameLinks_mapStream fun _ => rfl
      cases hk
      refine ⟨hs.keep rfl rfl fun _ => Or.inl rfl, .quiet, rfl, forwarder_same hlinks rfl rfl ?_⟩
      rw [Kernel.mapStream_streams]
      split
      · rfl
      · rfl
    · cases hk
  | establish =>
    cases h
    refine ⟨hs.keep rfl rfl fun _ => Or.inl rfl, .connect, rfl, ?_⟩
    have hother : stdinStream ≠ socketStream := by decide
    unfold ClientState.forwarder
    simp only [Kernel.mapStream_streams, if_pos, if_neg hother]
    rfl
  | epollWait rs =>
    simp only [clientStep] at h
    split at h
    · cases h
      exact ⟨hs.keep rfl rfl fun _ => Or.inl rfl, .quiet, rfl, rfl⟩
    · cases h
  | dispatch io =>
    simp only [clientStep, clientActiveFdProcess] at h
    split at h
    · cases h
    · rename_i r rest hbatch
      obtain ⟨userEvent, hheap, hcases⟩ := dispatchRecord_cases h
      rcases hcases with ⟨-, callback, hcallback, hrun⟩ | ⟨-, -, callback, hcallback, hrun⟩ | ⟨-, -, hidle⟩
      · have htaken : ClientShape { s with batch := rest } := hs.keep rfl rfl fun _ => Or.inl rfl
        have hforwards := clientCallback_forwards htaken hheap (Or.inl hcallback) hrun
        exact hforwards
      · have htaken : ClientShape { s with batch := rest, outCalls := s.outCalls ++ [callback] } :=
          hs.keep rfl rfl fun _ => Or.inl rfl
        have hforwards := clientCallback_forwards htaken hheap (Or.inr hcallback) hrun
        exact hforwards
      · split at hidle
        · rename_i hio
          subst hio
          cases hidle
          exact ⟨hs.keep rfl rfl fun _ => Or.inl rfl, .quiet, rfl, rfl⟩
        · cases hidle

/-! ## Runs -/

/-- A client that is started with standard input open. -/
theorem clientMain_shape {l : ClientLaunch} (hstdin : 0 ∈ l.inherited) : ClientShape (clientMain l) := by
  have hsocket : (0 : Fd) ≠ l.socketFd := by
    intro heq
    exact l.socket_new (heq ▸ hstdin)
  have hepoll : (0 : Fd) ≠ l.epollFd := by
    intro heq
    exact l.epoll_new (List.mem_cons_of_mem _ (heq ▸ hstdin))
  have hfiles : (clientMain l).kernel.files = (clientKernel l).files := by
    unfold clientMain
    dsimp only
    rw [(socketEventOp_files _ _ _ _ _).1, (socketEventOp_files _ _ _ _ _).1]
  refine ⟨Ne.symm hsocket, fun ptr userEvent hheap => ?_, ?_, ?_⟩
  · have hheap : Function.update (Function.update (fun _ => none) l.socketPtr (some (socketEvent l)))
        l.stdinPtr (some (stdinEvent l)) ptr = some userEvent := hheap
    by_cases hptr : ptr = l.stdinPtr
    · rw [hptr, Function.update_self] at hheap
      cases hheap
      exact Or.inr ⟨rfl, rfl, rfl⟩
    · rw [Function.update_of_ne hptr] at hheap
      by_cases hptr : ptr = l.socketPtr
      · rw [hptr, Function.update_self] at hheap
        cases hheap
        exact Or.inl ⟨rfl, rfl, nofun, nofun⟩
      · rw [Function.update_of_ne hptr] at hheap
        cases hheap
  · rw [hfiles]
    exact Or.inl (if_pos rfl)
  · rw [hfiles]
    left
    simp [clientKernel, hsocket, hepoll, hstdin]

theorem clientMain_forwarder (l : ClientLaunch) : (clientMain l).forwarder = ⟨l.established, true, [], []⟩ := by
  have hfiles : (clientMain l).kernel.files l.socketFd = some (.stream socketStream) := by
    unfold clientMain
    dsimp only
    rw [(socketEventOp_files _ _ _ _ _).1, (socketEventOp_files _ _ _ _ _).1]
    exact if_pos rfl
  have hstreams : (clientMain l).kernel.streams = (clientKernel l).streams := by
    unfold clientMain
    dsimp only
    rw [socketEventOp_streams, socketEventOp_streams]
  have hfd : (clientMain l).gSocketFd = l.socketFd := rfl
  unfold ClientState.forwarder
  rw [hfd, hfiles, hstreams]
  rfl

/-- A run of the client, with no condition on its steps. -/
abbrev AnyClientRun (l : ClientLaunch) := Run clientStep AnyStep (clientMain l)

/-- What holds at the start and is kept by the steps of the forwarder holds after every run. -/
theorem AnyClientRun.induction {l : ClientLaunch} (hstdin : 0 ∈ l.inherited)
    {P : List ClientEvent → Forwarder → Prop} (hstart : P [] ⟨l.established, true, [], []⟩)
    (hstep : ∀ es f e a, P es f → Observes e a → P (es ++ [e]) (f.step a))
    {es : List ClientEvent} {s : ClientState} (h : AnyClientRun l es s) :
    ClientShape s ∧ P es s.forwarder := by
  induction h with
  | nil =>
    refine ⟨clientMain_shape hstdin, ?_⟩
    rw [clientMain_forwarder]
    exact hstart
  | snoc _ _ hs ih =>
    obtain ⟨hshape, hp⟩ := ih
    obtain ⟨hshape', a, hobserves, hforwarder⟩ := clientStep_forwards hshape hs
    refine ⟨hshape', ?_⟩
    rw [hforwarder]
    exact hstep _ _ _ _ hp hobserves

end RedisLuaLinux.LinuxC
