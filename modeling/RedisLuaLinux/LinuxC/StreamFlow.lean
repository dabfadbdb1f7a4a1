import RedisLuaLinux.LinuxC.ClientDispatch
import RedisLuaLinux.LinuxC.ClientForward
import RedisLuaLinux.LinuxC.Echo

/-!
# What the programs do to their streams

Even where a write fails on its way, the server writes back a part of what it has read, in its order,
and the client writes a part of what it has read from standard input.

* `serverStep_flow`, `clientStep_flow`: a step of either program on the histories of its streams.
* `ClientEnd`: what holds of the client's own end of the connection.
-/

namespace RedisLuaLinux.LinuxC

open Library

/-- Reads take what has arrived, writes add to what was written, and nothing else changes. -/
structure Flow (st st' : Stream) : Prop where
  sent : st'.sent = st.sent
  held : st'.received ++ st'.inbound = st.received ++ st.inbound
  written : st.written <+: st'.written

theorem Flow.refl (st : Stream) : Flow st st := ⟨rfl, rfl, List.prefix_refl _⟩

/-- A write takes the first bytes of its buffer. -/
theorem Kernel.write_taken {k k' : Kernel} {fd : Fd} {buf : List Byte} {answer : WriteAnswer} {ret : Int}
    (h : k.write fd buf answer = some (ret, k')) :
    (k.stream? fd = none ∧ k' = k) ∨
    ∃ id taken failed, k.files fd = some (.stream id) ∧ taken <+: buf ∧
      k' = k.mapStream id fun st =>
        { st with written := st.written ++ taken, writeFailed := st.writeFailed || failed } := by
  cases answer with
  | full =>
    obtain ⟨id, hid, h⟩ := Option.bind_eq_some_iff.mp h
    split at h
    · simp only [Option.some.injEq, Prod.mk.injEq] at h
      refine Or.inr ⟨id, buf, false, Kernel.stream?_eq_some.mp hid, List.prefix_refl buf, ?_⟩
      rw [← h.2]
      simp only [Bool.or_false]
    · cases h
  | fails taken =>
    simp only [write] at h
    split at h
    · rename_i hnone
      cases h
      exact Or.inl ⟨hnone, rfl⟩
    · rename_i id hid
      split at h
      · simp only [Option.some.injEq, Prod.mk.injEq] at h
        refine Or.inr ⟨id, buf.take taken, true, Kernel.stream?_eq_some.mp hid, List.take_prefix taken buf, ?_⟩
        rw [← h.2]
        simp only [Bool.or_true]
      · cases h

/-! ## The server -/

/-- What has been read from a connection is written back to it, as far as the write goes. -/
theorem clientReadCallback_echo {ptr : Addr} {userEvent : SocketEvent ServerCallback} {m m' : ServerState}
    {io : ServerAnswers} (h : clientReadCallback ptr userEvent m io = some m') :
    m'.kernel.streams = m.kernel.streams ∨
    ∃ id bytes rest taken failed, (m.kernel.streams id).inbound = bytes ++ rest ∧ taken <+: bytes ∧
      m'.kernel.streams = Function.update m.kernel.streams id
        { m.kernel.streams id with
          inbound := rest
          received := (m.kernel.streams id).received ++ bytes
          written := (m.kernel.streams id).written ++ taken
          writeFailed := (m.kernel.streams id).writeFailed || failed } := by
  cases io with
  | accepting => cases h
  | idle => cases h
  | reading readAnswer writeAnswer granted =>
    obtain ⟨⟨ret, bytes, k⟩, hread, h⟩ := Option.bind_eq_some_iff.mp h
    rcases Kernel.read_cases hread with ⟨hret, rfl⟩ | ⟨id, rest, hid, hpos, -, rfl, hin, rfl⟩
    · left
      simp only [show ¬ 0 < ret by omega, if_false, ite_self, Option.some.injEq] at h
      rw [← h]
      exact (close_after_del granted m.kernel ptr userEvent).2.2.1
    · right
      simp only [show (0 : Int) < bytes.length by omega, if_true, Int.toNat_natCast, filledBuf_take] at h
      obtain ⟨⟨wret, k'⟩, hwrite, h⟩ := Option.bind_eq_some_iff.mp h
      rcases Kernel.write_taken hwrite with ⟨hnone, -⟩ | ⟨id', taken, failed, hid', htaken, rfl⟩
      · have hsome := Kernel.stream?_eq_some.mpr hid
        rw [show m.kernel.stream? userEvent.fd = none from hnone] at hsome
        cases hsome
      · have hsame : some (File.stream id) = some (File.stream id') := hid.symm.trans hid'
        cases hsame
        refine ⟨id, bytes, rest, taken, failed, hin, htaken, ?_⟩
        rw [← Option.some.inj h]
        simp [Kernel.mapStream]

def Stream.Echoed (st : Stream) : Prop := st.written.Sublist st.received

theorem serverStep_flow {m m' : ServerState} {e : ServerEvent} (h : serverStep m e = some m')
    (he : ∀ id bytes, e ≠ .arrive id bytes) (id : StreamId) :
    Flow (m.kernel.streams id) (m'.kernel.streams id) ∧
      ((m.kernel.streams id).Echoed → (m'.kernel.streams id).Echoed) := by
  have hkept (hs : m'.kernel.streams = m.kernel.streams) : Flow (m.kernel.streams id) (m'.kernel.streams id) ∧
      ((m.kernel.streams id).Echoed → (m'.kernel.streams id).Echoed) := by
    rw [hs]
    exact ⟨Flow.refl _, fun hechoed => hechoed⟩
  rcases serverStep_cases h with ⟨id', bytes, k, rfl, -⟩ | ⟨rs, -, -, -, rfl⟩ |
      ⟨io, r, rest, userEvent, -, -, -, hcallback⟩
  · exact absurd rfl (he id' bytes)
  · exact hkept rfl
  · rcases hcallback with hcb | hcb | ⟨-, rfl⟩
    · rcases socketAcceptCallback_cases hcb with ⟨-, -, -, rfl⟩ | ⟨newFd, eventPtr, granted, -, -, -, rfl⟩
      · exact hkept rfl
      · exact hkept (socketEventOp_streams _ _ _ _ _)
    · rcases clientReadCallback_echo hcb with hs | ⟨id', bytes, rest, taken, failed, hin, htaken, hs⟩
      · exact hkept hs
      · rw [hs]
        by_cases heq : id = id'
        · subst heq
          rw [Function.update_self]
          have hin : (m.kernel.streams id).inbound = bytes ++ rest := hin
          refine ⟨⟨rfl, ?_, List.prefix_append _ _⟩, fun hechoed => ?_⟩
          · show (m.kernel.streams id).received ++ bytes ++ rest = _
            rw [hin, List.append_assoc]
          · exact hechoed.append htaken.sublist
        · rw [Function.update_of_ne heq]
          exact ⟨Flow.refl _, fun hechoed => hechoed⟩
    · exact hkept rfl

/-- The bytes that come in on a connection. -/
def ServerEvent.bytesFor (id : StreamId) : ServerEvent → List Byte
  | arrive id' bytes => if id = id' then bytes else []
  | _ => []

theorem serverStep_histories {m m' : ServerState} {e : ServerEvent} (h : serverStep m e = some m')
    (id : StreamId) :
    (m'.kernel.streams id).sent = (m.kernel.streams id).sent ++ e.bytesFor id ∧
      (m.kernel.streams id).written <+: (m'.kernel.streams id).written ∧
      ((m.kernel.streams id).Echoed → (m'.kernel.streams id).Echoed) := by
  cases e with
  | arrive id' bytes =>
    obtain ⟨k, hk, rfl⟩ := Option.map_eq_some_iff.mp h
    unfold Kernel.arrive at hk
    split at hk
    · cases hk
      simp only [Kernel.mapStream_streams, ServerEvent.bytesFor]
      split
      · exact ⟨rfl, List.prefix_refl _, fun hechoed => hechoed⟩
      · exact ⟨(List.append_nil _).symm, List.prefix_refl _, fun hechoed => hechoed⟩
    · cases hk
  | epollWait | dispatch =>
    obtain ⟨hflow, hechoed⟩ := serverStep_flow h (by simp) id
    refine ⟨?_, hflow.written, hechoed⟩
    rw [hflow.sent]
    exact (List.append_nil _).symm

/-! ## The client -/

section Client

variable {s s' : ClientState}

/-- A line is taken from standard input, and a part of it written to the connection. -/
def Forwards (streams streams' : StreamId → Stream) : Prop :=
  ∃ bytes rest taken failed, (streams stdinStream).inbound = bytes ++ rest ∧ taken <+: bytes ∧
    streams' = Function.update
      (Function.update streams stdinStream { streams stdinStream with
        inbound := rest, received := (streams stdinStream).received ++ bytes })
      socketStream { streams socketStream with
        written := (streams socketStream).written ++ taken
        writeFailed := (streams socketStream).writeFailed || failed }

theorem rewriteEvent_streams {ptr : Addr} {updated : SocketEvent ClientCallback} {io : ClientAnswers}
    (h : rewriteEvent ptr updated s io = some s') : s'.kernel.streams = s.kernel.streams := by
  cases io with
  | stdin | socket | idle => cases h
  | modifying granted =>
    cases h
    exact socketEventOp_streams granted s.kernel ptr updated .mod

/-- What a callback does to the streams: nothing, a read of the socket, or a line forwarded. -/
theorem clientCallback_streams {ptr : Addr} {userEvent : SocketEvent ClientCallback} {io : ClientAnswers}
    {callback : ClientCallback} (hs : ClientShape s) (hheap : s.heap ptr = some userEvent)
    (hcallback : userEvent.readCallback = some callback ∨ userEvent.writeCallback = some callback)
    (h : clientCallback ptr s io callback userEvent = some s') :
    s'.kernel.streams = s.kernel.streams ∨
    (∃ bytes rest, (s.kernel.streams socketStream).inbound = bytes ++ rest ∧
      s'.kernel.streams = Function.update s.kernel.streams socketStream
        { s.kernel.streams socketStream with
          inbound := rest, received := (s.kernel.streams socketStream).received ++ bytes }) ∨
    Forwards s.kernel.streams s'.kernel.streams := by
  have hkind := hs.objects ptr userEvent hheap
  have hne : socketStream ≠ stdinStream := by decide
  cases callback with
  | socketRead =>
    have hfd : userEvent.fd = s.gSocketFd := by grind
    cases io with
    | stdin | modifying | idle => cases h
    | socket answer granted =>
      obtain ⟨⟨ret, bytes, k⟩, hread, h⟩ := Option.bind_eq_some_iff.mp h
      rcases Kernel.read_cases hread with ⟨hret, rfl⟩ | ⟨id, rest, hid, hpos, -, rfl, hin, rfl⟩
      · left
        simp only [show ¬ 0 < ret by omega, if_false, ite_self, Option.some.injEq] at h
        rw [← h]
        exact (close_after_del granted s.kernel ptr userEvent).2.2.1
      · right
        left
        rw [hfd] at hid
        obtain rfl := stream_eq hid hs.socketFile
        simp only [show (0 : Int) < bytes.length by omega, if_true, Option.some.injEq] at h
        exact ⟨bytes, rest, hin, by rw [← h]; rfl⟩
  | stdinRead =>
    have hfd : userEvent.fd = 0 := by grind
    cases io with
    | socket | modifying | idle => cases h
    | stdin answer write granted =>
      obtain ⟨⟨ret, bytes, k⟩, hread, h⟩ := Option.bind_eq_some_iff.mp h
      rcases Kernel.read_cases hread with ⟨hret, rfl⟩ | ⟨id, rest, hid, hpos, -, rfl, hin, rfl⟩
      · left
        simp only [show ¬ 0 < ret by omega, if_false, Option.some.injEq] at h
        rw [← h]
        exact (close_after_del granted s.kernel ptr userEvent).2.2.1
      · right
        right
        rw [hfd] at hid
        obtain rfl := stream_eq hid hs.stdinFile
        simp only [show (0 : Int) < bytes.length by omega, if_true, Int.toNat_natCast,
          sentData rfl] at h
        obtain ⟨⟨wret, k'⟩, hwrite, h⟩ := Option.bind_eq_some_iff.mp h
        rw [← Option.some.inj h]
        rcases Kernel.write_taken hwrite with ⟨-, rfl⟩ | ⟨id', taken, failed, hid', htaken, rfl⟩
        · refine ⟨bytes, rest, [], false, hin, List.nil_prefix, ?_⟩
          rw [List.append_nil, Bool.or_false]
          exact (Function.update_eq_self_iff.mpr (Function.update_of_ne hne _ _).symm).symm
        · have hsocket : s.kernel.files s.gSocketFd = some (.stream id') := hid'
          obtain rfl := stream_eq hsocket hs.socketFile
          refine ⟨bytes, rest, taken, failed, hin, htaken.trans (List.dropLast_prefix bytes), ?_⟩
          simp only [Kernel.mapStream, Function.update_of_ne hne]
  | socketConnect => exact Or.inl (rewriteEvent_streams h)
  | socketWrite => exact Or.inl (rewriteEvent_streams h)

/-- The client's end of its connection. -/
structure ClientEnd (s : ClientState) : Prop where
  shape : ClientShape s
  held : (s.kernel.streams socketStream).sent =
    (s.kernel.streams socketStream).received ++ (s.kernel.streams socketStream).inbound
  typed : (s.kernel.streams socketStream).written.Sublist (s.kernel.streams stdinStream).received

theorem clientMain_end {l : ClientLaunch} (hstdin : 0 ∈ l.inherited) : ClientEnd (clientMain l) := by
  have hstreams : (clientMain l).kernel.streams = (clientKernel l).streams := by
    unfold clientMain
    dsimp only
    rw [socketEventOp_streams, socketEventOp_streams]
  refine ⟨clientMain_shape hstdin, ?_, ?_⟩
  · rw [hstreams]
    rfl
  · rw [hstreams]
    exact List.Sublist.refl []

/-- The bytes that come in over the connection. -/
def ClientEvent.socketBytes : ClientEvent → List Byte
  | arrive id bytes => if id = socketStream then bytes else []
  | _ => []

/-- How a step may change the two streams of a client. -/
structure ClientFlow (e : ClientEvent) (s s' : ClientState) : Prop where
  sent : (s'.kernel.streams socketStream).sent = (s.kernel.streams socketStream).sent ++ e.socketBytes
  written : (s.kernel.streams socketStream).written <+: (s'.kernel.streams socketStream).written
  held : (s'.kernel.streams socketStream).received ++ (s'.kernel.streams socketStream).inbound =
    (s.kernel.streams socketStream).received ++ (s.kernel.streams socketStream).inbound ++ e.socketBytes
  typed : (s.kernel.streams socketStream).written.Sublist (s.kernel.streams stdinStream).received →
    (s'.kernel.streams socketStream).written.Sublist (s'.kernel.streams stdinStream).received

theorem clientFlow_same {e : ClientEvent} (he : e.socketBytes = [])
    (h : s'.kernel.streams = s.kernel.streams) : ClientFlow e s s' := by
  constructor
  · rw [h, he, List.append_nil]
  · exact h ▸ List.prefix_refl _
  · rw [h, he, List.append_nil]
  · rw [h]
    exact id

theorem clientFlow_callback {ptr : Addr} {userEvent : SocketEvent ClientCallback} {io : ClientAnswers}
    {callback : ClientCallback} (hs : ClientShape s) (hheap : s.heap ptr = some userEvent)
    (hcallback : userEvent.readCallback = some callback ∨ userEvent.writeCallback = some callback)
    (h : clientCallback ptr s io callback userEvent = some s') : ClientFlow (.dispatch io) s s' := by
  have hne : stdinStream ≠ socketStream := by decide
  rcases clientCallback_streams hs hheap hcallback h with hsame | ⟨bytes, rest, hin, hread⟩ |
      ⟨bytes, rest, taken, failed, hin, htaken, hforward⟩
  · exact clientFlow_same rfl hsame
  · constructor
    · rw [hread, Function.update_self]
      exact (List.append_nil _).symm
    · simp only [hread, Function.update_self, List.prefix_refl]
    · rw [hread, Function.update_self, hin]
      simp only [ClientEvent.socketBytes, List.append_nil, List.append_assoc]
    · rw [hread, Function.update_self, Function.update_of_ne hne]
      exact id
  · constructor
    · rw [hforward, Function.update_self]
      exact (List.append_nil _).symm
    · rw [hforward, Function.update_self]
      exact List.prefix_append _ _
    · rw [hforward, Function.update_self]
      exact (List.append_nil _).symm
    · rw [hforward, Function.update_self, Function.update_of_ne hne, Function.update_self]
      intro htyped
      exact htyped.append htaken.sublist

theorem clientStep_flow {e : ClientEvent} (hs : ClientShape s) (h : clientStep s e = some s') :
    ClientFlow e s s' := by
  have hne : stdinStream ≠ socketStream := by decide
  cases e with
  | arrive id bytes =>
    obtain ⟨k, hk, rfl⟩ := Option.map_eq_some_iff.mp h
    unfold Kernel.arrive at hk
    split at hk
    · cases hk
      by_cases heq : socketStream = id
      · subst heq
        constructor
        · simp [Kernel.mapStream, ClientEvent.socketBytes]
        · simp [Kernel.mapStream]
        · simp [Kernel.mapStream, ClientEvent.socketBytes]
        · simp [Kernel.mapStream, Function.update_of_ne hne]
      · constructor
        · simp [Kernel.mapStream_streams, ClientEvent.socketBytes, heq, Ne.symm heq]
        · simp [Kernel.mapStream_streams, heq]
        · simp [Kernel.mapStream_streams, ClientEvent.socketBytes, heq, Ne.symm heq]
        · simp only [Kernel.mapStream_streams, if_neg heq]
          split
          · exact fun htyped => htyped
          · exact fun htyped => htyped
    · cases hk
  | establish =>
    cases h
    constructor
    · simp [Kernel.mapStream, ClientEvent.socketBytes]
    · simp [Kernel.mapStream]
    · simp [Kernel.mapStream, ClientEvent.socketBytes]
    · simp [Kernel.mapStream, Function.update_of_ne hne]
  | epollWait rs =>
    simp only [clientStep] at h
    split at h
    · cases h
      exact clientFlow_same rfl rfl
    · cases h
  | dispatch io =>
    rcases clientStep_cases h with ⟨_, _, _, heq, -⟩ | ⟨heq, -⟩ | ⟨_, heq, -⟩ |
        ⟨io, r, rest, userEvent, heq, -, hheap, hcases⟩
    · cases heq
    · cases heq
    · cases heq
    · cases heq
      rcases hcases with ⟨callback, hcallback, hrun⟩ | ⟨callback, -, hcallback, hrun⟩ | rfl
      · have htaken : ClientShape { s with batch := rest } := hs.keep rfl rfl fun _ => Or.inl rfl
        have hflow := clientFlow_callback htaken hheap (Or.inl hcallback) hrun
        exact ⟨hflow.sent, hflow.written, hflow.held, hflow.typed⟩
      · have htaken : ClientShape { s with batch := rest, outCalls := s.outCalls ++ [callback] } :=
          hs.keep rfl rfl fun _ => Or.inl rfl
        have hflow := clientFlow_callback htaken hheap (Or.inr hcallback) hrun
        exact ⟨hflow.sent, hflow.written, hflow.held, hflow.typed⟩
      · exact clientFlow_same rfl rfl

theorem clientStep_end {e : ClientEvent} (hs : ClientEnd s) (h : clientStep s e = some s') : ClientEnd s' := by
  have hflow := clientStep_flow hs.shape h
  refine ⟨(clientStep_forwards hs.shape h).1, ?_, hflow.typed hs.typed⟩
  rw [hflow.sent, hflow.held, hs.held]

end Client

end RedisLuaLinux.LinuxC
