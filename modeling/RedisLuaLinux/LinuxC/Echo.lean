import RedisLuaLinux.LinuxC.Server

/-!
# Echo integrity of the server

* `echo_integrity`: in every reachable state, on every connection without a failed write,
  the bytes written are the bytes read; what is read is a prefix of what the client sent;
  a connection has exactly one descriptor and starts with empty histories, so that nothing
  of an earlier connection with the same descriptor number is in them.
* `server_refines_echoService`: every run of the server is a run of `EchoService`, which
  states the purpose of the server without descriptors, event objects or batches: per
  connection the client's bytes and the part of them that came back.
-/

namespace RedisLuaLinux.LinuxC

open Library

/-! ## What a step does to the connections -/

/-- Nothing, an arrival at one connection, or bytes read from one connection and written
back to it. -/
theorem serverStep_streams {m m' : ServerState} {e : ServerEvent} (h : serverStep m e = some m') :
    m'.kernel.streams = m.kernel.streams ∨
    (∃ id bytes, m'.kernel.streams = Function.update m.kernel.streams id
      { m.kernel.streams id with
        sent := (m.kernel.streams id).sent ++ bytes
        inbound := (m.kernel.streams id).inbound ++ bytes }) ∨
    ∃ id bytes rest taken failed, (∃ fd, m.kernel.files fd = some (.stream id)) ∧
      (m.kernel.streams id).inbound = bytes ++ rest ∧ (failed = false → taken = bytes) ∧
      m'.kernel.streams = Function.update m.kernel.streams id
        { m.kernel.streams id with
          inbound := rest
          received := (m.kernel.streams id).received ++ bytes
          written := (m.kernel.streams id).written ++ taken
          writeFailed := (m.kernel.streams id).writeFailed || failed } := by
  rcases serverStep_cases h with ⟨id, bytes, k, -, hk, rfl⟩ | ⟨rs, -, -, -, rfl⟩ |
      ⟨io, r, rest, userEvent, -, -, -, hcallback⟩
  · unfold Kernel.arrive at hk
    split at hk
    · exact Or.inr (Or.inl ⟨id, bytes, by rw [← Option.some.inj hk]; rfl⟩)
    · cases hk
  · exact Or.inl rfl
  · rcases hcallback with hcb | hcb | ⟨-, rfl⟩
    · rcases socketAcceptCallback_cases hcb with ⟨-, -, -, rfl⟩ |
          ⟨newFd, eventPtr, granted, -, -, -, rfl⟩
      · exact Or.inl rfl
      · exact Or.inl (socketEventOp_streams _ _ _ _ _)
    · obtain ⟨readAnswer, writeAnswer, granted, -, hread⟩ := clientReadCallback_cases hcb
      rcases hread with ⟨id, bytes, rest', taken, failed, hid, hin, hfull, rfl⟩ | rfl
      · exact Or.inr (Or.inr ⟨id, bytes, rest', taken, failed, ⟨_, hid⟩, hin, hfull, rfl⟩)
      · exact Or.inl (close_after_del granted m.kernel r.ptr userEvent).2.2.1
    · exact Or.inl rfl

/-- The descriptor table changes by a fresh connection or by a close. -/
theorem serverStep_files {m m' : ServerState} {e : ServerEvent} (h : serverStep m e = some m') :
    (m'.kernel.files = m.kernel.files ∧ m'.kernel.nextStream = m.kernel.nextStream) ∨
    (∃ fd, m'.kernel.files = Function.update m.kernel.files fd (some (.stream m.kernel.nextStream)) ∧
      m'.kernel.nextStream = m.kernel.nextStream + 1) ∨
    ∃ fd, m'.kernel.files = Function.update m.kernel.files fd none ∧
      m'.kernel.nextStream = m.kernel.nextStream := by
  rcases serverStep_cases h with ⟨id, bytes, k, -, hk, rfl⟩ | ⟨rs, -, -, -, rfl⟩ |
      ⟨io, r, rest, userEvent, -, -, -, hcallback⟩
  · unfold Kernel.arrive at hk
    split at hk
    · exact Or.inl (by rw [← Option.some.inj hk]; exact ⟨rfl, rfl⟩)
    · cases hk
  · exact Or.inl ⟨rfl, rfl⟩
  · rcases hcallback with hcb | hcb | ⟨-, rfl⟩
    · rcases socketAcceptCallback_cases hcb with ⟨-, -, -, rfl⟩ |
          ⟨newFd, eventPtr, granted, -, -, -, rfl⟩
      · exact Or.inl ⟨rfl, rfl⟩
      · obtain ⟨hfiles, hnext⟩ := socketEventOp_files granted (m.kernel.openStream newFd) eventPtr
          (clientEventOf userEvent newFd) .add
        exact Or.inr (Or.inl ⟨newFd, hfiles, hnext⟩)
    · obtain ⟨readAnswer, writeAnswer, granted, -, hread⟩ := clientReadCallback_cases hcb
      rcases hread with ⟨id, bytes, rest', taken, failed, -, -, -, rfl⟩ | rfl
      · exact Or.inl ⟨rfl, rfl⟩
      · obtain ⟨hfiles, -, -, hnext, -⟩ := close_after_del granted m.kernel r.ptr userEvent
        exact Or.inr (Or.inr ⟨userEvent.fd, hfiles, hnext⟩)
    · exact Or.inl ⟨rfl, rfl⟩

/-! ## The invariant -/

/-- The histories of one connection. -/
structure EchoSound (st : Stream) : Prop where
  sent : st.sent = st.received ++ st.inbound
  written : st.writeFailed = false → st.written = st.received

theorem EchoSound.arrive {st : Stream} (h : EchoSound st) (bytes : List Byte) :
    EchoSound { st with sent := st.sent ++ bytes, inbound := st.inbound ++ bytes } :=
  ⟨by simp [h.sent], h.written⟩

theorem EchoSound.echo {st : Stream} (h : EchoSound st) {bytes rest taken : List Byte}
    {failed : Bool} (hin : st.inbound = bytes ++ rest) (htaken : failed = false → taken = bytes) :
    EchoSound { st with
      inbound := rest
      received := st.received ++ bytes
      written := st.written ++ taken
      writeFailed := st.writeFailed || failed } := by
  refine ⟨by simp [h.sent, hin], fun hok => ?_⟩
  simp only [Bool.or_eq_false_iff] at hok
  rw [h.written hok.1, htaken hok.2]

structure Connections (m : ServerState) : Prop where
  sound : ∀ id, EchoSound (m.kernel.streams id)
  bound : ∀ fd id, m.kernel.files fd = some (.stream id) → id < m.kernel.nextStream
  unique : ∀ fd fd' id, m.kernel.files fd = some (.stream id) →
    m.kernel.files fd' = some (.stream id) → fd = fd'
  fresh : ∀ id, m.kernel.nextStream ≤ id →
    (m.kernel.streams id).received = [] ∧ (m.kernel.streams id).written = []

theorem connections_step {m m' : ServerState} {e : ServerEvent} (hm : Connections m)
    (h : serverStep m e = some m') : Connections m' := by
  have hnext : m.kernel.nextStream ≤ m'.kernel.nextStream := by
    rcases serverStep_files h with ⟨-, hn⟩ | ⟨fd, -, hn⟩ | ⟨fd, -, hn⟩
    · exact Nat.le_of_eq hn.symm
    · exact hn ▸ Nat.le_succ _
    · exact Nat.le_of_eq hn.symm
  refine ⟨?_, ?_, ?_, ?_⟩
  · rcases serverStep_streams h with hs | ⟨id, bytes, hs⟩ |
        ⟨id, bytes, rest, taken, failed, -, hin, htaken, hs⟩
    · rw [hs]
      exact hm.sound
    · rw [hs]
      exact Function.forall_update_iff _ (fun _ st => EchoSound st) |>.mpr
        ⟨(hm.sound id).arrive bytes, fun id' _ => hm.sound id'⟩
    · rw [hs]
      exact Function.forall_update_iff _ (fun _ st => EchoSound st) |>.mpr
        ⟨(hm.sound id).echo hin htaken, fun id' _ => hm.sound id'⟩
  · intro fd id hfile
    rcases serverStep_files h with ⟨hf, hn⟩ | ⟨newFd, hf, hn⟩ | ⟨oldFd, hf, hn⟩
    · rw [hf] at hfile
      rw [hn]
      exact hm.bound fd id hfile
    · rw [hf, Function.update_apply] at hfile
      split at hfile
      · cases hfile
        exact hn ▸ Nat.lt_succ_self _
      · exact Nat.lt_of_lt_of_le (hm.bound fd id hfile) hnext
    · rw [hf, Function.update_apply] at hfile
      split at hfile
      · cases hfile
      · rw [hn]
        exact hm.bound fd id hfile
  · intro fd fd' id hfile hfile'
    rcases serverStep_files h with ⟨hf, -⟩ | ⟨newFd, hf, -⟩ | ⟨oldFd, hf, -⟩
    · rw [hf] at hfile hfile'
      exact hm.unique fd fd' id hfile hfile'
    · rw [hf, Function.update_apply] at hfile hfile'
      split at hfile <;> split at hfile'
      · rename_i h1 h2
        rw [h1, h2]
      · cases hfile
        exact absurd (hm.bound fd' _ hfile') (Nat.lt_irrefl _)
      · cases hfile'
        exact absurd (hm.bound fd _ hfile) (Nat.lt_irrefl _)
      · exact hm.unique fd fd' id hfile hfile'
    · rw [hf, Function.update_apply] at hfile hfile'
      split at hfile
      · cases hfile
      · split at hfile'
        · cases hfile'
        · exact hm.unique fd fd' id hfile hfile'
  · intro id hid
    have hold := hm.fresh id (Nat.le_trans hnext hid)
    rcases serverStep_streams h with hs | ⟨id', bytes, hs⟩ |
        ⟨id', bytes, rest, taken, failed, ⟨fd, hfile⟩, -, -, hs⟩
    · rw [hs]
      exact hold
    · rw [hs]
      by_cases heq : id = id'
      · subst heq
        simpa using hold
      · rwa [Function.update_of_ne heq]
    · have hlt : id' < id := Nat.lt_of_lt_of_le (hm.bound fd id' hfile) (Nat.le_trans hnext hid)
      rw [hs, Function.update_of_ne (Nat.ne_of_gt hlt)]
      exact hold

theorem serverMain_connections (l : ServerLaunch) : Connections (serverMain l) := by
  obtain ⟨hfiles, hnext⟩ := socketEventOp_files l.ctlGranted (serverKernel l) l.eventPtr
    (listenEvent l) .add
  have hstreams : (serverMain l).kernel.streams = fun _ => {} := socketEventOp_streams _ _ _ _ _
  have hnone : ∀ fd id, (serverMain l).kernel.files fd ≠ some (.stream id) := by
    intro fd id hfile
    rw [show (serverMain l).kernel.files = (serverKernel l).files from hfiles] at hfile
    simp only [serverKernel] at hfile
    split_ifs at hfile <;> cases hfile
  refine ⟨fun id => ?_, fun fd id hfile => absurd hfile (hnone fd id),
    fun fd _ id hfile => absurd hfile (hnone fd id), fun id _ => ?_⟩
  · rw [hstreams]
    exact ⟨rfl, fun _ => rfl⟩
  · rw [hstreams]
    exact ⟨rfl, rfl⟩

theorem server_connections {l : ServerLaunch} {es : List ServerEvent} {s : ServerState}
    (h : ServerRun l es s) : Connections s :=
  h.invariant (serverMain_connections l) fun _ _ _ hm _ hs => connections_step hm hs

/-- In every reachable state: on a connection without a failed write the server has written
exactly what it has read from it, which is a prefix of what the client has sent; no two
descriptors share a connection; and the next connection to be accepted has no history. -/
theorem echo_integrity {l : ServerLaunch} {es : List ServerEvent} {s : ServerState}
    (h : ServerRun l es s) :
    (∀ id, (s.kernel.streams id).writeFailed = false →
      (s.kernel.streams id).written = (s.kernel.streams id).received) ∧
    (∀ id, (s.kernel.streams id).received <+: (s.kernel.streams id).sent) ∧
    (∀ fd fd' id, s.kernel.files fd = some (.stream id) → s.kernel.files fd' = some (.stream id) →
      fd = fd' ∧ id < s.kernel.nextStream) ∧
    ∀ id, s.kernel.nextStream ≤ id →
      (s.kernel.streams id).received = [] ∧ (s.kernel.streams id).written = [] := by
  have hc := server_connections h
  refine ⟨fun id => (hc.sound id).written, fun id => ?_,
    fun fd fd' id hfile hfile' => ⟨hc.unique fd fd' id hfile hfile', hc.bound fd id hfile⟩, hc.fresh⟩
  rw [(hc.sound id).sent]
  exact List.prefix_append _ _

/-- Two clients under descriptor number 5: the second is accepted in the batch in which the
first one leaves. -/
def echoRun : List ServerEvent :=
  [.epollWait [⟨3, epollIn, 0⟩], .dispatch (.accepting (some 5) 1 true),
    .arrive 0 [104, 105], .epollWait [⟨5, epollIn, 1⟩], .dispatch (.reading (.data 2) .full true),
    .epollWait [⟨5, epollIn, 1⟩, ⟨3, epollIn, 0⟩], .dispatch (.reading .eof .full true),
    .dispatch (.accepting (some 5) 2 true),
    .arrive 1 [111], .epollWait [⟨5, epollIn, 2⟩], .dispatch (.reading (.data 1) .full true)]

theorem echo_integrity_example :
    ∃ s, ServerRun launchExample echoRun s ∧ s.kernel.files 5 = some (.stream 1) ∧
      (s.kernel.streams 1).received = [111] ∧
      (s.kernel.streams 1).written = (s.kernel.streams 1).received := by
  have hreplay : (replay serverStep (serverMain launchExample) echoRun).map
      (fun s => (s.kernel.files 5, (s.kernel.streams 1).received, (s.kernel.streams 1).writeFailed)) =
      some (some (.stream 1), [111], false) := by decide
  obtain ⟨s, hs, hobs⟩ := Option.map_eq_some_iff.mp hreplay
  simp only [Prod.mk.injEq] at hobs
  exact ⟨s, Run.of_replay hs, hobs.1, hobs.2.1,
    (echo_integrity (Run.of_replay hs)).1 1 hobs.2.2⟩

/-! ## The echo service -/

/-- Per live connection the bytes the client has sent and the bytes that came back; `none`
once a write has failed. -/
abbrev EchoService := StreamId → Option (List Byte × List Byte)

inductive EchoServiceEvent
  | send (id : StreamId) (bytes : List Byte)
  | giveBack (id : StreamId) (count : Nat)
  | drop (id : StreamId)

/-- The service gives back the next bytes of what the client has sent, or drops it. -/
def echoServiceStep (s : EchoService) : EchoServiceEvent → Option EchoService
  | .send id bytes =>
    some (Function.update s id ((s id).map fun (sent, back) => (sent ++ bytes, back)))
  | .giveBack id count => do
    let (sent, back) ← s id
    if back.length + count ≤ sent.length then
      some (Function.update s id (some (sent, sent.take (back.length + count))))
    else none
  | .drop id => some (Function.update s id none)

/-- The service that a server state implements. -/
def serviceOf (m : ServerState) : EchoService := fun id =>
  if (m.kernel.streams id).writeFailed then none
  else some ((m.kernel.streams id).sent, (m.kernel.streams id).written)

theorem serviceOf_update {m m' : ServerState} {id : StreamId} {st : Stream}
    (h : m'.kernel.streams = Function.update m.kernel.streams id st) :
    serviceOf m' = Function.update (serviceOf m) id
      (if st.writeFailed then none else some (st.sent, st.written)) := by
  funext id'
  by_cases heq : id' = id
  · subst heq
    simp [serviceOf, h]
  · simp [serviceOf, h, Function.update_of_ne heq]

theorem serviceOf_step {m m' : ServerState} {e : ServerEvent} (hm : Connections m)
    (h : serverStep m e = some m') :
    serviceOf m' = serviceOf m ∨ ∃ a, echoServiceStep (serviceOf m) a = some (serviceOf m') := by
  rcases serverStep_streams h with hs | ⟨id, bytes, hs⟩ |
      ⟨id, bytes, rest, taken, failed, -, hin, htaken, hs⟩
  · left
    funext id
    simp [serviceOf, hs]
  · right
    refine ⟨.send id bytes, ?_⟩
    rw [serviceOf_update hs]
    cases hf : (m.kernel.streams id).writeFailed <;> simp [echoServiceStep, serviceOf, hf]
  · right
    rw [serviceOf_update hs]
    cases hf : (m.kernel.streams id).writeFailed
    · cases failed with
      | true =>
        refine ⟨.drop id, ?_⟩
        simp [echoServiceStep]
      | false =>
        refine ⟨.giveBack id bytes.length, ?_⟩
        have hsent := (hm.sound id).sent
        have hback := (hm.sound id).written hf
        have htake : ((m.kernel.streams id).received ++ (bytes ++ rest)).take
            ((m.kernel.streams id).received.length + bytes.length) =
            (m.kernel.streams id).received ++ bytes := by
          rw [← List.append_assoc, ← List.length_append]
          exact List.take_left
        simp [echoServiceStep, serviceOf, hf, hback, hsent, hin, htaken rfl, htake]
    · refine ⟨.drop id, ?_⟩
      simp [echoServiceStep]

/-- Every run of the server is a run of the echo service. -/
theorem server_refines_echoService {l : ServerLaunch} {es : List ServerEvent} {s : ServerState}
    (h : ServerRun l es s) :
    ∃ as, Run echoServiceStep AnyStep (fun _ => some ([], [])) as (serviceOf s) := by
  have hstrong : Run serverStep (fun m _ => Connections m) (serverMain l) es s :=
    h.strengthen (serverMain_connections l) (fun _ _ _ hm _ hs => connections_step hm hs)
      (fun _ _ hm _ => hm)
  have hstart : serviceOf (serverMain l) = fun _ => some ([], []) := by
    funext id
    simp only [serviceOf, serverMain, socketEventOp_streams]
    rfl
  rw [← hstart]
  exact hstrong.simulate fun _ _ _ hm hs => serviceOf_step hm hs

end RedisLuaLinux.LinuxC
