import RedisLuaLinux.LinuxC.ClientForward
import RedisLuaLinux.LinuxC.ClientDispatch

/-!
# Writes to the connection

`stdin_read_callback` writes to `g_socket_fd` whatever has become of it.

* `writes_connected`: all writes of a run go to an established connection that is still open if
  and only if standard input is read in that time only.
* `writes_connected_fails`: a line that is typed while the `connect` is in progress.
-/

namespace RedisLuaLinux.LinuxC

open Library

/-- The connection is established by the end of `es`. -/
def EstablishedBy (l : ClientLaunch) (es : List ClientEvent) : Prop :=
  l.established = true ∨ .establish ∈ es

/-- A read of the socket has found its end or an error. -/
def HungUp (es : List ClientEvent) : Prop := ∃ e ∈ es, IsHangUp e

/-- Data is read from standard input only after the connection is established and before the socket
has reported its end or an error. -/
def InputInTime (l : ClientLaunch) (es : List ClientEvent) : Prop :=
  ∀ before e after, es = before ++ e :: after → ReadsInput e → EstablishedBy l before ∧ ¬ HungUp before

variable {l : ClientLaunch} {es : List ClientEvent} {e : ClientEvent}

theorem establishedBy_snoc : EstablishedBy l (es ++ [e]) ↔ EstablishedBy l es ∨ e = .establish := by
  simp only [EstablishedBy, List.mem_append, List.mem_singleton, or_assoc, eq_comm]

theorem hungUp_snoc : HungUp (es ++ [e]) ↔ HungUp es ∨ IsHangUp e := by
  simp [HungUp, or_and_right, exists_or]

theorem inputInTime_snoc : InputInTime l (es ++ [e]) ↔
    InputInTime l es ∧ (ReadsInput e → EstablishedBy l es ∧ ¬ HungUp es) := by
  constructor
  · intro h
    refine ⟨fun before e' after heq => ?_, h es e [] rfl⟩
    exact h before e' (after ++ [e]) (by rw [heq, List.append_assoc]; rfl)
  · rintro ⟨hold, hnew⟩ before e' after heq
    rcases List.eq_nil_or_concat after with rfl | ⟨init, last, rfl⟩
    · obtain ⟨rfl, hlast⟩ := List.append_inj' heq rfl
      obtain rfl := List.singleton_inj.mp hlast
      exact hnew
    · rw [List.concat_eq_append, ← List.cons_append, ← List.append_assoc] at heq
      exact hold before e' init (List.append_inj' heq rfl).1

/-- What a run has led to. -/
structure Traced (l : ClientLaunch) (es : List ClientEvent) (f : Forwarder) : Prop where
  established : f.established = true ↔ EstablishedBy l es
  opened : f.opened = true ↔ ¬ HungUp es
  sent : (∀ x ∈ f.sent, x.2 = true) ↔ InputInTime l es

theorem Traced.step {f : Forwarder} {a : ForwarderEvent} (h : Traced l es f) (ha : Observes e a) :
    Traced l (es ++ [e]) (f.step a) := by
  obtain ⟨hestablished, hopened, hsent⟩ := h
  rcases ha.cases with ⟨rfl, rfl⟩ | ⟨hhang, hreads, hne, rfl⟩ | ⟨piece, hreads, hhang, hne, -, -, rfl⟩ |
      ⟨hhang, hreads, hne, rfl⟩
  · refine ⟨?_, ?_, ?_⟩
    · simp [Forwarder.step, establishedBy_snoc]
    · rw [hungUp_snoc]
      simpa [Forwarder.step, IsHangUp] using hopened
    · rw [inputInTime_snoc]
      simpa [Forwarder.step, ReadsInput] using hsent
  · refine ⟨?_, ?_, ?_⟩
    · rw [establishedBy_snoc]
      simpa [Forwarder.step, hne] using hestablished
    · simp [Forwarder.step, hungUp_snoc, hhang]
    · rw [inputInTime_snoc]
      simpa [Forwarder.step, hreads] using hsent
  · refine ⟨?_, ?_, ?_⟩
    · rw [establishedBy_snoc]
      simpa [Forwarder.step, hne] using hestablished
    · rw [hungUp_snoc]
      simpa [Forwarder.step, hhang] using hopened
    · rw [inputInTime_snoc, ← hsent, ← hestablished, ← hopened]
      simp only [Forwarder.step, List.mem_append, List.mem_singleton, or_imp, forall_and, forall_eq,
        Bool.and_eq_true, hreads, true_imp_iff]
  · refine ⟨?_, ?_, ?_⟩
    · rw [establishedBy_snoc]
      simpa [Forwarder.step, hne] using hestablished
    · rw [hungUp_snoc]
      simpa [Forwarder.step, hhang] using hopened
    · rw [inputInTime_snoc]
      simpa [Forwarder.step, hreads] using hsent

theorem traced_start (l : ClientLaunch) : Traced l [] ⟨l.established, true, [], []⟩ := by
  refine ⟨by simp [EstablishedBy], by simp [HungUp], ?_⟩
  refine ⟨fun _ before e after heq => ?_, fun _ x hx => absurd hx List.not_mem_nil⟩
  exact absurd heq.symm (List.append_ne_nil_of_right_ne_nil _ (List.cons_ne_nil _ _))

/-- In every run of a client that is started with standard input open: all writes of
`stdin_read_callback` go to a descriptor that is open on an established connection if and only if
standard input is read in time. -/
theorem writes_connected {l : ClientLaunch} (hstdin : 0 ∈ l.inherited) {es : List ClientEvent}
    {s : ClientState} (h : Run clientStep AnyStep (clientMain l) es s) :
    (∀ call ∈ s.writes, call.connected = true) ↔ InputInTime l es := by
  obtain ⟨-, htraced⟩ := AnyClientRun.induction hstdin (P := Traced l) (traced_start l)
    (fun _ _ _ _ hp ha => hp.step ha) h
  rw [← htraced.sent]
  simp [ClientState.forwarder]

theorem stdinExample_inherited : (0 : Fd) ∈ clientLaunchExample.inherited := by decide

/-- A line is typed and read. -/
def typedLine (write : WriteAnswer) : List ClientEvent :=
  [.arrive stdinStream [104, 105, 10], .epollWait [⟨0, epollIn, 1⟩],
    .dispatch (.stdin (.data 3) write true)]

theorem writes_connected_example :
    ∃ s, Run clientStep AnyStep (clientMain clientLaunchExample) (.establish :: typedLine .full) s ∧
      s.writes = [⟨3, [104, 105], true⟩] ∧ InputInTime clientLaunchExample (.establish :: typedLine .full) := by
  have hreplay : (replay clientStep (clientMain clientLaunchExample) (.establish :: typedLine .full)).map
      ClientState.writes = some [⟨3, [104, 105], true⟩] := by
    decide
  obtain ⟨s, hs, hwrites⟩ := Option.map_eq_some_iff.mp hreplay
  refine ⟨s, Run.of_replay hs, hwrites, (writes_connected stdinExample_inherited (Run.of_replay hs)).mp ?_⟩
  rw [hwrites]
  simp

/-- The `connect` of the client is in progress when a line is typed: it is written to a socket that
is not connected, and lost. -/
theorem writes_connected_fails :
    ∃ s, Run clientStep AnyStep (clientMain clientLaunchExample) (typedLine (.fails 0)) s ∧
      s.writes = [⟨3, [104, 105], false⟩] ∧ (s.kernel.streams stdinStream).inbound = [] := by
  have hreplay : (replay clientStep (clientMain clientLaunchExample) (typedLine (.fails 0))).map
      (fun s => (s.writes, (s.kernel.streams stdinStream).inbound)) =
      some ([⟨3, [104, 105], false⟩], []) := by
    decide
  obtain ⟨s, hs, hobs⟩ := Option.map_eq_some_iff.mp hreplay
  simp only [Prod.mk.injEq] at hobs
  exact ⟨s, Run.of_replay hs, hobs⟩

end RedisLuaLinux.LinuxC
