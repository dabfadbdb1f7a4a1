import RedisLuaLinux.LinuxC.Client
import RedisLuaLinux.LinuxC.ServerRegistry

/-!
# Dispatch validity of both event loops

* `client_registered`: the registry invariant holds in every reachable state of the client
  whose `EPOLL_CTL_MOD` calls were granted.
* `client_outPhase`: the callbacks called for `EPOLLOUT` follow `outScript`, and once both
  have run nothing is registered for `EPOLLOUT` any more.
* `dispatch_valid`: both loops find every record of a batch valid when they reach it.
-/

namespace RedisLuaLinux.LinuxC

open Library

/-! ## What a step of the client can do -/

/-- The callbacks of the client with the state they leave. -/
theorem clientCallback_cases {ptr : Addr} {s s' : ClientState} {io : ClientAnswers}
    {callback : ClientCallback} {userEvent : SocketEvent ClientCallback}
    (h : clientCallback ptr s io callback userEvent = some s') :
    ((callback = .socketRead ∨ callback = .stdinRead) ∧
      ((∃ streams writes, s' = { s with
          kernel := { s.kernel with streams := streams }, writes := writes }) ∨
        ∃ granted, s' = { s with
          kernel := (socketEventOp granted s.kernel ptr userEvent .del).2.close userEvent.fd })) ∨
    ∃ updated granted, io = .modifying granted ∧
      (callback = .socketConnect ∧ updated = { userEvent with writeCallback := some .socketWrite } ∨
        callback = .socketWrite ∧ updated = { userEvent with events := userEvent.events &&& ~~~epollOut }) ∧
      s' = { s with
        heap := Function.update s.heap ptr (some updated)
        kernel := (socketEventOp granted s.kernel ptr updated .mod).2 } := by
  have hrewrite : ∀ updated, rewriteEvent ptr updated s io = some s' →
      ∃ granted, io = .modifying granted ∧ s' = { s with
        heap := Function.update s.heap ptr (some updated)
        kernel := (socketEventOp granted s.kernel ptr updated .mod).2 } := by
    intro updated hupdated
    cases io with
    | modifying granted => exact ⟨granted, rfl, (Option.some.inj hupdated).symm⟩
    | stdin => cases hupdated
    | socket => cases hupdated
    | idle => cases hupdated
  cases callback with
  | socketRead =>
    left
    refine ⟨Or.inl rfl, ?_⟩
    rcases socketReadCallback_cases h with ⟨id, f, rfl⟩ | hclosed
    · exact Or.inl ⟨_, s.writes, rfl⟩
    · exact Or.inr hclosed
  | stdinRead =>
    left
    refine ⟨Or.inr rfl, ?_⟩
    rcases stdinReadCallback_cases h with ⟨streams, call, rfl⟩ | hclosed
    · exact Or.inl ⟨streams, _, rfl⟩
    · exact Or.inr hclosed
  | socketConnect =>
    obtain ⟨granted, hio, hs'⟩ := hrewrite _ h
    exact Or.inr ⟨_, granted, hio, Or.inl ⟨rfl, rfl⟩, hs'⟩
  | socketWrite =>
    obtain ⟨granted, hio, hs'⟩ := hrewrite _ h
    exact Or.inr ⟨_, granted, hio, Or.inr ⟨rfl, rfl⟩, hs'⟩

/-- What one step of the client can do. -/
theorem clientStep_cases {s s' : ClientState} {e : ClientEvent} (h : clientStep s e = some s') :
    (∃ id bytes k, e = .arrive id bytes ∧ s.kernel.arrive id bytes = some k ∧
      s' = { s with kernel := k }) ∨
    (e = .establish ∧ ∃ f, s' = { s with kernel := s.kernel.mapStream socketStream f }) ∨
    (∃ rs, e = .epollWait rs ∧ s.kernel.Batch recvEpEventMax rs ∧ s' = { s with batch := rs }) ∨
    ∃ io r rest userEvent, e = .dispatch io ∧ s.batch = r :: rest ∧
      s.heap r.ptr = some userEvent ∧
      ((∃ callback, userEvent.readCallback = some callback ∧
          clientCallback r.ptr { s with batch := rest } io callback userEvent = some s') ∨
        (∃ callback, r.events &&& epollOut ≠ 0 ∧ userEvent.writeCallback = some callback ∧
          clientCallback r.ptr { s with batch := rest, outCalls := s.outCalls ++ [callback] }
            io callback userEvent = some s') ∨
        s' = { s with batch := rest }) := by
  cases e with
  | arrive id bytes =>
    obtain ⟨k, hk, rfl⟩ := Option.map_eq_some_iff.mp h
    exact Or.inl ⟨id, bytes, k, rfl, hk, rfl⟩
  | establish => exact Or.inr (Or.inl ⟨rfl, _, (Option.some.inj h).symm⟩)
  | epollWait rs =>
    simp only [clientStep] at h
    split at h
    · rename_i hrs
      exact Or.inr (Or.inr (Or.inl ⟨rs, rfl, hrs.2, (Option.some.inj h).symm⟩))
    · cases h
  | dispatch io =>
    simp only [clientStep, clientActiveFdProcess] at h
    split at h
    · cases h
    · rename_i r rest hbatch
      obtain ⟨userEvent, hheap, hcases⟩ := dispatchRecord_cases h
      refine Or.inr (Or.inr (Or.inr ⟨io, r, rest, userEvent, rfl, hbatch, hheap, ?_⟩))
      rcases hcases with ⟨-, cb, hcb, hrun⟩ | ⟨-, hout, cb, hcb, hrun⟩ | ⟨-, -, hidle⟩
      · exact Or.inl ⟨cb, hcb, hrun⟩
      · exact Or.inr (Or.inl ⟨cb, hout, hcb, hrun⟩)
      · split at hidle
        · exact Or.inr (Or.inr (Option.some.inj hidle).symm)
        · cases hidle

/-! ## The callbacks of the EPOLLOUT branch -/

/-- The callbacks that the `EPOLLOUT` branch calls in a run, in order. -/
def outScript : List ClientCallback := [.socketConnect, .socketWrite]

/-- Only the socket is registered for `EPOLLOUT`, with the next callback of the script. -/
structure OutPhase (s : ClientState) : Prop where
  reads : ∀ fd entry userEvent, s.kernel.interest.lookup fd = some entry →
    s.heap entry.ptr = some userEvent →
      userEvent.readCallback = some .socketRead ∨ userEvent.readCallback = some .stdinRead
  single : ∀ fd entry, s.kernel.interest.lookup fd = some entry → entry.events &&& epollOut ≠ 0 →
    fd = s.gSocketFd
  calls : s.outCalls <+: outScript
  next : ∀ fd entry userEvent, s.kernel.interest.lookup fd = some entry →
    s.heap entry.ptr = some userEvent → entry.events &&& epollOut ≠ 0 →
      userEvent.writeCallback = outScript[s.outCalls.length]?

/-- Steps that register nothing new and leave the objects alone. -/
theorem OutPhase.shrink {s s' : ClientState} (h : OutPhase s)
    (hinterest : ∀ fd entry, s'.kernel.interest.lookup fd = some entry →
      s.kernel.interest.lookup fd = some entry)
    (hheap : s'.heap = s.heap) (hsocket : s'.gSocketFd = s.gSocketFd)
    (hcalls : s'.outCalls = s.outCalls) : OutPhase s' := by
  refine ⟨fun fd entry userEvent he ho => ?_, fun fd entry he hout => ?_, hcalls ▸ h.calls,
    fun fd entry userEvent he ho hout => ?_⟩
  · exact h.reads fd entry userEvent (hinterest fd entry he) (hheap ▸ ho)
  · exact (h.single fd entry (hinterest fd entry he) hout).trans hsocket.symm
  · rw [hcalls]
    exact h.next fd entry userEvent (hinterest fd entry he) (hheap ▸ ho) hout

theorem cleared_epollOut (events : Mask) : events &&& ~~~epollOut &&& epollOut = 0#32 := by
  rw [BitVec.and_assoc]
  simp [BitVec.and_comm (~~~epollOut)]

/-- The next callback of the script is one of two, and the list of calls stays a prefix. -/
theorem outScript_next {calls : List ClientCallback} {callback : ClientCallback}
    (hcalls : calls <+: outScript) (hnext : outScript[calls.length]? = some callback) :
    calls ++ [callback] <+: outScript ∧
      (callback = .socketConnect ∧ calls = [] ∨ callback = .socketWrite ∧ calls.length = 1) := by
  have hlen : calls.length < 2 := (List.getElem?_eq_some_iff.mp hnext).1
  obtain ⟨rest, hrest⟩ := hcalls
  match calls, hlen with
  | [], _ =>
    have hcb : callback = .socketConnect := by simpa [outScript] using hnext.symm
    subst hcb
    exact ⟨⟨[.socketWrite], rfl⟩, Or.inl ⟨rfl, rfl⟩⟩
  | [first], _ =>
    have hcb : callback = .socketWrite := by simpa [outScript] using hnext.symm
    have hfirst : first = .socketConnect := by
      simp only [outScript, List.singleton_append, List.cons.injEq] at hrest
      exact hrest.1
    subst hcb hfirst
    exact ⟨⟨[], rfl⟩, Or.inr ⟨rfl, rfl⟩⟩

/-- The `EPOLLOUT` branch has run the next callback of the script, which rewrote its object
and renewed the registration. -/
theorem OutPhase.advance {s : ClientState} {r : EpollRecord} {rest : List EpollRecord}
    {callback : ClientCallback} {userEvent updated : SocketEvent ClientCallback}
    (hm : Registered s.toMachine) (hp : OutPhase s) (hbatch : s.batch = r :: rest)
    (hheap : s.heap r.ptr = some userEvent) (hout : r.events &&& epollOut ≠ 0)
    (hcallback : userEvent.writeCallback = some callback)
    (hupdated : callback = .socketConnect ∧
        updated = { userEvent with writeCallback := some .socketWrite } ∨
      callback = .socketWrite ∧
        updated = { userEvent with events := userEvent.events &&& ~~~epollOut }) :
    OutPhase { s with
      batch := rest
      outCalls := s.outCalls ++ [callback]
      heap := Function.update s.heap r.ptr (some updated)
      kernel := (socketEventOp true s.kernel r.ptr updated .mod).2 } := by
  obtain ⟨hvalid, hepoll, -⟩ := hm.taken hbatch hheap
  have hmask : userEvent.events &&& epollOut ≠ 0 :=
    hm.mask_of_reported (by rw [hbatch]; exact List.mem_cons_self) hheap hout
  have hsocket : userEvent.fd = s.gSocketFd := hp.single _ _ hvalid.registered hmask
  have hnext := hp.next _ _ _ hvalid.registered hheap hmask
  rw [hcallback] at hnext
  obtain ⟨hcalls, hphase⟩ := outScript_next hp.calls hnext.symm
  have hfd : updated.fd = userEvent.fd := by
    rcases hupdated with ⟨-, rfl⟩ | ⟨-, rfl⟩ <;> rfl
  have hinstance : updated.epollFd = userEvent.epollFd := by
    rcases hupdated with ⟨-, rfl⟩ | ⟨-, rfl⟩ <;> rfl
  have hread : updated.readCallback = userEvent.readCallback := by
    rcases hupdated with ⟨-, rfl⟩ | ⟨-, rfl⟩ <;> rfl
  have hmod : (socketEventOp true s.kernel r.ptr updated .mod).2.interest =
      s.kernel.interest.insert userEvent.fd ⟨updated.events, r.ptr⟩ := by
    unfold socketEventOp socketUtilEpollEventOpUser
    rw [hfd, hinstance, hepoll, s.kernel.epollCtl_mod_granted _ hvalid.opened
      (by rw [hvalid.registered]; rfl)]
  have hstored : Function.update s.heap r.ptr (some updated) r.ptr = some updated :=
    Function.update_self r.ptr (some updated) s.heap
  -- the entries of other descriptors and their objects stay
  have hother : ∀ fd entry, fd ≠ userEvent.fd →
      (socketEventOp true s.kernel r.ptr updated .mod).2.interest.lookup fd = some entry →
      s.kernel.interest.lookup fd = some entry ∧
        Function.update s.heap r.ptr (some updated) entry.ptr = s.heap entry.ptr := by
    intro fd entry hne he
    rw [hmod, AList.lookup_insert_ne hne] at he
    refine ⟨he, Function.update_of_ne (fun hptr => hne ?_) _ _⟩
    obtain ⟨owner, ho⟩ := hm.owner fd entry he
    have hsame : owner = userEvent := Option.some.inj (ho.object.symm.trans (hptr ▸ hheap))
    rw [← ho.descriptor, hsame]
  refine ⟨fun fd entry object he ho => ?_, fun fd entry he hbits => ?_, hcalls,
    fun fd entry object he ho hbits => ?_⟩
  · by_cases heq : fd = userEvent.fd
    · subst heq
      simp only [hmod, AList.lookup_insert, Option.some.injEq] at he
      subst he
      have hobject : updated = object := Option.some.inj (hstored.symm.trans ho)
      rw [← hobject, hread]
      exact hp.reads _ _ _ hvalid.registered hheap
    · obtain ⟨hold, hkeep⟩ := hother fd entry heq he
      exact hp.reads fd entry object hold (hkeep.symm.trans ho)
  · by_cases heq : fd = userEvent.fd
    · exact heq.trans hsocket
    · exact hp.single fd entry (hother fd entry heq he).1 hbits
  · by_cases heq : fd = userEvent.fd
    · subst heq
      simp only [hmod, AList.lookup_insert, Option.some.injEq] at he
      subst he
      have hobject : updated = object := Option.some.inj (hstored.symm.trans ho)
      rcases hupdated with ⟨hcb, rfl⟩ | ⟨-, rfl⟩
      · rcases hphase with ⟨-, hnil⟩ | ⟨hcb', -⟩
        · simp [← hobject, hnil, outScript]
        · rw [hcb] at hcb'
          cases hcb'
      · exact absurd (cleared_epollOut _) hbits
    · exact absurd ((hp.single fd entry (hother fd entry heq he).1 hbits).trans hsocket.symm) heq

/-! ## Runs of the client -/

/-- The step makes no `EPOLL_CTL_MOD` call that the kernel refuses. -/
def ModGranted (_ : ClientState) (e : ClientEvent) : Prop := e ≠ .dispatch (.modifying false)

/-- A run of the client from its start whose `EPOLL_CTL_MOD` calls are granted. -/
abbrev ClientRun (l : ClientLaunch) := Run clientStep ModGranted (clientMain l)

/-- The state of `main` before its two registrations. -/
def clientUnregistered (l : ClientLaunch) : ClientState :=
  { clientMain l with kernel := clientKernel l }

theorem clientMain_registered (l : ClientLaunch) : Registered (clientMain l).toMachine := by
  have hempty : Registered (clientUnregistered l).toMachine := Registered.empty rfl rfl
  have hsocket : (clientUnregistered l).heap l.socketPtr = some (socketEvent l) := by
    simp [clientUnregistered, clientMain, Function.update_of_ne l.ptr_new.symm]
  have hstdin : (clientUnregistered l).heap l.stdinPtr = some (stdinEvent l) := by
    simp [clientUnregistered, clientMain]
  have hfirst := hempty.add l.socketGranted hsocket rfl ⟨nofun, fun _ => nofun⟩
  refine hfirst.add l.stdinGranted hstdin ?_ ⟨nofun, fun hout => absurd epollIn_and_epollOut hout⟩
  exact (socketEventOp_epollFd l.socketGranted (clientKernel l) l.socketPtr (socketEvent l) .add).symm

theorem clientMain_outPhase (l : ClientLaunch) : OutPhase (clientMain l) := by
  have hlookup : ∀ fd entry, (clientMain l).kernel.interest.lookup fd = some entry →
      (fd = l.socketFd ∧ entry = ⟨epollIn ||| epollOut, l.socketPtr⟩) ∨
        (fd = 0 ∧ entry = ⟨epollIn, l.stdinPtr⟩) := by
    intro fd entry he
    rcases socketEventOp_add_lookup he with he | hstdin
    · rcases socketEventOp_add_lookup he with he | hsocket
      · cases he
      · exact Or.inl hsocket
    · exact Or.inr hstdin
  have hsocket : (clientMain l).heap l.socketPtr = some (socketEvent l) := by
    simp [clientMain, Function.update_of_ne l.ptr_new.symm]
  have hstdin : (clientMain l).heap l.stdinPtr = some (stdinEvent l) := by
    simp [clientMain]
  refine ⟨fun fd entry userEvent he ho => ?_, fun fd entry he hout => ?_, List.nil_prefix,
    fun fd entry userEvent he ho hout => ?_⟩
  · rcases hlookup fd entry he with ⟨-, rfl⟩ | ⟨-, rfl⟩
    · rw [← Option.some.inj (hsocket.symm.trans ho)]
      exact Or.inl rfl
    · rw [← Option.some.inj (hstdin.symm.trans ho)]
      exact Or.inr rfl
  · rcases hlookup fd entry he with ⟨rfl, -⟩ | ⟨-, rfl⟩
    · rfl
    · exact absurd epollIn_and_epollOut hout
  · rcases hlookup fd entry he with ⟨-, rfl⟩ | ⟨-, rfl⟩
    · rw [← Option.some.inj (hsocket.symm.trans ho)]
      rfl
    · exact absurd epollIn_and_epollOut hout

/-- What every state of the client satisfies. -/
structure ClientSound (s : ClientState) : Prop where
  registered : Registered s.toMachine
  outPhase : OutPhase s

theorem clientSound_step {s s' : ClientState} {e : ClientEvent} (hs : ClientSound s)
    (hgranted : ModGranted s e) (h : clientStep s e = some s') : ClientSound s' := by
  obtain ⟨hm, hp⟩ := hs
  rcases clientStep_cases h with ⟨id, bytes, k, rfl, hk, rfl⟩ | ⟨rfl, f, rfl⟩ |
      ⟨rs, rfl, hrs, rfl⟩ | ⟨io, r, rest, userEvent, rfl, hbatch, hheap, hcallback⟩
  · refine ⟨hm.arrive hk, ?_⟩
    obtain ⟨f, rfl⟩ := Kernel.arrive_cases hk
    exact hp.shrink (fun _ _ he => he) rfl rfl rfl
  · exact ⟨hm.frame rfl rfl (fun _ hopen => hopen), hp.shrink (fun _ _ he => he) rfl rfl rfl⟩
  · exact ⟨hm.wait hrs, hp.shrink (fun _ _ he => he) rfl rfl rfl⟩
  · have htail := hm.tail hbatch
    obtain ⟨hvalid, -, hothers⟩ := hm.taken hbatch hheap
    rcases hcallback with ⟨cb, hcb, hrun⟩ | ⟨cb, hout, hcb, hrun⟩ | rfl
    · have hkind := hp.reads _ _ _ hvalid.registered hheap
      rw [hcb, Option.some.injEq, Option.some.injEq] at hkind
      rcases clientCallback_cases hrun with ⟨-, ⟨streams, writes, rfl⟩ | ⟨granted, rfl⟩⟩ |
          ⟨updated, granted, -, hupdated, -⟩
      · exact ⟨htail.frame rfl rfl (fun _ hopen => hopen), hp.shrink (fun _ _ he => he) rfl rfl rfl⟩
      · refine ⟨htail.remove granted r.ptr userEvent hothers, hp.shrink (fun fd entry he => ?_) rfl rfl rfl⟩
        exact close_after_del_lookup he
      · rcases hkind with rfl | rfl <;> rcases hupdated with ⟨hkind, -⟩ | ⟨hkind, -⟩ <;> cases hkind
    · obtain ⟨-, hphase⟩ := outScript_next hp.calls
        ((hp.next _ _ _ hvalid.registered hheap (hm.mask_of_reported
          (by rw [hbatch]; exact List.mem_cons_self) hheap hout)).symm.trans hcb)
      rcases clientCallback_cases hrun with ⟨hkind, -⟩ | ⟨updated, granted, rfl, hupdated, rfl⟩
      · rcases hphase with ⟨rfl, -⟩ | ⟨rfl, -⟩ <;> rcases hkind with hkind | hkind <;> cases hkind
      · obtain rfl : granted = true := by
          cases granted with
          | true => rfl
          | false => exact absurd rfl hgranted
        refine ⟨?_, hp.advance hm hbatch hheap hout hcb hupdated⟩
        have hcallable : Callable updated := by
          obtain ⟨owner, ho⟩ := hm.owner _ _ hvalid.registered
          obtain rfl : owner = userEvent := Option.some.inj (ho.object.symm.trans hheap)
          rcases hupdated with ⟨-, rfl⟩ | ⟨-, rfl⟩
          · exact ⟨ho.callable.read, fun _ => nofun⟩
          · exact ⟨ho.callable.read, fun hbits => absurd (cleared_epollOut _) hbits⟩
        have hfd : updated.fd = userEvent.fd := by
          rcases hupdated with ⟨-, rfl⟩ | ⟨-, rfl⟩ <;> rfl
        have hinstance : updated.epollFd = userEvent.epollFd := by
          rcases hupdated with ⟨-, rfl⟩ | ⟨-, rfl⟩ <;> rfl
        exact htail.modify hheap hvalid.registered hfd hinstance hcallable hothers
    · exact ⟨htail, hp.shrink (fun _ _ he => he) rfl rfl rfl⟩

theorem client_sound {l : ClientLaunch} {es : List ClientEvent} {s : ClientState}
    (h : ClientRun l es s) : ClientSound s :=
  h.invariant ⟨clientMain_registered l, clientMain_outPhase l⟩ fun _ _ _ hs hg h' =>
    clientSound_step hs hg h'

/-! ## Both loops -/

/-- Every record still to be dispatched is valid, and no two descriptors are registered
with one object. -/
structure LoopValid (m : Machine κ) : Prop where
  records : ∀ r ∈ m.batch, ∃ userEvent, DispatchValid m r userEvent
  once : m.kernel.interest.keys.Nodup
  distinct : ∀ fd fd' entry entry', m.kernel.interest.lookup fd = some entry →
    m.kernel.interest.lookup fd' = some entry' → entry.ptr = entry'.ptr → fd = fd'

theorem Registered.loopValid {m : Machine κ} (h : Registered m) : LoopValid m := by
  refine ⟨fun r hr => h.dispatchValid hr, m.kernel.interest.nodupKeys,
    fun fd fd' entry entry' he he' hptr => ?_⟩
  obtain ⟨owner, ho⟩ := h.owner fd entry he
  obtain ⟨owner', ho'⟩ := h.owner fd' entry' he'
  have hsame : owner = owner' :=
    Option.some.inj (ho.object.symm.trans ((congrArg m.heap hptr).trans ho'.object))
  rw [← ho.descriptor, hsame, ho'.descriptor]

/-- In every reachable state of the server, and of the client, each record of the batch is
valid when the loop reaches it; the client calls `socket_connect_callback` and then
`socket_write_callback` for `EPOLLOUT`, and after both it registers that bit no more. -/
theorem dispatch_valid :
    (∀ l es s, ServerRun l es s → LoopValid s) ∧
    ∀ l es s, ClientRun l es s → LoopValid s.toMachine ∧
      s.outCalls <+: [.socketConnect, .socketWrite] ∧
      (s.outCalls = [.socketConnect, .socketWrite] → ∀ fd entry,
        s.kernel.interest.lookup fd = some entry → entry.events &&& epollOut = 0) := by
  refine ⟨fun l es s h => (server_registered h).loopValid, fun l es s h => ?_⟩
  obtain ⟨hm, hp⟩ := client_sound h
  refine ⟨hm.loopValid, hp.calls, fun hdone fd entry he => ?_⟩
  by_contra hout
  obtain ⟨owner, ho⟩ := hm.owner fd entry he
  have hnext := hp.next fd entry owner he ho.object hout
  rw [hdone] at hnext
  exact ho.callable.write (ho.mask ▸ hout) hnext

theorem socketExample_new : (3 : Fd) ∉ [0, 1, 2] := by decide

theorem epollExample_new : (4 : Fd) ∉ [3, 0, 1, 2] := by decide

/-- A client started from a shell, whose `connect` is in progress. -/
def clientLaunchExample : ClientLaunch where
  inherited := [0, 1, 2]
  socketFd := 3
  epollFd := 4
  socketPtr := 0
  stdinPtr := 1
  socketGranted := true
  stdinGranted := true
  established := false
  socket_new := socketExample_new
  epoll_new := epollExample_new
  ptr_new := Nat.one_ne_zero

/-- The connection is established, the socket is writable twice, and a line waits. -/
def connectRun : List ClientEvent :=
  [.establish, .epollWait [⟨3, epollOut, 0⟩], .dispatch (.modifying true),
    .epollWait [⟨3, epollOut, 0⟩, ⟨0, epollIn, 1⟩], .dispatch (.modifying true)]

theorem dispatch_valid_example :
    (∃ s, ServerRun launchExample [.epollWait [⟨3, epollIn, 0⟩]] s ∧ s.batch ≠ [] ∧ LoopValid s) ∧
    ∃ s, ClientRun clientLaunchExample connectRun s ∧ s.batch ≠ [] ∧ LoopValid s.toMachine ∧
      ∀ fd entry, s.kernel.interest.lookup fd = some entry → entry.events &&& epollOut = 0 := by
  have hserver : (replay serverStep (serverMain launchExample) [.epollWait [⟨3, epollIn, 0⟩]]).map
      (fun s => s.batch) = some [⟨3, epollIn, 0⟩] := by decide
  have hclient : (replay clientStep (clientMain clientLaunchExample) connectRun).map
      (fun s => (s.batch, s.outCalls)) =
      some ([⟨0, epollIn, 1⟩], [.socketConnect, .socketWrite]) := by decide
  obtain ⟨s, hs, hbatch⟩ := Option.map_eq_some_iff.mp hserver
  obtain ⟨c, hc, hobs⟩ := Option.map_eq_some_iff.mp hclient
  simp only [Prod.mk.injEq] at hobs
  have hrun : ClientRun clientLaunchExample connectRun c :=
    Run.of_replay_admits (by simp [connectRun, ModGranted]) hc
  obtain ⟨hvalid, -, hdone⟩ := dispatch_valid.2 _ _ _ hrun
  exact ⟨⟨s, Run.of_replay hs, by simp [hbatch], dispatch_valid.1 _ _ _ (Run.of_replay hs)⟩,
    c, hrun, by simp [hobs.1], hvalid, hdone hobs.2⟩

end RedisLuaLinux.LinuxC
