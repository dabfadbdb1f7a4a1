import RedisLuaLinux.LinuxC.ClientInput
import RedisLuaLinux.LinuxC.StreamFlow

/-!
# The server and its clients

One server and any number of clients, each with the kernel under it, and the connections between
them. A connection waits in the backlog from the moment in which it is established, so that the
connections are accepted in the order of `connected`. Bytes are under way for as long as the network
likes, in both directions, and keep their order.

* `own_echo`: whatever the server, the network and the other clients do, what a client reads from its
  connection was typed at this client, in this order; where the server could write all that it read,
  it is the beginning of what the client wrote.
-/

namespace RedisLuaLinux.LinuxC

open Library

structure EchoNetwork where
  server : ServerState
  clients : List ClientState
  -- which client the connections of the server are from, by stream
  connected : List Nat

inductive NetworkEvent
  | launch (l : ClientLaunch)
  | server (e : ServerEvent)
  | client (k : Nat) (e : ClientEvent)
  | connect (k : Nat)
  | toServer (id : StreamId) (count : Nat)
  | toClient (id : StreamId) (count : Nat)

/-- The event stems from the other end of a connection. -/
def ServerEvent.remote : ServerEvent → Bool
  | arrive _ _ => true
  | _ => false

def ClientEvent.remote : ClientEvent → Bool
  | arrive id _ => id = socketStream
  | establish => true
  | _ => false

/-- The next bytes of what one end has written and the other end has not got. -/
def underWay (source target : Stream) (count : Nat) : List Byte :=
  (source.written.drop target.sent.length).take count

namespace EchoNetwork

def networkStep (net : EchoNetwork) : NetworkEvent → Option EchoNetwork
  | .launch l =>
    if 0 ∈ l.inherited then
      some { net with
        clients := net.clients ++ [clientMain l]
        connected := if l.established then net.connected ++ [net.clients.length] else net.connected }
    else none
  | .server e =>
    if e.remote then none
    else do
      let m ← serverStep net.server e
      -- `accept` waits for a connection
      if m.kernel.nextStream ≤ net.connected.length then some { net with server := m } else none
  | .client k e =>
    if e.remote then none
    else do
      let s ← net.clients[k]?
      let s' ← clientStep s e
      some { net with clients := net.clients.set k s' }
  | .connect k =>
    if k ∈ net.connected then none
    else do
      let s ← net.clients[k]?
      let s' ← clientStep s .establish
      some { net with clients := net.clients.set k s', connected := net.connected ++ [k] }
  | .toServer id count => do
    let k ← net.connected[id]?
    let s ← net.clients[k]?
    let bytes := underWay (s.kernel.streams socketStream) (net.server.kernel.streams id) count
    let m ← serverStep net.server (.arrive id bytes)
    some { net with server := m }
  | .toClient id count => do
    let k ← net.connected[id]?
    let s ← net.clients[k]?
    let bytes := underWay (net.server.kernel.streams id) (s.kernel.streams socketStream) count
    let s' ← clientStep s (.arrive socketStream bytes)
    some { net with clients := net.clients.set k s' }

/-- A run of the network from the start of the server. -/
abbrev NetworkRun (l : ServerLaunch) := Run networkStep AnyStep ⟨serverMain l, [], []⟩

/-- What holds of both ends of the connections. -/
structure NetworkSound (net : EchoNetwork) : Prop where
  server : Connections net.server
  echoed : ∀ id, (net.server.kernel.streams id).Echoed
  clients : ∀ (k : Nat) (s : ClientState), net.clients[k]? = some s → ClientEnd s
  once : net.connected.Nodup
  known : ∀ k ∈ net.connected, k < net.clients.length
  toServer : ∀ (id : StreamId) (k : Nat) (s : ClientState), net.connected[id]? = some k → net.clients[k]? = some s →
    (net.server.kernel.streams id).sent <+: (s.kernel.streams socketStream).written
  toClient : ∀ (id : StreamId) (k : Nat) (s : ClientState), net.connected[id]? = some k → net.clients[k]? = some s →
    (s.kernel.streams socketStream).sent <+: (net.server.kernel.streams id).written
  silent : ∀ (k : Nat) (s : ClientState), k ∉ net.connected → net.clients[k]? = some s → (s.kernel.streams socketStream).sent = []
  unused : ∀ id, net.connected.length ≤ id → (net.server.kernel.streams id).sent = []

variable {net net' : EchoNetwork}

/-- What comes next is still a beginning of what was written. -/
theorem underWay_prefix {source target : Stream} (h : target.sent <+: source.written) (count : Nat) :
    target.sent ++ underWay source target count <+: source.written := by
  obtain ⟨rest, hrest⟩ := h
  rw [← hrest]
  unfold underWay
  rw [← hrest, List.drop_left]
  exact (List.prefix_append_right_inj _).mpr (List.take_prefix count rest)

namespace NetworkSound

/-- The server takes a step in which the bytes of a client may arrive. -/
theorem server_step (h : NetworkSound net) {e : ServerEvent} {m : ServerState}
    (hm : serverStep net.server e = some m)
    (hbytes : ∀ (id : StreamId) (k : Nat) (s : ClientState), net.connected[id]? = some k → net.clients[k]? = some s →
      (net.server.kernel.streams id).sent ++ e.bytesFor id <+: (s.kernel.streams socketStream).written)
    (hnone : ∀ id, net.connected.length ≤ id → e.bytesFor id = []) :
    NetworkSound { net with server := m } where
  server := connections_step h.server hm
  echoed id := (serverStep_histories hm id).2.2 (h.echoed id)
  clients := h.clients
  once := h.once
  known := h.known
  toServer id k s hid hk := by
    rw [(serverStep_histories hm id).1]
    exact hbytes id k s hid hk
  toClient id k s hid hk := (h.toClient id k s hid hk).trans (serverStep_histories hm id).2.1
  silent := h.silent
  unused id hid := by
    rw [(serverStep_histories hm id).1, hnone id hid, h.unused id hid]
    rfl

/-- A client takes a step in which the bytes of the server may arrive. -/
theorem client_step (h : NetworkSound net) {k : Nat} {s s' : ClientState} {e : ClientEvent}
    (hk : net.clients[k]? = some s) (hs : clientStep s e = some s')
    (hbytes : ∀ id : StreamId, net.connected[id]? = some k →
      (s.kernel.streams socketStream).sent ++ e.socketBytes <+: (net.server.kernel.streams id).written)
    (hnone : k ∉ net.connected → e.socketBytes = []) :
    NetworkSound { net with clients := net.clients.set k s' } := by
  have hend := h.clients k s hk
  have hflow := clientStep_flow hend.shape hs
  have hlt := (List.getElem?_eq_some_iff.mp hk).1
  have hat (k' : Nat) (t : ClientState) (ht : (net.clients.set k s')[k']? = some t) :
      (k' = k ∧ t = s') ∨ (k' ≠ k ∧ net.clients[k']? = some t) := by
    by_cases heq : k' = k
    · subst heq
      rw [List.getElem?_set_self hlt] at ht
      exact Or.inl ⟨rfl, (Option.some.inj ht).symm⟩
    · rw [List.getElem?_set_ne (Ne.symm heq)] at ht
      exact Or.inr ⟨heq, ht⟩
  refine ⟨h.server, h.echoed, ?_, h.once, ?_, ?_, ?_, ?_, h.unused⟩
  · intro k' t ht
    rcases hat k' t ht with ⟨rfl, rfl⟩ | ⟨-, ht⟩
    · exact clientStep_end hend hs
    · exact h.clients k' t ht
  · intro k' hk'
    rw [List.length_set]
    exact h.known k' hk'
  · intro id k' t hid ht
    rcases hat k' t ht with ⟨rfl, rfl⟩ | ⟨-, ht⟩
    · exact (h.toServer id _ s hid hk).trans hflow.written
    · exact h.toServer id k' t hid ht
  · intro id k' t hid ht
    rcases hat k' t ht with ⟨rfl, rfl⟩ | ⟨-, ht⟩
    · rw [hflow.sent]
      exact hbytes id hid
    · exact h.toClient id k' t hid ht
  · intro k' t hk' ht
    rcases hat k' t ht with ⟨rfl, rfl⟩ | ⟨-, ht⟩
    · rw [hflow.sent, hnone hk', h.silent _ s hk' hk]
      rfl
    · exact h.silent k' t hk' ht

theorem clientMain_sent (l : ClientLaunch) : ((clientMain l).kernel.streams socketStream).sent = [] := by
  unfold clientMain
  dsimp only
  rw [socketEventOp_streams, socketEventOp_streams]
  rfl

theorem add_client (h : NetworkSound net) {l : ClientLaunch} (hstdin : 0 ∈ l.inherited) :
    NetworkSound { net with clients := net.clients ++ [clientMain l] } := by
  have hat (k : Nat) (t : ClientState) (ht : (net.clients ++ [clientMain l])[k]? = some t) :
      net.clients[k]? = some t ∨ (k = net.clients.length ∧ t = clientMain l) := by
    rw [List.getElem?_append] at ht
    split at ht
    · exact Or.inl ht
    · rename_i hlt
      obtain ⟨hone, rfl⟩ := List.getElem?_eq_some_iff.mp ht
      rw [List.length_singleton] at hone
      exact Or.inr ⟨by omega, List.getElem_singleton hone⟩
  have hfresh : net.clients.length ∉ net.connected := by
    intro hmem
    exact absurd (h.known _ hmem) (Nat.lt_irrefl _)
  refine ⟨h.server, h.echoed, ?_, h.once, ?_, ?_, ?_, ?_, h.unused⟩
  · intro k t ht
    rcases hat k t ht with ht | ⟨-, rfl⟩
    · exact h.clients k t ht
    · exact clientMain_end hstdin
  · intro k hk
    rw [List.length_append]
    exact Nat.lt_add_right _ (h.known k hk)
  · intro id k t hid ht
    rcases hat k t ht with ht | ⟨rfl, -⟩
    · exact h.toServer id k t hid ht
    · exact absurd (List.mem_of_getElem? hid) hfresh
  · intro id k t hid ht
    rcases hat k t ht with ht | ⟨rfl, -⟩
    · exact h.toClient id k t hid ht
    · exact absurd (List.mem_of_getElem? hid) hfresh
  · intro k t hk ht
    rcases hat k t ht with ht | ⟨-, rfl⟩
    · exact h.silent k t hk ht
    · exact clientMain_sent l

/-- A connection is established, and neither end has got anything. -/
theorem connect (h : NetworkSound net) {k : Nat} (hk : k ∉ net.connected) (hlt : k < net.clients.length) :
    NetworkSound { net with connected := net.connected ++ [k] } := by
  have hat (id k' : Nat) (hid : (net.connected ++ [k])[id]? = some k') :
      net.connected[id]? = some k' ∨ (id = net.connected.length ∧ k' = k) := by
    rw [List.getElem?_append] at hid
    split at hid
    · exact Or.inl hid
    · obtain ⟨hone, rfl⟩ := List.getElem?_eq_some_iff.mp hid
      rw [List.length_singleton] at hone
      exact Or.inr ⟨by omega, List.getElem_singleton hone⟩
  refine ⟨h.server, h.echoed, h.clients, ?_, ?_, ?_, ?_, ?_, ?_⟩
  · exact h.once.append (List.nodup_singleton k) (List.disjoint_singleton.mpr hk)
  · intro k' hk'
    rcases List.mem_append.mp hk' with hold | hnew
    · exact h.known k' hold
    · rw [List.mem_singleton.mp hnew]
      exact hlt
  · intro id k' t hid ht
    rcases hat id k' hid with hid | ⟨rfl, -⟩
    · exact h.toServer id k' t hid ht
    · rw [h.unused _ (Nat.le_refl _)]
      exact List.nil_prefix
  · intro id k' t hid ht
    rcases hat id k' hid with hid | ⟨-, rfl⟩
    · exact h.toClient id k' t hid ht
    · rw [h.silent _ t hk ht]
      exact List.nil_prefix
  · intro k' t hk' ht
    exact h.silent k' t (fun hmem => hk' (List.mem_append_left [k] hmem)) ht
  · intro id hid
    rw [List.length_append] at hid
    exact h.unused id (Nat.le_of_add_right_le hid)

end NetworkSound

theorem networkStep_sound {e : NetworkEvent} (h : NetworkSound net) (hs : net.networkStep e = some net') :
    NetworkSound net' := by
  cases e with
  | launch l =>
    simp only [networkStep] at hs
    split at hs
    · rename_i hstdin
      have hadded := h.add_client hstdin
      cases hs
      split
      · apply hadded.connect
        · intro hmem
          exact absurd (h.known _ hmem) (Nat.lt_irrefl _)
        · rw [List.length_append]
          exact Nat.lt_succ_self _
      · exact hadded
    · cases hs
  | server e =>
    simp only [networkStep] at hs
    split at hs
    · cases hs
    · rename_i hlocal
      obtain ⟨m, hm, hs⟩ := Option.bind_eq_some_iff.mp hs
      have hnone (id : StreamId) : e.bytesFor id = [] := by
        cases e with
        | arrive => exact absurd rfl hlocal
        | epollWait | dispatch => rfl
      split at hs
      · cases hs
        apply h.server_step hm
        · intro id k s hid hk
          rw [hnone, List.append_nil]
          exact h.toServer id k s hid hk
        · exact fun id _ => hnone id
      · cases hs
  | client k e =>
    simp only [networkStep] at hs
    split at hs
    · cases hs
    · rename_i hlocal
      obtain ⟨s, hk, hs⟩ := Option.bind_eq_some_iff.mp hs
      obtain ⟨s', hs', hs⟩ := Option.bind_eq_some_iff.mp hs
      cases hs
      have hnone : e.socketBytes = [] := by
        cases e with
        | arrive id bytes =>
          have hne : ¬ id = socketStream := by simpa [ClientEvent.remote] using hlocal
          exact if_neg hne
        | establish | epollWait | dispatch => rfl
      apply h.client_step hk hs'
      · intro id hid
        rw [hnone, List.append_nil]
        exact h.toClient id k s hid hk
      · exact fun _ => hnone
  | connect k =>
    simp only [networkStep] at hs
    split at hs
    · cases hs
    · rename_i hk
      obtain ⟨s, hget, hs⟩ := Option.bind_eq_some_iff.mp hs
      obtain ⟨s', hs', hs⟩ := Option.bind_eq_some_iff.mp hs
      cases hs
      have hestablished : NetworkSound { net with clients := net.clients.set k s' } := by
        apply h.client_step hget hs'
        · intro id hid
          exact absurd (List.mem_of_getElem? hid) hk
        · exact fun _ => rfl
      apply hestablished.connect hk
      rw [List.length_set]
      exact (List.getElem?_eq_some_iff.mp hget).1
  | toServer id count =>
    obtain ⟨k, hid, hs⟩ := Option.bind_eq_some_iff.mp hs
    obtain ⟨s, hk, hs⟩ := Option.bind_eq_some_iff.mp hs
    obtain ⟨m, hm, hs⟩ := Option.bind_eq_some_iff.mp hs
    cases hs
    apply h.server_step hm
    · intro id' k' s' hid' hk'
      simp only [ServerEvent.bytesFor]
      split
      · rename_i heq
        subst heq
        cases hid.symm.trans hid'
        cases hk.symm.trans hk'
        exact underWay_prefix (h.toServer id' k s hid hk) count
      · rw [List.append_nil]
        exact h.toServer id' k' s' hid' hk'
    · intro id' hid'
      have hlt := (List.getElem?_eq_some_iff.mp hid).1
      exact if_neg (Nat.ne_of_gt (Nat.lt_of_lt_of_le hlt hid'))
  | toClient id count =>
    obtain ⟨k, hid, hs⟩ := Option.bind_eq_some_iff.mp hs
    obtain ⟨s, hk, hs⟩ := Option.bind_eq_some_iff.mp hs
    obtain ⟨s', hs', hs⟩ := Option.bind_eq_some_iff.mp hs
    cases hs
    apply h.client_step hk hs'
    · intro id' hid'
      -- a client has one connection
      have heq : id' = id := by
        obtain ⟨hlt, hget⟩ := List.getElem?_eq_some_iff.mp hid
        obtain ⟨hlt', hget'⟩ := List.getElem?_eq_some_iff.mp hid'
        exact (List.Nodup.getElem_inj_iff h.once).mp (hget'.trans hget.symm)
      subst heq
      exact underWay_prefix (h.toClient id' k s hid hk) count
    · intro hnone
      exact absurd (List.mem_of_getElem? hid) hnone

theorem network_sound {l : ServerLaunch} {es : List NetworkEvent} (h : NetworkRun l es net) :
    NetworkSound net := by
  have hstreams : (serverMain l).kernel.streams = fun _ => {} := socketEventOp_streams _ _ _ _ _
  apply h.invariant
  · constructor
    · exact serverMain_connections l
    · intro id
      rw [hstreams]
      exact List.Sublist.refl []
    · intro k s hk
      cases hk
    · exact List.nodup_nil
    · intro k hk
      cases hk
    · intro id k s hid
      cases hid
    · intro id k s hid
      cases hid
    · intro k s _ hk
      cases hk
    · intro id _
      rw [hstreams]
  · intro s e s' hs _ hstep
    exact networkStep_sound hs hstep

/-- In every state of the network, with any failures of reads and writes: what a client has read from
its connection was typed at this client, in this order. Where no write of the server to it has failed,
it is the beginning of what the client has written. -/
theorem own_echo {l : ServerLaunch} {es : List NetworkEvent} (h : NetworkRun l es net) {k : Nat}
    {s : ClientState} (hk : net.clients[k]? = some s) :
    (s.kernel.streams socketStream).received.Sublist (s.kernel.streams stdinStream).received ∧
    ∀ id, net.connected[id]? = some k → (net.server.kernel.streams id).writeFailed = false →
      (s.kernel.streams socketStream).received <+: (s.kernel.streams socketStream).written := by
  have hnet := network_sound h
  have hend := hnet.clients k s hk
  have hread : (s.kernel.streams socketStream).received <+: (s.kernel.streams socketStream).sent := by
    rw [hend.held]
    exact List.prefix_append _ _
  -- the way of the bytes, from their end back to their start
  have hserver (id : StreamId) :
      (net.server.kernel.streams id).received <+: (net.server.kernel.streams id).sent := by
    rw [(hnet.server.sound id).sent]
    exact List.prefix_append _ _
  constructor
  · by_cases hconnected : k ∈ net.connected
    · obtain ⟨id, hid⟩ := List.mem_iff_getElem?.mp hconnected
      apply hread.sublist.trans
      apply (hnet.toClient id k s hid hk).sublist.trans
      apply (hnet.echoed id).trans
      apply (hserver id).sublist.trans
      apply (hnet.toServer id k s hid hk).sublist.trans
      exact hend.typed
    · rw [hnet.silent k s hconnected hk] at hread
      rw [List.prefix_nil.mp hread]
      exact List.nil_sublist _
  · intro id hid hwrites
    have hwritten := hnet.toClient id k s hid hk
    rw [(hnet.server.sound id).written hwrites] at hwritten
    exact (hread.trans hwritten).trans ((hserver id).trans (hnet.toServer id k s hid hk))

/-- Two clients; the second one types a line and gets it back. -/
def echoedLine : List NetworkEvent :=
  [.launch inputLaunch, .launch inputLaunch,
    .server (.epollWait [⟨3, epollIn, 0⟩]), .server (.dispatch (.accepting (some 5) 1 true)),
    .server (.epollWait [⟨3, epollIn, 0⟩]), .server (.dispatch (.accepting (some 6) 2 true)),
    .client 1 (.arrive stdinStream [104, 105, 10]), .client 1 (.epollWait [⟨0, epollIn, inputLaunch.stdinPtr⟩]),
    .client 1 (.dispatch (.stdin (.data 3) .full true)), .toServer 1 2,
    .server (.epollWait [⟨6, epollIn, 2⟩]), .server (.dispatch (.reading (.data 2) .full true)),
    .toClient 1 2, .client 1 (.epollWait [⟨3, epollIn, inputLaunch.socketPtr⟩]),
    .client 1 (.dispatch (.socket (.data 2) true))]

theorem own_echo_of_line : ∃ net s, NetworkRun launchExample echoedLine net ∧ net.clients[1]? = some s ∧
    (s.kernel.streams socketStream).received = [104, 105] ∧
    (s.kernel.streams socketStream).received.Sublist (s.kernel.streams stdinStream).received := by
  have hreplay : (replay networkStep ⟨serverMain launchExample, [], []⟩ echoedLine).bind (fun net =>
      (net.clients[1]?).map fun s => (s.kernel.streams socketStream).received) = some [104, 105] := by
    decide
  obtain ⟨net, hnet, hclient⟩ := Option.bind_eq_some_iff.mp hreplay
  obtain ⟨s, hs, hreceived⟩ := Option.map_eq_some_iff.mp hclient
  exact ⟨net, s, Run.of_replay hnet, hs, hreceived, (own_echo (Run.of_replay hnet) hs).1⟩

end EchoNetwork

end RedisLuaLinux.LinuxC
