import RedisLuaLinux.LinuxC.ClientConnection

/-!
# What the client sends of its input

`stdin_read_callback` drops the last byte of each piece that `read` returns.

* `run_pieces`: what a run has read and written, in terms of the pieces.
* `run_of_pieces`: standard input may be cut into any pieces of 1 to 1024 bytes.
* `sends_input`: which inputs are sent whole, but for newlines, however they are cut.
* `run_keeps_input`: the same for one run.
-/

namespace RedisLuaLinux.LinuxC

open Library

def newline : Byte := 10

/-- A piece that one `read` can return. -/
def IsPiece (piece : List Byte) : Prop := 0 < piece.length ∧ piece.length ≤ readBufMax

instance (piece : List Byte) : Decidable (IsPiece piece) :=
  inferInstanceAs (Decidable (0 < piece.length ∧ piece.length ≤ readBufMax))

/-- Some run of a client reads `input` and hands `sent` to `write`. -/
def Sends (input sent : List Byte) : Prop :=
  ∃ l es s, 0 ∈ l.inherited ∧ AnyClientRun l es s ∧
    (s.kernel.streams stdinStream).received = input ∧ s.writes.flatMap WriteCall.data = sent

/-- `sent` is `input` without some of its newlines. -/
def OnlyNewlinesRemoved (input sent : List Byte) : Prop :=
  sent.Sublist input ∧ sent.filter (· ≠ newline) = input.filter (· ≠ newline)

/-- What a run has read and written, in terms of the pieces that were read. -/
def Cut (f : Forwarder) (pieces : List (List Byte)) : Prop :=
  (∀ piece ∈ pieces, IsPiece piece) ∧ f.received = pieces.flatten ∧
    f.sent.map Prod.fst = pieces.map List.dropLast

theorem cut_step {f : Forwarder} {e : ClientEvent} {a : ForwarderEvent} (h : ∃ pieces, Cut f pieces)
    (ha : Observes e a) : ∃ pieces, Cut (f.step a) pieces := by
  obtain ⟨pieces, hpieces, hreceived, hsent⟩ := h
  rcases ha.cases with ⟨-, rfl⟩ | ⟨-, -, -, rfl⟩ | ⟨piece, -, -, -, hpos, hsize, rfl⟩ | ⟨-, -, -, rfl⟩
  · exact ⟨pieces, hpieces, hreceived, hsent⟩
  · exact ⟨pieces, hpieces, hreceived, hsent⟩
  · refine ⟨pieces ++ [piece], ?_, ?_, ?_⟩
    · intro p hp
      rcases List.mem_append.mp hp with hp | hp
      · exact hpieces p hp
      · rw [List.mem_singleton.mp hp]
        exact ⟨hpos, hsize⟩
    · simp [Forwarder.step, hreceived]
    · simp [Forwarder.step, hsent]
  · exact ⟨pieces, hpieces, hreceived, hsent⟩

/-- A run reads pieces and hands each to `write` without its last byte. -/
theorem run_pieces {l : ClientLaunch} (hstdin : 0 ∈ l.inherited) {es : List ClientEvent}
    {s : ClientState} (h : AnyClientRun l es s) :
    ∃ pieces : List (List Byte), (∀ piece ∈ pieces, IsPiece piece) ∧
      (s.kernel.streams stdinStream).received = pieces.flatten ∧
      s.writes.map WriteCall.data = pieces.map List.dropLast := by
  obtain ⟨-, pieces, hpieces, hreceived, hsent⟩ := AnyClientRun.induction hstdin
    (P := fun _ f => ∃ pieces, Cut f pieces) ⟨[], by simp, rfl, rfl⟩
    (fun _ _ _ _ hp ha => cut_step hp ha) h
  refine ⟨pieces, hpieces, hreceived, ?_⟩
  rw [← hsent]
  simp [ClientState.forwarder]

/-! ## Runs that read given pieces -/

/-- Standard input is registered and holds `rest`, the connection is established, and no record
waits. -/
structure Reading (l : ClientLaunch) (rest : List Byte) (s : ClientState) : Prop where
  batch : s.batch = []
  socketFd : s.gSocketFd = l.socketFd
  object : s.heap l.stdinPtr = some (stdinEvent l)
  registered : s.kernel.interest.lookup 0 = some ⟨epollIn, l.stdinPtr⟩
  stdinFile : s.kernel.files 0 = some (.stream stdinStream)
  socketFile : s.kernel.files l.socketFd = some (.stream socketStream)
  established : (s.kernel.streams socketStream).established = true
  inbound : (s.kernel.streams stdinStream).inbound = rest

/-- One piece is read and sent. -/
def pieceEvents (l : ClientLaunch) (piece : List Byte) : List ClientEvent :=
  [.epollWait [⟨0, epollIn, l.stdinPtr⟩], .dispatch (.stdin (.data piece.length) .full true)]

theorem read_piece {k : Kernel} {fd : Fd} {id : StreamId} {piece rest : List Byte} (hpiece : IsPiece piece)
    (hfile : k.files fd = some (.stream id)) (hinbound : (k.streams id).inbound = piece ++ rest) :
    k.read fd readBufMax (.data piece.length) =
      some ((piece.length : Int), piece, k.mapStream id fun st =>
        { st with inbound := rest, received := st.received ++ piece }) := by
  have hid : k.stream? fd = some id := Kernel.stream?_eq_some.mpr hfile
  simp [Kernel.read, hid, hinbound, hpiece.1, hpiece.2]

theorem write_full {k : Kernel} {fd : Fd} {id : StreamId} (buf : List Byte)
    (hfile : k.files fd = some (.stream id)) (hestablished : (k.streams id).established = true) :
    k.write fd buf .full =
      some ((buf.length : Int), k.mapStream id fun st => { st with written := st.written ++ buf }) := by
  have hid : k.stream? fd = some id := Kernel.stream?_eq_some.mpr hfile
  simp [Kernel.write, hid, hestablished]

theorem reading_piece {l : ClientLaunch} {piece rest : List Byte} {s : ClientState} (hpiece : IsPiece piece)
    (h : Reading l (piece ++ rest) s) :
    ∃ s', replay clientStep s (pieceEvents l piece) = some s' ∧ Reading l rest s' ∧
      (s'.kernel.streams stdinStream).received = (s.kernel.streams stdinStream).received ++ piece ∧
      s'.writes.map WriteCall.data = s.writes.map WriteCall.data ++ [piece.dropLast] := by
  have hbits : epollIn &&& ~~~(epollIn ||| epollErr ||| epollHup) = 0#32 := by decide
  have hbatch : s.kernel.Batch recvEpEventMax [⟨0, epollIn, l.stdinPtr⟩] := by
    refine ⟨by simp [recvEpEventMax], List.nodup_singleton _, ?_⟩
    intro r hr
    rw [List.mem_singleton.mp hr]
    exact ⟨_, h.registered, rfl, hbits⟩
  have hread := read_piece hpiece h.stdinFile h.inbound
  have hother : socketStream ≠ stdinStream := by decide
  generalize hk : (s.kernel.mapStream stdinStream fun st =>
    { st with inbound := rest, received := st.received ++ piece }) = k at hread
  have hfile : k.files l.socketFd = some (.stream socketStream) := by
    rw [← hk]
    exact h.socketFile
  have hestablished : (k.streams socketStream).established = true := by
    rw [← hk, Kernel.mapStream_streams, if_neg hother]
    exact h.established
  have hwrite := write_full piece.dropLast hfile hestablished
  have hrun : replay clientStep s (pieceEvents l piece) = some { s with
      kernel := k.mapStream socketStream fun st => { st with written := st.written ++ piece.dropLast }
      batch := []
      writes := s.writes ++ [⟨s.gSocketFd, piece.dropLast, k.connected s.gSocketFd⟩] } := by
    have hin : epollIn ≠ 0#32 := by decide
    have hne : piece ≠ [] := List.ne_nil_of_length_pos hpiece.1
    simp [pieceEvents, replay, clientStep, h.batch, hbatch, clientActiveFdProcess, dispatchRecord, h.object,
      stdinEvent, clientCallback, stdinReadCallback, hread, h.socketFd, sentData rfl, hwrite, hin, hne]
  have hkept : ∀ id, id ≠ socketStream → (k.mapStream socketStream fun st =>
      { st with written := st.written ++ piece.dropLast }).streams id = k.streams id := by
    intro id hne
    rw [Kernel.mapStream_streams, if_neg hne]
  have htaken : k.streams stdinStream = { s.kernel.streams stdinStream with
      inbound := rest, received := (s.kernel.streams stdinStream).received ++ piece } := by
    rw [← hk, Kernel.mapStream_streams, if_pos rfl]
  refine ⟨_, hrun, ⟨rfl, h.socketFd, h.object, ?_, ?_, hfile, ?_, ?_⟩, ?_, ?_⟩
  · show k.interest.lookup 0 = _
    rw [← hk]
    exact h.registered
  · show k.files 0 = _
    rw [← hk]
    exact h.stdinFile
  · dsimp only
    rw [Kernel.mapStream_streams, if_pos rfl]
    exact hestablished
  · dsimp only
    rw [hkept stdinStream (Ne.symm hother), htaken]
  · dsimp only
    rw [hkept stdinStream (Ne.symm hother), htaken]
  · simp

/-- A client whose connection is established at once. -/
def inputLaunch : ClientLaunch := { clientLaunchExample with established := true }

theorem inputLaunch_inherited : (0 : Fd) ∈ inputLaunch.inherited := by decide

/-- All input has arrived. -/
theorem reading_start (input : List Byte) :
    ∃ s, AnyClientRun inputLaunch [.arrive stdinStream input] s ∧ Reading inputLaunch input s ∧
      (s.kernel.streams stdinStream).received = [] ∧ s.writes = [] := by
  have hrun : replay clientStep (clientMain inputLaunch) [.arrive stdinStream input] =
      some { clientMain inputLaunch with
        kernel := (clientMain inputLaunch).kernel.mapStream stdinStream fun st =>
          { st with sent := st.sent ++ input, inbound := st.inbound ++ input } } := rfl
  refine ⟨_, Run.of_replay hrun, ⟨rfl, rfl, rfl, rfl, rfl, rfl, rfl, ?_⟩, rfl, rfl⟩
  rfl

/-- Standard input may be cut into any pieces. -/
theorem run_of_pieces (pieces : List (List Byte)) (hpieces : ∀ piece ∈ pieces, IsPiece piece) :
    ∃ es s, AnyClientRun inputLaunch es s ∧ (s.kernel.streams stdinStream).received = pieces.flatten ∧
      s.writes.map WriteCall.data = pieces.map List.dropLast := by
  have hreads : ∀ (pieces : List (List Byte)) es s, (∀ piece ∈ pieces, IsPiece piece) →
      AnyClientRun inputLaunch es s → Reading inputLaunch pieces.flatten s →
      ∃ es' s', AnyClientRun inputLaunch es' s' ∧
        (s'.kernel.streams stdinStream).received = (s.kernel.streams stdinStream).received ++ pieces.flatten ∧
        s'.writes.map WriteCall.data = s.writes.map WriteCall.data ++ pieces.map List.dropLast := by
    intro pieces
    induction pieces with
    | nil =>
      intro es s _ hrun _
      exact ⟨es, s, hrun, by simp, by simp⟩
    | cons piece pieces ih =>
      intro es s hall hrun hreading
      obtain ⟨mid, hmid, hreading, hreceived, hwrites⟩ := reading_piece (hall piece List.mem_cons_self) hreading
      obtain ⟨es', s', hrun', hreceived', hwrites'⟩ := ih _ mid
        (fun p hp => hall p (List.mem_cons_of_mem _ hp)) (Run.trans hrun (Run.of_replay hmid)) hreading
      exact ⟨es', s', hrun', by simp [hreceived', hreceived], by simp [hwrites', hwrites]⟩
  obtain ⟨s, hrun, hreading, hreceived, hwrites⟩ := reading_start pieces.flatten
  obtain ⟨es', s', hrun', hreceived', hwrites'⟩ := hreads pieces _ s hpieces hrun hreading
  exact ⟨es', s', hrun', by rw [hreceived', hreceived]; rfl, by rw [hwrites', hwrites]; rfl⟩

/-! ## All cuts of an input -/

theorem sends_iff {input sent : List Byte} : Sends input sent ↔
    ∃ pieces : List (List Byte), (∀ piece ∈ pieces, IsPiece piece) ∧ input = pieces.flatten ∧
      sent = (pieces.map List.dropLast).flatten := by
  constructor
  · rintro ⟨l, es, s, hstdin, hrun, rfl, rfl⟩
    obtain ⟨pieces, hpieces, hreceived, hwrites⟩ := run_pieces hstdin hrun
    refine ⟨pieces, hpieces, hreceived, ?_⟩
    rw [← hwrites]
    rfl
  · rintro ⟨pieces, hpieces, rfl, rfl⟩
    obtain ⟨es, s, hrun, hreceived, hwrites⟩ := run_of_pieces pieces hpieces
    refine ⟨inputLaunch, es, s, inputLaunch_inherited, hrun, hreceived, ?_⟩
    rw [← hwrites]
    rfl

theorem isPiece_singleton (x : Byte) : IsPiece [x] := ⟨Nat.one_pos, by simp [readBufMax]⟩

/-- Byte by byte, nothing is sent. -/
theorem sends_nothing (input : List Byte) : Sends input [] := by
  refine sends_iff.mpr ⟨input.map fun x => [x], ?_, ?_, ?_⟩
  · intro piece hpiece
    obtain ⟨x, -, rfl⟩ := List.mem_map.mp hpiece
    exact isPiece_singleton x
  · induction input with
    | nil => rfl
    | cons x input ih => rw [List.map_cons, List.flatten_cons, ← ih]; rfl
  · induction input with
    | nil => rfl
    | cons x input ih => rw [List.map_cons, List.map_cons, List.flatten_cons, ← ih]; rfl

/-- The first two bytes in one piece, and the others byte by byte. -/
theorem sends_first (x y : Byte) (input : List Byte) : Sends (x :: y :: input) [x] := by
  obtain ⟨pieces, hpieces, hinput, hsent⟩ := sends_iff.mp (sends_nothing input)
  refine sends_iff.mpr ⟨[x, y] :: pieces, ?_, ?_, ?_⟩
  · intro piece hpiece
    rcases List.mem_cons.mp hpiece with rfl | hpiece
    · exact ⟨by simp, by simp [readBufMax]⟩
    · exact hpieces piece hpiece
  · rw [List.flatten_cons, ← hinput]
    rfl
  · rw [List.map_cons, List.flatten_cons, ← hsent]
    rfl

/-- Whichever way `read` cuts `input`, the same bytes are handed to `write`, and they are `input`
without some newlines, if and only if `input` is empty or one newline. -/
theorem sends_input (input : List Byte) :
    ((∀ sent sent', Sends input sent → Sends input sent' → sent = sent') ∧
      ∀ sent, Sends input sent → OnlyNewlinesRemoved input sent) ↔
    input = [] ∨ input = [newline] := by
  constructor
  · rintro ⟨hsame, honly⟩
    match input with
    | [] => exact Or.inl rfl
    | [x] =>
      obtain ⟨-, hfilter⟩ := honly [] (sends_nothing [x])
      right
      simpa using hfilter
    | x :: y :: rest => exact absurd (hsame _ _ (sends_first x y rest) (sends_nothing _)) nofun
  · intro h
    have hnothing : ∀ sent, Sends input sent → sent = [] := by
      intro sent hsent
      obtain ⟨pieces, hpieces, hinput, rfl⟩ := sends_iff.mp hsent
      have hshort : pieces.flatten.length ≤ 1 := by
        rw [← hinput]
        rcases h with rfl | rfl <;> simp
      refine List.flatten_eq_nil_iff.mpr fun sent hsent => ?_
      obtain ⟨piece, hpiece, rfl⟩ := List.mem_map.mp hsent
      have hle := (List.sublist_flatten_of_mem hpiece).length_le
      refine List.eq_nil_of_length_eq_zero ?_
      rw [List.length_dropLast]
      omega
    refine ⟨fun sent sent' hsent hsent' => ?_, fun sent hsent => ?_⟩
    · rw [hnothing sent hsent, hnothing sent' hsent']
    · rw [hnothing sent hsent]
      rcases h with rfl | rfl
      · exact ⟨List.nil_sublist _, rfl⟩
      · exact ⟨List.nil_sublist _, rfl⟩

/-- What a run has read, and what it has sent. -/
def observedInput (s : ClientState) : List Byte × List Byte :=
  ((s.kernel.streams stdinStream).received, s.writes.flatMap WriteCall.data)

/-- An input of two bytes, read at once or byte by byte: its first byte is sent, or nothing. -/
theorem sends_input_fails :
    (∃ s, AnyClientRun inputLaunch (.arrive stdinStream [104, 105] :: pieceEvents inputLaunch [104, 105]) s ∧
      observedInput s = ([104, 105], [104])) ∧
    ∃ s, AnyClientRun inputLaunch (.arrive stdinStream [104, 105] ::
        (pieceEvents inputLaunch [104] ++ pieceEvents inputLaunch [105])) s ∧
      observedInput s = ([104, 105], []) := by
  have hwhole : (replay clientStep (clientMain inputLaunch)
      (.arrive stdinStream [104, 105] :: pieceEvents inputLaunch [104, 105])).map observedInput =
      some ([104, 105], [104]) := by
    decide
  have hbytes : (replay clientStep (clientMain inputLaunch) (.arrive stdinStream [104, 105] ::
      (pieceEvents inputLaunch [104] ++ pieceEvents inputLaunch [105]))).map observedInput =
      some ([104, 105], []) := by
    decide
  obtain ⟨s, hs, hobs⟩ := Option.map_eq_some_iff.mp hwhole
  obtain ⟨s', hs', hobs'⟩ := Option.map_eq_some_iff.mp hbytes
  exact ⟨⟨s, Run.of_replay hs, hobs⟩, s', Run.of_replay hs', hobs'⟩

/-! ## One cut -/

/-- The last bytes of the pieces are what is missing. -/
theorem countP_cut (q : Byte → Bool) (pieces : List (List Byte)) :
    (pieces.map List.dropLast).flatten.countP q + (pieces.filterMap List.getLast?).countP q =
      pieces.flatten.countP q := by
  induction pieces with
  | nil => rfl
  | cons piece pieces ih =>
    rcases List.eq_nil_or_concat piece with rfl | ⟨init, last, rfl⟩
    · exact ih
    · rw [List.concat_eq_append, List.map_cons, List.dropLast_concat, List.flatten_cons, List.flatten_cons,
        List.filterMap_cons_some List.getLast?_concat, List.countP_append, List.countP_append,
        List.countP_append, List.countP_cons, List.countP_cons, List.countP_nil]
      omega

theorem dropLast_sublist (pieces : List (List Byte)) :
    (pieces.map List.dropLast).flatten.Sublist pieces.flatten := by
  induction pieces with
  | nil => exact List.Sublist.refl _
  | cons piece pieces ih => exact (List.dropLast_sublist piece).append ih

/-- Of one cut, only newlines are missing if and only if each piece ends with one. -/
theorem onlyNewlinesRemoved_cut {pieces : List (List Byte)} (hpieces : ∀ piece ∈ pieces, IsPiece piece) :
    OnlyNewlinesRemoved pieces.flatten (pieces.map List.dropLast).flatten ↔
      ∀ piece ∈ pieces, piece.getLast? = some newline := by
  have hcount := countP_cut (· ≠ newline) pieces
  have hlasts : (pieces.filterMap List.getLast?).countP (· ≠ newline) = 0 ↔
      ∀ piece ∈ pieces, piece.getLast? = some newline := by
    rw [List.countP_eq_zero]
    constructor
    · intro h piece hpiece
      have hne : piece ≠ [] := List.ne_nil_of_length_pos (hpieces piece hpiece).1
      have hlast := List.getLast?_eq_some_getLast hne
      have hnewline := h _ (List.mem_filterMap.mpr ⟨piece, hpiece, hlast⟩)
      rw [hlast]
      simpa using hnewline
    · intro h last hmem
      obtain ⟨piece, hpiece, hlast⟩ := List.mem_filterMap.mp hmem
      rw [h piece hpiece] at hlast
      simp [Option.some.inj hlast]
  rw [← hlasts]
  constructor
  · rintro ⟨-, hfilter⟩
    have hlen := congrArg List.length hfilter
    rw [← List.countP_eq_length_filter, ← List.countP_eq_length_filter] at hlen
    omega
  · intro hzero
    have hsub := dropLast_sublist pieces
    refine ⟨hsub, (hsub.filter _).eq_of_length ?_⟩
    rw [← List.countP_eq_length_filter, ← List.countP_eq_length_filter]
    omega

/-- What a run has sent of its input. -/
theorem run_keeps_input {l : ClientLaunch} (hstdin : 0 ∈ l.inherited) {es : List ClientEvent}
    {s : ClientState} (h : AnyClientRun l es s) :
    ∃ pieces : List (List Byte), (s.kernel.streams stdinStream).received = pieces.flatten ∧
      s.writes.map WriteCall.data = pieces.map List.dropLast ∧
      (OnlyNewlinesRemoved (s.kernel.streams stdinStream).received (s.writes.flatMap WriteCall.data) ↔
        ∀ piece ∈ pieces, piece.getLast? = some newline) := by
  obtain ⟨pieces, hpieces, hreceived, hwrites⟩ := run_pieces hstdin h
  refine ⟨pieces, hreceived, hwrites, ?_⟩
  rw [List.flatMap, hwrites, hreceived]
  exact onlyNewlinesRemoved_cut hpieces

end RedisLuaLinux.LinuxC
