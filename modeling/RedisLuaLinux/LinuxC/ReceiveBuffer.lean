import RedisLuaLinux.LinuxC.ClientInput
import RedisLuaLinux.Library.Buffer

/-!
# Receive buffers

The arrays that the callbacks of `client.c` and `server.c` and the loop of
`Mcast_test/mul_server.c` receive into and print, with their bounds. The callbacks zero their
array, then `read` fills any part of it.

* `socketReadCallback_buffer`, `stdinReadCallback_buffer`, `clientReadCallback_buffer`: the callbacks
  work on these buffers.
* `receive_in_bounds`: which reads and datagrams stay inside.
-/

namespace RedisLuaLinux.LinuxC

open Library

/-- The array of a callback: it is zeroed, `read` stores into it, and data is terminated and
printed. -/
def callbackBuffer (readBuf : Buffer readBufMax) (terminate : Nat → Buffer readBufMax → Buffer readBufMax)
    (k : Kernel) (fd : Fd) (answer : ReadAnswer) : Option (Buffer readBufMax) := do
  let (ret, bytes, _) ← k.read fd readBufMax answer
  let readBuf := readBuf.fill bytes
  if 0 < ret then some (terminate ret.toNat readBuf).print else some readBuf

/-- `read_buf[ret] = 0` -/
def socketReadBuffer : Kernel → Fd → ReadAnswer → Option (Buffer readBufMax) :=
  callbackBuffer .zeroed fun ret readBuf => readBuf.store ret 0

/-- `read_buf[ret - 1] = 0` -/
def stdinReadBuffer : Kernel → Fd → ReadAnswer → Option (Buffer readBufMax) :=
  callbackBuffer .zeroed fun ret readBuf => readBuf.store (ret - 1) 0

/-- The server terminates nothing; it zeroes its array twice. -/
def clientReadBuffer : Kernel → Fd → ReadAnswer → Option (Buffer readBufMax) :=
  callbackBuffer (Buffer.clear .zeroed) fun _ readBuf => readBuf

/-- `BUFF_SIZE` of the multicast receiver. -/
def buffSize : Nat := 256

/-- One iteration of the receiver; `none` is an error of `recvfrom`, which cuts a datagram off at
the end of the array. -/
def receiveDatagram (buff : Buffer buffSize) (datagram : Option (List Byte)) : Buffer buffSize :=
  let buff := buff.clear
  match datagram with
  | none => buff.print
  | some bytes => (buff.fill (bytes.take buffSize)).print

/-- The loop of the receiver; `datagrams times` is what arrives in an iteration. -/
def mulServerMain (buff : Buffer buffSize) (datagrams : Nat → Option (List Byte)) : Buffer buffSize :=
  (List.range 5).foldl (fun buff times => receiveDatagram buff (datagrams times)) buff

section Callback

variable {k : Kernel} {fd : Fd} {answer : ReadAnswer} {readBuf buf : Buffer readBufMax}
  {terminate : Nat → Buffer readBufMax → Buffer readBufMax}

/-- Data fills part of the array, and is terminated and printed; nothing else is stored. -/
theorem callbackBuffer_cases (h : callbackBuffer readBuf terminate k fd answer = some buf) :
    (∃ id bytes rest, answer = .data bytes.length ∧ 0 < bytes.length ∧ bytes.length ≤ readBufMax ∧
      k.stream? fd = some id ∧ (k.streams id).inbound = bytes ++ rest ∧
      buf = (terminate bytes.length (readBuf.fill bytes)).print) ∨
    ((∀ count, answer ≠ .data count) ∧ buf = readBuf.fill []) := by
  obtain ⟨⟨ret, bytes, k'⟩, hread, h⟩ := Option.bind_eq_some_iff.mp h
  by_cases ha : ∃ count, answer = .data count
  · obtain ⟨count, rfl⟩ := ha
    obtain ⟨id, rest, hfile, hpos, hsize, rfl, rfl, hinbound, -⟩ := Kernel.read_data hread
    simp only [show (0 : Int) < bytes.length by omega, if_true, Int.toNat_natCast, Option.some.injEq] at h
    exact Or.inl ⟨id, bytes, rest, rfl, hpos, hsize, Kernel.stream?_eq_some.mpr hfile, hinbound, h.symm⟩
  · have ha : ∀ count, answer ≠ .data count := fun count heq => ha ⟨count, heq⟩
    obtain ⟨hret, rfl, -⟩ := Kernel.read_none ha hread
    simp only [show ¬ 0 < ret by omega, if_false, Option.some.injEq] at h
    exact Or.inr ⟨ha, h.symm⟩

theorem socketReadBuffer_inBounds (h : socketReadBuffer k fd answer = some buf) :
    buf.InBounds ↔ answer ≠ .data readBufMax := by
  rcases callbackBuffer_cases h with ⟨id, bytes, rest, rfl, hpos, hsize, -, -, rfl⟩ | ⟨ha, rfl⟩
  · rw [Buffer.inBounds_terminated, Buffer.inBounds_fill]
    simp only [Buffer.inBounds_zeroed, hsize, true_and, ne_eq, ReadAnswer.data.injEq]
    omega
  · simp [Buffer.inBounds_fill, Buffer.inBounds_zeroed, ha]

theorem stdinReadBuffer_inBounds (h : stdinReadBuffer k fd answer = some buf) : buf.InBounds := by
  rcases callbackBuffer_cases h with ⟨id, bytes, rest, rfl, hpos, hsize, -, -, rfl⟩ | ⟨ha, rfl⟩
  · rw [Buffer.inBounds_terminated, Buffer.inBounds_fill]
    exact ⟨⟨Buffer.inBounds_zeroed, hsize⟩, by omega⟩
  · simp [Buffer.inBounds_fill, Buffer.inBounds_zeroed]

theorem clientReadBuffer_inBounds (h : clientReadBuffer k fd answer = some buf) :
    buf.InBounds ↔ (answer = .data readBufMax →
      ∃ id, k.stream? fd = some id ∧ 0 ∈ (k.streams id).inbound.take readBufMax) := by
  rcases callbackBuffer_cases h with ⟨id, bytes, rest, rfl, hpos, hsize, hid, hinbound, rfl⟩ | ⟨ha, rfl⟩
  · rw [Buffer.inBounds_print, Buffer.zero_mem_fill Buffer.cells_clear hsize, Buffer.inBounds_fill,
      Buffer.inBounds_clear]
    simp only [Buffer.inBounds_zeroed, hsize, true_and, hid, Option.some.injEq, exists_eq_left', hinbound,
      ReadAnswer.data.injEq]
    constructor
    · intro h heq
      rw [List.take_append_of_le_length (Nat.le_of_eq heq.symm), List.take_of_length_le hsize]
      exact h.resolve_left (by omega)
    · intro h
      rcases Nat.lt_or_eq_of_le hsize with hlt | heq
      · exact Or.inl hlt
      · have hzero := h heq
        rw [List.take_append_of_le_length (Nat.le_of_eq heq.symm), List.take_of_length_le hsize] at hzero
        exact Or.inr hzero
  · simp [Buffer.inBounds_fill, Buffer.inBounds_clear, Buffer.inBounds_zeroed, ha]

end Callback

/-! ## The multicast receiver -/

/-- A datagram that does not take the whole array, or that brings a zero of its own. -/
def Terminated (datagram : Option (List Byte)) : Prop :=
  ∀ bytes, datagram = some bytes → bytes.length < buffSize ∨ 0 ∈ bytes.take buffSize

theorem receiveDatagram_inBounds (buff : Buffer buffSize) (datagram : Option (List Byte)) :
    (receiveDatagram buff datagram).InBounds ↔ buff.InBounds ∧ Terminated datagram := by
  unfold receiveDatagram
  cases datagram with
  | none =>
    dsimp only
    rw [Buffer.inBounds_print, Buffer.inBounds_clear, Buffer.cells_clear]
    have hzero : (0 : Byte) ∈ List.replicate buffSize 0 := List.mem_replicate.mpr ⟨by decide, rfl⟩
    exact and_congr_right fun _ => ⟨fun _ => nofun, fun _ => hzero⟩
  | some bytes =>
    have hsize : (bytes.take buffSize).length ≤ buffSize := List.length_take_le _ _
    have hshort : (bytes.take buffSize).length < buffSize ↔ bytes.length < buffSize := by
      rw [List.length_take]
      omega
    dsimp only
    rw [Buffer.inBounds_print, Buffer.zero_mem_fill Buffer.cells_clear hsize, Buffer.inBounds_fill,
      Buffer.inBounds_clear, hshort, and_iff_left hsize]
    refine and_congr_right fun _ => ⟨fun h bytes' heq => ?_, fun h => h bytes rfl⟩
    rw [← Option.some.inj heq]
    exact h

theorem receiveDatagrams_inBounds (datagrams : Nat → Option (List Byte)) (iterations : List Nat)
    (buff : Buffer buffSize) :
    (iterations.foldl (fun buff times => receiveDatagram buff (datagrams times)) buff).InBounds ↔
      buff.InBounds ∧ ∀ times ∈ iterations, Terminated (datagrams times) := by
  induction iterations generalizing buff with
  | nil => simp
  | cons times iterations ih =>
    rw [List.foldl_cons, ih, receiveDatagram_inBounds, List.forall_mem_cons, and_assoc]

theorem mulServerMain_inBounds (buff : Buffer buffSize) (datagrams : Nat → Option (List Byte)) :
    (mulServerMain buff datagrams).InBounds ↔
      buff.InBounds ∧ ∀ times < 5, Terminated (datagrams times) := by
  unfold mulServerMain
  rw [receiveDatagrams_inBounds]
  simp only [List.mem_range]

/-! ## The callbacks -/

theorem callbackBuffer_isSome {k : Kernel} {fd : Fd} {answer : ReadAnswer} {out : Int × List Byte × Kernel}
    (readBuf : Buffer readBufMax) (terminate : Nat → Buffer readBufMax → Buffer readBufMax)
    (hread : k.read fd readBufMax answer = some out) :
    ∃ buf, callbackBuffer readBuf terminate k fd answer = some buf := by
  obtain ⟨ret, bytes, k'⟩ := out
  unfold callbackBuffer
  rw [hread]
  by_cases hret : 0 < ret
  · exact ⟨_, if_pos hret⟩
  · exact ⟨_, if_neg hret⟩

theorem callbackBuffer_data {k k' : Kernel} {fd : Fd} {count : Nat} {bytes : List Byte}
    (readBuf : Buffer readBufMax) (terminate : Nat → Buffer readBufMax → Buffer readBufMax)
    (hpos : 0 < count) (hread : k.read fd readBufMax (.data count) = some ((count : Int), bytes, k')) :
    callbackBuffer readBuf terminate k fd (.data count) =
      some (terminate count (readBuf.fill bytes)).print := by
  unfold callbackBuffer
  rw [hread]
  exact if_pos (by omega : (0 : Int) < count)

theorem socketReadCallback_buffer {ptr : Addr} {userEvent : SocketEvent ClientCallback} {s s' : ClientState}
    {answer : ReadAnswer} {granted : Bool}
    (h : socketReadCallback ptr userEvent s (.socket answer granted) = some s') :
    ∃ buf, socketReadBuffer s.kernel userEvent.fd answer = some buf := by
  obtain ⟨out, hread, -⟩ := Option.bind_eq_some_iff.mp h
  exact callbackBuffer_isSome _ _ hread

theorem cells_zeroed_fill {bytes : List Byte} (h : bytes.length ≤ readBufMax) :
    ((Buffer.zeroed : Buffer readBufMax).fill bytes).cells = filledBuf bytes := by
  rw [Buffer.cells_fill h, filledBuf]
  exact congrArg (bytes ++ ·) List.drop_replicate

/-- The client sends what stands before the zero that it has stored. -/
theorem stdinReadCallback_buffer {ptr : Addr} {userEvent : SocketEvent ClientCallback} {s s' : ClientState}
    {count : Nat} {write : WriteAnswer} {granted : Bool}
    (h : stdinReadCallback ptr userEvent s (.stdin (.data count) write granted) = some s') :
    ∃ buf, stdinReadBuffer s.kernel userEvent.fd (.data count) = some buf ∧
      s'.writes.map WriteCall.data = s.writes.map WriteCall.data ++ [buf.cells.take (count - 1)] := by
  obtain ⟨⟨ret, bytes, k⟩, hread, h⟩ := Option.bind_eq_some_iff.mp h
  obtain ⟨id, rest, -, hpos, hsize, hlen, rfl, -, -⟩ := Kernel.read_data hread
  refine ⟨_, callbackBuffer_data .zeroed (fun ret readBuf => readBuf.store (ret - 1) 0) hpos hread, ?_⟩
  simp only [show (0 : Int) < count by omega, if_true] at h
  obtain ⟨⟨wret, k'⟩, -, h⟩ := Option.bind_eq_some_iff.mp h
  rw [← Option.some.inj h]
  have hcells : ((Buffer.zeroed.fill bytes).store (count - 1) 0 : Buffer readBufMax).print.cells =
      (filledBuf bytes).set (count - 1) 0 := by
    rw [Buffer.print_cells, Buffer.store_cells, cells_zeroed_fill (by omega)]
  rw [hcells, List.map_append]
  rfl

/-- The server writes what `read` has stored. -/
theorem clientReadCallback_buffer {ptr : Addr} {userEvent : SocketEvent ServerCallback} {m m' : ServerState}
    {count : Nat} {write : WriteAnswer} {granted : Bool}
    (h : clientReadCallback ptr userEvent m (.reading (.data count) write granted) = some m') :
    ∃ (buf : Buffer readBufMax) (k k' : Kernel) (ret : Int),
      clientReadBuffer m.kernel userEvent.fd (.data count) = some buf ∧
      k.write userEvent.fd (buf.cells.take count) write = some (ret, k') ∧ m' = { m with kernel := k' } := by
  obtain ⟨⟨ret, bytes, k⟩, hread, h⟩ := Option.bind_eq_some_iff.mp h
  obtain ⟨id, rest, -, hpos, hsize, hlen, rfl, -, -⟩ := Kernel.read_data hread
  simp only [show (0 : Int) < count by omega, if_true] at h
  obtain ⟨⟨wret, k'⟩, hwrite, h⟩ := Option.bind_eq_some_iff.mp h
  refine ⟨_, k, k', wret, callbackBuffer_data (Buffer.clear .zeroed) (fun _ readBuf => readBuf) hpos hread,
    ?_, (Option.some.inj h).symm⟩
  have hcells : (Buffer.fill (Buffer.clear .zeroed : Buffer readBufMax) bytes).print.cells =
      filledBuf bytes := by
    rw [Buffer.print_cells, Buffer.cells_fill (by omega), Buffer.cells_clear, List.drop_replicate, filledBuf]
  rw [hcells]
  exact hwrite

/-! ## Bounds -/

/-- Which reads and datagrams keep every store into the array, and every byte that printing it looks
at, inside of it. -/
theorem receive_in_bounds (k : Kernel) (fd : Fd) (answer : ReadAnswer) (buff : Buffer buffSize)
    (datagrams : Nat → Option (List Byte)) :
    (∀ buf ∈ socketReadBuffer k fd answer, buf.InBounds ↔ answer ≠ .data readBufMax) ∧
    (∀ buf ∈ stdinReadBuffer k fd answer, buf.InBounds) ∧
    (∀ buf ∈ clientReadBuffer k fd answer, buf.InBounds ↔ (answer = .data readBufMax →
      ∃ id, k.stream? fd = some id ∧ 0 ∈ (k.streams id).inbound.take readBufMax)) ∧
    ((mulServerMain buff datagrams).InBounds ↔ buff.InBounds ∧ ∀ times < 5, ∀ bytes,
      datagrams times = some bytes → bytes.length < buffSize ∨ 0 ∈ bytes.take buffSize) :=
  ⟨fun _ => socketReadBuffer_inBounds, fun _ => stdinReadBuffer_inBounds,
    fun _ => clientReadBuffer_inBounds, mulServerMain_inBounds buff datagrams⟩

/-- 1024 bytes of a server, read at once. -/
def fullRead : List Byte := List.replicate readBufMax 65

theorem fullRead_isPiece : IsPiece fullRead := by
  unfold fullRead IsPiece
  rw [List.length_replicate]
  exact ⟨by decide, Nat.le_refl _⟩

/-- A server sends 1024 bytes at once: the client stores its terminating zero behind the array. -/
theorem receive_in_bounds_fails :
    ∃ s, Run clientStep AnyStep (clientMain clientLaunchExample) [.establish, .arrive socketStream fullRead] s ∧
      ∃ buf, socketReadBuffer s.kernel 3 (.data readBufMax) = some buf ∧ readBufMax ∈ buf.accesses ∧
        ¬ buf.InBounds := by
  obtain ⟨s, hs⟩ : ∃ s, replay clientStep (clientMain clientLaunchExample)
      [.establish, .arrive socketStream fullRead] = some s := ⟨_, rfl⟩
  have hfile : s.kernel.files 3 = some (.stream socketStream) := by
    cases hs
    rfl
  have hinbound : (s.kernel.streams socketStream).inbound = fullRead ++ [] := by
    cases hs
    rw [List.append_nil]
    rfl
  have hlen : fullRead.length = readBufMax := List.length_replicate
  have hread := read_piece fullRead_isPiece hfile hinbound
  rw [hlen] at hread
  have hbuf := callbackBuffer_data .zeroed (fun ret readBuf => readBuf.store ret 0) (by decide) hread
  have hmem : readBufMax ∈ ((Buffer.zeroed.fill fullRead).store readBufMax 0 : Buffer readBufMax).print.accesses := by
    simp [Buffer.print, Buffer.store]
  refine ⟨s, Run.of_replay hs, _, hbuf, hmem, ?_⟩
  intro hbounds
  exact absurd (hbounds readBufMax hmem) (Nat.lt_irrefl _)

end RedisLuaLinux.LinuxC
