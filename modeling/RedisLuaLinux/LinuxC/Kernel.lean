import Mathlib.Data.List.AList
import Mathlib.Logic.Function.Basic

/-!
# The kernel under the echo programs

What `server.c` and `client.c` use of Linux: the descriptor table, byte streams (a TCP
connection or a terminal), one epoll instance and the system calls on them. Every call
takes the answer the environment chooses as an argument and returns `none` when the
kernel cannot answer so in that state; the bytes themselves are computed.

`Stream.sent`, `Stream.received` and `Stream.written` are histories: no system call reads
them.
-/

namespace RedisLuaLinux.LinuxC

abbrev Fd := Nat
abbrev Addr := Nat
abbrev StreamId := Nat
abbrev Byte := UInt8

/-- The `events` word of `struct epoll_event`. -/
abbrev Mask := BitVec 32

def epollIn : Mask := 0x001#32
def epollOut : Mask := 0x004#32
def epollErr : Mask := 0x008#32
def epollHup : Mask := 0x010#32

/-- What a descriptor refers to. -/
inductive File
  | listener
  | epoll
  | stream (id : StreamId)
  | other
  deriving DecidableEq, Repr

/-- A byte stream: what the other end has sent, the part of it that is not read yet, what
reads have returned, what writes have taken, and whether a write has reported an error. -/
structure Stream where
  sent : List Byte := []
  inbound : List Byte := []
  received : List Byte := []
  written : List Byte := []
  writeFailed : Bool := false
  established : Bool := true
  deriving DecidableEq, Repr

/-- One entry of the interest list, under its descriptor. -/
structure Interest where
  events : Mask
  ptr : Addr
  deriving DecidableEq, Repr

/-- One `struct epoll_event` that `epoll_wait` returns. The programs see `events` and
`data.ptr`; `fd` says which registration the record stems from. -/
structure EpollRecord where
  fd : Fd
  events : Mask
  ptr : Addr
  deriving DecidableEq, Repr

structure Kernel where
  -- descriptors not in the table are closed
  files : Fd → Option File
  epollFd : Fd
  interest : AList (fun _ : Fd => Interest)
  streams : StreamId → Stream
  nextStream : StreamId

inductive CtlOp
  | add
  | mod
  | del
  deriving DecidableEq, Repr

inductive ReadAnswer
  | data (count : Nat)
  | eof
  | error
  deriving DecidableEq, Repr

/-- A write takes all its bytes, or fails after `taken` of them. -/
inductive WriteAnswer
  | full
  | fails (taken : Nat)
  deriving DecidableEq, Repr

namespace Kernel

/-- The stream behind an open descriptor. -/
def stream? (k : Kernel) (fd : Fd) : Option StreamId :=
  match k.files fd with
  | some (.stream id) => some id
  | _ => none

def mapStream (k : Kernel) (id : StreamId) (f : Stream → Stream) : Kernel :=
  { k with streams := Function.update k.streams id (f (k.streams id)) }

def arrive (k : Kernel) (id : StreamId) (bytes : List Byte) : Option Kernel :=
  if (k.streams id).established then
    some (k.mapStream id fun st =>
      { st with sent := st.sent ++ bytes, inbound := st.inbound ++ bytes })
  else none

/-- `fd` becomes the descriptor of the next connection. Bytes that arrived while it waited
in the backlog are kept. -/
def openStream (k : Kernel) (fd : Fd) : Kernel :=
  { k with
    files := Function.update k.files fd (some (.stream k.nextStream))
    nextStream := k.nextStream + 1 }

/-- `accept`: a free descriptor for the next connection, or `-1`. -/
def accept (k : Kernel) (fd : Fd) : Option Fd → Option (Int × Kernel)
  | none => some (-1, k)
  | some acceptFd =>
    if k.files fd = some .listener ∧ k.files acceptFd = none then
      some (acceptFd, k.openStream acceptFd)
    else none

/-- `read`: the returned count and the bytes stored at the start of the buffer. -/
def read (k : Kernel) (fd : Fd) (size : Nat) : ReadAnswer → Option (Int × List Byte × Kernel)
  | .error => some (-1, [], k)
  | .eof => do
    let id ← k.stream? fd
    if (k.streams id).inbound = [] then some (0, [], k) else none
  | .data count => do
    let id ← k.stream? fd
    let arrived := (k.streams id).inbound
    if 0 < count ∧ count ≤ size ∧ count ≤ arrived.length then
      some (count, arrived.take count, k.mapStream id fun st =>
        { st with inbound := arrived.drop count, received := st.received ++ arrived.take count })
    else none

/-- `write`: the returned count. -/
def write (k : Kernel) (fd : Fd) (buf : List Byte) : WriteAnswer → Option (Int × Kernel)
  | .full => do
    let id ← k.stream? fd
    if (k.streams id).established then
      some (buf.length, k.mapStream id fun st => { st with written := st.written ++ buf })
    else none
  | .fails taken =>
    match k.stream? fd with
    | none => some (-1, k)
    | some id =>
      if taken = 0 ∨ (taken < buf.length ∧ (k.streams id).established) then
        some (if taken = 0 then -1 else taken, k.mapStream id fun st =>
          { st with written := st.written ++ buf.take taken, writeFailed := true })
      else none

/-- `close`, which also takes the descriptor out of the epoll instance. -/
def close (k : Kernel) (fd : Fd) : Kernel :=
  { k with files := Function.update k.files fd none, interest := k.interest.erase fd }

/-- `epoll_ctl`. `granted` is false when the kernel refuses for a reason of its own
(memory, the limit on watches). -/
def epollCtl (k : Kernel) (granted : Bool) (epollFd : Fd) (operation : CtlOp) (fd : Fd)
    (entry : Interest) : Int × Kernel :=
  if granted = false ∨ epollFd ≠ k.epollFd ∨ (k.files fd).isNone then (-1, k)
  else match operation, k.interest.lookup fd with
    | .add, none => (0, { k with interest := k.interest.insert fd entry })
    | .mod, some _ => (0, { k with interest := k.interest.insert fd entry })
    | .del, some _ => (0, { k with interest := k.interest.erase fd })
    | _, _ => (-1, k)

/-- `epoll_wait` may report `r`: the descriptor is registered with that pointer, and the
bits are registered ones or `EPOLLERR`, `EPOLLHUP`. -/
def Reports (k : Kernel) (r : EpollRecord) : Prop :=
  ∃ entry ∈ k.interest.lookup r.fd,
    r.ptr = entry.ptr ∧ r.events &&& ~~~(entry.events ||| epollErr ||| epollHup) = 0#32

instance (k : Kernel) (r : EpollRecord) : Decidable (k.Reports r) :=
  inferInstanceAs (Decidable (∃ entry ∈ k.interest.lookup r.fd, _))

/-- What `epoll_wait` may return into an array of `maxEvents` records. -/
structure Batch (k : Kernel) (maxEvents : Nat) (rs : List EpollRecord) : Prop where
  size : rs.length ≤ maxEvents
  distinct : (rs.map EpollRecord.fd).Nodup
  reported : ∀ r ∈ rs, k.Reports r

instance (k : Kernel) (maxEvents : Nat) (rs : List EpollRecord) :
    Decidable (k.Batch maxEvents rs) :=
  decidable_of_iff (rs.length ≤ maxEvents ∧ (rs.map EpollRecord.fd).Nodup ∧ ∀ r ∈ rs, k.Reports r)
    ⟨fun ⟨h1, h2, h3⟩ => ⟨h1, h2, h3⟩, fun ⟨h1, h2, h3⟩ => ⟨h1, h2, h3⟩⟩

/-! ## Inversion of the system calls -/

variable {k k' : Kernel} {fd : Fd}

theorem stream?_eq_some {id : StreamId} : k.stream? fd = some id ↔ k.files fd = some (.stream id) := by
  unfold stream?
  split
  · rename_i id' h
    simp [h]
  · rename_i h
    simp only [reduceCtorEq, false_iff]
    exact h id

theorem arrive_cases {id : StreamId} {bytes : List Byte} (h : k.arrive id bytes = some k') :
    ∃ f, k' = k.mapStream id f := by
  unfold arrive at h
  split at h
  · exact ⟨_, (Option.some.inj h).symm⟩
  · cases h

theorem accept_cases {acceptFd : Option Fd} {ret : Int}
    (h : k.accept fd acceptFd = some (ret, k')) :
    (acceptFd = none ∧ ret = -1 ∧ k' = k) ∨
    ∃ newFd, acceptFd = some newFd ∧ ret = newFd ∧ k.files fd = some .listener ∧
      k.files newFd = none ∧ k' = k.openStream newFd := by
  cases acceptFd with
  | none =>
    simp only [accept, Option.some.injEq, Prod.mk.injEq] at h
    exact Or.inl ⟨rfl, h.1.symm, h.2.symm⟩
  | some newFd =>
    simp only [accept] at h
    split at h
    · rename_i hfree
      simp only [Option.some.injEq, Prod.mk.injEq] at h
      exact Or.inr ⟨newFd, rfl, h.1.symm, hfree.1, hfree.2, h.2.symm⟩
    · cases h

/-- A read fails or reports the end, or it takes a nonempty prefix of what has arrived. -/
theorem read_cases {size : Nat} {answer : ReadAnswer} {ret : Int} {bytes : List Byte}
    (h : k.read fd size answer = some (ret, bytes, k')) :
    (ret ≤ 0 ∧ k' = k) ∨
    ∃ id rest, k.files fd = some (.stream id) ∧ 0 < bytes.length ∧ bytes.length ≤ size ∧
      ret = bytes.length ∧ (k.streams id).inbound = bytes ++ rest ∧
      k' = k.mapStream id fun st =>
        { st with inbound := rest, received := st.received ++ bytes } := by
  cases answer with
  | error =>
    simp only [read, Option.some.injEq, Prod.mk.injEq] at h
    exact Or.inl ⟨by omega, h.2.2.symm⟩
  | eof =>
    obtain ⟨id, -, h⟩ := Option.bind_eq_some_iff.mp h
    split at h
    · simp only [Option.some.injEq, Prod.mk.injEq] at h
      exact Or.inl ⟨by omega, h.2.2.symm⟩
    · cases h
  | data count =>
    obtain ⟨id, hid, h⟩ := Option.bind_eq_some_iff.mp h
    dsimp only at h
    split at h
    · rename_i hcount
      simp only [Option.some.injEq, Prod.mk.injEq] at h
      obtain ⟨rfl, rfl, rfl⟩ := h
      have hlen : ((k.streams id).inbound.take count).length = count :=
        List.length_take_of_le hcount.2.2
      exact Or.inr ⟨id, (k.streams id).inbound.drop count, stream?_eq_some.mp hid, by omega, by omega,
        by rw [hlen], (List.take_append_drop _ _).symm, rfl⟩
    · cases h

/-- A read that is answered with data takes exactly the announced bytes. -/
theorem read_data {size count : Nat} {ret : Int} {bytes : List Byte}
    (h : k.read fd size (.data count) = some (ret, bytes, k')) :
    ∃ id rest, k.files fd = some (.stream id) ∧ 0 < count ∧ count ≤ size ∧ bytes.length = count ∧
      ret = count ∧ (k.streams id).inbound = bytes ++ rest ∧
      k' = k.mapStream id fun st =>
        { st with inbound := rest, received := st.received ++ bytes } := by
  obtain ⟨id, hid, h⟩ := Option.bind_eq_some_iff.mp h
  dsimp only at h
  split at h
  · rename_i hcount
    simp only [Option.some.injEq, Prod.mk.injEq] at h
    obtain ⟨rfl, rfl, rfl⟩ := h
    exact ⟨id, (k.streams id).inbound.drop count, stream?_eq_some.mp hid, hcount.1, hcount.2.1,
      List.length_take_of_le hcount.2.2, rfl, (List.take_append_drop _ _).symm, rfl⟩
  · cases h

/-- The other answers store nothing. -/
theorem read_none {size : Nat} {answer : ReadAnswer} {ret : Int} {bytes : List Byte}
    (ha : ∀ count, answer ≠ .data count) (h : k.read fd size answer = some (ret, bytes, k')) :
    ret ≤ 0 ∧ bytes = [] ∧ k' = k := by
  cases answer with
  | data count => exact absurd rfl (ha count)
  | error =>
    cases h
    exact ⟨by decide, rfl, rfl⟩
  | eof =>
    obtain ⟨id, -, h⟩ := Option.bind_eq_some_iff.mp h
    split at h
    · cases h
      exact ⟨Int.le_refl 0, rfl, rfl⟩
    · cases h

/-- A write goes to the stream of its descriptor; without a reported error it takes the
whole buffer. -/
theorem write_cases {buf : List Byte} {answer : WriteAnswer} {ret : Int}
    (h : k.write fd buf answer = some (ret, k')) :
    (k.stream? fd = none ∧ k' = k) ∨
    ∃ id taken failed, k.files fd = some (.stream id) ∧ (failed = false → taken = buf) ∧
      k' = k.mapStream id fun st =>
        { st with written := st.written ++ taken, writeFailed := st.writeFailed || failed } := by
  cases answer with
  | full =>
    obtain ⟨id, hid, h⟩ := Option.bind_eq_some_iff.mp h
    split at h
    · simp only [Option.some.injEq, Prod.mk.injEq] at h
      exact Or.inr ⟨id, buf, false, stream?_eq_some.mp hid, fun _ => rfl, by simp [← h.2]⟩
    · cases h
  | fails taken =>
    simp only [write] at h
    split at h
    · rename_i hnone
      simp only [Option.some.injEq, Prod.mk.injEq] at h
      exact Or.inl ⟨hnone, h.2.symm⟩
    · rename_i id hid
      split at h
      · simp only [Option.some.injEq, Prod.mk.injEq] at h
        exact Or.inr ⟨id, buf.take taken, true, stream?_eq_some.mp hid, by simp, by simp [← h.2]⟩
      · cases h

theorem openStream_isSome {newFd : Fd} (h : (k.files fd).isSome) :
    ((k.openStream newFd).files fd).isSome := by
  by_cases heq : fd = newFd
  · subst heq
    simp [openStream]
  · simpa [openStream, Function.update_of_ne heq] using h

/-- What a successful `epoll_ctl` call did, or that it changed nothing. -/
theorem epollCtl_cases (k : Kernel) (granted : Bool) (epollFd : Fd) (operation : CtlOp) (fd : Fd)
    (entry : Interest) :
    k.epollCtl granted epollFd operation fd entry = (-1, k) ∨
    (granted = true ∧ (k.files fd).isSome ∧
      ((operation = .add ∧ k.interest.lookup fd = none ∧
        k.epollCtl granted epollFd operation fd entry =
          (0, { k with interest := k.interest.insert fd entry })) ∨
       (operation = .mod ∧ (k.interest.lookup fd).isSome ∧
        k.epollCtl granted epollFd operation fd entry =
          (0, { k with interest := k.interest.insert fd entry })) ∨
       (operation = .del ∧ (k.interest.lookup fd).isSome ∧
        k.epollCtl granted epollFd operation fd entry =
          (0, { k with interest := k.interest.erase fd })))) := by
  unfold epollCtl
  split
  · exact Or.inl rfl
  · rename_i h
    simp only [not_or, Bool.not_eq_false, not_not, Option.isNone_iff_eq_none] at h
    have hopen : (k.files fd).isSome := Option.isSome_iff_ne_none.mpr h.2.2
    cases operation <;> cases hl : k.interest.lookup fd <;> simp [h.1, hopen]

theorem epollCtl_add_granted (k : Kernel) {fd : Fd} (entry : Interest)
    (hopen : (k.files fd).isSome) (hnone : k.interest.lookup fd = none) :
    k.epollCtl true k.epollFd .add fd entry =
      (0, { k with interest := k.interest.insert fd entry }) := by
  simp [epollCtl, hnone, Option.isSome_iff_ne_none.mp hopen]

theorem epollCtl_mod_granted (k : Kernel) {fd : Fd} (entry : Interest)
    (hopen : (k.files fd).isSome) (hsome : (k.interest.lookup fd).isSome) :
    k.epollCtl true k.epollFd .mod fd entry =
      (0, { k with interest := k.interest.insert fd entry }) := by
  obtain ⟨old, hold⟩ := Option.isSome_iff_exists.mp hsome
  simp [epollCtl, hold, Option.isSome_iff_ne_none.mp hopen]

end Kernel

end RedisLuaLinux.LinuxC
