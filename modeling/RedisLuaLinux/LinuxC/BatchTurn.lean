import RedisLuaLinux.LinuxC.SocketEvent
import RedisLuaLinux.Library.Run

/-!
# Turns of the dispatch loop

A `Turn` is what one step between two calls of `epoll_wait` does to the descriptors: to the one
whose record is dispatched, and to the others. Both programs make such turns.

* `Watched.turn`: what is known of a record while its batch is processed.
* `Watched.dropped_iff`: when the batch is empty, the descriptor of the record is dropped if and
  only if its dispatch closes it.
* `batch_dropped_iff`: the same over the whole run that processes a batch, for any program whose
  steps are turns.
-/

namespace RedisLuaLinux.LinuxC

open Library

variable {κ : Type}

/-- No bytes wait behind the descriptor. -/
def NoData (k : Kernel) (fd : Fd) : Prop :=
  ∀ id, k.files fd = some (.stream id) → (k.streams id).inbound = []

/-- No bytes wait behind the descriptor, and none arrive there. -/
def NoMoreData (k : Kernel) (fd : Fd) (Fed : StreamId → Prop) : Prop :=
  ∀ id, k.files fd = some (.stream id) → (k.streams id).inbound = [] ∧ ¬ Fed id

/-- The descriptor no longer leads to its file, and no registration with the object of the record
is left. Its number may have been given to a new connection. -/
def Dropped (old new : Kernel) (r : EpollRecord) : Prop :=
  new.files r.fd ≠ old.files r.fd ∧
    ∀ entry, new.interest.lookup r.fd = some entry → entry.ptr ≠ r.ptr

/-- What a step does to a descriptor whose record it does not dispatch: an open one stays as it is,
and a free one stays free or is given to a new connection with a new object. -/
structure Aside (m m' : Machine κ) (fd : Fd) : Prop where
  opened : m.kernel.files fd ≠ none →
    m'.kernel.files fd = m.kernel.files fd ∧
      m'.kernel.interest.lookup fd = m.kernel.interest.lookup fd
  closed : m.kernel.files fd = none → m.kernel.interest.lookup fd = none →
    (m'.kernel.files fd = none ∧ m'.kernel.interest.lookup fd = none) ∨
      (m'.kernel.files fd = some (.stream m.kernel.nextStream) ∧
        ∀ entry, m'.kernel.interest.lookup fd = some entry → m.heap entry.ptr = none)

/-- A step that takes a record from the batch, or none. `Closes` tells for which records and files a
dispatch without data closes the descriptor; `Fed` holds the streams at which bytes arrive. -/
structure Turn (Closes : EpollRecord → Option File → Prop) (Fed : StreamId → Prop)
    (taken : Option EpollRecord) (m m' : Machine κ) : Prop where
  batch : m.batch = taken.toList ++ m'.batch
  heap : ∀ ptr, m.heap ptr ≠ none → m'.heap ptr ≠ none
  next : m.kernel.nextStream ≤ m'.kernel.nextStream
  drained : ∀ id, ¬ Fed id → (m.kernel.streams id).inbound = [] → (m'.kernel.streams id).inbound = []
  aside : ∀ fd, (∀ r, taken = some r → r.fd ≠ fd) → Aside m m' fd
  closes : ∀ r, taken = some r → Closes r (m.kernel.files r.fd) → NoData m.kernel r.fd →
    m'.kernel.files r.fd = none ∧ m'.kernel.interest.lookup r.fd = none
  keeps : ∀ r, taken = some r → ¬ Closes r (m.kernel.files r.fd) →
    m'.kernel.files r.fd = m.kernel.files r.fd

/-- Before its record is dispatched, the descriptor leads to its file, with no data behind it. -/
structure Waiting (file : File) (r : EpollRecord) (m : Machine κ) : Prop where
  mem : r ∈ m.batch
  opened : m.kernel.files r.fd = some file
  noData : NoData m.kernel r.fd

/-- After its record was dispatched, the descriptor is dropped or leads to its file. -/
structure Processed (Closes : EpollRecord → Option File → Prop) (file : File) (r : EpollRecord)
    (m : Machine κ) : Prop where
  notMem : ∀ r' ∈ m.batch, r'.fd ≠ r.fd
  dropped : Closes r (some file) → m.kernel.files r.fd ≠ some file ∧
    ∀ entry, m.kernel.interest.lookup r.fd = some entry → entry.ptr ≠ r.ptr
  kept : ¬ Closes r (some file) → m.kernel.files r.fd = some file

structure Watched (Closes : EpollRecord → Option File → Prop) (file : File) (r : EpollRecord)
    (m : Machine κ) : Prop where
  distinct : (m.batch.map EpollRecord.fd).Nodup
  older : ∀ id, file = .stream id → id < m.kernel.nextStream
  object : m.heap r.ptr ≠ none
  state : Waiting file r m ∨ Processed Closes file r m

variable {Closes : EpollRecord → Option File → Prop} {Fed : StreamId → Prop} {file : File}
  {r : EpollRecord} {taken : Option EpollRecord} {m m' : Machine κ}

/-- The record that is taken has a descriptor of its own. -/
theorem Turn.taken_ne (t : Turn Closes Fed taken m m') (hdistinct : (m.batch.map EpollRecord.fd).Nodup)
    {r₀ : EpollRecord} (htaken : taken = some r₀) : ∀ r ∈ m'.batch, r₀.fd ≠ r.fd := by
  have hbatch := t.batch
  rw [htaken, Option.toList_some, List.singleton_append] at hbatch
  rw [hbatch] at hdistinct
  intro r hr
  exact (head_fd_ne hdistinct r hr).symm

theorem Turn.mem_cases (t : Turn Closes Fed taken m m') (hr : r ∈ m.batch) :
    taken = some r ∨ r ∈ m'.batch := by
  rw [t.batch] at hr
  rcases List.mem_append.mp hr with hr | hr
  · exact Or.inl (Option.mem_toList.mp hr)
  · exact Or.inr hr

theorem Waiting.turn (h : Waiting file r m) (t : Turn Closes Fed taken m m')
    (hdistinct : (m.batch.map EpollRecord.fd).Nodup) (hfed : ∀ id, file = .stream id → ¬ Fed id) :
    Waiting file r m' ∨ Processed Closes file r m' := by
  rcases t.mem_cases h.mem with htaken | hmem
  · right
    refine ⟨fun r' hr' => (t.taken_ne hdistinct htaken r' hr').symm, ?_, ?_⟩
    · intro hcloses
      obtain ⟨hclosed, hgone⟩ := t.closes r htaken (h.opened ▸ hcloses) h.noData
      rw [hclosed, hgone]
      exact ⟨nofun, nofun⟩
    · intro hkeeps
      rw [t.keeps r htaken (h.opened ▸ hkeeps)]
      exact h.opened
  · left
    have haside := t.aside r.fd fun r₀ htaken => t.taken_ne hdistinct htaken r hmem
    have hopen : m.kernel.files r.fd ≠ none := by
      rw [h.opened]
      nofun
    have hsame := (haside.opened hopen).1
    refine ⟨hmem, hsame.trans h.opened, ?_⟩
    intro id hid
    have hfile : file = .stream id := Option.some.inj (h.opened.symm.trans (hsame.symm.trans hid))
    exact t.drained id (hfed id hfile) (h.noData id (hsame ▸ hid))

/-- Once it was dispatched, the other turns leave the descriptor alone, or give its number to a
connection that is newer than its file. -/
theorem Processed.turn (h : Processed Closes file r m) (t : Turn Closes Fed taken m m')
    (holder : ∀ id, file = .stream id → id < m.kernel.nextStream) (hobject : m.heap r.ptr ≠ none)
    (hfree : m.kernel.files r.fd = none → m.kernel.interest.lookup r.fd = none) :
    Processed Closes file r m' := by
  have htaken : ∀ r₀, taken = some r₀ → r₀.fd ≠ r.fd := by
    intro r₀ htaken
    apply h.notMem
    rw [t.batch, htaken]
    exact List.mem_cons_self
  have haside := t.aside r.fd htaken
  refine ⟨?_, ?_, ?_⟩
  · intro r' hr'
    apply h.notMem
    rw [t.batch]
    exact List.mem_append_right _ hr'
  · intro hcloses
    obtain ⟨hfile, hentries⟩ := h.dropped hcloses
    by_cases hopen : m.kernel.files r.fd = none
    · rcases haside.closed hopen (hfree hopen) with ⟨hfile', hlookup'⟩ | ⟨hfile', hnew⟩
      · rw [hfile', hlookup']
        exact ⟨nofun, nofun⟩
      · refine ⟨?_, ?_⟩
        · intro hsame
          have hid : file = .stream m.kernel.nextStream := Option.some.inj (hsame.symm.trans hfile')
          exact Nat.lt_irrefl _ (holder _ hid)
        · intro entry hentry hptr
          exact hobject (hptr ▸ hnew entry hentry)
    · obtain ⟨hfile', hlookup'⟩ := haside.opened hopen
      rw [hfile', hlookup']
      exact ⟨hfile, hentries⟩
  · intro hkeeps
    have hfile := h.kept hkeeps
    have hopen : m.kernel.files r.fd ≠ none := by
      rw [hfile]
      nofun
    exact ((haside.opened hopen).1).trans hfile

theorem Watched.turn (h : Watched Closes file r m) (t : Turn Closes Fed taken m m')
    (hfed : ∀ id, file = .stream id → ¬ Fed id)
    (hfree : m.kernel.files r.fd = none → m.kernel.interest.lookup r.fd = none) :
    Watched Closes file r m' := by
  refine ⟨?_, ?_, t.heap r.ptr h.object, ?_⟩
  · have hdistinct := h.distinct
    rw [t.batch, List.map_append] at hdistinct
    exact (List.nodup_append.mp hdistinct).2.1
  · intro id hid
    exact Nat.lt_of_lt_of_le (h.older id hid) t.next
  · rcases h.state with hwaiting | hprocessed
    · exact hwaiting.turn t h.distinct hfed
    · exact Or.inr (hprocessed.turn t h.older h.object hfree)

/-- When the batch is processed. -/
theorem Watched.dropped_iff {old : Kernel} (h : Watched Closes file r m)
    (hold : old.files r.fd = some file) (hdone : m.batch = []) :
    Dropped old m.kernel r ↔ Closes r (some file) := by
  rcases h.state with hwaiting | hprocessed
  · have hmem := hwaiting.mem
    rw [hdone] at hmem
    cases hmem
  · rw [Dropped, hold]
    constructor
    · intro hdropped
      by_contra hkeeps
      exact hdropped.1 (hprocessed.kept hkeeps)
    · exact hprocessed.dropped

/-! ## Parts of a turn -/

theorem aside_same {fd : Fd} (hfiles : m'.kernel.files fd = m.kernel.files fd)
    (hlookup : m'.kernel.interest.lookup fd = m.kernel.interest.lookup fd) : Aside m m' fd := by
  refine ⟨fun _ => ⟨hfiles, hlookup⟩, ?_⟩
  intro hnone hfree
  exact Or.inl ⟨hfiles.trans hnone, hlookup.trans hfree⟩

theorem update_ne_none {heap : Addr → Option (SocketEvent κ)} {ptr ptr' : Addr} {userEvent : SocketEvent κ}
    (h : heap ptr' ≠ none) : Function.update heap ptr (some userEvent) ptr' ≠ none := by
  rw [Function.update_apply]
  split
  · nofun
  · exact h

/-- A step that leaves descriptors, registrations and objects alone. -/
theorem Turn.same (hbatch : m.batch = taken.toList ++ m'.batch) (hheap : m'.heap = m.heap)
    (hfiles : m'.kernel.files = m.kernel.files) (hinterest : m'.kernel.interest = m.kernel.interest)
    (hnext : m'.kernel.nextStream = m.kernel.nextStream)
    (hdrained : ∀ id, ¬ Fed id → (m.kernel.streams id).inbound = [] → (m'.kernel.streams id).inbound = [])
    (hopen : ∀ r, taken = some r → Closes r (m.kernel.files r.fd) → ¬ NoData m.kernel r.fd) :
    Turn Closes Fed taken m m' := by
  refine ⟨hbatch, ?_, Nat.le_of_eq hnext.symm, hdrained, ?_, ?_, ?_⟩
  · intro ptr hptr
    rw [hheap]
    exact hptr
  · intro fd _
    exact aside_same (congrFun hfiles fd) (by rw [hinterest])
  · intro r htaken hcloses hdata
    exact absurd hdata (hopen r htaken hcloses)
  · intro r _ _
    exact congrFun hfiles r.fd

/-- The record is taken and its descriptor unregistered and closed. -/
theorem Turn.close {rest : List EpollRecord} {granted : Bool} {ptr : Addr} {userEvent : SocketEvent κ}
    (hbatch : m.batch = r :: rest) (hfd : userEvent.fd = r.fd)
    (hcloses : Closes r (m.kernel.files r.fd)) :
    Turn Closes Fed (some r) m { m with
      batch := rest
      kernel := (socketEventOp granted m.kernel ptr userEvent .del).2.close userEvent.fd } := by
  obtain ⟨hfiles, -, hstreams, hnext, hgone, hothers⟩ := close_after_del granted m.kernel ptr userEvent
  refine ⟨hbatch, fun ptr hptr => hptr, Nat.le_of_eq hnext.symm, ?_, ?_, ?_, ?_⟩
  · intro id _ hempty
    show ((Kernel.close _ _).streams id).inbound = []
    rw [hstreams]
    exact hempty
  · intro fd hne
    have hne : fd ≠ userEvent.fd := by
      rw [hfd]
      exact (hne r rfl).symm
    apply aside_same
    · show (Kernel.close _ _).files fd = _
      rw [hfiles, Function.update_of_ne hne]
    · exact hothers fd hne
  · intro r' htaken _ _
    cases htaken
    rw [← hfd]
    refine ⟨?_, hgone⟩
    show (Kernel.close _ _).files userEvent.fd = none
    rw [hfiles, Function.update_self]
  · intro r' htaken hkeeps
    cases htaken
    exact absurd hcloses hkeeps

/-- The object of the record is rewritten and its registration renewed, granted or not. -/
theorem Turn.modify {rest : List EpollRecord} {granted : Bool} {ptr : Addr} {updated : SocketEvent κ}
    (hbatch : m.batch = r :: rest) (hfd : updated.fd = r.fd)
    (hkeeps : ¬ Closes r (m.kernel.files r.fd)) :
    Turn Closes Fed (some r) m { m with
      batch := rest
      heap := Function.update m.heap ptr (some updated)
      kernel := (socketEventOp granted m.kernel ptr updated .mod).2 } := by
  obtain ⟨hfiles, hnext⟩ := socketEventOp_files granted m.kernel ptr updated .mod
  have hstreams := socketEventOp_streams granted m.kernel ptr updated .mod
  refine ⟨hbatch, ?_, Nat.le_of_eq hnext.symm, ?_, ?_, ?_, ?_⟩
  · intro ptr' hptr'
    exact update_ne_none hptr'
  · intro id _ hempty
    show ((socketEventOp _ _ _ _ _).2.streams id).inbound = []
    rw [hstreams]
    exact hempty
  · intro fd hne
    have hne : fd ≠ updated.fd := by
      rw [hfd]
      exact (hne r rfl).symm
    exact aside_same (congrFun hfiles fd) (socketEventOp_lookup_of_ne hne)
  · intro r' htaken hcloses
    cases htaken
    exact absurd hcloses hkeeps
  · intro r' _ _
    exact congrFun hfiles r'.fd

/-- A new connection is registered with a new object. -/
theorem Turn.accept {rest : List EpollRecord} {granted : Bool} {ptr : Addr} {newEvent : SocketEvent κ}
    (hbatch : m.batch = r :: rest) (hopen : m.kernel.files r.fd ≠ none)
    (hfree : m.kernel.files newEvent.fd = none) (hfresh : m.heap ptr = none)
    (hkeeps : ¬ Closes r (m.kernel.files r.fd)) :
    Turn Closes Fed (some r) m { m with
      batch := rest
      heap := Function.update m.heap ptr (some newEvent)
      kernel := (socketEventOp granted (m.kernel.openStream newEvent.fd) ptr newEvent .add).2 } := by
  obtain ⟨hfiles, hnext⟩ :=
    socketEventOp_files granted (m.kernel.openStream newEvent.fd) ptr newEvent .add
  have hstreams := socketEventOp_streams granted (m.kernel.openStream newEvent.fd) ptr newEvent .add
  have hothers : ∀ fd, fd ≠ newEvent.fd →
      (socketEventOp granted (m.kernel.openStream newEvent.fd) ptr newEvent .add).2.files fd =
        m.kernel.files fd := by
    intro fd hne
    rw [hfiles]
    exact Function.update_of_ne hne _ _
  refine ⟨hbatch, ?_, ?_, ?_, ?_, ?_, ?_⟩
  · intro ptr' hptr'
    exact update_ne_none hptr'
  · show m.kernel.nextStream ≤ (socketEventOp _ _ _ _ _).2.nextStream
    rw [hnext]
    exact Nat.le_succ _
  · intro id _ hempty
    show ((socketEventOp _ _ _ _ _).2.streams id).inbound = []
    rw [hstreams]
    exact hempty
  · intro fd _
    by_cases hsame : fd = newEvent.fd
    · subst hsame
      refine ⟨fun hopen => absurd hfree hopen, fun _ hlookup => Or.inr ⟨?_, ?_⟩⟩
      · show (socketEventOp _ _ _ _ _).2.files newEvent.fd = _
        rw [hfiles]
        exact Function.update_self _ _ _
      · intro entry hentry
        rcases socketEventOp_add_lookup hentry with hold | ⟨-, rfl⟩
        · rw [show (m.kernel.openStream newEvent.fd).interest.lookup newEvent.fd = none from hlookup] at hold
          cases hold
        · exact hfresh
    · exact aside_same (hothers fd hsame) (socketEventOp_lookup_of_ne hsame)
  · intro r' htaken hcloses
    cases htaken
    exact absurd hcloses hkeeps
  · intro r' htaken _
    cases htaken
    apply hothers
    intro hsame
    exact hopen (hsame ▸ hfree)

/-- These streams hold no bytes where none waited before. -/
def Drains (k : Kernel) (streams : StreamId → Stream) : Prop :=
  ∀ id, (k.streams id).inbound = [] → (streams id).inbound = []

/-- A read reports the end or an error, or takes some of the data that waits. -/
theorem Kernel.read_outcome {k k' : Kernel} {fd : Fd} {size : Nat} {answer : ReadAnswer} {ret : Int}
    {bytes : List Byte} (h : k.read fd size answer = some (ret, bytes, k')) :
    (ret ≤ 0 ∧ k' = k) ∨ (0 < ret ∧ ¬ NoData k fd ∧
      ∃ streams, Drains k streams ∧ k' = { k with streams := streams }) := by
  rcases Kernel.read_cases h with hend | ⟨id, rest, hfile, hpos, -, rfl, hinbound, rfl⟩
  · exact Or.inl hend
  · right
    refine ⟨by omega, ?_, _, ?_, rfl⟩
    · intro hdata
      rw [hdata id hfile] at hinbound
      rw [(List.append_eq_nil_iff.mp hinbound.symm).1] at hpos
      exact Nat.lt_irrefl 0 hpos
    · intro id' hempty
      by_cases hsame : id' = id
      · subst hsame
        rw [hempty] at hinbound
        rw [Function.update_self]
        exact (List.append_eq_nil_iff.mp hinbound.symm).2
      · rw [Function.update_of_ne hsame]
        exact hempty

/-- A write leaves what waits to be read alone. -/
theorem Kernel.write_outcome {k k' : Kernel} {fd : Fd} {buf : List Byte} {answer : WriteAnswer} {ret : Int}
    (h : k.write fd buf answer = some (ret, k')) :
    ∃ streams, Drains k streams ∧ k' = { k with streams := streams } := by
  rcases Kernel.write_cases h with ⟨-, rfl⟩ | ⟨id, taken, failed, -, -, rfl⟩
  · exact ⟨_, fun _ hempty => hempty, rfl⟩
  · refine ⟨_, ?_, rfl⟩
    intro id' hempty
    by_cases hsame : id' = id
    · subst hsame
      rw [Function.update_self]
      exact hempty
    · rw [Function.update_of_ne hsame]
      exact hempty

theorem Kernel.arrive_drained {k k' : Kernel} {id : StreamId} {bytes : List Byte}
    (h : k.arrive id bytes = some k') (id' : StreamId) (hne : bytes ≠ [] → id' ≠ id)
    (hempty : (k.streams id').inbound = []) : (k'.streams id').inbound = [] := by
  unfold Kernel.arrive at h
  split at h
  · cases h
    by_cases heq : id' = id
    · subst heq
      have hbytes : bytes = [] := by
        by_contra hbytes
        exact hne hbytes rfl
      simp [Kernel.mapStream, hempty, hbytes]
    · simpa [Kernel.mapStream, Function.update_of_ne heq] using hempty
  · cases h

/-- The record is passed over. -/
theorem Turn.skip {rest : List EpollRecord} (hbatch : m.batch = r :: rest)
    (hkeeps : ¬ Closes r (m.kernel.files r.fd)) :
    Turn Closes Fed (some r) m { m with batch := rest } := by
  refine Turn.same hbatch rfl rfl rfl rfl (fun _ _ hempty => hempty) ?_
  intro r' htaken hcloses
  cases htaken
  exact absurd hcloses hkeeps

/-- Data that waits behind the descriptor of the record is taken. -/
theorem Turn.drain {rest : List EpollRecord} {streams : StreamId → Stream} (hbatch : m.batch = r :: rest)
    (hdata : ¬ NoData m.kernel r.fd) (hdrains : Drains m.kernel streams) :
    Turn Closes Fed (some r) m
      { m with batch := rest, kernel := { m.kernel with streams := streams } } := by
  refine Turn.same hbatch rfl rfl rfl rfl (fun id _ hempty => hdrains id hempty) ?_
  intro r' htaken _
  cases htaken
  exact hdata

/-- Bytes arrive at a stream. -/
theorem Turn.arrive {k : Kernel} {id : StreamId} {bytes : List Byte} (hk : m.kernel.arrive id bytes = some k)
    (hfed : bytes ≠ [] → Fed id) : Turn Closes Fed none m { m with kernel := k } := by
  have hdrained : ∀ id', ¬ Fed id' → (m.kernel.streams id').inbound = [] → (k.streams id').inbound = [] := by
    intro id' hid' hempty
    apply Kernel.arrive_drained hk id' _ hempty
    rintro hbytes rfl
    exact hid' (hfed hbytes)
  obtain ⟨f, rfl⟩ := Kernel.arrive_cases hk
  exact Turn.same rfl rfl rfl rfl rfl hdrained nofun

/-! ## Records and objects -/

/-- Registrations and records belong to objects for their descriptors, whatever their masks. -/
structure Paired (m : Machine κ) : Prop where
  owner : ∀ fd entry, m.kernel.interest.lookup fd = some entry →
    ∃ userEvent, m.heap entry.ptr = some userEvent ∧ userEvent.fd = fd
  opened : ∀ fd entry, m.kernel.interest.lookup fd = some entry → m.kernel.files fd ≠ none
  batch : ∀ r ∈ m.batch, ∃ entry, m.kernel.interest.lookup r.fd = some entry ∧ entry.ptr = r.ptr
  distinct : (m.batch.map EpollRecord.fd).Nodup

namespace Paired

theorem free (h : Paired m) {fd : Fd} (hfile : m.kernel.files fd = none) :
    m.kernel.interest.lookup fd = none := by
  by_contra hsome
  obtain ⟨entry, hentry⟩ := Option.ne_none_iff_exists'.mp hsome
  exact h.opened fd entry hentry hfile

theorem object (h : Paired m) (hr : r ∈ m.batch) :
    ∃ userEvent, m.heap r.ptr = some userEvent ∧ userEvent.fd = r.fd := by
  obtain ⟨entry, hentry, hptr⟩ := h.batch r hr
  obtain ⟨userEvent, hheap, hfd⟩ := h.owner r.fd entry hentry
  exact ⟨userEvent, hptr ▸ hheap, hfd⟩

/-- The state in which `epoll_wait` has returned the record. -/
theorem watched (h : Paired m) (hr : r ∈ m.batch) (hfile : m.kernel.files r.fd = some file)
    (hdata : NoData m.kernel r.fd) (holder : ∀ id, file = .stream id → id < m.kernel.nextStream) :
    Watched Closes file r m := by
  obtain ⟨userEvent, hheap, -⟩ := h.object hr
  refine ⟨h.distinct, holder, ?_, Or.inl ⟨hr, hfile, hdata⟩⟩
  rw [hheap]
  nofun

/-- The records that `epoll_wait` returns. -/
theorem wait (h : Paired m) {maxEvents : Nat} {rs : List EpollRecord}
    (hrs : m.kernel.Batch maxEvents rs) : Paired { m with batch := rs } := by
  refine ⟨h.owner, h.opened, ?_, hrs.distinct⟩
  intro r hr
  obtain ⟨entry, hentry, hptr, -⟩ := hrs.reported r hr
  exact ⟨entry, hentry, hptr.symm⟩

theorem tail (h : Paired m) {rest : List EpollRecord} (hbatch : m.batch = r :: rest) :
    Paired { m with batch := rest } := by
  obtain ⟨howner, hopened, hrecords, hdistinct⟩ := h
  rw [hbatch] at hrecords hdistinct
  refine ⟨howner, hopened, ?_, (List.nodup_cons.mp hdistinct).2⟩
  intro r' hr'
  exact hrecords r' (List.mem_cons_of_mem r hr')

theorem head_ne (h : Paired m) {rest : List EpollRecord} (hbatch : m.batch = r :: rest) :
    ∀ r' ∈ rest, r'.fd ≠ r.fd := by
  have hdistinct := h.distinct
  rw [hbatch] at hdistinct
  exact head_fd_ne hdistinct

/-- Steps that touch streams only. -/
theorem frame (h : Paired m) {k : Kernel} (hinterest : k.interest = m.kernel.interest)
    (hfiles : k.files = m.kernel.files) : Paired { m with kernel := k } := by
  refine ⟨?_, ?_, ?_, h.distinct⟩
  · intro fd entry hentry
    exact h.owner fd entry (hinterest ▸ hentry)
  · intro fd entry hentry
    show k.files fd ≠ none
    rw [hfiles]
    exact h.opened fd entry (hinterest ▸ hentry)
  · intro r hr
    show ∃ entry, k.interest.lookup r.fd = some entry ∧ entry.ptr = r.ptr
    rw [hinterest]
    exact h.batch r hr

/-- A descriptor without a record is closed. -/
theorem remove (h : Paired m) (granted : Bool) (ptr : Addr) (userEvent : SocketEvent κ)
    (hbatch : ∀ r ∈ m.batch, r.fd ≠ userEvent.fd) :
    Paired { m with
      kernel := (socketEventOp granted m.kernel ptr userEvent .del).2.close userEvent.fd } := by
  obtain ⟨hfiles, -, -, -, hgone, hothers⟩ := close_after_del granted m.kernel ptr userEvent
  refine ⟨?_, ?_, ?_, h.distinct⟩
  · intro fd entry hentry
    exact h.owner fd entry (close_after_del_lookup hentry)
  · intro fd entry hentry
    show ((Kernel.close _ _).files fd) ≠ none
    rw [hfiles]
    have hne : fd ≠ userEvent.fd := by
      rintro rfl
      rw [hgone] at hentry
      cases hentry
    rw [Function.update_of_ne hne]
    exact h.opened fd entry (close_after_del_lookup hentry)
  · intro r hr
    obtain ⟨entry, hentry, hptr⟩ := h.batch r hr
    exact ⟨entry, (hothers r.fd (hbatch r hr)).trans hentry, hptr⟩

/-- An object without a record is rewritten and its registration renewed, granted or not. -/
theorem modify (h : Paired m) {ptr : Addr} {userEvent updated : SocketEvent κ} (granted : Bool)
    (hobject : m.heap ptr = some userEvent) (hfd : updated.fd = userEvent.fd)
    (hbatch : ∀ r ∈ m.batch, r.fd ≠ userEvent.fd) :
    Paired { m with
      heap := Function.update m.heap ptr (some updated)
      kernel := (socketEventOp granted m.kernel ptr updated .mod).2 } := by
  have hentries : ∀ fd entry,
      (socketEventOp granted m.kernel ptr updated .mod).2.interest.lookup fd = some entry →
      ∃ old, m.kernel.interest.lookup fd = some old ∧
        (entry.ptr = old.ptr ∨ fd = userEvent.fd ∧ entry.ptr = ptr) := by
    intro fd entry hentry
    by_cases hsame : fd = userEvent.fd
    · subst hsame
      rw [← hfd] at hentry ⊢
      obtain ⟨old, hold, hptr⟩ := socketEventOp_mod_lookup hentry
      exact ⟨old, hold, hptr.imp_right fun hptr => ⟨rfl, hptr⟩⟩
    · rw [socketEventOp_lookup_of_ne (hfd ▸ hsame)] at hentry
      exact ⟨entry, hentry, Or.inl rfl⟩
  refine ⟨?_, ?_, ?_, h.distinct⟩
  · intro fd entry hentry
    show ∃ object, Function.update m.heap ptr (some updated) entry.ptr = some object ∧ object.fd = fd
    obtain ⟨old, hold, hptr⟩ := hentries fd entry hentry
    obtain ⟨owner, hheap, howner⟩ := h.owner fd old hold
    by_cases hrewritten : entry.ptr = ptr
    · rw [hrewritten, Function.update_self]
      refine ⟨updated, rfl, ?_⟩
      rcases hptr with hptr | ⟨rfl, -⟩
      · rw [← hptr, hrewritten, hobject] at hheap
        obtain rfl := Option.some.inj hheap
        exact hfd.trans howner
      · exact hfd
    · rw [Function.update_of_ne hrewritten]
      rcases hptr with hptr | ⟨-, hptr⟩
      · exact ⟨owner, hptr ▸ hheap, howner⟩
      · exact absurd hptr hrewritten
  · intro fd entry hentry
    obtain ⟨old, hold, -⟩ := hentries fd entry hentry
    show (socketEventOp granted m.kernel ptr updated .mod).2.files fd ≠ none
    rw [(socketEventOp_files granted m.kernel ptr updated .mod).1]
    exact h.opened fd old hold
  · intro r hr
    have hne : r.fd ≠ updated.fd := hfd ▸ hbatch r hr
    obtain ⟨entry, hentry, hptr⟩ := h.batch r hr
    exact ⟨entry, (socketEventOp_lookup_of_ne hne).trans hentry, hptr⟩

end Paired

theorem Registered.paired (h : Registered m) : Paired m := by
  refine ⟨?_, ?_, ?_, h.batch.distinct⟩
  · intro fd entry hentry
    obtain ⟨userEvent, howner⟩ := h.owner fd entry hentry
    exact ⟨userEvent, howner.object, howner.descriptor⟩
  · intro fd entry hentry
    obtain ⟨userEvent, howner⟩ := h.owner fd entry hentry
    exact Option.isSome_iff_ne_none.mp howner.opened
  · intro r hr
    obtain ⟨entry, hentry, hptr, -⟩ := h.batch.reported r hr
    exact ⟨entry, hentry, hptr.symm⟩

/-! ## Whole batches -/

section Batch

variable {σ ε : Type} {step : σ → ε → Option σ} {Busy : σ → ε → Prop} {machine : σ → Machine κ}
  {Sound : σ → Prop} {Feeds : ε → StreamId → Prop} {s₁ s₂ : σ} {es : List ε}
  (hsound : ∀ s e s', Sound s → step s e = some s' → Sound s')
  (hpaired : ∀ s, Sound s → Paired (machine s))
  (hturn : ∀ s e s', Sound s → Busy s e → step s e = some s' →
    ∃ taken, Turn Closes (Feeds e) taken (machine s) (machine s'))

include hsound hpaired hturn

theorem Watched.run (h : Run step Busy s₁ es s₂) (hs : Sound s₁) (hw : Watched Closes file r (machine s₁))
    (hfed : ∀ id, file = .stream id → ¬ ∃ e ∈ es, Feeds e id) :
    Sound s₂ ∧ Watched Closes file r (machine s₂) := by
  induction h with
  | nil => exact ⟨hs, hw⟩
  | snoc _ hbusy hstep ih =>
    rename_i es s s' e _
    obtain ⟨hs, hw⟩ := ih fun id hid ⟨e', he', hfeeds⟩ =>
      hfed id hid ⟨e', List.mem_append_left [e] he', hfeeds⟩
    obtain ⟨taken, ht⟩ := hturn s e s' hs hbusy hstep
    refine ⟨hsound s e s' hs hstep, hw.turn ht ?_ (hpaired s hs).free⟩
    intro id hid hfeeds
    exact hfed id hid ⟨e, List.mem_concat_self, hfeeds⟩

/-- A descriptor that is reported without data is dropped by the time its batch is processed, if and
only if the dispatch of its record closes it. -/
theorem batch_dropped_iff (h : Run step Busy s₁ es s₂) (hs : Sound s₁) (hr : r ∈ (machine s₁).batch)
    (hdone : (machine s₂).batch = [])
    (holder : ∀ id, (machine s₁).kernel.files r.fd = some (.stream id) → id < (machine s₁).kernel.nextStream)
    (hdata : NoMoreData (machine s₁).kernel r.fd fun id => ∃ e ∈ es, Feeds e id) :
    Dropped (machine s₁).kernel (machine s₂).kernel r ↔ Closes r ((machine s₁).kernel.files r.fd) := by
  obtain ⟨entry, hentry, -⟩ := (hpaired s₁ hs).batch r hr
  obtain ⟨file, hfile⟩ := Option.ne_none_iff_exists'.mp ((hpaired s₁ hs).opened r.fd entry hentry)
  have hstart : Watched Closes file r (machine s₁) := by
    apply (hpaired s₁ hs).watched hr hfile
    · intro id hid
      exact (hdata id hid).1
    · rintro id rfl
      exact holder id hfile
  obtain ⟨-, hend⟩ := Watched.run hsound hpaired hturn h hs hstart fun id hid =>
    (hdata id (hid ▸ hfile)).2
  rw [hfile]
  exact hend.dropped_iff hfile hdone

end Batch

end RedisLuaLinux.LinuxC
