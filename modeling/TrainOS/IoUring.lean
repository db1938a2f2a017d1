import TrainOS.ByteMemory
import TrainOS.RingBuffer
import TrainOS.Runs

/-!
# The submission and completion rings (`iouring/mod.rs`)

Submission entries are obtained and filled, and `submit` executes each of them once, in order, as
long as `execute_sqe` returns.  `peek_cqe` reads the completions from index 0 on without a bound,
and of the eight bytes of `user_data` it writes three (`completion_law`).
-/

namespace TrainOS.Uring

open ByteMemory List Option RingBuffer Runs

def RING_ENTRIES : Nat := 32

structure IoUringSqe where
  opcode : BitVec 8
  flags : BitVec 8
  fd : BitVec 32
  addr : BitVec 64
  len : BitVec 32
  off : BitVec 64
  userData : BitVec 64
deriving DecidableEq, Repr

structure IoUringCqe where
  userData : BitVec 64
  res : BitVec 32
  flags : BitVec 32
deriving DecidableEq, Repr

/-- The arrays are the parts of `sqes` and `cqes` below `RING_ENTRIES`; the counters are natural
    numbers, as `2 ^ 64` entries are not reached. -/
structure IoUring where
  pid : Nat
  sqEntries : Nat
  cqEntries : Nat
  sqHead : Nat
  sqTail : Nat
  cqHead : Nat
  sqes : Nat → IoUringSqe
  cqes : Nat → IoUringCqe

/-- The ring that a successful `setup` leaves in the table.  Its slot of the table was not used
    before. -/
def setup (pid entries : Nat) : IoUring where
  pid
  sqEntries := min entries RING_ENTRIES
  cqEntries := min entries RING_ENTRIES
  sqHead := 0
  sqTail := 0
  cqHead := 0
  sqes := fun _ => ⟨0, 0, 0, 0, 0, 0, 0⟩
  cqes := fun _ => ⟨0, 0, 0⟩

/-- The index `pos % entries` of an array of `RING_ENTRIES`; `none` is the panic of a division by
    zero or of an index out of bounds. -/
def ringIndex (pos entries : Nat) : Option Nat :=
  if entries = 0 then none
  else if pos % entries < RING_ENTRIES then some (pos % entries) else none

/-- `none` inside is the null pointer, else the index of the entry that may be written. -/
def IoUring.getSqe (r : IoUring) : Option (Option Nat × IoUring) :=
  if r.sqTail - r.sqHead ≥ r.sqEntries then some (none, r)
  else do
    let idx ← ringIndex r.sqTail r.sqEntries
    some (some idx, { r with sqTail := r.sqTail + 1 })

section Submit

variable {ω : Type} (execute : ω → IoUringSqe → Nat → Option (BitVec 32 × ω))

/-- One pass of the loop of `submit`: the entry that is executed, with its result.  `execute` is
    `execute_sqe` with what it changes in the rest of the system; `none` if it panics, as `splice`
    may, or waits for a reply for ever. -/
def submitOne (r : IoUring) (w : ω) : Option ((IoUringSqe × BitVec 32) × IoUring × ω) := do
  let idx ← ringIndex r.sqHead r.sqEntries
  let sqe := r.sqes idx
  let (result, w') ← execute w sqe r.pid
  let cqIdx ← ringIndex r.cqHead r.cqEntries
  some ((sqe, result),
    { r with
      cqes := Function.update r.cqes cqIdx ⟨sqe.userData, result, 0⟩
      cqHead := r.cqHead + 1
      sqHead := r.sqHead + 1 }, w')

/-- The loop, with the number of passes left.  `completed` is the length of the list of executed
    entries. -/
def submitLoop : Nat → IoUring → ω → Option (List (IoUringSqe × BitVec 32) × IoUring × ω)
  | 0, r, w => some ([], r, w)
  | n + 1, r, w => do
      let (first, r1, w1) ← submitOne execute r w
      let (rest, r2, w2) ← submitLoop n r1 w1
      some (first :: rest, r2, w2)

def submit (r : IoUring) (w : ω) : Option (List (IoUringSqe × BitVec 32) × IoUring × ω) :=
  submitLoop execute (r.sqTail - r.sqHead) r w

end Submit

/-- What `peek_cqe` stores for the entry at `off`: three bytes of `user_data` and the result. -/
def writeCqe (buf : Memory) (off : Nat) (cqe : IoUringCqe) : Memory :=
  writeLE (writeLE buf off 3 cqe.userData.toNat) (off + 8) 4 cqe.res.toNat

def peekLoop (r : IoUring) (available : Nat) (buf : Memory) : Option Memory :=
  (range available).foldlM (fun buf i =>
    if i < RING_ENTRIES then some (writeCqe buf (i * 16) (r.cqes i)) else none) buf

def IoUring.peekCqe (r : IoUring) (bufPtr count : Nat) (buf : Memory) : Option (Nat × Memory) :=
  if bufPtr = 0 then some (0, buf)
  else do
    let available := min r.cqHead count
    let buf ← peekLoop r available buf
    some (available, buf)

/-! ### Runs -/

/-- An entry that is obtained is filled before it is submitted; the call carries what it then
    holds. -/
inductive UringCall where
  | getSqe (sqe : IoUringSqe)
  | submit
  | peekCqe (bufPtr count : Nat) (buf : Memory)

/-- The ring, the rest of the system, the entries that were obtained and those that were executed,
    with their results. -/
structure UringLog (ω : Type) where
  ring : IoUring
  world : ω
  obtained : List IoUringSqe
  executed : List (IoUringSqe × BitVec 32)

def UringLog.new {ω : Type} (pid entries : Nat) (w : ω) : UringLog ω :=
  ⟨setup pid entries, w, [], []⟩

variable {ω : Type} {execute : ω → IoUringSqe → Nat → Option (BitVec 32 × ω)}

variable (execute) in
/-- `none` if the call panics or does not return. -/
def UringCall.exec (l : UringLog ω) : UringCall → Option (UringLog ω)
  | .getSqe sqe =>
      match l.ring.getSqe with
      | none => none
      | some (none, r) => some { l with ring := r }
      | some (some idx, r) =>
          some { l with
            ring := { r with sqes := Function.update r.sqes idx sqe }
            obtained := l.obtained ++ [sqe] }
  | .submit => do
      let (done, r, w) ← Uring.submit execute l.ring l.world
      some { l with ring := r, world := w, executed := l.executed ++ done }
  | .peekCqe bufPtr count buf => do
      let _ ← l.ring.peekCqe bufPtr count buf
      some l

variable (execute) in
def UringStep (l : UringLog ω) (c : UringCall) (l' : UringLog ω) : Prop :=
  c.exec execute l = some l'

/-! ### Every entry is executed once, in order -/

variable (execute) in
/-- All the entries, one after the other; `none` if one of them does not return. -/
def executeAll (pid : Nat) : ω → List IoUringSqe → Option (List (IoUringSqe × BitVec 32) × ω)
  | w, [] => some ([], w)
  | w, sqe :: rest => do
      let (res, w1) ← execute w sqe pid
      let (others, w2) ← executeAll pid w1 rest
      some ((sqe, res) :: others, w2)

theorem executeAll_append {pid : Nat} {w w' : ω} {sqes more : List IoUringSqe}
    {done : List (IoUringSqe × BitVec 32)} (h : executeAll execute pid w sqes = some (done, w')) :
    executeAll execute pid w (sqes ++ more) =
      (executeAll execute pid w' more).map fun x => (done ++ x.1, x.2) := by
  induction sqes generalizing w done with
  | nil =>
    cases h
    simp
  | cons first rest ih =>
    obtain ⟨⟨res, w1⟩, hfirst, h⟩ := bind_eq_some_iff.mp h
    obtain ⟨⟨others, w2⟩, hrest, h⟩ := bind_eq_some_iff.mp h
    cases h
    rw [cons_append, executeAll, hfirst]
    simp only [bind_eq_bind, bind_some, ih hrest]
    cases executeAll execute pid w' more <;> rfl

def completion (e : IoUringSqe × BitVec 32) : IoUringCqe := ⟨e.1.userData, e.2, 0⟩

def IoUring.queued (r : IoUring) : List IoUringSqe := live r.sqEntries r.sqes r.sqHead r.sqTail

/-- The obtained entries are the executed ones followed by those that are queued; the completions
    are posted in order. -/
structure Inv (execute : ω → IoUringSqe → Nat → Option (BitVec 32 × ω)) (pid : Nat) (w : ω)
    (l : UringLog ω) : Prop where
  pid_eq : l.ring.pid = pid
  entries_le : l.ring.sqEntries ≤ RING_ENTRIES
  cqEntries_eq : l.ring.cqEntries = l.ring.sqEntries
  head_le : l.ring.sqHead ≤ l.ring.sqTail
  room : l.ring.sqTail - l.ring.sqHead ≤ l.ring.sqEntries
  obtained_eq : l.obtained = l.executed.map Prod.fst ++ l.ring.queued
  executed_eq : executeAll execute pid w (l.executed.map Prod.fst) = some (l.executed, l.world)
  cqHead_eq : l.ring.cqHead = l.executed.length
  posted : l.executed.length ≤ l.ring.cqEntries →
    live l.ring.cqEntries l.ring.cqes 0 l.ring.cqHead = l.executed.map completion

variable {pid : Nat} {w : ω} {l l' : UringLog ω} {r : IoUring}

theorem ringIndex_eq {pos entries : Nat} (hpos : 0 < entries) (hle : entries ≤ RING_ENTRIES) :
    ringIndex pos entries = some (pos % entries) := by
  unfold ringIndex
  rw [if_neg (Nat.ne_of_gt hpos), if_pos ((Nat.mod_lt pos hpos).trans_le hle)]

theorem inv_new (entries : Nat) : Inv execute pid w (.new pid entries w) where
  pid_eq := rfl
  entries_le := Nat.min_le_right _ _
  cqEntries_eq := rfl
  head_le := Nat.le_refl 0
  room := Nat.zero_le _
  obtained_eq := rfl
  executed_eq := rfl
  cqHead_eq := rfl
  posted := fun _ => rfl

section

variable (h : Inv execute pid w l)
include h

theorem Inv.getSqe_spec (sqe : IoUringSqe) :
    ∃ l', (UringCall.getSqe sqe).exec execute l = some l' ∧ Inv execute pid w l' := by
  unfold UringCall.exec IoUring.getSqe
  by_cases hfull : l.ring.sqTail - l.ring.sqHead ≥ l.ring.sqEntries
  · rw [if_pos hfull]
    exact ⟨l, rfl, h⟩
  · have hroom : l.ring.sqTail - l.ring.sqHead < l.ring.sqEntries := Nat.lt_of_not_le hfull
    rw [if_neg hfull, ringIndex_eq (by omega) h.entries_le]
    refine ⟨_, rfl, { h with
      head_le := Nat.le_succ_of_le h.head_le
      room := ?_
      obtained_eq := ?_ }⟩
    · show l.ring.sqTail + 1 - l.ring.sqHead ≤ l.ring.sqEntries
      omega
    · show l.obtained ++ [sqe] = l.executed.map Prod.fst ++ live _ _ _ _
      rw [live_push h.head_le hroom, h.obtained_eq, append_assoc]
      rfl

/-- A pass executes the first entry that is queued, and returns if `execute` does. -/
theorem Inv.submitOne_spec (hlt : l.ring.sqHead < l.ring.sqTail) :
    ∃ sqe rest, l.ring.queued = sqe :: rest ∧
      ((execute l.world sqe pid = none ∧ submitOne execute l.ring l.world = none) ∨
      ∃ res r' w', execute l.world sqe pid = some (res, w') ∧
        submitOne execute l.ring l.world = some ((sqe, res), r', w') ∧ r'.queued = rest ∧
        r'.sqTail - r'.sqHead = l.ring.sqTail - l.ring.sqHead - 1 ∧
        Inv execute pid w { l with
          ring := r', world := w', executed := l.executed ++ [(sqe, res)] }) := by
  have hroom := h.room
  have hpos : 0 < l.ring.sqEntries := by omega
  have hcq : 0 < l.ring.cqEntries := h.cqEntries_eq ▸ hpos
  have hcqle : l.ring.cqEntries ≤ RING_ENTRIES := h.cqEntries_eq ▸ h.entries_le
  have hqueued : l.ring.queued = _ := live_pop hlt
  refine ⟨_, _, hqueued, ?_⟩
  unfold submitOne
  rw [ringIndex_eq hpos h.entries_le, ringIndex_eq hcq hcqle, ← h.pid_eq]
  simp only [bind_eq_bind, bind_some]
  rcases hexec : execute l.world (l.ring.sqes (l.ring.sqHead % l.ring.sqEntries)) l.ring.pid with
    _ | ⟨res, w'⟩
  · exact .inl ⟨rfl, rfl⟩
  refine .inr ⟨res, _, w', rfl, rfl, rfl, ?_, { h with
    pid_eq := rfl
    head_le := hlt
    room := ?_
    obtained_eq := ?_
    executed_eq := ?_
    cqHead_eq := ?_
    posted := fun hfits => ?_ }⟩
  · show l.ring.sqTail - (l.ring.sqHead + 1) = _
    omega
  · show l.ring.sqTail - (l.ring.sqHead + 1) ≤ l.ring.sqEntries
    omega
  · rw [h.obtained_eq, hqueued, map_append, append_assoc]
    rfl
  · rw [map_append, h.pid_eq, executeAll_append h.executed_eq, ← h.pid_eq]
    simp [executeAll, hexec]
  · rw [length_append, length_singleton]
    exact congrArg (· + 1) h.cqHead_eq
  · rw [length_append, length_singleton] at hfits
    have hfit : l.executed.length + 1 ≤ l.ring.cqEntries := hfits
    rw [map_append, map_singleton, ← h.posted (by omega)]
    refine live_push (Nat.zero_le _) ?_
    rw [h.cqHead_eq]
    exact hfit

/-- The loop executes all queued entries in order, and returns if all of them do. -/
theorem Inv.submitLoop_spec {n : Nat} (hn : l.ring.sqTail - l.ring.sqHead = n) :
    (executeAll execute pid l.world l.ring.queued = none ∧
      submitLoop execute n l.ring l.world = none) ∨
    ∃ done r' w', executeAll execute pid l.world l.ring.queued = some (done, w') ∧
      submitLoop execute n l.ring l.world = some (done, r', w') ∧
      Inv execute pid w { l with ring := r', world := w', executed := l.executed ++ done } := by
  induction n generalizing l with
  | zero =>
    have hempty : l.ring.queued = [] := length_eq_zero_iff.mp (length_live.trans hn)
    refine .inr ⟨[], l.ring, l.world, by rw [hempty]; rfl, rfl, ?_⟩
    rw [append_nil]
    exact h
  | succ n ih =>
    obtain ⟨sqe, rest, hqueued, hone⟩ := h.submitOne_spec (by omega)
    rw [hqueued, executeAll, submitLoop]
    rcases hone with ⟨hexec, hfirst⟩ | ⟨res, r1, w1, hexec, hfirst, hrest, hleft, h1⟩
    · rw [hexec, hfirst]
      exact .inl ⟨rfl, rfl⟩
    rw [hexec, hfirst, ← hrest]
    simp only [bind_eq_bind, bind_some]
    rcases ih h1 (by show r1.sqTail - r1.sqHead = n; omega) with
      ⟨hall, hloop⟩ | ⟨done, r2, w2, hall, hloop, h2⟩
    · rw [hall, hloop]
      exact .inl ⟨rfl, rfl⟩
    · rw [hall, hloop]
      refine .inr ⟨_, r2, w2, rfl, rfl, ?_⟩
      rw [append_cons]
      exact h2

/-- `submit` executes what is obtained and not yet executed, and returns if that does. -/
theorem Inv.submit_spec :
    (executeAll execute pid w l.obtained = none ∧ submit execute l.ring l.world = none) ∨
    ∃ done r' w', executeAll execute pid w l.obtained = some (l.executed ++ done, w') ∧
      submit execute l.ring l.world = some (done, r', w') ∧
      Inv execute pid w { l with ring := r', world := w', executed := l.executed ++ done } := by
  have hobtained : executeAll execute pid w l.obtained = _ :=
    h.obtained_eq ▸ executeAll_append h.executed_eq
  rcases h.submitLoop_spec rfl with ⟨hall, hsubmit⟩ | ⟨done, r', w', hall, hsubmit, hinv⟩
  · rw [hobtained, hall]
    exact .inl ⟨rfl, hsubmit⟩
  · rw [hobtained, hall]
    exact .inr ⟨done, r', w', rfl, hsubmit, hinv⟩

theorem Inv.step {c : UringCall} (hstep : UringStep execute l c l') : Inv execute pid w l' := by
  unfold UringStep at hstep
  cases c with
  | getSqe sqe =>
    obtain ⟨l1, hexec, hinv⟩ := h.getSqe_spec sqe
    rw [hexec] at hstep
    exact some.inj hstep ▸ hinv
  | submit =>
    rw [UringCall.exec] at hstep
    rcases h.submit_spec with ⟨-, hsubmit⟩ | ⟨done, r', w', -, hsubmit, hinv⟩
    · rw [hsubmit] at hstep
      cases hstep
    · rw [hsubmit] at hstep
      exact some.inj hstep ▸ hinv
  | peekCqe bufPtr count buf =>
    obtain ⟨_, -, hsame⟩ := bind_eq_some_iff.mp hstep
    exact some.inj hsame ▸ h

end

/-! ### What `peek_cqe` stores -/

variable {buf buf' : Memory} {n : Nat} {cqe : IoUringCqe} {off bufPtr count : Nat}

theorem readLE_writeCqe_disjoint {a k : Nat}
    (h : a + k ≤ off ∨ off + 12 ≤ a) : readLE (writeCqe buf off cqe) a k = readLE buf a k := by
  unfold writeCqe
  rw [readLE_writeLE_disjoint _ _ (by omega), readLE_writeLE_disjoint _ _ (by omega)]

/-- The three parts of a record: the low bytes of `user_data`, its high bytes, which stay as they
    were in the buffer, and the result. -/
structure Stored (buf buf' : Memory) (off : Nat) (cqe : IoUringCqe) : Prop where
  low : readLE buf' off 3 = cqe.userData.toNat % 256 ^ 3
  high : readLE buf' (off + 3) 5 = readLE buf (off + 3) 5
  res : readLE buf' (off + 8) 4 = cqe.res.toNat

theorem stored_writeCqe : Stored buf (writeCqe buf off cqe) off cqe where
  low := by
    unfold writeCqe
    rw [readLE_writeLE_disjoint _ _ (by omega), readLE_writeLE_same]
  high := by
    unfold writeCqe
    rw [readLE_writeLE_disjoint _ _ (by omega), readLE_writeLE_disjoint _ _ (by omega)]
  res := by
    unfold writeCqe
    rw [readLE_writeLE_same]
    exact Nat.mod_eq_of_lt cqe.res.isLt

/-- The loop stays inside the array of completions exactly if at most `RING_ENTRIES` are asked
    for; then it stores their records and changes no other byte. -/
theorem peekLoop_spec (r : IoUring) (buf : Memory) (h : n ≤ RING_ENTRIES) :
    ∃ buf', peekLoop r n buf = some buf' ∧
      (∀ i < n, Stored buf buf' (i * 16) (r.cqes i)) ∧
      ∀ a k, n * 16 ≤ a → readLE buf' a k = readLE buf a k := by
  induction n with
  | zero => exact ⟨buf, rfl, fun i hi => absurd hi (Nat.not_lt_zero i), fun _ _ _ => rfl⟩
  | succ n ih =>
    obtain ⟨buf1, hloop, hstored, hframe⟩ := ih (by omega)
    refine ⟨writeCqe buf1 (n * 16) (r.cqes n), ?_, fun i hi => ?_, fun a k ha => ?_⟩
    · unfold peekLoop at hloop ⊢
      rw [range_succ, foldlM_append, hloop]
      simp [Nat.lt_of_succ_le h]
    · rcases Nat.lt_succ_iff_lt_or_eq.mp hi with hlt | rfl
      · obtain ⟨hlow, hhigh, hres⟩ := hstored i hlt
        exact ⟨(readLE_writeCqe_disjoint (by omega)).trans hlow,
          (readLE_writeCqe_disjoint (by omega)).trans hhigh,
          (readLE_writeCqe_disjoint (by omega)).trans hres⟩
      · have hlast : Stored buf1 (writeCqe buf1 (i * 16) (r.cqes i)) (i * 16) (r.cqes i) :=
          stored_writeCqe
        exact ⟨hlast.low, hlast.high.trans (hframe _ _ (by omega)), hlast.res⟩
    · rw [readLE_writeCqe_disjoint (by omega), hframe a k (by omega)]

theorem peekLoop_eq_none (h : RING_ENTRIES < n) : peekLoop r n buf = none := by
  induction n with
  | zero => exact absurd h (Nat.not_lt_zero _)
  | succ n ih =>
    unfold peekLoop
    rw [range_succ, foldlM_append]
    rcases Nat.lt_succ_iff_lt_or_eq.mp h with hlt | heq
    · have hnone : (range n).foldlM (fun buf i =>
          if i < RING_ENTRIES then some (writeCqe buf (i * 16) (r.cqes i)) else none) buf = none :=
        ih hlt
      rw [hnone]
      rfl
    · obtain ⟨buf1, hloop, -⟩ := peekLoop_spec r buf (Nat.le_of_eq heq.symm)
      unfold peekLoop at hloop
      simp [heq]

theorem Stored.userData_iff (h : Stored buf buf' off cqe) : readLE buf' off 8 = cqe.userData.toNat ↔
      readLE buf (off + 3) 5 = cqe.userData.toNat / 256 ^ 3 := by
  rw [readLE_add buf' off 3 5, h.low, h.high]
  omega

theorem Inv.cqes_eq {i : Nat} {e : IoUringSqe × BitVec 32} (h : Inv execute pid w l)
    (hfits : l.executed.length ≤ l.ring.cqEntries) (he : l.executed[i]? = some e) :
    l.ring.cqes i = completion e := by
  obtain ⟨hi, -⟩ := List.getElem?_eq_some_iff.mp he
  have hlive := congrArg (fun done => done[i]?) (h.posted hfits)
  have hlt : i < l.ring.cqHead := h.cqHead_eq ▸ hi
  simp only [live, getElem?_map, he, map_some, Nat.sub_zero,
    getElem?_range' hlt, Nat.zero_add, Nat.one_mul,
    Nat.mod_eq_of_lt (Nat.lt_of_lt_of_le hi hfits)] at hlive
  exact some.inj hlive

/-- What is asked of `peek_cqe`: it returns, and as long as the completions fit the ring it
    stores `user_data` and result of the first `count` executed entries. -/
def UringLog.PeekSound (l : UringLog ω) (bufPtr count : Nat) (buf : Memory) : Prop :=
  ∃ n buf', l.ring.peekCqe bufPtr count buf = some (n, buf') ∧
    (l.executed.length ≤ l.ring.cqEntries →
      n = min l.executed.length count ∧
        ∀ i e, l.executed[i]? = some e → i < n →
          readLE buf' (i * 16) 8 = e.1.userData.toNat ∧ readLE buf' (i * 16 + 8) 4 = e.2.toNat)

/-- At most `RING_ENTRIES` completions are asked for and there, and the buffer already holds the
    five high bytes of every `user_data`. -/
def UringLog.PeekFits (l : UringLog ω) (count : Nat) (buf : Memory) : Prop :=
  min l.executed.length count ≤ RING_ENTRIES ∧
    (l.executed.length ≤ l.ring.cqEntries →
      ∀ i e, l.executed[i]? = some e → i < count →
        readLE buf (i * 16 + 3) 5 = e.1.userData.toNat / 256 ^ 3)

theorem peekCqe_eq (hbuf : bufPtr ≠ 0) : r.peekCqe bufPtr count buf =
    (peekLoop r (min r.cqHead count) buf).map fun buf => (min r.cqHead count, buf) := by
  unfold IoUring.peekCqe
  rw [if_neg hbuf]
  dsimp only
  cases peekLoop r (min r.cqHead count) buf <;> rfl

/-- When `peek_cqe` returns what was asked for. -/
theorem Inv.peekSound_iff (h : Inv execute pid w l) (hbuf : bufPtr ≠ 0) :
    l.PeekSound bufPtr count buf ↔ l.PeekFits count buf := by
  unfold UringLog.PeekSound UringLog.PeekFits
  rw [peekCqe_eq hbuf, h.cqHead_eq]
  by_cases hmany : RING_ENTRIES < min l.executed.length count
  · rw [peekLoop_eq_none hmany]
    constructor
    · rintro ⟨n, buf', hnone, -⟩
      cases hnone
    · rintro ⟨hle, -⟩
      exact absurd hmany (Nat.not_lt.mpr hle)
  · have hle := Nat.le_of_not_lt hmany
    obtain ⟨buf1, hloop, hstored, -⟩ := peekLoop_spec l.ring buf hle
    rw [hloop]
    constructor
    · rintro ⟨n, buf', hres, hsound⟩
      cases hres
      refine ⟨hle, fun hfits i e he hi => ?_⟩
      have hlt : i < min l.executed.length count :=
        Nat.lt_min.mpr ⟨(List.getElem?_eq_some_iff.mp he).1, hi⟩
      have hrecord := hstored i hlt
      rw [h.cqes_eq hfits he] at hrecord
      exact hrecord.userData_iff.mp ((hsound hfits).2 i e he hlt).1
    · rintro ⟨-, hheld⟩
      refine ⟨_, _, rfl, fun hfits => ⟨rfl, fun i e he hi => ?_⟩⟩
      have hrecord := hstored i hi
      rw [h.cqes_eq hfits he] at hrecord
      have hhigh := hheld hfits i e he (Nat.lt_min.mp hi).2
      exact ⟨hrecord.userData_iff.mpr hhigh, hrecord.res⟩

/-- In every run, obtaining an entry returns; a submission returns and executes the entries that
    are left, so that all obtained ones have been executed once and in order, exactly if
    `execute_sqe` returns for each of them in this order; and `peek_cqe` does what is asked of it
    exactly if `PeekFits`. -/
theorem completion_law (execute : ω → IoUringSqe → Nat → Option (BitVec 32 × ω))
    (pid entries : Nat) (w : ω) {calls : List UringCall} {l : UringLog ω}
    (hrun : Run (UringStep execute) (.new pid entries w) calls l) :
    (∀ sqe, ((UringCall.getSqe sqe).exec execute l).isSome) ∧
      ((∃ done r' w', submit execute l.ring l.world = some (done, r', w') ∧
          executeAll execute pid w l.obtained = some (l.executed ++ done, w')) ↔
        (executeAll execute pid w l.obtained).isSome) ∧
      ∀ bufPtr count buf, bufPtr ≠ 0 →
        (l.PeekSound bufPtr count buf ↔ l.PeekFits count buf) := by
  have h : Inv execute pid w l :=
    hrun.invariant (fun _ _ _ h hstep => h.step hstep) (inv_new entries)
  refine ⟨fun sqe => ?_, ?_, fun bufPtr count buf hbuf => h.peekSound_iff hbuf⟩
  · obtain ⟨l', hexec, -⟩ := h.getSqe_spec sqe
    rw [hexec]
    rfl
  · rcases h.submit_spec with ⟨hall, hsubmit⟩ | ⟨done, r', w', hall, hsubmit, -⟩
    · rw [hall, hsubmit]
      simp
    · rw [hall, hsubmit]
      exact iff_of_true ⟨done, r', w', rfl, rfl⟩ rfl

/-- An entry that does nothing, with the given `user_data`. -/
def nop (userData : BitVec 64) : IoUringSqe := ⟨0, 0, 0, 0, 0, 0, userData⟩

/-- A small `user_data` and a zeroed buffer: two entries are executed and reported. -/
theorem completion_law_two : ∃ l : UringLog Nat,
    Run (UringStep fun w _ _ => some (BitVec.ofNat 32 w, w + 1)) (.new 1 2 5)
      [.getSqe (nop 7), .getSqe (nop 8), .submit] l ∧
    l.executed = [(nop 7, 5), (nop 8, 6)] ∧ l.PeekSound 4096 2 fun _ => 0 := by
  let execute : Nat → IoUringSqe → Nat → Option (BitVec 32 × Nat) :=
    fun w _ _ => some (BitVec.ofNat 32 w, w + 1)
  let calls : List UringCall := [.getSqe (nop 7), .getSqe (nop 8), .submit]
  obtain ⟨l, hrun, hexecuted⟩ : ∃ l, Run (UringStep execute) (.new 1 2 5) calls l ∧
      l.executed = [(nop 7, 5), (nop 8, 6)] :=
    exists_run_of_foldlM _ _ (fun _ _ _ _ h => h) (by decide +kernel)
  refine ⟨l, hrun, hexecuted, ?_⟩
  refine ((completion_law execute 1 2 5 hrun).2.2 4096 2 _ (by decide)).mpr ?_
  unfold UringLog.PeekFits
  rw [hexecuted]
  refine ⟨by decide, fun _ i e he hi => ?_⟩
  match i, hi, he with
  | 0, _, he =>
    cases he
    decide
  | 1, _, he =>
    cases he
    decide

/-- Of `user_data` only three bytes arrive; and when one entry more than the array holds has been
    submitted, a call that asks for all completions leaves the array. -/
theorem user_data_cut : (let calls := [UringCall.getSqe (nop 0x0102030405060708), .submit]
    let l? := calls.foldlM (UringCall.exec fun w _ _ => some (0, w)) (UringLog.new 1 4 ())
    l?.bind (fun l => (l.ring.peekCqe 4096 1 fun _ => 0).map fun res => readLE res.2 0 8) =
      some 0x060708) ∧
    (let calls := (replicate 33 [UringCall.getSqe (nop 0), .submit]).flatten
    let l? := calls.foldlM (UringCall.exec fun w _ _ => some (0, w)) (UringLog.new 1 4 ())
    l?.map (fun l => (l.executed.length, (l.ring.peekCqe 4096 33 fun _ => 0).isNone)) =
      some (33, true)) := by
  decide +kernel

end TrainOS.Uring
