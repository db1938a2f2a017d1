import TrainOS.ElfLoading
import TrainOS.MemoryCalls

/-!
# The transactional MMU (`mem/txmmu.rs`)

A transaction queues `map`, `unmap` and `protect` operations on one page table; `commit`
walks the table for each of them and writes the last-level entry.  The operations have an
abstract meaning, an update of one page of a page map, and `commit` is their fold
(`commit_fold`): every address translates as the map says.
-/

namespace TrainOS.Sv39

open ByteMemory List Option RadixTable Runs

/-! ### Transactions -/

def MAX_OPS : Nat := 16

inductive TxOp where
  | map (va pa : Nat) (flags : BitVec 8)
  | unmap (va : Nat)
  | protect (va : Nat) (flags : BitVec 8)
deriving DecidableEq, Repr

structure TxMMU where
  rootPhys : Nat
  pendingOps : Table TxOp MAX_OPS
  inTx : Bool

/-- The flags of an operation. -/
def flagR (flags : BitVec 8) : Bool := flags &&& 1 != 0

@[inherit_doc flagR]
def flagW (flags : BitVec 8) : Bool := flags &&& 2 != 0

@[inherit_doc flagR]
def flagX (flags : BitVec 8) : Bool := flags &&& 4 != 0

@[inherit_doc flagR]
def flagU (flags : BitVec 8) : Bool := flags &&& 8 != 0

namespace TxMMU

def NO_TRANSACTION : String := "TxMMU: no transaction in progress"

def begin (rootPhys : Nat) : TxMMU := ⟨rootPhys, .empty, true⟩

def queue (tx : TxMMU) (op : TxOp) : Except String Unit × TxMMU :=
  if !tx.inTx then (.error NO_TRANSACTION, tx)
  else
    match tx.pendingOps.push? op with
    | none => (.error "TxMMU: transaction operation buffer full", tx)
    | some ops => (.ok (), { tx with pendingOps := ops })

def map (tx : TxMMU) (va pa : Nat) (flags : BitVec 8) : Except String Unit × TxMMU :=
  tx.queue (.map va pa flags)

def unmap (tx : TxMMU) (va : Nat) : Except String Unit × TxMMU := tx.queue (.unmap va)

def protect (tx : TxMMU) (va : Nat) (flags : BitVec 8) : Except String Unit × TxMMU :=
  tx.queue (.protect va flags)

def commitMap (root va pa : Nat) (flags : BitVec 8) (s : Phys) : Except String Unit × Phys :=
  mapWith "TxMMU commit_map: page table walk failed" s root va pa
    (flagR flags) (flagW flags) (flagX flags) (flagU flags)

def commitUnmap (root va : Nat) (s : Phys) : Phys := unmapUserPage s root va

/-- The flags of the last-level entry are replaced, whether it is valid or not. -/
def commitProtect (root va : Nat) (flags : BitVec 8) (s : Phys) : Phys :=
  match walkProcessPt s root va false with
  | (none, s) => s
  | (some (l0, i), s) =>
      let e := (readPte s.mem l0 i).setFlags (flagR flags) (flagW flags) (flagX flags) (flagU flags)
      { s with mem := writePte s.mem l0 i e }

def commitOp (root : Nat) (op : TxOp) (s : Phys) : Except String Unit × Phys :=
  match op with
  | .map va pa flags => commitMap root va pa flags s
  | .unmap va => (.ok (), commitUnmap root va s)
  | .protect va flags => (.ok (), commitProtect root va flags s)

def abort (tx : TxMMU) : TxMMU := { tx with pendingOps := .empty, inTx := false }

/-- An operation that fails leaves the transaction open, with all its operations. -/
def commit (tx : TxMMU) (s : Phys) : Except String Unit × TxMMU × Phys :=
  if !tx.inTx then (.error NO_TRANSACTION, tx, s)
  else
    match forEach (commitOp tx.rootPhys) tx.pendingOps.entries s with
    | (.error e, s) => (.error e, tx, s)
    | (.ok _, s) => (.ok (), tx.abort, s)

end TxMMU

/-- The calls on a transaction. -/
inductive TxCall where
  | queue (op : TxOp)
  | commit

def TxCall.exec (tx : TxMMU) (s : Phys) : TxCall → Except String Unit × TxMMU × Phys
  | .queue op => let res := tx.queue op; (res.1, res.2, s)
  | .commit => tx.commit s

/-! ### The abstract meaning -/

def TxOp.va : TxOp → Nat
  | .map va _ _ => va
  | .unmap va => va
  | .protect va _ => va

/-- The page that `map` asks for; physical addresses have 56 bits. -/
def mappingOf (pa : Nat) (flags : BitVec 8) : Mapping where
  frame := pa % 2 ^ 56 / PAGE_SIZE * PAGE_SIZE
  r := flagR flags
  w := flagW flags
  x := flagX flags
  u := flagU flags

def Mapping.protect (flags : BitVec 8) (e : Mapping) : Mapping :=
  { e with r := flagR flags, w := flagW flags, x := flagX flags, u := flagU flags }

def PageMap.applyTx (A : PageMap) : TxOp → PageMap
  | .map va pa flags => Function.update A (vpn va) (some (mappingOf pa flags))
  | .unmap va => Function.update A (vpn va) none
  | .protect va flags => Function.update A (vpn va) ((A (vpn va)).map (Mapping.protect flags))

/-- The flags have at least one of R, W and X. -/
def HasRwx (flags : BitVec 8) : Prop := (flagR flags || flagW flags || flagX flags) = true

/-- The operation is one that a page table can carry out on the map. -/
def TxOp.Sound (A : PageMap) : TxOp → Prop
  | .map _ _ flags => HasRwx flags
  | .unmap _ => True
  | .protect va flags => HasRwx flags ∧ A (vpn va) ≠ none

/-- Every operation of the sequence is sound for the map at its point. -/
def SoundOps : PageMap → List TxOp → Prop
  | _, [] => True
  | A, op :: ops => op.Sound A ∧ SoundOps (A.applyTx op) ops

def pagesOf (m : Memory) (root : Nat) : PageMap := fun v =>
  (translate m (root * PAGE_SIZE) (v * PAGE_SIZE)).map fun t => ⟨t.pa, t.r, t.w, t.x, t.u⟩

/-- The table translates every address as the map says. -/
def Translates (m : Memory) (root : Nat) (A : PageMap) : Prop :=
  ∀ va, translate m (root * PAGE_SIZE) va = (A (vpn va)).map fun e => e.translation va

/-! ### A table shows its own pages -/

theorem translates_pagesOf (m : Memory) (root : Nat) : Translates m root (pagesOf m root) := by
  intro va
  have hpath : path (vpn va * PAGE_SIZE) = path va := by
    rw [path_eq_iff]
    unfold vpn PAGE_SIZE
    omega
  rw [pagesOf, translate_eq_lookup, translate_eq_lookup, hpath]
  cases hl : lookup (tables m) root (path va) with
  | none => rfl
  | some l =>
    obtain ⟨e, rest⟩ := l
    have hleft : rest.length < 3 := lookup_rest_lt hl
    have hsplit : va % leafSize rest.length =
        vpn va * PAGE_SIZE % leafSize rest.length + va % PAGE_SIZE := by
      interval_cases rest.length <;> unfold leafSize vpn PAGE_SIZE <;> omega
    simp [Mapping.translation, PTE.translation, hsplit, Nat.add_assoc]

/-! ### One operation -/

variable {root va : Nat} {s s' : Phys} {own own' : Own} {A : PageMap}

/-- The table of `root` translates as the map says, and has no superpage at the
    addresses. -/
structure Commits (root : Nat) (vas : List Nat) (s : Phys) (own : Own) (A : PageMap) : Prop where
  tree : Tree anyEntry s own
  root_own : own root = some (root, [])
  small : ∀ va ∈ vas, NoSuperpage s.mem root va
  translates : Translates s.mem root A

/-- What a last-level lookup says about the translation. -/
def PageShows (m : Memory) (root va : Nat) (e : Option Mapping) : Prop :=
  NoSuperpage m root va ∧
    ∀ va', vpn va' = vpn va → translate m (root * PAGE_SIZE) va' = e.map fun e => e.translation va'

theorem Commits.update {vas : List Nat} {e : Option Mapping} (h : Commits root vas s own A)
    (heff : Effect anyEntry (atPage root va) s s' own own') (hpage : PageShows s'.mem root va e) :
    Commits root vas s' own' (Function.update A (vpn va) e) := by
  have hsame : ∀ va', vpn va' ≠ vpn va →
      lookup (tables s'.mem) root (path va') = lookup (tables s.mem) root (path va') :=
    fun va' hne => heff.lookup_other h.root_own hne
  refine ⟨heff.tree, heff.keep _ _ h.root_own, ?_, ?_⟩
  · intro va' hva' e' rest hl
    by_cases heq : vpn va' = vpn va
    · rw [path_eq_iff.mpr heq] at hl
      exact hpage.1 e' rest hl
    · rw [hsame va' heq] at hl
      exact h.small va' hva' e' rest hl
  · intro va'
    by_cases heq : vpn va' = vpn va
    · rw [heq, Function.update_self]
      exact hpage.2 va' heq
    · rw [Function.update_of_ne heq, translate_eq_lookup, hsame va' heq, ← translate_eq_lookup]
      exact h.translates va'

variable {m : Memory} {e : Mapping}

theorem pageShows_none (h : lookup (tables m) root (path va) = none) :
    PageShows m root va none := by
  refine ⟨fun e rest hl => ?_, fun va' heq => ?_⟩
  · rw [h] at hl
    cases hl
  · rw [← path_eq_iff.mpr heq] at h
    exact translate_none.mpr h

theorem pageShows_some {pte : PTE}
    (h : lookup (tables m) root (path va) = some (pte, [])) (hframe : pte.physAddr = e.frame)
    (hr : pte.isReadable = e.r) (hw : pte.isWritable = e.w) (hx : pte.isExecutable = e.x)
    (hu : pte.isUser = e.u) : PageShows m root va (some e) := by
  refine ⟨fun e' rest hl => ?_, fun va' heq => ?_⟩
  · rw [h] at hl
    cases hl
    rfl
  · rw [← path_eq_iff.mpr heq] at h
    rw [translate_page h, PTE.translation, hframe, hr, hw, hx, hu]
    rfl

theorem physAddr_page (pa : Nat) (flags : BitVec 8) (r w x u : Bool) :
    (PTE.page pa r w x u).physAddr = (mappingOf pa flags).frame := by
  have hframe : (mappingOf pa flags).frame = pa % 2 ^ 56 / PAGE_SIZE * PAGE_SIZE := rfl
  rw [physAddr_eq, PTE.ppn_page_mod, Nat.shiftRight_eq_div_pow, hframe]
  unfold PAGE_SIZE
  omega

variable {vas : List Nat} {flags : BitVec 8}

section

variable (h : Commits root vas s own A)
include h

theorem Commits.map {pa : Nat} (hrwx : HasRwx flags)
    (hrun : TxMMU.commitMap (root * PAGE_SIZE) va pa flags s = (.ok (), s')) :
    ∃ own', Commits root vas s' own' (A.applyTx (.map va pa flags)) := by
  obtain ⟨own', heff, -, hfound⟩ := mapWith_effect h.tree h.root_own hrun
  have hleaf := (hfound rfl).trans (if_pos hrwx)
  obtain ⟨_, hr, hw, hx, hu, _⟩ :=
    PTE.flags_page pa (flagR flags) (flagW flags) (flagX flags) (flagU flags)
  exact ⟨own', h.update heff (pageShows_some hleaf (physAddr_page pa flags _ _ _ _) hr hw hx hu)⟩

theorem Commits.unmap (hva : va ∈ vas) :
    Commits root vas (TxMMU.commitUnmap (root * PAGE_SIZE) va s) own (A.applyTx (.unmap va)) := by
  obtain ⟨heff, hcase⟩ := unmapUserPage_effect h.tree h.root_own va
  refine h.update heff (pageShows_none ?_)
  rcases hcase with hnone | ⟨hsame, hleaf⟩
  · exact hnone
  · -- without a last-level leaf and without a superpage there was no page
    unfold TxMMU.commitUnmap
    rw [hsame]
    cases hl : lookup (tables s.mem) root (path va) with
    | none => rfl
    | some l =>
      obtain ⟨e, rest⟩ := l
      obtain rfl := h.small va hva e rest hl
      exact absurd hl (hleaf e)

theorem Commits.leaf (hva : va ∈ vas) (hmapped : A (vpn va) = some e) :
    ∃ pte, lookup (tables s.mem) root (path va) = some (pte, []) ∧ pte.physAddr = e.frame := by
  have htranslate := h.translates va
  rw [hmapped] at htranslate
  cases hl : lookup (tables s.mem) root (path va) with
  | none =>
    rw [translate_none.mpr hl] at htranslate
    cases htranslate
  | some l =>
    obtain ⟨pte, rest⟩ := l
    obtain rfl := h.small va hva pte rest hl
    rw [translate_page hl] at htranslate
    have hpa := congrArg Translation.pa (some.inj htranslate)
    exact ⟨pte, rfl, Nat.add_right_cancel hpa⟩

theorem Commits.protect (hva : va ∈ vas) (hrwx : HasRwx flags) (hmapped : A (vpn va) ≠ none) :
    Commits root vas (TxMMU.commitProtect (root * PAGE_SIZE) va flags s) own
      (A.applyTx (.protect va flags)) := by
  obtain ⟨e, he⟩ := ne_none_iff_exists'.mp hmapped
  obtain ⟨pte, hleaf, hframe⟩ := h.leaf hva he
  rcases walkProcessPt_read s root va with ⟨f0, hreach, hwalk⟩ | ⟨-, hnone⟩
  · have hread : readPte s.mem (f0 * PAGE_SIZE) (vpn0 va) = pte := by
      rw [lookup_of_reaches hreach, lookup_last] at hleaf
      grind
    simp only [TxMMU.commitProtect, hwalk, hread, PageMap.applyTx, he, map_some]
    obtain ⟨heff, hreach', hentry⟩ := writeLeaf_effect
      (e := pte.setFlags (flagR flags) (flagW flags) (flagX flags) (flagU flags)) h.tree h.root_own
      trivial hreach
    rw [decode_eq_leaf.mpr ⟨rfl, (PTE.isLeaf_setFlags _ _ _ _ _).trans hrwx⟩] at hentry
    obtain ⟨-, hw, hx, -⟩ :=
      PTE.flags_setFlags pte (flagR flags) (flagW flags) (flagX flags) (flagU flags)
    refine h.update heff (pageShows_some ((lookup_of_reaches hreach').trans (lookup_leaf [] hentry))
      ?_ (PTE.isReadable_setFlags _ _ _ _ _) hw hx (PTE.isUser_setFlags _ _ _ _ _))
    rw [physAddr_eq, PTE.ppn_setFlags, ← physAddr_eq]
    exact hframe
  · exact absurd hleaf (hnone pte)

/-! ### Whole transactions -/

theorem Commits.op {op : TxOp} (hva : op.va ∈ vas)
    (hsound : op.Sound A) (hrun : TxMMU.commitOp (root * PAGE_SIZE) op s = (.ok (), s')) :
    ∃ own', Commits root vas s' own' (A.applyTx op) := by
  cases op with
  | map va pa flags => exact h.map hsound hrun
  | unmap va =>
    cases hrun
    exact ⟨own, h.unmap hva⟩
  | protect va flags =>
    cases hrun
    exact ⟨own, h.protect hva hsound.1 hsound.2⟩

theorem Commits.ops {ops : List TxOp} (hvas : ∀ op ∈ ops, op.va ∈ vas) (hsound : SoundOps A ops)
    (hrun : forEach (TxMMU.commitOp (root * PAGE_SIZE)) ops s = (.ok (), s')) :
    ∃ own', Commits root vas s' own' (ops.foldl PageMap.applyTx A) := by
  induction ops generalizing s own A with
  | nil =>
    cases hrun
    exact ⟨own, h⟩
  | cons op ops ih =>
    rcases forEach_cons hrun with ⟨s1, hop, hrest⟩ | ⟨e, herr, -⟩
    · obtain ⟨own1, h1⟩ := h.op (hvas op mem_cons_self) hsound.1 hop
      exact ih h1 (fun op' hop' => hvas op' (mem_cons_of_mem op hop')) hsound.2 hrest
    · cases herr

end

variable {tx : TxMMU}

theorem TxMMU.queue_all {ops : List TxOp} (hopen : tx.inTx = true)
    (hfit : tx.pendingOps.entries.length + ops.length ≤ MAX_OPS) :
    ∃ tx', forEach (fun op tx => tx.queue op) ops tx = (.ok (), tx') ∧
      tx'.rootPhys = tx.rootPhys ∧ tx'.inTx = true ∧
      tx'.pendingOps.entries = tx.pendingOps.entries ++ ops := by
  induction ops generalizing tx with
  | nil => exact ⟨tx, rfl, rfl, hopen, by simp⟩
  | cons op ops ih =>
    rw [length_cons] at hfit
    have hroom : tx.pendingOps.entries.length < MAX_OPS := by omega
    obtain ⟨tx1, hqueue, hroot1, hopen1, hentries1⟩ : ∃ tx1, tx.queue op = (.ok (), tx1) ∧
        tx1.rootPhys = tx.rootPhys ∧ tx1.inTx = true ∧
        tx1.pendingOps.entries = tx.pendingOps.entries ++ [op] := by
      simp [queue, hopen, Table.push?, hroom]
    have hfit1 : tx1.pendingOps.entries.length + ops.length ≤ MAX_OPS := by
      rw [hentries1, length_append, length_singleton]
      omega
    obtain ⟨tx', hrun, hroot, hopen', hentries⟩ := ih hopen1 hfit1
    refine ⟨tx', ?_, hroot.trans hroot1, hopen', ?_⟩
    · simpa only [forEach, hqueue] using hrun
    · rw [hentries, hentries1, append_assoc]
      rfl

/-- **`commit` is a fold.**  On a table without superpages at the addresses of the
    transaction, every address translates as in the page map that the queued operations
    have updated in their order; and the transaction is closed: every further call on it
    fails and changes nothing. -/
theorem commit_fold {tx tx' : TxMMU} (htree : Tree anyEntry s own)
    (hroot : own root = some (root, [])) (hphys : tx.rootPhys = root * PAGE_SIZE)
    (hsmall : ∀ op ∈ tx.pendingOps.entries, NoSuperpage s.mem root op.va)
    (hsound : SoundOps (pagesOf s.mem root) tx.pendingOps.entries)
    (hrun : tx.commit s = (.ok (), tx', s')) :
    Translates s'.mem root (tx.pendingOps.entries.foldl PageMap.applyTx (pagesOf s.mem root)) ∧
      ∀ (c : TxCall) (s : Phys), c.exec tx' s = (.error TxMMU.NO_TRANSACTION, tx', s) := by
  unfold TxMMU.commit at hrun
  split at hrun
  · cases hrun
  split at hrun
  · cases hrun
  rename_i hops
  cases hrun
  rw [hphys] at hops
  have hstart : Commits root (tx.pendingOps.entries.map TxOp.va) s own (pagesOf s.mem root) := by
    refine ⟨htree, hroot, ?_, translates_pagesOf s.mem root⟩
    intro va hva
    obtain ⟨op, hop, rfl⟩ := mem_map.mp hva
    exact hsmall op hop
  obtain ⟨own', hend⟩ := hstart.ops (fun op hop => mem_map_of_mem hop) hsound hops
  refine ⟨hend.translates, ?_⟩
  intro c s
  cases c <;> rfl

/-- Map a page for reading and writing, make it read-only, and unmap the next one. -/
def threeOps : TxMMU where
  rootPhys := 0x1000
  pendingOps := ⟨[.map 0x5000 0x7000 0b1011, .protect 0x5000 0b1001, .unmap 0x6000], by decide⟩
  inTx := true

theorem commit_fold_three : ∃ tx' s', threeOps.commit heapKernel.phys = (.ok (), tx', s') ∧
      translate s'.mem 0x1000 0x5004 = some ⟨0x7004, true, false, false, true⟩ := by
  obtain ⟨own, htable⟩ := heapKernel_tableOf
  have hok : (threeOps.commit heapKernel.phys).1 = .ok () := by decide +kernel
  have hnone : ∀ va, lookup (tables heapKernel.phys.mem) 1 (path va) = none :=
    fun va => lookup_empty _ (tables_zero 1 _)
  have hsmall : ∀ op ∈ threeOps.pendingOps.entries, NoSuperpage heapKernel.phys.mem 1 op.va := by
    intro op _ e rest hl
    rw [hnone] at hl
    cases hl
  have hsound : SoundOps (pagesOf heapKernel.phys.mem 1) threeOps.pendingOps.entries :=
    ⟨rfl, ⟨rfl, by simp [PageMap.applyTx]⟩, trivial, trivial⟩
  rcases hrun : threeOps.commit heapKernel.phys with ⟨res, tx', s'⟩
  rw [hrun] at hok
  obtain rfl : res = .ok () := hok
  refine ⟨tx', s', rfl, ?_⟩
  have hfold := commit_fold htable.tree htable.root_own rfl hsmall hsound hrun
  exact (hfold.1 0x5004).trans (by decide +kernel)

/-! ### After a failed commit -/

/-- A transaction that `begin` opened, after some calls; the table may change between them. -/
inductive TxMMU.Started : TxMMU → Prop
  | begin (rootPhys : Nat) : Started (TxMMU.begin rootPhys)
  | call {tx : TxMMU} (c : TxCall) (s : Phys) (h : Started tx) : Started (c.exec tx s).2.1
  | abort {tx : TxMMU} (h : Started tx) : Started tx.abort

/-- Nothing is pending, and every call fails and changes nothing. -/
def TxMMU.Over (tx : TxMMU) : Prop :=
  tx.pendingOps.entries = [] ∧ ∀ (c : TxCall) (s : Phys), ∃ e, c.exec tx s = (.error e, tx, s)

theorem TxCall.exec_closed (hclosed : tx.inTx = false) (c : TxCall) (s : Phys) :
    c.exec tx s = (.error TxMMU.NO_TRANSACTION, tx, s) := by
  cases c <;> simp [exec, TxMMU.queue, TxMMU.commit, hclosed]

theorem TxMMU.commit_cases (hopen : tx.inTx = true) (s : Phys) :
    (∃ s', tx.commit s = (.ok (), tx.abort, s')) ∨
      ∃ e s', tx.commit s = (.error e, tx, s') ∧ tx.pendingOps.entries ≠ [] := by
  rcases hloop : forEach (commitOp tx.rootPhys) tx.pendingOps.entries s with ⟨e | _, s'⟩
  · refine .inr ⟨e, s', by simp [commit, hopen, hloop], ?_⟩
    intro hnil
    rw [hnil] at hloop
    cases hloop
  · exact .inl ⟨s', by simp [commit, hopen, hloop]⟩

theorem TxMMU.Started.closed (h : Started tx) (hclosed : tx.inTx = false) :
    tx.pendingOps.entries = [] := by
  induction h with
  | begin rootPhys => cases hclosed
  | abort h ih => rfl
  | @call tx c s h ih =>
    cases hopen : tx.inTx with
    | false =>
      -- a closed transaction is as it was
      rw [c.exec_closed hopen]
      exact ih hopen
    | true =>
      cases c with
      | queue op =>
        cases hpush : tx.pendingOps.push? op <;> simp [TxCall.exec, queue, hopen, hpush] at hclosed
      | commit =>
        rcases commit_cases hopen s with ⟨s', hrun⟩ | ⟨e, s', hrun, -⟩
        · simp only [TxCall.exec, hrun]
          rfl
        · simp only [TxCall.exec, hrun, hopen] at hclosed
          cases hclosed

/-- A commit that fails leaves the transaction over exactly if it was closed before: one
    that fails on an operation leaves it open. -/
theorem failed_commit_over_iff {tx tx' : TxMMU} {e : String} (htx : tx.Started)
    (hrun : tx.commit s = (.error e, tx', s')) : tx'.Over ↔ tx.inTx = false := by
  cases hopen : tx.inTx with
  | false =>
    cases (TxCall.commit.exec_closed hopen s).symm.trans hrun
    exact ⟨fun _ => rfl, fun _ => ⟨htx.closed hopen, fun c s => ⟨_, c.exec_closed hopen s⟩⟩⟩
  | true =>
    rcases TxMMU.commit_cases hopen s with ⟨_, hok⟩ | ⟨_, _, herr, hpending⟩
    · rw [hok] at hrun
      cases hrun
    · rw [herr] at hrun
      cases hrun
      exact ⟨fun hover => absurd hover.1 hpending, fun hfalse => by cases hfalse⟩

theorem failed_commit_over_closed : (TxMMU.begin 0x1000).abort.Over :=
  (failed_commit_over_iff (.abort (.begin 0x1000))
    (TxCall.commit.exec_closed rfl heapKernel.phys)).mpr rfl

def oneMap : TxMMU := ((TxMMU.begin 0x1000).map 0x5000 0x7000 0b1011).2

/-- Without a frame the commit fails; when frames are free again the same transaction maps
    the page. -/
theorem failed_commit_maps_later : oneMap.Started ∧
      (oneMap.commit ⟨heapKernel.phys.mem, []⟩).1 =
        .error "TxMMU commit_map: page table walk failed" ∧
      ¬ (oneMap.commit ⟨heapKernel.phys.mem, []⟩).2.1.Over ∧
      translate heapKernel.phys.mem 0x1000 0x5000 = none ∧
      translate ((oneMap.commit ⟨heapKernel.phys.mem, []⟩).2.1.commit heapKernel.phys).2.2.mem
        0x1000 0x5000 = some ⟨0x7000, true, true, false, true⟩ := by
  refine ⟨.call (.queue (.map 0x5000 0x7000 0b1011)) heapKernel.phys (.begin 0x1000),
    by decide +kernel, ?_, by decide +kernel, by decide +kernel⟩
  have hpending :
      (oneMap.commit ⟨heapKernel.phys.mem, []⟩).2.1.pendingOps.entries ≠ [] := by decide +kernel
  exact fun hover => hpending hover.1

/-! ### Transactions without `map` -/

/-- Every address that translates afterwards did so before, to the same place. -/
def CreatesNothing (root : Nat) (m m' : Memory) : Prop :=
  ∀ va t', translate m' (root * PAGE_SIZE) va = some t' →
    ∃ t, translate m (root * PAGE_SIZE) va = some t ∧ t.pa = t'.pa

theorem CreatesNothing.refl (m : Memory) : CreatesNothing root m m :=
  fun _ t' h => ⟨t', h, rfl⟩

variable {va' f f0 : Nat}

/-- The last-level entry of an address, if the tables lead to one. -/
def entryOf (m : Memory) (root va : Nat) : Option PTE :=
  (frameAt (tables m) root [vpn2 va, vpn1 va]).map fun f0 => readPte m (f0 * PAGE_SIZE) (vpn0 va)

theorem entryOf_eq_some {e : PTE} : entryOf m root va = some e ↔
    ∃ f0, Reaches m root va f0 ∧ readPte m (f0 * PAGE_SIZE) (vpn0 va) = e :=
  map_eq_some_iff

/-- What `unmap` and `protect` write to an entry. -/
def TxOp.newEntry (e : PTE) : TxOp → PTE
  | .map _ _ _ => e
  | .unmap _ => .empty
  | .protect _ flags => e.setFlags (flagR flags) (flagW flags) (flagX flags) (flagU flags)

/-- What they do to the entry of page `v`. -/
def TxOp.onEntry (v : Nat) (e : PTE) (op : TxOp) : PTE := if vpn op.va = v then op.newEntry e else e

section

variable (htree : Tree anyEntry s own) (hroot : own root = some (root, []))
  (hreach : Reaches s.mem root va f0)
include htree hroot hreach

/-- A write to a last-level entry changes no table on the way to another one. -/
theorem reaches_writePte (e : PTE) (va' f : Nat) :
    Reaches (writePte s.mem (f0 * PAGE_SIZE) (vpn0 va) e) root va' f ↔
      Reaches s.mem root va' f := by
  have hown := own_of_reaches hreach htree hroot
  have hne {k : Nat} {p : List (Fin 512)} {j : Fin 512} (hk : own k = some (root, p))
      (hp : p.length < 2) : tables (writePte s.mem (f0 * PAGE_SIZE) (vpn0 va) e) k j =
        tables s.mem k j := by
    rw [tables_writePte]
    refine write_of_ne fun heq => ?_
    obtain ⟨rfl, -⟩ := heq
    rw [hown] at hk
    cases hk
    simp at hp
  rw [reaches_iff, reaches_iff, hne hroot (by simp)]
  refine exists_congr fun f1 => and_congr_right fun hbranch => ?_
  have hf1 : own f1 = some (root, [] ++ [vpn2 va']) :=
    htree.owned root root [] _ f1 hroot (by simp) hbranch
  rw [hne hf1 (by simp)]

/-- A written entry is the one of its own page. -/
theorem entryOf_writePte (e : PTE) (va' : Nat) :
    entryOf (writePte s.mem (f0 * PAGE_SIZE) (vpn0 va) e) root va' =
      (entryOf s.mem root va').map fun e' => if vpn va = vpn va' then e else e' := by
  have hsame := reaches_writePte htree hroot hreach e va'
  unfold entryOf
  cases hf : frameAt (tables s.mem) root [vpn2 va', vpn1 va'] with
  | none =>
    have hnone : frameAt (tables (writePte s.mem (f0 * PAGE_SIZE) (vpn0 va) e)) root
        [vpn2 va', vpn1 va'] = none :=
      eq_none_iff_forall_ne_some.mpr fun f h => by
        rw [(hsame f).mp h] at hf
        cases hf
    rw [hnone]
    rfl
  | some f =>
    rw [(hsame f).mpr hf, map_some, map_some, map_some, some_inj]
    have hpages : vpn va = vpn va' ↔ f = f0 ∧ vpn0 va' = vpn0 va := by
      have hown := own_of_reaches hreach htree hroot
      have hown' := own_of_reaches hf htree hroot
      rw [vpn_eq_iff]
      constructor
      · rintro ⟨h2, h1, h0⟩
        rw [← h2, ← h1] at hf
        exact ⟨some_inj.mp (hf.symm.trans hreach), h0.symm⟩
      · rintro ⟨rfl, h0⟩
        have hpath := (Prod.mk.inj (some_inj.mp (hown.symm.trans hown'))).2
        obtain ⟨h2, h1, -⟩ : vpn2 va = vpn2 va' ∧ vpn1 va = vpn1 va' ∧ True := by simpa using hpath
        exact ⟨h2, h1, h0.symm⟩
    split
    · rename_i hvpn
      obtain ⟨rfl, h0⟩ := hpages.mp hvpn
      rw [h0, readPte_writePte_self]
    · rename_i hvpn
      exact readPte_writePte_of_ne fun h => hvpn (hpages.mpr h)

end

/-- From `m` to `m'` each last-level entry changed by a function of its page, and addresses without
    one are looked up as before. -/
structure EntriesBy (root : Nat) (g : Nat → PTE → PTE) (m m' : Memory) : Prop where
  entry : ∀ va, entryOf m' root va = (entryOf m root va).map (g (vpn va))
  other : ∀ va, entryOf m root va = none →
    lookup (tables m') root (path va) = lookup (tables m) root (path va)

theorem EntriesBy.trans {g g' : Nat → PTE → PTE} {m1 m2 m3 : Memory}
    (h : EntriesBy root g m1 m2) (h' : EntriesBy root g' m2 m3) :
    EntriesBy root (fun v => g' v ∘ g v) m1 m3 where
  entry := fun va => by rw [h'.entry, h.entry, Option.map_map]
  other := fun va hnone => by
    have hnone' : entryOf m2 root va = none := by rw [h.entry, hnone]; rfl
    rw [h'.other va hnone', h.other va hnone]

/-- Without a last-level table there is nothing to change. -/
theorem entriesBy_of_not_reaches (hnone : ∀ f0, ¬ Reaches m root va f0) (k : PTE → PTE) :
    EntriesBy root (fun v e => if vpn va = v then k e else e) m m where
  entry := fun va' => by
    cases hentry : entryOf m root va' with
    | none => rfl
    | some e =>
      have hvpn : vpn va ≠ vpn va' := fun hvpn => by
        obtain ⟨h2, h1, -⟩ := vpn_eq_iff.mp hvpn
        obtain ⟨f, hf, -⟩ := entryOf_eq_some.mp hentry
        rw [Reaches, ← h2, ← h1] at hf
        exact hnone f hf
      rw [map_some, if_neg hvpn]
  other := fun _ _ => rfl

/-- `unmap` and `protect` change the entry of their page, if the walk finds one. -/
theorem commitOp_eq {op : TxOp} (hmap : ∀ va pa flags, op ≠ .map va pa flags) (s : Phys)
    (table : Nat) :
    TxMMU.commitOp table op s = (.ok (), match walkProcessPt s table op.va false with
      | (none, s) => s
      | (some (l0, i), s) =>
          { s with mem := writePte s.mem l0 i (op.newEntry (readPte s.mem l0 i)) }) := by
  cases op with
  | map va pa flags => exact absurd rfl (hmap va pa flags)
  | unmap va => rfl
  | protect va flags => rfl

section

variable (htree : Tree anyEntry s own) (hroot : own root = some (root, []))
include htree hroot

/-- A change of the entry of one page. -/
theorem entriesBy_writePte (hreach : Reaches s.mem root va f0) (k : PTE → PTE) :
    EntriesBy root (fun v e => if vpn va = v then k e else e) s.mem
      (writePte s.mem (f0 * PAGE_SIZE) (vpn0 va)
        (k (readPte s.mem (f0 * PAGE_SIZE) (vpn0 va)))) where
  entry := fun va' => by
    rw [entryOf_writePte htree hroot hreach]
    cases hentry : entryOf s.mem root va' with
    | none => rfl
    | some e =>
      rw [map_some, map_some, some_inj]
      split
      · rename_i hvpn
        obtain ⟨h2, h1, h0⟩ := vpn_eq_iff.mp hvpn
        obtain ⟨f, hf, rfl⟩ := entryOf_eq_some.mp hentry
        rw [Reaches, ← h2, ← h1] at hf
        cases hf.symm.trans hreach
        rw [h0]
      · rfl
  other := fun va' hnone => by
    have heff := (writeLeaf_effect htree hroot trivial hreach
      (e := k (readPte s.mem (f0 * PAGE_SIZE) (vpn0 va)))).1
    refine heff.lookup_other hroot fun hvpn => ?_
    obtain ⟨h2, h1, -⟩ := vpn_eq_iff.mp hvpn
    have hreach' : Reaches s.mem root va' f0 := by
      rw [Reaches, h2, h1]
      exact hreach
    cases hnone.symm.trans (entryOf_eq_some.mpr ⟨f0, hreach', rfl⟩)

/-- A step without `map` keeps the tree and acts on the entry of its page. -/
theorem commitOp_entriesBy (op : TxOp) (hmap : ∀ va pa flags, op ≠ .map va pa flags) :
    ∃ s', TxMMU.commitOp (root * PAGE_SIZE) op s = (.ok (), s') ∧ Tree anyEntry s' own ∧
      EntriesBy root (fun v e => op.onEntry v e) s.mem s'.mem := by
  rw [commitOp_eq hmap]
  rcases walkProcessPt_read s root op.va with ⟨f0, hreach, hwalk⟩ | ⟨hwalk, -⟩
  · rw [hwalk]
    exact ⟨_, rfl, (writeLeaf_effect htree hroot trivial hreach).1.tree,
      entriesBy_writePte htree hroot hreach op.newEntry⟩
  · have hnone (f0 : Nat) (hreach : Reaches s.mem root op.va f0) : False := by
      cases hwalk.symm.trans (walkProcessPt_of_reaches hreach)
    rw [hwalk]
    exact ⟨s, rfl, htree, entriesBy_of_not_reaches hnone op.newEntry⟩

theorem forEach_entriesBy {ops : List TxOp} (hmap : ∀ va pa flags, .map va pa flags ∉ ops) :
    ∃ s', forEach (TxMMU.commitOp (root * PAGE_SIZE)) ops s = (.ok (), s') ∧
      EntriesBy root (fun v e => ops.foldl (TxOp.onEntry v) e) s.mem s'.mem := by
  induction ops generalizing s with
  | nil => exact ⟨s, rfl, ⟨fun va => by simp, fun _ _ => rfl⟩⟩
  | cons op ops ih =>
    obtain ⟨s1, hop, htree1, hstep⟩ := commitOp_entriesBy htree hroot op
      fun va pa flags heq => hmap va pa flags (heq ▸ mem_cons_self)
    obtain ⟨s', hrun, hrest⟩ := ih htree1 fun va pa flags hmem =>
      hmap va pa flags (mem_cons_of_mem op hmem)
    refine ⟨s', ?_, hstep.trans hrest⟩
    rw [forEach, hop]
    exact hrun

end

/-! ### The last operation on a page -/

theorem foldl_onEntry_off {v : Nat} {ops : List TxOp} (h : ∀ op ∈ ops, vpn op.va ≠ v) (e : PTE) :
    ops.foldl (TxOp.onEntry v) e = e := by
  induction ops generalizing e with
  | nil => rfl
  | cons op ops ih =>
    have hop : op.onEntry v e = e := if_neg (h op mem_cons_self)
    rw [foldl_cons, hop]
    exact ih (fun op' hmem => h op' (mem_cons_of_mem op hmem)) e

theorem ppn_empty : PTE.empty.ppn = 0 := by
  decide

/-- `protect` keeps the frame of an entry, and `unmap` clears it. -/
theorem ppn_onEntry (v : Nat) (e : PTE) (op : TxOp) : (op.onEntry v e).ppn = e.ppn ∨
    ((op.onEntry v e).ppn = 0 ∧ ∃ va, op = .unmap va ∧ vpn va = v) := by
  unfold TxOp.onEntry
  split
  · cases op with
    | map va pa flags => exact .inl rfl
    | unmap va => exact .inr ⟨ppn_empty, va, rfl, ‹_›⟩
    | protect va flags => exact .inl (PTE.ppn_setFlags _ _ _ _ _)
  · exact .inl rfl

theorem ppn_foldl_of_no_unmap {v : Nat} {ops : List TxOp} (e : PTE)
    (h : ∀ va, .unmap va ∈ ops → vpn va ≠ v) : (ops.foldl (TxOp.onEntry v) e).ppn = e.ppn := by
  refine foldlRecOn (motive := fun e' : PTE => e'.ppn = e.ppn) ops _ rfl fun e' he' op hop => ?_
  rcases ppn_onEntry v e' op with hsame | ⟨-, va, rfl, hva⟩
  · exact hsame.trans he'
  · exact absurd hva (h va hop)

theorem ppn_foldl_of_unmap {v va : Nat} {ops : List TxOp} (e : PTE) (hmem : .unmap va ∈ ops)
    (hva : vpn va = v) : (ops.foldl (TxOp.onEntry v) e).ppn = 0 := by
  obtain ⟨before, after, rfl⟩ := append_of_mem hmem
  rw [foldl_append, foldl_cons]
  refine foldlRecOn (motive := fun e' : PTE => e'.ppn = 0) after _ ?_ fun e' he' op _ => ?_
  · have hop : vpn (TxOp.unmap va).va = v := hva
    rw [TxOp.onEntry, if_pos hop]
    exact ppn_empty
  · rcases ppn_onEntry v e' op with hsame | ⟨hzero, -⟩
    · exact hsame.trans he'
    · exact hzero

/-- No operations on the page, or a last one. -/
theorem exists_last_onEntry (v : Nat) (ops : List TxOp) :
    (∀ op ∈ ops, vpn op.va ≠ v) ∨
      ∃ before op after, ops = before ++ op :: after ∧ vpn op.va = v ∧
        ∀ op' ∈ after, vpn op'.va ≠ v := by
  induction ops with
  | nil => exact .inl (by simp)
  | cons op ops ih =>
    rcases ih with hnone | ⟨before, last, after, rfl, hlast, hafter⟩
    · by_cases hop : vpn op.va = v
      · exact .inr ⟨[], op, ops, rfl, hop, hnone⟩
      · exact .inl (forall_mem_cons.mpr ⟨hop, hnone⟩)
    · exact .inr ⟨op :: before, last, after, rfl, hlast, hafter⟩

/-- A `protect` that is the last operation on its page and gives R, W or X finds, if there is a
    last-level table, a leaf there before the commit; and no `unmap` of the page comes before it,
    unless the leaf leads to frame 0. -/
def Harmless (root : Nat) (m : Memory) (ops : List TxOp) : Prop :=
  ∀ before va flags after, ops = before ++ .protect va flags :: after → HasRwx flags →
    (∀ op ∈ after, vpn op.va ≠ vpn va) → ∀ e, entryOf m root va = some e →
      e.isLeaf = true ∧ (e.ppn = 0 ∨ ∀ va', .unmap va' ∈ before → vpn va' ≠ vpn va)

theorem translate_of_entryOf {e : PTE} (h : entryOf m root va = some e) :
    translate m (root * PAGE_SIZE) va =
      if e.isLeaf then some (e.translation PAGE_SIZE va) else none := by
  obtain ⟨f0, hreach, rfl⟩ := entryOf_eq_some.mp h
  rw [translate_eq_lookup, lookup_of_reaches hreach, lookup_last]
  split
  · rfl
  · rfl

/-- No page maps that did not before, entry by entry. -/
theorem EntriesBy.createsNothing_iff {m' : Memory} {g : Nat → PTE → PTE}
    (h : EntriesBy root g m m') : CreatesNothing root m m' ↔
      ∀ va e, entryOf m root va = some e → (g (vpn va) e).isLeaf = true →
        e.isLeaf = true ∧ (g (vpn va) e).ppn = e.ppn := by
  have hafter {va : Nat} {e : PTE} (he : entryOf m root va = some e) :
      translate m' (root * PAGE_SIZE) va = if (g (vpn va) e).isLeaf then
        some ((g (vpn va) e).translation PAGE_SIZE va) else none :=
    translate_of_entryOf (by rw [h.entry, he]; rfl)
  constructor
  · intro hnothing va e he hleaf
    obtain ⟨t, ht, hpa⟩ := hnothing va _ ((hafter he).trans (if_pos hleaf))
    rw [translate_of_entryOf he] at ht
    split at ht
    · rename_i hbefore
      cases ht
      refine ⟨hbefore, ?_⟩
      simp only [PTE.translation, physAddr_eq, Nat.add_right_cancel_iff] at hpa
      exact (Nat.eq_of_mul_eq_mul_right (by decide) hpa).symm
    · cases ht
  · intro hentries va t' ht'
    cases he : entryOf m root va with
    | none =>
      rw [translate_eq_lookup, h.other va he, ← translate_eq_lookup] at ht'
      exact ⟨t', ht', rfl⟩
    | some e =>
      rw [hafter he] at ht'
      split at ht'
      · rename_i hleaf
        cases ht'
        obtain ⟨hbefore, hppn⟩ := hentries va e he hleaf
        refine ⟨_, (translate_of_entryOf he).trans (if_pos hbefore), ?_⟩
        simp [PTE.translation, physAddr_eq, hppn]
      · cases ht'

theorem entryOf_congr (h : vpn va = vpn va') : entryOf m root va = entryOf m root va' := by
  obtain ⟨h2, h1, h0⟩ := vpn_eq_iff.mp h
  rw [entryOf, entryOf, h2, h1, h0]

/-- The last operation on a page decides about its entry. -/
theorem harmless_iff {ops : List TxOp} (hmap : ∀ va pa flags, .map va pa flags ∉ ops) :
    Harmless root m ops ↔ ∀ va e, entryOf m root va = some e →
      (ops.foldl (TxOp.onEntry (vpn va)) e).isLeaf = true →
        e.isLeaf = true ∧ (ops.foldl (TxOp.onEntry (vpn va)) e).ppn = e.ppn := by
  constructor
  · intro h va e he hleaf
    rcases exists_last_onEntry (vpn va) ops with hnone | ⟨before, op, after, rfl, hop, hafter⟩
    · rw [foldl_onEntry_off hnone] at hleaf ⊢
      exact ⟨hleaf, rfl⟩
    rw [foldl_append, foldl_cons, foldl_onEntry_off hafter, TxOp.onEntry, if_pos hop] at hleaf ⊢
    cases op with
    | map va' pa flags => exact absurd (by simp) (hmap va' pa flags)
    | unmap va' => exact absurd (show PTE.empty.isLeaf = true from hleaf) (by decide)
    | protect va' flags =>
      rw [TxOp.newEntry, PTE.isLeaf_setFlags] at hleaf
      rw [TxOp.newEntry, PTE.ppn_setFlags]
      have hlast : ∀ op ∈ after, vpn op.va ≠ vpn va' := fun op hmem heq =>
        hafter op hmem (heq.trans hop)
      obtain ⟨hbefore, hframe⟩ :=
        h before va' flags after rfl hleaf hlast e ((entryOf_congr hop).trans he)
      refine ⟨hbefore, ?_⟩
      by_cases hunmap : ∃ va₁, .unmap va₁ ∈ before ∧ vpn va₁ = vpn va
      · obtain ⟨va₁, hmem, hva₁⟩ := hunmap
        rw [ppn_foldl_of_unmap e hmem hva₁]
        exact (hframe.resolve_right fun hno => hno va₁ hmem (hva₁.trans hop.symm)).symm
      · exact ppn_foldl_of_no_unmap e fun va₁ hmem heq => hunmap ⟨va₁, hmem, heq⟩
  · rintro h before va flags after rfl hrwx hafter e he
    have hentry := h va e he
    have hop : vpn (TxOp.protect va flags).va = vpn va := rfl
    rw [foldl_append, foldl_cons, foldl_onEntry_off hafter, TxOp.onEntry, if_pos hop,
      TxOp.newEntry, PTE.isLeaf_setFlags, PTE.ppn_setFlags] at hentry
    obtain ⟨hleaf, hppn⟩ := hentry hrwx
    refine ⟨hleaf, or_iff_not_imp_right.mpr fun hunmap => ?_⟩
    obtain ⟨va', hmem, hva'⟩ : ∃ va', .unmap va' ∈ before ∧ vpn va' = vpn va := by
      simpa using hunmap
    rw [← hppn, ppn_foldl_of_unmap e hmem hva']

/-- **`unmap` and `protect` create no mapping**, that is, every address that translates after the
    commit did so before, to the same physical address, exactly if the transaction is closed or
    harmless. -/
theorem commit_createsNothing_iff {tx : TxMMU} (htree : Tree anyEntry s own)
    (hroot : own root = some (root, [])) (hphys : tx.rootPhys = root * PAGE_SIZE)
    (hmap : ∀ va pa flags, .map va pa flags ∉ tx.pendingOps.entries) :
    CreatesNothing root s.mem (tx.commit s).2.2.mem ↔
      (tx.inTx = true → Harmless root s.mem tx.pendingOps.entries) := by
  obtain ⟨s', hrun, hentries⟩ := forEach_entriesBy htree hroot hmap
  unfold TxMMU.commit
  rw [hphys, hrun]
  cases htx : tx.inTx with
  | false => exact iff_of_true (.refl _) (fun h => nomatch h)
  | true => exact (hentries.createsNothing_iff.trans (harmless_iff hmap).symm).trans (by simp)

def protectOnly : TxMMU := ((TxMMU.begin 0x1000).protect 0x6000 0b1011).2

/-- A transaction that takes R, W and X from a page and gives them back. -/
def protectTwice : TxMMU := (((TxMMU.begin 0x1000).protect 0x5000 0b1000).2.protect 0x5000 0b1011).2

theorem commit_createsNothing_twice : ∃ s, translate s.mem 0x1000 0x5000 =
      some ⟨0x7000, true, true, false, true⟩ ∧
    CreatesNothing 1 s.mem (protectTwice.commit s).2.2.mem := by
  obtain ⟨own, htable⟩ := heapKernel_tableOf
  rcases hrun : TxMMU.commitMap 0x1000 0x5000 0x7000 0b1011 heapKernel.phys with ⟨res, s⟩
  obtain ⟨own', heff, -⟩ := mapWith_effect htable.tree htable.root_own hrun
  have hmapped : translate s.mem 0x1000 0x5000 = some ⟨0x7000, true, true, false, true⟩ := by
    obtain rfl : (TxMMU.commitMap 0x1000 0x5000 0x7000 0b1011 heapKernel.phys).2 = s := by rw [hrun]
    decide +kernel
  have hroot := heff.keep _ _ htable.root_own
  have hops : protectTwice.pendingOps.entries =
      [.protect 0x5000 0b1000, .protect 0x5000 0b1011] := by decide
  have hmap (va pa : Nat) (flags : BitVec 8) :
      .map va pa flags ∉ protectTwice.pendingOps.entries := by
    simp [hops]
  refine ⟨s, hmapped, (commit_createsNothing_iff heff.tree hroot rfl hmap).mpr fun _ => ?_⟩
  intro before va flags after heq hrwx hafter e he
  have hmem : ∀ op ∈ before ++ .protect va flags :: after, ∃ flags, op = .protect 0x5000 flags := by
    rw [← heq, hops]
    simp
  obtain ⟨_, hva⟩ := hmem (.protect va flags) (by simp)
  cases hva
  have htranslate := translate_of_entryOf he
  refine ⟨?_, .inr fun va' hunmap => ?_⟩
  · by_contra hleaf
    rw [if_neg hleaf] at htranslate
    cases hmapped.symm.trans htranslate
  · obtain ⟨_, heq'⟩ := hmem (.unmap va') (mem_append_left _ hunmap)
    cases heq'

/-- The page before has a last-level table: `protect` maps the address to frame 0. -/
theorem protect_maps_frame_zero : ∃ s own, Tree anyEntry s own ∧ own 1 = some (1, []) ∧
      translate s.mem 0x1000 0x6000 = none ∧
      translate (protectOnly.commit s).2.2.mem 0x1000 0x6000 =
        some ⟨0, true, true, false, true⟩ := by
  obtain ⟨own, htable⟩ := heapKernel_tableOf
  rcases hrun : TxMMU.commitMap 0x1000 0x5000 0x7000 0b1011 heapKernel.phys with ⟨res, s⟩
  obtain ⟨own', heff, -⟩ := mapWith_effect htable.tree htable.root_own hrun
  refine ⟨s, own', heff.tree, heff.keep _ _ htable.root_own, ?_⟩
  obtain rfl : (TxMMU.commitMap 0x1000 0x5000 0x7000 0b1011 heapKernel.phys).2 = s := by rw [hrun]
  decide +kernel

end TrainOS.Sv39
