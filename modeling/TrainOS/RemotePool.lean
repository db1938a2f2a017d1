import Mathlib.Data.List.Nodup
import TrainOS.RemoteMemory
import TrainOS.Runs

/-!
# The pool of remote memory adds up

The entries in use are the blocks that were granted and not given back (`Inv`); the pages of a
node are its available ones and those in its table.  A call keeps this up unless it takes pages
without an entry for them, or gives back something else than a single granted page
(`remote_pool_iff`).
-/

namespace TrainOS.RemoteMemory

open List Runs

/-! ### What the calls promise -/

def initialPages (localPages : Option Nat) (nodeId : UInt8) : Nat :=
  if nodeId = 0 then localPages.getD 4096 else 4096

def Conserved (initial : UInt8 → Nat) (pools : List NodeMemoryPool) : Prop :=
  ∀ p ∈ pools, p.availablePages + p.usedPages = initial p.nodeId

/-- What a call has to do: the pages add up afterwards, a failed call changes nothing, a block is
    given back as it was allocated for the handle, and only blocks that are handed out are freed. -/
structure Upholds (initial : UInt8 → Nat) (s : System) (handle? : Option UInt64)
    (out : Bool × List Freed × System) : Prop where
  conserved : Conserved initial out.2.2.pools
  failed : out.1 = false → out.2.2.pools = s.pools ∧ out.2.2.blocks = s.blocks
  returned : ∀ handle, handle? = some handle → out.1 = true →
    ∃ b, (handle, b) ∈ s.granted ∧ out.2.1 = [(b, true)]
  held : ∀ f ∈ out.2.1, f.2 = true

/-- The allocation finds memory, and a pool of the node that has the pages and a table of a
    length as asked. -/
def Finds (s : System) (nodeId : UInt8) (numPages : Nat) (answer : Option Nat)
    (Q : Nat → Prop) : Prop :=
  0 < numPages ∧ numPages ≤ 16 ∧ (buddyAlloc s (pagesToOrder numPages) answer).isSome ∧
    ∃ p ∈ s.pools, p.nodeId = nodeId ∧ 2 ^ pagesToOrder numPages ≤ p.availablePages ∧
      Q p.pages.length

instance (s : System) (nodeId : UInt8) (numPages : Nat) (answer : Option Nat) (Q : Nat → Prop)
    [DecidablePred Q] : Decidable (Finds s nodeId numPages answer Q) :=
  inferInstanceAs (Decidable (_ ∧ _))

/-- The allocation finds memory but no entry in the table of its node. -/
def TableFull (s : System) (nodeId : UInt8) (numPages : Nat) (answer : Option Nat) : Prop :=
  Finds s nodeId numPages answer (MAX_REMOTE_PAGES ≤ ·)

instance (s : System) (nodeId : UInt8) (numPages : Nat) (answer : Option Nat) :
    Decidable (TableFull s nodeId numPages answer) :=
  inferInstanceAs (Decidable (Finds _ _ _ _ (MAX_REMOTE_PAGES ≤ ·)))

/-- The allocation finds memory and an entry. -/
def TableRoom (s : System) (nodeId : UInt8) (numPages : Nat) (answer : Option Nat) : Prop :=
  Finds s nodeId numPages answer (· < MAX_REMOTE_PAGES)

/-- The calls that do so: the table has room, and what is given back is a single page that was
    allocated for the handle. -/
def Allowed (s : System) : Call → Prop
  | .register _ => True
  | .alloc nodeId numPages answer => ¬ TableFull s nodeId numPages answer
  | .free handle => ∀ b, (handle, b) ∈ s.granted → b.2 = 0
  | .migrate phys fromNode toNode answer =>
      phys ≠ 0 → phys % PAGE_SIZE = 0 → fromNode ≠ toNode →
        ¬ TableFull s toNode 1 answer ∧
          (TableRoom s toNode 1 answer → (encodeHandle fromNode phys, phys, 0) ∈ s.granted)

/-! ### The tables -/

section Tables

variable {e : RemotePageMeta} {handle : UInt64} {size : Nat} {pages pages' : List RemotePageMeta}
  {nodeId : UInt8}
  {pools : List NodeMemoryPool} {op : NodeMemoryPool → Bool × NodeMemoryPool}

theorem entriesInUse_cons_of_pos (huse : e.inUse) :
    entriesInUse (e :: pages) = (e.handle, e.size) :: entriesInUse pages := by
  simp [entriesInUse, huse]

theorem entriesInUse_cons_of_neg (huse : ¬ e.inUse) :
    entriesInUse (e :: pages) = entriesInUse pages := by
  simp [entriesInUse, huse]

theorem releaseEntry_cases (handle : UInt64) (pages : List RemotePageMeta) :
    (releaseEntry handle pages = none ∧ ∀ g ∈ entriesInUse pages, g.1 ≠ handle) ∨
    ∃ size pages', releaseEntry handle pages = some (size, pages') ∧
      (entriesInUse pages).Perm ((handle, size) :: entriesInUse pages') := by
  induction pages with
  | nil => exact .inl ⟨rfl, by simp [entriesInUse]⟩
  | cons e pages ih =>
    rw [releaseEntry]
    by_cases hfound : e.handle = handle ∧ e.inUse
    · obtain ⟨rfl, huse⟩ := hfound
      refine .inr ⟨e.size, _, if_pos ⟨rfl, huse⟩, ?_⟩
      rw [entriesInUse_cons_of_pos huse, entriesInUse_cons_of_neg (by simp)]
    · rw [if_neg hfound]
      rcases ih with ⟨hnone, hother⟩ | ⟨size, pages', hsome, hperm⟩
      · refine .inl ⟨by rw [hnone]; rfl, ?_⟩
        by_cases huse : e.inUse
        · rw [entriesInUse_cons_of_pos huse]
          exact forall_mem_cons.mpr ⟨fun hsame => hfound ⟨hsame, huse⟩, hother⟩
        · rwa [entriesInUse_cons_of_neg huse]
      · refine .inr ⟨size, e :: pages', by rw [hsome]; rfl, ?_⟩
        by_cases huse : e.inUse
        · rw [entriesInUse_cons_of_pos huse, entriesInUse_cons_of_pos huse]
          exact (hperm.cons _).trans (List.Perm.swap _ _ _)
        · rwa [entriesInUse_cons_of_neg huse, entriesInUse_cons_of_neg huse]

theorem withPool_cases (nodeId : UInt8) (op : NodeMemoryPool → Bool × NodeMemoryPool)
    (pools : List NodeMemoryPool) :
    ((∀ p ∈ pools, p.nodeId ≠ nodeId) ∧ withPool nodeId op pools = (false, pools)) ∨
    ∃ front p back, pools = front ++ p :: back ∧ p.nodeId = nodeId ∧
      withPool nodeId op pools = ((op p).1, front ++ (op p).2 :: back) := by
  induction pools with
  | nil => exact .inl ⟨(by simp), rfl⟩
  | cons q pools ih =>
    rw [withPool]
    by_cases hq : q.nodeId = nodeId
    · exact .inr ⟨[], q, pools, rfl, hq, by rw [if_pos hq]; rfl⟩
    · rcases ih with ⟨hnone, heq⟩ | ⟨front, p, back, rfl, hp, heq⟩
      · exact .inl ⟨forall_mem_cons.mpr ⟨hq, hnone⟩, by rw [if_neg hq, heq]⟩
      · exact .inr ⟨q :: front, p, back, rfl, hp, by rw [if_neg hq, heq]; rfl⟩

end Tables

/-! ### The invariant -/

def entryOf (g : UInt64 × Block) : UInt64 × Nat := (g.1, 2 ^ g.2.2)

def tableEntries (pools : List NodeMemoryPool) : List (UInt64 × Nat) :=
  pools.flatMap fun p => entriesInUse p.pages

/-- No node has two pools, and a node without one will start with the pages of a new pool. -/
structure Registry (initial : UInt8 → Nat) (nodes : List UInt8) : Prop where
  nodup : nodes.Nodup
  unregistered : ∀ nodeId, nodeId ∉ nodes → initial nodeId = 4096

/-- The entries in use are the grants, each in the pool of its node; every granted block is handed
    out, no two of them at the same address. -/
structure Inv (initial : UInt8 → Nat) (s : System) : Prop where
  conserved : Conserved initial s.pools
  nodes : Registry initial (s.pools.map (·.nodeId))
  placed : ∀ p ∈ s.pools, ∀ g ∈ entriesInUse p.pages, handleNode g.1 = p.nodeId
  tracked : (tableEntries s.pools).Perm (s.granted.map entryOf)
  blocks : ∀ g ∈ s.granted, g.2 ∈ s.blocks ∧ handlePhys g.1 = g.2.1
  addresses : (s.granted.map fun g => g.2.1).Nodup

variable {initial : UInt8 → Nat} {s : System} {handle : UInt64} {b : Block} {nodeId : UInt8}
  {p p' : NodeMemoryPool} {front back : List NodeMemoryPool} {order phys : Nat}

theorem tableEntries_append_cons (front back : List NodeMemoryPool) (p : NodeMemoryPool) :
    (tableEntries (front ++ p :: back)).Perm
      (entriesInUse p.pages ++ tableEntries (front ++ back)) := by
  unfold tableEntries
  rw [flatMap_append, flatMap_cons, flatMap_append]
  exact perm_append_comm_assoc _ _ _

theorem registry_update (hnodes : Registry initial ((front ++ p :: back).map (·.nodeId)))
    (hid : p'.nodeId = p.nodeId) : Registry initial ((front ++ p' :: back).map (·.nodeId)) := by
  rw [map_append, map_cons] at hnodes ⊢
  rwa [hid]

theorem forall_mem_update {P : NodeMemoryPool → Prop}
    (hall : ∀ q ∈ front ++ p :: back, P q) (hp' : P p') : ∀ q ∈ front ++ p' :: back, P q := by
  rw [forall_mem_append, forall_mem_cons] at hall ⊢
  exact ⟨hall.1, hp', hall.2.2⟩

section

variable (hinv : Inv initial s)
include hinv

theorem Inv.grant_unique {b' : Block} (hb : (handle, b) ∈ s.granted)
    (hb' : (handle, b') ∈ s.granted) : b = b' := by
  have hsame : b.1 = b'.1 := (hinv.blocks _ hb).2.symm.trans (hinv.blocks _ hb').2
  have := inj_on_of_nodup_map hinv.addresses hb hb' hsame
  exact (Prod.mk.inj this).2

theorem Inv.pool_unique {q : NodeMemoryPool} (hp : p ∈ s.pools)
    (hq : q ∈ s.pools) (hsame : p.nodeId = q.nodeId) : p = q :=
  inj_on_of_nodup_map hinv.nodes.nodup hp hq hsame

theorem Inv.perm_filter (hb : (handle, b) ∈ s.granted) :
    s.granted.Perm ((handle, b) :: s.granted.filter (·.1 ≠ handle)) := by
  have hnodup : s.granted.Nodup := hinv.addresses.of_map
  have herase : s.granted.erase (handle, b) = s.granted.filter (·.1 ≠ handle) := by
    rw [hnodup.erase_eq_filter]
    refine filter_congr fun g hg => ?_
    by_cases hsame : g.1 = handle
    · have : g = (handle, b) := by
        obtain ⟨h, b'⟩ := g
        obtain rfl : h = handle := hsame
        rw [hinv.grant_unique hb hg]
      simp [this]
    · have : g ≠ (handle, b) := fun heq => hsame (congrArg Prod.fst heq)
      simp [this, hsame]
  rw [← herase]
  exact perm_cons_erase hb

theorem Inv.release_none (hnone : ∀ b, (handle, b) ∉ s.granted) :
    releaseRemotePage s.pools handle = (false, s.pools) := by
  unfold releaseRemotePage
  rcases withPool_cases (handleNode handle) (·.releasePage handle) s.pools with ⟨-, heq⟩ |
    ⟨front, p, back, hpools, -, heq⟩
  · exact heq
  · rw [heq, NodeMemoryPool.releasePage]
    rcases releaseEntry_cases handle p.pages with ⟨hrelease, -⟩ | ⟨size, pages, -, hperm⟩
    · rw [hrelease, ← hpools]
    · have hentry : (handle, size) ∈ tableEntries s.pools :=
        mem_flatMap.mpr ⟨p, hpools ▸ mem_append_cons_self, hperm.symm.subset mem_cons_self⟩
      obtain ⟨⟨h, b⟩, hg, heq⟩ := mem_map.mp (hinv.tracked.subset hentry)
      obtain rfl : h = handle := congrArg Prod.fst heq
      exact (hnone b hg).elim

end

/-- A granted handle is found and its pages come back. -/
theorem Inv.release (hinv : Inv initial s) (hb : (handle, b) ∈ s.granted) :
    ∃ pools, releaseRemotePage s.pools handle = (true, pools) ∧
      Inv initial ⟨pools, s.blocks.erase b, s.granted.filter (·.1 ≠ handle)⟩ := by
  have hlisted : (handle, 2 ^ b.2) ∈ tableEntries s.pools :=
    hinv.tracked.symm.subset (mem_map_of_mem (f := entryOf) hb)
  obtain ⟨q, hq, hentry⟩ := mem_flatMap.mp hlisted
  have hnode : q.nodeId = handleNode handle := (hinv.placed q hq _ hentry).symm
  rcases withPool_cases (handleNode handle) (·.releasePage handle) s.pools with ⟨hno, -⟩ |
    ⟨front, p, back, hpools, hp, heq⟩
  · exact (hno q hq hnode).elim
  · have hmem : p ∈ s.pools := hpools ▸ mem_append_cons_self
    obtain rfl := hinv.pool_unique hq hmem (hnode.trans hp.symm)
    rcases releaseEntry_cases handle q.pages with ⟨-, hother⟩ | ⟨size, pages, hrelease, hperm⟩
    · exact (hother _ hentry rfl).elim
    · have htable : (tableEntries s.pools).Perm ((handle, size) :: tableEntries
          (front ++ { q with pages, availablePages := q.availablePages + size } :: back)) := by
        have hnew := tableEntries_append_cons front back
          { q with pages, availablePages := q.availablePages + size }
        rw [hpools]
        refine (tableEntries_append_cons front back q).trans ?_
        exact (hperm.append_right _).trans (hnew.symm.cons _)
      -- the entry is the one of the grant, so the sizes agree
      have hsize : size = 2 ^ b.2 := by
        obtain ⟨⟨h, b'⟩, hg, heq⟩ := mem_map.mp
          (hinv.tracked.subset (htable.symm.subset mem_cons_self))
        cases heq
        rw [hinv.grant_unique hb hg]
      have hused : q.usedPages = size + ((entriesInUse pages).map Prod.snd).sum := by
        rw [NodeMemoryPool.usedPages, (hperm.map Prod.snd).sum_nat]
        rfl
      rw [NodeMemoryPool.releasePage, hrelease] at heq
      refine ⟨_, heq, ?_, ?_, ?_, ?_, ?_, ?_⟩
      · refine forall_mem_update (hpools ▸ hinv.conserved) ?_
        have hq := hinv.conserved q hmem
        show q.availablePages + size + ((entriesInUse pages).map Prod.snd).sum = initial q.nodeId
        omega
      · have hnodes := hinv.nodes
        rw [hpools] at hnodes
        exact registry_update hnodes rfl
      · refine forall_mem_update (hpools ▸ hinv.placed) fun g hg => ?_
        exact hinv.placed q hmem g (hperm.symm.subset (mem_cons_of_mem _ hg))
      · have hgrants := (hinv.perm_filter hb).map entryOf
        rw [map_cons, entryOf, ← hsize] at hgrants
        exact (htable.symm.trans (hinv.tracked.trans hgrants)).cons_inv
      · intro g hg
        obtain ⟨hg, hother⟩ := mem_filter.mp hg
        refine ⟨(mem_erase_of_ne fun heq => ?_).mpr (hinv.blocks g hg).1, (hinv.blocks g hg).2⟩
        have hsame := inj_on_of_nodup_map hinv.addresses hg hb (congrArg Prod.fst heq)
        rw [hsame] at hother
        simp at hother
      · exact hinv.addresses.sublist (filter_sublist.map _)

/-! ### Allocation -/

theorem Fresh.address_ne {blocks : List Block} (hfresh : Fresh blocks phys order)
    (hb : b ∈ blocks) : b.1 ≠ phys := by
  have hsize : 0 < 2 ^ order * PAGE_SIZE := Nat.mul_pos (Nat.two_pow_pos _) (by decide)
  have hsize' : 0 < 2 ^ b.2 * PAGE_SIZE := Nat.mul_pos (Nat.two_pow_pos _) (by decide)
  have := hfresh.2.2.2 b hb
  omega

/-- A fresh block is tracked by a pool that has the pages. -/
theorem Inv.grant (hinv : Inv initial s) (hpools : s.pools = front ++ p :: back)
    (hp : p.nodeId = nodeId) (havail : 2 ^ order ≤ p.availablePages)
    (hfresh : Fresh s.blocks phys order) : Inv initial ⟨front ++ { p with
        availablePages := p.availablePages - 2 ^ order
        pages := p.pages ++ [⟨encodeHandle nodeId phys, 2 ^ order, true⟩] } :: back,
      (phys, order) :: s.blocks, (encodeHandle nodeId phys, phys, order) :: s.granted⟩ := by
  have hmem : p ∈ s.pools := hpools ▸ mem_append_cons_self
  have hentries : entriesInUse (p.pages ++ [⟨encodeHandle nodeId phys, 2 ^ order, true⟩]) =
      entriesInUse p.pages ++ [(encodeHandle nodeId phys, 2 ^ order)] := by
    simp [entriesInUse]
  have hphys : handlePhys (encodeHandle nodeId phys) = phys := by
    have hsize : 0 < 2 ^ order * PAGE_SIZE := Nat.mul_pos (Nat.two_pow_pos _) (by decide)
    have hend := hfresh.2.2.1
    exact handlePhys_encodeHandle nodeId hfresh.1 (by omega)
  refine ⟨?_, ?_, ?_, ?_, ?_, ?_⟩
  · refine forall_mem_update (hpools ▸ hinv.conserved) ?_
    have hold := hinv.conserved p hmem
    have hused : ((entriesInUse (p.pages ++ [⟨encodeHandle nodeId phys, 2 ^ order, true⟩])).map
        Prod.snd).sum = p.usedPages + 2 ^ order := by
      rw [hentries, map_append, sum_append]
      rfl
    show p.availablePages - 2 ^ order + _ = initial p.nodeId
    rw [NodeMemoryPool.usedPages, hused]
    omega
  · have hnodes := hinv.nodes
    rw [hpools] at hnodes
    exact registry_update hnodes rfl
  · refine forall_mem_update (hpools ▸ hinv.placed) fun g hg => ?_
    rw [hentries] at hg
    rcases mem_append.mp hg with hg | hg
    · exact hinv.placed p hmem g hg
    · rw [mem_singleton.mp hg, handleNode_encodeHandle]
      exact hp.symm
  · have hold := tableEntries_append_cons front back p
    have hnew := tableEntries_append_cons front back { p with
      availablePages := p.availablePages - 2 ^ order
      pages := p.pages ++ [⟨encodeHandle nodeId phys, 2 ^ order, true⟩] }
    have htracked := hinv.tracked
    rw [hpools] at htracked
    rw [hentries] at hnew
    refine hnew.trans ?_
    rw [append_assoc]
    refine perm_middle.trans ?_
    exact (hold.symm.trans htracked).cons _
  · refine forall_mem_cons.mpr ⟨⟨mem_cons_self, hphys⟩, fun g hg => ?_⟩
    exact (hinv.blocks g hg).imp_left (mem_cons_of_mem _)
  · refine nodup_cons.mpr ⟨fun hmem => ?_, hinv.addresses⟩
    obtain ⟨g, hg, hsame⟩ := mem_map.mp hmem
    exact hfresh.address_ne (hinv.blocks g hg).1 hsame

theorem Inv.not_tableFull (hinv : Inv initial s) {numPages : Nat} {answer : Option Nat}
    (hroom : TableRoom s nodeId numPages answer) : ¬ TableFull s nodeId numPages answer := by
  obtain ⟨-, -, -, p, hp, hnode, -, hlt⟩ := hroom
  rintro ⟨-, -, -, q, hq, hqnode, -, hfull⟩
  obtain rfl := hinv.pool_unique hp hq (hnode.trans hqnode.symm)
  exact Nat.not_le_of_lt hlt hfull

/-- An allocation fails, loses pages of a full table, or succeeds. -/
theorem Inv.alloc_cases (hinv : Inv initial s) (nodeId : UInt8) (numPages : Nat)
    (answer : Option Nat) :
    ((∀ Q, ¬ Finds s nodeId numPages answer Q) ∧ ∃ freed : List Freed, (∀ f ∈ freed, f.2 = true) ∧
      remoteAllocPages s nodeId numPages answer = (none, freed, s)) ∨
    (TableFull s nodeId numPages answer ∧ ∃ freed pools, ¬ Conserved initial pools ∧
      remoteAllocPages s nodeId numPages answer = (none, freed, { s with pools })) ∨
    (TableRoom s nodeId numPages answer ∧ ∃ phys s', Inv initial s' ∧
      s'.granted = (encodeHandle nodeId phys, phys, pagesToOrder numPages) :: s.granted ∧
      remoteAllocPages s nodeId numPages answer = (some phys, [], s')) := by
  by_cases hcount : numPages = 0 ∨ numPages > 16
  · refine .inl ⟨fun Q hfinds => ?_, [], by simp, by rw [remoteAllocPages, if_pos hcount]⟩
    obtain ⟨hpos, hle, -⟩ := hfinds
    omega
  · rw [remoteAllocPages, if_neg hcount]
    dsimp only
    cases halloc : buddyAlloc s (pagesToOrder numPages) answer with
    | none =>
      refine .inl ⟨fun Q hfinds => ?_, [], by simp, rfl⟩
      have hsome := hfinds.2.2.1
      rw [halloc] at hsome
      cases hsome
    | some phys =>
      have hfresh : Fresh s.blocks phys (pagesToOrder numPages) :=
        of_decide_eq_true (Option.filter_eq_some_iff.mp halloc).2
      have hfound : ∀ {Q p}, p ∈ s.pools → p.nodeId = nodeId →
          2 ^ pagesToOrder numPages ≤ p.availablePages → Q p.pages.length →
          Finds s nodeId numPages answer Q := fun hp hnode havail hQ =>
        ⟨by omega, by omega, by rw [halloc]; rfl, _, hp, hnode, havail, hQ⟩
      dsimp only
      unfold trackRemotePage
      rcases withPool_cases nodeId (fun p => if p.availablePages ≥ 2 ^ pagesToOrder numPages then
          { p with availablePages := p.availablePages - 2 ^ pagesToOrder numPages }.trackPage
            (encodeHandle nodeId phys) (2 ^ pagesToOrder numPages)
        else (false, p)) s.pools with ⟨hno, heq⟩ | ⟨front, p, back, hpools, hp, heq⟩ <;> rw [heq]
      · refine .inl ⟨?_, [((phys, pagesToOrder numPages), true)], by simp, by simp [buddyFree]⟩
        rintro Q ⟨-, -, -, q, hq, hqnode, -⟩
        exact hno q hq hqnode
      have hmem : p ∈ s.pools := hpools ▸ mem_append_cons_self
      by_cases havail : p.availablePages ≥ 2 ^ pagesToOrder numPages
      · rw [if_pos havail, NodeMemoryPool.trackPage]
        rcases Nat.lt_or_ge p.pages.length MAX_REMOTE_PAGES with hroom | hfull
        · rw [if_neg (Nat.not_le_of_lt hroom)]
          exact .inr (.inr ⟨hfound hmem hp havail hroom, phys, _,
            hinv.grant hpools hp havail hfresh, rfl, rfl⟩)
        · rw [if_pos hfull]
          refine .inr (.inl ⟨hfound hmem hp havail hfull,
            [((phys, pagesToOrder numPages), true)], front ++
            { p with availablePages := p.availablePages - 2 ^ pagesToOrder numPages } :: back,
            fun hconserved => ?_, by simp [buddyFree]⟩)
          have hold := hinv.conserved p hmem
          have hnew : p.availablePages - 2 ^ pagesToOrder numPages + p.usedPages =
              initial p.nodeId := hconserved _ mem_append_cons_self
          have hsize := Nat.two_pow_pos (pagesToOrder numPages)
          omega
      · rw [if_neg havail, ← hpools]
        refine .inl ⟨?_, [((phys, pagesToOrder numPages), true)], by simp, by simp [buddyFree]⟩
        -- no other pool has the number of the node
        rintro Q ⟨-, -, -, q, hq, hqnode, hqavail, -⟩
        obtain rfl := hinv.pool_unique hmem hq (hp.trans hqnode.symm)
        exact havail hqavail

/-! ### The calls -/

/-- The call does what it has to exactly when it is allowed, and then keeps the invariant. -/
def Settled (initial : UInt8 → Nat) (s : System) (c : Call) : Prop :=
  (Upholds initial s c.handle? (c.exec s) ↔ Allowed s c) ∧
    (Allowed s c → Inv initial (c.exec s).2.2)

theorem registerNode_cases (pools : List NodeMemoryPool) (nodeId : UInt8) :
    (∃ ok, registerNode pools nodeId = (ok, pools)) ∨
      (nodeId ∉ pools.map (·.nodeId) ∧
        registerNode pools nodeId = (true, pools ++ [.new nodeId])) := by
  unfold registerNode
  split
  · exact .inl ⟨false, rfl⟩
  split
  · exact .inl ⟨false, rfl⟩
  split
  · exact .inl ⟨true, rfl⟩
  · next hknown => exact .inr ⟨by simpa using hknown, rfl⟩

section

variable (hinv : Inv initial s)
include hinv

theorem Inv.addPool (hnew : nodeId ∉ s.pools.map (·.nodeId)) :
    Inv initial { s with pools := s.pools ++ [.new nodeId] } := by
  refine ⟨forall_mem_append.mpr ⟨hinv.conserved, ?_⟩, ?_,
    forall_mem_append.mpr ⟨hinv.placed, ?_⟩, ?_, hinv.blocks, hinv.addresses⟩
  · exact forall_mem_singleton.mpr (hinv.nodes.unregistered nodeId hnew).symm
  · rw [map_append]
    refine ⟨?_, fun other hother => hinv.nodes.unregistered other fun hmem => ?_⟩
    · exact List.Nodup.append hinv.nodes.nodup (nodup_singleton _)
        (by simpa [NodeMemoryPool.new] using hnew)
    · exact hother (mem_append_left _ hmem)
  · exact forall_mem_singleton.mpr (forall_mem_nil _)
  · have hsame : tableEntries (s.pools ++ [.new nodeId]) = tableEntries s.pools := by
      simp [tableEntries, NodeMemoryPool.new, entriesInUse]
    rw [hsame]
    exact hinv.tracked

theorem Inv.unchanged {freed : List Freed} (hheld : ∀ f ∈ freed, f.2 = true)
    (handle? : Option UInt64) : Upholds initial s handle? (false, freed, s) :=
  ⟨hinv.conserved, fun _ => ⟨rfl, rfl⟩, fun _ _ h => (nomatch h), hheld⟩

theorem Inv.register (nodeId : UInt8) : Settled initial s (.register nodeId) := by
  unfold Settled
  rw [Call.exec]
  rcases registerNode_cases s.pools nodeId with ⟨ok, heq⟩ | ⟨hnew, heq⟩ <;> rw [heq]
  · refine ⟨iff_of_true ⟨hinv.conserved, fun _ => ⟨rfl, rfl⟩, fun _ h => ?_, ?_⟩ trivial,
      fun _ => hinv⟩
    · cases h
    · exact forall_mem_nil _
  · have hinv' := hinv.addPool hnew
    refine ⟨iff_of_true ⟨hinv'.conserved, fun h => ?_, fun _ h => ?_, ?_⟩ trivial, fun _ => hinv'⟩
    · cases h
    · cases h
    · exact forall_mem_nil _

theorem Inv.alloc (nodeId : UInt8) (numPages : Nat) (answer : Option Nat) :
    Settled initial s (.alloc nodeId numPages answer) := by
  unfold Settled
  rw [Call.exec, Allowed]
  rcases hinv.alloc_cases nodeId numPages answer with ⟨hnone, freed, hheld, heq⟩ |
    ⟨hfull, freed, pools, hbroken, heq⟩ | ⟨hroom, phys, s', hinv', -, heq⟩ <;> rw [heq]
  · exact ⟨iff_of_true (hinv.unchanged hheld _) (hnone _), fun _ => hinv⟩
  · exact ⟨iff_of_false (fun h => hbroken h.conserved) (absurd hfull), fun h => (h hfull).elim⟩
  · refine ⟨iff_of_true ⟨hinv'.conserved, fun h => ?_, fun _ h => ?_, ?_⟩
      (hinv.not_tableFull hroom), fun _ => hinv'⟩
    · cases h
    · cases h
    · exact forall_mem_nil _

/-- A release is right unless the handle stands for several pages. -/
theorem Inv.free (handle : UInt64) : Settled initial s (.free handle) := by
  unfold Settled
  rw [Call.exec, Allowed, remoteFreePage]
  by_cases hgranted : ∃ b, (handle, b) ∈ s.granted
  · obtain ⟨b, hb⟩ := hgranted
    obtain ⟨pools, hrelease, hinv'⟩ := hinv.release hb
    rw [hrelease, (hinv.blocks _ hb).2]
    dsimp only
    by_cases hsize : b.2 = 0
    · have hpage : (b.1, 0) = b := Prod.ext rfl hsize.symm
      rw [hpage, buddyFree, decide_eq_true (hinv.blocks _ hb).1]
      refine ⟨iff_of_true ⟨hinv'.conserved, fun h => ?_, fun _ hhandle _ => ?_, ?_⟩
        fun b' hb' => ?_, fun _ => hinv'⟩
      · cases h
      · cases hhandle
        exact ⟨b, hb, rfl⟩
      · exact forall_mem_singleton.mpr rfl
      · rwa [← hinv.grant_unique hb hb']
    · refine ⟨iff_of_false (fun h => hsize ?_) fun h => hsize (h b hb),
        fun h => (hsize (h b hb)).elim⟩
      obtain ⟨b', hb', hfreed⟩ := h.returned handle rfl rfl
      have hpage : (b.1, 0) = b' := congrArg Prod.fst (singleton_inj.mp hfreed)
      rw [hinv.grant_unique hb hb', ← hpage]
  · have hnone : ∀ b, (handle, b) ∉ s.granted := fun b hb => hgranted ⟨b, hb⟩
    rw [hinv.release_none hnone]
    refine ⟨iff_of_true (hinv.unchanged (forall_mem_nil _) _) ?_, fun _ => hinv⟩
    exact fun b hb => (hnone b hb).elim

theorem Inv.migrate (phys : Nat) (fromNode toNode : UInt8) (answer : Option Nat) :
    Settled initial s (.migrate phys fromNode toNode answer) := by
  unfold Settled
  rw [Allowed]
  by_cases hrefused : (phys = 0 ∨ phys % PAGE_SIZE ≠ 0) ∨ fromNode = toNode
  · have hexec : Call.exec s (.migrate phys fromNode toNode answer) = (false, [], s) := by
      rw [Call.exec, migratePageLocal]
      rcases hrefused with hphys | hnodes
      · rw [if_pos hphys]
        rfl
      · rw [if_pos hnodes]
        split_ifs <;> rfl
    rw [hexec]
    exact ⟨iff_of_true (hinv.unchanged (forall_mem_nil _) _) (by tauto), fun _ => hinv⟩
  obtain ⟨hphys, hnodes⟩ := not_or.mp hrefused
  have hchecks : ∀ {Q : Prop}, (phys ≠ 0 → phys % PAGE_SIZE = 0 → fromNode ≠ toNode → Q) ↔ Q :=
    ⟨fun h => h (by omega) (by omega) hnodes, fun h _ _ _ => h⟩
  rw [hchecks, Call.exec, migratePageLocal, if_neg hphys, if_neg hnodes]
  rcases hinv.alloc_cases toNode 1 answer with ⟨hnone, freed, hheld, heq⟩ |
    ⟨hfull, freed, pools, hbroken, heq⟩ | ⟨hroom, newPhys, s', hinv', hgranted, heq⟩ <;> rw [heq]
  · exact ⟨iff_of_true (hinv.unchanged hheld _) ⟨hnone _, fun h => (hnone _ h).elim⟩, fun _ => hinv⟩
  · exact ⟨iff_of_false (fun h => hbroken h.conserved) fun h => h.1 hfull,
      fun h => (h.1 hfull).elim⟩
  by_cases hpage : (encodeHandle fromNode phys, phys, 0) ∈ s.granted
  · have hpage' : _ ∈ s'.granted := hgranted ▸ mem_cons_of_mem _ hpage
    obtain ⟨pools, hrelease, hinv''⟩ := hinv'.release hpage'
    dsimp only
    rw [hrelease, buddyFree, decide_eq_true (hinv'.blocks _ hpage').1]
    refine ⟨iff_of_true ⟨hinv''.conserved, fun h => ?_, fun _ hhandle _ => ?_, ?_⟩
      ⟨hinv.not_tableFull hroom, fun _ => hpage⟩, fun _ => hinv''⟩
    · cases h
    · cases hhandle
      exact ⟨_, hpage, rfl⟩
    · exact forall_mem_singleton.mpr rfl
  · refine ⟨iff_of_false (fun h => hpage ?_) fun h => hpage (h.2 hroom),
      fun h => (hpage (h.2 hroom)).elim⟩
    obtain ⟨b, hb, hfreed⟩ := h.returned _ rfl rfl
    have hsame : (phys, 0) = b := congrArg Prod.fst (singleton_inj.mp hfreed)
    rwa [hsame]

/-! ### Runs -/

theorem Inv.settled (c : Call) : Settled initial s c := by
  cases c with
  | register nodeId => exact hinv.register nodeId
  | alloc nodeId numPages answer => exact hinv.alloc nodeId numPages answer
  | free handle => exact hinv.free handle
  | migrate phys fromNode toNode answer => exact hinv.migrate phys fromNode toNode answer

theorem Inv.step {t : System} {c : Call} (hstep : Guarded Step Allowed s c t) : Inv initial t := by
  obtain ⟨hallowed, rfl⟩ := hstep
  exact (hinv.settled c).2 hallowed

end

theorem inv_boot (localPages : Option Nat) (blocks : List Block) :
    Inv (initialPages localPages) (.boot localPages blocks) := by
  cases localPages with
  | none =>
    exact ⟨forall_mem_nil _, ⟨nodup_nil, fun _ _ => ite_self _⟩, forall_mem_nil _, .nil,
      forall_mem_nil _, nodup_nil⟩
  | some n =>
    refine ⟨forall_mem_singleton.mpr rfl, ⟨nodup_singleton _, fun nodeId hnode => ?_⟩,
      forall_mem_singleton.mpr (forall_mem_nil _), .nil, forall_mem_nil _, nodup_nil⟩
    exact if_neg (by simpa [System.boot] using hnode)

/-- As long as every call is allowed the pages of each node add up, and a call does what it should
    exactly when it is allowed. -/
theorem remote_pool_iff {localPages : Option Nat} {blocks : List Block} {calls : List Call}
    {s : System} (hrun : Run (Guarded Step Allowed) (.boot localPages blocks) calls s) (c : Call) :
    Conserved (initialPages localPages) s.pools ∧
      (Upholds (initialPages localPages) s c.handle? (c.exec s) ↔ Allowed s c) := by
  have hinv : Inv (initialPages localPages) s :=
    hrun.invariant (fun _ _ _ h hstep => h.step hstep) (inv_boot localPages blocks)
  exact ⟨hinv.conserved, (hinv.settled c).1⟩

def after (calls : List Call) (s : System) : System := calls.foldl (fun s c => (c.exec s).2.2) s

theorem remote_pool_iff_page :
    let s := after [.register 1, .alloc 1 1 (some 0x80000000)] (.boot none [])
    Conserved (initialPages none) s.pools ∧ Upholds (initialPages none) s
      (some (encodeHandle 1 0x80000000)) (Call.exec s (.free (encodeHandle 1 0x80000000))) := by
  have hroom : ¬ TableFull (after [.register 1] (.boot none [])) 1 1 (some 0x80000000) := by
    decide +kernel
  have hrun : Run (Guarded Step Allowed) (.boot none []) [.register 1, .alloc 1 1 (some 0x80000000)]
      (after [.register 1, .alloc 1 1 (some 0x80000000)] (.boot none [])) :=
    .cons ⟨trivial, rfl⟩ (.cons ⟨hroom, rfl⟩ (.nil _))
  have hgranted : (after [.register 1, .alloc 1 1 (some 0x80000000)] (.boot none [])).granted =
      [(encodeHandle 1 0x80000000, 0x80000000, 0)] := by decide +kernel
  obtain ⟨hconserved, hiff⟩ := remote_pool_iff hrun (.free (encodeHandle 1 0x80000000))
  refine ⟨hconserved, hiff.mpr fun b hb => ?_⟩
  rw [hgranted, mem_singleton] at hb
  rw [(Prod.mk.inj hb).2]

/-- A block of four pages comes back as one page, which was never handed out, and the migration of
    a page that the pool knows nothing of frees the page of somebody else. -/
theorem block_returned_as_page :
    (let s := after [.register 1, .alloc 1 4 (some 0x80000000)] (.boot none []);
      s.granted = [(encodeHandle 1 0x80000000, 0x80000000, 2)] ∧
        (Call.exec s (.free (encodeHandle 1 0x80000000))).1 = true ∧
        (Call.exec s (.free (encodeHandle 1 0x80000000))).2.1 = [((0x80000000, 0), false)]) ∧
    (let s := after [.register 1] (.boot none [(0x80001000, 0)]);
      s.granted = [] ∧
        (Call.exec s (.migrate 0x80001000 0 1 (some 0x80002000))).1 = true ∧
        (Call.exec s (.migrate 0x80001000 0 1 (some 0x80002000))).2.1 =
          [((0x80001000, 0), true)]) := by
  decide +kernel

end TrainOS.RemoteMemory
