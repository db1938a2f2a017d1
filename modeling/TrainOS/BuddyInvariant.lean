import TrainOS.BuddyAllocator

/-!
# The free lists of the buddy allocator as a pool of blocks

`Shape s B L` says that the free lists of `s`, chains through memory, are the family `L` of
lists of page indices, and that the free blocks together with the blocks `B` in other hands
are well placed.  Each operation moves a block between `B` and `L`.  The value `0` ends a list
and is also the index of the first page, so a push onto a list headed by page `0` cuts that
list off (`linkPush`); `lost` counts these pages.
-/

namespace TrainOS.Buddy

open ByteMemory DyadicBlocks Function LinkedChain List MachineWord

/-! ### Links in memory -/

/-- The region does not reach the end of the address space. -/
def Fits (base total : Nat) : Prop := base + total * PAGE_SIZE < WORD

variable {base total p k : Nat}

theorem pageToAddr_of_lt (hfits : Fits base total) (hp : p < total) :
    pageToAddr base p = base + p * PAGE_SIZE := by
  have hmul : p * PAGE_SIZE ≤ total * PAGE_SIZE := Nat.mul_le_mul_right _ hp.le
  have hsum : base + p * PAGE_SIZE < WORD := (Nat.add_le_add_left hmul base).trans_lt hfits
  unfold pageToAddr
  rw [wrapMul_of_lt ((Nat.le_add_left _ base).trans_lt hsum), wrapAdd_of_lt hsum]

variable {v : Option Nat} {m : Memory}

theorem nodeNext_setNodeNext_same (hv : v.getD 0 < WORD) :
    nodeNext (setNodeNext m base p v) base p = if v = some 0 then none else v := by
  unfold nodeNext setNodeNext
  have hbytes : v.getD 0 < 256 ^ 8 := hv
  rw [readLE_writeLE_same, Nat.mod_eq_of_lt hbytes]
  cases v with
  | none => rfl
  | some q =>
    by_cases hq : q = 0 <;> simp [hq]

theorem nodeNext_setNodeNext_ne {q : Nat} (hfits : Fits base total) (hp : p < total)
    (hq : q < total) (hne : q ≠ p) :
    nodeNext (setNodeNext m base p v) base q = nodeNext m base q := by
  have hdisj : base + p * PAGE_SIZE + 8 ≤ base + q * PAGE_SIZE ∨
      base + q * PAGE_SIZE + 8 ≤ base + p * PAGE_SIZE := by
    unfold PAGE_SIZE
    omega
  unfold nodeNext setNodeNext
  rw [pageToAddr_of_lt hfits hp, pageToAddr_of_lt hfits hq, readLE_writeLE_disjoint m _ hdisj.symm]

/-! ### Families of free lists -/

def pool (L : Nat → List Nat) : List Block :=
  (range FREE_LIST_COUNT).flatMap fun k => (L k).map fun p => ⟨p, k⟩

theorem mem_range_orders : k ∈ range FREE_LIST_COUNT ↔ k ≤ MAX_ORDER := by
  rw [mem_range]
  exact Nat.lt_succ_iff

variable {L : Nat → List Nat} {b : Block}

theorem mem_pool : b ∈ pool L ↔ b.order ≤ MAX_ORDER ∧ b.start ∈ L b.order := by
  unfold pool
  rw [mem_flatMap]
  constructor
  · rintro ⟨k, hk, hb⟩
    obtain ⟨p, hp, rfl⟩ := mem_map.mp hb
    exact ⟨mem_range_orders.mp hk, hp⟩
  · rintro ⟨hk, hp⟩
    exact ⟨b.order, mem_range_orders.mpr hk, mem_map.mpr ⟨b.start, hp, rfl⟩⟩

theorem pool_update {l xs ys : List Nat} (hk : k ≤ MAX_ORDER) (hchange : (xs ++ l) ~ (ys ++ L k)) :
    (xs.map (Block.mk · k) ++ pool (update L k l)) ~
      (ys.map (Block.mk · k) ++ pool L) := by
  refine flatMap_perm_of_change nodup_range (mem_range_orders.mpr hk) ?_ ?_
  · intro j _ hne
    rw [update_of_ne hne]
  · simpa using hchange.map (Block.mk · k)

variable {l : List Nat}

theorem pool_take (hk : k ≤ MAX_ORDER)
    (hperm : (p :: l) ~ L k) : (⟨p, k⟩ :: pool (update L k l)) ~ pool L := by
  have htake : ([p] ++ l) ~ ([] ++ L k) := hperm
  exact pool_update hk htake

/-- The family after `push_free`: a list headed by page `0` is cut off. -/
def linkPush (L : Nat → List Nat) (p k : Nat) : Nat → List Nat :=
  update L k (p :: if (L k).head? = some 0 then [] else L k)

def lost (L : Nat → List Nat) (k : Nat) : Nat :=
  if (L k).head? = some 0 then (L k).length * 2 ^ k else 0

theorem lost_eq_zero : lost L k = 0 ↔ (L k).head? ≠ some 0 := by
  cases hlist : L k with
  | nil => simp [lost, hlist]
  | cons p l => simp [lost, hlist]

theorem length_pages_map (k : Nat) (l : List Nat) :
    (pages (l.map (Block.mk · k))).length = l.length * 2 ^ k := by
  simp [pages, length_flatMap, Block.pages, comp_def]

variable {p k : Nat}

/-- What a push does to the pool: the pushed block is added, and the cut-off blocks
    are gone, page `0` among them. -/
theorem pool_linkPush (hk : k ≤ MAX_ORDER) :
    ∃ cut : List Block, (cut ++ pool (linkPush L p k)) ~ (⟨p, k⟩ :: pool L) ∧
      (pages cut).length = lost L k ∧ (cut ≠ [] → 0 ∈ pages cut) := by
  unfold linkPush lost
  by_cases hhead : (L k).head? = some 0
  · refine ⟨(L k).map (Block.mk · k), ?_, ?_, ?_⟩
    · rw [if_pos hhead]
      have hperm : (L k ++ [p]) ~ ([p] ++ L k) := perm_append_comm
      exact pool_update hk hperm
    · rw [if_pos hhead, length_pages_map]
    · intro _
      have hfirst : (⟨0, k⟩ : Block) ∈ (L k).map (Block.mk · k) :=
        mem_map_of_mem (mem_of_head? hhead)
      exact mem_pages.mpr ⟨_, hfirst, Block.start_mem_pages _⟩
  · refine ⟨[], ?_, ?_, ?_⟩
    · rw [if_neg hhead]
      have hperm : ([] ++ p :: L k) ~ ([p] ++ L k) := .refl _
      exact pool_update hk hperm
    · rw [if_neg hhead]
      rfl
    · intro hne
      exact absurd rfl hne

/-! ### Joined buddies -/

/-- Below the largest order no block is free together with its buddy. -/
def Coalesced (L : Nat → List Nat) : Prop :=
  ∀ k < MAX_ORDER, ∀ p ∈ L k, buddy p k ∉ L k

theorem Coalesced.linkPush (h : Coalesced L)
    (halone : k < MAX_ORDER → buddy p k ∉ L k) : Coalesced (linkPush L p k) := by
  have hsub : ∀ q, q ∈ (if (L k).head? = some 0 then [] else L k) → q ∈ L k := by
    intro q hq
    split at hq
    · cases hq
    · exact hq
  intro j hj q hq
  unfold Buddy.linkPush at hq ⊢
  by_cases hjk : j = k
  · subst hjk
    rw [update_self] at hq ⊢
    rcases mem_cons.mp hq with rfl | hq
    · rw [mem_cons, not_or]
      exact ⟨buddy_ne, fun hin => halone hj (hsub _ hin)⟩
    · rw [mem_cons, not_or]
      refine ⟨fun heq => halone hj ?_, fun hin => h j hj q (hsub _ hq) (hsub _ hin)⟩
      rw [← heq, buddy_buddy]
      exact hsub _ hq
  · rw [update_of_ne hjk] at hq ⊢
    exact h j hj q hq

theorem Coalesced.update (h : Coalesced L) (hsub : l ⊆ L k) : Coalesced (update L k l) := by
  intro j hj q hq
  by_cases hjk : j = k
  · subst hjk
    rw [update_self] at hq ⊢
    exact fun hin => h j hj q (hsub hq) (hsub hin)
  · rw [update_of_ne hjk] at hq ⊢
    exact h j hj q hq

/-! ### Representation -/

/-- Everything but the links and list heads is as before. -/
structure Keeps (s s' : BuddyInner) : Prop where
  base : s'.base = s.base
  limit : s'.limit = s.limit
  totalPages : s'.totalPages = s.totalPages
  allocatedPages : s'.allocatedPages = s.allocatedPages

theorem Keeps.refl (s : BuddyInner) : Keeps s s := ⟨rfl, rfl, rfl, rfl⟩

theorem Keeps.trans {s t u : BuddyInner} (h1 : Keeps s t) (h2 : Keeps t u) : Keeps s u :=
  ⟨h2.base.trans h1.base, h2.limit.trans h1.limit, h2.totalPages.trans h1.totalPages,
    h2.allocatedPages.trans h1.allocatedPages⟩

/-- The free lists of `s` are `L`, and its free blocks are well placed next to the
    blocks `B` in other hands. -/
structure Shape (s : BuddyInner) (B : List Block) (L : Nat → List Nat) : Prop where
  region : s.base + s.totalPages * PAGE_SIZE ≤ s.limit
  limit_lt : s.limit < WORD
  chain : ∀ k ≤ MAX_ORDER, Chain s.next (s.freeLists k) (L k)
  placed : WellPlaced s.totalPages (B ++ pool L)

variable {s : BuddyInner} {B : List Block} {L : Nat → List Nat}

namespace Shape

theorem fits (h : Shape s B L) : Fits s.base s.totalPages := h.region.trans_lt h.limit_lt

theorem total_lt (h : Shape s B L) : s.totalPages < WORD := by
  have hfits : s.base + s.totalPages * 4096 < WORD := h.fits
  omega

theorem mem_pool_of_mem (hk : k ≤ MAX_ORDER) (hp : p ∈ L k) :
    (⟨p, k⟩ : Block) ∈ pool L :=
  mem_pool.mpr ⟨hk, hp⟩

section

variable (h : Shape s B L)
include h

theorem node_lt (hk : k ≤ MAX_ORDER) (hp : p ∈ L k) :
    p < s.totalPages :=
  h.placed.start_lt (mem_append_right B (mem_pool_of_mem hk hp))

theorem held_lt (hb : b ∈ B) : b.start < s.totalPages :=
  h.placed.start_lt (mem_append_left _ hb)

theorem node_ne_held (hb : b ∈ B) (hk : k ≤ MAX_ORDER) (hp : p ∈ L k) : p ≠ b.start := by
  have hnodup := h.placed.nodup_starts
  rw [map_append, nodup_append] at hnodup
  intro heq
  exact hnodup.2.2 _ (mem_map_of_mem hb) _ (mem_map_of_mem (mem_pool_of_mem hk hp))
    heq.symm

theorem pool_nodup : ((pool L).map Block.start).Nodup := by
  have hnodup := h.placed.nodup_starts
  rw [map_append, nodup_append] at hnodup
  exact hnodup.2.1

section

variable (hk : k ≤ MAX_ORDER)
include hk

theorem list_nodup : (L k).Nodup := by
  have hnodup := h.pool_nodup
  unfold pool at hnodup
  rw [map_flatMap] at hnodup
  have hk' := (nodup_flatMap.mp hnodup).1 k (mem_range_orders.mpr hk)
  simpa [comp_def] using hk'

theorem lists_disjoint {j : Nat} (hj : j ≤ MAX_ORDER) (hpj : p ∈ L j) (hpk : p ∈ L k) : j = k := by
  have heq : (⟨p, j⟩ : Block) = ⟨p, k⟩ :=
    inj_on_of_nodup_map h.pool_nodup (mem_pool_of_mem hj hpj) (mem_pool_of_mem hk hpk) rfl
  exact congrArg Block.order heq

theorem list_length_le : (L k).length ≤ s.totalPages := by
  have hsub : L k <+~ range s.totalPages :=
    (h.list_nodup hk).subperm fun p hp => mem_range.mpr (h.node_lt hk hp)
  simpa using hsub.length_le

theorem freeLists_eq : s.freeLists k = (L k).head? :=
  (h.chain k hk).head_eq

theorem freeBlocks_eq : s.freeBlocks k = L k :=
  nodes_eq (h.chain k hk) (h.list_length_le hk)

end

theorem perm {B' : List Block} (hperm : B' ~ B) : Shape s B' L :=
  { h with placed := h.placed.subperm (hperm.append_right _).subperm }

end

end Shape

def freeWeight (L : Nat → List Nat) : Nat := (pages (pool L)).length

/-! ### Pushing and popping -/

theorem length_block_pages (p k : Nat) : (⟨p, k⟩ : Block).pages.length = 2 ^ k :=
  length_range'

theorem freeWeight_linkPush (hk : k ≤ MAX_ORDER) :
    freeWeight (linkPush L p k) + lost L k = 2 ^ k + freeWeight L := by
  obtain ⟨cut, hperm, hcut, _⟩ := pool_linkPush (L := L) (p := p) hk
  have hlen := (pages_perm hperm).length_eq
  rw [pages_append, pages_cons, length_append, length_append, hcut, length_block_pages] at hlen
  unfold freeWeight
  omega

theorem Keeps.pushFree (s : BuddyInner) (p k : Nat) : Keeps s (s.pushFree p k) :=
  ⟨rfl, rfl, rfl, rfl⟩

/-- A block enters the list of its order. -/
theorem Shape.pushFree (h : Shape s (⟨p, k⟩ :: B) L) (hk : k ≤ MAX_ORDER) :
    Shape (s.pushFree p k) B (linkPush L p k) where
  region := h.region
  limit_lt := h.limit_lt
  chain := by
    have hp : p < s.totalPages := h.held_lt mem_cons_self
    have hother : ∀ j ≤ MAX_ORDER, ∀ q ∈ L j, (s.pushFree p k).next q = s.next q := by
      intro j hj q hq
      exact nodeNext_setNodeNext_ne h.fits hp (h.node_lt hj hq)
        (h.node_ne_held mem_cons_self hj hq)
    intro j hj
    unfold linkPush
    by_cases hjk : j = k
    · subst hjk
      have hhead := h.freeLists_eq hj
      have hbound : ((L j).head?).getD 0 < WORD := by
        rcases hl : (L j).head? with _ | q
        · exact Nat.two_pow_pos 64
        · exact (h.node_lt hj (mem_of_head? hl)).trans h.total_lt
      have hnext : (s.pushFree p j).next p =
          if (L j).head? = some 0 then none else (L j).head? := by
        rw [← hhead]
        rw [← hhead] at hbound
        exact nodeNext_setNodeNext_same hbound
      rw [update_self]
      refine ⟨update_self _ _ _, ?_⟩
      rw [hnext]
      by_cases hzero : (L j).head? = some 0
      · rw [if_pos hzero, if_pos hzero]
        rfl
      · rw [if_neg hzero, if_neg hzero, ← hhead]
        exact (h.chain j hj).congr (hother j hj)
    · have hkeep : (s.pushFree p k).freeLists j = s.freeLists j := update_of_ne hjk _ _
      rw [update_of_ne hjk, hkeep]
      exact (h.chain j hj).congr (hother j hj)
  placed := by
    obtain ⟨cut, hperm, _⟩ := pool_linkPush (L := L) (p := p) hk
    refine h.placed.subperm ?_
    have hsub : pool (linkPush L p k) <+~ (⟨p, k⟩ :: pool L) :=
      (sublist_append_right cut _).subperm.trans hperm.subperm
    have hswap : (B ++ ⟨p, k⟩ :: pool L) ~ (⟨p, k⟩ :: B ++ pool L) := perm_middle
    exact ((subperm_append_left B).mpr hsub).trans hswap.subperm

theorem Shape.placed_take (h : Shape s B L) (hk : k ≤ MAX_ORDER) (hperm : (p :: l) ~ L k) :
    WellPlaced s.totalPages (⟨p, k⟩ :: B ++ pool (update L k l)) := by
  refine h.placed.subperm ?_
  have hswap : (⟨p, k⟩ :: B ++ pool (update L k l)) ~
      (B ++ ⟨p, k⟩ :: pool (update L k l)) := perm_middle.symm
  exact (hswap.trans ((pool_take hk hperm).append_left B)).subperm

theorem Shape.popFree (h : Shape s B L) (hk : k ≤ MAX_ORDER) (hlist : L k = p :: l) :
    ∃ s', s.popFree k = (some p, s') ∧ Keeps s s' ∧
      Shape s' (⟨p, k⟩ :: B) (update L k l) := by
  have hchain := h.chain k hk
  rw [hlist] at hchain
  obtain ⟨hhead, htail⟩ := hchain
  refine ⟨{ s with freeLists := update s.freeLists k (s.next p) }, ?_,
    ⟨rfl, rfl, rfl, rfl⟩, ⟨h.region, h.limit_lt, ?_, ?_⟩⟩
  · unfold BuddyInner.popFree
    rw [hhead]
  · intro j hj
    by_cases hjk : j = k
    · subst hjk
      simpa [BuddyInner.next] using htail
    · simpa [BuddyInner.next, hjk] using h.chain j hj
  · exact h.placed_take hk (.of_eq hlist.symm)

theorem Shape.halve (h : Shape s (⟨p, k + 1⟩ :: B) L) :
    Shape s (⟨p + 2 ^ k, k⟩ :: ⟨p, k⟩ :: B) L := by
  have hpages : pages ((⟨p + 2 ^ k, k⟩ :: ⟨p, k⟩ :: B) ++ pool L) ~
      pages ((⟨p, k + 1⟩ :: B) ++ pool L) := by
    simp only [cons_append, pages_cons, pages_split, ← append_assoc]
    exact perm_append_comm.append_right _
  refine { h with placed := h.placed.of_subperm ?_ hpages.subperm }
  have hhalves := (h.placed.aligned ⟨p, k + 1⟩ (by simp)).halves
  intro c hc
  simp only [cons_append, mem_cons] at hc
  rcases hc with rfl | rfl | hc
  · exact hhalves.2
  · exact hhalves.1
  · exact h.placed.aligned c (mem_cons_of_mem _ hc)

end TrainOS.Buddy
