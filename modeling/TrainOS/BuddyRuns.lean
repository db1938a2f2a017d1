import TrainOS.BuddyOperations
import TrainOS.Runs

/-!
# Runs of the page allocator

Blocks handed out, cached and free never overlap (`no_double_allocation`).  Pages can become
unreachable, though: `reached` counts those that are allocated or on a free list, and it stays
at the size of the region exactly on the runs that never push onto a free list headed by
page `0` (`pages_conserved_iff`).
-/

namespace TrainOS.Buddy

open ByteMemory DyadicBlocks Function LinkedChain List MachineWord Runs

variable {s : BuddyInner} {B H C : List Block} {L : Nat → List Nat} {b : Block} {m : Memory}

/-! ### The canonical free lists -/

theorem pool_congr {L' : Nat → List Nat} (h : ∀ k ≤ MAX_ORDER, L' k = L k) : pool L' = pool L := by
  refine flatMap_congr fun k hk => ?_
  rw [h k (mem_range_orders.mp hk)]

section

variable (h : Shape s B L)
include h

theorem Shape.pool_eq : pool s.freeBlocks = pool L :=
  pool_congr fun _ hk => h.freeBlocks_eq hk

theorem Shape.canonical : Shape s B s.freeBlocks where
  region := h.region
  limit_lt := h.limit_lt
  chain := fun k hk => by
    rw [h.freeBlocks_eq hk]
    exact h.chain k hk
  placed := by
    rw [h.pool_eq]
    exact h.placed

theorem Shape.freeWeight_eq : freeWeight s.freeBlocks = freeWeight L := by
  unfold freeWeight
  rw [h.pool_eq]

theorem Shape.writeHeld (hb : b ∈ B) (hout : ∀ a, a < s.base + b.start * PAGE_SIZE ∨
      s.base + (b.start + 2 ^ b.order) * PAGE_SIZE ≤ a → m a = s.mem a) :
    Shape { s with mem := m } B L := by
  refine { h with chain := fun k hk => (h.chain k hk).congr fun q hq => ?_ }
  have hlt := h.node_lt hk hq
  -- page `q` is free, so it is none of the pages of the held block
  have hfree : q ∈ pages (pool L) :=
    mem_pages.mpr ⟨⟨q, k⟩, Shape.mem_pool_of_mem hk hq, Block.start_mem_pages _⟩
  have houtside : q ∉ b.pages := by
    intro hin
    have hnodup := h.placed.nodup
    rw [pages_append, nodup_append] at hnodup
    exact hnodup.2.2 q (mem_pages.mpr ⟨b, hb, hin⟩) q hfree rfl
  rw [Block.mem_pages, not_and, not_lt] at houtside
  have hagree : AgreeOn m s.mem (pageToAddr s.base q) 8 := by
    rw [pageToAddr_of_lt h.fits hlt]
    intro a hlo hhi
    refine hout a ?_
    unfold PAGE_SIZE at *
    omega
  show nodeNext m s.base q = nodeNext s.mem s.base q
  unfold nodeNext
  rw [readLE_congr hagree]

/-! ### The free-page count -/

theorem Shape.countFreePages : s.countFreePages = some (freeWeight L) := by
  have hfold : ∀ ks : List Nat, (∀ k ∈ ks, k ≤ MAX_ORDER) → ∀ acc,
      ks.foldlM (fun total order => foldNodes (fun total _ => total + 2 ^ order) s.next
        s.totalPages total (s.freeLists order)) acc =
      some (acc + (ks.map fun k => (L k).length * 2 ^ k).sum) := by
    intro ks
    induction ks with
    | nil =>
      intro _ acc
      rfl
    | cons k ks ih =>
      intro hks acc
      have hk := hks k mem_cons_self
      rw [foldlM_cons, foldNodes_eq (h.chain k hk) (h.list_length_le hk),
        foldl_add_const, Nat.mul_comm, Option.bind_eq_bind, Option.bind_some,
        ih fun j hj => hks j (mem_cons_of_mem k hj)]
      rw [map_cons, sum_cons, Nat.add_assoc]
  unfold BuddyInner.countFreePages freeWeight pool
  rw [hfold _ (fun k hk => mem_range_orders.mp hk), Nat.zero_add]
  simp [pages, flatMap_assoc, length_flatMap, ← length_pages_map]

end

/-! ### The invariant of a run -/

/-- The address and order under which the interface knows a block. -/
def extent (base : Nat) (b : Block) : Nat × Nat := (base + b.start * PAGE_SIZE, b.order)

/-- The clients hold the blocks `H`, the caches the blocks `C`, and the counter of
    allocated pages counts both. -/
structure Inv (base total : Nat) (sys : System) (H C : List Block) : Prop where
  base_eq : sys.alloc.inner.base = base
  total_eq : sys.alloc.inner.totalPages = total
  shape : Shape sys.alloc.inner (H ++ C) sys.alloc.inner.freeBlocks
  handed : sys.handed ~ H.map (extent base)
  cached : sys.alloc.cached ~ C.map (extent base)
  small : ∀ b ∈ H ++ C, b.order ≤ MAX_ORDER
  counted : sys.alloc.inner.allocatedPages = (pages (H ++ C)).length

def System.reached (sys : System) : Nat :=
  sys.alloc.inner.allocatedPages + freeWeight sys.alloc.inner.freeBlocks

variable {base total : Nat} {sys : System}

namespace Inv

section

variable (h : Inv base total sys H C)
include h

theorem addr_eq {p : Nat} (hp : p < total) : pageToAddr base p = base + p * PAGE_SIZE := by
  have hfits := h.shape.fits
  rw [h.base_eq, h.total_eq] at hfits
  exact pageToAddr_of_lt hfits hp

theorem total_lt : total < WORD := by
  rw [← h.total_eq]
  exact h.shape.total_lt

theorem reached_eq : sys.reached = (pages (H ++ C ++ pool sys.alloc.inner.freeBlocks)).length := by
  unfold System.reached freeWeight
  rw [h.counted, pages_append (H ++ C), length_append]

theorem placed : WellPlaced total (H ++ C ++ pool sys.alloc.inner.freeBlocks) := by
  rw [← h.total_eq]
  exact h.shape.placed

theorem allocated_le : sys.alloc.inner.allocatedPages ≤ total := by
  have hle := h.placed.length_le
  rw [pages_append (H ++ C), length_append, ← h.counted] at hle
  exact (Nat.le_add_right _ _).trans hle

theorem extents_perm :
    sys.extents ~ (H ++ C ++ pool sys.alloc.inner.freeBlocks).map (extent base) := by
  have hfree : sys.alloc.inner.freeExtents =
      (pool sys.alloc.inner.freeBlocks).map (extent base) := by
    unfold BuddyInner.freeExtents pool
    rw [map_flatMap]
    apply flatMap_congr
    intro k hk
    rw [map_map]
    apply map_congr_left
    intro p hp
    have hlt := h.shape.node_lt (mem_range_orders.mp hk) hp
    rw [h.total_eq] at hlt
    rw [h.base_eq, h.addr_eq hlt]
    rfl
  unfold System.extents
  rw [hfree, map_append, map_append]
  exact (h.handed.append h.cached).append_right _

end

end Inv

/-! ### What no call undoes -/

/-- Buddies stay joined, and no page is covered that was not, when the blocks in other
    hands change from `B` to `B'`. -/
structure Orderly (s s' : BuddyInner) (B B' : List Block) : Prop where
  coalesced : Coalesced s.freeBlocks → Coalesced s'.freeBlocks
  covered : pages (B' ++ pool s'.freeBlocks) ⊆ pages (B ++ pool s.freeBlocks)

variable {s' s'' : BuddyInner} {B' B'' : List Block} {L' : Nat → List Nat}

theorem Orderly.trans (h1 : Orderly s s' B B') (h2 : Orderly s' s'' B' B'') :
    Orderly s s'' B B'' :=
  ⟨h2.coalesced ∘ h1.coalesced, List.Subset.trans h2.covered h1.covered⟩

theorem Orderly.of_perm (hfree : ∀ k ≤ MAX_ORDER, s'.freeBlocks k = s.freeBlocks k)
    (hperm : B' ~ B) : Orderly s s' B B' where
  coalesced := fun hjoined k hk p hp => by
    rw [hfree k hk.le] at hp ⊢
    exact hjoined k hk p hp
  covered := by
    rw [pool_congr hfree]
    exact (pages_perm (hperm.append_right _)).subset

variable {given left : List Block}

theorem Reshapes.frame (h : Reshapes given left L L') (B : List Block) :
    pages (left ++ (B ++ pool L')) ~ pages (given ++ (B ++ pool L)) := by
  have hpages := h.covers
  simp only [pages_append] at hpages ⊢
  calc pages left ++ (pages B ++ pages (pool L'))
      ~ pages B ++ (pages left ++ pages (pool L')) := perm_append_comm_assoc _ _ _
    _ ~ pages B ++ (pages given ++ pages (pool L)) := hpages.append_left _
    _ ~ pages given ++ (pages B ++ pages (pool L)) := perm_append_comm_assoc _ _ _

theorem Reshapes.orderly (h : Reshapes given left s.freeBlocks L')
    (hafter : Shape s' B' L') (hgiven : B ~ (given ++ B'')) (hleft : B' ⊆ left ++ B'') :
    Orderly s s' B B' where
  coalesced := fun hjoined k hk p hp => by
    rw [hafter.freeBlocks_eq hk.le] at hp ⊢
    exact h.coalesced hjoined k hk p hp
  covered := by
    intro q hq
    rw [hafter.pool_eq] at hq
    have hframed : q ∈ pages (left ++ (B'' ++ pool L')) := by
      obtain ⟨b, hb, hqb⟩ := mem_pages.mp hq
      refine mem_pages.mpr ⟨b, ?_, hqb⟩
      rw [← append_assoc]
      rcases mem_append.mp hb with hb | hb
      · exact mem_append_left _ (hleft hb)
      · exact mem_append_right _ hb
    have hbefore := (h.frame B'').subset hframed
    rw [← append_assoc] at hbefore
    exact (pages_perm (hgiven.symm.append_right _)).subset hbefore

/-- The system keeps the invariant, and what holds of its pages and free lists. -/
def Follows (base total : Nat) (sys sys' : System) (B : List Block) : Prop :=
  ∃ H' C', Inv base total sys' H' C' ∧
    Orderly sys.alloc.inner sys'.alloc.inner B (H' ++ C')

theorem Inv.exchange {sys' : System} {H' C' : List Block} (h : Inv base total sys H C)
    (hinner : sys'.alloc.inner = sys.alloc.inner) (hsame : (H' ++ C') ~ (H ++ C))
    (hhanded : sys'.handed ~ H'.map (extent base))
    (hcached : sys'.alloc.cached ~ C'.map (extent base)) :
    Follows base total sys sys' (H ++ C) := by
  refine ⟨H', C', ?_, .of_perm (fun k _ => by rw [hinner]) hsame⟩
  constructor
  case handed => exact hhanded
  case cached => exact hcached
  case small => exact fun c hc => h.small c (hsame.subset hc)
  all_goals rw [hinner]
  case base_eq => exact h.base_eq
  case total_eq => exact h.total_eq
  case shape => exact h.shape.perm hsame
  case counted =>
    rw [(pages_perm hsame).length_eq]
    exact h.counted

/-! ### Allocation -/

variable {a : Allocator}

section

variable (h : Inv base total sys H C)
include h

/-- A block taken from the free lists is handed out. -/
theorem Inv.grant {p order : Nat} (horder : order ≤ MAX_ORDER) (hkeep : Keeps { sys.alloc.inner with
      allocatedPages := wrapAdd sys.alloc.inner.allocatedPages (2 ^ order) } a.inner)
    (hcaches : a.cpuCaches = sys.alloc.cpuCaches)
    (hshape : Shape a.inner (⟨p, order⟩ :: (H ++ C)) L')
    (hreshape : Reshapes [] [⟨p, order⟩] sys.alloc.inner.freeBlocks L') :
    Follows base total sys (sys.grant (some (pageToAddr a.inner.base p)) order a) (H ++ C) ∧
      (sys.grant (some (pageToAddr a.inner.base p)) order a).reached = sys.reached := by
  have hweight := hreshape.weight
  rw [length_pages_singleton, pages_nil, length_nil, Nat.zero_add] at hweight
  have hbase : a.inner.base = base := hkeep.base.trans h.base_eq
  have htotal : a.inner.totalPages = total := hkeep.totalPages.trans h.total_eq
  have hp : p < total := htotal ▸ hshape.held_lt mem_cons_self
  have hroom : sys.alloc.inner.allocatedPages + 2 ^ order ≤ total := by
    have hle := h.placed.length_le
    rw [pages_append (H ++ C), length_append, ← h.counted] at hle
    have hfree : freeWeight sys.alloc.inner.freeBlocks =
        (pages (pool sys.alloc.inner.freeBlocks)).length := rfl
    omega
  have hcount : a.inner.allocatedPages = sys.alloc.inner.allocatedPages + 2 ^ order := by
    rw [hkeep.allocatedPages]
    exact wrapAdd_of_lt (hroom.trans_lt h.total_lt)
  constructor
  · refine ⟨⟨p, order⟩ :: H, C, ?_,
      hreshape.orderly hshape (.refl (H ++ C)) (.refl _)⟩
    constructor
    case base_eq => exact hbase
    case total_eq => exact htotal
    case shape => exact hshape.canonical
    case handed =>
      rw [hbase, h.addr_eq hp]
      exact h.handed.cons _
    case cached =>
      have hsame : a.cached = sys.alloc.cached := by
        unfold Allocator.cached
        rw [hcaches]
      show a.cached ~ _
      rw [hsame]
      exact h.cached
    case small => exact forall_mem_cons.mpr ⟨horder, h.small⟩
    case counted =>
      show a.inner.allocatedPages = _
      rw [hcount, h.counted, cons_append, pages_cons, length_append,
        length_block_pages, Nat.add_comm]
  · show a.inner.allocatedPages + freeWeight a.inner.freeBlocks = _
    unfold System.reached
    rw [hshape.freeWeight_eq, hcount]
    omega

/-- The call returns, and the client gets what it hands out; no page is lost. -/
def Granted (base total : Nat) (sys : System) (order : Nat) (B : List Block)
    (call : Option (Option Nat × Allocator)) : Prop :=
  ∃ r a, call = some (r, a) ∧ Follows base total sys (sys.grant r order a) B ∧
    (sys.grant r order a).reached = sys.reached

theorem Inv.allocPages (hinner : a.inner = sys.alloc.inner)
    (hcaches : a.cpuCaches = sys.alloc.cpuCaches) (order : Nat) :
    Granted base total sys order (H ++ C) (a.allocPages order) := by
  unfold Allocator.allocPages
  rw [hinner]
  rcases h.shape.allocPages order with
    ⟨hfail, _⟩ | ⟨p, s', L', hrun, horder, _, hkeep, hshape, hreshape⟩
  · rw [hfail]
    have hcached : a.cached ~ C.map (extent base) := by
      rw [Allocator.cached, hcaches]
      exact h.cached
    refine ⟨none, _, rfl, h.exchange rfl (.refl _) h.handed hcached, rfl⟩
  · rw [hrun]
    exact ⟨_, _, rfl, h.grant (a := { a with inner := s' }) horder hkeep hcaches hshape hreshape⟩

end

variable {hart : Nat}

theorem cached_change {l xs ys : List Nat}
    (hhart : hart < MAX_CPU_HARTS) (hchange : (xs ++ l) ~ (ys ++ a.cpuCaches hart)) :
    (xs.map (fun page => (page, 0)) ++ { a with cpuCaches := update a.cpuCaches hart l }.cached) ~
      (ys.map (fun page => (page, 0)) ++ a.cached) := by
  apply flatMap_perm_of_change nodup_range (mem_range.mpr hhart)
  · intro j _ hne
    simp [update_of_ne hne]
  · simp only [update_self, ← map_append]
    exact hchange.map _

theorem Inv.takeCached {page n : Nat} {rest : List Nat} (h : Inv base total sys H C)
    (hhart : hart < MAX_CPU_HARTS) (hcache : sys.alloc.cpuCaches hart = page :: rest) :
    Follows base total sys (sys.grant (some page) 0
      { sys.alloc with
        cpuCaches := update sys.alloc.cpuCaches hart rest, cacheHits := n }) (H ++ C) := by
  have htaken : ((page, 0) ::
      { sys.alloc with cpuCaches := update sys.alloc.cpuCaches hart rest }.cached) ~
      sys.alloc.cached := by
    have hchange : ([page] ++ rest) ~ ([] ++ sys.alloc.cpuCaches hart) :=
      .of_eq hcache.symm
    exact cached_change hhart hchange
  obtain ⟨b, C', hb, hC, hrest⟩ := perm_cons_map (htaken.trans h.cached)
  -- the same blocks are in other hands, listed in another order
  have hsame : (b :: H ++ C') ~ (H ++ C) :=
    perm_middle.symm.trans (hC.symm.append_left H)
  refine h.exchange rfl hsame ?_ hrest
  rw [map_cons, hb]
  exact h.handed.cons _

theorem Inv.allocPage (h : Inv base total sys H C) (hart : Nat) :
    Granted base total sys 0 (H ++ C) (sys.alloc.allocPage hart) := by
  have hmiss := h.allocPages (a := { sys.alloc with
    cacheMisses := wrapAdd sys.alloc.cacheMisses 1 }) rfl rfl 0
  unfold Allocator.allocPage Allocator.allocPageFast
  by_cases hhart : hart ≥ MAX_CPU_HARTS
  · rw [if_pos hhart]
    exact hmiss
  · rw [if_neg hhart]
    cases hcache : sys.alloc.cpuCaches hart with
    | nil => exact hmiss
    | cons page rest => exact ⟨some page, _, rfl, h.takeCached (not_le.mp hhart) hcache, rfl⟩

variable {addr order : Nat}

section

variable (h : Inv base total sys H C)
include h

section

variable (hheld : (addr, order) ∈ sys.handed)
include hheld

theorem Inv.writeHeld
    (hout : ∀ a, a < addr ∨ addr + 2 ^ order * PAGE_SIZE ≤ a → m a = sys.alloc.inner.mem a) :
    Inv base total { sys with alloc.inner.mem := m } H C ∧
      Orderly sys.alloc.inner { sys.alloc.inner with mem := m } (H ++ C) (H ++ C) ∧
      { sys with alloc.inner.mem := m : System }.reached = sys.reached := by
  obtain ⟨b, hb, hext⟩ := mem_map.mp (h.handed.subset hheld)
  obtain ⟨haddr, horder⟩ := Prod.mk.inj hext
  have hwrite : Shape { sys.alloc.inner with mem := m } (H ++ C)
      sys.alloc.inner.freeBlocks := by
    apply h.shape.writeHeld (mem_append_left C hb)
    intro a ha
    apply hout
    rw [h.base_eq, Nat.add_mul, ← Nat.add_assoc] at ha
    rw [← haddr, ← horder]
    exact ha
  refine ⟨?_, ?_, ?_⟩
  · exact ⟨h.base_eq, h.total_eq, hwrite.canonical, h.handed, h.cached, h.small, h.counted⟩
  · exact .of_perm (fun k hk => hwrite.freeBlocks_eq hk) (.refl _)
  · have hfree := hwrite.freeWeight_eq
    exact congrArg (sys.alloc.inner.allocatedPages + ·) hfree

/-! ### Release -/

/-- No free list headed by page `0` is pushed onto: the call is no release, the page
    goes to the cache of the hart, or the list at which the block comes to rest has
    another head. -/
def Lossless (sys : System) : Call → Prop
  | .freePage hart addr order =>
      (order = 0 ∧ (sys.alloc.freePageFast hart addr).1 = true) ∨
        sys.alloc.inner.freeLists (sys.alloc.inner.freeTarget
          (addrToPage sys.alloc.inner.base addr) order) ≠ some 0
  | _ => True

theorem Inv.order_le : order ≤ MAX_ORDER := by
  obtain ⟨b, hb, hext⟩ := mem_map.mp (h.handed.subset hheld)
  exact (Prod.mk.inj hext).2 ▸ h.small b (mem_append_left C hb)

theorem Inv.held : ∃ b H', extent base b = (addr, order) ∧ b ∈ H ∧ H ~ (b :: H') ∧
      sys.handed.erase (addr, order) ~ H'.map (extent base) := by
  obtain ⟨b, H', hb, hH, hrest⟩ := perm_cons_map ((perm_cons_erase hheld).symm.trans h.handed)
  exact ⟨b, H', hb, hH.symm.subset mem_cons_self, hH, hrest⟩

end

theorem Inv.freeCached (hheld : (addr, 0) ∈ sys.handed) (hhart : hart < MAX_CPU_HARTS) :
    Follows base total sys (sys.released addr 0 { sys.alloc with
      cpuCaches := update sys.alloc.cpuCaches hart
        (addr :: sys.alloc.cpuCaches hart) }) (H ++ C) := by
  obtain ⟨b, H', hb, _, hH, hrest⟩ := h.held hheld
  have hsame : (H' ++ b :: C) ~ (H ++ C) :=
    perm_middle.trans (hH.symm.append_right C)
  refine h.exchange rfl hsame hrest ?_
  have hchange : ([] ++ addr :: sys.alloc.cpuCaches hart) ~
      ([addr] ++ sys.alloc.cpuCaches hart) := .refl _
  rw [map_cons, hb]
  exact (cached_change hhart hchange).trans (h.cached.cons _)

theorem Inv.addrToPage_eq (hb : b ∈ H) (hext : extent base b = (addr, order)) :
    addrToPage base addr = b.start := by
  have hlt : b.start < total := h.placed.start_lt
    (mem_append_left _ (mem_append_left _ hb))
  have hfits := h.shape.fits
  rw [h.base_eq, h.total_eq] at hfits
  have haddr : addr = base + b.start * PAGE_SIZE := (Prod.mk.inj hext).1.symm
  have hword : addr < WORD := by
    unfold Fits PAGE_SIZE at *
    omega
  unfold addrToPage
  rw [wrapSub_of_le (haddr ▸ Nat.le_add_right _ _) hword, haddr, Nat.add_sub_cancel_left]
  exact frame_div _

/-- A released block that goes back to the shared allocator.  If pages are lost, page `0`
    is one of them. -/
theorem Inv.freeShared (hheld : (addr, order) ∈ sys.handed) :
    ∃ s' H', sys.alloc.inner.freePages (addrToPage sys.alloc.inner.base addr) order = some s' ∧
      Inv base total (sys.released addr order { sys.alloc with inner := s' }) H' C ∧
      Orderly sys.alloc.inner s' (H ++ C) (H' ++ C) ∧
      s'.allocatedPages + freeWeight s'.freeBlocks +
        lost sys.alloc.inner.freeBlocks (sys.alloc.inner.freeTarget
          (addrToPage sys.alloc.inner.base addr) order) = sys.reached ∧
      (lost sys.alloc.inner.freeBlocks (sys.alloc.inner.freeTarget
          (addrToPage sys.alloc.inner.base addr) order) ≠ 0 →
        0 ∉ pages (H' ++ C ++ pool s'.freeBlocks)) := by
  obtain ⟨⟨p, k⟩, H', hb, hmem, hH, hrest⟩ := h.held hheld
  have hpage : addrToPage sys.alloc.inner.base addr = p := by
    rw [h.base_eq]
    exact h.addrToPage_eq hmem hb
  obtain rfl : k = order := (Prod.mk.inj hb).2
  have hsame : (⟨p, k⟩ :: (H' ++ C)) ~ (H ++ C) := hH.symm.append_right C
  have hshape := h.shape.perm hsame
  obtain ⟨s', L', cut, hrun, hkeep, hshape', hreshape, hcut, hfirst⟩ :=
    hshape.freePages (h.order_le hheld)
  have hweight := hreshape.weight
  rw [length_pages_singleton, hcut] at hweight
  have hcovered : sys.alloc.inner.allocatedPages = 2 ^ k + (pages (H' ++ C)).length := by
    rw [h.counted, ← (pages_perm hsame).length_eq, pages_cons, length_append, length_block_pages]
  have hcount : s'.allocatedPages = (pages (H' ++ C)).length := by
    rw [hkeep.allocatedPages]
    rw [wrapSub_of_le (hcovered ▸ Nat.le_add_right _ _) (h.allocated_le.trans_lt h.total_lt),
      hcovered, Nat.add_sub_cancel_left]
  rw [hpage]
  refine ⟨s', H', hrun, ?_, ?_, ?_, ?_⟩
  · constructor
    case base_eq => exact hkeep.base.trans h.base_eq
    case total_eq => exact hkeep.totalPages.trans h.total_eq
    case shape => exact hshape'.canonical
    case handed => exact hrest
    case cached => exact h.cached
    case small =>
      intro c hc
      exact h.small c (hsame.subset (mem_cons_of_mem _ hc))
    case counted => exact hcount
  · exact hreshape.orderly hshape' hsame.symm (subset_append_right _ (H' ++ C))
  · unfold System.reached
    rw [hshape'.freeWeight_eq, hcount, hcovered]
    omega
  · intro hlost
    have hne : cut ≠ [] := by
      rintro rfl
      exact hlost hcut.symm
    -- the lost blocks and the covered pages are disjoint parts of what was covered before
    have hnodup : (pages (cut ++ (H' ++ C ++ pool L'))).Nodup :=
      (hreshape.frame (H' ++ C)).nodup_iff.mpr hshape.placed.nodup
    rw [pages_append, nodup_append] at hnodup
    rw [hshape'.pool_eq]
    exact fun hcovered => hnodup.2.2 0 (hfirst hne) 0 hcovered rfl

end

/-- The page goes to the cache of the hart, or to the shared allocator. -/
theorem freePage_cases (a : Allocator) (hart addr order : Nat) :
    ((order = 0 ∧ (a.freePageFast hart addr).1 = true) ∧ hart < MAX_CPU_HARTS ∧
      a.freePage hart addr order = some { a with
        cpuCaches := update a.cpuCaches hart (addr :: a.cpuCaches hart) }) ∨
    (¬ (order = 0 ∧ (a.freePageFast hart addr).1 = true) ∧ a.freePage hart addr order =
      (a.inner.freePages (addrToPage a.inner.base addr) order).map
        fun s => { a with inner := s }) := by
  unfold Allocator.freePage Allocator.freePageFast
  by_cases horder : order = 0
  · by_cases hhart : hart ≥ MAX_CPU_HARTS
    · simp [horder, hhart]
    · by_cases hroom : (a.cpuCaches hart).length < CPU_CACHE_SIZE
      · simp [horder, hhart, hroom, not_le.mp hhart]
      · simp [horder, hhart, hroom]
  · simp [horder]

/-- What a call does, seen from the invariant: with the blocks `B` in other hands before,
    it loses pages exactly if it is not lossless, and then page `0` is one of them. -/
structure Effect (base total : Nat) (sys : System) (c : Call) (sys' : System)
    (B H' C' : List Block) : Prop where
  inv : Inv base total sys' H' C'
  orderly : Orderly sys.alloc.inner sys'.alloc.inner B (H' ++ C')
  reached_le : sys'.reached ≤ sys.reached
  reached_eq : sys'.reached = sys.reached ↔ Lossless sys c
  lossy : ¬ Lossless sys c → 0 ∉ pages (H' ++ C' ++ pool sys'.alloc.inner.freeBlocks)

variable {sys' : System} {c : Call}

theorem Follows.effect (h : Follows base total sys sys' B) (hreached : sys'.reached = sys.reached)
    (hlossless : Lossless sys c) : ∃ H' C', Effect base total sys c sys' B H' C' := by
  obtain ⟨H', C', hinv, horderly⟩ := h
  exact ⟨H', C', hinv, horderly, hreached.le, iff_of_true hreached hlossless,
    fun hlossy => absurd hlossless hlossy⟩

/-- A release returns and gives the block back. -/
theorem Inv.freePage (h : Inv base total sys H C) (hart : Nat)
    (hheld : (addr, order) ∈ sys.handed) : ∃ a H' C', sys.alloc.freePage hart addr order = some a ∧
      Effect base total sys (.freePage hart addr order) (sys.released addr order a)
        (H ++ C) H' C' := by
  rcases freePage_cases sys.alloc hart addr order with ⟨hfast, hhart, hcall⟩ | ⟨hfast, hcall⟩
  · have hfollows := h.freeCached (hfast.1 ▸ hheld) hhart
    rw [← hfast.1] at hfollows
    have hlossless : Lossless sys (.freePage hart addr order) := .inl hfast
    obtain ⟨H', C', heffect⟩ := hfollows.effect rfl hlossless
    exact ⟨_, H', C', hcall, heffect⟩
  · obtain ⟨s', H', hrun, hinv, horderly, hreached, hfirst⟩ := h.freeShared hheld
    rw [hrun] at hcall
    have hafter : (sys.released addr order { sys.alloc with inner := s' }).reached =
        s'.allocatedPages + freeWeight s'.freeBlocks := rfl
    have hlossless : lost sys.alloc.inner.freeBlocks (sys.alloc.inner.freeTarget
        (addrToPage sys.alloc.inner.base addr) order) = 0 ↔
        Lossless sys (.freePage hart addr order) := by
      rw [h.shape.lost_freeTarget (h.order_le hheld)]
      exact ⟨.inr, fun hlossless => hlossless.resolve_left hfast⟩
    refine ⟨_, H', C, hcall, hinv, horderly, ?_, ?_, ?_⟩
    · rw [hafter, ← hreached]
      exact Nat.le_add_right _ _
    · rw [hafter, ← hreached, Nat.left_eq_add]
      exact hlossless
    · intro hlossy
      exact hfirst fun hzero => hlossy (hlossless.mp hzero)

/-! ### Steps and runs -/

/-- What one call does to the blocks. -/
theorem Inv.step (h : Inv base total sys H C) (hstep : Step sys c sys') :
    ∃ H' C', Effect base total sys c sys' (H ++ C) H' C' := by
  cases hstep with
  | @allocPage hart r a hcall =>
    obtain ⟨r', a', hcall', hfollows, hreached⟩ := h.allocPage hart
    cases hcall.symm.trans hcall'
    exact hfollows.effect hreached trivial
  | @allocPageZeroed hart r a hcall =>
    obtain ⟨r', a', hcall', hfollows, hreached⟩ := h.allocPage hart
    unfold Allocator.allocPageZeroed at hcall
    rw [hcall', Option.map_some] at hcall
    cases r' with
    | none =>
      cases hcall
      exact hfollows.effect hreached trivial
    | some page =>
      cases hcall
      obtain ⟨H', C', hinv, horderly⟩ := hfollows
      have hzeroed := hinv.writeHeld (m := fill a'.inner.mem page PAGE_SIZE 0)
        mem_cons_self ?_
      · exact Follows.effect ⟨H', C', hzeroed.1, horderly.trans hzeroed.2.1⟩
          (hzeroed.2.2.trans hreached) trivial
      · intro b hb
        apply fill_apply_of_not_mem
        exact hb
  | @allocPages order r a hcall =>
    obtain ⟨r', a', hcall', hfollows, hreached⟩ := h.allocPages rfl rfl order
    cases hcall.symm.trans hcall'
    exact hfollows.effect hreached trivial
  | @freePage hart addr order a hheld hcall =>
    obtain ⟨a', H', C', hcall', heffect⟩ := h.freePage hart hheld
    cases hcall.symm.trans hcall'
    exact ⟨H', C', heffect⟩
  | @store addr order dst x hheld hlo hhi =>
    have hstored := h.writeHeld (m := update sys.alloc.inner.mem dst x) hheld ?_
    · exact Follows.effect ⟨H, C, hstored.1, hstored.2.1⟩ hstored.2.2 trivial
    · intro b hb
      apply update_of_ne
      rintro rfl
      rcases hb with hb | hb
      · exact absurd hlo (not_le.mpr hb)
      · exact absurd hhi (not_lt.mpr hb)

theorem Step.deterministic {t u : System} (ht : Step sys c t) (hu : Step sys c u) : t = u := by
  cases ht <;> cases hu <;> simp_all

def Allowed (sys : System) : Call → Prop
  | .freePage _ addr order => (addr, order) ∈ sys.handed
  | .store dst _ => ∃ e ∈ sys.handed, e.1 ≤ dst ∧ dst < e.1 + 2 ^ e.2 * PAGE_SIZE
  | _ => True

theorem Inv.progress (h : Inv base total sys H C) (hallowed : Allowed sys c) :
    ∃ sys', Step sys c sys' := by
  cases c with
  | allocPage hart =>
    obtain ⟨r, a, hcall, _⟩ := h.allocPage hart
    exact ⟨_, .allocPage hcall⟩
  | allocPageZeroed hart =>
    obtain ⟨r, a, hcall, _⟩ := h.allocPage hart
    cases r <;> exact ⟨_, .allocPageZeroed (by rw [Allocator.allocPageZeroed, hcall]; rfl)⟩
  | allocPages order =>
    obtain ⟨r, a, hcall, _⟩ := h.allocPages rfl rfl order
    exact ⟨_, .allocPages hcall⟩
  | freePage hart addr order =>
    obtain ⟨a, _, _, hcall, _⟩ := h.freePage hart hallowed
    exact ⟨_, .freePage hallowed hcall⟩
  | store dst x =>
    obtain ⟨⟨addr, order⟩, hheld, hlo, hhi⟩ := hallowed
    exact ⟨_, .store hheld hlo hhi⟩

variable {calls : List Call}

/-- Along a run the reached pages only decrease, and stay the same exactly when every
    call is lossless; otherwise page `0` is lost. -/
theorem Inv.run (hrun : Run Step sys calls sys') : ∀ {H C : List Block}, Inv base total sys H C →
      ∃ H' C', Inv base total sys' H' C' ∧
        Orderly sys.alloc.inner sys'.alloc.inner (H ++ C) (H' ++ C') ∧
        sys'.reached ≤ sys.reached ∧
        (sys'.reached = sys.reached ↔ Run (Guarded Step Lossless) sys calls sys') ∧
        (sys'.reached ≠ sys.reached →
          0 ∉ pages (H' ++ C' ++ pool sys'.alloc.inner.freeBlocks)) := by
  induction hrun with
  | nil sys =>
    intro H C h
    exact ⟨H, C, h, .of_perm (fun _ _ => rfl) (.refl _), le_refl _,
      iff_of_true rfl (.nil sys), fun hne => absurd rfl hne⟩
  | @cons sys t u c calls hfirst _ ih =>
    intro H C h
    obtain ⟨H1, C1, heffect⟩ := h.step hfirst
    obtain ⟨H2, C2, hinv, horderly, hle, hiff, hlossy⟩ := ih heffect.inv
    have hle' := heffect.reached_le
    refine ⟨H2, C2, hinv, heffect.orderly.trans horderly, hle.trans hle', ?_, ?_⟩
    · constructor
      · intro heq
        have hrest : u.reached = t.reached := by omega
        exact .cons ⟨heffect.reached_eq.mp (hrest.symm.trans heq), hfirst⟩ (hiff.mp hrest)
      · intro hguarded
        cases hguarded with
        | cons hfirst' hrest =>
          obtain rfl := hfirst'.2.deterministic hfirst
          exact (hiff.mpr hrest).trans (heffect.reached_eq.mpr hfirst'.1)
    · intro hne
      by_cases hrest : u.reached = t.reached
      · -- the loss was in the first call, and page `0` is not covered again
        have hfirstLossy : ¬ Lossless sys c := fun hlossless =>
          hne (hrest.trans (heffect.reached_eq.mpr hlossless))
        exact fun hcovered => heffect.lossy hfirstLossy (horderly.covered hcovered)
      · exact hlossy hrest

/-! ### After boot -/

theorem pool_nil : pool (fun _ => []) = [] := by
  simp [pool]

/-- The invariant holds after boot, the buddies are joined, and what is missing is the
    first block of the largest order. -/
theorem boot_inv {limit : Nat} (mem : Memory) (hle : base ≤ limit) (hword : limit < WORD) :
    Inv base ((limit - base) / PAGE_SIZE) (System.boot base limit mem) [] [] ∧
      (System.boot base limit mem).reached + initLoss ((limit - base) / PAGE_SIZE) =
        (limit - base) / PAGE_SIZE ∧
      Tidy (System.boot base limit mem).alloc.inner.freeBlocks
        (initLoss ((limit - base) / PAGE_SIZE)) := by
  have hsub : wrapSub limit base = limit - base := wrapSub_of_le hle hword
  set total := (limit - base) / PAGE_SIZE
  set s : BuddyInner :=
    { freeLists := fun _ => none, base, limit, totalPages := total, allocatedPages := 0, mem }
  have hinit : BuddyInner.init base limit mem = s.initLoop total 0 MAX_ORDER := by
    unfold BuddyInner.init
    rw [hsub]
  have hregion : base + total * PAGE_SIZE ≤ limit := by
    have hle : total * PAGE_SIZE ≤ limit - base := Nat.div_mul_le_self _ _
    omega
  have hstart : Carved s (fun _ => []) 0 (initLoss 0) := by
    constructor
    case shape =>
      constructor
      case region => exact hregion
      case limit_lt => exact hword
      case chain =>
        intro k _
        rfl
      case placed =>
        rw [pool_nil]
        constructor <;> simp
    case below => simp [pool_nil]
    case weight =>
      unfold freeWeight
      rfl
  have hsum : 0 + total = s.totalPages := Nat.zero_add _
  have htidy : Tidy (fun _ => []) (initLoss 0) :=
    ⟨fun _ _ _ hp => absurd hp not_mem_nil, fun p _ => Nat.zero_le p⟩
  obtain ⟨L', hcarved, hend, hkeep⟩ := initLoop_large hstart (dvd_zero _) hsum
    (fun _ _ => rfl) (.inl ⟨rfl, rfl⟩) htidy
  rw [← hinit] at hcarved hkeep
  refine ⟨?_, ?_, ?_⟩
  · constructor
    case base_eq => exact hkeep.base
    case total_eq => exact hkeep.totalPages
    case shape => exact hcarved.shape.canonical
    case handed => exact .refl _
    case cached =>
      show (Allocator.boot base limit mem).cached ~ []
      simp [Allocator.cached, Allocator.boot]
    case small => simp
    case counted => exact hkeep.allocatedPages
  · have hweight := hcarved.weight
    show (BuddyInner.init base limit mem).allocatedPages +
      freeWeight (BuddyInner.init base limit mem).freeBlocks + initLoss total = total
    rw [hcarved.shape.freeWeight_eq, hkeep.allocatedPages, Nat.zero_add]
    exact hweight
  · show Tidy (BuddyInner.init base limit mem).freeBlocks (initLoss total)
    constructor
    · intro k hk p hp
      rw [hcarved.shape.freeBlocks_eq hk.le] at hp ⊢
      exact hend.coalesced k hk p hp
    · rw [hcarved.shape.pool_eq]
      exact hend.above

/-- Two byte ranges, given by address and order, have no byte in common. -/
def ExtentsApart (e f : Nat × Nat) : Prop :=
  e.1 + 2 ^ e.2 * PAGE_SIZE ≤ f.1 ∨ f.1 + 2 ^ f.2 * PAGE_SIZE ≤ e.1

theorem Block.Apart.extentsApart {c : Block} (h : b.Apart c) :
    ExtentsApart (extent base b) (extent base c) := by
  rcases h with h | h
  · left
    show base + b.start * 4096 + 2 ^ b.order * 4096 ≤ base + c.start * 4096
    omega
  · right
    show base + c.start * 4096 + 2 ^ c.order * 4096 ≤ base + b.start * 4096
    omega

/-! ### Runs on one block -/

local instance lawfulBEq_block : LawfulBEq (Nat × Nat) := inferInstance

def System.exec (sys : System) : Call → Option System
  | .allocPage hart => (sys.alloc.allocPage hart).map fun r => sys.grant r.1 0 r.2
  | .allocPageZeroed hart => (sys.alloc.allocPageZeroed hart).map fun r => sys.grant r.1 0 r.2
  | .allocPages order => (sys.alloc.allocPages order).map fun r => sys.grant r.1 order r.2
  | .freePage hart addr order =>
      if (addr, order) ∈ sys.handed then
        (sys.alloc.freePage hart addr order).map (sys.released addr order)
      else none
  | .store dst x =>
      if ∃ e ∈ sys.handed, e.1 ≤ dst ∧ dst < e.1 + 2 ^ e.2 * PAGE_SIZE then some (sys.poke dst x)
      else none

theorem step_of_exec (c : Call) (_ : c ∈ calls) (sys sys' : System)
    (h : sys.exec c = some sys') : Step sys c sys' := by
  cases c with
  | allocPage hart =>
    obtain ⟨⟨r, a⟩, hcall, rfl⟩ := Option.map_eq_some_iff.mp h
    exact .allocPage hcall
  | allocPageZeroed hart =>
    obtain ⟨⟨r, a⟩, hcall, rfl⟩ := Option.map_eq_some_iff.mp h
    exact .allocPageZeroed hcall
  | allocPages order =>
    obtain ⟨⟨r, a⟩, hcall, rfl⟩ := Option.map_eq_some_iff.mp h
    exact .allocPages hcall
  | freePage hart addr order =>
    obtain ⟨hheld, hrun⟩ := Option.ite_none_right_eq_some.mp h
    obtain ⟨a, hcall, rfl⟩ := Option.map_eq_some_iff.mp hrun
    exact .freePage hheld hcall
  | store dst x =>
    obtain ⟨⟨⟨addr, order⟩, hheld, hlo, hhi⟩, hrun⟩ := Option.ite_none_right_eq_some.mp h
    cases hrun
    exact .store hheld hlo hhi

/-- The state after `init` on a region of `2 ^ order` pages: one free block. -/
def oneBlock (base limit order : Nat) : System where
  alloc :=
    { inner := BuddyInner.pushFree
        { freeLists := fun _ => none, base, limit, totalPages := 2 ^ order
          allocatedPages := 0, mem := fun _ => 0 } 0 order
      cpuCaches := fun _ => []
      cacheHits := 0
      cacheMisses := 0 }
  handed := []

/-- After boot on a region of four pages. -/
def fourPages : System := System.boot 0x80000000 0x80004000 fun _ => 0

theorem fourPages_eq : fourPages = oneBlock 0x80000000 0x80004000 2 := by
  have hpages : wrapSub 0x80004000 0x80000000 / PAGE_SIZE = 4 := by decide
  simp [System.boot, Allocator.boot, BuddyInner.init, hpages, fourPages, oneBlock, MAX_ORDER,
    BuddyInner.initLoop]

theorem fourPages_run {P : System → Prop} [DecidablePred P] (calls : List Call)
    (h : (calls.foldlM System.exec (oneBlock 0x80000000 0x80004000 2)).any P = true) :
    ∃ sys, Run Step fourPages calls sys ∧ P sys := by
  rw [fourPages_eq]
  exact exists_run_of_foldlM _ calls step_of_exec h

/-! ### Disjointness and progress -/

/-- **No double allocation.**  After every run of allocations, releases of held
    blocks and stores into held blocks, each free list ends, and the blocks handed
    out, cached and free are pairwise disjoint, lie inside the region and start at a
    page index that is a multiple of their size. -/
theorem no_double_allocation {base limit : Nat} {mem : Memory} {calls : List Call}
    {sys : System} (hlt : base < limit) (hword : limit < WORD)
    (hrun : Run Step (System.boot base limit mem) calls sys) :
    (∀ order ≤ MAX_ORDER, Chain sys.alloc.inner.next (sys.alloc.inner.freeLists order)
      (sys.alloc.inner.freeBlocks order)) ∧
    sys.extents.Pairwise ExtentsApart ∧ ∀ e ∈ sys.extents, base ≤ e.1 ∧
      e.1 + 2 ^ e.2 * PAGE_SIZE ≤ base + sys.alloc.totalPages * PAGE_SIZE ∧
      ∃ i, e.1 = base + i * PAGE_SIZE ∧ 2 ^ e.2 ∣ i := by
  obtain ⟨hboot, _⟩ := boot_inv mem hlt.le hword
  obtain ⟨H, C, hinv, _⟩ := Inv.run hrun hboot
  refine ⟨hinv.shape.chain, ?_, ?_⟩
  · apply List.Pairwise.perm _ hinv.extents_perm.symm fun hapart => Or.symm hapart
    apply pairwise_map.mpr
    exact hinv.placed.pairwise_apart.imp fun hapart => Block.Apart.extentsApart hapart
  · intro e he
    obtain ⟨b, hb, rfl⟩ := mem_map.mp (hinv.extents_perm.subset he)
    have hstop := hinv.placed.stop_le hb
    refine ⟨Nat.le_add_right _ _, ?_, b.start, rfl, hinv.placed.aligned b hb⟩
    have htotal : sys.alloc.totalPages = (limit - base) / PAGE_SIZE := hinv.total_eq
    rw [htotal]
    show base + b.start * PAGE_SIZE + 2 ^ b.order * PAGE_SIZE ≤ _
    rw [Nat.add_assoc, ← Nat.add_mul]
    exact Nat.add_le_add_left (Nat.mul_le_mul_right _ hstop) base

theorem no_double_allocation_four_pages :
    ∃ sys, Run Step fourPages [.allocPage 0, .allocPages 1, .allocPage 1] sys ∧
      sys.handed.length = 3 ∧ sys.extents.Pairwise ExtentsApart := by
  obtain ⟨sys, hrun, hheld⟩ := fourPages_run (P := fun sys => sys.handed.length = 3)
    [.allocPage 0, .allocPages 1, .allocPage 1] (by decide +kernel)
  exact ⟨sys, hrun, hheld, (no_double_allocation (by decide) (by decide) hrun).2.1⟩

/-- **The allocator returns.**  After every run no allowed call panics or searches for ever, and
    an allocation fails only if every free block is too small. -/
theorem allocator_total {base limit : Nat} {mem : Memory} {calls : List Call} {sys : System}
    (hle : base ≤ limit) (hword : limit < WORD)
    (hrun : Run Step (System.boot base limit mem) calls sys) :
    (∀ c, Allowed sys c → ∃ sys', Step sys c sys') ∧
    ∀ order, ∃ r a, sys.alloc.allocPages order = some (r, a) ∧
      (r = none ↔ ∀ b ∈ pool sys.alloc.inner.freeBlocks, b.order < order) := by
  obtain ⟨H, C, hinv, _⟩ := Inv.run hrun (boot_inv mem hle hword).1
  refine ⟨fun _ => hinv.progress, fun order => ?_⟩
  rcases hinv.shape.allocPages order with ⟨hcall, hsmall⟩ | ⟨p, s', _, hcall, _, ⟨b, hb, hle⟩, _⟩
  · exact ⟨_, _, congrArg (Option.map _) hcall, iff_of_true rfl hsmall⟩
  · refine ⟨_, _, congrArg (Option.map _) hcall, iff_of_false nofun fun hsmall => ?_⟩
    exact hle.not_gt (hsmall b hb)

/-- One half of the region is held: it can be released, the other half can be allocated, and
    the whole region cannot. -/
theorem allocator_total_four_pages :
    ∃ sys, Run Step fourPages [.allocPages 1] sys ∧
      (∃ sys', Step sys (.freePage 0 0x80000000 1) sys') ∧
      (∃ addr a, sys.alloc.allocPages 1 = some (some addr, a)) ∧
      ∃ a, sys.alloc.allocPages 2 = some (none, a) := by
  obtain ⟨sys, hrun, hheld, hpool⟩ := fourPages_run
    (P := fun sys => (0x80000000, 1) ∈ sys.handed ∧
      pool sys.alloc.inner.freeBlocks = [⟨2, 1⟩]) [.allocPages 1] (by decide +kernel)
  obtain ⟨hprogress, halloc⟩ := allocator_total (by decide) (by decide) hrun
  refine ⟨sys, hrun, hprogress (.freePage 0 0x80000000 1) hheld, ?_, ?_⟩
  · obtain ⟨r, a, hcall, hnone⟩ := halloc 1
    obtain ⟨addr, rfl⟩ := Option.ne_none_iff_exists'.mp (mt hnone.mp (by simp [hpool]))
    exact ⟨addr, a, hcall⟩
  · obtain ⟨r, a, hcall, hnone⟩ := halloc 2
    exact ⟨a, hnone.mpr (by simp [hpool]) ▸ hcall⟩

/-! ### Conservation -/

/-- The free and the allocated pages add up to the region, and every page of the
    region lies in a block that is handed out, cached or free. -/
def System.Conserved (sys : System) : Prop :=
  (∃ free, sys.alloc.countFreePages = some free ∧
    free + sys.alloc.allocatedPages = sys.alloc.totalPages) ∧
  ∀ page < sys.alloc.totalPages, ∃ e ∈ sys.extents,
    e.1 ≤ sys.alloc.inner.base + page * PAGE_SIZE ∧
      sys.alloc.inner.base + page * PAGE_SIZE < e.1 + 2 ^ e.2 * PAGE_SIZE

/-- Pages are conserved exactly if all are reached. -/
theorem Inv.conserved_iff (h : Inv base total sys H C) : sys.Conserved ↔ sys.reached = total := by
  have hcount : sys.alloc.countFreePages = some (freeWeight sys.alloc.inner.freeBlocks) :=
    h.shape.countFreePages
  have htotal : sys.alloc.totalPages = total := h.total_eq
  have hreached : sys.reached =
      sys.alloc.allocatedPages + freeWeight sys.alloc.inner.freeBlocks := rfl
  constructor
  · rintro ⟨⟨free, hfree, hsum⟩, _⟩
    rw [hcount] at hfree
    cases hfree
    omega
  · intro hfull
    refine ⟨⟨_, hcount, by omega⟩, ?_⟩
    intro page hpage
    rw [htotal] at hpage
    obtain ⟨b, hb, hin⟩ := h.placed.covers (h.reached_eq.symm.trans hfull) hpage
    obtain ⟨hlo, hhi⟩ := Block.mem_pages.mp hin
    refine ⟨extent base b, h.extents_perm.symm.subset (mem_map_of_mem hb), ?_⟩
    rw [h.base_eq]
    show base + b.start * 4096 ≤ base + page * 4096 ∧
      base + page * 4096 < base + b.start * 4096 + 2 ^ b.order * 4096
    omega

/-- **Conservation.**  After a run from boot all pages are accounted for exactly when
    the region has fewer than 8192 pages and no call of the run pushes onto a free
    list headed by page `0`. -/
theorem pages_conserved_iff {base limit : Nat} {mem : Memory} {calls : List Call}
    {sys : System} (hlt : base < limit) (hword : limit < WORD)
    (hrun : Run Step (System.boot base limit mem) calls sys) :
    sys.Conserved ↔ (limit - base) / PAGE_SIZE < 8192 ∧
      Run (Guarded Step Lossless) (System.boot base limit mem) calls sys := by
  obtain ⟨hboot, hinit, _⟩ := boot_inv mem hlt.le hword
  obtain ⟨H, C, hinv, _, hle, hiff, _⟩ := Inv.run hrun hboot
  have hloss : initLoss ((limit - base) / PAGE_SIZE) = 0 ↔ (limit - base) / PAGE_SIZE < 8192 := by
    unfold initLoss
    split <;> simp_all
  rw [hinv.conserved_iff, ← hiff, ← hloss]
  omega

/-- On four pages a run is lossless if all four are reached at its end. -/
theorem fourPages_lossless (hrun : Run Step fourPages calls sys) (hreached : sys.reached = 4) :
    Run (Guarded Step Lossless) fourPages calls sys := by
  obtain ⟨hboot, hinit, _⟩ := boot_inv (fun _ => 0) (show 0x80000000 ≤ 0x80004000 by decide)
    (by decide)
  obtain ⟨_, _, _, _, _, hiff, _⟩ := Inv.run hrun hboot
  exact hiff.mp (hreached.trans hinit.symm)

theorem pages_conserved_four_pages : ∃ sys, Run Step fourPages
    [.allocPages 1, .freePage 0 0x80000000 1, .allocPage 0] sys ∧ sys.Conserved := by
  obtain ⟨sys, hrun, hreached⟩ := fourPages_run (P := fun sys => sys.reached = 4)
    [.allocPages 1, .freePage 0 0x80000000 1, .allocPage 0] (by decide +kernel)
  exact ⟨sys, hrun, (pages_conserved_iff (by decide) (by decide) hrun).mpr
    ⟨by decide, fourPages_lossless hrun hreached⟩⟩

/-- A region of 8192 pages: right after `init` half of it is unreachable. -/
theorem init_loses_first_block :
    (System.boot 0x80000000 0x82000000 fun _ => 0).alloc.countFreePages = some 4096 ∧
      (System.boot 0x80000000 0x82000000 fun _ => 0).alloc.allocatedPages = 0 ∧
      (System.boot 0x80000000 0x82000000 fun _ => 0).alloc.totalPages = 8192 ∧
      ¬ (System.boot 0x80000000 0x82000000 fun _ => 0).Conserved := by
  obtain ⟨hinv, hinit, _⟩ :=
    boot_inv (fun _ => 0) (show 0x80000000 ≤ 0x82000000 by decide) (by decide)
  set sys := System.boot 0x80000000 0x82000000 fun _ => 0
  have hreached : sys.reached + 4096 = 8192 := hinit
  have hcounted : sys.alloc.allocatedPages = 0 := hinv.counted
  have hsplit : sys.reached =
      sys.alloc.allocatedPages + freeWeight sys.alloc.inner.freeBlocks := rfl
  refine ⟨?_, hcounted, hinv.total_eq, ?_⟩
  · have hweight : freeWeight sys.alloc.inner.freeBlocks = 4096 := by omega
    have hcount := hinv.shape.countFreePages
    rw [hweight] at hcount
    exact hcount
  · intro hconserved
    have hfull : sys.reached = 8192 := hinv.conserved_iff.mp hconserved
    omega

end TrainOS.Buddy
