import TrainOS.RadixFootprint
import TrainOS.StateExcept
import TrainOS.Sv39Walk

/-!
# Second-stage page tables of virtual machines (`hypervisor/mmu.rs`)

`create_gstage` builds a table of three levels over fresh pages; `destroy_gstage` frees the
footprint of the table, which after a successful build consists of pages that were allocated
for it, each once (`createGstage_exact`).
-/

namespace TrainOS.Hypervisor

open ByteMemory List RadixTable StateExcept Sv39

def MAX_GUEST_MB : Nat := 128

/-- Physical memory, the frames that are in use and the coming answers of `alloc_page`. -/
structure Host where
  mem : Memory
  allocated : List Nat
  answers : List Nat

/-- The frame is one that the allocator may hand out. -/
def Host.Free (s : Host) (f : Nat) : Prop := f ∉ s.allocated ∧ 0 < f ∧ f < 2 ^ 44

instance (s : Host) (f : Nat) : Decidable (s.Free f) := inferInstanceAs (Decidable (_ ∧ _))

/-- `buddy::alloc_page().ok_or(err)?`.  The next answer is the frame that is handed out; an answer
    that is no free frame stands for a failure. -/
def allocPage (err : String) : Prog Host String Nat := do
  let s ← get
  match s.answers with
  | [] => throw err
  | f :: rest =>
      if s.Free f then
        set { s with allocated := f :: s.allocated, answers := rest }
        pure (f * PAGE_SIZE)
      else throw err

def newPage (err : String) : Prog Host String Nat := do
  let page ← allocPage err
  modify fun s => { s with mem := fill s.mem page PAGE_SIZE 0 }
  pure page

def linkPage (err : String) (table : Nat) (i : Fin 512) (entry : Nat → PTE) :
    Prog Host String Nat := do
  let page ← newPage err
  modify fun s => { s with mem := writePte s.mem table i (entry page) }
  pure page

/-- The inner loop of `create_gstage`: the backing pages, whose flags are `FLAG_GUEST_RW`. -/
def backPages (l0 count : Nat) : Prog Host String PUnit :=
  forM (range count) fun vpn0 => do
    let _ ← linkPage "OOM: backing page" l0 (Fin.ofNat 512 vpn0) fun page =>
      .page page true true false true
    pure ⟨⟩

def backBlock (l1 vpn1 : Nat) : Prog Host String PUnit := do
  let l0 ← linkPage "OOM: L0 page" l1 (Fin.ofNat 512 vpn1) .table
  backPages l0 512

def createGstage (memMb : Nat) : Prog Host String (Nat × Nat) :=
  if memMb = 0 ∨ memMb > MAX_GUEST_MB then throw "invalid guest memory size"
  else do
    let l2 ← newPage "OOM: L2 page"
    let l1 ← linkPage "OOM: L1 page" l2 0 .table
    forM (range ((memMb + 1) / 2)) (backBlock l1)
    pure ((8 <<< 60) ||| ((l2 >>> 12) &&& 0xFFFFFFFFFFFF), l2)

/-! ### The walk of `destroy_gstage` -/

/-- Blocks as `free_page` gets them: address and order. -/
abbrev Block := Nat × Nat

def backingBlocks (m : Memory) (l0 : Nat) : List Block :=
  (finRange 512).flatMap fun vpn0 =>
    let e := readPte m l0 vpn0
    if e.isValid && e.isLeaf then [(e.physAddr, 0)] else []

/-- One pass of the middle loop: a superpage is a block of order 9. -/
def regionBlocks (m : Memory) (l1 : Nat) (vpn1 : Fin 512) : List Block :=
  let e := readPte m l1 vpn1
  if !e.isValid then []
  else if e.isLeaf then [(e.physAddr, 9)]
  else backingBlocks m e.physAddr ++ [(e.physAddr, 0)]

def gigaBlocks (m : Memory) (l2 : Nat) (vpn2 : Fin 512) : List Block :=
  let e := readPte m l2 vpn2
  if !e.isValid || e.isLeaf then []
  else (finRange 512).flatMap (regionBlocks m e.physAddr) ++ [(e.physAddr, 0)]

def gstageBlocks (m : Memory) (l2 : Nat) : List Block :=
  (finRange 512).flatMap (gigaBlocks m l2) ++ [(l2, 0)]

/-- `free_page`: the frames of the block are no longer in use. -/
def freeBlock (allocated : List Nat) (b : Block) : List Nat :=
  allocated.filter fun f => ¬ (b.1 / PAGE_SIZE ≤ f ∧ f < b.1 / PAGE_SIZE + 2 ^ b.2)

def destroyGstage (s : Host) (l2 : Nat) : Host :=
  if l2 = 0 then s else { s with allocated := (gstageBlocks s.mem l2).foldl freeBlock s.allocated }

/-! ### The walk as a footprint -/

/-- What a leaf of a level stands for: at the top it is skipped. -/
def leafBlocks : Nat → PTE → List Block
  | 0, e => [(e.physAddr, 0)]
  | 1, e => [(e.physAddr, 9)]
  | _, _ => []

def frameBlock (f : Nat) : Block := (f * PAGE_SIZE, 0)

def gstageFoot (m : Memory) (f : Nat) : List Block :=
  footprint (finRange 512) leafBlocks frameBlock (tables m) 2 f

theorem occupies_decode (e : PTE) (leaf : PTE → List Block) (sub : Nat → List Block) :
    e.decode.occupies leaf sub =
      if !e.isValid then [] else if e.isLeaf then leaf e else sub e.ppn := by
  unfold PTE.decode
  split
  · rfl
  · split <;> rfl

theorem backingBlocks_eq (m : Memory) (f : Nat) :
    backingBlocks m (f * PAGE_SIZE) ++ [frameBlock f] =
    footprint (finRange 512) leafBlocks frameBlock (tables m) 0 f := by
  refine congrArg (· ++ [frameBlock f]) (flatMap_congr fun i _ => ?_)
  rw [tables, occupies_decode]
  generalize readPte m (f * PAGE_SIZE) i = e
  dsimp only
  cases e.isValid <;> cases e.isLeaf <;> rfl

theorem regionBlocks_eq (m : Memory) (f : Nat) :
    (finRange 512).flatMap (regionBlocks m (f * PAGE_SIZE)) ++ [frameBlock f] =
      footprint (finRange 512) leafBlocks frameBlock (tables m) 1 f := by
  refine congrArg (· ++ [frameBlock f]) (flatMap_congr fun i _ => ?_)
  unfold regionBlocks
  rw [tables, occupies_decode]
  generalize readPte m (f * PAGE_SIZE) i = e
  rw [← backingBlocks_eq, ← physAddr_eq]
  rw [frameBlock, ← physAddr_eq]
  rfl

theorem gstageBlocks_eq (m : Memory) (f : Nat) :
    gstageBlocks m (f * PAGE_SIZE) = gstageFoot m f := by
  refine congrArg (· ++ [frameBlock f]) (flatMap_congr fun i _ => ?_)
  unfold gigaBlocks
  rw [tables, occupies_decode]
  generalize readPte m (f * PAGE_SIZE) i = e
  rw [← regionBlocks_eq, frameBlock, ← physAddr_eq]
  dsimp only
  generalize (finRange 512).flatMap (regionBlocks m e.physAddr) = blocks
  cases e.isValid <;> cases e.isLeaf <;> rfl

/-! ### Building -/

/-- Pages may have been taken since `s₀`, and the tables that were in use are as they were. -/
structure Grown (s₀ s : Host) : Prop where
  subset : s₀.allocated ⊆ s.allocated
  tables_eq : ∀ f ∈ s₀.allocated, ∀ i, tables s.mem f i = tables s₀.mem f i

/-- The table at `root` consists of pages that have been taken since `s₀`, each once. -/
structure Built (s₀ : Host) (root : Nat) (s : Host) : Prop extends Grown s₀ s where
  free : s₀.Free root
  fresh : ∀ b ∈ gstageFoot s.mem root, ∃ f, b = frameBlock f ∧ f ∈ s.allocated ∧ f ∉ s₀.allocated
  nodup : (gstageFoot s.mem root).Nodup

/-- The state after `linkPage` has handed out the frame `f`. -/
def Host.link (s : Host) (f t : Nat) (i : Fin 512) (e : PTE) : Host where
  mem := writePte (fill s.mem (f * PAGE_SIZE) PAGE_SIZE 0) (t * PAGE_SIZE) i e
  allocated := f :: s.allocated
  answers := s.answers.tail

/-- The table at `root` got the frame `f`. -/
def Adds (root f : Nat) (s s' : Host) : Prop :=
  (gstageFoot s'.mem root).Perm (frameBlock f :: gstageFoot s.mem root)

variable {s₀ s : Host} {root f t g memMb : Nat} {i : Fin 512} {e : PTE} {b : Block}

theorem frameBlock_inj (h : frameBlock f = frameBlock g) : f = g :=
  Nat.eq_of_mul_eq_mul_right (by decide) (Prod.mk.inj h).1

theorem Grown.refl (s : Host) : Grown s s := ⟨.refl _, fun _ _ _ => rfl⟩

theorem tables_link :
    tables (s.link f t i e).mem = write (clear (tables s.mem) f) t i e.decode := by
  rw [Host.link, tables_writePte, tables_fill]

theorem tables_link_self : tables (s.link f t i e).mem t i = e.decode := by
  rw [tables_link, write_self]

variable {j : Fin 512}

theorem tables_link_of_ne (hg : g ≠ f) (hne : ¬ (g = t ∧ j = i)) :
    tables (s.link f t i e).mem g j = tables s.mem g j := by
  rw [tables_link]
  unfold RadixTable.write
  rw [if_neg hne, clear_of_ne hg]

theorem tables_link_new (hf : f ≠ t) : tables (s.link f t i e).mem f j = .empty := by
  rw [tables_link, write_of_frame_ne hf, clear_self]

variable {path : List (Fin 512)}

section

variable (h : Built s₀ root s)
include h

theorem Built.mem_allocated (hf : frameBlock f ∈ gstageFoot s.mem root) :
    f ∈ s.allocated ∧ f ∉ s₀.allocated := by
  obtain ⟨g, hfg, hg⟩ := h.fresh _ hf
  rw [frameBlock_inj hfg]
  exact hg

theorem Built.root_mem : root ∈ s.allocated :=
  (h.mem_allocated frame_mem_footprint).1

section

variable (hpath : frameAt (tables s.mem) root path = some t)
include hpath

theorem Built.table_mem (hlen : path.length ≤ 2) : t ∈ s.allocated ∧ t ∉ s₀.allocated :=
  h.mem_allocated (frame_mem_of_frameAt mem_finRange hpath hlen)

/-- A free frame is entered into an empty entry. -/
theorem Built.link {k : Nat} (hk : 2 = path.length + k) (hempty : tables s.mem t i = .empty)
    (hfree : s.Free f) (hocc : e.decode.occupies (leafBlocks k)
      (below (finRange 512) leafBlocks frameBlock (tables (s.link f t i e).mem) k) =
        [frameBlock f]) :
    Built s₀ root (s.link f t i e) ∧ Adds root f s (s.link f t i e) := by
  obtain ⟨ht, ht₀⟩ := h.table_mem hpath (by omega)
  have hnew : frameBlock f ∉ gstageFoot s.mem root := fun hmem => hfree.1 (h.mem_allocated hmem).1
  have hperm : Adds root f s (s.link f t i e) := by
    refine footprint_fill mem_finRange (nodup_finRange 512) hpath hk h.nodup hempty
      (fun g j hg hne => tables_link_of_ne ?_ hne) ?_
    · rintro rfl
      exact hnew hg
    · rw [tables_link_self]
      exact hocc
  refine ⟨⟨⟨fun g hg => mem_cons_of_mem _ (h.subset hg), fun g hg j => ?_⟩, h.free,
    fun b hb => ?_, ?_⟩, hperm⟩
  · have hgf : g ≠ f := fun heq => hfree.1 (heq ▸ h.subset hg)
    have hgt : g ≠ t := fun heq => ht₀ (heq ▸ hg)
    rw [tables_link_of_ne hgf fun hboth => hgt hboth.1]
    exact h.tables_eq g hg j
  · rcases mem_cons.mp (hperm.mem_iff.mp hb) with rfl | hold
    · exact ⟨f, rfl, mem_cons_self, fun hf₀ => hfree.1 (h.subset hf₀)⟩
    · obtain ⟨g, rfl, hg, hg₀⟩ := h.fresh b hold
      exact ⟨g, rfl, mem_cons_of_mem _ hg, hg₀⟩
  · exact hperm.nodup_iff.mpr (nodup_cons.mpr ⟨hnew, h.nodup⟩)

end

end

theorem page_lt (hf : f < 2 ^ 44) : f * PAGE_SIZE < 2 ^ 56 := by
  unfold PAGE_SIZE
  omega

theorem occupies_table (hf : f < 2 ^ 44) (hft : f ≠ t) (k : Nat) :
    (PTE.table (f * PAGE_SIZE)).decode.occupies (leafBlocks (k + 1))
      (below (finRange 512) leafBlocks frameBlock
        (tables (s.link f t i (.table (f * PAGE_SIZE))).mem) (k + 1)) = [frameBlock f] := by
  rw [decode_table (page_lt hf)]
  show footprint _ _ _ _ k f = _
  rw [footprint_eq]
  refine congrArg (· ++ [frameBlock f]) (flatMap_eq_nil_iff.mpr fun j _ => ?_)
  rw [tables_link_new hft]
  rfl

/-- The entry of a guest page: it may be read and written. -/
def guestPage (f : Nat) : PTE := .page (f * PAGE_SIZE) true true false true

theorem decode_guestPage (f : Nat) : (guestPage f).decode = .leaf (guestPage f) :=
  decode_page _ _ rfl

theorem occupies_page (hf : f < 2 ^ 44) (sub : Nat → List Block) :
    (guestPage f).decode.occupies (leafBlocks 0) sub = [frameBlock f] := by
  rw [decode_guestPage]
  show [((guestPage f).physAddr, 0)] = _
  rw [physAddr_eq, guestPage, PTE.ppn_page (page_lt hf), Nat.shiftRight_eq_div_pow]
  unfold frameBlock PAGE_SIZE
  rw [Nat.mul_div_cancel f (by decide)]

/-! ### The program -/

def Host.Next (s : Host) (f : Nat) : Prop := s.answers.head? = some f ∧ s.Free f

variable {P : Host → Prop} {err : String} {entry : Nat → PTE}

theorem triple_newPage (herr : ∀ s, P s → Grown s₀ s) :
    Triple P (newPage err) (fun page s => ∃ f, page = f * PAGE_SIZE ∧ ∃ s₁, P s₁ ∧ s₁.Next f ∧
      s = ⟨fill s₁.mem (f * PAGE_SIZE) PAGE_SIZE 0, f :: s₁.allocated, s₁.answers.tail⟩)
      (Grown s₀) := by
  refine ⟨fun s hs => ?_⟩
  unfold newPage allocPage
  rw [run_bind, run_get_bind]
  rcases hanswers : s.answers with _ | ⟨f, rest⟩
  · exact herr s hs
  · by_cases hfree : s.Free f
    · simp only [if_pos hfree]
      exact ⟨f, rfl, s, hs, ⟨by rw [hanswers]; rfl, hfree⟩, by simp [hanswers]⟩
    · simp only [if_neg hfree]
      exact herr s hs

theorem triple_linkPage (t : Nat) (i : Fin 512) (herr : ∀ s, P s → Grown s₀ s) :
    Triple P (linkPage err (t * PAGE_SIZE) i entry) (fun page s => ∃ f, page = f * PAGE_SIZE ∧
      ∃ s₁, P s₁ ∧ s₁.Next f ∧ s = s₁.link f t i (entry (f * PAGE_SIZE))) (Grown s₀) := by
  refine .bind (triple_newPage herr) fun page => .bind (.modify ?_) fun _ =>
    .pure fun s hs => hs
  rintro s ⟨f, rfl, s₁, hs₁, hfree, rfl⟩
  exact ⟨f, rfl, s₁, hs₁, hfree, rfl⟩

/-- Before pass `n` of the outer loop: the root leads to the table `l1`, whose entries from `n`
    on are empty. -/
structure Outer (s₀ : Host) (root l1 n : Nat) (s : Host) : Prop extends Built s₀ root s where
  top : tables s.mem root 0 = .branch l1
  ne : l1 ≠ root
  unused : ∀ j : Fin 512, n ≤ j → tables s.mem l1 j = .empty

/-- Before pass `k` of the inner loop: the table `l0` is under entry `n`. -/
structure Inner (s₀ : Host) (root l1 l0 n k : Nat) (s : Host) : Prop
    extends Outer s₀ root l1 (n + 1) s where
  middle : tables s.mem l1 (Fin.ofNat 512 n) = .branch l0
  ne_l1 : l0 ≠ l1
  ne_root : l0 ≠ root
  unused_l0 : ∀ j : Fin 512, k ≤ j → tables s.mem l0 j = .empty

variable {l1 l0 n k : Nat}

theorem val_ofNat_of_lt (hn : n < 512) : (Fin.ofNat 512 n).val = n := Nat.mod_eq_of_lt hn

theorem Outer.frameAt_l1 (h : Outer s₀ root l1 n s) : frameAt (tables s.mem) root [0] = some l1 :=
  frameAt_cons.mpr ⟨l1, h.top, rfl⟩

theorem Inner.frameAt_l0 (h : Inner s₀ root l1 l0 n k s) :
    frameAt (tables s.mem) root [0, Fin.ofNat 512 n] = some l0 :=
  frameAt_cons.mpr ⟨l1, h.top, frameAt_cons.mpr ⟨l0, h.middle, rfl⟩⟩

theorem built_root (hfree : s₀.Free root) (answers : List Nat) :
    Built s₀ root ⟨fill s₀.mem (root * PAGE_SIZE) PAGE_SIZE 0, root :: s₀.allocated, answers⟩ ∧
      gstageFoot (fill s₀.mem (root * PAGE_SIZE) PAGE_SIZE 0) root = [frameBlock root] := by
  have hfoot :
      gstageFoot (fill s₀.mem (root * PAGE_SIZE) PAGE_SIZE 0) root = [frameBlock root] := by
    refine congrArg (· ++ [frameBlock root]) (flatMap_eq_nil_iff.mpr fun j _ => ?_)
    rw [tables_fill, clear_self]
    rfl
  refine ⟨⟨⟨subset_cons_self _ _, fun f hf j => ?_⟩, hfree, fun b hb => ?_, ?_⟩, hfoot⟩
  · rw [tables_fill, clear_of_ne]
    rintro rfl
    exact hfree.1 hf
  · rw [hfoot] at hb
    exact ⟨root, mem_singleton.mp hb, mem_cons_self, hfree.1⟩
  · rw [hfoot]
    exact nodup_singleton _

/-! ### The order of the frames -/

/-- The frame that is taken as number `c`: 0 is the root, 1 the table below it, and each block of
    2 MiB has its table and then its pages. -/
def taken (s₀ : Host) (c : Nat) : Nat := s₀.answers.getD c 0

def takenFrames (s₀ : Host) (N : Nat) : List Nat := (range N).map (taken s₀)

/-- `N` frames are in their places. -/
structure Laid (s₀ : Host) (N : Nat) (s : Host) : Prop where
  answers : s.answers = s₀.answers.drop N
  allocated : s.allocated = (takenFrames s₀ N).reverse ++ s₀.allocated
  perm : (gstageFoot s.mem (taken s₀ 0)).Perm ((takenFrames s₀ N).map frameBlock)
  others : ∀ j : Fin 512, j ≠ 0 → tables s.mem (taken s₀ 0) j = .empty
  table : ∀ b, 513 * b + 2 < N →
    tables s.mem (taken s₀ 1) (Fin.ofNat 512 b) = .branch (taken s₀ (513 * b + 2))
  page : ∀ b c, c < 512 → 513 * b + 3 + c < N →
    tables s.mem (taken s₀ (513 * b + 2)) (Fin.ofNat 512 c) =
        .leaf (guestPage (taken s₀ (513 * b + 3 + c))) ∧
      ∀ o < PAGE_SIZE, s.mem (taken s₀ (513 * b + 3 + c) * PAGE_SIZE + o) = 0

variable {N : Nat}

theorem taken_of_next (h : s.answers = s₀.answers.drop N) (hnext : s.Next f) : taken s₀ N = f := by
  have hhead := hnext.1
  rw [h, head?_drop] at hhead
  rw [taken, getD_eq_getElem?_getD, hhead, Option.getD_some]

theorem link_page_bytes {o : Nat} (hg : g ≠ t) (ho : o < PAGE_SIZE) :
    (s.link f t i e).mem (g * PAGE_SIZE + o) =
      fill s.mem (f * PAGE_SIZE) PAGE_SIZE 0 (g * PAGE_SIZE + o) :=
  writePte_bytes (by rwa [frame_add g ho])

theorem Laid.nodup (h : Laid s₀ N s) (hb : Built s₀ (taken s₀ 0) s) : (takenFrames s₀ N).Nodup :=
  Nodup.of_map frameBlock (h.perm.nodup hb.nodup)

/-- The next frame is a table below frame 1 or a page below the last table. -/
theorem Laid.link {m : Nat} (h : Laid s₀ N s) (hb : Built s₀ (taken s₀ 0) s) (hnext : s.Next f)
    (hempty : tables s.mem (taken s₀ m) i = .empty) (hm : m < N) (hplace : m = 1 ∨ m % 513 = 2)
    (hadds : Adds (taken s₀ 0) f s (s.link f (taken s₀ m) i e))
    (htable : ∀ b, 513 * b + 2 = N → m = 1 ∧ i = Fin.ofNat 512 b ∧ e.decode = .branch f)
    (hpage : ∀ b c, c < 512 → 513 * b + 3 + c = N →
      m = 513 * b + 2 ∧ i = Fin.ofNat 512 c ∧ e.decode = .leaf (guestPage f)) :
    Laid s₀ (N + 1) (s.link f (taken s₀ m) i e) := by
  obtain rfl := taken_of_next h.answers hnext
  have hne : ∀ {c}, c < N → taken s₀ c ≠ taken s₀ N := by
    intro c hc heq
    refine hnext.2.1 ?_
    rw [h.allocated, ← heq]
    exact mem_append_left _ (mem_reverse.mpr (mem_map_of_mem (mem_range.mpr hc)))
  have hapart : ∀ {c}, c < N → c ≠ m → taken s₀ c ≠ taken s₀ m := by
    intro c hc hcm heq
    exact hcm (inj_on_of_nodup_map (h.nodup hb) (mem_range.mpr hc) (mem_range.mpr hm) heq)
  have hkept : ∀ {c j x}, c < N → tables s.mem (taken s₀ c) j = x → x ≠ .empty →
      tables (s.link (taken s₀ N) (taken s₀ m) i e).mem (taken s₀ c) j = x := by
    rintro c j _ hc rfl hx
    refine tables_link_of_ne (hne hc) ?_
    rintro ⟨heq, rfl⟩
    exact hx (heq ▸ hempty)
  constructor
  case answers => rw [Host.link, h.answers, tail_drop]
  case allocated => simp [Host.link, h.allocated, takenFrames, range_succ]
  case perm =>
    rw [takenFrames, range_succ, map_append, map_append]
    exact hadds.trans ((h.perm.cons _).trans (perm_append_singleton _ _).symm)
  case others =>
    intro j hj
    rw [tables_link_of_ne (hne (by omega)) fun hboth => hapart (by omega) (by omega) hboth.1]
    exact h.others j hj
  case table =>
    intro b hb
    rcases Nat.lt_succ_iff_lt_or_eq.mp hb with hb | hb
    · exact hkept (by omega) (h.table b hb) nofun
    · obtain ⟨rfl, rfl, hdecode⟩ := htable b hb
      rw [tables_link_self, hdecode, hb]
  case page =>
    intro b c hc hb
    rcases Nat.lt_succ_iff_lt_or_eq.mp hb with hb | hb
    · obtain ⟨hentry, hzero⟩ := h.page b c hc hb
      refine ⟨hkept (by omega) hentry nofun, fun o ho => ?_⟩
      rw [link_page_bytes (hapart hb (by omega)) ho,
        fill_bytes (by rw [frame_add _ ho]; exact hne hb)]
      exact hzero o ho
    · obtain ⟨rfl, rfl, hdecode⟩ := hpage b c hc hb
      rw [hb, tables_link_self, hdecode]
      refine ⟨rfl, fun o ho => ?_⟩
      rw [link_page_bytes (hne hm).symm ho]
      exact fill_apply_of_mem _ _ (by omega) (by omega)

/-- The loops keep the order: `n` blocks are complete, and of the next one `k` pages. -/
def LaidOuter (s₀ : Host) (n : Nat) (s : Host) : Prop :=
  Outer s₀ (taken s₀ 0) (taken s₀ 1) n s ∧ Laid s₀ (513 * n + 2) s

def LaidInner (s₀ : Host) (l0 n k : Nat) (s : Host) : Prop :=
  taken s₀ (513 * n + 2) = l0 ∧ Inner s₀ (taken s₀ 0) (taken s₀ 1) l0 n k s ∧
    Laid s₀ (513 * n + 3 + k) s

theorem laid_l1 (hroot : s₀.Next root) (hnext : Host.Next
      ⟨fill s₀.mem (root * PAGE_SIZE) PAGE_SIZE 0, root :: s₀.allocated, s₀.answers.tail⟩ f) :
    root = taken s₀ 0 ∧ f = taken s₀ 1 ∧ LaidOuter s₀ 0 (Host.link
      ⟨fill s₀.mem (root * PAGE_SIZE) PAGE_SIZE 0, root :: s₀.allocated, s₀.answers.tail⟩
      f root 0 (.table (f * PAGE_SIZE))) := by
  obtain rfl := taken_of_next (N := 0) rfl hroot
  obtain rfl := taken_of_next (N := 1) drop_one.symm hnext
  obtain ⟨h, hfoot⟩ := built_root hroot.2 s₀.answers.tail
  have hclear : ∀ j, tables (fill s₀.mem (taken s₀ 0 * PAGE_SIZE) PAGE_SIZE 0) (taken s₀ 0) j =
      .empty := fun j => by rw [tables_fill, clear_self]
  have hne : taken s₀ 1 ≠ taken s₀ 0 := fun heq => hnext.2.1 (heq ▸ h.root_mem)
  have hpath : frameAt (tables (fill s₀.mem (taken s₀ 0 * PAGE_SIZE) PAGE_SIZE 0)) (taken s₀ 0) [] =
      some (taken s₀ 0) := rfl
  obtain ⟨hbuilt, hadds⟩ := h.link hpath rfl (hclear 0) hnext.2 (occupies_table hnext.2.2.2 hne 1)
  rw [Adds, hfoot] at hadds
  refine ⟨rfl, rfl, ⟨hbuilt, ?_, hne, fun j _ => tables_link_new hne⟩,
    by rw [Host.link, ← drop_one, tail_drop], rfl, hadds.trans (Perm.swap _ _ _), fun j hj => ?_,
    fun b hb => by omega, fun b c _ hb => by omega⟩
  · rw [tables_link_self, decode_table (page_lt hnext.2.2.2)]
  · rw [tables_link_of_ne hne.symm fun hboth => hj hboth.2]
    exact hclear j

theorem LaidOuter.link_l0 (hall : LaidOuter s₀ n s) (hn : n < 512) (hnext : s.Next f) :
    LaidInner s₀ f n 0 (s.link f (taken s₀ 1) (Fin.ofNat 512 n) (.table (f * PAGE_SIZE))) := by
  obtain ⟨h, hlaid⟩ := hall
  have hfree := hnext.2
  have hl1 : taken s₀ 1 ∈ s.allocated := (h.table_mem h.frameAt_l1 (by decide)).1
  have hne : f ≠ taken s₀ 1 := fun heq => hfree.1 (heq ▸ hl1)
  have hneroot : f ≠ taken s₀ 0 := fun heq => hfree.1 (heq ▸ h.root_mem)
  have hempty : tables s.mem (taken s₀ 1) (Fin.ofNat 512 n) = .empty :=
    h.unused _ (val_ofNat_of_lt hn).ge
  have hdecode := decode_table (page_lt hfree.2.2)
  obtain ⟨hbuilt, hadds⟩ := h.link h.frameAt_l1 rfl hempty hfree (occupies_table hfree.2.2 hne 0)
  refine ⟨taken_of_next hlaid.answers hnext, ⟨⟨hbuilt, ?_, h.ne, fun j hj => ?_⟩, ?_, hne, hneroot,
    fun j _ => tables_link_new hne⟩, hlaid.link h.toBuilt hnext hempty (by omega) (.inl rfl) hadds
    (fun b hb => ?_) fun b c hc hb => by omega⟩
  · rw [tables_link_of_ne hneroot.symm fun hboth => h.ne hboth.1.symm]
    exact h.top
  · rw [tables_link_of_ne hne.symm]
    · exact h.unused j (Nat.le_of_succ_le hj)
    · rintro ⟨-, rfl⟩
      rw [val_ofNat_of_lt hn] at hj
      omega
  · rw [tables_link_self, hdecode]
  · obtain rfl : b = n := by omega
    exact ⟨rfl, rfl, hdecode⟩

theorem LaidInner.link_page (hall : LaidInner s₀ l0 n k s) (hk : k < 512) (hnext : s.Next f) :
    LaidInner s₀ l0 n (k + 1) (s.link f l0 (Fin.ofNat 512 k) (guestPage f)) := by
  obtain ⟨rfl, h, hlaid⟩ := hall
  have hfree := hnext.2
  have hl1 : taken s₀ 1 ∈ s.allocated := (h.table_mem h.frameAt_l1 (by decide)).1
  have hl0 := (h.table_mem h.frameAt_l0 (Nat.le_refl 2)).1
  have hne : ∀ g ∈ s.allocated, g ≠ f := fun g hg heq => hfree.1 (heq ▸ hg)
  have hempty := h.unused_l0 _ (val_ofNat_of_lt hk).ge
  obtain ⟨hbuilt, hadds⟩ := h.link h.frameAt_l0 rfl hempty hfree (occupies_page hfree.2.2 _)
  refine ⟨rfl, ⟨⟨hbuilt, ?_, h.ne, fun j hj => ?_⟩, ?_, h.ne_l1, h.ne_root, fun j hj => ?_⟩,
    hlaid.link h.toBuilt hnext hempty (by omega) (.inr (by omega)) hadds (fun b hb => by omega)
    fun b c hc hb => ?_⟩
  · rw [tables_link_of_ne (hne _ h.root_mem) fun hboth => h.ne_root hboth.1.symm]
    exact h.top
  · rw [tables_link_of_ne (hne _ hl1) fun hboth => h.ne_l1 hboth.1.symm]
    exact h.unused j hj
  · rw [tables_link_of_ne (hne _ hl1) fun hboth => h.ne_l1 hboth.1.symm]
    exact h.middle
  · rw [tables_link_of_ne (hne _ hl0)]
    · exact h.unused_l0 j (Nat.le_of_succ_le hj)
    · rintro ⟨-, rfl⟩
      rw [val_ofNat_of_lt hk] at hj
      omega
  · obtain ⟨rfl, rfl⟩ : b = n ∧ c = k := by omega
    exact ⟨rfl, rfl, decode_guestPage f⟩

theorem triple_backPages : Triple (LaidInner s₀ l0 n 0) (backPages (l0 * PAGE_SIZE) 512)
    (fun _ => LaidInner s₀ l0 n 512) (Grown s₀) := by
  refine .forM_range (LaidInner s₀ l0 n) fun k hk => ?_
  refine .bind (triple_linkPage l0 _ fun s h => h.2.1.toGrown) fun page => .pure ?_
  rintro s ⟨f, -, s₁, h, hnext, rfl⟩
  exact h.link_page hk hnext

theorem triple_backBlock (hn : n < 512) :
    Triple (LaidOuter s₀ n) (backBlock (taken s₀ 1 * PAGE_SIZE) n) (fun _ => LaidOuter s₀ (n + 1))
      (Grown s₀) := by
  refine .bind_eq (triple_linkPage _ _ fun s h => h.1.toGrown) fun l0 => ?_
  refine .of_imp (triple_backPages (n := n)) ?_ fun _ s h => ⟨h.2.1.toOuter, ?_⟩
  · rintro s ⟨s₁, h, hnext, rfl⟩
    exact h.link_l0 hn hnext
  · rw [show 513 * (n + 1) + 2 = 513 * n + 3 + 512 by omega]
    exact h.2.2

/-- A successful build returns a new table; one that fails leaves the tables that were in use as
    they were. -/
theorem createGstage_spec (s₀ : Host) (memMb : Nat) :
    Triple (· = s₀) (createGstage memMb) (fun res s => res.2 = taken s₀ 0 * PAGE_SIZE ∧
      LaidOuter s₀ ((memMb + 1) / 2) s) (Grown s₀) := by
  unfold createGstage
  split
  · refine .throw ?_
    rintro s rfl
    exact .refl s
  · next hsize =>
    have hblocks : (memMb + 1) / 2 ≤ 512 := by
      unfold MAX_GUEST_MB at hsize
      omega
    refine .bind_eq (triple_newPage fun s hs => hs ▸ .refl s₀) fun root => ?_
    refine .bind_eq (triple_linkPage root 0 ?_) fun l1 => ⟨?_⟩
    · rintro s ⟨_, rfl, hnext, rfl⟩
      exact (built_root hnext.2 _).1.toGrown
    rintro s ⟨_, ⟨_, rfl, hroot, rfl⟩, hnext, rfl⟩
    obtain ⟨rfl, rfl, h⟩ := laid_l1 hroot hnext
    refine (Triple.bind (.forM_range (LaidOuter _) fun n hn => ?_) fun _ =>
      .pure fun s h => ⟨rfl, h⟩).ends _ h
    exact triple_backBlock (hn.trans_le hblocks)

/-! ### Enough memory -/

/-- The next `n` answers are free frames, each once. -/
def Supplied (n : Nat) (s : Host) : Prop :=
  ∃ fs rest, s.answers = fs ++ rest ∧ fs.length = n ∧ fs.Nodup ∧ ∀ f ∈ fs, s.Free f

theorem triple_newPage_supplied :
    Triple (Supplied (n + 1)) (newPage err) (fun _ => Supplied n) (fun _ => False) := by
  refine ⟨?_⟩
  rintro s ⟨_ | ⟨f, fs⟩, rest, hanswers, hlen, hnodup, hfree⟩
  · cases hlen
  · have hnext := nodup_cons.mp hnodup
    unfold newPage allocPage
    rw [run_bind, run_get_bind, hanswers]
    simp only [cons_append, if_pos (hfree f mem_cons_self)]
    refine ⟨fs, rest, rfl, Nat.succ.inj hlen, hnext.2, fun g hg => ?_⟩
    obtain ⟨hnot, hbounds⟩ := hfree g (mem_cons_of_mem f hg)
    refine ⟨fun hmem => ?_, hbounds⟩
    rcases mem_cons.mp hmem with rfl | hmem
    · exact hnext.1 hg
    · exact hnot hmem

theorem triple_linkPage_supplied (table : Nat) (i : Fin 512) :
    Triple (Supplied (n + 1)) (linkPage err table i entry) (fun _ => Supplied n)
      (fun _ => False) :=
  .bind triple_newPage_supplied fun _ => .bind (.modify fun _ hs => hs) fun _ =>
    .pure fun _ hs => hs

theorem triple_backPages_supplied (l0 count : Nat) :
    Triple (Supplied (n + count)) (backPages l0 count) (fun _ => Supplied n) (fun _ => False) := by
  refine .of_imp (.forM_range (fun k => Supplied (n + (count - k))) fun k hk => ?_) ?_ ?_
  · refine .bind (.of_imp (triple_linkPage_supplied l0 _) ?_ fun _ _ h => h) fun _ =>
      .pure fun _ hs => hs
    intro s hs
    rwa [show n + (count - (k + 1)) + 1 = n + (count - k) by omega]
  · exact fun _ hs => hs
  · intro _ s hs
    rwa [Nat.sub_self] at hs

theorem triple_createGstage_supplied (hpos : 0 < memMb) (hmax : memMb ≤ MAX_GUEST_MB) :
    Triple (Supplied (513 * ((memMb + 1) / 2) + 2)) (createGstage memMb) (fun _ _ => True)
      (fun _ => False) := by
  unfold createGstage
  rw [if_neg (by omega)]
  generalize (memMb + 1) / 2 = count
  refine .bind triple_newPage_supplied fun l2 => ?_
  refine .bind (triple_linkPage_supplied l2 0) fun l1 => ?_
  refine .bind (Q := fun _ _ => True) ?_ fun _ => .pure fun _ _ => trivial
  refine .of_imp (.forM_range (fun k => Supplied (513 * (count - k))) fun k hk => ?_)
    (fun _ hs => hs) fun _ _ _ => trivial
  refine .of_imp (.bind (triple_linkPage_supplied l1 _) fun l0 =>
    triple_backPages_supplied l0 512) ?_ fun _ _ hs => hs
  intro s hs
  rwa [show 513 * (count - (k + 1)) + 512 + 1 = 513 * (count - k) by omega]

theorem createGstage_succeeds (hpos : 0 < memMb) (hmax : memMb ≤ MAX_GUEST_MB)
    (hframes : Supplied (513 * ((memMb + 1) / 2) + 2) s) :
    ∃ res host, run (createGstage memMb) s = (.ok res, host) := by
  have hends := (triple_createGstage_supplied hpos hmax).ends s hframes
  rcases hrun : run (createGstage memMb) s with ⟨_ | res, host⟩
  · rw [hrun] at hends
    exact hends.elim
  · exact ⟨res, host, rfl⟩

/-! ### Failure -/

/-- Whatever becomes of the build, a frame that is in use stays in use. -/
theorem keeps_newPage : Keeps (f ∈ ·.allocated) (newPage err) := by
  refine .bind (.get_bind fun s hs => ?_) fun _ => .bind (.modify fun _ hs => hs)
    fun _ => .pure _
  split
  · exact .throw _
  · refine .ite (.bind (.set ?_) fun _ => .pure _) (.throw _)
    exact mem_cons_of_mem _ hs

theorem keeps_linkPage (table : Nat) (i : Fin 512) :
    Keeps (f ∈ ·.allocated) (linkPage err table i entry) :=
  .bind keeps_newPage fun _ => .bind (.modify fun _ hs => hs) fun _ => .pure _

theorem keeps_backBlock (l1 n : Nat) : Keeps (f ∈ ·.allocated) (backBlock l1 n) :=
  .bind (keeps_linkPage l1 _) fun l0 => .forM (fun _ => .bind (keeps_linkPage l0 _)
    fun _ => .pure _) _

/-- The build gives no frame back: those in use stay the same only if it takes none. -/
theorem createGstage_keeps_iff (s : Host) (memMb : Nat) :
    (∀ f, f ∈ (run (createGstage memMb) s).2.allocated ↔ f ∈ s.allocated) ↔
      memMb = 0 ∨ memMb > MAX_GUEST_MB ∨ ∀ f ∈ s.answers.head?, ¬ s.Free f := by
  rw [← or_assoc]
  unfold createGstage
  by_cases hsize : memMb = 0 ∨ memMb > MAX_GUEST_MB
  · rw [if_pos hsize]
    exact iff_of_true (fun f => .rfl) (.inl hsize)
  rw [if_neg hsize, or_iff_right hsize, run_bind, newPage, allocPage, run_bind, run_get_bind]
  rcases s.answers with _ | ⟨f, rest⟩
  · exact iff_of_true (fun f => .rfl) (by simp)
  by_cases hfree : s.Free f
  · simp only [if_pos hfree]
    -- the root table stays in use, and it was free
    refine iff_of_false (fun hsame => hfree.1 ((hsame f).mp ?_)) fun h => h f rfl hfree
    refine Keeps.bind (keeps_linkPage _ 0) (fun l1 => .bind (.forM (keeps_backBlock l1) _)
      fun _ => .pure _) _ ?_
    exact mem_cons_self
  · simp only [if_neg hfree]
    exact iff_of_true (fun f => .rfl) (by simpa using hfree)

/-! ### Freeing -/

theorem mem_foldl_freeBlock {blocks : List Block} {allocated : List Nat}
    (hblocks : ∀ b ∈ blocks, ∃ g, b = frameBlock g) :
    f ∈ blocks.foldl freeBlock allocated ↔ f ∈ allocated ∧ frameBlock f ∉ blocks := by
  induction blocks generalizing allocated with
  | nil => simp
  | cons b blocks ih =>
    obtain ⟨g, rfl⟩ := hblocks b mem_cons_self
    have hdiv : (frameBlock g).1 / PAGE_SIZE = g := frame_div g
    have hstep :
        f ∈ freeBlock allocated (frameBlock g) ↔ f ∈ allocated ∧ frameBlock f ≠ frameBlock g := by
      unfold freeBlock
      rw [mem_filter, hdiv, decide_eq_true_eq]
      refine and_congr_right fun _ => not_congr ⟨fun h => ?_, fun h => ?_⟩
      · have hone : (frameBlock g).2 = 0 := rfl
        rw [hone] at h
        rw [show f = g by omega]
      · rw [frameBlock_inj h]
        exact ⟨Nat.le_refl g, Nat.lt_add_of_pos_right (Nat.two_pow_pos _)⟩
    rw [foldl_cons, ih fun b hb => hblocks b (mem_cons_of_mem _ hb), hstep, mem_cons,
      not_or, and_assoc]

/-- **The second stage of `n` blocks of 2 MiB.**  Page `c` of block `b` can be read and written,
    in a frame of zeros, and nothing else is mapped.  The frames are fresh and each there once,
    and the blocks that `destroy_gstage` gives to `free_page` are these frames, each once. -/
structure Exact (s₀ : Host) (n l2 : Nat) (s : Host) : Prop where
  root : l2 = taken s₀ 0 * PAGE_SIZE
  middle : frameAt (tables s.mem) (taken s₀ 0) [0] = some (taken s₀ 1)
  table : ∀ b : Fin 512, b < n →
    frameAt (tables s.mem) (taken s₀ 0) [0, b] = some (taken s₀ (513 * b + 2))
  page : ∀ b c : Fin 512, b < n → lookup (tables s.mem) (taken s₀ 0) [0, b, c] =
      some (guestPage (taken s₀ (513 * b + 3 + c)), []) ∧
    ∀ o < PAGE_SIZE, s.mem (taken s₀ (513 * b + 3 + c) * PAGE_SIZE + o) = 0
  unmapped : ∀ a b c : Fin 512, ¬ (a = 0 ∧ b < n) →
    lookup (tables s.mem) (taken s₀ 0) [a, b, c] = none
  distinct : (takenFrames s₀ (513 * n + 2)).Nodup
  fresh : ∀ f ∈ takenFrames s₀ (513 * n + 2), f ∉ s₀.allocated
  allocated : s.allocated = (takenFrames s₀ (513 * n + 2)).reverse ++ s₀.allocated
  freed : (gstageBlocks s.mem l2).Perm ((takenFrames s₀ (513 * n + 2)).map frameBlock)
  destroyed : destroyGstage s l2 =
    { s with allocated := (gstageBlocks s.mem l2).foldl freeBlock s.allocated }

theorem LaidOuter.exact (h : LaidOuter s₀ n s) : Exact s₀ n (taken s₀ 0 * PAGE_SIZE) s := by
  obtain ⟨houter, hlaid⟩ := h
  have htable : ∀ b : Fin 512, b < n →
      tables s.mem (taken s₀ 1) b = .branch (taken s₀ (513 * b + 2)) := by
    intro b hb
    have hbranch := hlaid.table b (by omega)
    rwa [Fin.ofNat_val_eq_self] at hbranch
  refine ⟨rfl, houter.frameAt_l1, fun b hb => ?_, fun b c hb => ?_, fun a b c hnot => ?_,
    hlaid.nodup houter.toBuilt, fun f hf => ?_, hlaid.allocated, ?_, ?_⟩
  · exact frameAt_cons.mpr ⟨_, houter.top, frameAt_cons.mpr ⟨_, htable b hb, rfl⟩⟩
  · obtain ⟨hleaf, hzero⟩ := hlaid.page b c c.isLt (by omega)
    rw [Fin.ofNat_val_eq_self] at hleaf
    rw [lookup_branch _ houter.top, lookup_branch _ (htable b hb), lookup_leaf _ hleaf]
    exact ⟨rfl, hzero⟩
  · by_cases ha : a = 0
    · rw [ha, lookup_branch _ houter.top]
      exact lookup_empty _ (houter.unused b (by omega))
    · exact lookup_empty _ (hlaid.others a ha)
  · exact (houter.mem_allocated (hlaid.perm.mem_iff.mpr (mem_map_of_mem hf))).2
  · rw [gstageBlocks_eq]
    exact hlaid.perm
  · rw [destroyGstage, if_neg (Nat.mul_ne_zero houter.free.2.1.ne' (by decide))]

end TrainOS.Hypervisor
