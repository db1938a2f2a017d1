import TrainOS.ElfImage

/-!
# Loading an arbitrary file

A file that stays away from the kernel's superpages is loaded safely exactly when the program
headers and the copied bytes lie inside the file, every copied byte goes to a page that is
mapped, and the allocator has the frames for the pages and their tables.
-/

namespace TrainOS.Sv39

open ByteMemory List MachineWord Option RadixTable

/-! ### What the loader reads -/

def copyReads (ph : Elf64Phdr) (copyVa remaining : Nat) : List (Nat × Nat) :=
  if remaining = 0 then []
  else
    (wrapAdd ph.pOffset (wrapSub copyVa ph.pVaddr), chunkLen copyVa remaining) ::
      copyReads ph (wrapAdd copyVa (chunkLen copyVa remaining))
        (remaining - chunkLen copyVa remaining)
termination_by remaining
decreasing_by exact Nat.sub_lt (Nat.pos_of_ne_zero ‹_›) (chunkLen_pos ‹_›)

/-- The reads for the program header at `a`: the type, for `PT_LOAD` the address, sizes and
    offset, and unless the segment is empty the flags and the bytes to copy. -/
def segmentReads (elf : Memory) (len a : Nat) : List (Nat × Nat) :=
  let ph := Elf64Phdr.read elf a
  (a, 4) ::
    (if ph.pType = PT_LOAD then [(a + 16, 8), (a + 32, 8), (a + 40, 8), (a + 8, 8)] else []) ++
    (if ph.isLoaded then
      (a + 4, 4) :: (if ph.isCopied len then copyReads ph ph.pVaddr ph.pFilesz else [])
    else [])

def headerAddrs (elf : Memory) : List Nat :=
  (range (readLE elf 56 2)).map fun i =>
    wrapAdd (readLE elf 32 8) (wrapMul i (readLE elf 54 2))

def fileReads (elf : Memory) (len : Nat) : List (Nat × Nat) :=
  (if len < 64 then [] else [(0, 64)]) ++
    (if (elfHeaders elf len).isSome then (headerAddrs elf).flatMap (segmentReads elf len) else [])

def ReadsInside (elf : Memory) (len : Nat) : Prop := ∀ r ∈ fileReads elf len, r.1 + r.2 ≤ len

variable {elf elf' : Memory} {len root : Nat} {ph : Elf64Phdr} {s : Phys}

/-- The checks of `load_elf` on the file header. -/
def headerOk (elf : Memory) (len : Nat) : Prop :=
  64 ≤ len ∧ readLE elf 0 4 = 0x464C457F ∧ readLE elf 18 2 = 243 ∧
    wrapAdd (readLE elf 32 8) (wrapMul (readLE elf 56 2) (readLE elf 54 2)) ≤ len

variable {headers : List Elf64Phdr}

theorem elfHeaders_eq_some : elfHeaders elf len = some headers ↔
      headerOk elf len ∧ headers = (headerAddrs elf).map (Elf64Phdr.read elf) := by
  unfold elfHeaders headerOk headerAddrs
  simp only [ite_none_left_eq_some, Nat.not_lt, ne_eq, not_not, some.injEq,
    List.map_map, and_assoc]
  rw [eq_comm (a := headers)]
  rfl

variable {a n : Nat}

section

variable (h : AgreeOn elf elf' 0 len)
include h

theorem readLE_agree (hin : a + n ≤ len) :
    readLE elf a n = readLE elf' a n :=
  readLE_congr fun b hlo hhi => h b (Nat.zero_le b) (by omega)

theorem copySegment_congr {copyVa remaining : Nat}
    (hin : ∀ r ∈ copyReads ph copyVa remaining, r.1 + r.2 ≤ len) :
    copySegment elf' root ph copyVa remaining s = copySegment elf root ph copyVa remaining s := by
  induction remaining using Nat.strong_induction_on generalizing s copyVa with
  | _ remaining ih =>
    rw [copySegment, copySegment]
    rw [copyReads] at hin
    by_cases hzero : remaining = 0
    · rw [if_pos hzero, if_pos hzero]
    · rw [if_neg hzero] at hin
      rw [if_neg hzero, if_neg hzero]
      obtain ⟨hfirst, hrest⟩ := forall_mem_cons.mp hin
      have hpos : 0 < chunkLen copyVa remaining := chunkLen_pos hzero
      have hchunk : copyChunk elf' root ph copyVa (chunkLen copyVa remaining) s =
          copyChunk elf root ph copyVa (chunkLen copyVa remaining) s := by
        unfold copyChunk
        cases virtToPhysInPt s root copyVa with
        | none => rfl
        | some phys =>
          simp only [some.injEq, Phys.mk.injEq, and_true]
          funext b
          unfold copyFrom
          split
          · exact (h _ (Nat.zero_le _) (by simp only at hfirst; omega)).symm
          · rfl
      rw [hchunk]
      apply Option.bind_congr
      intro s1 _
      exact ih _ (by omega) hrest

/-- A segment whose reads end inside the file depends on the file only. -/
theorem loadSegment_congr (hin : ∀ r ∈ segmentReads elf len a, r.1 + r.2 ≤ len) :
    loadSegment elf' len root s (.read elf' a) = loadSegment elf len root s (.read elf a) := by
  unfold segmentReads at hin
  simp only [cons_append, forall_mem_cons, forall_mem_append] at hin
  obtain ⟨htype, hfields, hrest⟩ := hin
  have hsameType : (Elf64Phdr.read elf' a).pType = (Elf64Phdr.read elf a).pType :=
    (readLE_agree h htype).symm
  by_cases hload : (Elf64Phdr.read elf a).pType = PT_LOAD
  · rw [if_pos hload] at hfields
    simp only [forall_mem_cons] at hfields
    obtain ⟨hvaddr, hfilesz, hmemsz, hoffset, _⟩ := hfields
    have hmem : (Elf64Phdr.read elf' a).pMemsz = (Elf64Phdr.read elf a).pMemsz :=
      (readLE_agree h hmemsz).symm
    by_cases hyes : (Elf64Phdr.read elf a).isLoaded = true
    · rw [if_pos hyes, forall_mem_cons] at hrest
      have hsame : Elf64Phdr.read elf' a = Elf64Phdr.read elf a := by
        unfold Elf64Phdr.read
        rw [readLE_agree h htype, readLE_agree h hrest.1, readLE_agree h hoffset,
          readLE_agree h hvaddr, readLE_agree h hfilesz, readLE_agree h hmemsz]
      rw [hsame, loadSegment_loaded _ hyes, loadSegment_loaded _ hyes]
      apply Option.bind_congr
      intro s1 _
      split
      · rename_i hcopied
        rw [if_pos hcopied] at hrest
        exact copySegment_congr h hrest.2
      · rfl
    · simp [loadSegment, Elf64Phdr.isLoaded, hsameType, hmem] at hyes ⊢
      simp [hyes hload]
  · simp [loadSegment, Elf64Phdr.isLoaded, hsameType, hload]

theorem foldlM_segments_congr {addrs : List Nat}
    (hin : ∀ a ∈ addrs, ∀ r ∈ segmentReads elf len a, r.1 + r.2 ≤ len) :
    addrs.foldlM (fun s a => loadSegment elf' len root s (.read elf' a)) s =
      addrs.foldlM (fun s a => loadSegment elf len root s (.read elf a)) s := by
  induction addrs generalizing s with
  | nil => rw [foldlM_nil, foldlM_nil]
  | cons a addrs ih =>
    rw [foldlM_cons, foldlM_cons, loadSegment_congr h (hin a mem_cons_self)]
    apply Option.bind_congr
    intro s1 _
    exact ih fun b hb => hin b (mem_cons_of_mem a hb)

/-- **The result depends on the bytes inside the file only**, if the reads are inside. -/
theorem loadElf_congr (hin : ReadsInside elf len) :
    loadElf elf' len root s = loadElf elf len root s := by
  by_cases hlen : len < 64
  · unfold loadElf elfHeaders
    simp [hlen]
  have hfield : ∀ a n, a + n ≤ 64 → readLE elf' a n = readLE elf a n :=
    fun a n han => (readLE_agree h (by omega)).symm
  have haddrs : headerAddrs elf' = headerAddrs elf := by
    unfold headerAddrs
    rw [hfield 32 8 (by decide), hfield 54 2 (by decide), hfield 56 2 (by decide)]
  have hok : headerOk elf' len ↔ headerOk elf len := by
    unfold headerOk
    rw [hfield 0 4 (by decide), hfield 18 2 (by decide), hfield 32 8 (by decide),
      hfield 54 2 (by decide), hfield 56 2 (by decide)]
  by_cases hheader : headerOk elf len
  · have hold := elfHeaders_eq_some.mpr ⟨hheader, rfl⟩
    have hnew := elfHeaders_eq_some.mpr ⟨hok.mpr hheader, rfl⟩
    have hreads : ∀ a ∈ headerAddrs elf, ∀ r ∈ segmentReads elf len a, r.1 + r.2 ≤ len := by
      intro a ha r hr
      apply hin
      unfold fileReads
      rw [hold, isSome_some, if_pos rfl]
      exact mem_append_right _ (mem_flatMap.mpr ⟨a, ha, hr⟩)
    have hstack : loadStack elf' root = loadStack elf root := by
      funext s1
      unfold loadStack
      rw [hfield 24 8 (by decide)]
    rw [loadElf_eq root hnew, loadElf_eq root hold, hstack, haddrs, foldlM_map,
      foldlM_map, foldlM_segments_congr h hreads]
  · have hnone : ∀ file : Memory, ¬ headerOk file len → elfHeaders file len = none := by
      intro file hno
      rw [eq_none_iff_forall_ne_some]
      exact fun headers hsome => hno (elfHeaders_eq_some.mp hsome).1
    unfold loadElf
    rw [hnone elf hheader, hnone elf' fun hcon => hheader (hok.mp hcon)]

end

/-! ### A prepared root -/

/-- The kernel table is as the boot left it, and the allocator hands out distinct frames
    that were free then. -/
def KernelReady (kernelRoot : Nat) (s : Phys) : Prop :=
  ∃ s0 sys0, PoolOk s0.pool ∧ bootSpaces s0 = some (kernelRoot, sys0) ∧ PoolOk s.pool ∧
    (∀ p ∈ frames s.pool, p ∈ frames sys0.phys.pool) ∧
    ∀ a, KernelFrame sys0.phys.mem (kernelRoot / PAGE_SIZE) (a / PAGE_SIZE) →
      s.mem a = sys0.phys.mem a

/-- In state `before` a frame was taken for the root and the kernel's mappings were copied
    into it, which led to `s`. -/
structure Prepared (kernelRoot : Nat) (before : Phys) (root : Nat) (s : Phys) : Prop where
  kernel : KernelReady kernelRoot before
  copied : ∃ s1, before.allocPage = (some root, s1) ∧
    copyKernelMappings kernelRoot root s1 = some s

variable {kernelRoot : Nat} {before : Phys}

theorem KernelReady.tables (h : KernelReady kernelRoot s) : ∃ kr, kernelRoot = kr * PAGE_SIZE ∧
      TablesInv (fun _ _ _ => False) (lookup (tables s.mem) kr) kr (fun _ => False) s
        (fun _ => none) ∧
      ∀ i, i ∉ [vpn2 CLINT_BASE, vpn2 DRAM_BASE, vpn2 KERNEL_VBASE] →
        tables s.mem kr i = .empty := by
  obtain ⟨s0, sys0, hpool0, hboot, hpool, hfree, hsame⟩ := h
  obtain ⟨kr, rfl, _, _, hkernel, hwords, hunused⟩ := boot_kernel hpool0 hboot
  rw [frame_div kr] at hsame
  have hread : SameKernel sys0.phys.mem s.mem kr := by
    intro f hf
    apply readPte_congr
    rintro a rfl
    exact hsame a hf
  have hforeign : ∀ f, KernelFrame sys0.phys.mem kr f → Foreign s (fun _ => none) f :=
    fun f hf => ⟨rfl, fun p hp => (hkernel.frame_foreign hf).2 p (hfree p hp)⟩
  refine ⟨kr, rfl, ?_, fun i hi => (hread.tables (.inl rfl) i).trans (hunused i hi)⟩
  constructor
  case tree => exact .unowned entryRule_plain hpool
  case kernel => exact hkernel.same hread hforeign
  case words => exact hwords.same hread
  case finds => exact fun p => rfl
  case root_own => exact fun t ht => ht.elim
  case covered => exact fun t ht => ht.elim
  case leaves => exact fun t ht => ht.elim

theorem Prepared.tables (h : Prepared kernelRoot before root s) :
    ∃ kr t own K, kernelRoot = kr * PAGE_SIZE ∧ root = t * PAGE_SIZE ∧
      TablesInv (fun _ _ _ => True) K kr (· = t) s own ∧
      (∀ p, p.length = 3 → lookup (Sv39.tables s.mem) t p = K p) ∧
      (∀ va, vpn2 va ∉ [vpn2 CLINT_BASE, vpn2 DRAM_BASE, vpn2 KERNEL_VBASE] →
        K (path va) = none) ∧
      s.pool <:+ before.pool ∧ ∀ f, f * PAGE_SIZE ∉ frames before.pool → Foreign s own f := by
  obtain ⟨s1, halloc, hcopy⟩ := h.copied
  obtain ⟨kr, rfl, hinv, hunused⟩ := h.kernel.tables
  obtain ⟨t, own, rfl, _, heff, hroot⟩ := hinv.newRoot halloc hcopy
  refine ⟨kr, t, own, lookup (Sv39.tables before.mem) kr, rfl, rfl, ?_, ?_, ?_, heff.pool, ?_⟩
  · exact hroot.mono (fun t' ht' => .inr ht') fun _ _ _ _ _ _ _ => trivial
  · intro p hp
    cases hl : lookup (Sv39.tables before.mem) kr p with
    | some l => exact hroot.covered t (.inr rfl) p l hp hl
    | none =>
      rw [eq_none_iff_forall_ne_some]
      rintro ⟨e, rest⟩ hfound
      cases hroot.leaves t (.inr rfl) p e rest hp hfound with
      | kernel hk =>
        rw [hl] at hk
        cases hk
      | page _ hq _ => exact hq
  · exact fun va hva => lookup_empty _ (hunused _ hva)
  · intro f hf
    apply heff.foreign_of
    refine ⟨rfl, ?_⟩
    rintro p hp rfl
    apply hf
    rw [frame_mul (hinv.tree.pool.frame p hp).1]
    exact hp

/-! ### Safety -/

/-- Loading the file into the root returns, reads only bytes of the file, and writes only
    tables of the root and frames that it allocated; none of them was in use before the
    root was made. -/
structure SafeLoad (before : Phys) (elf : Memory) (len root : Nat) (s : Phys) : Prop where
  returns : ∃ res s', loadElf elf len root s = some (res, s')
  reads : ReadsInside elf len
  inside : ∀ elf', AgreeOn elf elf' 0 len → loadElf elf' len root s = loadElf elf len root s
  writes : ∀ res s', loadElf elf len root s = some (res, s') → ∀ a, s'.mem a ≠ s.mem a →
    (TablePage s'.mem (root / PAGE_SIZE) (a / PAGE_SIZE) ∨ Handed s s' (a / PAGE_SIZE)) ∧
      a / PAGE_SIZE * PAGE_SIZE ∈ frames before.pool

/-- No superpage of the kernel covers an address that the segment maps or copies to. -/
def AvoidsKernel (m : Memory) (kernelRoot len : Nat) (ph : Elf64Phdr) : Prop :=
  ph.isLoaded = true → (∀ va ∈ ph.pages, translate m kernelRoot va = none) ∧
    (ph.isCopied len = true →
      ∀ k < ph.pFilesz, translate m kernelRoot (wrapAdd ph.pVaddr k) = none)

/-- The frames for the pages of the segments and their tables are there, and if there is
    one for the stack so are those for its tables. -/
def FramesSuffice (tab : Tabled) (pool : List (Option Nat)) (headers : List Elf64Phdr) : Prop :=
  Supplies pool (tab.demand (headers.flatMap segmentPages)) ∧
    (Supplies (pool.drop (tab.demand (headers.flatMap segmentPages))) 1 →
      Supplies (pool.drop (tab.demand (headers.flatMap segmentPages)))
        (1 + (tab.withPages (headers.flatMap segmentPages)).need STACK_BOTTOM))

/-- The file keeps its reads inside, copies to mapped pages only, and has its frames. -/
def Loadable (elf : Memory) (len root : Nat) (s : Phys) : Prop :=
  ReadsInside elf len ∧ ∀ headers, elfHeaders elf len = some headers →
    Image.acceptsAll elf len (fun _ => none) headers ∧
      FramesSuffice (hasTable s.mem (root / PAGE_SIZE)) s.pool headers

theorem TablesInv.kernelFree {Q : Nat → List (Fin 512) → PTE → Prop}
    {K : List (Fin 512) → Found} {kr : Nat} {R : Nat → Prop} {own : Own}
    (hinv : TablesInv Q K kr R s own) (h : AvoidsKernel s.mem (kr * PAGE_SIZE) len ph) :
    KernelFree K len ph := by
  have hK : ∀ va, translate s.mem (kr * PAGE_SIZE) va = none → K (path va) = none := by
    intro va hva
    rw [translate_eq_lookup, map_eq_none_iff] at hva
    rw [← hinv.finds]
    exact hva
  intro hloaded
  obtain ⟨hpages, hcopied⟩ := h hloaded
  exact ⟨fun va hva => hK va (hpages va hva), fun hc k hk => hK _ (hcopied hc k hk)⟩

/-- **Loading is safe for exactly the loadable files**, among those that stay away from the
    kernel's superpages. -/
theorem load_elf_safe_iff (hprep : Prepared kernelRoot before root s)
    (hapart : ∀ headers, elfHeaders elf len = some headers → ∀ ph ∈ headers,
      AvoidsKernel s.mem kernelRoot len ph) :
    SafeLoad before elf len root s ↔ Loadable elf len root s := by
  obtain ⟨kr, t, own, K, rfl, rfl, hinv, hfinds, hunused, hsuffix, hforeign⟩ := hprep.tables
  have hdiv := frame_div t
  unfold Loadable FramesSuffice
  rw [hdiv]
  cases hsome : elfHeaders elf len with
  | none =>
    have hrun : loadElf elf len (t * PAGE_SIZE) s = some (none, s) := by
      unfold loadElf
      rw [hsome]
    constructor
    · exact fun h => ⟨h.reads, fun _ hcon => by cases hcon⟩
    · rintro ⟨hreads, _⟩
      refine ⟨⟨_, _, hrun⟩, hreads, fun elf' hagree => loadElf_congr hagree hreads, ?_⟩
      intro res s' hrun' a ha
      rw [hrun] at hrun'
      cases hrun'
      exact absurd rfl ha
  | some headers =>
    have hfree : ∀ ph ∈ headers, KernelFree K len ph :=
      fun ph hph => hinv.kernelFree (hapart headers hsome ph hph)
    have hload := loadElf_attempt hinv hfinds hsome hfree (hunused _ (by decide))
    constructor
    · intro h
      refine ⟨h.reads, ?_⟩
      intro headers' hsame
      cases hsame
      obtain ⟨res, s', hrun⟩ := h.returns
      obtain ⟨⟨hsupply, haccept⟩, hlast⟩ := hload.succeeds.mp (by rw [hrun]; rfl)
      exact ⟨haccept, hsupply, hlast⟩
    · rintro ⟨hreads, hfits⟩
      obtain ⟨haccept, hsupply, hlast⟩ := hfits headers rfl
      obtain ⟨⟨res, s'⟩, hrun, hends, _⟩ := hload.elim ⟨⟨hsupply, haccept⟩, hlast⟩
      refine ⟨⟨res, s', hrun⟩, hreads, fun elf' hagree => loadElf_congr hagree hreads, ?_⟩
      intro res2 s2 hrun2
      cases hrun.symm.trans hrun2
      obtain ⟨own', img, tab, hloading⟩ : ∃ own' img tab,
          Loading K kr t s own s' own' img tab := by
        cases hends with
        | refused h => exact ⟨_, _, _, h⟩
        | done h => exact ⟨_, _, _, h⟩
      intro a ha
      rw [hdiv]
      refine ⟨hloading.touched a ha, ?_⟩
      by_contra hused
      have hf := hforeign _ hused
      rcases hloading.touched a ha with ⟨q, hq, htable⟩ | hhanded
      · -- a table of the root belongs to the tree that grew from free frames
        have hown := hloading.inv.tree.owned.frameAt hloading.root_own (by simpa using hq) htable
        rw [hloading.grown _ hf] at hown
        cases hown
      · exact hused (frames_subset_of_suffix hsuffix _ hhanded.1)

/-! ### Two files -/

theorem exists_prepared (n : Nat) (s0 : Phys) (hpool : PoolOk s0.pool)
    (hs : HasFrames s0.pool (n + 516)) :
    ∃ kernelRoot before root s, Prepared kernelRoot before root s ∧ HasFrames s.pool n := by
  obtain ⟨kernelRoot, sys0, hboot, _, hs0⟩ := HasFrames.bootSpaces (n := n + 513) hs
  obtain ⟨root, rest, hrest, hs1⟩ := HasFrames.cons (n := n + 512) hs0
  have halloc : sys0.phys.allocPage = (some root, { sys0.phys with pool := rest }) := by
    simp [Phys.allocPage, hrest]
  obtain ⟨s, hcopy, hs2⟩ := HasFrames.copyLoop (n := n)
    (s := { mem := sys0.phys.mem, pool := rest }) kernelRoot root (finRange 512)
    (by simpa using hs1)
  obtain ⟨_, _, _, hpool', _⟩ := boot_kernel hpool hboot
  exact ⟨kernelRoot, sys0.phys, root, s,
    ⟨⟨s0, sys0, hpool, hboot, hpool', fun _ hp => hp, fun _ _ => rfl⟩, _, halloc, hcopy⟩, hs2⟩

/-- A file with one segment, its program header right after the file header. -/
def segmentElf (flags va filesz memsz : Nat) : Memory :=
  let m := writeLE (fun _ => 0) 0 4 0x464C457F
  let m := writeLE m 18 2 243
  let m := writeLE m 32 8 64
  let m := writeLE m 54 2 56
  let m := writeLE m 56 2 1
  let m := writeLE m 64 4 PT_LOAD
  let m := writeLE m 68 4 flags
  let m := writeLE m 80 8 va
  let m := writeLE m 96 8 filesz
  writeLE m 104 8 memsz

def pageHeader (flags filesz : Nat) : Elf64Phdr :=
  ⟨PT_LOAD, flags, 0, 0x40000000, filesz, PAGE_SIZE⟩

theorem pages_pageHeader (flags filesz : Nat) : (pageHeader flags filesz).pages = [0x40000000] := by
  have hclosed : (pageHeader 0 0).pages = [0x40000000] := by decide
  rw [← hclosed]
  simp [pageHeader, Elf64Phdr.pages]

theorem Prepared.avoids {flags filesz : Nat} (h : Prepared kernelRoot before root s)
    (hfilesz : filesz ≤ 1) : AvoidsKernel s.mem kernelRoot len (pageHeader flags filesz) := by
  obtain ⟨kr, t, own, K, rfl, rfl, hinv, _, hunused, _⟩ := h.tables
  have hnone : translate s.mem (kr * PAGE_SIZE) 0x40000000 = none := by
    rw [translate_eq_lookup, hinv.finds, hunused _ (by decide)]
    rfl
  intro _
  refine ⟨?_, ?_⟩
  · intro va hva
    rw [pages_pageHeader, mem_singleton] at hva
    rw [hva]
    exact hnone
  · intro _ k hk
    obtain rfl : k = 0 := Nat.lt_one_iff.mp (hk.trans_le hfilesz)
    exact hnone

theorem HasFrames.framesSuffice {pool : List (Option Nat)} (tab : Tabled) (h : HasFrames pool n)
    (hn : 3 * (headers.flatMap segmentPages).length + 3 ≤ n) : FramesSuffice tab pool headers := by
  have hdemand := tab.demand_le (headers.flatMap segmentPages)
  have hneed := (tab.withPages (headers.flatMap segmentPages)).need_le STACK_BOTTOM
  have hall : Supplies pool (tab.demand (headers.flatMap segmentPages) +
      (1 + (tab.withPages (headers.flatMap segmentPages)).need STACK_BOTTOM)) :=
    HasFrames.supplies ⟨(by omega : _ ≤ n).trans h.1, h.2⟩
  obtain ⟨hpages, hstack⟩ := supplies_add.mp hall
  exact ⟨hpages, fun _ => hstack⟩

theorem exists_booted : ∃ kernelRoot before root s, Prepared kernelRoot before root s ∧
    HasFrames s.pool 84 :=
  exists_prepared 84 { mem := fun _ => 0, pool := framePool 0x80100 600 }
    (poolOk_framePool (by decide)) (hasFrames_framePool _ _)

/-- The hypotheses are met by a root prepared after boot and a file with a page of code,
    which is loaded safely. -/
theorem load_elf_safe_code : ∃ kernelRoot before root s, Prepared kernelRoot before root s ∧
      SafeLoad before (segmentElf (PF_R + PF_X) 0x40000000 0 PAGE_SIZE) 120 root s := by
  obtain ⟨kernelRoot, before, root, s, hprep, hs⟩ := exists_booted
  have hheaders : elfHeaders (segmentElf (PF_R + PF_X) 0x40000000 0 PAGE_SIZE) 120 =
      some [pageHeader (PF_R + PF_X) 0] := rfl
  refine ⟨kernelRoot, before, root, s, hprep, (load_elf_safe_iff hprep ?_).mpr ⟨?_, ?_⟩⟩
  · intro headers hsome ph hph
    cases hheaders.symm.trans hsome
    obtain rfl := mem_singleton.mp hph
    exact hprep.avoids (by decide)
  · unfold ReadsInside
    decide
  · intro headers hsome
    cases hheaders.symm.trans hsome
    exact ⟨⟨fun _ hcopied => (by cases hcopied), trivial⟩, hs.framesSuffice _ (by decide)⟩

/-- **A segment without R, W and X.**  The page is mapped without permissions, so the
    translation for the copy fails, and the loader panics where it expects a page that "has
    been mapped above". -/
theorem load_elf_panics_without_flags :
    ∃ kernelRoot before root s, Prepared kernelRoot before root s ∧
      loadElf (segmentElf 0 0x40000000 1 PAGE_SIZE) 120 root s = none ∧
      ¬ SafeLoad before (segmentElf 0 0x40000000 1 PAGE_SIZE) 120 root s := by
  obtain ⟨kernelRoot, before, root, s, hprep, _⟩ := exists_booted
  have hheaders : elfHeaders (segmentElf 0 0x40000000 1 PAGE_SIZE) 120 =
      some [pageHeader 0 1] := rfl
  have hpanic : loadElf (segmentElf 0 0x40000000 1 PAGE_SIZE) 120 root s = none := by
    obtain ⟨kr, t, own, K, rfl, rfl, hinv, hfinds, hunused, _⟩ := hprep.tables
    have hfree : ∀ ph ∈ [pageHeader 0 1], KernelFree K 120 ph := by
      intro ph hph
      obtain rfl := mem_singleton.mp hph
      exact hinv.kernelFree (hprep.avoids (by decide))
    have hload := loadElf_attempt hinv hfinds hheaders hfree (hunused _ (by decide))
    rw [← not_isSome_iff_eq_none, hload.succeeds]
    rintro ⟨⟨_, haccept⟩, _⟩
    apply haccept.1 rfl rfl 0 Nat.one_pos
    show Image.mapPages _ (pageHeader 0 1) (path (wrapAdd 0x40000000 0)) = none
    rfl
  exact ⟨kernelRoot, before, root, s, hprep, hpanic, fun h => by
    obtain ⟨res, s', hrun⟩ := h.returns
    rw [hpanic] at hrun
    cases hrun⟩

end TrainOS.Sv39
