import TrainOS.IommuTranslation

/-!
# Device contexts over whole runs

Every valid context points to the root of a tree of tables of its own.  This survives whatever
the kernel does to its processes' tables, as long as no call of `map` or `unmap` reaches a
superpage, wraps around or maps host addresses that do not fit an entry.
-/

namespace TrainOS.Iommu

open ByteMemory Function MachineWord RadixTable Runs Sv39

/-! ### The condition -/

/-- Addresses and sizes are page-aligned, and a mapping gives at least one right. -/
def IoCall.Aligned : IoCall → Prop
  | .map _ iova hpa size flags =>
      iova % PAGE_SIZE = 0 ∧ hpa % PAGE_SIZE = 0 ∧ size % PAGE_SIZE = 0 ∧
        (flagR flags || flagW flags) = true
  | .unmap _ iova size => iova % PAGE_SIZE = 0 ∧ size % PAGE_SIZE = 0
  | _ => True

/-- No superpage of the context's table covers a page of the range. -/
def NoSuperpages (io : RvIommu) (sys : IoSystem) (contextId iova size : Nat) : Prop :=
  ∀ root, contextRoot io sys contextId = some root →
    ∀ va ∈ regionPages iova size, NoSuperpage sys.phys.mem (root / PAGE_SIZE) va

/-- The range ends below the top of the address space, host addresses fit an entry, and
    there are no superpages. -/
def Safe (io : RvIommu) (sys : IoSystem) : IoCall → Prop
  | .map contextId iova hpa size _ =>
      iova + size < WORD ∧ hpa + size ≤ 2 ^ 56 ∧ NoSuperpages io sys contextId iova size
  | .unmap contextId iova size => iova + size < WORD ∧ NoSuperpages io sys contextId iova size
  | _ => True

/-! ### The invariant -/

variable {io : RvIommu} {kr t root contextId f kernelRoot : Nat} {sys sys' : IoSystem}
  {spaces : Spaces} {s s' : Phys} {own own' : Own} {affected : Nat → List (Fin 512) → Prop}
  {m : Memory}

/-- The kernel table is intact, the roots are roots of trees, and every valid context has
    one of them. -/
structure IoInv (kr : Nat) (sys : IoSystem) (own : Own) : Prop where
  tree : Tree plainPointer sys.phys own
  kernel : KernelTable sys.phys own kr
  entries : KernelEntries plainPointer sys.phys kr
  roots : ∀ root ∈ sys.spaces.roots, ∃ t, root = t * PAGE_SIZE ∧ root < 2 ^ 56 ∧
    own t = some (t, [])
  contexts : ∀ i, (sys.contextTable i).isValid = true →
    (sys.contextTable i).ptRoot ∈ sys.spaces.roots

section

variable (h : IoInv kr sys own) (heff : Effect plainPointer affected sys.phys s' own own')
include h heff

theorem IoInv.effect : IoInv kr (sys.setPhys s') own' := by
  refine ⟨heff.tree, h.kernel.effect heff, h.entries.effect h.kernel heff, ?_, h.contexts⟩
  intro root hroot
  obtain ⟨t, ht, hsmall, hown⟩ := h.roots root hroot
  exact ⟨t, ht, hsmall, heff.keep t _ hown⟩

theorem IoInv.addRoot (hown : own' t = some (t, [])) (hsmall : t * PAGE_SIZE < 2 ^ 56) :
    IoInv kr { sys with spaces := { phys := s', roots := t * PAGE_SIZE :: sys.spaces.roots } }
      own' := by
  have hkeep := h.effect heff
  refine ⟨hkeep.tree, hkeep.kernel, hkeep.entries, ?_, ?_⟩
  · exact List.forall_mem_cons.mpr ⟨⟨t, rfl, hsmall, hown⟩, hkeep.roots⟩
  · intro i hi
    exact List.mem_cons_of_mem _ (h.contexts i hi)

end

theorem ptRoot_of_frame (halign : root % PAGE_SIZE = 0) (hsmall : root < 2 ^ 56) :
    (BitVec.ofNat 64 (root >>> 12) <<< 12).toNat = root := by
  rw [BitVec.toNat_shiftLeft, BitVec.toNat_ofNat, Nat.shiftRight_eq_div_pow, Nat.shiftLeft_eq]
  unfold PAGE_SIZE at halign
  omega

section

variable (h : IoInv kr sys own)
include h

section

variable (hroot : root ∈ sys.spaces.roots)
include hroot

theorem IoInv.setContext {i : Nat} {ctx : IommuDeviceContext}
    (hctx : ctx.word1 = BitVec.ofNat 64 (root >>> 12)) :
    IoInv kr { sys with contextTable := update sys.contextTable i ctx } own := by
  refine ⟨h.tree, h.kernel, h.entries, h.roots, ?_⟩
  intro j hj
  dsimp only at hj ⊢
  by_cases hji : j = i
  · obtain ⟨t, rfl, hsmall, -⟩ := h.roots root hroot
    have hpt : ctx.ptRoot = t * PAGE_SIZE := by
      unfold IommuDeviceContext.ptRoot
      rw [hctx]
      exact ptRoot_of_frame (Nat.mul_mod_left t PAGE_SIZE) hsmall
    rw [hji, update_self, hpt]
    exact hroot
  · rw [update_of_ne hji] at hj ⊢
    exact h.contexts j hj

theorem IoInv.createContext {deviceId : Nat} :
    IoInv kr (Iommu.createContext io sys deviceId root).2 own := by
  unfold Iommu.createContext
  dsimp only
  split
  · exact h
  · by_cases hbase : io.ddirBase = 0
    · simp only [hbase, if_true]
      exact h.setContext hroot rfl
    · simp only [hbase, if_false]
      exact ⟨h.tree, h.kernel, h.entries, h.roots, h.contexts⟩

theorem IoInv.shareProcessPt : IoInv kr (iommuShareProcessPt sys contextId root).2 own := by
  unfold iommuShareProcessPt
  split
  · exact h
  · dsimp only
    split
    · exact h
    · exact h.setContext hroot rfl

end

theorem IoInv.context (hctx : contextRoot io sys contextId = some root) :
    ∃ t, root = t * PAGE_SIZE ∧ own t = some (t, []) := by
  unfold contextRoot at hctx
  split at hctx
  · cases hctx
  · dsimp only at hctx
    split at hctx
    · cases hctx
    case isFalse hvalid =>
      cases hctx
      obtain ⟨t, ht, _, hown⟩ := h.roots _ (h.contexts contextId (by simpa using hvalid))
      exact ⟨t, ht, hown⟩

theorem IoInv.addDedicated : ∃ own', IoInv kr (addDedicated sys) own' := by
  unfold Iommu.addDedicated newDedicated
  rcases halloc : sys.phys.allocPage with ⟨_ | root, s1⟩
  · have heff : Effect plainPointer nowhere sys.phys s1 own own := allocPage_effect h.tree halloc
    exact ⟨own, h.effect heff⟩
  · have hrun :
        allocTable sys.phys = some (root, { s1 with mem := fill s1.mem root PAGE_SIZE 0 }) := by
      unfold allocTable
      rw [halloc]
    obtain ⟨heff, _, haligned⟩ := allocTable_effect h.tree hrun
    obtain ⟨rest, hpool, _⟩ := allocTable_cases hrun
    have hsmall := (h.tree.next_frame hpool).2.1
    have hadd := h.addRoot heff (update_self _ _ _) (haligned.symm ▸ hsmall)
    rw [haligned] at hadd
    exact ⟨_, hadd⟩

end

section

variable (h : IoInv kr sys own)
include h

theorem IoInv.space {c : SpaceCall} (hstep : SpaceStep (kr * PAGE_SIZE) sys.spaces c spaces) :
    ∃ own', IoInv kr { sys with spaces := spaces } own' := by
  have hmap : ∀ {err : String} {root va pa : Nat} {r w x u : Bool}, root ∈ sys.spaces.roots →
      ∃ own', IoInv kr (sys.setPhys (mapWith err sys.phys root va pa r w x u).2) own' := by
    intro err root va pa r w x u hroot
    obtain ⟨t, rfl, _, hown⟩ := h.roots root hroot
    obtain ⟨own', heff, _, _⟩ := mapWith_effect h.tree hown rfl
    exact ⟨own', h.effect heff⟩
  cases hstep with
  | @newRoot target s1 s2 halloc hcopy =>
    obtain ⟨t, own2, rfl, hsmall, _, hown, heff, _⟩ :=
      newRoot_effect h.tree h.kernel h.entries halloc hcopy
    exact ⟨own2, h.addRoot heff hown hsmall⟩
  | mapPage hroot => exact hmap hroot
  | mapUserPage hroot => exact hmap hroot
  | @unmapUserPage root va hroot =>
    obtain ⟨t, rfl, _, hown⟩ := h.roots root hroot
    exact ⟨own, h.effect (unmapUserPage_effect h.tree hown va).1⟩

theorem IoInv.map {iova hpa size : Nat} {flags : BitVec 8}
    (halign : (IoCall.map contextId iova hpa size flags).Aligned)
    (hsafe : Safe io sys (.map contextId iova hpa size flags))
    (hctx : contextRoot io sys contextId = some root) :
    let after := mapLoop sys.phys root iova hpa size flags
    (∃ own', IoInv kr (sys.setPhys after) own') ∧ WritesTables sys.phys.mem after.mem root ∧
      (Translates after.mem root iova hpa size flags ∧
        SameElsewhere sys.phys.mem after.mem root iova size ↔
        (∀ i < size, canonical (iova + i) = true) ∧ (0 < size → flagR flags = true) ∧
          Supplied sys.phys root iova size) := by
  intro after
  obtain ⟨t, rfl, hown⟩ := h.context hctx
  obtain ⟨hiova, hhpa, hsize, hrw⟩ := halign
  obtain ⟨hlt, hroom, hsmall⟩ := hsafe
  have hframe := frame_div t
  have hpages := hsmall _ hctx
  rw [hframe] at hpages
  obtain ⟨own', heff, hwithin, hiff⟩ :=
    mapLoop_spec h.tree hown hiova hhpa hsize hrw hlt hroom hpages
  refine ⟨⟨own', h.effect heff⟩, ?_, hiff⟩
  unfold WritesTables
  rw [hframe]
  exact hwithin.bytes

/-- After `unmap` the region is untranslated, and the rest as before. -/
theorem IoInv.unmap {iova size : Nat} (halign : (IoCall.unmap contextId iova size).Aligned)
    (hsafe : Safe io sys (.unmap contextId iova size))
    (hctx : contextRoot io sys contextId = some root) :
    let after := unmapLoop sys.phys root iova size
    IoInv kr (sys.setPhys after) own ∧ WritesTables sys.phys.mem after.mem root ∧
      Untranslated after.mem root iova size ∧
      ((∀ i < size, canonical (iova + i) = true) →
        SameElsewhere sys.phys.mem after.mem root iova size) := by
  intro after
  obtain ⟨t, rfl, hown⟩ := h.context hctx
  obtain ⟨hiova, hsize⟩ := halign
  obtain ⟨hlt, hsmall⟩ := hsafe
  have hframe := frame_div t
  have hpages := hsmall _ hctx
  rw [hframe] at hpages
  obtain ⟨heff, hwithin, hnone⟩ := unmapPages_spec h.tree hown hpages
  refine ⟨h.effect heff, ?_, fun i hi => ?_, fun hcanon =>
    sameElsewhere_of_effect hiova hsize hlt hcanon hown heff⟩
  · unfold WritesTables
    rw [hframe]
    exact hwithin.bytes
  · obtain ⟨hva, hvpn⟩ := page_of_byte hiova hsize hlt hi
    apply deviceTranslate_of_lookup_none
    rw [path_eq_iff.mpr hvpn]
    exact hnone _ (.inl hva)

/-- **One step.** -/
theorem IoInv.step {c : IoCall} (halign : c.Aligned) (hsafe : Safe io sys c)
    (hstep : IoStep io (kr * PAGE_SIZE) sys c sys') : ∃ own', IoInv kr sys' own' := by
  cases hstep with
  | space hspace => exact h.space hspace
  | newDedicated => exact h.addDedicated
  | createContext hroot => exact ⟨own, h.createContext hroot⟩
  | shareProcessPt hroot => exact ⟨own, h.shareProcessPt hroot⟩
  | @map contextId iova hpa size flags =>
    unfold Iommu.map
    cases hctx : contextRoot io sys contextId with
    | none => exact ⟨own, h⟩
    | some root => exact (h.map halign hsafe hctx).1
  | @unmap contextId iova size =>
    unfold Iommu.unmap
    cases hctx : contextRoot io sys contextId with
    | none => exact ⟨own, h⟩
    | some root => exact ⟨own, (h.unmap halign hsafe hctx).1⟩

end

/-! ### Boot -/

/-- The words of a frame have no reserved bits. -/
def PlainFrame (m : Memory) (f : Nat) : Prop := ∀ i, plainWord (readPte m (f * PAGE_SIZE) i)

theorem plainFrame_zeroed (m : Memory) (f : Nat) :
    PlainFrame (fill m (f * PAGE_SIZE) PAGE_SIZE 0) f := by
  intro i
  rw [readPte_fill]
  exact plainWord_empty

theorem PlainFrame.fill (h : PlainFrame m f) (g : Nat) :
    PlainFrame (fill m (g * PAGE_SIZE) PAGE_SIZE 0) f := by
  by_cases hfg : f = g
  · rw [hfg]
    exact plainFrame_zeroed m g
  · intro i
    rw [readPte_congr fun a ha => fill_bytes (ha ▸ hfg)]
    exact h i

theorem PlainFrame.write {e : PTE} (h : PlainFrame m f) (g : Nat)
    (i : Fin 512) (he : plainWord e) : PlainFrame (writePte m (g * PAGE_SIZE) i e) f :=
  fun j => word_writePte he (h j)

theorem PlainFrame.dram (is : List (Fin 64)) (h : PlainFrame m f) (g : Nat) :
    PlainFrame (is.foldl (dramEntry (g * PAGE_SIZE)) m) f :=
  List.foldlRecOn (motive := (PlainFrame · f)) is _ h fun _ h _ _ =>
    h.write g _ (plainWord_page _ _ _ _ _)

section

variable (hpool : PoolOk s.pool) (hboot : bootSpaces s = some (kernelRoot, spaces))
include hpool hboot

theorem boot_plain : PlainFrame spaces.phys.mem (kernelRoot / PAGE_SIZE) := by
  obtain ⟨p1, p2, s1, s2, s3, halloc0, halloc1, halloc2, rfl⟩ := bootSpaces_cases hboot
  obtain ⟨f0, rfl, _, hmem0, hpool1, _⟩ := allocTable_boot halloc0 hpool
  obtain ⟨f1, rfl, _, hmem1, hpool2, _⟩ := allocTable_boot halloc1 hpool1
  obtain ⟨f2, rfl, _, hmem2, _⟩ := allocTable_boot halloc2 hpool2
  rw [frame_div f0]
  have h1 : PlainFrame s2.mem f0 := by
    rw [hmem1, hmem0]
    exact (plainFrame_zeroed s.mem f0).fill f1
  have h2 := (((h1.write f0 (vpn2 KERNEL_VBASE) (plainWord_table (f1 * PAGE_SIZE))).write f0
    (vpn2 DRAM_BASE) (plainWord_table (f1 * PAGE_SIZE))).dram (List.finRange 64) f1).fill f2
  rw [← hmem2] at h2
  have h3 := h2.write f0 (vpn2 CLINT_BASE) (plainWord_table (f2 * PAGE_SIZE))
  exact ((h3.write f2 _ (plainWord_page _ _ _ _ _)).write f2 _
    (plainWord_page _ _ _ _ _)).write f2 _ (plainWord_page _ _ _ _ _)

theorem boot_ioInv :
    ∃ kr, kernelRoot = kr * PAGE_SIZE ∧ IoInv kr (initial spaces) fun _ => none := by
  have hplain := boot_plain hpool hboot
  obtain ⟨kr, rfl, hroots, hpool', hkernel, _, _⟩ := boot_kernel hpool hboot
  rw [frame_div kr] at hplain
  refine ⟨kr, rfl, .unowned entryRule_plainPointer hpool', hkernel, ?_, ?_, ?_⟩
  · intro i
    refine ⟨fun _ => hplain i, ?_⟩
    intro f hf j hbranch
    obtain ⟨g, hg⟩ := isBranch_iff.mp hbranch
    exact absurd hg (hkernel.shallow i f j g hf)
  · intro root hroot
    rw [show (initial spaces).spaces.roots = [] from hroots] at hroot
    cases hroot
  · intro i hi
    change IommuDeviceContext.empty.isValid = true at hi
    exact absurd hi (by decide)

end

/-! ### The result -/

/-- **Translation for devices.**  After any run of safe calls, with an allocator that hands
    out fresh frames and may fail at any time: a safe call of `map` that returns `false` has
    changed nothing; one that returns `true` has written to pages of the context's table
    only, and the range translates to the host range with nothing else changed exactly if
    the range is canonical, the read flag is set and the allocator has the tables that are
    missing; a safe call of `unmap` leaves no address of the range, and writes to pages of
    the table only. -/
theorem iommu_translation_iff {kernelRoot : Nat} {spaces : Spaces} {calls : List IoCall}
    (hpool : PoolOk s.pool) (hboot : bootSpaces s = some (kernelRoot, spaces))
    (hrun : Run (Guarded (IoStep io kernelRoot) fun sys c => c.Aligned ∧ Safe io sys c)
      (initial spaces) calls sys) :
    (∀ contextId iova hpa size flags, (IoCall.map contextId iova hpa size flags).Aligned →
      Safe io sys (.map contextId iova hpa size flags) →
      let res := map io sys contextId iova hpa size flags
      (res.1 = false → res.2 = sys) ∧
      (res.1 = true → ∃ root, contextRoot io sys contextId = some root ∧
        WritesTables sys.phys.mem res.2.phys.mem root ∧
        (Translates res.2.phys.mem root iova hpa size flags ∧
          SameElsewhere sys.phys.mem res.2.phys.mem root iova size ↔
          (∀ i < size, canonical (iova + i) = true) ∧ (0 < size → flagR flags = true) ∧
            Supplied sys.phys root iova size))) ∧
    ∀ contextId iova size, (IoCall.unmap contextId iova size).Aligned →
      Safe io sys (.unmap contextId iova size) →
      let sys' := unmap io sys contextId iova size
      (contextRoot io sys contextId = none → sys' = sys) ∧
      ∀ root, contextRoot io sys contextId = some root →
        Untranslated sys'.phys.mem root iova size ∧
        WritesTables sys.phys.mem sys'.phys.mem root ∧
        ((∀ i < size, canonical (iova + i) = true) →
          SameElsewhere sys.phys.mem sys'.phys.mem root iova size) := by
  obtain ⟨kr, rfl, hstart⟩ := boot_ioInv hpool hboot
  obtain ⟨own, hinv⟩ : ∃ own, IoInv kr sys own := by
    apply hrun.invariant
    · rintro sys1 c sys2 ⟨own, h⟩ ⟨⟨halign, hsafe⟩, hcall⟩
      exact h.step halign hsafe hcall
    · exact ⟨_, hstart⟩
  constructor
  · intro contextId iova hpa size flags halign hsafe
    cases hctx : contextRoot io sys contextId with
    | none =>
      rw [map, hctx]
      exact ⟨fun _ => rfl, fun htrue => nomatch htrue⟩
    | some root =>
      rw [map, hctx]
      obtain ⟨_, hwrites, hiff⟩ := hinv.map halign hsafe hctx
      exact ⟨fun hfalse => (nomatch hfalse), fun _ => ⟨root, rfl, hwrites, hiff⟩⟩
  · intro contextId iova size halign hsafe
    constructor
    · intro hctx
      rw [unmap, hctx]
    · intro root hctx
      obtain ⟨_, hwrites, hnone, hsame⟩ := hinv.unmap halign hsafe hctx
      rw [unmap, hctx]
      exact ⟨hnone, hwrites, hsame⟩

theorem iommuWalkPt_no_memory {va : Nat} (hroot : readPte s.mem root (vpn2 va) = .empty)
    (hpool : s.pool = []) : iommuWalkPt s root va true = (none, s) := by
  have hinvalid : (readPte s.mem root (vpn2 va)).isValid = false := by
    rw [hroot]
    exact PTE.isValid_empty
  simp [iommuWalkPt, walkL2, hinvalid, linkTable, Phys.allocPage, hpool]

/-! ### A device with one page -/

def smallIommu : RvIommu := ⟨1, 0⟩

def bareMemory (n : Nat) : Phys := { mem := fun _ => 0, pool := framePool 0x80100 n }

def oneContext (m : Memory) (pool : List (Option Nat)) : IoSystem where
  spaces := { phys := { mem := fill m (0x80103 * PAGE_SIZE) PAGE_SIZE 0, pool := pool },
              roots := [0x80103 * PAGE_SIZE] }
  contextTable := update (fun _ => .empty) 0 (.configure (0x80103 * PAGE_SIZE) 8 7)
  directory := fun _ => .empty

theorem createContext_dedicated (m : Memory) (n : Nat) :
    (createContext smallIommu (addDedicated (initial
      { phys := { mem := m, pool := framePool 0x80103 (n + 1) }, roots := [] })) 7
      (0x80103 * PAGE_SIZE)).2 = oneContext m (framePool 0x80104 n) := by
  have hfree : (List.range 1).find? (fun _ => !IommuDeviceContext.empty.isValid) = some 0 := by
    decide
  have hdedicated : addDedicated (initial
      { phys := { mem := m, pool := framePool 0x80103 (n + 1) }, roots := [] }) =
      { oneContext m (framePool 0x80104 n) with contextTable := fun _ => .empty } := rfl
  rw [hdedicated]
  simp only [createContext, smallIommu, ↓reduceIte, hfree]
  rfl

theorem run_oneContext (n : Nat) : ∃ m spaces,
    bootSpaces (bareMemory (n + 4)) = some (0x80100 * PAGE_SIZE, spaces) ∧
      Run (Guarded (IoStep smallIommu (0x80100 * PAGE_SIZE)) fun sys c =>
          c.Aligned ∧ Safe smallIommu sys c)
        (initial spaces) [.newDedicated, .createContext 7 (0x80103 * PAGE_SIZE)]
        (oneContext m (framePool 0x80104 n)) := by
  obtain ⟨m, hboot⟩ : ∃ m, bootSpaces (bareMemory (n + 4)) =
      some (0x80100 * PAGE_SIZE, ⟨⟨m, framePool 0x80103 (n + 1)⟩, []⟩) := ⟨_, rfl⟩
  refine ⟨m, _, hboot, ?_⟩
  refine .cons ⟨⟨trivial, trivial⟩, .newDedicated⟩ ?_
  rw [← createContext_dedicated m n]
  refine .cons ⟨⟨trivial, trivial⟩, .createContext ?_⟩ (.nil _)
  exact List.mem_cons_self

section OneContext

variable (m : Memory) (pool : List (Option Nat))

theorem contextRoot_oneContext :
    contextRoot smallIommu (oneContext m pool) 0 = some (0x80103 * PAGE_SIZE) := by
  have hvalid : (IommuDeviceContext.configure (0x80103 * PAGE_SIZE) 8 7).isValid = true := by
    decide
  have hroot : (IommuDeviceContext.configure (0x80103 * PAGE_SIZE) 8 7).ptRoot =
      0x80103 * PAGE_SIZE := ptRoot_of_frame (by decide) (by decide)
  have hctx : (oneContext m pool).contextTable 0 = .configure (0x80103 * PAGE_SIZE) 8 7 := by
    simp [oneContext]
  unfold contextRoot
  rw [if_neg (by decide), hctx]
  simp only [hvalid, Bool.not_true, Bool.false_eq_true, if_false, hroot]

theorem readPte_oneContext (i : Fin 512) :
    readPte (oneContext m pool).phys.mem (0x80103 * PAGE_SIZE) i = .empty :=
  readPte_fill m 0x80103 i

theorem lookup_oneContext (is : List (Fin 512)) :
    lookup (tables (oneContext m pool).phys.mem) 0x80103 is = none := by
  apply lookup_cleared
  intro i
  unfold tables
  rw [readPte_oneContext]
  exact decode_empty

theorem safe_oneContext : Safe smallIommu (oneContext m pool) (.map 0 0x1000 0x5000 0x1000 3) := by
  refine ⟨by decide, by decide, ?_⟩
  intro root hroot va _ e rest hl
  cases (contextRoot_oneContext m pool).symm.trans hroot
  rw [frame_div _, lookup_oneContext m pool (path va)] at hl
  cases hl

theorem map_oneContext : map smallIommu (oneContext m pool) 0 0x1000 0x5000 0x1000 3 =
    (true, (oneContext m pool).setPhys
      (mapLoop (oneContext m pool).phys (0x80103 * PAGE_SIZE) 0x1000 0x5000 0x1000 3)) := by
  rw [map, contextRoot_oneContext]

end OneContext

theorem iommu_translation_iff_one_page : ∃ m spaces,
    let sys := oneContext m (framePool 0x80104 2)
    let res := map smallIommu sys 0 0x1000 0x5000 0x1000 3
    bootSpaces (bareMemory 6) = some (0x80100 * PAGE_SIZE, spaces) ∧
    Run (Guarded (IoStep smallIommu (0x80100 * PAGE_SIZE)) fun sys c =>
        c.Aligned ∧ Safe smallIommu sys c)
      (initial spaces) [.newDedicated, .createContext 7 (0x80103 * PAGE_SIZE)] sys ∧
    res.1 = true ∧ Translates res.2.phys.mem (0x80103 * PAGE_SIZE) 0x1000 0x5000 0x1000 3 ∧
    SameElsewhere sys.phys.mem res.2.phys.mem (0x80103 * PAGE_SIZE) 0x1000 0x1000 := by
  obtain ⟨m, spaces, hboot, hrun⟩ := run_oneContext 2
  have htrue : (map smallIommu (oneContext m (framePool 0x80104 2)) 0 0x1000 0x5000 0x1000 3).1 =
      true := by
    rw [map_oneContext]
  refine ⟨m, spaces, hboot, hrun, htrue, ?_⟩
  have hpool : PoolOk (bareMemory 6).pool := poolOk_framePool (by decide)
  have hmap := (iommu_translation_iff hpool hboot hrun).1 0 0x1000 0x5000 0x1000 3
    ⟨by decide, by decide, by decide, by decide⟩ (safe_oneContext m _)
  obtain ⟨root, hroot, _, hiff⟩ := hmap.2 htrue
  cases (contextRoot_oneContext m _).symm.trans hroot
  apply hiff.mpr
  refine ⟨?_, fun _ => by decide, ?_⟩
  · intro i hi
    simp only [canonical, Bool.or_eq_true, decide_eq_true_eq]
    omega
  · unfold Supplied
    have hframes : Supplies (framePool 0x80104 2) 2 := by decide
    exact hframes.mono (Tabled.need_le _ _)

/-- **The allocator runs out.**  The table has no page for the range, `map` returns `true`,
    and no byte of the range translates. -/
theorem map_true_without_memory : ∃ m spaces,
    let sys := oneContext m []
    let res := map smallIommu sys 0 0x1000 0x5000 0x1000 3
    bootSpaces (bareMemory 4) = some (0x80100 * PAGE_SIZE, spaces) ∧
    Run (IoStep smallIommu (0x80100 * PAGE_SIZE)) (initial spaces)
      [.newDedicated, .createContext 7 (0x80103 * PAGE_SIZE)] sys ∧
    contextRoot smallIommu sys 0 = some (0x80103 * PAGE_SIZE) ∧ res.1 = true ∧
    Untranslated res.2.phys.mem (0x80103 * PAGE_SIZE) 0x1000 0x1000 := by
  obtain ⟨m, spaces, hboot, hrun⟩ := run_oneContext 0
  have hsame : mapLoop (oneContext m []).phys (0x80103 * PAGE_SIZE) 0x1000 0x5000 0x1000 3 =
      (oneContext m []).phys := by
    rw [mapLoop_eq _ _ (by decide) (by decide) (by decide) (by decide) (by decide),
      show regionPages 0x1000 0x1000 = [0x1000] by decide]
    simp [mapPages, iommuMapPte, iommuWalkPt_no_memory (readPte_oneContext m [] _) rfl]
  refine ⟨m, spaces, hboot, hrun.unguarded, contextRoot_oneContext m [], ?_, ?_⟩
  · rw [map_oneContext]
  · rw [map_oneContext, hsame]
    intro i _
    exact deviceTranslate_of_lookup_none (lookup_oneContext m [] _)

end TrainOS.Iommu
