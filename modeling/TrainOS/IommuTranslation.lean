import TrainOS.MemoryCalls
import TrainOS.IommuWalk

/-!
# Translation for devices

A range that no superpage covers is unmapped completely, and mapping it changes what devices
see exactly as asked for if and only if every address is canonical, the read flag is set and
the allocator has the tables that are missing (`iommu_translation_iff`).  `map` returns `true`
in the other cases as well.
-/

namespace TrainOS.Iommu

open ByteMemory List MachineWord Option RadixTable Sv39

/-! ### The hardware walk as a lookup -/

variable {m : Memory} {s s' : Phys} {own own' : Own} {e v : PTE} {t va va' pa a : Nat}
  {r w : Bool} {vas : List Nat}

/-- A leaf that the hardware accepts, `left` levels above the last. -/
def acceptLeaf (e : PTE) (left : Nat) : Option (Nat × PTE) :=
  if e.faults || e.ppn % 2 ^ (9 * left) != 0 then none else some (left, e)

theorem hardware_leaf (h : e.decode = .leaf v) : e.faults = true ∨ e.ends = true := by
  obtain ⟨_, hleaf⟩ := decode_eq_leaf.mp h
  unfold PTE.isLeaf at hleaf
  unfold PTE.faults PTE.ends
  cases hr : e.isReadable <;> cases hw : e.isWritable <;> cases hx : e.isExecutable <;>
    simp_all

/-- One level of the hardware walk; `next` is what the walk from the next table on finds. -/
theorem hardwareLevel_eq {next : Option (Nat × PTE)} {f : Nat} {i : Fin 512} (is : List (Fin 512))
    (hnext : ∀ g, tables m f i = .branch g →
      next = (lookup (tables m) g is).bind fun l => acceptLeaf l.1 l.2.length) :
    (if (readPte m (f * PAGE_SIZE) i).faults then none
      else if (readPte m (f * PAGE_SIZE) i).ends then
        if (readPte m (f * PAGE_SIZE) i).ppn % 2 ^ (9 * is.length) = 0 then
          some (is.length, readPte m (f * PAGE_SIZE) i) else none
      else next) = (lookup (tables m) f (i :: is)).bind fun l => acceptLeaf l.1 l.2.length := by
  cases h : tables m f i with
  | empty =>
    rw [lookup_empty _ h, if_pos, bind_none]
    rw [PTE.faults, decode_eq_empty.mp h]
    rfl
  | leaf v =>
    rw [lookup_leaf _ h, bind_some, acceptLeaf, ← (decode_eq_leaf.mp h).1]
    rcases hardware_leaf h with hf | he
    · simp [hf]
    · split <;> simp [*]
  | branch g =>
    have hbranch := isBranch_iff.mpr ⟨g, h⟩
    rw [PTE.isBranch_eq] at hbranch
    rw [lookup_branch _ h, ← hnext g h]
    simp_all

theorem hardwareWalk_eq_lookup (m : Memory) (f va : Nat) (hva : canonical va = true) :
    hardwareWalk m (f * PAGE_SIZE) va =
      (lookup (tables m) f (path va)).bind fun l => acceptLeaf l.1 l.2.length := by
  unfold hardwareWalk
  rw [hva, if_neg (by simp)]
  refine hardwareLevel_eq [vpn1 va, vpn0 va] fun f1 h2 => ?_
  rw [physAddr_eq, (decode_eq_branch.mp h2).2.2]
  refine hardwareLevel_eq [vpn0 va] fun f0 h1 => ?_
  rw [physAddr_eq, (decode_eq_branch.mp h1).2.2, ← hardwareLevel_eq [] fun _ _ => Eq.refl none]
  cases hf : (readPte m (f0 * PAGE_SIZE) (vpn0 va)).faults <;> simp [hf, Nat.mod_one]

theorem deviceTranslate_of_not_canonical {root a : Nat} (ha : canonical a = false) :
    deviceTranslate m root a = none := by
  unfold deviceTranslate hardwareWalk
  simp [ha]

theorem deviceTranslate_of_lookup_none (h : lookup (tables m) t (path a) = none) :
    deviceTranslate m (t * PAGE_SIZE) a = none := by
  cases ha : canonical a with
  | false => exact deviceTranslate_of_not_canonical ha
  | true =>
    unfold deviceTranslate
    rw [hardwareWalk_eq_lookup m t a ha, h]
    rfl

theorem deviceTranslate_page (ha : canonical a = true)
    (halign : pa % PAGE_SIZE = 0) (hsmall : pa < 2 ^ 56) (hread : r = true)
    (h : lookup (tables m) t (path a) = some (.page pa r w false false, [])) :
    deviceTranslate m (t * PAGE_SIZE) a =
      some ⟨pa + a % PAGE_SIZE, r, w, false, false⟩ := by
  subst hread
  obtain ⟨hvalid, hr, _⟩ := PTE.flags_page pa true w false false
  have hfaults : (PTE.page pa true w false false).faults = false := by
    unfold PTE.faults
    rw [hvalid, hr]
    rfl
  have haccept : acceptLeaf (.page pa true w false false) 0 =
      some (0, .page pa true w false false) := by
    simp [acceptLeaf, hfaults, Nat.mod_one]
  unfold deviceTranslate
  rw [hardwareWalk_eq_lookup m t a ha, h, bind_some, length_nil, haccept, map_some]
  exact congrArg some (translation_page halign hsmall true w false false a)

theorem canonical_of_translates {tr : Translation}
    (h : deviceTranslate m (t * PAGE_SIZE) a = some tr) :
    canonical a = true ∧ (tr.w = true → tr.r = true) := by
  cases ha : canonical a with
  | false =>
    rw [deviceTranslate_of_not_canonical ha] at h
    cases h
  | true =>
    refine ⟨rfl, ?_⟩
    unfold deviceTranslate at h
    rw [hardwareWalk_eq_lookup m t a ha] at h
    obtain ⟨⟨left, e⟩, hbind, rfl⟩ := map_eq_some_iff.mp h
    obtain ⟨l, _, haccept⟩ := bind_eq_some_iff.mp hbind
    unfold acceptLeaf at haccept
    split at haccept
    · cases haccept
    case isFalse hno =>
      cases haccept
      intro hw
      have hfaults : l.1.faults = false := by
        cases hf : l.1.faults with
        | false => rfl
        | true => simp [hf] at hno
      have hw' : l.1.isWritable = true := hw
      unfold PTE.faults at hfaults
      rw [hw', Bool.and_true] at hfaults
      show l.1.isReadable = true
      simpa using (Bool.or_eq_false_iff.mp hfaults).2

/-! ### Mapping and unmapping pages -/

theorem noSuperpage_step (h : Effect plainPointer (atPage t va) s s' own own')
    (hroot : own t = some (t, [])) (hsmall : NoSuperpage s.mem t va')
    (hpage : lookup (tables s'.mem) t (path va) = none ∨
      lookup (tables s'.mem) t (path va) = some (e, [])) : NoSuperpage s'.mem t va' := by
  by_cases hsame : vpn va' = vpn va
  · unfold NoSuperpage
    rw [path_eq_iff.mpr hsame]
    intro e' rest hl
    rcases hpage with hpage | hpage
    · cases hpage.symm.trans hl
    · cases hpage.symm.trans hl
      rfl
  · unfold NoSuperpage
    rw [h.lookup_other hroot hsame]
    exact hsmall

theorem walk_of_leaf (h : lookup (tables s.mem) t (path va) = some (e, [])) :
    (walkProcessPt s (t * PAGE_SIZE) va true).1.isSome = true := by
  rcases walkProcessPt_read s t va with ⟨f0, hreach, _⟩ | ⟨_, hno⟩
  · obtain ⟨f1, h2, h1⟩ := reaches_iff.mp hreach
    simp [walkProcessPt, nextTable_branch true h2, nextTable_branch true h1]
  · exact absurd h (hno e)

section

variable (h : Tree plainPointer s own) (hroot : own t = some (t, []))
include h hroot

theorem lookup_of_failed_walk {x u : Bool} (hsmall : NoSuperpage s.mem t va)
    (hno : ¬ Supplies s.pool ((hasTable s.mem t).need va)) :
    lookup (tables (mapWith "" s (t * PAGE_SIZE) va pa r w x u).2.mem) t (path va) = none := by
  rcases hwalk : walkProcessPt s (t * PAGE_SIZE) va true with ⟨_ | slot, s1⟩
  · have hrun : mapWith "" s (t * PAGE_SIZE) va pa r w x u = (.error "", s1) := by
      rw [mapWith, hwalk]
    obtain ⟨_, _, hfail, _⟩ := mapWith_effect h hroot hrun
    rw [hrun, (hfail _ rfl).same t t [] (path va) hroot (by simp [path]) id,
      eq_none_iff_forall_ne_some]
    rintro ⟨e, rest⟩ hl
    obtain rfl := hsmall e rest hl
    have harrives := walk_of_leaf hl
    rw [hwalk] at harrives
    cases harrives
  · rw [← walkPt_eq true h hroot hsmall] at hwalk
    rcases walkPt_cases h hroot hsmall hwalk with ⟨hnone, _⟩ | ⟨_, _, _, _, _, hgrown⟩
    · cases hnone
    · exact absurd hgrown.supplied hno

/-- **Mapping one page.**  With the tables it lacks, the page is mapped and the table has
    grown; without, the page has no leaf. -/
theorem iommuMapPte_spec
    (hsmall : NoSuperpage s.mem t va) (hpa : pa < 2 ^ 56) (hrw : (r || w) = true) :
    let s' := iommuMapPte s (t * PAGE_SIZE) va pa r w
    let need := (hasTable s.mem t).need va
    ∃ own', Effect plainPointer (atPage t va) s s' own own' ∧ WritesWithin t s s' ∧
      (Supplies s.pool need → s'.pool = s.pool.drop need ∧
        (∀ q, q.length < 3 → hasTable s'.mem t q = (hasTable s.mem t).withPage va q) ∧
        lookup (tables s'.mem) t (path va) = some (.page pa r w false false, [])) ∧
      (¬ Supplies s.pool need → lookup (tables s'.mem) t (path va) = none) := by
  intro s' need
  have hs' : s' = (mapWith "" s (t * PAGE_SIZE) va pa r w false false).2 :=
    iommuMapPte_eq h hroot hsmall hpa r w
  rw [hs']
  have hwithin : WritesWithin t s (mapWith "" s (t * PAGE_SIZE) va pa r w false false).2 :=
    mapWith_within h hroot rfl
  by_cases hsupplied : Supplies s.pool need
  · obtain ⟨s1, hrun, own', heff, hlookup, hgrown⟩ :=
      (mapIntoPt_attempt h hroot pa r w false false hsmall).elim hsupplied
    rw [mapIntoPt_mapWith h hroot hsmall hrun] at hwithin ⊢
    refine ⟨own', heff, hwithin, fun _ => ⟨hgrown.pool, hgrown.tabled, ?_⟩,
      fun hno => absurd hsupplied hno⟩
    rw [hlookup, hrw, Bool.true_or, if_pos rfl]
  · obtain ⟨own', heff, _, _⟩ := mapWith_effect h hroot rfl
    exact ⟨own', heff, hwithin, fun hyes => absurd hyes hsupplied,
      fun hno => lookup_of_failed_walk h hroot hsmall hno⟩

def mapPages (root : Nat) (pa : Nat → Nat) (r w : Bool) (s : Phys) (vas : List Nat) : Phys :=
  vas.foldl (fun s va => iommuMapPte s root va (pa va) r w) s

/-- **Mapping pages.**  Only those pages are affected.  If they are different pages, all of
    them are mapped when there are frames for the tables they lack, and one has no leaf
    otherwise. -/
theorem mapPages_spec {pas : Nat → Nat} (hsmall : ∀ va ∈ vas, NoSuperpage s.mem t va)
    (hpa : ∀ va ∈ vas, pas va < 2 ^ 56) (hrw : (r || w) = true) :
    let s' := mapPages (t * PAGE_SIZE) pas r w s vas
    let need := (hasTable s.mem t).tablesFor vas
    ∃ own', Effect plainPointer (atPages t vas) s s' own own' ∧ WritesWithin t s s' ∧
      ((vas.map vpn).Nodup →
        (Supplies s.pool need → ∀ va ∈ vas,
          lookup (tables s'.mem) t (path va) = some (.page (pas va) r w false false, [])) ∧
        (¬ Supplies s.pool need → ∃ va ∈ vas, lookup (tables s'.mem) t (path va) = none)) := by
  induction vas generalizing s own with
  | nil =>
    refine ⟨own, .refl h, .refl t s, fun _ => ⟨?_, ?_⟩⟩
    · intro _ va hva
      cases hva
    · intro hno
      exact absurd (supplies_zero s.pool) hno
  | cons va vas ih =>
    obtain ⟨own1, heff1, hwithin1, hmapped, hunmapped⟩ := iommuMapPte_spec h hroot
      (hsmall va mem_cons_self) (hpa va mem_cons_self) hrw
    set s1 := iommuMapPte s (t * PAGE_SIZE) va (pas va) r w
    have hroot1 := heff1.keep t _ hroot
    have hcases : lookup (tables s1.mem) t (path va) = none ∨
        lookup (tables s1.mem) t (path va) = some (.page (pas va) r w false false, []) := by
      by_cases hfirst : Supplies s.pool ((hasTable s.mem t).need va)
      · exact .inr (hmapped hfirst).2.2
      · exact .inl (hunmapped hfirst)
    obtain ⟨own2, heff2, hwithin2, hrest⟩ := ih heff1.tree hroot1
      (fun va' hva' => noSuperpage_step heff1 hroot (hsmall va' (mem_cons_of_mem va hva')) hcases)
      fun va' hva' => hpa va' (mem_cons_of_mem va hva')
    refine ⟨own2, ?_, hwithin1.trans hwithin2, ?_⟩
    · exact (heff1.mono fun r p hat => atPages_cons.mpr (.inl hat)).trans
        (heff2.mono fun r p hat => atPages_cons.mpr (.inr hat))
    · intro hnodup
      rw [map_cons, nodup_cons] at hnodup
      obtain ⟨hserved, hunserved⟩ := hrest hnodup.2
      -- the pages that follow are others, so this one stays as it is
      have hkeep : lookup (tables (mapPages (t * PAGE_SIZE) pas r w s1 vas).mem) t (path va) =
          lookup (tables s1.mem) t (path va) := by
        apply heff2.lookup_outside hroot1
        intro va' hva' heq
        exact hnodup.1 (heq ▸ mem_map_of_mem hva')
      by_cases hfirst : Supplies s.pool ((hasTable s.mem t).need va)
      · obtain ⟨hpool, htabled, hpage⟩ := hmapped hfirst
        have hsplit : Supplies s.pool ((hasTable s.mem t).tablesFor (va :: vas)) ↔
            Supplies s1.pool ((hasTable s1.mem t).tablesFor vas) := by
          rw [Tabled.tablesFor, supplies_add, hpool, Tabled.tablesFor_congr vas htabled]
          exact and_iff_right hfirst
        rw [hsplit]
        refine ⟨?_, ?_⟩
        · exact fun hsupplied => forall_mem_cons.mpr ⟨hkeep.trans hpage, hserved hsupplied⟩
        · intro hno
          obtain ⟨va', hva', hnone⟩ := hunserved hno
          exact ⟨va', mem_cons_of_mem va hva', hnone⟩
      · refine ⟨fun hall => absurd (supplies_add.mp hall).1 hfirst, fun _ => ?_⟩
        exact ⟨va, mem_cons_self, hkeep.trans (hunmapped hfirst)⟩

/-- **Unmapping pages.**  Only those pages are affected, and none of them is left. -/
theorem unmapPages_spec (hsmall : ∀ va ∈ vas, NoSuperpage s.mem t va) :
    let s' := vas.foldl (fun s va => iommuUnmapPte s (t * PAGE_SIZE) va) s
    Effect plainPointer (atPages t vas) s s' own own ∧ WritesWithin t s s' ∧
      ∀ va, va ∈ vas ∨ lookup (tables s.mem) t (path va) = none →
        lookup (tables s'.mem) t (path va) = none := by
  induction vas generalizing s with
  | nil =>
    refine ⟨.refl h, .refl t s, ?_⟩
    rintro va (hva | hnone)
    · cases hva
    · exact hnone
  | cons va vas ih =>
    obtain ⟨hva, hsmall⟩ := forall_mem_cons.mp hsmall
    have hwithin1 := unmapUserPage_within h hroot va
    obtain ⟨heff1, hcase⟩ := unmapUserPage_effect h hroot va
    rw [← iommuUnmapPte_eq h hroot hva] at hwithin1 heff1 hcase
    have hpage : lookup (tables (iommuUnmapPte s (t * PAGE_SIZE) va).mem) t (path va) = none := by
      rcases hcase with hnone | ⟨hsame, hno⟩
      · exact hnone
      · rw [hsame, eq_none_iff_forall_ne_some]
        rintro ⟨e, rest⟩ hl
        obtain rfl := hva e rest hl
        exact hno e hl
    obtain ⟨heff2, hwithin2, hrest⟩ := ih heff1.tree fun va' hva' =>
      noSuperpage_step (e := .empty) heff1 hroot (hsmall va' hva') (.inl hpage)
    refine ⟨?_, hwithin1.trans hwithin2, ?_⟩
    · exact (heff1.mono fun r p hat => atPages_cons.mpr (.inl hat)).trans
        (heff2.mono fun r p hat => atPages_cons.mpr (.inr hat))
    · intro va' hva'
      apply hrest va'
      by_cases hsame : vpn va' = vpn va
      · right
        rw [path_eq_iff.mpr hsame]
        exact hpage
      · rcases hva' with hva' | hnone
        · rcases mem_cons.mp hva' with rfl | hva'
          · exact absurd rfl hsame
          · exact .inl hva'
        · right
          rw [heff1.lookup_other hroot hsame]
          exact hnone

end

/-! ### Ranges -/

section Ranges

variable {iova hpa size : Nat} {flags : BitVec 8}

theorem pageAlignDown_of_aligned (h : va % PAGE_SIZE = 0) : pageAlignDown va = va := by
  unfold pageAlignDown
  omega

section

variable (hiova : iova % PAGE_SIZE = 0) (hsize : size % PAGE_SIZE = 0) (hlt : iova + size < WORD)
include hiova hsize hlt

theorem regionPages_eq :
    regionPages iova size = (range (size / PAGE_SIZE)).map fun k => iova + k * PAGE_SIZE := by
  have hroom : iova + size + (PAGE_SIZE - 1) < WORD := by
    unfold WORD PAGE_SIZE at *
    omega
  have hup : pageAlignUp (iova + size) = iova + size := by
    unfold pageAlignUp
    rw [wrapAdd_of_lt hroom]
    unfold pageAlignDown
    unfold PAGE_SIZE at *
    omega
  unfold regionPages
  rw [wrapAdd_of_lt hlt, hup, pageAlignDown_of_aligned hiova, Nat.add_sub_cancel_left]

theorem mem_regionPages :
    va ∈ regionPages iova size ↔ ∃ k < size / PAGE_SIZE, va = iova + k * PAGE_SIZE := by
  rw [regionPages_eq hiova hsize hlt]
  simp [eq_comm]

theorem regionPages_bounds (hva : va ∈ regionPages iova size) :
    va % PAGE_SIZE = 0 ∧ iova ≤ va ∧ va + PAGE_SIZE ≤ iova + size := by
  obtain ⟨k, hk, rfl⟩ := (mem_regionPages hiova hsize hlt).mp hva
  unfold PAGE_SIZE at *
  omega

theorem page_of_byte {i : Nat} (hi : i < size) :
    iova + i / PAGE_SIZE * PAGE_SIZE ∈ regionPages iova size ∧
      vpn (iova + i) = vpn (iova + i / PAGE_SIZE * PAGE_SIZE) := by
  constructor
  · refine (mem_regionPages hiova hsize hlt).mpr ⟨i / PAGE_SIZE, ?_, rfl⟩
    unfold PAGE_SIZE at *
    omega
  · unfold vpn PAGE_SIZE at *
    omega

end

theorem page_of_vpn {b : Nat} (ha : canonical a = true) (hb : canonical b = true)
    (h : vpn a = vpn b) : a / PAGE_SIZE = b / PAGE_SIZE := by
  simp only [canonical, Bool.or_eq_true, Bool.and_eq_true, decide_eq_true_eq] at ha hb
  unfold vpn PAGE_SIZE at *
  omega

section

variable (hiova : iova % PAGE_SIZE = 0) (hsize : size % PAGE_SIZE = 0) (hlt : iova + size < WORD)
  (hcanon : ∀ i < size, canonical (iova + i) = true)
include hiova hsize hlt hcanon

theorem regionPages_nodup : ((regionPages iova size).map vpn).Nodup := by
  rw [regionPages_eq hiova hsize hlt, List.map_map]
  refine List.Nodup.map_on ?_ nodup_range
  intro k hk j hj heq
  rw [mem_range] at hk hj
  have hbyte : ∀ n, n < size / PAGE_SIZE → canonical (iova + n * PAGE_SIZE) = true := by
    intro n hn
    apply hcanon
    unfold PAGE_SIZE at *
    omega
  have hpage := page_of_vpn (hbyte k hk) (hbyte j hj) heq
  unfold PAGE_SIZE at *
  omega

theorem vpn_ne_of_outside (ha : canonical a = true) (hout : a < iova ∨ iova + size ≤ a) :
    ∀ va ∈ regionPages iova size, vpn va ≠ vpn a := by
  intro va hva heq
  obtain ⟨halign, hlo, hhi⟩ := regionPages_bounds hiova hsize hlt hva
  have hbyte : canonical va = true := by
    have hc := hcanon (va - iova) (by unfold PAGE_SIZE at *; omega)
    rwa [Nat.add_sub_cancel' hlo] at hc
  have hpage := page_of_vpn hbyte ha heq
  unfold PAGE_SIZE at *
  omega

theorem sameElsewhere_of_effect (hroot : own t = some (t, []))
    (heff : Effect plainPointer (atPages t (regionPages iova size)) s s' own own') :
    SameElsewhere s.mem s'.mem (t * PAGE_SIZE) iova size := by
  intro a hout
  cases ha : canonical a with
  | false => rw [deviceTranslate_of_not_canonical ha, deviceTranslate_of_not_canonical ha]
  | true =>
    unfold deviceTranslate
    rw [hardwareWalk_eq_lookup _ t a ha, hardwareWalk_eq_lookup _ t a ha,
      heff.lookup_outside hroot (vpn_ne_of_outside hiova hsize hlt hcanon ha hout)]

end

theorem shareRegion_page (pt : IommuPageTable) (s : Phys) (halign : va % PAGE_SIZE = 0)
    (hlt : va + PAGE_SIZE < WORD) (hpa : pa < WORD) (hrw : (flagR flags || flagW flags) = true) :
    shareRegion pt s va pa PAGE_SIZE flags =
      ({ pt with mappedPages := wrapAdd pt.mappedPages 1 },
        iommuMapPte s pt.rootPhys va pa (flagR flags) (flagW flags)) := by
  have hone : regionPages va PAGE_SIZE = [va] := by
    rw [regionPages_eq halign (by decide) hlt, Nat.div_self (by decide)]
    simp
  have hsame : wrapAdd pa (va - pageAlignDown va) = pa := by
    rw [pageAlignDown_of_aligned halign, Nat.sub_self]
    exact wrapAdd_of_lt hpa
  unfold shareRegion
  rw [hrw, hone]
  simp [sharePage, hsame]

/-- The loop of `map` maps the pages of its region. -/
theorem mapLoop_eq (s : Phys) (root : Nat) (hiova : iova % PAGE_SIZE = 0)
    (hsize : size % PAGE_SIZE = 0) (hlt : iova + size < WORD) (hhpa : hpa + size ≤ 2 ^ 56)
    (hrw : (flagR flags || flagW flags) = true) : mapLoop s root iova hpa size flags =
      mapPages root (fun va => hpa + (va - iova)) (flagR flags) (flagW flags) s
        (regionPages iova size) := by
  have hloop : ∀ (vas : List Nat) (pt : IommuPageTable) (s : Phys),
      (∀ va ∈ vas, va ∈ regionPages iova size) →
      (vas.foldl (fun st current => shareRegion st.1 st.2 current
        (wrapAdd hpa (current - pageAlignDown iova)) PAGE_SIZE flags) (pt, s)).2 =
      mapPages pt.rootPhys (fun va => hpa + (va - iova)) (flagR flags) (flagW flags) s vas := by
    intro vas
    induction vas with
    | nil =>
      intro pt s _
      rfl
    | cons va vas ih =>
      intro pt s hmem
      obtain ⟨halign, hlo, hhi⟩ :=
        regionPages_bounds hiova hsize hlt (hmem va mem_cons_self)
      have hpa : hpa + (va - iova) < WORD := by
        unfold WORD PAGE_SIZE at *
        omega
      have hroom : va + PAGE_SIZE < WORD := hhi.trans_lt hlt
      rw [foldl_cons, pageAlignDown_of_aligned hiova, wrapAdd_of_lt hpa,
        shareRegion_page pt s halign hroom hpa hrw]
      rw [pageAlignDown_of_aligned hiova] at ih
      exact ih _ _ fun va' hva' => hmem va' (mem_cons_of_mem va hva')
  exact hloop (regionPages iova size) (shareProcessPt root) s fun _ hva => hva

/-- **The loop of `map`** changes what devices see as asked for exactly if the range is
    canonical, the read flag is set and there are frames for the tables it lacks. -/
theorem mapLoop_spec (h : Tree plainPointer s own) (hroot : own t = some (t, []))
    (hiova : iova % PAGE_SIZE = 0) (hhpa : hpa % PAGE_SIZE = 0) (hsize : size % PAGE_SIZE = 0)
    (hrw : (flagR flags || flagW flags) = true) (hlt : iova + size < WORD)
    (hroom : hpa + size ≤ 2 ^ 56) (hsmall : ∀ va ∈ regionPages iova size, NoSuperpage s.mem t va) :
    let after := mapLoop s (t * PAGE_SIZE) iova hpa size flags
    ∃ own', Effect plainPointer (atPages t (regionPages iova size)) s after own own' ∧
      WritesWithin t s after ∧
      (Translates after.mem (t * PAGE_SIZE) iova hpa size flags ∧
        SameElsewhere s.mem after.mem (t * PAGE_SIZE) iova size ↔
        (∀ i < size, canonical (iova + i) = true) ∧ (0 < size → flagR flags = true) ∧
          Supplied s (t * PAGE_SIZE) iova size) := by
  have hbounds : ∀ va ∈ regionPages iova size, hpa + (va - iova) < 2 ^ 56 := by
    intro va hva
    obtain ⟨_, hlo, hhi⟩ := regionPages_bounds hiova hsize hlt hva
    unfold PAGE_SIZE at *
    omega
  have hframe := frame_div t
  unfold Supplied
  rw [mapLoop_eq s (t * PAGE_SIZE) hiova hsize hlt hroom hrw, hframe]
  obtain ⟨own', heff, hwithin, hpages⟩ := mapPages_spec h hroot hsmall hbounds hrw
  refine ⟨own', heff, hwithin, ?_, ?_⟩
  · rintro ⟨htrans, _⟩
    have hcanon : ∀ i < size, canonical (iova + i) = true :=
      fun i hi => (canonical_of_translates (htrans i hi)).1
    refine ⟨hcanon, ?_, ?_⟩
    · intro hpos
      by_contra hr
      have hr' : flagR flags = false := Bool.eq_false_of_not_eq_true hr
      rw [hr', Bool.false_or] at hrw
      exact hr ((canonical_of_translates (htrans 0 hpos)).2 hrw)
    · -- a page without a leaf would be a byte that does not translate
      by_contra hno
      obtain ⟨va, hva, hnone⟩ :=
        (hpages (regionPages_nodup hiova hsize hlt hcanon)).2 hno
      obtain ⟨_, hlo, hhi⟩ := regionPages_bounds hiova hsize hlt hva
      have hbyte := htrans (va - iova) (by unfold PAGE_SIZE at *; omega)
      rw [Nat.add_sub_cancel' hlo, deviceTranslate_of_lookup_none hnone] at hbyte
      cases hbyte
  · rintro ⟨hcanon, hread, hserved⟩
    refine ⟨?_, sameElsewhere_of_effect hiova hsize hlt hcanon hroot heff⟩
    intro i hi
    obtain ⟨hva, hvpn⟩ := page_of_byte hiova hsize hlt hi
    have hlookup := (hpages (regionPages_nodup hiova hsize hlt hcanon)).1 hserved _ hva
    rw [← path_eq_iff.mpr hvpn] at hlookup
    have halign : (hpa + (iova + i / PAGE_SIZE * PAGE_SIZE - iova)) % PAGE_SIZE = 0 := by
      unfold PAGE_SIZE at *
      omega
    have hsum : hpa + (iova + i / PAGE_SIZE * PAGE_SIZE - iova) + (iova + i) % PAGE_SIZE =
        hpa + i := by
      unfold PAGE_SIZE at *
      omega
    rw [deviceTranslate_page (hcanon i hi) halign (hbounds _ hva) (hread (Nat.zero_lt_of_lt hi))
      hlookup, hsum]

end Ranges

end TrainOS.Iommu
