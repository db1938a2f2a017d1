import TrainOS.ElfLoading

/-!
# New processes keep the tables in order

`spawn` does not zero its root before `copy_kernel_mappings`, which is harmless since all
512 entries are written.  `fork` builds the child's table from frames that were free, so
the tables of the other processes take no part in it.
-/

namespace TrainOS.Sv39

open ByteMemory RadixTable

variable {ok : PTE → Prop} {s s' s1 s2 : Phys} {own own' : Own} {kr t : Nat}
variable {Q : Nat → List (Fin 512) → PTE → Prop} {K : List (Fin 512) → Found} {R : Nat → Prop}

/-! ### A root that was not zeroed -/

/-- The bytes of the entries `todo` of a table. -/
def slotsOf (t : Nat) (todo : List (Fin 512)) (a : Nat) : Prop :=
  ∃ i ∈ todo, entryAddr (t * PAGE_SIZE) i ≤ a ∧ a < entryAddr (t * PAGE_SIZE) i + 8

/-- The two states agree, except on the entries `todo` of table `t`. -/
structure AgreeBut (t : Nat) (todo : List (Fin 512)) (s1 s2 : Phys) : Prop where
  pool : s1.pool = s2.pool
  bytes : ∀ a, ¬ slotsOf t todo a → s1.mem a = s2.mem a

variable {todo : List (Fin 512)} {a f : Nat} {o : Nat × List (Fin 512)} {i : Fin 512}

theorem AgreeBut.frame (h : AgreeBut t todo s1 s2) (ha : a / PAGE_SIZE ≠ t) :
    s1.mem a = s2.mem a := by
  refine h.bytes a ?_
  rintro ⟨i, _, hlo, hhi⟩
  have hslot := slot_in_frame t i
  unfold PAGE_SIZE at *
  omega

theorem writePte_agree {m1 m2 : Memory} {e : PTE}
    (h : ∀ a, ¬ slotsOf t (i :: todo) a → m1 a = m2 a) : ∀ a, ¬ slotsOf t todo a →
      writePte m1 (t * PAGE_SIZE) i e a = writePte m2 (t * PAGE_SIZE) i e a := by
  intro a ha
  unfold writePte
  by_cases hin : entryAddr (t * PAGE_SIZE) i ≤ a ∧ a < entryAddr (t * PAGE_SIZE) i + 8
  · rw [writeLE_apply_of_mem m1 _ hin.1 hin.2, writeLE_apply_of_mem m2 _ hin.1 hin.2]
  · have hout : a < entryAddr (t * PAGE_SIZE) i ∨ entryAddr (t * PAGE_SIZE) i + 8 ≤ a := by
      omega
    rw [writeLE_apply_of_not_mem m1 _ hout, writeLE_apply_of_not_mem m2 _ hout]
    apply h
    rintro ⟨j, hj, hslot⟩
    rcases List.mem_cons.mp hj with rfl | hj
    · exact hin hslot
    · exact ha ⟨j, hj, hslot⟩

theorem copyKernelEntry_agree (hk : KernelTable s2 own kr)
    (ht : own t = some (t, [])) (h : AgreeBut t (i :: todo) s1 s2) :
    (copyKernelEntry (kr * PAGE_SIZE) (t * PAGE_SIZE) s1 i = none ∧
      copyKernelEntry (kr * PAGE_SIZE) (t * PAGE_SIZE) s2 i = none) ∨
    ∃ s1' s2', copyKernelEntry (kr * PAGE_SIZE) (t * PAGE_SIZE) s1 i = some s1' ∧
      copyKernelEntry (kr * PAGE_SIZE) (t * PAGE_SIZE) s2 i = some s2' ∧
      AgreeBut t todo s1' s2' := by
  have hword : readPte s1.mem (kr * PAGE_SIZE) i = readPte s2.mem (kr * PAGE_SIZE) i := by
    apply readPte_congr
    intro a ha
    apply h.frame
    rw [ha]
    exact hk.root.ne_owned ht
  unfold copyKernelEntry
  rw [hword]
  by_cases hbranch : (readPte s2.mem (kr * PAGE_SIZE) i).isBranch = true
  · simp only [hbranch, if_true, Phys.allocPage, h.pool]
    obtain ⟨f, hf⟩ := isBranch_iff.mp hbranch
    have hne : f ≠ t := (hk.second i f hf).ne_owned ht
    have haddr : (readPte s2.mem (kr * PAGE_SIZE) i).physAddr = f * PAGE_SIZE := by
      rw [physAddr_eq, (decode_eq_branch.mp hf).2.2]
    rw [haddr]
    rcases s2.pool with _ | ⟨_ | newL1, rest⟩
    · exact .inl ⟨rfl, rfl⟩
    · exact .inl ⟨rfl, rfl⟩
    · refine .inr ⟨_, _, rfl, rfl, rfl, ?_⟩
      apply writePte_agree
      intro a ha
      -- the copied bytes come from a frame on which the states agree
      by_cases hin : newL1 ≤ a ∧ a < newL1 + PAGE_SIZE
      · rw [copy_apply_of_mem _ hin.1 hin.2, copy_apply_of_mem _ hin.1 hin.2]
        apply h.frame
        rw [frame_add f (by omega)]
        exact hne
      · simp only [copy, if_neg hin]
        exact h.bytes a ha
  · simp only [hbranch]
    exact .inr ⟨_, _, rfl, rfl, h.pool, writePte_agree h.bytes⟩

theorem copyLoop_agree (htree : Tree ok s2 own)
    (hk : KernelTable s2 own kr) (he : KernelEntries ok s2 kr) (ht : own t = some (t, []))
    (h : AgreeBut t todo s1 s2) :
    todo.foldlM (copyKernelEntry (kr * PAGE_SIZE) (t * PAGE_SIZE)) s1 =
      todo.foldlM (copyKernelEntry (kr * PAGE_SIZE) (t * PAGE_SIZE)) s2 := by
  induction todo generalizing s1 s2 own with
  | nil =>
    have hmem : s1.mem = s2.mem := funext fun a => h.bytes a (by simp [slotsOf])
    rw [Phys.ext hmem h.pool]
  | cons i todo ih =>
    rw [List.foldlM_cons, List.foldlM_cons]
    rcases copyKernelEntry_agree hk ht h with ⟨h1, h2⟩ | ⟨s1', s2', h1, h2, hagree⟩
    · rw [h1, h2]
    · rw [h1, h2]
      obtain ⟨own', heff, _, _, _⟩ := copyKernelEntry_effect htree hk he ht h2
      exact ih heff.tree (hk.effect heff) (he.effect hk heff) (heff.keep t _ ht) hagree

theorem slotsOf_all (ha : a / PAGE_SIZE = t) : slotsOf t (List.finRange 512) a := by
  have hlt : (a - t * PAGE_SIZE) / 8 < 512 := by
    unfold PAGE_SIZE at *
    omega
  refine ⟨⟨(a - t * PAGE_SIZE) / 8, hlt⟩, List.mem_finRange _, ?_⟩
  unfold entryAddr PAGE_SIZE at *
  simp only
  omega

/-! ### A new root -/

theorem TablesInv.plainKernel (h : TablesInv Q K kr R s own) : KernelEntries plainEntry s kr :=
  fun i => ⟨(h.words i).1.2, fun f hf j => ((h.words i).2 f hf j).2⟩

/-- A new root has the mappings of the kernel. -/
theorem TablesInv.newRoot {root : Nat} (h : TablesInv Q K kr R s own)
    (halloc : s.allocPage = (some root, s1))
    (hcopy : copyKernelMappings (kr * PAGE_SIZE) root s1 = some s') :
    ∃ c own', root = c * PAGE_SIZE ∧ ¬ R c ∧ Effect plainEntry (inTable c) s s' own own' ∧
      TablesInv Q K kr (fun t => R t ∨ t = c) s' own' := by
  have hzeroed : allocTable s = some (root, { s1 with mem := fill s1.mem root PAGE_SIZE 0 }) := by
    unfold allocTable
    rw [halloc]
  obtain ⟨heff1, _, haligned⟩ := allocTable_effect h.tree hzeroed
  have h1 := h.effect heff1 fun _ _ _ _ hno => hno.elim
  -- the copy does the same as from a zeroed root
  have hagree : AgreeBut (root / PAGE_SIZE) (List.finRange 512) s1
      { s1 with mem := fill s1.mem root PAGE_SIZE 0 } := by
    refine ⟨rfl, ?_⟩
    intro a ha
    show s1.mem a = fill s1.mem root PAGE_SIZE 0 a
    rw [← haligned, fill_bytes fun hframe => ha (slotsOf_all hframe)]
  have hsame := copyLoop_agree h1.tree h1.kernel h1.plainKernel (Function.update_self _ _ _) hagree
  rw [haligned] at hsame
  obtain ⟨c, own2, rfl, _, hfresh, hown, heff, hcopied⟩ :=
    newRoot_effect h.tree h.kernel h.plainKernel hzeroed (hsame.symm.trans hcopy)
  have hnot : ∀ t, R t → t ≠ c := fun t ht => ne_of_fresh hfresh (h.root_own t ht)
  have h2 := h.effect heff fun t ht _ _ ha => absurd ha (hnot t ht)
  have hfinds : ∀ p, lookup (tables s'.mem) c p = K p :=
    fun p => (hcopied p).trans (h2.finds p)
  refine ⟨c, own2, rfl, fun hR => hnot c hR rfl, heff, h2.add hown ?_ ?_⟩
  · intro p l _ hl
    exact (hfinds p).trans hl
  · intro p e rest _ hl
    exact .kernel ((hfinds p).symm.trans hl)

/-! ### Fork -/

/-- Trees that were built from free frames alone stand beside the old ones. -/
def mergeOwn (own own' : Own) : Own := fun f => (own f).or (own' f)

theorem mergeOwn_some (h : own f = some o) : mergeOwn own own' f = some o := by
  simp [mergeOwn, h]

theorem mergeOwn_none (h : own f = none) : mergeOwn own own' f = own' f := by
  simp [mergeOwn, h]

theorem Tree.foreign_none (h : Tree ok s own) (hf : own f = some o) :
    Foreign s (fun _ => none) f := by
  refine ⟨rfl, ?_⟩
  rintro p hp rfl
  rw [h.fresh p hp] at hf
  cases hf

/-- A tree built beside the others joins them. -/
theorem Effect.merge {affected : Nat → List (Fin 512) → Prop} (h : Tree ok s own)
    (heff : Effect ok affected s s' (fun _ => none) own') :
    Effect ok nowhere s s' own (mergeOwn own own') := by
  have hkeep : ∀ f o, own f = some o → ∀ i, tables s'.mem f i = tables s.mem f i :=
    fun f o hf => heff.tables_foreign (h.foreign_none hf)
  constructor
  case tree =>
    refine ⟨h.rule, ?_, ?_, heff.tree.pool, ?_⟩
    · intro f o hf i
      cases hown : own f with
      | some o' =>
        rw [heff.readPte_foreign (h.foreign_none hown)]
        exact h.entries f o' hown i
      | none =>
        rw [mergeOwn_none hown] at hf
        exact heff.tree.entries f o hf i
    · intro f r q i g hf hlevel hbranch
      cases hown : own f with
      | some o' =>
        rw [mergeOwn_some hown] at hf
        cases hf
        rw [hkeep f _ hown i] at hbranch
        exact mergeOwn_some (h.owned f r q i g hown hlevel hbranch)
      | none =>
        rw [mergeOwn_none hown] at hf
        have hg := heff.tree.owned f r q i g hf hlevel hbranch
        cases hgown : own g with
        | some o =>
          rw [heff.foreign g (h.foreign_none hgown)] at hg
          cases hg
        | none =>
          rw [mergeOwn_none hgown]
          exact hg
    · intro p hp
      rw [mergeOwn_none (h.fresh p (frames_subset_of_suffix heff.pool p hp))]
      exact heff.tree.fresh p hp
  case keep => exact fun f o hf => mergeOwn_some hf
  case foreign =>
    intro f hf
    rw [mergeOwn_none hf.1]
    exact heff.foreign f ⟨rfl, hf.2⟩
  case bytes => exact fun a ha => heff.bytes a ⟨rfl, ha.2⟩
  case pool => exact heff.pool
  case branch =>
    intro f r q i g hf _ _ hbranch
    exact (hkeep f _ hf i).trans hbranch
  case same =>
    intro f r q is hf hdepth _
    exact lookup_congr_owned h.owned hkeep hf hdepth

/-- The parent maps no page below `2 ^ 38` that is executable and either writable or
    dirty. -/
def NoDirtyCode (s : Phys) (pf : Nat) : Prop :=
  ∀ va < 2 ^ 38, ∀ e, lookup (tables s.mem) pf (path va) = some (e, []) →
    e.isExecutable = true → (e.isWritable || e.isDirty) = false

variable {pf c : Nat} {p : List (Fin 512)}

theorem TablesInv.forkable (h : TablesInv Q K kr R s own) (hpf : R pf) :
    Forkable plainEntry s kr pf := by
  have hunown : ∀ f, Foreign s own f → Foreign s (fun _ => none) f := fun f hf => ⟨rfl, hf.2⟩
  constructor
  case rule => exact entryRule_plain
  case entries => exact h.plainKernel
  case pool => exact h.tree.pool
  case kernel =>
    exact ⟨hunown _ h.kernel.root, fun i f hf => hunown f (h.kernel.second i f hf),
      h.kernel.shallow⟩
  case used =>
    intro q f hq hf
    have hown := h.tree.owned.frameAt (h.root_own pf hpf) (by simpa using hq) hf
    exact ⟨h.tree.foreign_none hown, h.tree.entries f _ hown⟩
  case covered =>
    intro p l hp hl
    exact h.covered pf hpf p l hp ((h.finds p).symm.trans hl)
  case giga =>
    intro i _ e hleaf
    cases h.leaves pf hpf [i, 0, 0] e [0, 0] rfl (lookup_leaf _ hleaf) with
    | kernel hk => exact giga_of_lookup ((h.finds _).trans hk)
    | page hrest _ _ => cases hrest

theorem TablesInv.forkedLeaf {e e' : PTE} (h : TablesInv noWx K kr R s own) (hpf : R pf)
    (hsafe : e.isExecutable = true → (e.isWritable || e.isDirty) = false) (hp : p.length = 3)
    (heff : Effect plainEntry nowhere s s' own (mergeOwn own own'))
    (hparent : lookup (tables s.mem) pf p = some (e, [])) (hcopied : LeafCopied s s' own' e e') :
    GoodLeaf noWx K kr s' (mergeOwn own own') c p e' [] := by
  rcases hcopied with ⟨_, rfl⟩ | ⟨hcopied, g, rfl, hpool, hforeign, _⟩
  · cases h.leaves pf hpf p e' [] hp hparent with
    | kernel hk => exact .kernel hk
    | page _ hno hd => exact .page rfl hno (hd.effect h.kernel heff)
  · have hppn : (PTE.page (g * PAGE_SIZE) true true e.isExecutable true).ppn = g :=
      PTE.ppn_page_frame (h.tree.pool.frame _ hpool).2 _ _ _ _
    have hfresh := h.tree.fresh _ hpool
    rw [frame_div g] at hfresh
    refine .page rfl ?_ ?_
    · show PTE.isWx _ = false
      rw [PTE.isWx_page]
      cases hx : e.isExecutable with
      | false => rfl
      | true =>
        rw [hsafe hx] at hcopied
        cases hcopied
    · rw [hppn]
      refine ⟨⟨(mergeOwn_none hfresh).trans hforeign.1, hforeign.2⟩, ?_⟩
      rw [kernelFrame_congr (heff.tables_foreign h.kernel.root)]
      intro hframe
      apply (h.kernel.frame_foreign hframe).2 _ hpool
      exact frame_div g

/-- **Fork.**  The copy leaves the tables in order, and if the parent has no dirty code
    the child's table joins them. -/
theorem TablesInv.fork {res : Except String Nat} (h : TablesInv noWx K kr R s own) (hpf : R pf)
    (hsafe : NoDirtyCode s pf)
    (hrun : forkPageTable (kr * PAGE_SIZE) (pf * PAGE_SIZE) s = some (res, s')) :
    ∃ own', TablesInv noWx K kr R s' own' ∧ ∀ childPt, res = .ok childPt →
      ∃ c, childPt = c * PAGE_SIZE ∧ TablesInv noWx K kr (fun t => R t ∨ t = c) s' own' := by
  obtain ⟨c, ownc, hcopy, hres⟩ := forkPageTable_effect (h.forkable hpf) hrun
  have heff := hcopy.merge h.tree
  have h' := h.effect heff fun _ _ _ _ hno => hno.elim
  refine ⟨_, h', ?_⟩
  intro childPt hok
  obtain ⟨hchild, hforked⟩ := hres childPt hok
  have hroot : mergeOwn own ownc c = some (c, []) := by
    cases hown : own c with
    | none => exact (mergeOwn_none hown).trans hforked.root
    | some o =>
      -- the child's root was free
      have hnone := hcopy.foreign c (h.tree.foreign_none hown)
      rw [hforked.root] at hnone
      cases hnone
  refine ⟨c, hchild, h'.add hroot ?_ ?_⟩
  · intro p l hp hl
    by_cases huser : ∃ i ∈ userEntries, [i] <+: p
    · have hparent := h.covered pf hpf p l hp hl
      cases hforked.user p hp huser with
      | unmapped hnone _ =>
        rw [hparent] at hnone
        cases hnone
      | superpage _ hsuper hchild' => rw [hchild', ← hsuper, hparent]
      | page hpage _ _ =>
        rw [hparent] at hpage
        cases hpage
        exact absurd rfl (h.kernel_leaf hp hl).1
    · rw [hforked.kernel p hp huser, h.finds p]
      exact hl
  · intro p e' rest hp hl
    by_cases huser : ∃ i ∈ userEntries, [i] <+: p
    · cases hforked.user p hp huser with
      | unmapped _ hnone =>
        rw [hl] at hnone
        cases hnone
      | superpage hrest hparent hsuper =>
        cases hl.symm.trans hsuper
        cases h.leaves pf hpf p _ _ hp hparent with
        | kernel hk => exact .kernel hk
        | page hnil _ _ => exact absurd hnil hrest
      | page hparent hpage hcopied =>
        cases hl.symm.trans hpage
        obtain ⟨va, rfl, hlow⟩ := exists_path hp
        exact h.forkedLeaf hpf (hsafe va (hlow huser) _ hparent) hp heff hparent hcopied
    · rw [hforked.kernel p hp huser, h.finds p] at hl
      exact .kernel hl

end TrainOS.Sv39
