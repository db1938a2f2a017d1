import TrainOS.KernelMapping

/-!
# Separation of address spaces

Many page tables share one physical memory.  The kernel table is not a tree (its root
has two entries for one second-level table), so its frames stay outside the ownership
and are never written after boot; each process root owns a tree of its own, with copies
of the second-level kernel tables.
-/

namespace TrainOS.Sv39

open ByteMemory Function List Option RadixTable Runs

variable {ok : PTE → Prop} {s s' : Phys} {own own' : Own} {affected : Nat → List (Fin 512) → Prop}

/-! ### Foreign frames -/

variable {f : Nat}

section

variable (h : Effect ok affected s s' own own') (hf : Foreign s own f)
include h hf

theorem Effect.readPte_foreign (i : Fin 512) :
    readPte s'.mem (f * PAGE_SIZE) i = readPte s.mem (f * PAGE_SIZE) i := by
  apply readPte_congr
  rintro a rfl
  exact h.bytes a hf

theorem Effect.tables_foreign (i : Fin 512) : tables s'.mem f i = tables s.mem f i :=
  congrArg PTE.decode (h.readPte_foreign hf i)

end

/-- The kernel table: a foreign root whose second-level tables are foreign and hold no
    further tables. -/
structure KernelTable (s : Phys) (own : Own) (kr : Nat) : Prop where
  root : Foreign s own kr
  second : ∀ i f, tables s.mem kr i = .branch f → Foreign s own f
  shallow : ∀ i f j g, tables s.mem kr i = .branch f → tables s.mem f j ≠ .branch g

def KernelFrame (m : Memory) (kr f : Nat) : Prop := f = kr ∨ ∃ i, tables m kr i = .branch f

variable {kr p : Nat} {m m' : Memory}

/-- From `m` to `m'` no word of the kernel table has changed. -/
def SameKernel (m m' : Memory) (kr : Nat) : Prop :=
  ∀ f, KernelFrame m kr f → ∀ i, readPte m' (f * PAGE_SIZE) i = readPte m (f * PAGE_SIZE) i

theorem SameKernel.tables (h : SameKernel m m' kr) (hf : KernelFrame m kr f) (i : Fin 512) :
    tables m' f i = tables m f i :=
  congrArg PTE.decode (h f hf i)

/-- The words of the kernel table satisfy `ok`. -/
def KernelEntries (ok : PTE → Prop) (s : Phys) (kr : Nat) : Prop :=
  ∀ i, ok (readPte s.mem (kr * PAGE_SIZE) i) ∧
    ∀ f, tables s.mem kr i = .branch f → ∀ j, ok (readPte s.mem (f * PAGE_SIZE) j)

theorem kernelEntries_any (s : Phys) (kr : Nat) : KernelEntries anyEntry s kr :=
  fun _ => ⟨trivial, fun _ _ _ => trivial⟩

theorem KernelEntries.same (he : KernelEntries ok s kr) (h : SameKernel s.mem s'.mem kr) :
    KernelEntries ok s' kr := by
  intro i
  constructor
  · rw [h kr (.inl rfl) i]
    exact (he i).1
  · intro f hbranch j
    rw [h.tables (.inl rfl)] at hbranch
    rw [h f (.inr ⟨i, hbranch⟩) j]
    exact (he i).2 f hbranch j

section

variable (hk : KernelTable s own kr)
include hk

theorem KernelTable.frame_foreign (hf : KernelFrame s.mem kr f) :
    Foreign s own f := by
  rcases hf with rfl | ⟨i, hi⟩
  · exact hk.root
  · exact hk.second i f hi

theorem KernelTable.same (h : SameKernel s.mem s'.mem kr)
    (hforeign : ∀ f, KernelFrame s.mem kr f → Foreign s' own' f) : KernelTable s' own' kr := by
  have hroot := h.tables (.inl rfl)
  refine ⟨hforeign kr (.inl rfl), ?_, ?_⟩
  · intro i f hbranch
    exact hforeign f (.inr ⟨i, (hroot i).symm.trans hbranch⟩)
  · intro i f j g hbranch
    have hf := (hroot i).symm.trans hbranch
    rw [h.tables (.inr ⟨i, hf⟩) j]
    exact hk.shallow i f j g hf

section

variable (h : Effect ok affected s s' own own')
include h

theorem KernelTable.sameKernel : SameKernel s.mem s'.mem kr :=
  fun _ hf => h.readPte_foreign (hk.frame_foreign hf)

theorem KernelTable.effect : KernelTable s' own' kr :=
  hk.same (hk.sameKernel h) fun _ hf => h.foreign_of (hk.frame_foreign hf)

theorem KernelEntries.effect {ok' : PTE → Prop} (he : KernelEntries ok' s kr) :
    KernelEntries ok' s' kr :=
  he.same (hk.sameKernel h)

end

theorem KernelTable.lookup_of_same (h : SameKernel s.mem m kr)
    (is : List (Fin 512)) : lookup (tables m) kr is = lookup (tables s.mem) kr is := by
  apply lookup_congr_closed (K := KernelFrame s.mem kr)
  · rintro f i g hf hbranch
    rcases hf with rfl | ⟨j, hj⟩
    · exact .inr ⟨i, hbranch⟩
    · exact absurd hbranch (hk.shallow j f i g hj)
  · exact fun f hf => h.tables hf
  · exact .inl rfl

theorem KernelTable.lookup_same
    (h : Effect ok affected s s' own own') (is : List (Fin 512)) :
    lookup (tables s'.mem) kr is = lookup (tables s.mem) kr is :=
  hk.lookup_of_same (hk.sameKernel h) is

end

/-! ### A fresh frame becomes a root -/

/-- The effects that stay within the table of root `t`. -/
def inTable (t : Nat) : Nat → List (Fin 512) → Prop := fun r _ => r = t

theorem allocTable_cases (h : allocTable s = some (p, s')) : ∃ rest, s.pool = some p :: rest ∧
      s' = { mem := fill s.mem p PAGE_SIZE 0, pool := rest } := by
  unfold allocTable at h
  rcases halloc : s.allocPage with ⟨answer, s1⟩
  rw [halloc] at h
  rcases Phys.allocPage_cases halloc with ⟨rfl, _⟩ | ⟨q, rest, rfl, hpool, rfl⟩
  · cases h
  · cases h
    exact ⟨rest, hpool, rfl⟩

/-- A fresh table is the root of a tree of its own. -/
theorem allocTable_effect (h : Tree ok s own) (hrun : allocTable s = some (p, s')) :
    Effect ok nowhere s s' own
        (update own (p / PAGE_SIZE) (some (p / PAGE_SIZE, []))) ∧
      (∀ i, tables s'.mem (p / PAGE_SIZE) i = .empty) ∧ p / PAGE_SIZE * PAGE_SIZE = p := by
  obtain ⟨rest, hpool, rfl⟩ := allocTable_cases hrun
  obtain ⟨hp, _, hfresh, hrest⟩ := h.next_frame hpool
  set t := p / PAGE_SIZE
  have hzero := readPte_fill_page s.mem hp
  have hcleared : ∀ i, tables (fill s.mem p PAGE_SIZE 0) t i = .empty :=
    fun i => (congrArg PTE.decode (hzero i)).trans decode_empty
  have htake := (takeFrame_effect h hpool fun _ => fill_page hp).1
  have hkeep : ∀ f o, own f = some o → update own t (some (t, [])) f = some o := by
    intro f o hf
    rw [update_of_ne (ne_of_fresh hfresh hf)]
    exact hf
  have htree : Tree ok { mem := fill s.mem p PAGE_SIZE 0, pool := rest }
      (update own t (some (t, []))) := by
    refine ⟨h.rule, ?_, ?_, htake.tree.pool, ?_⟩
    · intro f o hf i
      by_cases hft : f = t
      · rw [hft]
        exact hzero i ▸ h.rule.empty
      · rw [update_of_ne hft] at hf
        exact htake.tree.entries f o hf i
    · intro f r q i g hf hlevel hbranch
      by_cases hft : f = t
      · rw [hft] at hbranch
        exact absurd (hbranch.symm.trans (hcleared i)) (by simp)
      · rw [update_of_ne hft] at hf
        exact hkeep g _ (htake.tree.owned f r q i g hf hlevel hbranch)
    · intro q hq
      rw [update_of_ne (hrest q hq)]
      exact htake.tree.fresh q hq
  refine ⟨{ htake with tree := htree, keep := hkeep, foreign := ?_ }, hcleared, hp.symm⟩
  intro f hf
  rw [update_of_ne (hf.ne_next hpool)]
  exact hf.1

/-! ### Copying the kernel mappings -/

variable {e : PTE} {t : Nat}

theorem isBranch_iff : e.isBranch = true ↔ ∃ f, e.decode = .branch f := by
  simp only [decode_eq_branch, PTE.isBranch, PTE.isLeaf, exists_and_left, exists_eq', and_true]
  cases e.isValid <;> simp

/-- Entry `i` of root `t` is a copy of the kernel's: a table of its own with the same
    entries, or the same entry. -/
def Copied (s : Phys) (own : Own) (kr t : Nat) (i : Fin 512) : Prop :=
  (∃ f g, tables s.mem kr i = .branch f ∧ tables s.mem t i = .branch g ∧
    own g = some (t, [i]) ∧ ∀ j, tables s.mem g j = tables s.mem f j) ∨
  (tables s.mem t i = tables s.mem kr i ∧ ∀ f, tables s.mem kr i ≠ .branch f)

/-- The tables of a root other than its first level are left alone. -/
def KeepsTables (s s' : Phys) (own : Own) (t : Nat) : Prop :=
  ∀ g o, own g = some o → g ≠ t → ∀ j, tables s'.mem g j = tables s.mem g j

theorem under_inTable {p : List (Fin 512)} : ∀ r q, under t p r q → inTable t r q :=
  fun _ _ h => h.1

variable {i : Fin 512}

/-- A table is copied into a fresh frame and entered into the root. -/
theorem copyTable_effect {rest : List (Option Nat)} (h : Tree ok s own) (ht : own t = some (t, []))
    (hok : ∀ j, ok (readPte s.mem (f * PAGE_SIZE) j))
    (hshallow : ∀ j g, tables s.mem f j ≠ .branch g) (hpool : s.pool = some p :: rest) :
    let m := writePte (copy s.mem (f * PAGE_SIZE) p PAGE_SIZE) (t * PAGE_SIZE) i (.table p)
    Effect ok (inTable t) s { mem := m, pool := rest } own (graftOwn own t i (p / PAGE_SIZE)) ∧
      tables m = attach (tables s.mem) t i (p / PAGE_SIZE) (tables s.mem f) := by
  intro m
  obtain ⟨hp, _, _, _⟩ := h.next_frame hpool
  have hbytes : ∀ a, a / PAGE_SIZE ≠ p / PAGE_SIZE →
      copy s.mem (f * PAGE_SIZE) p PAGE_SIZE a = s.mem a := by
    intro a ha
    rw [hp]
    exact copy_bytes ha
  have hread : ∀ j, readPte (copy s.mem (f * PAGE_SIZE) p PAGE_SIZE)
      (p / PAGE_SIZE * PAGE_SIZE) j = readPte s.mem (f * PAGE_SIZE) j := by
    intro j
    obtain ⟨hlo, hhi⟩ := slot_in_frame (p / PAGE_SIZE) j
    rw [← hp] at hlo hhi ⊢
    have hsrc : f * PAGE_SIZE + (entryAddr p j - p) = entryAddr (f * PAGE_SIZE) j := by
      unfold entryAddr
      omega
    rw [readPte, readLE_copy s.mem hlo hhi, hsrc]
    rfl
  have hcopy : tables (copy s.mem (f * PAGE_SIZE) p PAGE_SIZE) (p / PAGE_SIZE) =
      tables s.mem f :=
    funext fun j => congrArg PTE.decode (hread j)
  obtain ⟨heff, htables⟩ := attach_effect (i := i) h ht hpool hbytes
    (fun j => by rw [hread j]; exact hok j) (fun j => by rw [hcopy]; exact hshallow j)
  rw [hcopy] at htables
  exact ⟨heff.mono under_inTable, htables⟩

variable {kr t : Nat}

/-- **One iteration.**  The entry is copied, and only the new root notices. -/
theorem copyKernelEntry_effect (h : Tree ok s own)
    (hk : KernelTable s own kr) (he : KernelEntries ok s kr) (ht : own t = some (t, []))
    (hrun : copyKernelEntry (kr * PAGE_SIZE) (t * PAGE_SIZE) s i = some s') :
    ∃ own', Effect ok (inTable t) s s' own own' ∧ Copied s' own' kr t i ∧
      (∀ j, j ≠ i → tables s'.mem t j = tables s.mem t j) ∧ KeepsTables s s' own t := by
  have hkt : kr ≠ t := hk.root.ne_owned ht
  unfold copyKernelEntry at hrun
  by_cases hbranch : (readPte s.mem (kr * PAGE_SIZE) i).isBranch = true
  · obtain ⟨f, hf⟩ := isBranch_iff.mp hbranch
    have hentry : tables s.mem kr i = .branch f := hf
    have hforeign := hk.second i f hentry
    have haddr : (readPte s.mem (kr * PAGE_SIZE) i).physAddr = f * PAGE_SIZE := by
      rw [physAddr_eq, (decode_eq_branch.mp hf).2.2]
    simp only [hbranch, if_true, haddr] at hrun
    unfold Phys.allocPage at hrun
    rcases hpool : s.pool with _ | ⟨answer, rest⟩
    · rw [hpool] at hrun
      cases hrun
    · rw [hpool] at hrun
      cases answer with
      | none => cases hrun
      | some p =>
        cases hrun
        obtain ⟨heff, htables⟩ := copyTable_effect (i := i) h ht ((he i).2 f hentry)
          (fun j g => hk.shallow i f j g hentry) hpool
        obtain ⟨_, _, hfresh, _⟩ := h.next_frame hpool
        -- every frame but the new one keeps its entries, apart from the one of the root
        have hother : ∀ k j, k ≠ p / PAGE_SIZE → (k ≠ t ∨ j ≠ i) →
            tables (writePte (copy s.mem (f * PAGE_SIZE) p PAGE_SIZE) (t * PAGE_SIZE) i
              (.table p)) k j = tables s.mem k j := by
          intro k j hkp hne
          rw [htables]
          apply attach_of_ne hkp
          rintro ⟨rfl, rfl⟩
          rcases hne with hne | hne <;> exact hne rfl
        refine ⟨_, heff, .inl ⟨f, p / PAGE_SIZE, ?_, ?_, graftOwn_self ht, ?_⟩, ?_, ?_⟩
        · exact (hother kr i (hk.root.ne_next hpool) (.inl hkt)).trans hentry
        · rw [htables]
          exact write_self _ _ _ _
        · intro j
          refine Eq.trans ?_ (hother f j (hforeign.ne_next hpool)
            (.inl (hforeign.ne_owned ht))).symm
          rw [htables]
          exact attach_frame hfresh ht j
        · intro j hji
          exact hother t j (ne_of_fresh hfresh ht) (.inr hji)
        · intro k o hko hkt' j
          exact hother k j (ne_of_fresh hfresh hko) (.inl hkt')
  · simp only [hbranch] at hrun
    cases hrun
    have hleaf : ∀ f, (readPte s.mem (kr * PAGE_SIZE) i).decode ≠ .branch f := by
      intro f hf
      exact hbranch (isBranch_iff.mpr ⟨f, hf⟩)
    have htables := tables_writePte s.mem t i (readPte s.mem (kr * PAGE_SIZE) i)
    have hkeep : ∀ k j, (k ≠ t ∨ j ≠ i) → tables (writePte s.mem (t * PAGE_SIZE) i
        (readPte s.mem (kr * PAGE_SIZE) i)) k j = tables s.mem k j := by
      intro k j hne
      rw [htables]
      rcases hne with hne | hne
      · exact write_of_frame_ne hne
      · simp [write, hne]
    have heff := (writeEntry_effect (i := i) h ht (he i).1 fun _ => hleaf).mono under_inTable
    refine ⟨own, heff, .inr ⟨?_, ?_⟩, ?_, ?_⟩
    · rw [hkeep kr i (.inl hkt), htables, write_self]
      rfl
    · intro f
      rw [hkeep kr i (.inl hkt)]
      exact hleaf f
    · intro j hji
      exact hkeep t j (.inr hji)
    · intro k o _ hkt' j
      exact hkeep k j (.inl hkt')

theorem Copied.keep (hc : Copied s own kr t i)
    (hk : KernelTable s own kr) (h : Effect ok affected s s' own own')
    (hentry : tables s'.mem t i = tables s.mem t i) (hkeep : KeepsTables s s' own t)
    (ht : own t = some (t, [])) : Copied s' own' kr t i := by
  have hroot := h.tables_foreign hk.root i
  rcases hc with ⟨f, g, hf, hg, hown, hcopy⟩ | ⟨hsame, hleaf⟩
  · refine .inl ⟨f, g, hroot.trans hf, hentry.trans hg, h.keep g _ hown, ?_⟩
    have hgt : g ≠ t := by
      rintro rfl
      obtain ⟨_, hpath⟩ := Prod.mk.inj (some.inj (ht.symm.trans hown))
      cases hpath
    intro j
    rw [hkeep g _ hown hgt j, h.tables_foreign (hk.second i f hf) j]
    exact hcopy j
  · refine .inr ⟨?_, ?_⟩
    · rw [hentry, hroot]
      exact hsame
    · intro f
      rw [hroot]
      exact hleaf f

/-- The copied entries agree with the kernel table. -/
theorem copyLoop_effect {todo : List (Fin 512)} (h : Tree ok s own)
    (hk : KernelTable s own kr) (he : KernelEntries ok s kr)
    (ht : own t = some (t, [])) (hnodup : todo.Nodup)
    (hrun : todo.foldlM (copyKernelEntry (kr * PAGE_SIZE) (t * PAGE_SIZE)) s = some s') :
    ∃ own', Effect ok (inTable t) s s' own own' ∧ (∀ i ∈ todo, Copied s' own' kr t i) ∧
      (∀ i, i ∉ todo → tables s'.mem t i = tables s.mem t i) ∧ KeepsTables s s' own t := by
  induction todo generalizing s own with
  | nil =>
    cases hrun
    exact ⟨own, .refl h, by simp, fun _ _ => rfl, fun _ _ _ _ _ => rfl⟩
  | cons i todo ih =>
    obtain ⟨hi, hnodup'⟩ := nodup_cons.mp hnodup
    rw [foldlM_cons] at hrun
    rcases hfirst : copyKernelEntry (kr * PAGE_SIZE) (t * PAGE_SIZE) s i with _ | s1
    · rw [hfirst] at hrun
      cases hrun
    rw [hfirst] at hrun
    obtain ⟨own1, heff1, hcopied, hentries, hkeep1⟩ := copyKernelEntry_effect h hk he ht hfirst
    have hk1 := hk.effect heff1
    have ht1 := heff1.keep t _ ht
    obtain ⟨own2, heff2, hcopied2, hentries2, hkeep2⟩ :=
      ih heff1.tree hk1 (he.effect hk heff1) ht1 hnodup' hrun
    refine ⟨own2, heff1.trans heff2, ?_, ?_, ?_⟩
    · exact forall_mem_cons.mpr
        ⟨hcopied.keep hk1 heff2 (hentries2 i hi) hkeep2 ht1, hcopied2⟩
    · intro j hj
      rw [mem_cons, not_or] at hj
      obtain ⟨hji, hjtodo⟩ := hj
      rw [hentries2 j hjtodo, hentries j hji]
    · intro g o hg hgt j
      rw [hkeep2 g o (heff1.keep g o hg) hgt j, hkeep1 g o hg hgt j]

theorem lookup_copied (hkernel : KernelTable s own kr)
    (hcopied : ∀ i, Copied s own kr t i) (is : List (Fin 512)) :
    lookup (tables s.mem) t is = lookup (tables s.mem) kr is := by
  cases is with
  | nil => rfl
  | cons i is =>
    rcases hcopied i with ⟨f, g, hf, hg, _, hcopy⟩ | ⟨hsame, _⟩
    · rw [lookup_branch is hg, lookup_branch is hf]
      cases is with
      | nil => rfl
      | cons j is =>
        exact lookup_cons_congr (hcopy j) fun k hk => absurd hk (hkernel.shallow i f j k hf)
    · exact lookup_cons_congr hsame fun _ _ => rfl

/-- **A new root**: a fresh frame with copies of the kernel's mappings. -/
theorem newRoot_effect {target : Nat} {s1 s2 : Phys} (h : Tree ok s own)
    (hk : KernelTable s own kr) (he : KernelEntries ok s kr)
    (halloc : allocTable s = some (target, s1))
    (hcopy : copyKernelMappings (kr * PAGE_SIZE) target s1 = some s2) :
    ∃ t own', target = t * PAGE_SIZE ∧ target < 2 ^ 56 ∧ own t = none ∧ own' t = some (t, []) ∧
      Effect ok (inTable t) s s2 own own' ∧
      ∀ is, lookup (tables s2.mem) t is = lookup (tables s2.mem) kr is := by
  obtain ⟨heff1, _, haligned⟩ := allocTable_effect h halloc
  obtain ⟨rest, hpool, _⟩ := allocTable_cases halloc
  obtain ⟨_, hsmall, hfresh, _⟩ := h.next_frame hpool
  rw [← haligned] at hcopy
  have hk1 := hk.effect heff1
  obtain ⟨own2, heff2, hcopied, _, _⟩ := copyLoop_effect heff1.tree hk1 (he.effect hk heff1)
    (update_self _ _ _) (nodup_finRange 512) hcopy
  exact ⟨target / PAGE_SIZE, own2, haligned.symm, hsmall, hfresh,
    heff2.keep _ _ (update_self _ _ _), heff1.of_nowhere.trans heff2,
    lookup_copied (hk1.effect heff2) fun i => hcopied i (mem_finRange i)⟩

/-! ### The invariant of all address spaces -/

/-- The kernel table is intact, and every process root is the root of its own tree and
    finds the kernel's leaves. -/
structure SpacesInv (kr : Nat) (sys : Spaces) (own : Own) : Prop where
  tree : Tree anyEntry sys.phys own
  kernel : KernelTable sys.phys own kr
  aligned : ∀ root ∈ sys.roots, root / PAGE_SIZE * PAGE_SIZE = root
  root_own : ∀ root ∈ sys.roots, own (root / PAGE_SIZE) = some (root / PAGE_SIZE, [])
  covered : ∀ root ∈ sys.roots, ∀ va l, lookup (tables sys.phys.mem) kr (path va) = some l →
    lookup (tables sys.phys.mem) (root / PAGE_SIZE) (path va) = some l

variable {rest : List (Fin 512)} {va pa : Nat} {err : String}

section

variable {root : Nat} (hrest : rest ≠ [])
  (hleaf : lookup (tables s.mem) root (path va) = some (e, rest))
include hrest hleaf

theorem walkProcessPt_superpage {alloc : Bool} :
    walkProcessPt s (root * PAGE_SIZE) va alloc = (none, s) := by
  unfold walkProcessPt
  rcases lookup_cons_eq_some.mp hleaf with ⟨h2, _⟩ | ⟨f1, h2, hleaf⟩
  · rw [nextTable_leaf alloc h2]
  rw [nextTable_branch alloc h2]
  rcases lookup_cons_eq_some.mp hleaf with ⟨h1, _⟩ | ⟨f0, h1, hleaf⟩
  · simp [nextTable_leaf alloc h1]
  rcases lookup_cons_eq_some.mp hleaf with ⟨_, rfl⟩ | ⟨_, _, hnil⟩
  · exact absurd rfl hrest
  · cases hnil

theorem mapWith_superpage {r w x u : Bool} :
    (mapWith err s (root * PAGE_SIZE) va pa r w x u).2 = s := by
  unfold mapWith
  rw [walkProcessPt_superpage hrest hleaf]

theorem unmapUserPage_superpage : unmapUserPage s (root * PAGE_SIZE) va = s := by
  unfold unmapUserPage
  rw [walkProcessPt_superpage hrest hleaf]

end

theorem KernelTable.superpage (hk : KernelTable s own kr)
    (hleaf : lookup (tables s.mem) kr (path va) = some (e, rest)) : rest ≠ [] := by
  rcases lookup_cons_eq_some.mp hleaf with ⟨_, rfl⟩ | ⟨f, h2, hleaf⟩
  · simp
  rcases lookup_cons_eq_some.mp hleaf with ⟨_, rfl⟩ | ⟨g, h1, _⟩
  · simp
  · exact absurd h1 (hk.shallow _ f _ g h2)

def SpaceCall.root : SpaceCall → Option Nat
  | .newRoot => none
  | .mapPage root _ _ _ _ _ _ => some root
  | .mapUserPage root _ _ _ _ => some root
  | .unmapUserPage root _ => some root

/-- From `sys` to `sys'` only the table of `target` may have changed, and there only
    pages that the kernel does not cover. -/
structure Separate (kr : Nat) (target : Option Nat) (sys sys' : Spaces) : Prop where
  kernel : ∀ is, lookup (tables sys'.phys.mem) kr is = lookup (tables sys.phys.mem) kr is
  others : ∀ root ∈ sys.roots, target ≠ some root → ∀ va,
    lookup (tables sys'.phys.mem) (root / PAGE_SIZE) (path va) =
      lookup (tables sys.phys.mem) (root / PAGE_SIZE) (path va)
  covered : ∀ va l, lookup (tables sys.phys.mem) kr (path va) = some l → ∀ root ∈ sys.roots,
    lookup (tables sys'.phys.mem) (root / PAGE_SIZE) (path va) =
      lookup (tables sys.phys.mem) (root / PAGE_SIZE) (path va)

variable {kr : Nat} {sys sys' : Spaces}

section

variable (h : SpacesInv kr sys own) {root : Nat}
include h

/-- A change at one page keeps the other spaces. -/
theorem SpacesInv.call (hroot : root ∈ sys.roots)
    (heff : Effect anyEntry (atPage (root / PAGE_SIZE) va) sys.phys s' own own')
    (hcovered : ∀ l, lookup (tables sys.phys.mem) kr (path va) = some l → s' = sys.phys) :
    SpacesInv kr { sys with phys := s' } own' ∧
      Separate kr (some root) sys { sys with phys := s' } := by
  have hkernel := h.kernel.lookup_same heff
  have hothers : ∀ root' ∈ sys.roots, some root ≠ some root' → ∀ va',
      lookup (tables s'.mem) (root' / PAGE_SIZE) (path va') =
        lookup (tables sys.phys.mem) (root' / PAGE_SIZE) (path va') := by
    intro root' hroot' hne va'
    apply heff.same _ _ [] _ (h.root_own root' hroot') (by simp [path])
    rintro ⟨hsame, _⟩
    apply hne
    rw [← h.aligned root hroot, ← h.aligned root' hroot', hsame]
  have hkeep : ∀ va' l, lookup (tables sys.phys.mem) kr (path va') = some l →
      ∀ root' ∈ sys.roots, lookup (tables s'.mem) (root' / PAGE_SIZE) (path va') =
        lookup (tables sys.phys.mem) (root' / PAGE_SIZE) (path va') := by
    intro va' l hl root' hroot'
    by_cases hpage : path va' = path va
    · rw [hpage] at hl
      rw [hcovered l hl]
    · apply heff.same _ _ [] _ (h.root_own root' hroot') (by simp [path])
      rintro ⟨_, hpre⟩
      exact hpage (hpre.eq_of_length rfl).symm
  constructor
  · constructor
    case tree => exact heff.tree
    case kernel => exact h.kernel.effect heff
    case aligned => exact h.aligned
    case root_own =>
      intro root' hroot'
      exact heff.keep _ _ (h.root_own root' hroot')
    case covered =>
      intro root' hroot' va' l hl
      rw [hkernel] at hl
      exact (hkeep va' l hl root' hroot').trans (h.covered root' hroot' va' l hl)
  · exact ⟨hkernel, hothers, hkeep⟩

theorem SpacesInv.mapWith {r w x u : Bool} (hroot : root ∈ sys.roots) :
    ∃ own', SpacesInv kr { sys with phys := (mapWith err sys.phys root va pa r w x u).2 } own' ∧
      Separate kr (some root) sys
        { sys with phys := (mapWith err sys.phys root va pa r w x u).2 } := by
  have haligned := h.aligned root hroot
  rcases hrun : Sv39.mapWith err sys.phys (root / PAGE_SIZE * PAGE_SIZE) va pa r w x u with
    ⟨res, s'⟩
  obtain ⟨own', heff, _, _⟩ := mapWith_effect h.tree (h.root_own root hroot) hrun
  rw [haligned] at hrun
  rw [hrun]
  refine ⟨own', h.call hroot heff ?_⟩
  rintro ⟨e, rest⟩ hl
  have hsuper : (Sv39.mapWith err sys.phys (root / PAGE_SIZE * PAGE_SIZE) va pa r w x u).2 =
      sys.phys := mapWith_superpage (h.kernel.superpage hl) (h.covered root hroot va _ hl)
  rw [haligned, hrun] at hsuper
  exact hsuper

/-- **One step.**  The invariant survives, and nothing outside the table of the call
    changes. -/
theorem SpacesInv.step {c : SpaceCall} (hstep : SpaceStep (kr * PAGE_SIZE) sys c sys') :
    ∃ own', SpacesInv kr sys' own' ∧ Separate kr c.root sys sys' := by
  cases hstep with
  | @newRoot target s1 s2 halloc hcopy =>
    obtain ⟨t, own2, rfl, _, hfresh, hown, heff, hcopied⟩ :=
      newRoot_effect h.tree h.kernel (kernelEntries_any _ _) halloc hcopy
    have hframe := frame_div t
    have hsame : ∀ root ∈ sys.roots, ∀ va,
        lookup (tables s2.mem) (root / PAGE_SIZE) (path va) =
          lookup (tables sys.phys.mem) (root / PAGE_SIZE) (path va) := by
      intro root hroot va
      apply heff.same _ _ [] _ (h.root_own root hroot) (by simp [path])
      intro heq
      have hroot_own := h.root_own root hroot
      rw [heq, hfresh] at hroot_own
      cases hroot_own
    have hkernel := h.kernel.lookup_same heff
    refine ⟨own2, ?_, ⟨hkernel, fun root hroot _ => hsame root hroot,
      fun va _ _ root hroot => hsame root hroot va⟩⟩
    constructor
    case tree => exact heff.tree
    case kernel => exact h.kernel.effect heff
    case aligned => exact forall_mem_cons.mpr ⟨by rw [hframe], h.aligned⟩
    case root_own =>
      refine forall_mem_cons.mpr ⟨by rwa [hframe], fun root hroot => ?_⟩
      exact heff.keep _ _ (h.root_own root hroot)
    case covered =>
      refine forall_mem_cons.mpr ⟨fun va l hl => by rw [hframe, hcopied, hl], ?_⟩
      intro root hroot va l hl
      rw [hkernel] at hl
      exact (hsame root hroot va).trans (h.covered root hroot va l hl)
  | mapPage hroot => exact h.mapWith hroot
  | mapUserPage hroot => exact h.mapWith hroot
  | @unmapUserPage root va hroot =>
    have haligned := h.aligned root hroot
    have heff := (unmapUserPage_effect h.tree (h.root_own root hroot) va).1
    rw [haligned] at heff
    refine ⟨own, h.call hroot heff ?_⟩
    rintro ⟨e, rest⟩ hl
    have hsuper := unmapUserPage_superpage (h.kernel.superpage hl) (h.covered root hroot va _ hl)
    rw [haligned] at hsuper
    exact hsuper

end

/-! ### Boot -/

/-- What the kernel writes into its own table: not for users, not copy-on-write. -/
def kernelWord : PTE → Prop := fun e => e.isUser = false ∧ e.isCow = false

theorem kernelWord_empty : kernelWord .empty := ⟨PTE.isUser_empty, PTE.isCow_empty⟩

/-- The root branches only to frames of `F`, which hold no branches; the root entries not
    in `used` are empty; all words are the kernel's. -/
structure Booted (m : Memory) (root : Nat) (F : List Nat) (used : List (Fin 512)) : Prop where
  second : ∀ i f, tables m root i = .branch f → f ∈ F
  shallow : ∀ f ∈ F, ∀ j g, tables m f j ≠ .branch g
  apart : root ∉ F
  words : ∀ f, f = root ∨ f ∈ F → ∀ i, kernelWord (readPte m (f * PAGE_SIZE) i)
  unused : ∀ i, i ∉ used → tables m root i = .empty

variable {m : Memory} {root : Nat} {F : List Nat} {used : List (Fin 512)}

section

variable (hb : Booted m root F used)
include hb

theorem Booted.fill (hne : f ≠ root) :
    Booted (fill m (f * PAGE_SIZE) PAGE_SIZE 0) root (f :: F) used := by
  constructor
  case second =>
    intro i g hbranch
    rw [tables_fill, clear_of_ne (Ne.symm hne)] at hbranch
    exact mem_cons_of_mem f (hb.second i g hbranch)
  case shallow =>
    intro k hk j g
    rw [tables_fill]
    by_cases hkf : k = f
    · rw [hkf, clear_self]
      exact fun hcon => nomatch hcon
    · rw [clear_of_ne hkf]
      exact hb.shallow k ((mem_cons.mp hk).resolve_left hkf) j g
  case apart => exact not_mem_cons_of_ne_of_not_mem hne.symm hb.apart
  case words =>
    intro k hk i
    by_cases hkf : k = f
    · rw [hkf, readPte_fill]
      exact kernelWord_empty
    · rw [readPte_congr fun a ha => fill_bytes (ha ▸ hkf)]
      exact hb.words k (hk.imp_right fun hk => (mem_cons.mp hk).resolve_left hkf) i
  case unused =>
    intro i hi
    rw [tables_fill, clear_of_ne (Ne.symm hne)]
    exact hb.unused i hi

theorem Booted.write {used' : List (Fin 512)} (i : Fin 512) (hword : kernelWord e)
    (hroot : f = root → i ∈ used' ∧ ∀ g, e.decode = .branch g → g ∈ F)
    (hsecond : f ∈ F → ∀ g, e.decode ≠ .branch g) (hused : used ⊆ used') :
    Booted (writePte m (f * PAGE_SIZE) i e) root F used' := by
  have htables := tables_writePte m f i e
  constructor
  case second =>
    intro j g hbranch
    rw [htables, RadixTable.write] at hbranch
    split at hbranch
    · next hsame => exact (hroot hsame.1.symm).2 g hbranch
    · exact hb.second j g hbranch
  case shallow =>
    intro k hk j g
    rw [htables, RadixTable.write]
    split
    · next hsame => exact hsecond (hsame.1 ▸ hk) g
    · exact hb.shallow k hk j g
  case apart => exact hb.apart
  case words => exact fun k hk j => word_writePte hword (hb.words k hk j)
  case unused =>
    intro j hj
    rw [htables, RadixTable.write, if_neg]
    · exact hb.unused j fun hin => hj (hused hin)
    · rintro ⟨heq, rfl⟩
      exact hj (hroot heq.symm).1

theorem Booted.point (i : Fin 512) (hf : f ∈ F) (hsmall : f * PAGE_SIZE < 2 ^ 56) :
    Booted (writePte m (root * PAGE_SIZE) i (.table (f * PAGE_SIZE))) root F (i :: used) := by
  refine hb.write i ⟨PTE.isUser_setFlags _ _ _ _ _, PTE.isCow_table _⟩
    (fun _ => ⟨mem_cons_self, ?_⟩)
    (fun hin => absurd hin hb.apart) (subset_cons_self i used)
  intro g hg
  rw [decode_table hsmall] at hg
  cases hg
  exact hf

theorem Booted.leaf (hf : f ∈ F) (i : Fin 512) (pa : Nat)
    {r w x : Bool} (hrwx : (r || w || x) = true) :
    Booted (writePte m (f * PAGE_SIZE) i (.page pa r w x false)) root F used := by
  refine hb.write i ⟨(PTE.flags_page _ _ _ _ _).2.2.2.2.1, PTE.isCow_page _ _ _ _ _⟩ ?_ ?_
    (.refl used)
  · rintro rfl
    exact absurd hf hb.apart
  · intro _ g
    rw [decode_page pa false hrwx]
    exact nofun

end

theorem Booted.dram (is : List (Fin 64)) (hb : Booted m root F used) (hf : f ∈ F) :
    Booted (is.foldl (dramEntry (f * PAGE_SIZE)) m) root F used :=
  foldlRecOn (motive := (Booted · root F used)) is _ hb fun _ h _ _ => h.leaf hf _ _ rfl

theorem Booted.device (hb : Booted m root F used) (base : Nat) (hf : f ∈ F) :
    Booted (deviceEntry m (f * PAGE_SIZE) base) root F used :=
  hb.leaf hf _ _ rfl

theorem Tree.unowned (hrule : EntryRule ok) (hpool : PoolOk s.pool) : Tree ok s fun _ => none := by
  refine ⟨hrule, ?_, ?_, hpool, fun _ _ => rfl⟩
  · intro f o hf
    cases hf
  · intro f r q i g hf
    cases hf

theorem allocTable_boot (hrun : allocTable s = some (p, s')) (hpool : PoolOk s.pool) :
    ∃ f, p = f * PAGE_SIZE ∧ p < 2 ^ 56 ∧ s'.mem = fill s.mem p PAGE_SIZE 0 ∧
      PoolOk s'.pool ∧ s'.pool <:+ s.pool ∧ p ∈ frames s.pool ∧
      ∀ q ∈ frames s'.pool, q / PAGE_SIZE ≠ f := by
  obtain ⟨rest, hcons, rfl⟩ := allocTable_cases hrun
  obtain ⟨hp, hsmall, _, hrest⟩ := (Tree.unowned entryRule_any hpool).next_frame hcons
  refine ⟨p / PAGE_SIZE, hp, hsmall, rfl, ?_, ?_, ?_, hrest⟩
  · exact (hcons ▸ hpool).tail
  · exact hcons ▸ suffix_cons _ rest
  · exact hcons ▸ mem_cons_self

variable {kernelRoot : Nat}

theorem bootSpaces_cases (hboot : bootSpaces s = some (kernelRoot, sys)) :
    ∃ p1 p2 s1 s2 s3, allocTable s = some (kernelRoot, s1) ∧ allocTable s1 = some (p1, s2) ∧
      (let m := writePte s2.mem kernelRoot (vpn2 KERNEL_VBASE) (.table p1)
       let m := writePte m kernelRoot (vpn2 DRAM_BASE) (.table p1)
       allocTable { s2 with mem := (finRange 64).foldl (dramEntry p1) m }) = some (p2, s3) ∧
      sys =
        (let m := writePte s3.mem kernelRoot (vpn2 CLINT_BASE) (.table p2)
         let m := deviceEntry m p2 CLINT_BASE
         let m := deviceEntry m p2 MMIO_BASE
         { phys := { s3 with mem := deviceEntry m p2 ECAM_BASE }, roots := [] }) := by
  obtain ⟨⟨p0, s1⟩, halloc0, hboot⟩ := bind_eq_some_iff.mp hboot
  obtain ⟨s5, hsetup, hboot⟩ := bind_eq_some_iff.mp hboot
  cases hboot
  obtain ⟨⟨p1, s2⟩, halloc1, hsetup⟩ := bind_eq_some_iff.mp hsetup
  obtain ⟨⟨p2, s3⟩, halloc2, hsetup⟩ := bind_eq_some_iff.mp hsetup
  cases hsetup
  exact ⟨p1, p2, s1, s2, s3, halloc0, halloc1, halloc2, rfl⟩

section

variable (hpool : PoolOk s.pool) (hboot : bootSpaces s = some (kernelRoot, sys))
include hpool hboot

/-- What the boot leaves: a kernel table with three used entries. -/
theorem boot_kernel : ∃ kr, kernelRoot = kr * PAGE_SIZE ∧ sys.roots = [] ∧ PoolOk sys.phys.pool ∧
      KernelTable sys.phys (fun _ => none) kr ∧ KernelEntries kernelWord sys.phys kr ∧
      ∀ i, i ∉ [vpn2 CLINT_BASE, vpn2 DRAM_BASE, vpn2 KERNEL_VBASE] →
        tables sys.phys.mem kr i = .empty := by
  obtain ⟨p1, p2, s1, s2, s3, halloc0, halloc1, halloc2, rfl⟩ := bootSpaces_cases hboot
  obtain ⟨f0, rfl, hsmall0, hmem0, hpool1, hsuf1, _, hout0⟩ := allocTable_boot halloc0 hpool
  obtain ⟨f1, rfl, hsmall1, hmem1, hpool2, hsuf2, hin1, hout1⟩ := allocTable_boot halloc1 hpool1
  obtain ⟨f2, rfl, hsmall2, hmem2, hpool3, hsuf3, hin2, hout2⟩ := allocTable_boot halloc2 hpool2
  have hne1 := hout0 _ hin1
  have hne2 := hout0 _ (frames_subset_of_suffix hsuf2 _ hin2)
  rw [frame_div] at hne1 hne2
  -- follow the writes of `init_root_pt` and `setup_kernel_mapping`
  have hb0 : Booted s1.mem f0 [] [] := by
    rw [hmem0]
    have hempty : ∀ i, tables (fill s.mem (f0 * PAGE_SIZE) PAGE_SIZE 0) f0 i = .empty := by
      intro i
      rw [tables_fill, clear_self]
    refine ⟨?_, by simp, by simp, ?_, fun i _ => hempty i⟩
    · intro i f hbranch
      rw [hempty i] at hbranch
      cases hbranch
    · intro f hf i
      rcases hf with rfl | hf
      · rw [readPte_fill]
        exact kernelWord_empty
      · cases hf
  have hb1 : Booted s2.mem f0 [f1] [] := by
    rw [hmem1]
    exact hb0.fill hne1
  have hb2 := ((hb1.point (vpn2 KERNEL_VBASE) mem_cons_self hsmall1).point
    (vpn2 DRAM_BASE) mem_cons_self hsmall1).dram (finRange 64) mem_cons_self
  have hb3 := hb2.fill hne2
  rw [← hmem2] at hb3
  have hb4 := hb3.point (vpn2 CLINT_BASE) mem_cons_self hsmall2
  have hb5 := ((hb4.device CLINT_BASE mem_cons_self).device MMIO_BASE
    mem_cons_self).device ECAM_BASE mem_cons_self
  -- the remaining pool avoids all three frames
  have hsecond : ∀ f ∈ [f2, f1], ∀ q ∈ frames s3.pool, q / PAGE_SIZE ≠ f := by
    refine forall_mem_cons.mpr ⟨hout2, forall_mem_singleton.mpr fun q hq => ?_⟩
    exact hout1 q (frames_subset_of_suffix hsuf3 q hq)
  have hroot : ∀ q ∈ frames s3.pool, q / PAGE_SIZE ≠ f0 := by
    intro q hq
    exact hout0 q (frames_subset_of_suffix hsuf2 q (frames_subset_of_suffix hsuf3 q hq))
  refine ⟨f0, rfl, rfl, hpool3, ⟨⟨rfl, hroot⟩, ?_, ?_⟩, ?_, hb5.unused⟩
  · intro i f hbranch
    exact ⟨rfl, hsecond f (hb5.second i f hbranch)⟩
  · intro i f j g hbranch
    exact hb5.shallow f (hb5.second i f hbranch) j g
  · intro i
    refine ⟨hb5.words f0 (.inl rfl) i, ?_⟩
    intro f hbranch
    exact hb5.words f (.inr (hb5.second i f hbranch))

theorem boot_spacesInv : ∃ kr, kernelRoot = kr * PAGE_SIZE ∧ SpacesInv kr sys fun _ => none := by
  obtain ⟨kr, hkr, hroots, hpool', hkernel, _, _⟩ := boot_kernel hpool hboot
  refine ⟨kr, hkr, .unowned entryRule_any hpool', hkernel, ?_, ?_, ?_⟩ <;> simp [hroots]

end

/-! ### The result -/

theorem translate_of_lookup {g : Nat}
    (h : lookup (tables m') g (path va) = lookup (tables m) f (path va)) :
    translate m' (g * PAGE_SIZE) va = translate m (f * PAGE_SIZE) va := by
  rw [translate_eq_lookup, translate_eq_lookup, h]

theorem lookup_of_translate {t : Translation} (h : translate m (f * PAGE_SIZE) va = some t) :
    ∃ l, lookup (tables m) f (path va) = some l := by
  rw [translate_eq_lookup] at h
  obtain ⟨l, hl, _⟩ := map_eq_some_iff.mp h
  exact ⟨l, hl⟩

/-- **Separation of address spaces.**  After any interleaving of root creations and
    calls on roots, every process table translates what the kernel table maps as the
    kernel does; and the next step changes no translation of the kernel table, none of
    a table it is not called on, and none of an address that the kernel maps. -/
theorem address_spaces_separate {kernelRoot : Nat} {sys0 : Spaces} {calls : List SpaceCall}
    (hpool : PoolOk s.pool) (hboot : bootSpaces s = some (kernelRoot, sys0))
    (hrun : Run (SpaceStep kernelRoot) sys0 calls sys) :
    (∀ root ∈ sys.roots, ∀ va t, translate sys.phys.mem kernelRoot va = some t →
      translate sys.phys.mem root va = some t) ∧
    ∀ c sys', SpaceStep kernelRoot sys c sys' →
      (∀ va, translate sys'.phys.mem kernelRoot va = translate sys.phys.mem kernelRoot va) ∧
      (∀ root ∈ sys.roots, c.root ≠ some root → ∀ va,
        translate sys'.phys.mem root va = translate sys.phys.mem root va) ∧
      (∀ va, translate sys.phys.mem kernelRoot va ≠ none → ∀ root ∈ sys.roots,
        translate sys'.phys.mem root va = translate sys.phys.mem root va) := by
  obtain ⟨kr, rfl, hstart⟩ := boot_spacesInv hpool hboot
  obtain ⟨own, hinv⟩ : ∃ own, SpacesInv kr sys own := by
    apply hrun.invariant
    · rintro sys1 c sys2 ⟨own, hinv⟩ hcall
      obtain ⟨own', hinv', _⟩ := hinv.step hcall
      exact ⟨own', hinv'⟩
    · exact ⟨_, hstart⟩
  constructor
  · intro root hroot va t ht
    obtain ⟨l, hl⟩ := lookup_of_translate ht
    have hsame := (hinv.covered root hroot va l hl).trans hl.symm
    rw [← hinv.aligned root hroot, ← ht]
    exact translate_of_lookup hsame
  · intro c sys' hcall
    obtain ⟨_, _, hsep⟩ := hinv.step hcall
    refine ⟨?_, ?_, ?_⟩
    · intro va
      exact translate_of_lookup (hsep.kernel (path va))
    · intro root hroot hne va
      rw [← hinv.aligned root hroot]
      exact translate_of_lookup (hsep.others root hroot hne va)
    · intro va hva root hroot
      obtain ⟨t, ht⟩ := ne_none_iff_exists'.mp hva
      obtain ⟨l, hl⟩ := lookup_of_translate ht
      rw [← hinv.aligned root hroot]
      exact translate_of_lookup (hsep.covered va l hl root hroot)

/-! ### With enough frames nothing fails -/

/-- The allocator has at least `n` frames left and will not fail before they are used. -/
def HasFrames (pool : List (Option Nat)) (n : Nat) : Prop := n ≤ pool.length ∧ none ∉ pool

variable {n first : Nat} {pool : List (Option Nat)}

theorem HasFrames.cons (hs : HasFrames pool (n + 1)) :
    ∃ p rest, pool = some p :: rest ∧ HasFrames rest n := by
  obtain ⟨hlen, hsome⟩ := hs
  cases pool with
  | nil => cases hlen
  | cons answer rest =>
    rw [mem_cons, not_or] at hsome
    cases answer with
    | none => exact absurd rfl hsome.1
    | some p => exact ⟨p, rest, rfl, Nat.le_of_succ_le_succ hlen, hsome.2⟩

theorem HasFrames.weaken {k : Nat} (hs : HasFrames pool (n + k)) :
    HasFrames pool n :=
  ⟨(Nat.le_add_right n k).trans hs.1, hs.2⟩

theorem HasFrames.allocTable (hs : HasFrames s.pool (n + 1)) :
    ∃ p s', allocTable s = some (p, s') ∧ HasFrames s'.pool n := by
  obtain ⟨p, rest, hpool, hrest⟩ := hs.cons
  refine ⟨p, { mem := fill s.mem p PAGE_SIZE 0, pool := rest }, ?_, hrest⟩
  simp [Sv39.allocTable, Phys.allocPage, hpool]

theorem HasFrames.copyKernelEntry (hs : HasFrames s.pool (n + 1)) (a b : Nat)
    (i : Fin 512) : ∃ s', copyKernelEntry a b s i = some s' ∧ HasFrames s'.pool n := by
  obtain ⟨p, rest, hpool, hrest⟩ := hs.cons
  unfold Sv39.copyKernelEntry
  by_cases hbranch : (readPte s.mem a i).isBranch = true
  · simp only [hbranch, if_true, Phys.allocPage, hpool]
    exact ⟨_, rfl, hrest⟩
  · simp only [hbranch]
    exact ⟨_, rfl, hs.weaken⟩

theorem HasFrames.copyLoop (a b : Nat) (todo : List (Fin 512))
    (hs : HasFrames s.pool (n + todo.length)) :
    ∃ s', todo.foldlM (Sv39.copyKernelEntry a b) s = some s' ∧ HasFrames s'.pool n := by
  induction todo generalizing s with
  | nil => exact ⟨s, rfl, hs⟩
  | cons i todo ih =>
    obtain ⟨s1, hfirst, hs1⟩ := HasFrames.copyKernelEntry (n := n + todo.length) hs a b i
    obtain ⟨s2, hrest, hs2⟩ := ih hs1
    refine ⟨s2, ?_, hs2⟩
    rw [foldlM_cons, hfirst]
    exact hrest

theorem HasFrames.bootSpaces (hs : HasFrames s.pool (n + 3)) :
    ∃ kernelRoot sys0, bootSpaces s = some (kernelRoot, sys0) ∧ sys0.roots = [] ∧
      HasFrames sys0.phys.pool n := by
  obtain ⟨p0, s1, h0, hs1⟩ := hs.allocTable
  obtain ⟨p1, s2, h1, hs2⟩ := hs1.allocTable
  -- the second table is allocated after the superpages of DRAM are in place
  obtain ⟨p2, s3, h2, hs3⟩ := HasFrames.allocTable (s := { s2 with
    mem := (finRange 64).foldl (dramEntry p1)
      (writePte (writePte s2.mem p0 (vpn2 KERNEL_VBASE) (.table p1)) p0 (vpn2 DRAM_BASE)
        (.table p1)) }) hs2
  have hsetup : setupKernelMapping s1 p0 = some _ :=
    bind_eq_some_iff.mpr ⟨_, h1, bind_eq_some_iff.mpr ⟨_, h2, rfl⟩⟩
  have hboot : Sv39.bootSpaces s = some _ :=
    bind_eq_some_iff.mpr ⟨_, h0, bind_eq_some_iff.mpr ⟨_, hsetup, rfl⟩⟩
  exact ⟨p0, _, hboot, rfl, hs3⟩

theorem HasFrames.newRoot (kernelRoot : Nat) (sys : Spaces)
    (hs : HasFrames sys.phys.pool (n + 513)) :
    ∃ target s', SpaceStep kernelRoot sys .newRoot { phys := s', roots := target :: sys.roots } ∧
      HasFrames s'.pool n := by
  obtain ⟨target, s1, halloc, hs1⟩ := HasFrames.allocTable (n := n + 512) hs
  have hlen : n + 512 = n + (finRange 512).length := by
    rw [length_finRange]
  rw [hlen] at hs1
  obtain ⟨s2, hcopy, hs2⟩ := hs1.copyLoop kernelRoot target
  exact ⟨target, s2, .newRoot halloc hcopy, hs2⟩

/-- An allocator with `n` consecutive frames from frame number `first` on. -/
def framePool (first n : Nat) : List (Option Nat) :=
  (range' first n).map fun f => some (f * PAGE_SIZE)

theorem hasFrames_framePool (first n : Nat) : HasFrames (framePool first n) n := by
  constructor
  · simp [framePool]
  · simp [framePool]

theorem frames_framePool (first n : Nat) :
    frames (framePool first n) = (range' first n).map (· * PAGE_SIZE) := by
  unfold frames framePool
  rw [filterMap_map]
  exact congrFun filterMap_eq_map _

theorem poolOk_framePool (hsmall : (first + n) * PAGE_SIZE < 2 ^ 56) :
    PoolOk (framePool first n) := by
  constructor
  · rw [frames_framePool]
    refine List.Nodup.map ?_ nodup_range'
    intro a b hab
    exact Nat.eq_of_mul_eq_mul_right (by decide) hab
  · intro p hp
    rw [frames_framePool] at hp
    obtain ⟨f, hf, rfl⟩ := mem_map.mp hp
    obtain ⟨_, hhi⟩ := mem_range'_1.mp hf
    refine ⟨Nat.mul_mod_left f _, lt_of_le_of_lt ?_ hsmall⟩
    exact Nat.mul_le_mul_right _ hhi.le

theorem foreign_framePool (hf : f < first ∨ first + n ≤ f) :
    Foreign { mem := m, pool := framePool first n } (fun _ => none) f := by
  refine ⟨rfl, ?_⟩
  rintro p hp rfl
  rw [frames_framePool] at hp
  obtain ⟨g, hg, rfl⟩ := mem_map.mp hp
  obtain ⟨hlo, hhi⟩ := mem_range'_1.mp hg
  rw [frame_div g] at hf
  omega

theorem address_spaces_separate_two_roots : ∃ kernelRoot sys0 sys a b, sys.roots = [b, a] ∧
      bootSpaces { mem := fun _ => 0, pool := framePool 0x80100 1100 } = some (kernelRoot, sys0) ∧
      Run (SpaceStep kernelRoot) sys0 [.newRoot, .newRoot] sys ∧
      (∀ va t, translate sys.phys.mem kernelRoot va = some t →
        translate sys.phys.mem a va = some t ∧ translate sys.phys.mem b va = some t) ∧
      ∀ va, translate (Sv39.unmapUserPage sys.phys b 0x80000000).mem kernelRoot va =
        translate sys.phys.mem kernelRoot va := by
  have hpool : PoolOk (framePool 0x80100 1100) := poolOk_framePool (by decide)
  obtain ⟨kernelRoot, sys0, hboot, hroots, hs0⟩ :=
    HasFrames.bootSpaces (s := { mem := fun _ => 0, pool := framePool 0x80100 1100 }) (n := 1097)
      (hasFrames_framePool _ _)
  obtain ⟨a, s1, hstep1, hs1⟩ := HasFrames.newRoot (n := 584) kernelRoot sys0 hs0
  obtain ⟨b, s2, hstep2, _⟩ := HasFrames.newRoot (n := 71) kernelRoot ⟨s1, a :: sys0.roots⟩ hs1
  have hrun := Run.cons hstep1 (.cons hstep2 (.nil _))
  obtain ⟨hcovered, hsame⟩ := address_spaces_separate hpool hboot hrun
  refine ⟨kernelRoot, sys0, _, a, b, by rw [hroots], hboot, hrun, ?_, ?_⟩
  · intro va t ht
    exact ⟨hcovered a (by simp) va t ht, hcovered b (by simp) va t ht⟩
  · exact (hsame _ _ (.unmapUserPage mem_cons_self)).1

end TrainOS.Sv39
