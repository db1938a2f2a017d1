import TrainOS.ProcessMemory

/-!
# The page tables of all processes

One invariant about the kernel table and a set of process roots: the tables are trees of
their own, a superpage of a process is the kernel's, and a 4 KiB page of a process lies in
a frame that holds no table.  Which pages are allowed is a parameter `Q`.  The operations
on page tables keep the invariant as long as the pages they add are allowed.
-/

namespace TrainOS.Sv39

open ByteMemory RadixTable

variable {ok : PTE → Prop} {s s' : Phys} {own own' : Own}
variable {affected : Nat → List (Fin 512) → Prop} {kr t f : Nat} {p : List (Fin 512)}

/-! ### Kernel frames and data frames -/

/-- Words without the copy-on-write mark. -/
def plainEntry : PTE → Prop := fun e => e.isCow = false

theorem entryRule_plain : EntryRule plainEntry :=
  ⟨PTE.isCow_empty, PTE.isCow_table, PTE.isCow_page⟩

/-- The frame holds no table and will not be handed out. -/
structure DataFrame (s : Phys) (own : Own) (kr f : Nat) : Prop where
  foreign : Foreign s own f
  apart : ¬ KernelFrame s.mem kr f

variable {m : Memory}

theorem kernelFrame_congr {m' : Memory} (hroot : ∀ i, tables m' kr i = tables m kr i) :
    KernelFrame m' kr f ↔ KernelFrame m kr f := by
  unfold KernelFrame
  simp only [hroot]

theorem DataFrame.effect (hd : DataFrame s own kr f) (hk : KernelTable s own kr)
    (h : Effect ok affected s s' own own') : DataFrame s' own' kr f := by
  refine ⟨h.foreign_of hd.foreign, ?_⟩
  rw [kernelFrame_congr (h.tables_foreign hk.root)]
  exact hd.apart

variable {rest : List (Fin 512)} {e : PTE}

theorem KernelEntries.found (he : KernelEntries ok s kr)
    (hk : KernelTable s own kr) (hl : lookup (tables s.mem) kr p = some (e, rest)) : ok e := by
  rcases p with _ | ⟨i, p⟩
  · cases hl
  rcases lookup_cons_eq_some.mp hl with ⟨h2, _⟩ | ⟨g, h2, hl⟩
  · exact (decode_eq_leaf.mp h2).1 ▸ (he i).1
  rcases p with _ | ⟨j, p⟩
  · cases hl
  rcases lookup_cons_eq_some.mp hl with ⟨h1, _⟩ | ⟨k, h1, _⟩
  · exact (decode_eq_leaf.mp h1).1 ▸ (he i).2 g h2 j
  · exact absurd h1 (hk.shallow i g j k h2)

/-! ### The invariant -/

/-- What a lookup finds at a path. -/
abbrev Found := Option (PTE × List (Fin 512))

/-- A leaf of root `t`: the kernel's, or an allowed page in a data frame. -/
inductive GoodLeaf (Q : Nat → List (Fin 512) → PTE → Prop) (K : List (Fin 512) → Found)
    (kr : Nat) (s : Phys) (own : Own) (t : Nat) (p : List (Fin 512)) (e : PTE)
    (rest : List (Fin 512)) : Prop
  | kernel : K p = some (e, rest) → GoodLeaf Q K kr s own t p e rest
  | page : rest = [] → Q t p e → DataFrame s own kr e.ppn → GoodLeaf Q K kr s own t p e rest

/-- The tables of the roots in `R`, next to the kernel table `kr`, which maps `K`. -/
structure TablesInv (Q : Nat → List (Fin 512) → PTE → Prop) (K : List (Fin 512) → Found)
    (kr : Nat) (R : Nat → Prop) (s : Phys) (own : Own) : Prop where
  tree : Tree plainEntry s own
  kernel : KernelTable s own kr
  words : KernelEntries kernelWord s kr
  finds : ∀ p, lookup (tables s.mem) kr p = K p
  root_own : ∀ t, R t → own t = some (t, [])
  covered : ∀ t, R t → ∀ p l, p.length = 3 → K p = some l → lookup (tables s.mem) t p = some l
  leaves : ∀ t, R t → ∀ p e rest, p.length = 3 →
    lookup (tables s.mem) t p = some (e, rest) → GoodLeaf Q K kr s own t p e rest

variable {Q Q' : Nat → List (Fin 512) → PTE → Prop} {K : List (Fin 512) → Found} {R R' : Nat → Prop}
variable {page va : Nat}

section

variable (h : TablesInv Q K kr R s own)
include h

theorem TablesInv.small (ht : R t) (hp : p.length = 3)
    (hkernel : K p = none) (hl : lookup (tables s.mem) t p = some (e, rest)) :
    rest = [] ∧ Q t p e ∧ DataFrame s own kr e.ppn := by
  cases h.leaves t ht p e rest hp hl with
  | kernel hk =>
    rw [hkernel] at hk
    cases hk
  | page hrest hq hd => exact ⟨hrest, hq, hd⟩

theorem TablesInv.kernel_leaf (hp : p.length = 3) (hl : K p = some (e, rest)) :
    rest ≠ [] ∧ e.isUser = false := by
  have hfound := (h.finds p).trans hl
  refine ⟨?_, (h.words.found h.kernel hfound).1⟩
  obtain ⟨va, rfl, _⟩ := exists_path hp
  exact h.kernel.superpage hfound

/-- **The effect rule.**  The invariant survives an effect if every affected path either
    finds what it found, or is not covered by the kernel and finds an allowed page. -/
theorem TablesInv.effect (heff : Effect plainEntry affected s s' own own')
    (hnew : ∀ t, R t → ∀ p, p.length = 3 → affected t p →
      lookup (tables s'.mem) t p = lookup (tables s.mem) t p ∨
        (K p = none ∧ ∀ e rest, lookup (tables s'.mem) t p = some (e, rest) →
          rest = [] ∧ Q t p e ∧ DataFrame s' own' kr e.ppn)) :
    TablesInv Q K kr R s' own' := by
  -- away from the changed pages the lookups are the old ones
  have hcase : ∀ t, R t → ∀ p, p.length = 3 →
      lookup (tables s'.mem) t p = lookup (tables s.mem) t p ∨
        (K p = none ∧ ∀ e rest, lookup (tables s'.mem) t p = some (e, rest) →
          rest = [] ∧ Q t p e ∧ DataFrame s' own' kr e.ppn) := by
    intro t ht p hp
    by_cases ha : affected t p
    · exact hnew t ht p hp ha
    · exact .inl (heff.lookup_root (h.root_own t ht) hp.le ha)
  constructor
  case tree => exact heff.tree
  case kernel => exact h.kernel.effect heff
  case words => exact h.words.effect h.kernel heff
  case finds =>
    intro p
    exact (h.kernel.lookup_same heff p).trans (h.finds p)
  case root_own =>
    intro t ht
    exact heff.keep t _ (h.root_own t ht)
  case covered =>
    intro t ht p l hp hl
    rcases hcase t ht p hp with hsame | ⟨hnone, _⟩
    · exact hsame.trans (h.covered t ht p l hp hl)
    · rw [hl] at hnone
      cases hnone
  case leaves =>
    intro t ht p e rest hp hl
    rcases hcase t ht p hp with hsame | ⟨_, hpage⟩
    · cases h.leaves t ht p e rest hp (hsame.symm.trans hl) with
      | kernel hk => exact .kernel hk
      | page hrest hq hd => exact .page hrest hq (hd.effect h.kernel heff)
    · obtain ⟨hrest, hq, hd⟩ := hpage e rest hl
      exact .page hrest hq hd

theorem TablesInv.bytes
    (hsame : ∀ a, own (a / PAGE_SIZE) ≠ none ∨ KernelFrame s.mem kr (a / PAGE_SIZE) →
      m a = s.mem a) :
    TablesInv Q K kr R { s with mem := m } own := by
  have howned : ∀ a o, own (a / PAGE_SIZE) = some o → m a = s.mem a :=
    fun a o ha => hsame a (.inl (by simp [ha]))
  obtain ⟨htree, hkept⟩ := h.tree.rewrite howned
  have hkernel : SameKernel s.mem m kr := by
    intro f hf
    apply readPte_congr
    rintro a rfl
    exact hsame a (.inr hf)
  have hlookup : ∀ t, R t → ∀ p, p.length = 3 →
      lookup (tables m) t p = lookup (tables s.mem) t p :=
    fun t ht p hp => hkept t t [] p (h.root_own t ht) (by simp [hp])
  constructor
  case tree => exact htree
  case kernel => exact h.kernel.same hkernel fun _ hf => h.kernel.frame_foreign hf
  case words => exact h.words.same hkernel
  case finds => exact fun p => (h.kernel.lookup_of_same hkernel p).trans (h.finds p)
  case root_own => exact h.root_own
  case covered =>
    intro t ht p l hp hl
    exact (hlookup t ht p hp).trans (h.covered t ht p l hp hl)
  case leaves =>
    intro t ht p e rest hp hl
    cases h.leaves t ht p e rest hp ((hlookup t ht p hp).symm.trans hl) with
    | kernel hk => exact .kernel hk
    | page hrest hq hd =>
      refine .page hrest hq ⟨hd.foreign, ?_⟩
      rw [kernelFrame_congr (hkernel.tables (.inl rfl))]
      exact hd.apart

theorem TablesInv.write_frame {d : Nat} (hown : own d = none) (hd : ¬ KernelFrame s.mem kr d)
    (hsame : ∀ a, a / PAGE_SIZE ≠ d → m a = s.mem a) :
    TablesInv Q K kr R { s with mem := m } own := by
  apply h.bytes
  intro a ha
  apply hsame
  rintro rfl
  rcases ha with ha | ha
  · exact ha hown
  · exact hd ha

theorem TablesInv.mono (hR : ∀ t, R' t → R t)
    (hQ : ∀ t p e, R' t → p.length = 3 → lookup (tables s.mem) t p = some (e, []) → Q t p e →
      Q' t p e) : TablesInv Q' K kr R' s own where
  __ := h
  root_own := fun t ht => h.root_own t (hR t ht)
  covered := fun t ht => h.covered t (hR t ht)
  leaves := by
    intro t ht p e rest hp hl
    cases h.leaves t (hR t ht) p e rest hp hl with
    | kernel hk => exact .kernel hk
    | page hrest hq hd =>
      subst hrest
      exact .page rfl (hQ t p e ht hp hl hq) hd

theorem TablesInv.add {c : Nat} (hown : own c = some (c, []))
    (hcovered : ∀ p l, p.length = 3 → K p = some l → lookup (tables s.mem) c p = some l)
    (hleaves : ∀ p e rest, p.length = 3 → lookup (tables s.mem) c p = some (e, rest) →
      GoodLeaf Q K kr s own c p e rest) :
    TablesInv Q K kr (fun t => R t ∨ t = c) s own where
  __ := h
  root_own := by
    rintro t (ht | rfl)
    · exact h.root_own t ht
    · exact hown
  covered := by
    rintro t (ht | rfl)
    · exact h.covered t ht
    · exact hcovered
  leaves := by
    rintro t (ht | rfl)
    · exact h.leaves t ht
    · exact hleaves

/-! ### Frames from the allocator -/

theorem TablesInv.drop {answer : Option Nat} {rest : List (Option Nat)}
    (hpool : s.pool = answer :: rest) : TablesInv Q K kr R { s with pool := rest } own := by
  have heff : Effect plainEntry nowhere s { s with pool := rest } own own :=
    .drop h.tree hpool
  exact h.effect heff fun _ _ _ _ hno => hno.elim

theorem TablesInv.take {rest : List (Option Nat)} (hpool : s.pool = some page :: rest)
    (hbytes : ∀ a, a / PAGE_SIZE ≠ page / PAGE_SIZE → m a = s.mem a) :
    TablesInv Q K kr R { mem := m, pool := rest } own ∧
      ∀ r w x u, DataFrame { mem := m, pool := rest } own kr (PTE.page page r w x u).ppn := by
  obtain ⟨heff, hforeign⟩ := takeFrame_effect h.tree hpool hbytes
  obtain ⟨hpage, hsmall, _, _⟩ := h.tree.next_frame hpool
  refine ⟨h.effect heff fun _ _ _ _ hno => hno.elim, ?_⟩
  intro r w x u
  have hppn : (PTE.page (page / PAGE_SIZE * PAGE_SIZE) r w x u).ppn = page / PAGE_SIZE :=
    PTE.ppn_page_frame (hpage ▸ hsmall) r w x u
  rw [← hpage] at hppn
  rw [hppn]
  refine ⟨hforeign, ?_⟩
  rw [kernelFrame_congr (heff.tables_foreign h.kernel.root)]
  intro hframe
  exact (h.kernel.frame_foreign hframe).ne_next hpool rfl

theorem TablesInv.alloc_none (hrun : s.allocPage = (none, s')) : TablesInv Q K kr R s' own := by
  rcases Phys.allocPage_cases hrun with ⟨_, rfl | ⟨rest, hpool, rfl⟩⟩ | ⟨p, rest, hp, _, _⟩
  · exact h
  · exact h.drop hpool
  · cases hp

theorem TablesInv.alloc_some (hrun : s.allocPage = (some page, s')) :
    page = page / PAGE_SIZE * PAGE_SIZE ∧ s'.mem = s.mem ∧
      ∀ m, (∀ a, a / PAGE_SIZE ≠ page / PAGE_SIZE → m a = s.mem a) →
      TablesInv Q K kr R { s' with mem := m } own ∧
        ∀ r w x u, DataFrame { s' with mem := m } own kr (PTE.page page r w x u).ppn := by
  rcases Phys.allocPage_cases hrun with ⟨hp, _⟩ | ⟨p, rest, hp, hpool, rfl⟩
  · cases hp
  · cases hp
    exact ⟨(h.tree.next_frame hpool).1, rfl, fun m hm => h.take hpool hm⟩

end

/-! ### Mapping and unmapping -/

theorem path_length (va : Nat) : (path va).length = 3 := rfl

theorem atPage_full {r : Nat} (hp : p.length = 3) (ha : atPage t va r p) :
    r = t ∧ p = path va :=
  ⟨ha.1, (ha.2.eq_of_length (by rw [hp, path_length])).symm⟩

theorem TablesInv.mapWith {err : String} {pa : Nat} {r w x u : Bool}
    {res : Except String Unit} (h : TablesInv Q K kr R s own) (ht : R t)
    (hd : DataFrame s own kr (PTE.page pa r w x u).ppn)
    (hq : (r || w || x) = true → Q t (path va) (.page pa r w x u))
    (hrun : mapWith err s (t * PAGE_SIZE) va pa r w x u = (res, s')) :
    ∃ own', TablesInv Q K kr R s' own' := by
  obtain ⟨own', heff, herr, hok⟩ := mapWith_effect h.tree (h.root_own t ht) hrun
  refine ⟨own', ?_⟩
  cases res with
  | error e => exact h.effect (herr e rfl) fun _ _ _ _ hno => hno.elim
  | ok _ =>
    refine h.effect heff ?_
    intro t' _ p hp ha
    obtain ⟨rfl, rfl⟩ := atPage_full hp ha
    cases hkernel : K (path va) with
    | some l =>
      -- the walk stops at a superpage of the kernel
      obtain ⟨e, rest⟩ := l
      have hsame : (Sv39.mapWith err s (t' * PAGE_SIZE) va pa r w x u).2 = s :=
        mapWith_superpage (h.kernel_leaf hp hkernel).1 (h.covered t' ht _ _ hp hkernel)
      rw [hrun] at hsame
      exact .inl (by rw [← hsame])
    | none =>
      refine .inr ⟨rfl, ?_⟩
      intro e rest hl
      rw [hok rfl] at hl
      by_cases hrwx : (r || w || x) = true
      · rw [if_pos hrwx] at hl
        cases hl
        exact ⟨rfl, hq hrwx, hd.effect h.kernel heff⟩
      · rw [if_neg hrwx] at hl
        cases hl

theorem TablesInv.unmap (h : TablesInv Q K kr R s own) (ht : R t) (va : Nat) :
    TablesInv Q K kr R (unmapUserPage s (t * PAGE_SIZE) va) own := by
  obtain ⟨heff, hcase⟩ := unmapUserPage_effect h.tree (h.root_own t ht) va
  refine h.effect heff ?_
  intro t' _ p hp ha
  obtain ⟨rfl, rfl⟩ := atPage_full hp ha
  rcases hcase with hnone | ⟨hsame, _⟩
  · cases hkernel : K (path va) with
    | some l =>
      obtain ⟨e, rest⟩ := l
      have hsuper := h.covered t' ht _ _ hp hkernel
      rw [unmapUserPage_superpage (h.kernel_leaf hp hkernel).1 hsuper]
      exact .inl rfl
    | none =>
      refine .inr ⟨rfl, ?_⟩
      intro e rest hl
      rw [hnone] at hl
      cases hl
  · rw [hsame]
    exact .inl rfl

end TrainOS.Sv39
