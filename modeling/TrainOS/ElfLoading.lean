import TrainOS.ProcessTables

/-!
# What the loader does to the page tables

Where the process has no superpage, the loader's walk is the checked walk.  The loader
keeps the invariant of the page tables, except that the table it fills may hold pages
that are writable and executable; `force_wxorx` removes X from those below `2 ^ 38`.
-/

namespace TrainOS.Sv39

open ByteMemory List MachineWord Option RadixTable

variable {ok : PTE → Prop} {s s' : Phys} {own own' : Own} {kr t f : Nat}
variable {Q : Nat → List (Fin 512) → PTE → Prop} {K : List (Fin 512) → Found} {R : Nat → Prop}

/-! ### Walks -/

/-- The page of `va` has no leaf above the last level. -/
def NoSuperpage (m : Memory) (root va : Nat) : Prop :=
  ∀ e rest, lookup (tables m) root (path va) = some (e, rest) → rest = []

theorem followTable_eq {i : Fin 512} (alloc : Bool) (hleaf : ∀ e, tables s.mem f i ≠ .leaf e) :
    followTable s (f * PAGE_SIZE) i alloc = nextTable s (f * PAGE_SIZE) i alloc := by
  have hno : (readPte s.mem (f * PAGE_SIZE) i).isLeaf = false := by
    apply Bool.eq_false_of_not_eq_true
    intro hl
    exact hleaf _ (decode_eq_leaf.mpr ⟨rfl, hl⟩)
  unfold followTable nextTable
  simp [hno]

variable {va : Nat}

theorem NoSuperpage.first (hsmall : NoSuperpage s.mem t va) (e : PTE) :
    tables s.mem t (vpn2 va) ≠ .leaf e := by
  intro hleaf
  have hrest := hsmall e _ (lookup_leaf _ hleaf)
  cases hrest

theorem NoSuperpage.second {l1 : Nat} {alloc : Bool} (hsmall : NoSuperpage s.mem t va)
    (h : Tree ok s own) (hroot : own t = some (t, []))
    (hfirst : nextTable s (t * PAGE_SIZE) (vpn2 va) alloc = (some l1, s')) :
    ∃ f1 own', l1 = f1 * PAGE_SIZE ∧ Effect ok nowhere s s' own own' ∧
      tables s'.mem t (vpn2 va) = .branch f1 ∧ own' f1 = some (t, [vpn2 va]) ∧
      ∀ e, tables s'.mem f1 (vpn1 va) ≠ .leaf e := by
  obtain ⟨own', heff, hres⟩ := nextTable_effect h hroot (by decide) hfirst
  obtain ⟨f1, hl1, hbranch, hf1⟩ := hres l1 rfl
  refine ⟨f1, own', hl1, heff, hbranch, hf1, ?_⟩
  intro e hleaf
  have hsame : lookup (tables s'.mem) t (path va) = lookup (tables s.mem) t (path va) :=
    heff.same t t [] (path va) hroot (by simp [path]) id
  have hfound : lookup (tables s'.mem) t (path va) = some (e, [vpn0 va]) := by
    unfold path
    rw [lookup_branch _ hbranch, lookup_leaf _ hleaf]
  have hrest := hsmall e _ (hsame.symm.trans hfound)
  cases hrest

theorem walkPt_eq (alloc : Bool) (h : Tree ok s own) (hroot : own t = some (t, []))
    (hsmall : NoSuperpage s.mem t va) :
    walkPt s (t * PAGE_SIZE) va alloc = walkProcessPt s (t * PAGE_SIZE) va alloc := by
  unfold walkPt walkProcessPt
  rw [followTable_eq alloc hsmall.first]
  rcases hfirst : nextTable s (t * PAGE_SIZE) (vpn2 va) alloc with ⟨_ | l1, s1⟩
  · rfl
  · obtain ⟨f1, _, rfl, _, _, _, h1⟩ := hsmall.second h hroot hfirst
    dsimp only
    rewrite [followTable_eq alloc h1]
    rfl

theorem physAddr_or (e : PTE) (va : Nat) :
    e.physAddr ||| (va &&& (PAGE_SIZE - 1)) = e.physAddr + va % PAGE_SIZE := by
  have hmask : va &&& (PAGE_SIZE - 1) = va % PAGE_SIZE :=
    Nat.and_two_pow_sub_one_eq_mod va 12
  have hlt : va % PAGE_SIZE < 2 ^ 12 := Nat.mod_lt _ (by decide)
  rw [hmask]
  exact (Nat.shiftLeft_add_eq_or_of_lt hlt e.ppn).symm

variable {pa table len : Nat}

section

variable (h : Tree ok s own) (hroot : own t = some (t, [])) (hsmall : NoSuperpage s.mem t va)
include h hroot hsmall

theorem virtToPhysInPt_eq : virtToPhysInPt s (t * PAGE_SIZE) va =
      (lookup (tables s.mem) t (path va)).map fun l => l.1.physAddr + va % PAGE_SIZE := by
  unfold virtToPhysInPt
  rw [walkPt_eq false h hroot hsmall]
  rcases walkProcessPt_read s t va with ⟨f0, hreach, hwalk⟩ | ⟨hwalk, hnone⟩
  · simp only [hwalk, lookup_of_reaches hreach, lookup_last]
    by_cases hleaf : (readPte s.mem (f0 * PAGE_SIZE) (vpn0 va)).isLeaf = true
    · simp [PTE.isValid_of_isLeaf hleaf, hleaf, physAddr_or]
    · simp [hleaf]
  · have hno : lookup (tables s.mem) t (path va) = none := by
      rw [eq_none_iff_forall_ne_some]
      rintro ⟨e, rest⟩ hl
      obtain rfl := hsmall e rest hl
      exact hnone e hl
    simp [hwalk, hno]

theorem virtToPhysInPt_page {phys : Nat} (hrun : virtToPhysInPt s (t * PAGE_SIZE) va = some phys) :
    ∃ e, lookup (tables s.mem) t (path va) = some (e, []) ∧
      phys = e.physAddr + va % PAGE_SIZE := by
  rw [virtToPhysInPt_eq h hroot hsmall, map_eq_some_iff] at hrun
  obtain ⟨⟨e, rest⟩, hl, rfl⟩ := hrun
  obtain rfl := hsmall e rest hl
  exact ⟨e, hl, rfl⟩

theorem mapIntoPt_mapWith {r w x u : Bool}
    (hrun : mapIntoPt s (t * PAGE_SIZE) va pa r w x u = some s') :
    mapWith "" s (t * PAGE_SIZE) va pa r w x u = (.ok (), s') := by
  unfold mapIntoPt at hrun
  rw [walkPt_eq true h hroot hsmall] at hrun
  unfold mapWith
  rcases hwalk : walkProcessPt s (t * PAGE_SIZE) va true with ⟨_ | ⟨l0, i⟩, s1⟩
  · rw [hwalk] at hrun
    cases hrun
  · rw [hwalk] at hrun
    cases hrun
    rfl

end

section

variable (h : TablesInv Q K kr R s own) (ht : R t) (hkernel : K (path va) = none)
include h ht hkernel

theorem TablesInv.noSuperpage : NoSuperpage s.mem t va :=
  fun _ _ hl => (h.small ht (path_length va) hkernel hl).1

theorem TablesInv.mapIntoPt {r w x u : Bool} (hd : DataFrame s own kr (PTE.page pa r w x u).ppn)
    (hq : (r || w || x) = true → Q t (path va) (.page pa r w x u))
    (hrun : mapIntoPt s (t * PAGE_SIZE) va pa r w x u = some s') :
    ∃ own', TablesInv Q K kr R s' own' :=
  h.mapWith ht hd hq
    (mapIntoPt_mapWith h.tree (h.root_own t ht) (h.noSuperpage ht hkernel) hrun)

end

/-! ### Clearing X -/

def PTE.isWx (e : PTE) : Bool := e.isUser && e.isWritable && e.isExecutable

def PTE.withoutX (e : PTE) : PTE :=
  if e.isWx then e.setFlags e.isReadable e.isWritable false e.isUser else e

variable {e : PTE}

theorem PTE.withoutX_of_not_wx (h : e.isWx = false) : e.withoutX = e := by
  simp [withoutX, h]

theorem PTE.isWx_withoutX (e : PTE) : e.withoutX.isWx = false := by
  unfold withoutX
  split
  · unfold isWx
    rw [(flags_setFlags e _ _ false _).2.2.1, Bool.and_false]
  · rename_i hwx
    exact Bool.eq_false_of_not_eq_true hwx

theorem PTE.ppn_withoutX (e : PTE) : e.withoutX.ppn = e.ppn := by
  unfold withoutX
  split
  · exact ppn_setFlags e _ _ _ _
  · rfl

theorem PTE.flags_withoutX (e : PTE) :
    e.withoutX.isReadable = e.isReadable ∧ e.withoutX.isWritable = e.isWritable ∧
      e.withoutX.isUser = e.isUser ∧
      e.withoutX.isExecutable = (e.isExecutable && !(e.isUser && e.isWritable)) := by
  cases hwx : e.isWx with
  | true =>
    have hfix : e.withoutX = e.setFlags e.isReadable e.isWritable false e.isUser := by
      rw [withoutX, if_pos hwx]
    obtain ⟨_, hw, hx, _⟩ := flags_setFlags e e.isReadable e.isWritable false e.isUser
    have hr := isReadable_setFlags e e.isReadable e.isWritable false e.isUser
    have hu := isUser_setFlags e e.isReadable e.isWritable false e.isUser
    rw [hfix]
    refine ⟨hr, hw, hu, ?_⟩
    rw [hx, (Bool.and_eq_true_iff.mp hwx).1]
    simp
  | false =>
    rw [withoutX_of_not_wx hwx]
    refine ⟨rfl, rfl, rfl, ?_⟩
    unfold isWx at hwx
    cases hx : e.isExecutable with
    | false => rfl
    | true =>
      rw [hx, Bool.and_true] at hwx
      rw [hwx]
      rfl

theorem PTE.isWritable_of_isWx (h : e.isWx = true) : e.isWritable = true := by
  exact (Bool.and_eq_true_iff.mp (Bool.and_eq_true_iff.mp h).1).2

theorem PTE.isLeaf_withoutX (h : e.isLeaf = true) : e.withoutX.isLeaf = true := by
  unfold withoutX
  split
  · rename_i hwx
    obtain ⟨hv, hw, _, _⟩ := flags_setFlags e e.isReadable e.isWritable false e.isUser
    unfold isLeaf
    rw [hv, hw, isWritable_of_isWx hwx]
    simp
  · exact h

/-- From `m` to `m'` some leaves lost X, and only bytes of the frames in `F` changed. -/
structure Scrubbed (F : Nat → Prop) (m m' : Memory) : Prop where
  words : ∀ f i, readPte m' (f * PAGE_SIZE) i = readPte m (f * PAGE_SIZE) i ∨
    ((readPte m (f * PAGE_SIZE) i).isLeaf = true ∧
      readPte m' (f * PAGE_SIZE) i = (readPte m (f * PAGE_SIZE) i).withoutX)
  bytes : ∀ a, ¬ F (a / PAGE_SIZE) → m' a = m a

variable {F : Nat → Prop} {m m' m'' : Memory} {i : Fin 512}

theorem Scrubbed.refl (m : Memory) : Scrubbed F m m := ⟨fun _ _ => .inl rfl, fun _ _ => rfl⟩

theorem Scrubbed.trans (h1 : Scrubbed F m m') (h2 : Scrubbed F m' m'') : Scrubbed F m m'' := by
  refine ⟨?_, fun a ha => (h2.bytes a ha).trans (h1.bytes a ha)⟩
  intro f i
  rcases h1.words f i with hsame1 | ⟨hleaf1, hfix1⟩ <;>
    rcases h2.words f i with hsame2 | ⟨hleaf2, hfix2⟩
  · exact .inl (hsame2.trans hsame1)
  · rw [hsame1] at hleaf2 hfix2
    exact .inr ⟨hleaf2, hfix2⟩
  · exact .inr ⟨hleaf1, hsame2.trans hfix1⟩
  · refine .inr ⟨hleaf1, ?_⟩
    rw [hfix2, hfix1]
    exact PTE.withoutX_of_not_wx (PTE.isWx_withoutX _)

section

variable (h : Scrubbed F m m')
include h

theorem Scrubbed.entry (f : Nat) (i : Fin 512) : tables m' f i = tables m f i ∨
      ∃ e, tables m f i = .leaf e ∧ tables m' f i = .leaf e.withoutX := by
  unfold tables
  rcases h.words f i with hsame | ⟨hleaf, hfix⟩
  · rw [hsame]
    exact .inl rfl
  · rw [hfix]
    exact .inr ⟨_, decode_eq_leaf.mpr ⟨rfl, hleaf⟩,
      decode_eq_leaf.mpr ⟨rfl, PTE.isLeaf_withoutX hleaf⟩⟩

theorem Scrubbed.branch_iff {g : Nat} : tables m' f i = .branch g ↔ tables m f i = .branch g := by
  rcases h.entry f i with hsame | ⟨e, hm, hm'⟩
  · rw [hsame]
  · rw [hm, hm']
    simp

theorem Scrubbed.lookup (f : Nat) (p : List (Fin 512)) :
    lookup (tables m') f p = lookup (tables m) f p ∨
      ∃ e rest, lookup (tables m) f p = some (e, rest) ∧
        lookup (tables m') f p = some (e.withoutX, rest) := by
  induction p generalizing f with
  | nil =>
    left
    rw [lookup_nil, lookup_nil]
  | cons i p ih =>
    rcases h.entry f i with hsame | ⟨e, hm, hm'⟩
    · cases hentry : tables m f i with
      | branch g =>
        rw [lookup_branch p hentry, lookup_branch p (hsame.trans hentry)]
        exact ih g
      | _ => exact .inl (lookup_cons_congr hsame (by simp [hentry]))
    · rw [lookup_leaf p hm, lookup_leaf p hm']
      exact .inr ⟨e, p, rfl, rfl⟩

theorem Scrubbed.frameAt (f : Nat) (q : List (Fin 512)) :
    RadixTable.frameAt (tables m') f q = RadixTable.frameAt (tables m) f q := by
  induction q generalizing f with
  | nil => rw [frameAt_nil, frameAt_nil]
  | cons i q ih => exact ext fun g => by simp [frameAt_cons, h.branch_iff, ih]

/-- The entry is not both writable and executable for users. -/
def Clean (m : Memory) (f : Nat) (i : Fin 512) : Prop :=
  ∀ e, tables m f i = .leaf e → e.isWx = false

theorem Scrubbed.clean (hc : Clean m f i) : Clean m' f i := by
  intro e' he'
  rcases h.entry f i with hsame | ⟨e, _, hm'⟩
  · exact hc e' (hsame.symm.trans he')
  · rw [hm'] at he'
    obtain rfl := Entry.leaf.inj he'
    exact PTE.isWx_withoutX e

end

theorem clearX_of_wx (h : (readPte m table i).isWx = true) :
    clearX table m i = writePte m table i (readPte m table i).withoutX := by
  rw [PTE.withoutX, if_pos h]
  unfold PTE.isWx at h
  rw [clearX, if_pos h]

theorem clearX_of_not_wx (h : ¬ (readPte m table i).isWx = true) : clearX table m i = m := by
  unfold PTE.isWx at h
  rw [clearX, if_neg h]

theorem clearX_scrubbed (hF : F f) (hvalid : (readPte m (f * PAGE_SIZE) i).isValid = true) :
    Scrubbed F m (clearX (f * PAGE_SIZE) m i) ∧ Clean (clearX (f * PAGE_SIZE) m i) f i := by
  by_cases hwx : (readPte m (f * PAGE_SIZE) i).isWx = true
  · -- a writable entry is a leaf
    have hleaf : (readPte m (f * PAGE_SIZE) i).isLeaf = true := by
      rw [PTE.isLeaf, hvalid, PTE.isWritable_of_isWx hwx]
      simp
    rw [clearX_of_wx hwx]
    refine ⟨⟨fun g j => ?_, fun a ha => ?_⟩, ?_⟩
    · by_cases hsame : g = f ∧ j = i
      · obtain ⟨rfl, rfl⟩ := hsame
        exact .inr ⟨hleaf, readPte_writePte_self _ _ _ _⟩
      · exact .inl (readPte_writePte_of_ne hsame)
    · apply writePte_bytes
      rintro rfl
      exact ha hF
    · intro v hv
      rw [tables_writePte, write_self] at hv
      obtain ⟨rfl, _⟩ := decode_eq_leaf.mp hv
      exact PTE.isWx_withoutX _
  · rw [clearX_of_not_wx hwx]
    refine ⟨.refl m, ?_⟩
    intro v hv
    obtain ⟨rfl, _⟩ := decode_eq_leaf.mp hv
    exact Bool.eq_false_of_not_eq_true hwx

theorem scrubLoop (Post : Memory → Fin 512 → Prop) {body : Memory → Fin 512 → Memory}
    {todo : List (Fin 512)} (hbody : ∀ i ∈ todo, ∀ m', Scrubbed F m m' →
      Scrubbed F m' (body m' i) ∧ Post (body m' i) i)
    (hkeep : ∀ m1 m2 i, Scrubbed F m1 m2 → Post m1 i → Post m2 i) :
    ∀ m', Scrubbed F m m' → Scrubbed F m' (todo.foldl body m') ∧
      ∀ i ∈ todo, Post (todo.foldl body m') i := by
  induction todo with
  | nil => exact fun m' _ => ⟨.refl m', by simp⟩
  | cons i todo ih =>
    intro m' hm'
    obtain ⟨hpass, hdone⟩ := hbody i mem_cons_self m' hm'
    obtain ⟨hrest, hall⟩ :=
      ih (fun j hj => hbody j (mem_cons_of_mem i hj)) (body m' i) (hm'.trans hpass)
    exact ⟨hpass.trans hrest, forall_mem_cons.mpr ⟨hkeep _ _ _ hrest hdone, hall⟩⟩

/-- **Level zero.** -/
theorem wxorxPage_scrubbed (hF : F f) (m' : Memory) (i : Fin 512) :
    Scrubbed F m' (wxorxPage (f * PAGE_SIZE) m' i) ∧
      Clean (wxorxPage (f * PAGE_SIZE) m' i) f i := by
  unfold wxorxPage
  cases hvalid : (readPte m' (f * PAGE_SIZE) i).isValid with
  | false =>
    simp only [Bool.not_false, if_true]
    have hempty : tables m' f i = .empty := decode_eq_empty.mpr hvalid
    exact ⟨.refl m', by simp [Clean, hempty]⟩
  | true =>
    simp only [Bool.not_true, Bool.false_eq_true, if_false]
    exact clearX_scrubbed hF hvalid

/-- The entry and the table below it are clean. -/
def CleanBelow (m : Memory) (f : Nat) (i : Fin 512) : Prop :=
  Clean m f i ∧ ∀ g, tables m f i = .branch g → ∀ j, Clean m g j

theorem Scrubbed.cleanBelow (h : Scrubbed F m m') (hc : CleanBelow m f i) :
    CleanBelow m' f i :=
  ⟨h.clean hc.1, fun g hg j => h.clean (hc.2 g (h.branch_iff.mp hg) j)⟩

/-- **Level one.** -/
theorem wxorxTable_scrubbed (hF : F f) (m' : Memory) (i : Fin 512)
    (hsub : ∀ g, tables m' f i = .branch g → F g) :
    Scrubbed F m' (wxorxTable (f * PAGE_SIZE) m' i) ∧
      CleanBelow (wxorxTable (f * PAGE_SIZE) m' i) f i := by
  unfold wxorxTable
  cases hentry : tables m' f i with
  | empty =>
    have hinvalid := decode_eq_empty.mp hentry
    simp only [hinvalid, Bool.not_false, if_true]
    exact ⟨.refl m', by simp [Clean, hentry], by simp [hentry]⟩
  | leaf e =>
    obtain ⟨_, hleaf⟩ := decode_eq_leaf.mp hentry
    have hvalid := PTE.isValid_of_isLeaf hleaf
    simp only [hvalid, hleaf, Bool.not_true, Bool.false_eq_true, if_false, if_true]
    obtain ⟨hscrub, hclean⟩ := clearX_scrubbed hF hvalid
    exact ⟨hscrub, hclean, by simp [hscrub.branch_iff, hentry]⟩
  | branch g =>
    obtain ⟨hvalid, hleaf, hppn⟩ := decode_eq_branch.mp hentry
    simp only [hvalid, hleaf, Bool.not_true, Bool.false_eq_true, if_false, physAddr_eq, hppn]
    obtain ⟨hscrub, hclean⟩ := scrubLoop (m := m') (fun m1 => Clean m1 g)
      (fun j (_ : j ∈ finRange 512) m1 _ => wxorxPage_scrubbed (hsub g hentry) m1 j)
      (fun _ _ _ hs hc => hs.clean hc) m' (.refl m')
    refine ⟨hscrub, by simp [Clean, hscrub.branch_iff.mpr hentry], ?_⟩
    intro g' hg' j
    obtain rfl := Entry.branch.inj (hentry.symm.trans (hscrub.branch_iff.mp hg'))
    exact hclean j (mem_finRange j)

/-- **Level two**, where leaves are skipped. -/
theorem wxorxRegion_scrubbed (m' : Memory) (i : Fin 512)
    (hsub : ∀ g, tables m' t i = .branch g → F g ∧ ∀ j k, tables m' g j = .branch k → F k) :
    Scrubbed F m' (wxorxRegion (t * PAGE_SIZE) m' i) ∧
      ∀ g, tables (wxorxRegion (t * PAGE_SIZE) m' i) t i = .branch g → ∀ j,
        CleanBelow (wxorxRegion (t * PAGE_SIZE) m' i) g j := by
  unfold wxorxRegion
  dsimp only
  split
  · rename_i hskip
    refine ⟨.refl m', fun g hentry => ?_⟩
    obtain ⟨hvalid, hleaf, _⟩ := decode_eq_branch.mp hentry
    simp [hvalid, hleaf] at hskip
  · rename_i hwalk
    simp only [Bool.not_eq_true, Bool.or_eq_false_iff, Bool.not_eq_false'] at hwalk
    have hentry := decode_eq_branch.mpr ⟨hwalk.1, hwalk.2, rfl⟩
    obtain ⟨hFg, hFk⟩ := hsub _ hentry
    rw [physAddr_eq]
    generalize (readPte m' (t * PAGE_SIZE) i).ppn = g at hentry hFg hFk
    obtain ⟨hscrub, hclean⟩ := scrubLoop (m := m') (fun m1 => CleanBelow m1 g)
      (fun j (_ : j ∈ finRange 512) m1 hm1 =>
        wxorxTable_scrubbed hFg m1 j fun k hk => hFk j k (hm1.branch_iff.mp hk))
      (fun _ _ _ hs hc => hs.cleanBelow hc) m' (.refl m')
    refine ⟨hscrub, ?_⟩
    intro g' hg' j
    obtain rfl := Entry.branch.inj (hentry.symm.trans (hscrub.branch_iff.mp hg'))
    exact hclean j (mem_finRange j)

/-- **`force_wxorx`.**  Only words of the table change, some leaves lose X, and below
    `2 ^ 38` no leaf under a table of the first level keeps both W and X for users. -/
theorem forceWxorx_cleanBelow (m : Memory)
    (hF : ∀ i ∈ userEntries, ∀ q g, q.length < 2 → frameAt (tables m) t (i :: q) = some g → F g) :
    Scrubbed F m (forceWxorx (t * PAGE_SIZE) m) ∧
      ∀ i ∈ userEntries, ∀ g, tables (forceWxorx (t * PAGE_SIZE) m) t i = .branch g → ∀ j,
        CleanBelow (forceWxorx (t * PAGE_SIZE) m) g j := by
  refine scrubLoop (fun m1 i => ∀ g, tables m1 t i = .branch g → ∀ j, CleanBelow m1 g j) ?_
    (fun m1 m2 i hs hpost g hg j => hs.cleanBelow (hpost g (hs.branch_iff.mp hg) j))
    m (.refl m)
  intro i hi m' hm'
  apply wxorxRegion_scrubbed
  intro g hg
  have hg0 : frameAt (tables m) t ([] ++ [i]) = some g :=
    frameAt_snoc.mpr ⟨t, frameAt_nil _ _, hm'.branch_iff.mp hg⟩
  refine ⟨hF i hi [] g (by simp) hg0, ?_⟩
  intro j k hk
  exact hF i hi [j] k (by simp) (frameAt_snoc.mpr ⟨g, hg0, hm'.branch_iff.mp hk⟩)

theorem forceWxorx_scrubbed (m : Memory)
    (hF : ∀ i ∈ userEntries, ∀ q g, q.length < 2 → frameAt (tables m) t (i :: q) = some g → F g) :
    Scrubbed F m (forceWxorx (t * PAGE_SIZE) m) ∧
      ∀ i ∈ userEntries, ∀ j k e, lookup (tables (forceWxorx (t * PAGE_SIZE) m)) t [i, j, k] =
        some (e, []) → e.isWx = false := by
  obtain ⟨hscrub, hclean⟩ := forceWxorx_cleanBelow m hF
  refine ⟨hscrub, fun i hi j k e hl => ?_⟩
  rcases lookup_cons_eq_some.mp hl with ⟨-, hnil⟩ | ⟨g, h2, hl⟩
  · cases hnil
  rcases lookup_cons_eq_some.mp hl with ⟨-, hnil⟩ | ⟨g0, h1, hl⟩
  · cases hnil
  rcases lookup_cons_eq_some.mp hl with ⟨h0, -⟩ | ⟨_, -, hl⟩
  · exact (hclean i hi g h2 j).2 g0 h1 k e h0
  · cases hl

/-- No 4 KiB user page is writable and executable afterwards. -/
theorem forceWxorx_effect (h : Tree plainEntry s own) (hroot : own t = some (t, [])) :
    Effect plainEntry (underAny t [] userEntries) s
        { s with mem := forceWxorx (t * PAGE_SIZE) s.mem } own own ∧
      Scrubbed (fun g => ∃ i ∈ userEntries, ∃ q, own g = some (t, i :: q)) s.mem
        (forceWxorx (t * PAGE_SIZE) s.mem) ∧
      ∀ i ∈ userEntries, ∀ j k e,
        lookup (tables (forceWxorx (t * PAGE_SIZE) s.mem)) t [i, j, k] = some (e, []) →
          e.isWx = false := by
  obtain ⟨hscrub, hclean⟩ := forceWxorx_scrubbed (t := t)
    (F := fun g => ∃ i ∈ userEntries, ∃ q, own g = some (t, i :: q)) s.mem
    fun i hi q g hq hg => ⟨i, hi, q, h.owned.frameAt hroot (by simpa using Nat.succ_lt_succ hq) hg⟩
  refine ⟨?_, hscrub, hclean⟩
  generalize forceWxorx (t * PAGE_SIZE) s.mem = m' at *
  constructor
  case tree =>
    refine ⟨h.rule, ?_, ?_, h.pool, h.fresh⟩
    · intro f o hf i
      have hplain : plainEntry (readPte s.mem (f * PAGE_SIZE) i) := h.entries f o hf i
      rcases hscrub.words f i with hsame | ⟨_, hfix⟩
      · rw [hsame]
        exact hplain
      · rw [hfix]
        unfold PTE.withoutX
        split
        · exact (PTE.flags_setFlags _ _ _ _ _).2.2.2.trans hplain
        · exact hplain
    · intro f r q i g hf hlevel hbranch
      exact h.owned f r q i g hf hlevel (hscrub.branch_iff.mp hbranch)
  case keep => exact fun _ _ ho => ho
  case foreign => exact fun _ hf => hf.1
  case bytes =>
    intro a ha
    apply hscrub.bytes
    rintro ⟨i, _, q, hq⟩
    rw [ha.1] at hq
    cases hq
  case pool => exact suffix_refl _
  case branch =>
    intro f r q i g _ _ _ hbranch
    exact hscrub.branch_iff.mpr hbranch
  case same =>
    intro f r q is hf hdepth hother
    apply lookup_congr_frames
    intro q' g hpre hq' hg i
    have hown := h.owned.frameAt hf (by omega) hg
    apply tables_congr
    rintro a rfl
    apply hscrub.bytes
    rintro ⟨j, hj, q'', hq''⟩
    obtain ⟨hr, hpath⟩ := Prod.mk.inj (some.inj (hown.symm.trans hq''))
    -- a frame below a user entry is on no way to another path
    apply hother
    refine ⟨hr, j, hj, ?_⟩
    have hstart : [j] <+: q ++ q' := ⟨q'', by rw [hpath]; rfl⟩
    exact hstart.trans ((prefix_append_right_inj q).mpr hpre)

/-- No user page is both writable and executable. -/
def noWx : Nat → List (Fin 512) → PTE → Prop := fun _ _ e => e.isWx = false

/-- While root `c` is filled, such pages are only in it and below `2 ^ 38`. -/
def wxLoading (c : Nat) : Nat → List (Fin 512) → PTE → Prop :=
  fun t p e => e.isWx = true → t = c ∧ ∃ i ∈ userEntries, [i] <+: p

theorem TablesInv.scrub (h : TablesInv Q K kr R s own) (ht : R t)
    (hQ : ∀ p e, Q t p e → Q t p e.withoutX) :
    TablesInv Q K kr R { s with mem := forceWxorx (t * PAGE_SIZE) s.mem } own := by
  obtain ⟨heff, hscrub, _⟩ := forceWxorx_effect h.tree (h.root_own t ht)
  generalize Sv39.forceWxorx (t * PAGE_SIZE) s.mem = m' at *
  refine h.effect heff ?_
  rintro t' _ p hp ⟨rfl, _⟩
  rcases hscrub.lookup t' p with hsame | ⟨e, rest, hold, hnew⟩
  · exact .inl hsame
  by_cases hwx : e.isWx = true
  · -- the page is not the kernel's
    have hnot : ∀ l, K p = some l → l ≠ (e, rest) := by
      rintro l hl rfl
      have hsuper := (h.kernel_leaf hp hl).2
      simp only [PTE.isWx, Bool.and_eq_true] at hwx
      rw [hwx.1.1] at hsuper
      cases hsuper
    refine .inr ⟨?_, ?_⟩
    · rw [eq_none_iff_forall_ne_some]
      intro l hl
      have hcovered := h.covered t' ht p l hp hl
      exact hnot l hl (some.inj (hcovered.symm.trans hold))
    · intro e' rest' hl
      cases hnew.symm.trans hl
      cases h.leaves t' ht p e rest hp hold with
      | kernel hk => exact absurd rfl (hnot _ hk)
      | page hrest hq hd =>
        refine ⟨hrest, hQ p e hq, ?_⟩
        rw [PTE.ppn_withoutX]
        exact hd.effect h.kernel heff
  · left
    rw [hnew, hold, PTE.withoutX_of_not_wx (Bool.eq_false_of_not_eq_true hwx)]

theorem TablesInv.forceWxorx (h : TablesInv (wxLoading t) K kr R s own) (ht : R t) :
    TablesInv noWx K kr R { s with mem := forceWxorx (t * PAGE_SIZE) s.mem } own := by
  obtain ⟨_, _, hclean⟩ := forceWxorx_effect h.tree (h.root_own t ht)
  have hQ : ∀ p e, wxLoading t t p e → wxLoading t t p e.withoutX := by
    intro p e _ hwx
    rw [PTE.isWx_withoutX] at hwx
    cases hwx
  have hloading := h.scrub ht hQ
  generalize Sv39.forceWxorx (t * PAGE_SIZE) s.mem = m' at *
  refine hloading.mono (fun _ ht' => ht') ?_
  intro t' p e _ hp hl hq
  apply Bool.eq_false_of_not_eq_true
  intro hwx
  obtain ⟨rfl, i, hi, hpre⟩ := hq hwx
  obtain ⟨a, b, d, rfl⟩ := length_eq_three.mp hp
  have hia : i = a := by simpa using hpre
  have hno := hclean a (hia ▸ hi) b d e hl
  rw [hwx] at hno
  cases hno

/-! ### Segments -/

variable {ph : Elf64Phdr} {elf : Memory}

theorem wrapAdd_wrapAdd (a b c : Nat) : wrapAdd (wrapAdd a b) c = wrapAdd a (b + c) := by
  unfold wrapAdd
  rw [Nat.mod_add_mod, Nat.add_assoc]

theorem chunkLen_le (va remaining : Nat) :
    chunkLen va remaining ≤ remaining ∧ va % PAGE_SIZE + chunkLen va remaining ≤ PAGE_SIZE := by
  have hoff : va % PAGE_SIZE < PAGE_SIZE := Nat.mod_lt _ (by decide)
  unfold chunkLen
  omega

section

variable (h : TablesInv Q K kr R s own)
include h

theorem TablesInv.alloc_zeroed {page : Nat}
    (halloc : s.allocPage = (some page, s')) :
    TablesInv Q K kr R { s' with mem := fill s'.mem page PAGE_SIZE 0 } own ∧
      ∀ r w x u, DataFrame { s' with mem := fill s'.mem page PAGE_SIZE 0 } own kr
        (PTE.page page r w x u).ppn := by
  obtain ⟨hpage, hmem, hwritten⟩ := h.alloc_some halloc
  apply hwritten
  rw [hmem]
  exact fun _ => fill_page hpage

theorem TablesInv.loadPage (ht : R t)
    (hkernel : K (path va) = none) (hq : ∀ pa, Q t (path va) (.page pa ph.r ph.w ph.x true))
    (hrun : loadPage (t * PAGE_SIZE) ph s va = some s') : ∃ own', TablesInv Q K kr R s' own' := by
  unfold Sv39.loadPage at hrun
  rcases halloc : s.allocPage with ⟨_ | phys, s1⟩
  · rw [halloc] at hrun
    cases hrun
  · rw [halloc] at hrun
    obtain ⟨h1, hd⟩ := h.alloc_zeroed halloc
    exact h1.mapIntoPt ht hkernel (hd _ _ _ _) (fun _ => hq phys) hrun

theorem TablesInv.copyChunk {chunk : Nat}
    (ht : R t) (hkernel : K (path va) = none)
    (hchunk : va % PAGE_SIZE + chunk ≤ PAGE_SIZE)
    (hrun : copyChunk elf (t * PAGE_SIZE) ph va chunk s = some s') : TablesInv Q K kr R s' own := by
  unfold Sv39.copyChunk at hrun
  rcases hphys : virtToPhysInPt s (t * PAGE_SIZE) va with _ | phys
  · rw [hphys] at hrun
    cases hrun
  · rw [hphys] at hrun
    cases hrun
    obtain ⟨e, hl, rfl⟩ := virtToPhysInPt_page h.tree (h.root_own t ht)
      (h.noSuperpage ht hkernel) hphys
    obtain ⟨_, _, hd⟩ := h.small ht (path_length va) hkernel hl
    refine h.write_frame hd.foreign.1 hd.apart ?_
    intro a ha
    have hout : ¬ (e.physAddr + va % PAGE_SIZE ≤ a ∧ a < e.physAddr + va % PAGE_SIZE + chunk) := by
      rw [physAddr_eq]
      unfold PAGE_SIZE at *
      omega
    simp [copyFrom, if_neg hout]

theorem TablesInv.copySegment {done remaining : Nat} (ht : R t)
    (hkernel : ∀ k < ph.pFilesz, K (path (wrapAdd ph.pVaddr k)) = none)
    (hsum : done + remaining = ph.pFilesz)
    (hrun : copySegment elf (t * PAGE_SIZE) ph (wrapAdd ph.pVaddr done) remaining s = some s') :
    TablesInv Q K kr R s' own := by
  induction remaining using Nat.strong_induction_on generalizing s done with
  | _ remaining ih =>
    rw [Sv39.copySegment] at hrun
    by_cases hzero : remaining = 0
    · rw [if_pos hzero] at hrun
      cases hrun
      exact h
    · rw [if_neg hzero] at hrun
      obtain ⟨s1, hchunk, hrest⟩ := bind_eq_some_iff.mp hrun
      obtain ⟨hle, hpage⟩ := chunkLen_le (wrapAdd ph.pVaddr done) remaining
      have hpos : 0 < chunkLen (wrapAdd ph.pVaddr done) remaining := chunkLen_pos hzero
      have h1 := h.copyChunk ht (hkernel done (by omega)) hpage hchunk
      rw [wrapAdd_wrapAdd] at hrest
      exact ih _ (by omega) h1 (by omega) hrest

end

/-- What the kernel expects of a segment that it loads: the kernel maps none of its pages,
    and a page that is both writable and executable has bit 38 of its address clear. -/
structure SegmentSafe (K : List (Fin 512) → Found) (len : Nat) (ph : Elf64Phdr) : Prop where
  pages : ∀ va ∈ ph.pages, K (path va) = none
  copied : ph.isCopied len = true → ∀ k < ph.pFilesz, K (path (wrapAdd ph.pVaddr k)) = none
  low : ph.w = true → ph.x = true → ∀ va ∈ ph.pages, va / 2 ^ 38 % 2 = 0

theorem PTE.isWx_page (pa : Nat) (r w x u : Bool) : (page pa r w x u).isWx = (u && w && x) := by
  obtain ⟨_, _, hw, hx, hu, _⟩ := flags_page pa r w x u
  unfold isWx
  rw [hw, hx, hu]

theorem loadSegment_loaded (root : Nat) (hloaded : ph.isLoaded = true) :
    loadSegment elf len root s ph = (ph.pages.foldlM (Sv39.loadPage root ph) s).bind fun s =>
      if ph.isCopied len then copySegment elf root ph ph.pVaddr ph.pFilesz s else some s := by
  unfold loadSegment
  rw [if_pos hloaded]
  cases ph.pages.foldlM (Sv39.loadPage root ph) s <;> rfl

/-- A safe segment keeps the tables of all processes in order. -/
theorem TablesInv.loadSegment (h : TablesInv (wxLoading t) K kr R s own) (ht : R t)
    (hword : ph.pVaddr < WORD) (hsafe : ph.isLoaded = true → SegmentSafe K len ph)
    (hrun : loadSegment elf len (t * PAGE_SIZE) s ph = some s') :
    ∃ own', TablesInv (wxLoading t) K kr R s' own' := by
  by_cases hloaded : ph.isLoaded = true
  · have hseg := hsafe hloaded
    rw [loadSegment_loaded _ hloaded] at hrun
    obtain ⟨s1, hpages, hrun⟩ := bind_eq_some_iff.mp hrun
    have hpass : ∀ va ∈ ph.pages, ∀ s s', (∃ own, TablesInv (wxLoading t) K kr R s own) →
        Sv39.loadPage (t * PAGE_SIZE) ph s va = some s' →
        ∃ own, TablesInv (wxLoading t) K kr R s' own := by
      rintro va hva s s' ⟨own, hinv⟩ hpage
      refine hinv.loadPage ht (hseg.pages va hva) ?_ hpage
      intro pa hwx
      rw [PTE.isWx_page, Bool.true_and, Bool.and_eq_true] at hwx
      exact ⟨rfl, path_user_iff.mpr (hseg.low hwx.1 hwx.2 va hva)⟩
    obtain ⟨own1, h1⟩ := Runs.foldlM_invariant _ hpass ⟨own, h⟩ hpages
    by_cases hcopied : ph.isCopied len = true
    · simp only [hcopied, if_true] at hrun
      have hstart : wrapAdd ph.pVaddr 0 = ph.pVaddr := wrapAdd_of_lt hword
      rw [← hstart] at hrun
      exact ⟨own1, h1.copySegment ht (hseg.copied hcopied) (Nat.zero_add _) hrun⟩
    · simp only [hcopied] at hrun
      cases hrun
      exact ⟨own1, h1⟩
  · simp only [Sv39.loadSegment, hloaded] at hrun
    cases hrun
    exact ⟨own, h⟩

/-! ### The loader -/

/-- All segments that the file asks for are safe. -/
def ElfSafe (K : List (Fin 512) → Found) (elf : Memory) (len : Nat) : Prop :=
  ∀ headers, elfHeaders elf len = some headers → ∀ ph ∈ headers, ph.isLoaded = true →
    SegmentSafe K len ph

theorem elfHeaders_word {headers : List Elf64Phdr}
    (h : elfHeaders elf len = some headers) : ∀ ph ∈ headers, ph.pVaddr < WORD := by
  unfold elfHeaders at h
  simp only [ite_none_left_eq_some] at h
  obtain ⟨_, _, _, _, h⟩ := h
  cases h
  intro ph hph
  obtain ⟨i, _, rfl⟩ := mem_map.mp hph
  exact readLE_lt elf _ 8

variable {c : Nat}

theorem TablesInv.stopLoading (h : TablesInv (wxLoading c) K kr (fun t => R t ∨ t = c) s own)
    (hc : ¬ R c) : TablesInv noWx K kr R s own := by
  refine h.mono (fun _ ht => .inl ht) ?_
  intro t p e ht _ _ hq
  apply Bool.eq_false_of_not_eq_true
  intro hwx
  obtain ⟨rfl, _⟩ := hq hwx
  exact hc ht

/-- **`load_elf`.**  Loading a safe file into the new root `c` keeps the invariant for the
    other roots, and if it succeeds also for `c`. -/
theorem TablesInv.loadElf {res : Option (Nat × Nat)}
    (h : TablesInv noWx K kr (fun t => R t ∨ t = c) s own) (hc : ¬ R c)
    (hstack : K (path STACK_BOTTOM) = none) (hsafe : ElfSafe K elf len)
    (hrun : loadElf elf len (c * PAGE_SIZE) s = some (res, s')) :
    ∃ own', TablesInv noWx K kr R s' own' ∧
      (res ≠ none → TablesInv noWx K kr (fun t => R t ∨ t = c) s' own') := by
  have hroot : (fun t => R t ∨ t = c) c := .inr rfl
  have hload : TablesInv (wxLoading c) K kr (fun t => R t ∨ t = c) s own := by
    refine h.mono (fun _ ht => ht) ?_
    intro t p e _ _ _ hno hwx
    rw [hno] at hwx
    cases hwx
  unfold Sv39.loadElf at hrun
  rcases hheaders : elfHeaders elf len with _ | headers
  · rw [hheaders] at hrun
    cases hrun
    exact ⟨own, hload.stopLoading hc, fun hne => absurd rfl hne⟩
  rw [hheaders] at hrun
  rcases hsegments : headers.foldlM (Sv39.loadSegment elf len (c * PAGE_SIZE)) s with _ | s1
  · simp only [hsegments] at hrun
    cases hrun
  simp only [hsegments] at hrun
  have hpass : ∀ ph ∈ headers, ∀ s s',
      (∃ own, TablesInv (wxLoading c) K kr (fun t => R t ∨ t = c) s own) →
      Sv39.loadSegment elf len (c * PAGE_SIZE) s ph = some s' →
      ∃ own, TablesInv (wxLoading c) K kr (fun t => R t ∨ t = c) s' own := by
    rintro ph hph s s' ⟨own, hinv⟩ hseg
    exact hinv.loadSegment hroot (elfHeaders_word hheaders ph hph) (hsafe headers hheaders ph hph)
      hseg
  obtain ⟨own1, h1⟩ := Runs.foldlM_invariant _ hpass ⟨own, hload⟩ hsegments
  rcases halloc : s1.allocPage with ⟨_ | stackPhys, s2⟩
  · rw [halloc] at hrun
    cases hrun
    exact ⟨own1, (h1.alloc_none halloc).stopLoading hc, fun hne => absurd rfl hne⟩
  · rw [halloc] at hrun
    obtain ⟨h2, hd⟩ := h1.alloc_zeroed halloc
    rcases hmap : Sv39.mapIntoPt { s2 with mem := fill s2.mem stackPhys PAGE_SIZE 0 }
        (c * PAGE_SIZE) STACK_BOTTOM stackPhys true true false true with _ | s3
    · simp only [hmap] at hrun
      cases hrun
    · simp only [hmap] at hrun
      cases hrun
      have hq : wxLoading c c (path STACK_BOTTOM) (.page stackPhys true true false true) := by
        intro hwx
        rw [PTE.isWx_page] at hwx
        cases hwx
      obtain ⟨own3, h3⟩ := h2.mapIntoPt hroot hstack (hd _ _ _ _) (fun _ => hq) hmap
      have h4 := h3.forceWxorx hroot
      refine ⟨own3, ?_, fun _ => h4⟩
      exact h4.mono (fun _ ht => .inl ht) fun _ _ _ _ _ _ hno => hno

end TrainOS.Sv39
