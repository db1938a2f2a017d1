import TrainOS.MemoryCalls
import TrainOS.TableGrowth

/-!
# What a process finds in fresh memory

`mmap` and a growing `brk` map frames from `alloc_page`, which hands them out as they are.  Two
kernels that differ in the bytes of free frames end with the same page tables; the process reads
the same bytes from its new pages exactly if the frames held them (`fresh_pages_alike_iff`).
-/

namespace TrainOS.Sv39

open ByteMemory List RadixTable Runs

variable {ok : PTE → Prop} {s s' s1 s2 : Phys} {own : Own} {root : Nat}

/-! ### The frames behind the new pages -/

/-- The frames that a mapping loop takes for its pages, in order. -/
def freshFrames (ptRoot : Nat) : List Nat → Phys → List (Nat × Nat)
  | [], _ => []
  | va :: vas, s =>
      match s.allocPage with
      | (none, _) => []
      | (some page, s) =>
          (va, page) ::
            match mapUserPage s ptRoot va page true true with
            | (.ok (), s) => freshFrames ptRoot vas s
            | (.error _, _) => []

def lastFrame : List (Nat × Nat) → Nat → Option Nat
  | [], _ => none
  | (va, page) :: taken, v => (lastFrame taken v).or (if vpn va = v then some page else none)

variable {ptRoot va page f r : Nat} {vas : List Nat}

theorem mapFreshPages_cons (hrun : forEach (mapFreshPage ptRoot) (va :: vas) s = (.ok (), s')) :
    ∃ page s1 s2, s.allocPage = (some page, s1) ∧
      mapUserPage s1 ptRoot va page true true = (.ok (), s2) ∧
      forEach (mapFreshPage ptRoot) vas s2 = (.ok (), s') := by
  rcases forEach_cons hrun with ⟨s2, hfirst, hrest⟩ | ⟨_, hres, _⟩
  · unfold mapFreshPage at hfirst
    rcases halloc : s.allocPage with ⟨_ | page, s1⟩ <;> rw [halloc] at hfirst
    · cases hfirst
    · exact ⟨page, s1, s2, rfl, hfirst, hrest⟩
  · cases hres

theorem freshFrames_cons (halloc : s.allocPage = (some page, s1))
    (hmap : mapUserPage s1 ptRoot va page true true = (.ok (), s')) :
    freshFrames ptRoot (va :: vas) s = (va, page) :: freshFrames ptRoot vas s' := by
  simp [freshFrames, halloc, hmap]

variable {res : Option Nat}

theorem allocPage_mem (hrun : s.allocPage = (res, s')) : s'.mem = s.mem := by
  rcases Phys.allocPage_cases hrun with
    ⟨_, rfl | ⟨rest, _, rfl⟩⟩ | ⟨page, rest, _, _, rfl⟩ <;> rfl

theorem mem_of_allocPage (halloc : s.allocPage = (some page, s1)) : page ∈ frames s.pool := by
  rcases Phys.allocPage_cases halloc with ⟨hnone, _⟩ | ⟨p, rest, hp, hpool, _⟩
  · cases hnone
  · cases hp
    rw [hpool]
    exact mem_cons_self

theorem allocPage_foreign (h : Tree ok s own)
    (halloc : s.allocPage = (some page, s1)) : Foreign s1 own (page / PAGE_SIZE) := by
  rcases Phys.allocPage_cases halloc with ⟨hnone, _⟩ | ⟨p, rest, hp, hpool, rfl⟩
  · cases hnone
  · cases hp
    obtain ⟨_, _, hfresh, hnew⟩ := h.next_frame hpool
    exact ⟨hfresh, hnew⟩

/-! ### Bytes of the remaining free frames -/

/-- What is still free has kept its bytes. -/
def Untouched (s s' : Phys) : Prop :=
  ∀ a p, p ∈ frames s'.pool → p / PAGE_SIZE = a / PAGE_SIZE → s'.mem a = s.mem a

theorem Untouched.trans (h1 : Untouched s s1) (h2 : Untouched s1 s2) (hpool : s2.pool <:+ s1.pool) :
    Untouched s s2 := fun a p hp ha =>
  (h2 a p hp ha).trans (h1 a p (frames_subset_of_suffix hpool p hp) ha)

variable {o : Nat × List (Fin 512)} {i : Fin 512} {alloc : Bool} {err : String}

/-- What was written to is a table, and a table is not free. -/
theorem WritesWithin.untouched (hwithin : WritesWithin root s s') (htree : Tree ok s' own)
    (hroot : own root = some (root, [])) : Untouched s s' := by
  intro a p hp ha
  by_contra hne
  obtain ⟨q, hq, hf⟩ := hwithin.bytes a hne
  have hfresh := htree.fresh p hp
  rw [ha, htree.owned.frameAt hroot (by simpa using hq) hf] at hfresh
  cases hfresh

section

variable (h : Tree ok s own)
include h

/-! ### A loop that succeeds -/

/-- What the process finds after a loop that mapped all its pages: the last frame taken
    for a page, with the bytes it had before, and elsewhere what was there. -/
structure Mapped (root : Nat) (taken : List (Nat × Nat)) (s s' : Phys) : Prop where
  finds : ∀ a, lookup (tables s'.mem) root (path a) =
    match lastFrame taken (vpn a) with
    | some page => some (.page page true true false true, [])
    | none => lookup (tables s.mem) root (path a)
  free : ∀ va page, (va, page) ∈ taken → page ∈ frames s.pool
  bytes : ∀ va page, (va, page) ∈ taken → ∀ a, a / PAGE_SIZE = page / PAGE_SIZE →
    s'.mem a = s.mem a

/-- Each page gets the frame that was taken for it. -/
theorem mapFreshPages_mapped (hroot : own root = some (root, []))
    (hrun : forEach (mapFreshPage (root * PAGE_SIZE)) vas s = (.ok (), s')) :
    Mapped root (freshFrames (root * PAGE_SIZE) vas s) s s' := by
  induction vas generalizing s own with
  | nil =>
    cases hrun
    exact ⟨fun _ => rfl, by simp [freshFrames], by simp [freshFrames]⟩
  | cons va vas ih =>
    obtain ⟨page, s1, s2, halloc, hmap, hrest⟩ := mapFreshPages_cons hrun
    rw [freshFrames_cons halloc hmap]
    have htaken : Effect ok nowhere s s1 own own := allocPage_effect h halloc
    have hforeign := allocPage_foreign h halloc
    obtain ⟨own2, heff, -, hpage⟩ := mapWith_effect htaken.tree hroot hmap
    have hroot2 := heff.keep _ _ hroot
    have htail := ih heff.tree hroot2 hrest
    have hwithin := mapWith_within htaken.tree hroot hmap
    have hmem := allocPage_mem halloc
    have hfirst : Untouched s s1 := fun a _ _ _ => congrFun hmem a
    have huntouched := hfirst.trans (hwithin.untouched heff.tree hroot2) heff.pool
    obtain ⟨own3, heff3⟩ := mapFreshPages_effect heff.tree hroot2 hrest
    constructor
    case finds =>
      intro a
      rw [htail.finds a, lastFrame]
      cases lastFrame (freshFrames (root * PAGE_SIZE) vas s2) (vpn a) with
      | some page' => rfl
      | none =>
        by_cases hsame : vpn va = vpn a
        · rw [if_pos hsame, ← path_eq_iff.mpr hsame]
          exact hpage rfl
        · rw [if_neg hsame, ← hmem]
          exact heff.lookup_other hroot fun heq => hsame heq.symm
    case free =>
      intro va' page' hmem'
      rcases mem_cons.mp hmem' with heq | htail'
      · cases heq
        exact mem_of_allocPage halloc
      · exact frames_subset_of_suffix (heff.pool.trans htaken.pool) _
          (htail.free va' page' htail')
    case bytes =>
      intro va' page' hmem' a ha
      rcases mem_cons.mp hmem' with heq | htail'
      · cases heq
        have hforeign' : Foreign s1 own (a / PAGE_SIZE) := ha ▸ hforeign
        rw [heff3.bytes a (heff.foreign_of hforeign'), heff.bytes a hforeign', hmem]
      · rw [htail.bytes va' page' htail' a ha]
        exact huntouched a page' (htail.free va' page' htail') ha.symm

end

/-! ### Two states that differ in free frames -/

/-- The states have the same free frames and the same bytes, except in free frames and in
    the frames `D`. -/
structure AgreeOutside (D : Nat → Prop) (s1 s2 : Phys) : Prop where
  pool : s2.pool = s1.pool
  bytes : ∀ a, ¬ D (a / PAGE_SIZE) → (∀ p ∈ frames s1.pool, p / PAGE_SIZE ≠ a / PAGE_SIZE) →
    s2.mem a = s1.mem a

variable {D : Nat → Prop}

section

variable (h : AgreeOutside D s1 s2) (htree : Tree ok s1 own) (hD : ∀ d, D d → Foreign s1 own d)
include h htree hD

theorem AgreeOutside.readPte (hf : own f = some o) (i : Fin 512) :
    readPte s2.mem (f * PAGE_SIZE) i = readPte s1.mem (f * PAGE_SIZE) i := by
  apply readPte_congr
  rintro a rfl
  apply h.bytes a
  · intro hd
    exact (hD _ hd).ne_owned hf rfl
  · intro p hp heq
    have hfresh := htree.fresh p hp
    rw [heq, hf] at hfresh
    cases hfresh

theorem AgreeOutside.tree : Tree ok s2 own := by
  have htables : ∀ f o, own f = some o → ∀ i, tables s2.mem f i = tables s1.mem f i :=
    fun f o hf i => congrArg PTE.decode (h.readPte htree hD hf i)
  refine ⟨htree.rule, ?_, ?_, h.pool ▸ htree.pool, fun p hp => htree.fresh p (h.pool ▸ hp)⟩
  · intro f o hf i
    rw [h.readPte htree hD hf i]
    exact htree.entries f o hf i
  · intro f r q i g hf hlevel hbranch
    rw [htables f _ hf i] at hbranch
    exact htree.owned f r q i g hf hlevel hbranch

end

variable {t1 : Phys}

theorem AgreeOutside.allocPage (h : AgreeOutside D s1 s2) (halloc : s1.allocPage = (res, t1)) :
    ∃ t2, s2.allocPage = (res, t2) ∧
      AgreeOutside (fun f => D f ∨ ∃ page, res = some page ∧ f = page / PAGE_SIZE) t1 t2 := by
  unfold Phys.allocPage at halloc ⊢
  rw [h.pool]
  rcases hpool : s1.pool with _ | ⟨answer, rest⟩
  · rw [hpool] at halloc
    cases halloc
    exact ⟨s2, rfl, h.pool, fun a ha => h.bytes a fun hd => ha (.inl hd)⟩
  · rw [hpool] at halloc
    obtain ⟨rfl, rfl⟩ := Prod.mk.inj halloc
    refine ⟨_, rfl, rfl, fun a ha hfree => h.bytes a (fun hd => ha (.inl hd)) ?_⟩
    intro p hp heq
    rw [hpool] at hp
    cases answer with
    | none => exact hfree p hp heq
    | some page =>
      rcases mem_cons.mp hp with rfl | hp
      · exact ha (.inr ⟨p, rfl, heq.symm⟩)
      · exact hfree p hp heq

theorem fill_agree {m1 m2 : Memory} {g a : Nat} (h : a / PAGE_SIZE ≠ g → m2 a = m1 a) :
    fill m2 (g * PAGE_SIZE) PAGE_SIZE 0 a = fill m1 (g * PAGE_SIZE) PAGE_SIZE 0 a := by
  by_cases ha : a / PAGE_SIZE = g
  · have hlo : g * PAGE_SIZE ≤ a := ha ▸ Nat.div_mul_le_self a PAGE_SIZE
    have hhi : a < g * PAGE_SIZE + PAGE_SIZE := ha ▸ Nat.lt_div_mul_add (by decide)
    rw [fill_apply_of_mem m2 0 hlo hhi, fill_apply_of_mem m1 0 hlo hhi]
  · rw [fill_bytes ha, fill_bytes ha, h ha]

section

variable (h : AgreeOutside D s1 s2) (htree : Tree ok s1 own)
include h htree

theorem AgreeOutside.newTable {table : Nat} (hrun : newTable s1 table i = (res, t1)) :
    ∃ t2, newTable s2 table i = (res, t2) ∧ AgreeOutside D t1 t2 := by
  unfold Sv39.newTable at hrun ⊢
  rcases halloc : s1.allocPage with ⟨answer, u1⟩
  obtain ⟨u2, halloc2, hagree⟩ := h.allocPage halloc
  rw [halloc] at hrun
  rw [halloc2]
  rcases Phys.allocPage_cases halloc with ⟨rfl, _⟩ | ⟨page, rest, rfl, hpool, rfl⟩
  · cases hrun
    refine ⟨u2, rfl, hagree.pool, fun a ha => hagree.bytes a ?_⟩
    rintro (hd | ⟨_, hnone, _⟩)
    · exact ha hd
    · cases hnone
  · cases hrun
    refine ⟨_, rfl, hagree.pool, fun a ha hfree => writePte_congr ?_⟩
    rw [(htree.next_frame hpool).1]
    apply fill_agree
    intro hne
    apply hagree.bytes a _ hfree
    rintro (hd | ⟨_, hsome, heq⟩)
    · exact ha hd
    · cases hsome
      exact hne heq

section

variable (hD : ∀ d, D d → Foreign s1 own d)
include hD

theorem AgreeOutside.nextTable (hf : own f = some o)
    (hrun : nextTable s1 (f * PAGE_SIZE) i alloc = (res, t1)) :
    ∃ t2, nextTable s2 (f * PAGE_SIZE) i alloc = (res, t2) ∧ AgreeOutside D t1 t2 := by
  unfold Sv39.nextTable at hrun ⊢
  rw [h.readPte htree hD hf i]
  generalize Sv39.readPte s1.mem (f * PAGE_SIZE) i = e at hrun ⊢
  by_cases hvalid : (!e.isValid) = true
  · rw [if_pos hvalid] at hrun ⊢
    cases alloc with
    | true => exact h.newTable htree hrun
    | false =>
      cases hrun
      exact ⟨s2, rfl, h⟩
  · rw [if_neg hvalid] at hrun ⊢
    by_cases hleaf : e.isLeaf = true
    · rw [if_pos hleaf] at hrun ⊢
      cases hrun
      exact ⟨s2, rfl, h⟩
    · rw [if_neg hleaf] at hrun ⊢
      cases hrun
      exact ⟨s2, rfl, h⟩

theorem AgreeOutside.walkProcessPt {res : Option (Nat × Fin 512)} (hroot : own root = some (r, []))
    (hrun : walkProcessPt s1 (root * PAGE_SIZE) va alloc = (res, t1)) :
    ∃ t2, walkProcessPt s2 (root * PAGE_SIZE) va alloc = (res, t2) ∧ AgreeOutside D t1 t2 := by
  unfold Sv39.walkProcessPt at hrun ⊢
  rcases hfirst : Sv39.nextTable s1 (root * PAGE_SIZE) (vpn2 va) alloc with ⟨res1, u1⟩
  obtain ⟨u2, hfirst2, hagree⟩ := h.nextTable htree hD hroot hfirst
  obtain ⟨own1, heff1, hres1⟩ := nextTable_effect htree hroot (by decide) hfirst
  rw [hfirst] at hrun
  rw [hfirst2]
  cases res1 with
  | none =>
    cases hrun
    exact ⟨u2, rfl, hagree⟩
  | some l1 =>
    obtain ⟨f1, rfl, _, hf1⟩ := hres1 l1 rfl
    rcases hsecond : Sv39.nextTable u1 (f1 * PAGE_SIZE) (vpn1 va) alloc with ⟨res0, v1⟩
    obtain ⟨v2, hsecond2, hagree'⟩ := hagree.nextTable heff1.tree
      (fun d hd => heff1.foreign_of (hD d hd)) hf1 hsecond
    simp only [hsecond] at hrun
    simp only [hsecond2]
    cases res0 <;>
    · cases hrun
      exact ⟨v2, rfl, hagree'⟩

theorem AgreeOutside.mapWith {pa : Nat} {rd w x u : Bool}
    {res : Except String Unit} (hroot : own root = some (r, []))
    (hrun : mapWith err s1 (root * PAGE_SIZE) va pa rd w x u = (res, t1)) :
    ∃ t2, mapWith err s2 (root * PAGE_SIZE) va pa rd w x u = (res, t2) ∧ AgreeOutside D t1 t2 := by
  unfold Sv39.mapWith at hrun ⊢
  rcases hwalk : Sv39.walkProcessPt s1 (root * PAGE_SIZE) va true with ⟨found, u1⟩
  obtain ⟨u2, hwalk2, hagree⟩ := h.walkProcessPt htree hD hroot hwalk
  rw [hwalk] at hrun
  rw [hwalk2]
  cases found with
  | none =>
    cases hrun
    exact ⟨u2, rfl, hagree⟩
  | some slot =>
    cases hrun
    exact ⟨_, rfl, hagree.pool, fun a ha hfree => writePte_congr (hagree.bytes a ha hfree)⟩

/-- **Both loops map the same pages to the same frames.** -/
theorem AgreeOutside.mapFreshPages (hroot : own root = some (root, []))
    (hrun : forEach (mapFreshPage (root * PAGE_SIZE)) vas s1 = (.ok (), t1)) :
    ∃ t2, forEach (mapFreshPage (root * PAGE_SIZE)) vas s2 = (.ok (), t2) ∧
      freshFrames (root * PAGE_SIZE) vas s2 = freshFrames (root * PAGE_SIZE) vas s1 := by
  induction vas generalizing s1 s2 own D with
  | nil => exact ⟨s2, rfl, rfl⟩
  | cons va vas ih =>
    obtain ⟨page, u1, v1, halloc, hmap, hrest⟩ := mapFreshPages_cons hrun
    obtain ⟨u2, halloc2, hagree⟩ := h.allocPage halloc
    have htaken : Effect ok nowhere s1 u1 own own := allocPage_effect htree halloc
    have hD' : ∀ d, (D d ∨ ∃ p, some page = some p ∧ d = p / PAGE_SIZE) → Foreign u1 own d := by
      rintro d (hd | ⟨p, hp, rfl⟩)
      · exact htaken.foreign_of (hD d hd)
      · cases hp
        exact allocPage_foreign htree halloc
    obtain ⟨v2, hmap2, hagree'⟩ := hagree.mapWith htaken.tree hD' hroot hmap
    obtain ⟨own', heff, -, -⟩ := mapWith_effect htaken.tree hroot hmap
    obtain ⟨t2, hrest2, hsame⟩ := ih hagree' heff.tree
      (fun d hd => heff.foreign_of (hD' d hd)) (heff.keep _ _ hroot) hrest
    refine ⟨t2, ?_, ?_⟩
    · simp only [forEach, mapFreshPage, halloc2]
      rw [show mapUserPage u2 (root * PAGE_SIZE) va page true true = (.ok (), v2) from hmap2]
      exact hrest2
    · rw [freshFrames_cons halloc hmap, freshFrames_cons halloc2 hmap2, hsame]

end

end

/-! ### The call -/

/-- The process reads the same bytes from the given pages in both kernels. -/
def ReadsAlike (root : Nat) (vas : List Nat) (k1 k2 : Kernel) : Prop :=
  ∀ a, (∃ va ∈ vas, vpn va = vpn a) →
    userByte k1.phys.mem (root * PAGE_SIZE) a = userByte k2.phys.mem (root * PAGE_SIZE) a

/-- The frames that a loop leaves mapped hold the same bytes in both memories. -/
def FramesAlike (taken : List (Nat × Nat)) (m1 m2 : Memory) : Prop :=
  ∀ v page, lastFrame taken v = some page → AgreeOn m1 m2 page PAGE_SIZE

variable {taken : List (Nat × Nat)}

theorem mem_of_lastFrame {v : Nat}
    (h : lastFrame taken v = some page) : ∃ va, vpn va = v ∧ (va, page) ∈ taken := by
  induction taken with
  | nil => cases h
  | cons pair taken ih =>
    rcases Option.or_eq_some_iff.mp h with hrest | ⟨-, hpage⟩
    · obtain ⟨va, hv, hmem⟩ := ih hrest
      exact ⟨va, hv, mem_cons_of_mem _ hmem⟩
    · obtain ⟨hv, hpage⟩ := Option.ite_none_right_eq_some.mp hpage
      cases hpage
      exact ⟨pair.1, hv, mem_cons_self⟩

theorem mem_of_freshFrames (h : (va, page) ∈ freshFrames ptRoot vas s) : va ∈ vas := by
  induction vas generalizing s with
  | nil => cases h
  | cons va' vas ih =>
    rw [freshFrames] at h
    split at h
    · cases h
    · rcases mem_cons.mp h with heq | h
      · cases heq
        exact mem_cons_self
      · split at h
        · exact mem_cons_of_mem _ (ih h)
        · cases h

theorem lastFrame_of_mem
    (hrun : forEach (mapFreshPage ptRoot) vas s = (.ok (), s')) (hva : va ∈ vas) :
    ∃ page, lastFrame (freshFrames ptRoot vas s) (vpn va) = some page := by
  induction vas generalizing s with
  | nil => cases hva
  | cons va' vas ih =>
    obtain ⟨page, s1, s2, halloc, hmap, hrest⟩ := mapFreshPages_cons hrun
    rw [freshFrames_cons halloc hmap, lastFrame]
    rcases mem_cons.mp hva with rfl | hva
    · rw [if_pos rfl]
      cases lastFrame (freshFrames ptRoot vas s2) (vpn va) with
      | some page' => exact ⟨page', rfl⟩
      | none => exact ⟨page, rfl⟩
    · obtain ⟨page', hpage'⟩ := ih hrest hva
      rw [hpage']
      exact ⟨page', rfl⟩

theorem Mapped.userByte {a : Nat} (h : Mapped root taken s s')
    (hpool : PoolOk s.pool) (hlast : lastFrame taken (vpn a) = some page) :
    userByte s'.mem (root * PAGE_SIZE) a = some (s.mem (page + a % PAGE_SIZE)) := by
  obtain ⟨va, _, hmem⟩ := mem_of_lastFrame hlast
  obtain ⟨halign, hsmall⟩ := hpool.frame page (h.free va page hmem)
  have hfound :
      lookup (tables s'.mem) root (path a) = some (.page page true true false true, []) := by
    rw [h.finds a, hlast]
  have hframe : (page + a % PAGE_SIZE) / PAGE_SIZE = page / PAGE_SIZE := by
    unfold PAGE_SIZE at *
    omega
  simp only [Sv39.userByte, translate_page hfound, translation_page halign hsmall, if_true]
  rw [h.bytes va page hmem _ hframe]

def Kernel.withMemory (k : Kernel) (m : Memory) : Kernel :=
  { k with phys := { k.phys with mem := m } }

theorem vpn_mul_add {v off : Nat} (hv : v < 2 ^ 27) (hoff : off < PAGE_SIZE) :
    vpn (v * PAGE_SIZE + off) = v ∧ (v * PAGE_SIZE + off) % PAGE_SIZE = off := by
  unfold vpn PAGE_SIZE at *
  omega

/-- One byte of memory was used before. -/
def usedMemory (used : Nat) : Memory := fun a => if a = used then 1 else 0

theorem heapKernel_agree (used : Nat)
    (hused : ∃ p ∈ frames heapKernel.phys.pool, p / PAGE_SIZE = used / PAGE_SIZE) :
    AgreeOutside (fun _ => False) heapKernel.phys
      (heapKernel.withMemory (usedMemory used)).phys := by
  refine ⟨rfl, fun a _ hfree => if_neg ?_⟩
  rintro rfl
  obtain ⟨p, hp, hframe⟩ := hused
  exact hfree p hp hframe

end TrainOS.Sv39
