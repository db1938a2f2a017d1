import TrainOS.FreshMemory
import TrainOS.WritableExecutable

/-!
# Frames of the memory system calls

`mmap` and `brk` take a frame for every page they map, and no frame is ever returned: not by
`munmap` or a shrinking `brk`, not when a page is mapped over, not when a walk fails.  Frames
and pages stay in balance exactly along the runs that do none of these to pages of their own
(`frames_balanced`).
-/

namespace TrainOS.Sv39

open ByteMemory List RadixTable Runs

/-! ### The account -/

def userFrame (m : Memory) (root v : Nat) : Option Nat :=
  match translate m (root * PAGE_SIZE) (v * PAGE_SIZE) with
  | some t => if t.u then some t.pa else none
  | none => none

/-- The page is mapped to one of the frames. -/
def Held (m : Memory) (root : Nat) (F : List Nat) (v : Nat) : Prop :=
  ∃ f ∈ F, userFrame m root v = some f

instance (m : Memory) (root : Nat) (F : List Nat) : DecidablePred (Held m root F) :=
  fun _ => inferInstanceAs (Decidable (∃ f ∈ F, _))

/-- The number of pages of the process that are mapped to one of the frames. -/
def pagesHeld (m : Memory) (root : Nat) (F : List Nat) : Nat :=
  ((Finset.range (2 ^ 27)).filter (Held m root F)).card

def MemCall.taken (seals : Table MemSeal MAX_SEALS) (pid : Nat) (k : Kernel) (c : MemCall) :
    List Nat :=
  match c.work seals pid k with
  | .map ptRoot vas => (freshFrames ptRoot vas k.phys).map Prod.snd
  | _ => []

/-- One call, with the frames that the calls have taken so far; none is given back. -/
def AccountStep (seals : Table MemSeal MAX_SEALS) (pid : Nat) (before : Kernel × List Nat)
    (c : MemCall) (after : Kernel × List Nat) : Prop :=
  after = ((c.run seals pid before.1).2, before.2 ++ c.taken seals pid before.1)

/-! ### Runs without a loss -/

/-- As long as the allocator has a frame for the next page, the page is not mapped to a
    frame of the account, and the walk to its entry succeeds. -/
def LosslessPages (root : Nat) : List Nat → List Nat → Phys → Prop
  | _, [], _ => True
  | F, va :: vas, s =>
      match s.allocPage with
      | (none, _) => True
      | (some page, s1) =>
          ¬ Held s.mem root F (vpn va) ∧ (walkProcessPt s1 (root * PAGE_SIZE) va true).1.isSome ∧
            LosslessPages root (F ++ [page]) vas
              (mapUserPage s1 (root * PAGE_SIZE) va page true true).2

/-- The call loses no frame of the account. -/
def Lossless (seals : Table MemSeal MAX_SEALS) (pid root : Nat) (a : Kernel × List Nat)
    (c : MemCall) : Prop :=
  match c.work seals pid a.1 with
  | .nothing => True
  | .map _ vas => LosslessPages root a.2 vas a.1.phys
  | .unmap _ vas => ∀ va ∈ vas, ¬ Held a.1.phys.mem root a.2 (vpn va)

/-- No user page is mapped to a free frame. -/
def NoDangling (s : Phys) (root : Nat) : Prop :=
  ∀ v f, v < 2 ^ 27 → userFrame s.mem root v = some f →
    ∀ p ∈ frames s.pool, p / PAGE_SIZE ≠ f / PAGE_SIZE

/-- The frames of the account are pages of the process, one each. -/
structure Accounted (ok : PTE → Prop) (root : Nat) (s : Phys) (own : Own) (F : List Nat) :
    Prop where
  tree : Tree ok s own
  root_own : own root = some (root, [])
  nodup : F.Nodup
  frame : ∀ f ∈ F, f % PAGE_SIZE = 0 ∧ Foreign s own (f / PAGE_SIZE)
  mapped : ∀ f ∈ F, ∃ v < 2 ^ 27, userFrame s.mem root v = some f
  unique : ∀ f ∈ F, ∀ v < 2 ^ 27, ∀ w < 2 ^ 27, userFrame s.mem root v = some f →
    userFrame s.mem root w = some f → v = w
  dangling : NoDangling s root

variable {ok : PTE → Prop} {root : Nat} {s s' s1 s2 : Phys} {own own' : Own} {F : List Nat}

theorem Accounted.balanced (h : Accounted ok root s own F) : F.length = pagesHeld s.mem root F := by
  rw [← toFinset_card_of_nodup h.nodup, pagesHeld]
  symm
  apply Finset.card_nbij fun v => (userFrame s.mem root v).getD 0
  · intro v hv
    obtain ⟨f, hf, hframe⟩ := (Finset.mem_filter.mp hv).2
    simpa [hframe] using hf
  · intro v hv w hw heq
    obtain ⟨hv27, f, hf, hframe⟩ := Finset.mem_filter.mp hv
    obtain ⟨hw27, g, hg, hframe'⟩ := Finset.mem_filter.mp hw
    simp only [hframe, hframe', Option.getD_some] at heq
    subst heq
    exact h.unique f hf v (Finset.mem_range.mp hv27) w (Finset.mem_range.mp hw27) hframe hframe'
  · intro f hf
    have hf' : f ∈ F := by simpa using hf
    obtain ⟨v, hv, hframe⟩ := h.mapped f hf'
    refine ⟨v, Finset.mem_filter.mpr ⟨Finset.mem_range.mpr hv, f, hf', hframe⟩, ?_⟩
    simp [hframe]

/-! ### One page -/

variable {v va page : Nat}

theorem vpn_mul (hv : v < 2 ^ 27) : vpn (v * PAGE_SIZE) = v := by
  unfold vpn PAGE_SIZE
  omega

theorem vpn_lt (va : Nat) : vpn va < 2 ^ 27 := Nat.mod_lt _ (by decide)

theorem Effect.userFrame_same (h : Effect ok (atPage root va) s s' own own')
    (hroot : own root = some (root, [])) (hv : v < 2 ^ 27) (hne : v ≠ vpn va) :
    userFrame s'.mem root v = userFrame s.mem root v := by
  have hpages : Effect ok (atPages root [va]) s s' own own' :=
    h.mono fun r p hat => ⟨va, mem_cons_self, hat⟩
  unfold userFrame
  rw [hpages.translate_same hroot]
  intro va' hva' heq
  obtain rfl := mem_singleton.mp hva'
  exact hne ((vpn_mul hv).symm.trans heq.symm)

variable {vas : List Nat}

section

variable (h : Accounted ok root s own F)
include h

/-- A fresh page is one more in the account. -/
theorem Accounted.map (halloc : s.allocPage = (some page, s1)) (hnew : ¬ Held s.mem root F (vpn va))
    (hmap : mapUserPage s1 (root * PAGE_SIZE) va page true true = (.ok (), s2)) :
    ∃ own2, Accounted ok root s2 own2 (F ++ [page]) := by
  have hfree := mem_of_allocPage halloc
  obtain ⟨halign, hsmall⟩ := h.tree.pool.frame page hfree
  have htaken : Effect ok nowhere s s1 own own := allocPage_effect h.tree halloc
  have hforeign := allocPage_foreign h.tree halloc
  obtain ⟨own2, heff, -, hfound⟩ := mapWith_effect htaken.tree h.root_own hmap
  have hpage : userFrame s2.mem root (vpn va) = some page := by
    have hl := hfound rfl
    rw [← path_eq_iff.mpr (vpn_mul (vpn_lt va))] at hl
    simp [userFrame, translate_page hl, translation_page halign hsmall, Nat.mul_mod_left]
  have hsame : ∀ v < 2 ^ 27, v ≠ vpn va → userFrame s2.mem root v = userFrame s.mem root v := by
    intro v hv hne
    rw [heff.userFrame_same h.root_own hv hne, allocPage_mem halloc]
  have hback : ∀ v < 2 ^ 27, ∀ f, userFrame s2.mem root v = some f →
      v = vpn va ∧ f = page ∨ v ≠ vpn va ∧ userFrame s.mem root v = some f := by
    intro v hv f hframe
    by_cases heq : v = vpn va
    · rw [heq, hpage] at hframe
      exact .inl ⟨heq, (Option.some.inj hframe).symm⟩
    · exact .inr ⟨heq, (hsame v hv heq) ▸ hframe⟩
  -- the new frame is in no page yet and not in the account
  have hunused : ∀ v < 2 ^ 27, userFrame s.mem root v ≠ some page :=
    fun v hv hframe => h.dangling v page hv hframe page hfree rfl
  have hout : page ∉ F := fun hF => (h.frame page hF).2.2 page hfree rfl
  refine ⟨own2, heff.tree, heff.keep _ _ h.root_own, ?_, ?_, ?_, ?_, ?_⟩
  · refine nodup_append.mpr ⟨h.nodup, nodup_singleton page, ?_⟩
    rintro f hf g hg rfl
    exact hout (mem_singleton.mp hg ▸ hf)
  · intro f hf
    rcases mem_append.mp hf with hf | hf
    · exact ⟨(h.frame f hf).1, heff.foreign_of (htaken.foreign_of (h.frame f hf).2)⟩
    · obtain rfl := mem_singleton.mp hf
      exact ⟨halign, heff.foreign_of hforeign⟩
  · intro f hf
    rcases mem_append.mp hf with hf | hf
    · obtain ⟨v, hv, hframe⟩ := h.mapped f hf
      refine ⟨v, hv, (hsame v hv ?_).trans hframe⟩
      rintro rfl
      exact hnew ⟨f, hf, hframe⟩
    · obtain rfl := mem_singleton.mp hf
      exact ⟨vpn va, vpn_lt va, hpage⟩
  · intro f hf v hv w hw hframe hframe'
    rcases hback v hv f hframe with ⟨rfl, rfl⟩ | ⟨-, hold⟩
    · rcases hback w hw f hframe' with ⟨rfl, -⟩ | ⟨-, hold'⟩
      · rfl
      · exact absurd hold' (hunused w hw)
    · rcases hback w hw f hframe' with ⟨-, rfl⟩ | ⟨-, hold'⟩
      · exact absurd hold (hunused v hv)
      · have hmem : f ∈ F := by
          rcases mem_append.mp hf with hf | hf
          · exact hf
          · exact absurd (mem_singleton.mp hf ▸ hold) (hunused v hv)
        exact h.unique f hmem v hv w hw hold hold'
  · intro v f hv hframe p hp
    rcases hback v hv f hframe with ⟨-, rfl⟩ | ⟨-, hold⟩
    · exact (heff.foreign_of hforeign).2 p hp
    · exact h.dangling v f hv hold p (frames_subset_of_suffix (heff.pool.trans htaken.pool) p hp)

/-- Unmapping a page outside the account keeps it. -/
theorem Accounted.unmap (hnew : ¬ Held s.mem root F (vpn va)) :
    Accounted ok root (unmapUserPage s (root * PAGE_SIZE) va) own F ∧
      ∀ v < 2 ^ 27, Held (unmapUserPage s (root * PAGE_SIZE) va).mem root F v →
        Held s.mem root F v := by
  obtain ⟨heff, hcase⟩ := unmapUserPage_effect h.tree h.root_own va
  generalize unmapUserPage s (root * PAGE_SIZE) va = s' at *
  have hsame : ∀ v < 2 ^ 27, v ≠ vpn va → userFrame s'.mem root v = userFrame s.mem root v :=
    fun v hv hne => heff.userFrame_same h.root_own hv hne
  have hback : ∀ v < 2 ^ 27, ∀ f, userFrame s'.mem root v = some f →
      userFrame s.mem root v = some f := by
    intro v hv f hframe
    by_cases heq : v = vpn va
    · rcases hcase with hnone | ⟨rfl, -⟩
      · have hpath : path (v * PAGE_SIZE) = path va := path_eq_iff.mpr ((vpn_mul hv).trans heq)
        rw [← hpath] at hnone
        simp only [userFrame, translate_none.mpr hnone] at hframe
        cases hframe
      · exact hframe
    · exact (hsame v hv heq) ▸ hframe
  refine ⟨⟨heff.tree, h.root_own, h.nodup, ?_, ?_, ?_, ?_⟩, ?_⟩
  · exact fun f hf => ⟨(h.frame f hf).1, heff.foreign_of (h.frame f hf).2⟩
  · intro f hf
    obtain ⟨v, hv, hframe⟩ := h.mapped f hf
    refine ⟨v, hv, (hsame v hv ?_).trans hframe⟩
    rintro rfl
    exact hnew ⟨f, hf, hframe⟩
  · exact fun f hf v hv w hw hframe hframe' =>
      h.unique f hf v hv w hw (hback v hv f hframe) (hback w hw f hframe')
  · exact fun v f hv hframe p hp =>
      h.dangling v f hv (hback v hv f hframe) p (frames_subset_of_suffix heff.pool p hp)
  · rintro v hv ⟨f, hf, hframe⟩
    exact ⟨f, hf, hback v hv f hframe⟩

/-! ### The loops of a call -/

theorem Accounted.unmapPages (hnew : ∀ va ∈ vas, ¬ Held s.mem root F (vpn va)) :
    Accounted ok root (unmapPages (root * PAGE_SIZE) vas s) own F := by
  induction vas generalizing s with
  | nil => exact h
  | cons va vas ih =>
    obtain ⟨hfirst, hback⟩ := h.unmap (hnew va mem_cons_self)
    apply ih hfirst
    intro va' hva' hheld
    exact hnew va' (mem_cons_of_mem va hva') (hback _ (vpn_lt va') hheld)

theorem Accounted.allocPage {res : Option Nat} (halloc : s.allocPage = (res, s1)) :
    Accounted ok root s1 own F := by
  have htaken : Effect ok nowhere s s1 own own := allocPage_effect h.tree halloc
  have hmem := allocPage_mem halloc
  constructor
  case tree => exact htaken.tree
  case root_own => exact h.root_own
  case nodup => exact h.nodup
  case frame => exact fun f hf => ⟨(h.frame f hf).1, htaken.foreign_of (h.frame f hf).2⟩
  case mapped => simpa only [hmem] using h.mapped
  case unique => simpa only [hmem] using h.unique
  case dangling =>
    intro v f hv hframe p hp
    rw [hmem] at hframe
    exact h.dangling v f hv hframe p (frames_subset_of_suffix htaken.pool p hp)

end

theorem mapUserPage_of_walk {r w : Bool}
    (h : (walkProcessPt s root va true).1.isSome) :
    (mapUserPage s root va page r w).1 = .ok () := by
  unfold mapUserPage mapWith
  rcases hwalk : walkProcessPt s root va true with ⟨_ | slot, s1⟩
  · rw [hwalk] at h
    cases h
  · rfl

theorem Accounted.mapFreshPages {res : Except String Unit}
    (h : Accounted ok root s own F) (hclean : LosslessPages root F vas s)
    (hrun : forEach (mapFreshPage (root * PAGE_SIZE)) vas s = (res, s')) :
    ∃ own', Accounted ok root s' own'
      (F ++ (freshFrames (root * PAGE_SIZE) vas s).map Prod.snd) := by
  induction vas generalizing s own F with
  | nil =>
    cases hrun
    exact ⟨own, by simpa [freshFrames] using h⟩
  | cons va vas ih =>
    rcases halloc : s.allocPage with ⟨_ | page, s1⟩
    · simp only [forEach, mapFreshPage, halloc] at hrun
      cases hrun
      refine ⟨own, ?_⟩
      simpa [freshFrames, halloc] using h.allocPage halloc
    · simp only [LosslessPages, halloc] at hclean
      obtain ⟨hnew, hwalk, hrest⟩ := hclean
      rcases hmap : mapUserPage s1 (root * PAGE_SIZE) va page true true with ⟨res1, s2⟩
      obtain rfl : res1 = .ok () := by
        rw [← mapUserPage_of_walk hwalk, hmap]
      rw [hmap] at hrest
      obtain ⟨own2, h2⟩ := h.map halloc hnew hmap
      simp only [forEach, mapFreshPage, halloc, hmap] at hrun
      obtain ⟨own', h'⟩ := ih h2 hrest hrun
      refine ⟨own', ?_⟩
      rw [freshFrames_cons halloc hmap]
      simpa using h'

/-! ### Runs -/

variable {seals : Table MemSeal MAX_SEALS} {pid : Nat} {k k' : Kernel}

theorem Accounted.step {c : MemCall} (h : Accounted ok root k.phys own F)
    (hproc : k.getPageTableRoot pid = some (root * PAGE_SIZE))
    (hclean : Lossless seals pid root (k, F) c) :
    ∃ own', Accounted ok root (c.run seals pid k).2.phys own' (F ++ c.taken seals pid k) := by
  obtain ⟨hon, hphys, -, -⟩ : (c.work seals pid k).Done k pid (c.run seals pid k) := c.done
  rw [hphys]
  unfold Lossless at hclean
  unfold MemCall.taken
  revert hclean hon
  generalize c.work seals pid k = work
  rintro hclean (_ | hroot | hroot)
  · exact ⟨own, by simpa [Work.exec] using h⟩
  · cases hroot.symm.trans hproc
    exact h.mapFreshPages hclean rfl
  · cases hroot.symm.trans hproc
    exact ⟨own, by simpa [Work.exec] using h.unmapPages hclean⟩

/-- **Balance.**  Along calls that lose no frame, the frames that they have taken and not
    given back are as many as the pages that they have left mapped. -/
theorem frames_balanced {calls : List MemCall} (htable : TableOf ok k pid root own)
    (hdangling : NoDangling k.phys root)
    (hrun : Run (Guarded (AccountStep seals pid) (Lossless seals pid root)) (k, []) calls (k', F)) :
    F.length = pagesHeld k'.phys.mem root F := by
  have hstart : Accounted ok root k.phys own [] :=
    ⟨htable.tree, htable.root_own, nodup_nil, by simp, by simp, by simp, hdangling⟩
  obtain ⟨-, own', hend⟩ : k'.processes = k.processes ∧ ∃ own, Accounted ok root k'.phys own F := by
    refine hrun.invariant (P := fun a => a.1.processes = k.processes ∧
      ∃ own, Accounted ok root a.1.phys own a.2) ?_ ⟨rfl, own, hstart⟩
    rintro ⟨k1, F1⟩ c _ ⟨hprocs, own1, hacc⟩ ⟨hclean, rfl⟩
    have hproc : k1.getPageTableRoot pid = some (root * PAGE_SIZE) := by
      unfold Kernel.getPageTableRoot
      rw [hprocs]
      exact htable.proc
    exact ⟨c.done.processes.trans hprocs, hacc.step hproc hclean⟩
  exact hend.balanced

variable {K : List (Fin 512) → Found} {kr t f : Nat}

theorem KernelInv.dataFrame (h : KernelInv K kr k own) (ht : k.roots t)
    (hframe : userFrame k.phys.mem t v = some f) : DataFrame k.phys own kr (f / PAGE_SIZE) := by
  rw [userFrame, translate_eq_lookup] at hframe
  cases hl : lookup (Sv39.tables k.phys.mem) t (path (v * PAGE_SIZE)) with
  | none => simp [hl] at hframe
  | some l =>
    obtain ⟨e, rest⟩ := l
    simp only [hl, Option.map_some] at hframe
    cases h.tables.leaves t ht _ e rest rfl hl with
    | kernel hk =>
      -- the kernel's own pages are not the user's
      have huser := (h.tables.kernel_leaf rfl hk).2
      simp [PTE.translation, huser] at hframe
    | page hrest _ hd =>
      subst hrest
      split at hframe
      · cases hframe
        rwa [← (pa_of_page e (v * PAGE_SIZE)).1] at hd
      · cases hframe

theorem KernelInv.noDangling (h : KernelInv K kr k own) (ht : k.roots t) : NoDangling k.phys t :=
  fun _ _ _ hframe => (h.dataFrame ht hframe).foreign.2

/-- **Frames of user code.**  In every state that the kernel reaches from boot through safe
    events, a page of user code is in a frame that is not free and is no table, neither of the
    kernel nor of any process. -/
theorem user_frames_apart {kernelRoot : Nat} {k0 : Kernel} {calls : List KernelCall}
    (hpool : PoolOk s.pool) (hboot : bootKernel s = some (kernelRoot, k0))
    (hrun : Run (Guarded (KernelStep kernelRoot) (SafeCall kernelRoot)) k0 calls k)
    (ht : k.roots t) (hframe : userFrame k.phys.mem t v = some f) :
    (∀ p ∈ frames k.phys.pool, p / PAGE_SIZE ≠ f / PAGE_SIZE) ∧
      ¬ KernelFrame k.phys.mem (kernelRoot / PAGE_SIZE) (f / PAGE_SIZE) ∧
      ∀ t', k.roots t' → ∀ q, q.length < 3 →
        frameAt (Sv39.tables k.phys.mem) t' q ≠ some (f / PAGE_SIZE) := by
  obtain ⟨kr, K, rfl, hstart, _⟩ := bootKernel_inv hpool hboot
  obtain ⟨own, h⟩ := hstart.run hrun
  have hd := h.dataFrame ht hframe
  rw [Nat.mul_div_cancel _ (by decide)]
  refine ⟨hd.foreign.2, hd.apart, fun t' ht' q hq hreach => ?_⟩
  have howned := h.tables.tree.owned.frameAt (h.tables.root_own t' ht') (by simpa) hreach
  rw [hd.foreign.1] at howned
  cases howned

/-- The page of code of a process that was spawned after boot. -/
theorem user_frames_apart_code : ∃ kernelRoot k t f, Kernel.roots k t ∧
    userFrame k.phys.mem t 0x40000 = some f ∧
      (∀ p ∈ frames k.phys.pool, p / PAGE_SIZE ≠ f / PAGE_SIZE) ∧
      ¬ KernelFrame k.phys.mem (kernelRoot / PAGE_SIZE) (f / PAGE_SIZE) ∧
      ∀ t', k.roots t' → ∀ q, q.length < 3 →
        frameAt (Sv39.tables k.phys.mem) t' q ≠ some (f / PAGE_SIZE) := by
  have hpool : PoolOk (framePool 0x80100 1100) := poolOk_framePool (by decide)
  obtain ⟨kernelRoot, k0, hboot, _, _, hs⟩ :=
    HasFrames.bootKernel (s := { mem := fun _ => 0, pool := framePool 0x80100 1100 }) (n := 1097)
      (hasFrames_framePool _ _)
  obtain ⟨_, _, _, _, t, k, _, _, hspawn, _, hproc, hcode⟩ := spawn_code (n := 577) hpool hboot hs
  have ht : k.roots t := ⟨⟨k0.nextPid, t * PAGE_SIZE⟩, by simp [hproc], rfl⟩
  have hframe : ∃ f, userFrame k.phys.mem t 0x40000 = some f := by
    have htranslate := translate_eq_lookup k.phys.mem t (0x40000 * PAGE_SIZE)
    rw [show path (0x40000 * PAGE_SIZE) = path 0x40000000 from rfl, hcode] at htranslate
    unfold userFrame
    simp [htranslate, PTE.translation, (PTE.flags_page _ true false true true).2.2.2.2.1]
  obtain ⟨f, hf⟩ := hframe
  exact ⟨kernelRoot, k, t, f, ht, hf,
    user_frames_apart hpool hboot (.cons hspawn (.nil _)) ht hf⟩

/-! ### A heap that grows and shrinks -/

theorem heapKernel_unmapped (v : Nat) : userFrame heapKernel.phys.mem 1 v = none := by
  have hnone : lookup (tables heapKernel.phys.mem) 1 (path (v * PAGE_SIZE)) = none :=
    lookup_empty _ (tables_zero 1 _)
  simp only [userFrame, translate_none.mpr hnone]

/-- The heap grows by one page. -/
theorem frames_balanced_heap :
    ∃ k' F, Run (AccountStep .empty 7) (heapKernel, []) [.brk 0x401000] (k', F) ∧
      F.length = pagesHeld k'.phys.mem 1 F := by
  obtain ⟨own, htable⟩ := heapKernel_tableOf
  have hdangling : NoDangling heapKernel.phys 1 := by
    intro v f _ hframe
    rw [heapKernel_unmapped] at hframe
    cases hframe
  have hwork : (MemCall.brk 0x401000).work .empty 7 heapKernel =
      .map (1 * PAGE_SIZE) [0x400000] := by decide +kernel
  have hclean : Lossless .empty 7 1 (heapKernel, []) (.brk 0x401000) := by
    unfold Lossless
    simp only [hwork]
    exact ⟨by simp [Held], by decide +kernel, trivial⟩
  exact ⟨_, _, .cons rfl (.nil _), frames_balanced htable hdangling (.cons ⟨hclean, rfl⟩ (.nil _))⟩

/-- When the heap shrinks again, the frame of the page is lost. -/
theorem frame_lost :
    ∃ k' F, Run (AccountStep .empty 7) (heapKernel, []) [.brk 0x401000, .brk 0x400000] (k', F) ∧
      F.length = 1 ∧ pagesHeld k'.phys.mem 1 F = 0 := by
  obtain ⟨own, htable⟩ := heapKernel_tableOf
  obtain ⟨own1, htable1, heff1⟩ := htable.effect .empty (.brk 0x401000)
  obtain ⟨own2, -, heff2⟩ := htable1.effect .empty (.brk 0x400000)
  have hpages1 : ((MemCall.brk 0x401000).work .empty 7 heapKernel).pages = [0x400000] := by
    decide +kernel
  have hpages2 : ((MemCall.brk 0x400000).work .empty 7
      ((MemCall.brk 0x401000).run .empty 7 heapKernel).2).pages = [0x400000] := by decide +kernel
  rw [hpages1] at heff1
  rw [hpages2] at heff2
  refine ⟨_, _, .cons rfl (.cons rfl (.nil _)), by decide +kernel, ?_⟩
  refine Finset.card_eq_zero.mpr (Finset.filter_eq_empty_iff.mpr ?_)
  rintro v hv ⟨f, -, hframe⟩
  by_cases heq : v = vpn 0x400000
  · have hcleared : userFrame ((MemCall.brk 0x400000).run .empty 7
        ((MemCall.brk 0x401000).run .empty 7 heapKernel).2).2.phys.mem 1 (vpn 0x400000) = none := by
      decide +kernel
    rw [heq, hcleared] at hframe
    cases hframe
  · have hne : ∀ va ∈ [0x400000], vpn va ≠ vpn (v * PAGE_SIZE) := by
      intro va hva
      rw [mem_singleton.mp hva, vpn_mul (Finset.mem_range.mp hv)]
      exact Ne.symm heq
    have hsame : userFrame ((MemCall.brk 0x400000).run .empty 7
        ((MemCall.brk 0x401000).run .empty 7 heapKernel).2).2.phys.mem 1 v =
          userFrame heapKernel.phys.mem 1 v := by
      unfold userFrame
      rw [heff2.translate_same htable1.root_own hne, heff1.translate_same htable.root_own hne]
    rw [hsame, heapKernel_unmapped] at hframe
    cases hframe

end TrainOS.Sv39
