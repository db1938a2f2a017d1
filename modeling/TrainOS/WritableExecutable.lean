import TrainOS.MemoryCalls
import TrainOS.OneSegment

/-!
# Writable or executable

In every state that the kernel reaches through safe events, no user page of a process is
both writable and executable.  The conditions are on loading, forking and sharing; `brk`,
`mmap`, `munmap`, page faults and user stores need none.  Without the condition on `fork`
the property is lost: an ordinary program with a read-execute segment has only to fork.
-/

namespace TrainOS.Sv39

open ByteMemory List MachineWord Option RadixTable Runs

/-- No user page of a process is both writable and executable. -/
def WritableXorExecutable (k : Kernel) : Prop :=
  ∀ proc ∈ k.processes, ∀ va t, translate k.phys.mem proc.pageTableRoot va = some t →
    ¬ (t.u = true ∧ t.w = true ∧ t.x = true)

/-- The condition on an event.  A loaded file maps none of its pages where the kernel has a
    mapping, and writable and executable ones only with bit 38 of the address clear; a
    process that forks has no page below `2 ^ 38` that is executable and also writable or
    dirty; a page is not shared at an address that the kernel maps. -/
def SafeCall (kernelRoot : Nat) (k : Kernel) : KernelCall → Prop
  | .spawn elf len =>
      ∀ headers, elfHeaders elf len = some headers → ∀ ph ∈ headers, ph.isLoaded = true →
        (∀ va ∈ ph.pages, translate k.phys.mem kernelRoot va = none ∧
          (ph.w = true → ph.x = true → va / 2 ^ 38 % 2 = 0)) ∧
        (ph.isCopied len = true → ∀ i < ph.pFilesz,
          translate k.phys.mem kernelRoot (wrapAdd ph.pVaddr i) = none)
  | .fork pid =>
      ∀ root, k.getPageTableRoot pid = some root → NoDirtyCode k.phys (root / PAGE_SIZE)
  | .shmMap _ _ vaddr => translate k.phys.mem kernelRoot vaddr = none
  | _ => True

/-! ### The invariant of the system -/

variable {s s' : Phys} {own own' : Own} {kr t : Nat} {K : List (Fin 512) → Found}
variable {R : Nat → Prop} {k k' : Kernel}

/-- The frames of the roots of all processes. -/
def Kernel.roots (k : Kernel) : Nat → Prop :=
  fun t => ∃ proc ∈ k.processes, proc.pageTableRoot = t * PAGE_SIZE

structure KernelInv (K : List (Fin 512) → Found) (kr : Nat) (k : Kernel) (own : Own) : Prop where
  aligned : ∀ proc ∈ k.processes, ∃ t, proc.pageTableRoot = t * PAGE_SIZE
  stack : K (path STACK_BOTTOM) = none
  tables : TablesInv noWx K kr k.roots k.phys own

variable {pid va c len kernelRoot n : Nat}

section

variable (h : KernelInv K kr k own)
include h

theorem KernelInv.root_of_pid {root : Nat} (hroot : k.getPageTableRoot pid = some root) :
    ∃ t, root = t * PAGE_SIZE ∧ k.roots t := by
  obtain ⟨proc, hfind, rfl⟩ := map_eq_some_iff.mp hroot
  have hmem := mem_of_find?_eq_some hfind
  obtain ⟨t, ht⟩ := h.aligned proc hmem
  exact ⟨t, ht, proc, hmem, ht⟩

theorem KernelInv.phys (hs : TablesInv noWx K kr k.roots s own')
    (hproc : k'.processes = k.processes) (hphys : k'.phys = s) : KernelInv K kr k' own' := by
  have hroots : k'.roots = k.roots := by
    unfold Kernel.roots
    rw [hproc]
  refine ⟨?_, h.stack, ?_⟩
  · rw [hproc]
    exact h.aligned
  · rw [hroots, hphys]
    exact hs

theorem KernelInv.translate_kernel :
    translate k.phys.mem (kr * PAGE_SIZE) va = none ↔ K (path va) = none := by
  rw [translate_none, h.tables.finds]

end

/-! ### New processes -/

variable {Q : Nat → List (Fin 512) → PTE → Prop} {res : Except String Unit} {e : PTE} {pf : Nat}

theorem TablesInv.alloc_unwritten {page : Nat}
    (h : TablesInv Q K kr R s own) (halloc : s.allocPage = (some page, s')) :
    TablesInv Q K kr R s' own ∧ ∀ r w x u, DataFrame s' own kr (PTE.page page r w x u).ppn := by
  obtain ⟨_, hmem, hwritten⟩ := h.alloc_some halloc
  exact hwritten s'.mem fun a _ => by rw [hmem]

section

variable (h : KernelInv K kr k own) {res : Option Nat}
include h

theorem KernelInv.addProcess (hs : TablesInv noWx K kr (fun t => k.roots t ∨ t = c) s own')
    (hrun : addProcess k s pid (c * PAGE_SIZE) = (res, k')) : KernelInv K kr k' own' := by
  unfold Sv39.addProcess at hrun
  rcases halloc : s.allocPage with ⟨_ | kstack, s1⟩
  · rw [halloc] at hrun
    cases hrun
    have hold : TablesInv noWx K kr k.roots s own' :=
      hs.mono (fun _ ht => .inl ht) fun _ _ _ _ _ _ hno => hno
    exact h.phys (hold.alloc_none halloc) rfl rfl
  · rw [halloc] at hrun
    cases hrun
    obtain ⟨h1, _⟩ := hs.alloc_unwritten halloc
    refine ⟨?_, h.stack, ?_⟩
    · exact forall_mem_append.mpr ⟨h.aligned, forall_mem_singleton.mpr ⟨c, rfl⟩⟩
    · refine h1.mono ?_ fun _ _ _ _ _ _ hno => hno
      rintro t ⟨proc, hproc, ht⟩
      rcases mem_append.mp hproc with hproc | hproc
      · exact .inl ⟨proc, hproc, ht⟩
      · rw [mem_singleton.mp hproc] at ht
        exact .inr (Nat.eq_of_mul_eq_mul_right (by decide) ht.symm)

theorem SafeCall.elf {elf : Memory}
    (hsafe : SafeCall (kr * PAGE_SIZE) k (.spawn elf len)) : ElfSafe K elf len := by
  intro headers hheaders ph hph hloaded
  obtain ⟨hpages, hcopied⟩ := hsafe headers hheaders ph hph hloaded
  constructor
  case pages => exact fun va hva => h.translate_kernel.mp (hpages va hva).1
  case copied => exact fun hc i hi => h.translate_kernel.mp (hcopied hc i hi)
  case low => exact fun hw hx va hva => (hpages va hva).2 hw hx

/-- A spawn keeps the invariant. -/
theorem KernelInv.spawn {elf : Memory} (hsafe : SafeCall (kr * PAGE_SIZE) k (.spawn elf len))
    (hrun : spawn (kr * PAGE_SIZE) elf len k = some (res, k')) :
    ∃ own', KernelInv K kr k' own' := by
  unfold Sv39.spawn at hrun
  rcases halloc : k.phys.allocPage with ⟨_ | root, s1⟩
  · rw [halloc] at hrun
    cases hrun
    exact ⟨own, h.phys (h.tables.alloc_none halloc) rfl rfl⟩
  rw [halloc] at hrun
  rcases hcopy : copyKernelMappings (kr * PAGE_SIZE) root s1 with _ | s2
  · simp only [hcopy] at hrun
    cases hrun
  simp only [hcopy] at hrun
  obtain ⟨c, own2, rfl, hc, _, h2⟩ := h.tables.newRoot halloc hcopy
  rcases hload : loadElf elf len (c * PAGE_SIZE) s2 with _ | ⟨loaded, s3⟩
  · simp only [hload] at hrun
    cases hrun
  obtain ⟨own3, hothers, hall⟩ := h2.loadElf hc h.stack (SafeCall.elf h hsafe) hload
  simp only [hload] at hrun
  cases loaded with
  | none =>
    cases hrun
    exact ⟨own3, h.phys hothers rfl rfl⟩
  | some entry =>
    have hk : KernelInv K kr k.takePid own := h.phys h.tables rfl rfl
    exact ⟨own3, hk.addProcess (hall (by simp)) (some.inj hrun)⟩

/-- A fork keeps the invariant. -/
theorem KernelInv.fork {res : Except String Nat} (hsafe : SafeCall (kr * PAGE_SIZE) k (.fork pid))
    (hrun : sysFork (kr * PAGE_SIZE) pid k = some (res, k')) : ∃ own', KernelInv K kr k' own' := by
  unfold sysFork at hrun
  rcases hroot : k.getPageTableRoot pid with _ | root
  · rw [hroot] at hrun
    cases hrun
    exact ⟨own, h⟩
  rw [hroot] at hrun
  obtain ⟨pf, rfl, hpf⟩ := h.root_of_pid hroot
  have hdirty := hsafe _ hroot
  rw [frame_div pf] at hdirty
  rcases hfork : forkPageTable (kr * PAGE_SIZE) (pf * PAGE_SIZE) k.phys with _ | ⟨forked, s1⟩
  · simp only [hfork] at hrun
    cases hrun
  simp only [hfork] at hrun
  obtain ⟨own1, hothers, hall⟩ := h.tables.fork hpf hdirty hfork
  cases forked with
  | error err =>
    cases hrun
    exact ⟨own1, h.phys hothers rfl rfl⟩
  | ok childPt =>
    obtain ⟨c, rfl, h1⟩ := hall childPt rfl
    have hk : KernelInv K kr k.takePid own := h.phys h.tables rfl rfl
    rcases hadd : Sv39.addProcess k.takePid s1 k.nextPid (c * PAGE_SIZE) with ⟨added, k1⟩
    simp only [hadd] at hrun
    have hk1 := hk.addProcess h1 hadd
    cases added <;> cases hrun <;> exact ⟨own1, hk1⟩

end

/-! ### Mapping, unmapping, sharing -/

theorem noWx_data (t : Nat) (p : List (Fin 512)) (pa : Nat) (r w u : Bool) :
    noWx t p (.page pa r w false u) := by
  unfold noWx
  rw [PTE.isWx_page, Bool.and_false]

theorem TablesInv.mapFreshPage (h : TablesInv noWx K kr R s own) (ht : R t)
    (hrun : mapFreshPage (t * PAGE_SIZE) va s = (res, s')) :
    ∃ own', TablesInv noWx K kr R s' own' := by
  unfold Sv39.mapFreshPage at hrun
  rcases halloc : s.allocPage with ⟨_ | page, s1⟩
  · rw [halloc] at hrun
    cases hrun
    exact ⟨own, h.alloc_none halloc⟩
  · rw [halloc] at hrun
    obtain ⟨h1, hd⟩ := h.alloc_unwritten halloc
    exact h1.mapWith ht (hd _ _ _ _) (fun _ => noWx_data _ _ _ _ _ _) hrun

theorem TablesInv.mapFreshPages {vas : List Nat} (h : TablesInv noWx K kr R s own) (ht : R t)
    (hrun : forEach (Sv39.mapFreshPage (t * PAGE_SIZE)) vas s = (res, s')) :
    ∃ own', TablesInv noWx K kr R s' own' := by
  refine forEach_invariant (fun s => ∃ own, TablesInv noWx K kr R s own) ?_ ⟨own, h⟩ hrun
  rintro va _ s res s' ⟨own, hinv⟩ hpass
  exact hinv.mapFreshPage ht hpass

theorem TablesInv.unmapPages (vas : List Nat) (h : TablesInv Q K kr R s own) (ht : R t) :
    TablesInv Q K kr R (unmapPages (t * PAGE_SIZE) vas s) own :=
  foldlRecOn (motive := (TablesInv Q K kr R · own)) vas _ h fun _ hinv va _ => hinv.unmap ht va

/-- Work on the page table of a process, which `brk`, `mmap` and `munmap` amount to. -/
theorem KernelInv.work {w : Work} {out : Except String Nat × Kernel} (h : KernelInv K kr k own)
    (hdone : w.Done k pid out) : ∃ own', KernelInv K kr out.2 own' := by
  obtain ⟨hon, hphys, hprocs, -⟩ := hdone
  cases hon with
  | nothing => exact ⟨own, h.phys h.tables hprocs hphys⟩
  | map hroot =>
    obtain ⟨t, rfl, ht⟩ := h.root_of_pid hroot
    obtain ⟨own1, h1⟩ := h.tables.mapFreshPages ht rfl
    exact ⟨own1, h.phys h1 hprocs hphys⟩
  | unmap hroot =>
    obtain ⟨t, rfl, ht⟩ := h.root_of_pid hroot
    exact ⟨own, h.phys (h.tables.unmapPages _ ht) hprocs hphys⟩

theorem ppn_shared (e : PTE) (va : Nat) (r w x u : Bool) :
    (PTE.page (e.physAddr + va % PAGE_SIZE) r w x u).ppn = e.ppn := by
  have hlt := e.ppn_lt
  rw [physAddr_eq, PTE.ppn_page (by unfold PAGE_SIZE at *; omega), Nat.shiftRight_eq_div_pow]
  unfold PAGE_SIZE at *
  omega

/-- Sharing a page keeps the invariant. -/
theorem KernelInv.shmMap {callerPid targetPid vaddr : Nat} {res : Except String Nat}
    (h : KernelInv K kr k own)
    (hsafe : SafeCall (kr * PAGE_SIZE) k (.shmMap callerPid targetPid vaddr))
    (hrun : sysShmMap callerPid targetPid vaddr k = some (res, k')) :
    ∃ own', KernelInv K kr k' own' := by
  have hkernel := h.translate_kernel.mp hsafe
  unfold sysShmMap at hrun
  by_cases hself : callerPid = targetPid
  · rw [if_pos hself] at hrun
    cases hrun
    exact ⟨own, h⟩
  rw [if_neg hself] at hrun
  rcases hcaller : k.getPageTableRoot callerPid with _ | callerPt
  · rw [hcaller] at hrun
    cases hrun
    exact ⟨own, h⟩
  rcases htarget : k.getPageTableRoot targetPid with _ | targetPt
  · rw [hcaller, htarget] at hrun
    cases hrun
    exact ⟨own, h⟩
  rw [hcaller, htarget] at hrun
  obtain ⟨a, rfl, ha⟩ := h.root_of_pid hcaller
  obtain ⟨b, rfl, hb⟩ := h.root_of_pid htarget
  rcases hphys : virtToPhysInPt k.phys (a * PAGE_SIZE) vaddr with _ | phys
  · simp only [hphys] at hrun
    cases hrun
    exact ⟨own, h⟩
  simp only [hphys] at hrun
  obtain ⟨e, hl, rfl⟩ := virtToPhysInPt_page h.tables.tree (h.tables.root_own a ha)
    (h.tables.noSuperpage ha hkernel) hphys
  obtain ⟨_, _, hd⟩ := h.tables.small ha (path_length vaddr) hkernel hl
  rcases hmap : mapIntoPt k.phys (b * PAGE_SIZE) vaddr (e.physAddr + vaddr % PAGE_SIZE) true true
      false true with _ | s1
  · simp only [hmap] at hrun
    cases hrun
  simp only [hmap] at hrun
  cases hrun
  obtain ⟨own1, h1⟩ := h.tables.mapIntoPt hb hkernel (by rw [ppn_shared]; exact hd)
    (fun _ => noWx_data _ _ _ _ _ _) hmap
  exact ⟨own1, h.phys h1 rfl rfl⟩

/-! ### Page faults and stores -/

theorem walkPt_read (s : Phys) (root va : Nat) : walkPt s root va false = (none, s) ∨
      ∃ d i, walkPt s root va false = (some (d * PAGE_SIZE, i), s) := by
  have hfollow : ∀ table (j : Fin 512), followTable s table j false = (none, s) ∨
      followTable s table j false = (some (readPte s.mem table j).physAddr, s) := by
    intro table j
    unfold followTable
    cases (readPte s.mem table j).isValid <;> simp
  unfold walkPt
  rcases hfollow root (vpn2 va) with h2 | h2
  · rw [h2]
    exact .inl rfl
  · rw [h2]
    dsimp only
    rcases hfollow (readPte s.mem root (vpn2 va)).physAddr (vpn1 va) with h1 | h1
    · rw [h1]
      exact .inl rfl
    · rw [h1, physAddr_eq]
      exact .inr ⟨_, _, rfl⟩

section

variable (h : TablesInv Q K kr R s own)
include h

theorem TablesInv.not_cow {d : Nat} {i : Fin 512}
    (hcow : (readPte s.mem (d * PAGE_SIZE) i).isCow = true) :
    own d = none ∧ ¬ KernelFrame s.mem kr d := by
  constructor
  · rw [eq_none_iff_forall_ne_some]
    intro o ho
    have hplain : (readPte s.mem (d * PAGE_SIZE) i).isCow = false := h.tree.entries d o ho i
    rw [hcow] at hplain
    cases hplain
  · intro hframe
    have hplain : (readPte s.mem (d * PAGE_SIZE) i).isCow = false := by
      rcases hframe with rfl | ⟨j, hj⟩
      · exact (h.words i).1.2
      · exact ((h.words j).2 d hj i).2
    rw [hcow] at hplain
    cases hplain

theorem TablesInv.pageFault (root va sp : Nat) :
    TablesInv Q K kr R (pageFault root va sp s).2 own := by
  unfold Sv39.pageFault
  dsimp only
  split
  · exact h
  split
  · exact h
  rcases walkPt_read s root va with hwalk | ⟨d, i, hwalk⟩
  · rw [hwalk]
    exact h
  rw [hwalk]
  dsimp only
  by_cases hcow : (readPte s.mem (d * PAGE_SIZE) i).isCow = true
  · rw [if_pos hcow]
    obtain ⟨hown, hkernel⟩ := h.not_cow hcow
    generalize readPte s.mem (d * PAGE_SIZE) i = e
    rcases halloc : s.allocPage with ⟨_ | newPage, s2⟩
    · exact h.alloc_none halloc
    · rcases Phys.allocPage_cases halloc with ⟨hp, _⟩ | ⟨page, rest, hp, hpool, rfl⟩
      · cases hp
      cases hp
      obtain ⟨hpage, _, _, _⟩ := h.tree.next_frame hpool
      -- the word may be written first: the copy goes to another frame or over it
      dsimp only
      generalize PTE.page newPage true true e.isExecutable true = word
      have hword : TablesInv Q K kr R
          { s with mem := writePte s.mem (d * PAGE_SIZE) i word } own :=
        h.write_frame hown hkernel fun a ha => writePte_bytes ha
      refine (hword.take hpool ?_).1
      intro a ha
      apply writePte_congr
      rw [physAddr_eq, hpage]
      exact copy_bytes ha
  · rw [if_neg hcow]
    exact h

theorem TablesInv.userStore (ht : R t) (va : Nat) (v : UInt8) :
    TablesInv Q K kr R (userStore (t * PAGE_SIZE) va v s) own := by
  unfold Sv39.userStore
  rw [translate_eq_lookup]
  rcases hl : lookup (tables s.mem) t (path va) with _ | ⟨e, rest⟩
  · exact h
  simp only [map_some]
  split
  · rename_i huw
    have huser : e.isUser = true := (Bool.and_eq_true_iff.mp huw).1
    cases h.leaves t ht (path va) e rest rfl hl with
    | kernel hk =>
      have hsuper := (h.kernel_leaf rfl hk).2
      rw [huser] at hsuper
      cases hsuper
    | page hrest _ hd =>
      subst hrest
      refine h.write_frame hd.foreign.1 hd.apart ?_
      intro a ha
      apply store_of_ne
      rintro rfl
      exact ha (pa_of_page e va).1
  · exact h

end

/-! ### Where the property is lost -/

theorem not_writableXorExecutable {proc : Process} {pa : Nat} {r : Bool}
    (hproc : proc ∈ k.processes) (hroot : proc.pageTableRoot = c * PAGE_SIZE)
    (hl : lookup (tables k.phys.mem) c (path va) = some (.page pa r true true true, [])) :
    ¬ WritableXorExecutable k := by
  intro hwx
  have htr := translate_page hl
  rw [← hroot] at htr
  obtain ⟨_, _, hw, hx, hu, _⟩ := PTE.flags_page pa r true true true
  exact hwx proc hproc va _ htr ⟨hu, hw, hx⟩

theorem Forked.dirty_page (hf : Forked s kr pf c s' own) (hva : va < 2 ^ 38)
    (hl : lookup (tables s.mem) pf (path va) = some (e, []))
    (hdirty : (e.isWritable || e.isDirty) = true) : ∃ g, lookup (tables s'.mem) c (path va) =
      some (.page (g * PAGE_SIZE) true true e.isExecutable true, []) := by
  cases hf.user (path va) (path_length va) (path_user hva) with
  | unmapped hnone _ =>
    rw [hl] at hnone
    cases hnone
  | superpage hrest hparent _ =>
    rw [hl] at hparent
    exact absurd (Prod.mk.inj (some.inj hparent)).2.symm hrest
  | page hparent hchild hcopied =>
    cases hl.symm.trans hparent
    rcases hcopied with ⟨hclean, _⟩ | ⟨_, g, rfl, _⟩
    · rw [hdirty] at hclean
      cases hclean
    · exact ⟨g, hchild⟩

section

variable (h : KernelInv K kr k own)
include h

/-- **Forking dirty code.**  The condition on `fork` is needed: if the parent has an
    executable page below `2 ^ 38` that is writable or dirty, the child's copy of it is
    writable and executable. -/
theorem fork_of_dirty_code {childPid : Nat}
    (hroot : k.getPageTableRoot pid = some (pf * PAGE_SIZE)) (hva : va < 2 ^ 38)
    (hl : lookup (tables k.phys.mem) pf (path va) = some (e, [])) (hx : e.isExecutable = true)
    (hdirty : (e.isWritable || e.isDirty) = true)
    (hrun : sysFork (kr * PAGE_SIZE) pid k = some (.ok childPid, k')) :
    ¬ WritableXorExecutable k' := by
  obtain ⟨f, hf, hpf⟩ := h.root_of_pid hroot
  obtain rfl := Nat.eq_of_mul_eq_mul_right (by decide) hf
  unfold sysFork at hrun
  rw [hroot] at hrun
  rcases hfork : forkPageTable (kr * PAGE_SIZE) (pf * PAGE_SIZE) k.phys with _ | ⟨_ | childPt, s1⟩
  · simp only [hfork] at hrun
    cases hrun
  · simp only [hfork] at hrun
    cases hrun
  simp only [hfork] at hrun
  obtain ⟨c, own', _, hres⟩ := forkPageTable_effect (h.tables.forkable hpf) hfork
  obtain ⟨rfl, hforked⟩ := hres childPt rfl
  obtain ⟨g, hchild⟩ := hforked.dirty_page hva hl hdirty
  rw [hx] at hchild
  unfold addProcess at hrun
  rcases halloc : s1.allocPage with ⟨_ | kstack, s2⟩
  · simp only [halloc] at hrun
    cases hrun
  · simp only [halloc] at hrun
    cases hrun
    have hmem : s2.mem = s1.mem := by
      rcases Phys.allocPage_cases halloc with ⟨hnone, _⟩ | ⟨_, _, _, _, rfl⟩
      · cases hnone
      · rfl
    rw [← hmem] at hchild
    exact not_writableXorExecutable (mem_append_right _ mem_cons_self) rfl hchild

/-- **Loading above user space.**  The condition on bit 38 is needed: `force_wxorx` does not
    reach a writable and executable page with that bit set. -/
theorem spawn_of_high_page {elf : Memory} {ph : Elf64Phdr}
    (helf : OnePage elf len ph va) (hw : ph.w = true) (hx : ph.x = true)
    (hva : translate k.phys.mem (kr * PAGE_SIZE) va = none) (hhigh : va / 2 ^ 38 % 2 = 1)
    (hs : HasFrames k.phys.pool 520) :
    ∃ k', KernelStep (kr * PAGE_SIZE) k (.spawn elf len) k' ∧ ¬ WritableXorExecutable k' := by
  have hout : ¬ ∃ i ∈ userEntries, [i] <+: path va := by
    rw [path_user_iff, hhigh]
    decide
  have hne : path va ≠ path STACK_BOTTOM := by
    intro heq
    rw [heq] at hout
    exact hout (path_user (by decide))
  obtain ⟨pa, c, k', hrun, _, hproc, hfound⟩ := spawn_onePage (n := 0) helf h.tables
    (h.translate_kernel.mp hva) h.stack hne hs
  refine ⟨k', .spawn hrun, ?_⟩
  have hl := hfound (.inr hout)
  rw [hw, hx] at hl
  have hmem : ⟨k.nextPid, c * PAGE_SIZE⟩ ∈ k'.processes := by
    rw [hproc]
    exact mem_append_right _ mem_cons_self
  exact not_writableXorExecutable hmem rfl hl

/-! ### The result -/

theorem KernelInv.step {call : KernelCall} (hsafe : SafeCall (kr * PAGE_SIZE) k call)
    (hstep : KernelStep (kr * PAGE_SIZE) k call k') : ∃ own', KernelInv K kr k' own' := by
  cases hstep with
  | spawn hrun => exact h.spawn hsafe hrun
  | fork hrun => exact h.fork hsafe hrun
  | brk => exact h.work (sysBrk_done _)
  | mmap => exact h.work (sysMmap_done _ _ _ _)
  | munmap => exact h.work (sysMunmap_done _ _ _)
  | shmMap hrun => exact h.shmMap hsafe hrun
  | pageFault _ => exact ⟨own, h.phys (h.tables.pageFault _ _ _) rfl rfl⟩
  | store hproc =>
    obtain ⟨t, ht⟩ := h.aligned _ hproc
    rw [ht]
    exact ⟨own, h.phys (h.tables.userStore ⟨_, hproc, ht⟩ _ _) rfl rfl⟩

end

theorem bootKernel_inv (hpool : PoolOk s.pool) (hboot : bootKernel s = some (kernelRoot, k)) :
    ∃ kr K, kernelRoot = kr * PAGE_SIZE ∧ KernelInv K kr k (fun _ => none) ∧
      ∀ va, vpn2 va ∉ [vpn2 CLINT_BASE, vpn2 DRAM_BASE, vpn2 KERNEL_VBASE] →
        K (path va) = none := by
  obtain ⟨⟨root, sys⟩, hspaces, hk⟩ := map_eq_some_iff.mp hboot
  cases hk
  obtain ⟨kr, rfl, _, hpool', hkernel, hwords, hunused⟩ := boot_kernel hpool hspaces
  have hnone : ∀ va, vpn2 va ∉ [vpn2 CLINT_BASE, vpn2 DRAM_BASE, vpn2 KERNEL_VBASE] →
      lookup (tables sys.phys.mem) kr (path va) = none :=
    fun va hva => lookup_empty _ (hunused _ hva)
  refine ⟨kr, lookup (tables sys.phys.mem) kr, rfl, ⟨?_, hnone _ (by decide), ?_⟩, hnone⟩
  · intro proc hproc
    cases hproc
  · constructor
    case tree => exact .unowned entryRule_plain hpool'
    case kernel => exact hkernel
    case words => exact hwords
    case finds => exact fun _ => rfl
    all_goals
      rintro t ⟨proc, hproc, _⟩
      cases hproc

theorem KernelInv.run {calls : List KernelCall} (h : KernelInv K kr k own)
    (hrun : Run (Guarded (KernelStep (kr * PAGE_SIZE)) (SafeCall (kr * PAGE_SIZE))) k calls k') :
    ∃ own', KernelInv K kr k' own' := by
  apply hrun.invariant (P := fun k => ∃ own, KernelInv K kr k own)
  · rintro k1 call k2 ⟨own, hinv⟩ ⟨hsafe, hcall⟩
    exact hinv.step hsafe hcall
  · exact ⟨own, h⟩

theorem KernelInv.writableXorExecutable (h : KernelInv K kr k own) : WritableXorExecutable k := by
  intro proc hproc va t htr
  obtain ⟨f, hf⟩ := h.aligned proc hproc
  rw [hf, translate_eq_lookup] at htr
  obtain ⟨⟨e, rest⟩, hl, rfl⟩ := map_eq_some_iff.mp htr
  rintro ⟨hu, hw, hx⟩
  change e.isUser = true at hu
  change e.isWritable = true at hw
  change e.isExecutable = true at hx
  cases h.tables.leaves f ⟨proc, hproc, hf⟩ (path va) e rest rfl hl with
  | kernel hk =>
    have hsuper := (h.tables.kernel_leaf rfl hk).2
    rw [hu] at hsuper
    cases hsuper
  | page _ hno _ =>
    have hwx : e.isWx = true := by
      unfold PTE.isWx
      rw [hu, hw, hx]
      rfl
    rw [hno] at hwx
    cases hwx

def onePageElf (flags va : Nat) : Memory :=
  let m := writeLE (fun _ => 0) 0 4 0x464C457F
  let m := writeLE m 18 2 243
  let m := writeLE m 32 8 64
  let m := writeLE m 54 2 56
  let m := writeLE m 56 2 1
  let m := writeLE m 64 4 PT_LOAD
  let m := writeLE m 68 4 flags
  let m := writeLE m 80 8 va
  writeLE m 104 8 PAGE_SIZE

def codeElf : Memory := onePageElf (PF_R + PF_X) 0x40000000

def codeHeader : Elf64Phdr := ⟨PT_LOAD, PF_R + PF_X, 0, 0x40000000, 0, PAGE_SIZE⟩

theorem onePage_code : OnePage codeElf 120 codeHeader 0x40000000 := by
  constructor
  case headers => rfl
  all_goals rfl

theorem HasFrames.bootKernel (hs : HasFrames s.pool (n + 3)) :
    ∃ kernelRoot k0, bootKernel s = some (kernelRoot, k0) ∧ k0.processes = [] ∧ k0.nextPid = 1 ∧
      HasFrames k0.phys.pool n := by
  obtain ⟨kernelRoot, sys0, hboot, _, hs0⟩ := hs.bootSpaces
  unfold Sv39.bootKernel
  rw [hboot]
  exact ⟨kernelRoot, _, rfl, rfl, rfl, hs0⟩

theorem spawn_code {k0 : Kernel} (hpool : PoolOk s.pool)
    (hboot : bootKernel s = some (kernelRoot, k0)) (hs : HasFrames k0.phys.pool (n + 520)) :
    ∃ kr K own pa c k, kernelRoot = kr * PAGE_SIZE ∧ KernelInv K kr k own ∧
      Guarded (KernelStep kernelRoot) (SafeCall kernelRoot) k0 (.spawn codeElf 120) k ∧
      HasFrames k.phys.pool n ∧ k.processes = k0.processes ++ [⟨k0.nextPid, c * PAGE_SIZE⟩] ∧
      lookup (tables k.phys.mem) c (path 0x40000000) =
        some (.page pa true false true true, []) := by
  obtain ⟨kr, K, rfl, hinv, hnone⟩ := bootKernel_inv hpool hboot
  have hva : K (path 0x40000000) = none := hnone _ (by decide)
  obtain ⟨pa, c, k, hrun, hs', hproc, hfound⟩ :=
    spawn_onePage onePage_code hinv.tables hva hinv.stack (by decide) hs
  have hsafe : SafeCall (kr * PAGE_SIZE) k0 (.spawn codeElf 120) := by
    intro headers hheaders ph hph _
    rw [onePage_code.headers] at hheaders
    cases hheaders
    obtain rfl := mem_singleton.mp hph
    refine ⟨?_, ?_⟩
    · intro va hpage
      obtain rfl := mem_singleton.mp hpage
      exact ⟨hinv.translate_kernel.mpr hva, fun _ _ => by decide⟩
    · intro hcopied
      cases hcopied
  obtain ⟨own, hinv'⟩ := hinv.spawn hsafe hrun
  exact ⟨kr, K, own, pa, c, k, rfl, hinv', ⟨hsafe, .spawn hrun⟩, hs', hproc, hfound (.inl rfl)⟩

/-- **Writable or executable.**  In every state that the kernel reaches from boot through
    safe events, no user page of any process is both writable and executable. -/
theorem safe_runs_writable_xor_executable {kernelRoot : Nat} {k0 : Kernel}
    {calls : List KernelCall} (hpool : PoolOk s.pool) (hboot : bootKernel s = some (kernelRoot, k0))
    (hrun : Run (Guarded (KernelStep kernelRoot) (SafeCall kernelRoot)) k0 calls k) :
    WritableXorExecutable k := by
  obtain ⟨kr, K, rfl, hstart, _⟩ := bootKernel_inv hpool hboot
  obtain ⟨own, hinv⟩ := hstart.run hrun
  exact hinv.writableXorExecutable

theorem safe_runs_writable_xor_executable_code :
    ∃ kernelRoot k0 k1 k, bootKernel { mem := fun _ => 0, pool := framePool 0x80100 1100 } =
        some (kernelRoot, k0) ∧
      Run (Guarded (KernelStep kernelRoot) (SafeCall kernelRoot)) k0 [.spawn codeElf 120] k1 ∧
      k1.processes.length = 1 ∧
      Run (Guarded (KernelStep kernelRoot) (SafeCall kernelRoot)) k0
        [.spawn codeElf 120, .mmap 1 0 PAGE_SIZE false true, .brk 1 0x401000] k ∧
      WritableXorExecutable k := by
  have hpool : PoolOk (framePool 0x80100 1100) := poolOk_framePool (by decide)
  obtain ⟨kernelRoot, k0, hboot, hempty, _, hs0⟩ :=
    HasFrames.bootKernel (s := { mem := fun _ => 0, pool := framePool 0x80100 1100 }) (n := 1097)
      (hasFrames_framePool _ _)
  obtain ⟨_, _, _, _, c, k1, _, _, hspawn, _, hproc, _⟩ := spawn_code (n := 577) hpool hboot hs0
  have hmmap : Guarded (KernelStep kernelRoot) (SafeCall kernelRoot) k1
      (.mmap 1 0 PAGE_SIZE false true) (sysMmap 1 0 PAGE_SIZE false true k1).2 := ⟨trivial, .mmap⟩
  generalize (sysMmap 1 0 PAGE_SIZE false true k1).2 = k2 at hmmap
  have hbrk : Guarded (KernelStep kernelRoot) (SafeCall kernelRoot) k2
      (.brk 1 0x401000) (sysBrk 1 0x401000 k2).2 := ⟨trivial, .brk⟩
  have hrun := Run.cons hspawn (.cons hmmap (.cons hbrk (.nil _)))
  refine ⟨kernelRoot, k0, k1, _, hboot, .cons hspawn (.nil _), ?_, hrun, ?_⟩
  · rw [hproc, hempty]
    rfl
  · exact safe_runs_writable_xor_executable hpool hboot hrun

/-- The program forks, and the child's copy of its code is writable and executable. -/
theorem fork_breaks_writable_xor_executable :
    ∃ kernelRoot k0 k, bootKernel { mem := fun _ => 0, pool := framePool 0x80100 67241229 } =
        some (kernelRoot, k0) ∧
      Run (KernelStep kernelRoot) k0 [.spawn codeElf 120, .fork 1] k ∧
      ¬ WritableXorExecutable k := by
  have hpool : PoolOk (framePool 0x80100 67241229) := poolOk_framePool (by decide)
  obtain ⟨kernelRoot, k0, hboot, hempty, hpid, hs0⟩ := HasFrames.bootKernel
    (s := { mem := fun _ => 0, pool := framePool 0x80100 67241229 }) (n := 67241226)
    (hasFrames_framePool _ _)
  obtain ⟨kr, K, own, pa, c, k1, rfl, hinv, hspawn, hs1, hproc, hcode⟩ :=
    spawn_code (n := 67240706) hpool hboot hs0
  have hroot : k1.getPageTableRoot 1 = some (c * PAGE_SIZE) := by
    rw [Kernel.getPageTableRoot, hproc, hempty, hpid]
    rfl
  obtain ⟨childPt, s2, hfork, hs2⟩ :=
    HasFrames.forkPageTable (n := 1) hs1 (kr * PAGE_SIZE) (c * PAGE_SIZE)
  obtain ⟨k2, hadd, _⟩ := HasFrames.addProcess (n := 0) hs2 k1.takePid k1.nextPid childPt
  have hrun : sysFork (kr * PAGE_SIZE) 1 k1 = some (.ok k1.nextPid, k2) := by
    simp [sysFork, hroot, hfork, hadd]
  refine ⟨_, k0, k2, hboot, .cons hspawn.2 (.cons (.fork hrun) (.nil _)), ?_⟩
  obtain ⟨_, _, _, hx, _, hdirty⟩ := PTE.flags_page pa true false true true
  refine fork_of_dirty_code hinv hroot (by decide) hcode hx ?_ hrun
  rw [hdirty, Bool.or_true]

end TrainOS.Sv39
