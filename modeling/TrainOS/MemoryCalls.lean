import TrainOS.BoundedTable
import TrainOS.ProcessMemory
import TrainOS.Sv39Refinement

/-!
# Memory system calls and sealed ranges (`syscall/memory.rs`, `mem/mseal.rs`)

The calls with which a process changes its own mappings.  To the page tables a call is one of
three things (`Work`): nothing, pages that get a fresh frame each, or pages that are unmapped.
Every result about the calls starts from that (`MemCall.done`).
-/

namespace TrainOS.Sv39

open MachineWord RadixTable Runs

/-! ### Sealed ranges -/

structure MemSeal where
  pid : Nat
  start : Nat
  stop : Nat
deriving DecidableEq, Repr

def MAX_SEALS : Nat := 64

def mseal (seals : Table MemSeal MAX_SEALS) (pid start len : Nat) :
    Except String (Table MemSeal MAX_SEALS) :=
  if start % PAGE_SIZE ≠ 0 then .error "mseal: unaligned address"
  else if len = 0 then .error "mseal: zero length"
  else
    let stop := wrapAdd start len
    if stop < start then .error "mseal: wrapped end"
    else if seals.entries.any fun s => s.pid == pid && s.start < stop && s.stop > start then
      .error "mseal: range overlaps existing seal"
    else
      match seals.push? ⟨pid, start, stop⟩ with
      | none => .error "mseal: too many seals (max 64)"
      | some seals => .ok seals

def isSealed (seals : Table MemSeal MAX_SEALS) (pid addr len : Nat) : Bool :=
  if len = 0 then false
  else
    let stop := satAdd addr len
    seals.entries.any fun s => s.pid == pid && s.start < stop && s.stop > addr

/-! ### The calls of a process -/

/-- `mmap` carries the answer of the capability check for its range. -/
inductive MemCall where
  | mmap (addr length : Nat) (isAuthorized : Bool)
  | munmap (addr length : Nat)
  | mprotect (addr length prot : Nat)
  | brk (addr : Nat)

def sysMprotect (isSealed : Bool) (k : Kernel) : Except String Nat × Kernel :=
  if isSealed then (.error "mprotect: range is sealed", k) else (.ok 0, k)

def mmapBase (addr : Nat) : Nat := if addr = 0 then 0x10000000 else addr

def MemCall.run (seals : Table MemSeal MAX_SEALS) (pid : Nat) (k : Kernel) :
    MemCall → Except String Nat × Kernel
  | .mmap addr length isAuthorized =>
      sysMmap pid addr length (isSealed seals pid (mmapBase addr) length) isAuthorized k
  | .munmap addr length => sysMunmap pid addr length (isSealed seals pid addr length) k
  | .mprotect addr length _ => sysMprotect (isSealed seals pid addr length) k
  | .brk addr => sysBrk pid addr k

/-- One call of process `pid`. -/
def MemStep (seals : Table MemSeal MAX_SEALS) (pid : Nat) (k : Kernel) (c : MemCall)
    (k' : Kernel) : Prop :=
  k' = (c.run seals pid k).2

/-! ### What a call asks of the page tables -/

inductive Work where
  | nothing
  | map (ptRoot : Nat) (vas : List Nat)
  | unmap (ptRoot : Nat) (vas : List Nat)
deriving DecidableEq, Repr

namespace Work

def pages : Work → List Nat
  | .nothing => []
  | .map _ vas => vas
  | .unmap _ vas => vas

def exec (s : Phys) : Work → Phys
  | .nothing => s
  | .map ptRoot vas => (forEach (mapFreshPage ptRoot) vas s).2
  | .unmap ptRoot vas => unmapPages ptRoot vas s

end Work

def pageCount (length : Nat) : Nat := wrapAdd length (PAGE_SIZE - 1) >>> 12

/-- The pages of `mmap` and `munmap` for a range, if the call gets as far. -/
def rangeWork (make : Nat → List Nat → Work) (k : Kernel) (pid base length : Nat) (go : Bool) :
    Work :=
  match k.getPageTableRoot pid with
  | none => .nothing
  | some ptRoot => if go then make ptRoot (pagesFrom base (pageCount length)) else .nothing

def brkWork (k : Kernel) (pid addr : Nat) : Work :=
  match brkEntry k.brkTable pid, k.getPageTableRoot pid with
  | some (currentBrk, _), some ptRoot =>
      let oldPages := wrapAdd currentBrk 0xFFF >>> 12
      let newPages := wrapAdd addr 0xFFF >>> 12
      if addr = 0 then .nothing
      else if currentBrk < addr then .map ptRoot (pageRange oldPages newPages)
      else .unmap ptRoot (pageRange newPages oldPages)
  | _, _ => .nothing

def MemCall.work (seals : Table MemSeal MAX_SEALS) (pid : Nat) (k : Kernel) : MemCall → Work
  | .mmap addr length isAuthorized =>
      rangeWork .map k pid (mmapBase addr) length
        (!isSealed seals pid (mmapBase addr) length && isAuthorized)
  | .munmap addr length => rangeWork .unmap k pid addr length (!isSealed seals pid addr length)
  | .mprotect _ _ _ => .nothing
  | .brk addr => brkWork k pid addr

variable {vas : List Nat} {root va : Nat}

section Spec

variable {seals : Table MemSeal MAX_SEALS} {pid : Nat} {k : Kernel}

/-- Nothing, or work on the page table of process `pid`. -/
inductive Work.On (k : Kernel) (pid : Nat) : Work → Prop
  | nothing : On k pid .nothing
  | map {ptRoot : Nat} {vas : List Nat} :
      k.getPageTableRoot pid = some ptRoot → On k pid (.map ptRoot vas)
  | unmap {ptRoot : Nat} {vas : List Nat} :
      k.getPageTableRoot pid = some ptRoot → On k pid (.unmap ptRoot vas)

/-- What a call does: the work on the page table of its process, no process comes or goes, and
    where it maps pages it succeeds if they all get a frame. -/
structure Work.Done (w : Work) (k : Kernel) (pid : Nat) (out : Except String Nat × Kernel) :
    Prop where
  on : w.On k pid
  phys : out.2.phys = w.exec k.phys
  processes : out.2.processes = k.processes
  mapped : ∀ ptRoot vas, w = .map ptRoot vas →
    ((∃ v, out.1 = .ok v) ↔ (forEach (mapFreshPage ptRoot) vas k.phys).1 = .ok ())

theorem sysMmap_done (addr length : Nat) (refused isAuthorized : Bool) :
    (rangeWork .map k pid (mmapBase addr) length (!refused && isAuthorized)).Done k pid
      (sysMmap pid addr length refused isAuthorized k) := by
  unfold sysMmap rangeWork
  cases hroot : k.getPageTableRoot pid with
  | none => exact ⟨.nothing, rfl, rfl, nofun⟩
  | some ptRoot =>
    cases refused with
    | true => exact ⟨.nothing, rfl, rfl, nofun⟩
    | false =>
      cases isAuthorized with
      | false => exact ⟨.nothing, rfl, rfl, nofun⟩
      | true =>
        have hbase : (if addr = 0 then 0x10000000 else addr) = mmapBase addr := rfl
        have hcount : wrapAdd length (PAGE_SIZE - 1) >>> 12 = pageCount length := rfl
        simp only [hbase, hcount, Bool.not_true, Bool.not_false, Bool.and_self, Bool.false_eq_true,
          if_false, if_true]
        split <;> next hloop =>
          exact ⟨.map hroot, by rw [Work.exec, hloop], rfl, by rintro _ _ ⟨⟩; simp [hloop]⟩

theorem sysMunmap_done (addr length : Nat) (refused : Bool) :
    (rangeWork .unmap k pid addr length (!refused)).Done k pid
      (sysMunmap pid addr length refused k) := by
  unfold sysMunmap rangeWork
  cases hroot : k.getPageTableRoot pid with
  | none => cases refused <;> exact ⟨.nothing, rfl, rfl, nofun⟩
  | some ptRoot =>
    cases refused with
    | true => exact ⟨.nothing, rfl, rfl, nofun⟩
    | false => exact ⟨.unmap hroot, rfl, rfl, nofun⟩

theorem sysBrk_done (addr : Nat) : (brkWork k pid addr).Done k pid (sysBrk pid addr k) := by
  unfold sysBrk brkWork
  rcases brkEntry k.brkTable pid with _ | ⟨currentBrk, table⟩
  · exact ⟨.nothing, rfl, rfl, nofun⟩
  have hsame : Kernel.getPageTableRoot { k with brkTable := table } pid =
      k.getPageTableRoot pid := rfl
  dsimp only
  rw [hsame]
  cases hroot : k.getPageTableRoot pid with
  | none => by_cases haddr : addr = 0 <;> simp only [haddr, if_true, if_false] <;>
      exact ⟨.nothing, rfl, rfl, nofun⟩
  | some ptRoot =>
    by_cases haddr : addr = 0
    · simp only [if_pos haddr]
      exact ⟨.nothing, rfl, rfl, nofun⟩
    by_cases hgrow : currentBrk < addr
    · simp only [if_neg haddr, if_pos hgrow]
      split <;> next hloop =>
        exact ⟨.map hroot, by rw [Work.exec, hloop], rfl, by rintro _ _ ⟨⟩; simp [hloop]⟩
    · simp only [if_neg haddr, if_neg hgrow]
      exact ⟨.unmap hroot, rfl, rfl, nofun⟩

theorem MemCall.done (c : MemCall) : (c.work seals pid k).Done k pid (c.run seals pid k) := by
  cases c with
  | mmap addr length isAuthorized => exact sysMmap_done addr length _ isAuthorized
  | munmap addr length => exact sysMunmap_done addr length _
  | mprotect addr length prot =>
    simp only [MemCall.run, sysMprotect]
    split <;> exact ⟨.nothing, rfl, rfl, nofun⟩
  | brk addr => exact sysBrk_done addr

end Spec

/-! ### The effect of the work -/

section Effects

variable {ok : PTE → Prop} {s s' : Phys} {own : Own} {root ro : Nat} {res : Except String Unit}

def atPages (r : Nat) (vas : List Nat) : Nat → List (Fin 512) → Prop :=
  fun r' p => ∃ va ∈ vas, atPage r va r' p

theorem atPages_cons {r : Nat} {p : List (Fin 512)} :
    atPages ro (va :: vas) r p ↔ atPage ro va r p ∨ atPages ro vas r p := by
  simp [atPages]

theorem allocPage_effect {res : Option Nat} {affected : Nat → List (Fin 512) → Prop}
    (h : Tree ok s own) (hrun : s.allocPage = (res, s')) : Effect ok affected s s' own own := by
  rcases Phys.allocPage_cases hrun with
    ⟨_, rfl | ⟨rest, hpool, rfl⟩⟩ | ⟨page, rest, _, hpool, rfl⟩
  · exact .refl h
  · exact .drop h hpool
  · exact .drop h hpool

theorem mapFreshPage_effect (h : Tree ok s own)
    (hroot : own root = some (ro, [])) (hrun : mapFreshPage (root * PAGE_SIZE) va s = (res, s')) :
    ∃ own', Effect ok (atPage ro va) s s' own own' := by
  unfold mapFreshPage at hrun
  rcases halloc : s.allocPage with ⟨_ | page, s1⟩
  · rw [halloc] at hrun
    cases hrun
    exact ⟨own, allocPage_effect h halloc⟩
  · rw [halloc] at hrun
    have htaken : Effect ok (atPage ro va) s s1 own own := allocPage_effect h halloc
    obtain ⟨own', heff, -, -⟩ := mapWith_effect htaken.tree hroot hrun
    exact ⟨own', htaken.trans heff⟩

theorem mapFreshPages_effect (h : Tree ok s own) (hroot : own root = some (ro, []))
    (hrun : forEach (mapFreshPage (root * PAGE_SIZE)) vas s = (res, s')) :
    ∃ own', Effect ok (atPages ro vas) s s' own own' := by
  refine forEach_invariant (fun s1 => ∃ own', Effect ok (atPages ro vas) s s1 own own') ?_
    ⟨own, .refl h⟩ hrun
  rintro va hva s1 res1 s2 ⟨own1, heff⟩ hpass
  obtain ⟨own2, hpage⟩ := mapFreshPage_effect heff.tree (heff.keep _ _ hroot) hpass
  exact ⟨own2, heff.trans (hpage.mono fun r p hat => ⟨va, hva, hat⟩)⟩

theorem unmapPages_effect (vas : List Nat) (h : Tree ok s own) (hroot : own root = some (ro, [])) :
    Effect ok (atPages ro vas) s (unmapPages (root * PAGE_SIZE) vas s) own own := by
  induction vas generalizing s with
  | nil => exact .refl h
  | cons va vas ih =>
    have hfirst := (unmapUserPage_effect h hroot va).1
    exact (hfirst.mono fun r p hat => atPages_cons.mpr (.inl hat)).trans
      ((ih hfirst.tree).mono fun r p hat => atPages_cons.mpr (.inr hat))

/-- Process `pid` has a page table of its own at frame `root`. -/
structure TableOf (ok : PTE → Prop) (k : Kernel) (pid root : Nat) (own : Own) : Prop where
  proc : k.getPageTableRoot pid = some (root * PAGE_SIZE)
  tree : Tree ok k.phys own
  root_own : own root = some (root, [])

/-- **A call changes the lookups of its own pages only.** -/
theorem TableOf.effect {k : Kernel} {pid : Nat} (h : TableOf ok k pid root own)
    (seals : Table MemSeal MAX_SEALS) (c : MemCall) :
    ∃ own', TableOf ok (c.run seals pid k).2 pid root own' ∧
      Effect ok (atPages root (c.work seals pid k).pages) k.phys (c.run seals pid k).2.phys
        own own' := by
  obtain ⟨hon, hphys, hprocs, -⟩ : (c.work seals pid k).Done k pid (c.run seals pid k) := c.done
  have heff : ∃ own', Effect ok (atPages root (c.work seals pid k).pages) k.phys
      (c.run seals pid k).2.phys own own' := by
    rw [hphys]
    revert hon
    generalize c.work seals pid k = work
    rintro (_ | hroot | hroot)
    · exact ⟨own, .refl h.tree⟩
    · cases hroot.symm.trans h.proc
      exact mapFreshPages_effect h.tree h.root_own rfl
    · cases hroot.symm.trans h.proc
      exact ⟨own, unmapPages_effect _ h.tree h.root_own⟩
  obtain ⟨own', heff⟩ := heff
  refine ⟨own', ⟨?_, heff.tree, heff.keep _ _ h.root_own⟩, heff⟩
  unfold Kernel.getPageTableRoot
  rw [hprocs]
  exact h.proc

section

variable {own' : Own} (h : Effect ok (atPages root vas) s s' own own')
  (hroot : own root = some (root, [])) (hout : ∀ va' ∈ vas, vpn va' ≠ vpn va)
include h hroot hout

theorem Effect.lookup_outside :
    lookup (tables s'.mem) root (path va) = lookup (tables s.mem) root (path va) := by
  apply h.same root root [] (path va) hroot (by simp [path])
  rintro ⟨va', hva', hat⟩
  exact hout va' hva' (atPage_path hat).symm

theorem Effect.translate_same :
    translate s'.mem (root * PAGE_SIZE) va = translate s.mem (root * PAGE_SIZE) va := by
  rw [translate_eq_lookup, translate_eq_lookup, h.lookup_outside hroot hout]

end

end Effects

/-! ### A small kernel -/

def heapKernel : Kernel where
  phys := { mem := fun _ => 0, pool := framePool 2 8 }
  processes := [⟨7, PAGE_SIZE⟩]
  nextPid := 8
  brkTable := []

theorem heapKernel_tableOf : ∃ own, TableOf anyEntry heapKernel 7 1 own := by
  have hfresh : ∀ p ∈ frames heapKernel.phys.pool, p / PAGE_SIZE ≠ 1 := by decide
  have hrefines := Refines.zeroed (s := heapKernel.phys) (tables_zero 1)
    (poolOk_framePool (by decide)) hfresh
  exact ⟨_, rfl, hrefines.tree, hrefines.root_own⟩

end TrainOS.Sv39
