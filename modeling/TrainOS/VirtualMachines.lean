import TrainOS.Gstage
import TrainOS.LittleEndian
import TrainOS.Runs

/-!
# Virtual machines (`hypervisor/mod.rs`, `hypervisor/snapshot.rs`)

A virtual machine owns the second-stage table whose root page is in its context.  A snapshot
holds the root page as well, and `restore` writes it back into any slot: the machine may still be
running in another slot, or it may have been destroyed together with its table
(`vm_ownership_iff`).
-/

namespace TrainOS.Hypervisor

open ByteMemory Function LittleEndian RadixTable Runs StateExcept

def MAX_VMS : Nat := 8
def VM_NAME_LEN : Nat := 32

instance : NeZero MAX_VMS := ⟨by decide⟩

structure VmContext where
  gprs : Vector UInt64 32
  sepc : UInt64
  sstatus : UInt64
  stvec : UInt64
  sscratch : UInt64
  scause : UInt64
  hgatp : UInt64
  l2Phys : UInt64
  memMb : UInt64
deriving DecidableEq

def VmContext.empty : VmContext := ⟨Vector.replicate 32 0, 0, 0, 0, 0, 0, 0, 0, 0⟩

structure VirtualMachine where
  vmId : UInt32
  name : Vector UInt8 VM_NAME_LEN
  ctx : VmContext
  running : Bool
  active : Bool
deriving DecidableEq

def VirtualMachine.zeroed : VirtualMachine :=
  ⟨0, Vector.replicate VM_NAME_LEN 0, .empty, false, false⟩

def VirtualMachine.root (vm : VirtualMachine) : Nat := vm.ctx.l2Phys.toNat

/-! ### Snapshots -/

def SNAPSHOT_MAGIC : Nat := 0x564D534E
def SNAPSHOT_SIZE : Nat := 362

def flagByte (b : Bool) : UInt8 := if b then 1 else 0

def VirtualMachine.bytes (vm : VirtualMachine) : List UInt8 :=
  toLE 4 SNAPSHOT_MAGIC ++ (toLE 4 vm.vmId.toNat ++ (vm.name.toList ++
    (vm.ctx.gprs.toList.flatMap (fun reg => toLE 8 reg.toNat) ++ (toLE 8 vm.ctx.sepc.toNat ++
    (toLE 8 vm.ctx.sstatus.toNat ++ (toLE 8 vm.ctx.stvec.toNat ++ (toLE 8 vm.ctx.sscratch.toNat ++
    (toLE 8 vm.ctx.scause.toNat ++ (toLE 8 vm.ctx.hgatp.toNat ++ (toLE 8 vm.ctx.l2Phys.toNat ++
    (toLE 8 vm.ctx.memMb.toNat ++ [flagByte vm.running, flagByte vm.active])))))))))))

def snapshot (vm : VirtualMachine) (buf : List UInt8) : Nat × List UInt8 :=
  if buf.length < SNAPSHOT_SIZE then (0, buf)
  else (SNAPSHOT_SIZE, vm.bytes ++ buf.drop SNAPSHOT_SIZE)

/-- `read_u32_le` and `read_usize_le`: the value, and what follows it. -/
def readInt (n : Nat) (buf : List UInt8) : Nat × List UInt8 := (ofLE (buf.take n), buf.drop n)

def readWords : Nat → List UInt8 → List UInt64 × List UInt8
  | 0, buf => ([], buf)
  | n + 1, buf =>
      let (word, buf) := readInt 8 buf
      let (words, buf) := readWords n buf
      (UInt64.ofNat word :: words, buf)

@[simp] theorem length_readWords (n : Nat) (buf : List UInt8) : (readWords n buf).1.length = n := by
  induction n generalizing buf with
  | zero => rfl
  | succ n ih => exact congrArg (· + 1) (ih _)

def readName (buf : List UInt8) : Vector UInt8 VM_NAME_LEN × List UInt8 :=
  (Vector.ofFn fun i => buf.getD i 0, buf.drop VM_NAME_LEN)

def restore (vm : VirtualMachine) (buf : List UInt8) : Except String Unit × VirtualMachine :=
  if buf.length < SNAPSHOT_SIZE then (.error "snapshot buffer too small", vm)
  else
    let (magic, buf) := readInt 4 buf
    if magic ≠ SNAPSHOT_MAGIC then (.error "invalid snapshot magic", vm)
    else
      let (vmId, buf) := readInt 4 buf
      let (name, buf) := readName buf
      let regs := readWords 32 buf
      let (sepc, buf) := readInt 8 regs.2
      let (sstatus, buf) := readInt 8 buf
      let (stvec, buf) := readInt 8 buf
      let (sscratch, buf) := readInt 8 buf
      let (scause, buf) := readInt 8 buf
      let (hgatp, buf) := readInt 8 buf
      let (l2Phys, buf) := readInt 8 buf
      let (memMb, buf) := readInt 8 buf
      (.ok (),
        { vmId := UInt32.ofNat vmId
          name := name
          ctx :=
            { gprs := ⟨regs.1.toArray, by simp [regs]⟩
              sepc := UInt64.ofNat sepc
              sstatus := UInt64.ofNat sstatus
              stvec := UInt64.ofNat stvec
              sscratch := UInt64.ofNat sscratch
              scause := UInt64.ofNat scause
              hgatp := UInt64.ofNat hgatp
              l2Phys := UInt64.ofNat l2Phys
              memMb := UInt64.ofNat memMb }
          running := buf.getD 0 0 ≠ 0
          active := buf.getD 1 0 ≠ 0 })

theorem readInt_toLE {n v : Nat} (hv : v < 256 ^ n) (rest : List UInt8) :
    readInt n (toLE n v ++ rest) = (v, rest) := by
  unfold readInt
  rw [List.take_left' (length_toLE n v), List.drop_left' (length_toLE n v), ofLE_toLE hv]

theorem readWords_toLE (words : List UInt64) (rest : List UInt8) :
    readWords words.length (words.flatMap (fun word => toLE 8 word.toNat) ++ rest) =
      (words, rest) := by
  induction words with
  | nil => rfl
  | cons word words ih =>
    rw [List.flatMap_cons, List.append_assoc, List.length_cons, readWords,
      readInt_toLE word.toNat_lt]
    dsimp only
    rw [ih, UInt64.ofNat_toNat]

theorem readName_toList (name : Vector UInt8 VM_NAME_LEN) (rest : List UInt8) :
    readName (name.toList ++ rest) = (name, rest) := by
  refine Prod.ext (Vector.ext fun i hi => ?_) (List.drop_left' Vector.length_toList)
  have hlen : i < name.toList.length := by rwa [Vector.length_toList]
  simp [readName, List.getElem?_append_left hlen, Vector.getElem?_eq_getElem hi]

theorem length_bytes (vm : VirtualMachine) : vm.bytes.length = SNAPSHOT_SIZE := by
  unfold VirtualMachine.bytes
  simp only [List.length_append, length_toLE, Vector.length_toList, List.length_flatMap]
  simp [SNAPSHOT_SIZE, VM_NAME_LEN]

/-- A snapshot is read back. -/
theorem restore_bytes (vm vm' : VirtualMachine) (rest : List UInt8) :
    restore vm' (vm.bytes ++ rest) = (.ok (), vm) := by
  have hlong : ¬ (vm.bytes ++ rest).length < SNAPSHOT_SIZE := by
    rw [List.length_append, length_bytes]
    omega
  have hregs (tail : List UInt8) : readWords 32
      (vm.ctx.gprs.toList.flatMap (fun reg => toLE 8 reg.toNat) ++ tail) =
        (vm.ctx.gprs.toList, tail) := by
    have h := readWords_toLE vm.ctx.gprs.toList tail
    rwa [Vector.length_toList] at h
  have hword (v : UInt64) (tail : List UInt8) :
      readInt 8 (toLE 8 v.toNat ++ tail) = (v.toNat, tail) :=
    readInt_toLE v.toNat_lt tail
  have hid (v : UInt32) (tail : List UInt8) :
      readInt 4 (toLE 4 v.toNat ++ tail) = (v.toNat, tail) :=
    readInt_toLE v.toNat_lt tail
  have hmagic (tail : List UInt8) :
      readInt 4 (toLE 4 SNAPSHOT_MAGIC ++ tail) = (SNAPSHOT_MAGIC, tail) :=
    readInt_toLE (by decide) tail
  unfold restore
  rw [if_neg hlong]
  simp only [VirtualMachine.bytes, List.append_assoc, hmagic, hid, readName_toList, hregs, hword,
    UInt64.ofNat_toNat, UInt32.ofNat_toNat]
  have hflag (b : Bool) : decide (flagByte b ≠ 0) = b := by cases b <;> rfl
  simp only [List.cons_append, List.getD_cons_zero, List.getD_cons_succ, hflag]
  rfl

/-! ### The table -/

/-- What happened to a root page. -/
inductive RootEvent where
  | built (root : Nat)
  | destroyed (root : Nat)
deriving DecidableEq

/-- The hypervisor: the host, the table of virtual machines, the buffers `snapshot` filled, each
    with the machine it was given, and the events, the last one first. -/
structure System where
  host : Host
  vms : Fin MAX_VMS → VirtualMachine
  vmIdCounter : UInt32
  snapshots : List (VirtualMachine × List UInt8)
  log : List RootEvent

def System.boot (host : Host) : System := ⟨host, fun _ => .zeroed, 1, [], []⟩

def System.vmById (s : System) (vmId : UInt32) : Option (Fin MAX_VMS) :=
  (List.finRange MAX_VMS).find? fun i => (s.vms i).active && (s.vms i).vmId = vmId

def System.freeSlot (s : System) : Option (Fin MAX_VMS) :=
  (List.finRange MAX_VMS).find? fun i => !(s.vms i).active

def System.setVm (s : System) (i : Fin MAX_VMS) (vm : VirtualMachine) : System :=
  { s with vms := Function.update s.vms i vm }

def nameBuf (name : List UInt8) : Vector UInt8 VM_NAME_LEN :=
  Vector.ofFn fun i => (name.take (VM_NAME_LEN - 1)).getD i 0

/-- `vm_create`; `answers` are the frames that the allocator hands out. -/
def System.vmCreate (s : System) (name : List UInt8) (memoryMb : Nat) (answers : List Nat) :
    Option UInt32 × System :=
  match run (createGstage memoryMb) { s.host with answers } with
  | (.error _, host) => (none, { s with host })
  | (.ok (hgatp, l2Phys), host) =>
      let s' := { s with host, log := .built l2Phys :: s.log }
      match s.freeSlot with
      | none => (none, s')
      | some i =>
          let ctx := { VmContext.empty with
            hgatp := UInt64.ofNat hgatp, l2Phys := UInt64.ofNat l2Phys,
            memMb := UInt64.ofNat memoryMb }
          (some s.vmIdCounter,
            { s'.setVm i ⟨s.vmIdCounter, nameBuf name, ctx, false, true⟩ with
              vmIdCounter := s.vmIdCounter + 1 })

def System.vmDestroy (s : System) (vmId : UInt32) : Bool × System :=
  match s.vmById vmId with
  | none => (false, s)
  | some i =>
      let s' := if (s.vms i).ctx.l2Phys ≠ 0 then
          { s with
            host := destroyGstage s.host (s.vms i).root
            log := .destroyed (s.vms i).root :: s.log }
        else s
      (true, s'.setVm i { s.vms i with active := false, running := false })

def System.vmStart (s : System) (vmId : UInt32) (entryPc : UInt64) : Bool × System :=
  match s.vmById vmId with
  | none => (false, s)
  | some i =>
      let vm := s.vms i
      if vm.running then (false, s)
      else (true, s.setVm i
        { vm with
          ctx := { vm.ctx with sepc := entryPc, sstatus := (1 : UInt64) <<< 18 }
          running := true })

def System.vmPause (s : System) (vmId : UInt32) : Bool × System :=
  match s.vmById vmId with
  | none => (false, s)
  | some i =>
      if (s.vms i).running then (true, s.setVm i { s.vms i with running := false }) else (false, s)

def System.vmResume (s : System) (vmId : UInt32) : Bool × System :=
  match s.vmById vmId with
  | none => (false, s)
  | some i =>
      if (s.vms i).running then (false, s) else (true, s.setVm i { s.vms i with running := true })

/-- The calls of a run.  A buffer that `snapshot` found too short is not kept; `restore` is given
    the buffer of one of the earlier snapshots. -/
inductive Call where
  | create (name : List UInt8) (memoryMb : Nat) (answers : List Nat)
  | destroy (vmId : UInt32)
  | start (vmId : UInt32) (entryPc : UInt64)
  | pause (vmId : UInt32)
  | resume (vmId : UInt32)
  | snapshot (slot : Fin MAX_VMS) (buf : List UInt8)
  | restore (slot : Fin MAX_VMS) (index : Nat)

def Call.exec (s : System) : Call → System
  | .create name memoryMb answers => (s.vmCreate name memoryMb answers).2
  | .destroy vmId => (s.vmDestroy vmId).2
  | .start vmId entryPc => (s.vmStart vmId entryPc).2
  | .pause vmId => (s.vmPause vmId).2
  | .resume vmId => (s.vmResume vmId).2
  | .snapshot slot buf =>
      let (written, buf) := Hypervisor.snapshot (s.vms slot) buf
      if written = 0 then s else { s with snapshots := s.snapshots ++ [(s.vms slot, buf)] }
  | .restore slot index =>
      match s.snapshots[index]? with
      | none => s
      | some (_, buf) => s.setVm slot (Hypervisor.restore (s.vms slot) buf).2

def Step (s : System) (c : Call) (t : System) : Prop := t = c.exec s

/-! ### Ownership -/

open List

def live : List RootEvent → List Nat
  | [] => []
  | .built r :: log => r :: live log
  | .destroyed r :: log => (live log).filter (· ≠ r)

/-- A root is only destroyed while it is live. -/
def FreedOnce : List RootEvent → Prop
  | [] => True
  | .built _ :: log => FreedOnce log
  | .destroyed r :: log => r ∈ live log ∧ FreedOnce log

/-- No two active machines have the same key. -/
def Unique {β : Type} (key : VirtualMachine → β) (vms : Fin MAX_VMS → VirtualMachine) : Prop :=
  ∀ i j, (vms i).active → (vms j).active → key (vms i) = key (vms j) → i = j

/-- The active machines have ids and roots of their own, and the roots are among the given ones. -/
structure Separate (vms : Fin MAX_VMS → VirtualMachine) (roots : List Nat) : Prop where
  ids : Unique VirtualMachine.vmId vms
  distinct : Unique VirtualMachine.root vms
  mem : ∀ i, (vms i).active → (vms i).root ∈ roots

/-- What the hypervisor promises: besides, the tables of two active machines have no page in
    common. -/
structure Owned (s : System) : Prop extends Separate s.vms (live s.log) where
  disjoint : ∀ i j, (s.vms i).active → (s.vms j).active → i ≠ j →
    ∀ b ∈ gstageBlocks s.host.mem (s.vms i).root, b ∉ gstageBlocks s.host.mem (s.vms j).root
  once : FreedOnce s.log

/-- The calls after which ownership still holds: the counter has not come round to the id of an
    active machine, and an active machine is restored while its table exists and no other slot
    holds its id or its root. -/
def Allowed (s : System) : Call → Prop
  | .create name memoryMb answers => ∀ vmId, (s.vmCreate name memoryMb answers).1 = some vmId →
      ∀ j, (s.vms j).active → (s.vms j).vmId ≠ vmId
  | .restore slot index => ∀ p ∈ s.snapshots[index]?, p.1.active → p.1.root ∈ live s.log ∧
      ∀ j, j ≠ slot → (s.vms j).active → (s.vms j).vmId ≠ p.1.vmId ∧ (s.vms j).root ≠ p.1.root
  | _ => True

section Separate

variable {vms vms' : Fin MAX_VMS → VirtualMachine} {roots roots' : List Nat} {i : Fin MAX_VMS}
  {vm : VirtualMachine}

theorem Separate.mono (h : Separate vms roots) (hsub : roots ⊆ roots') : Separate vms roots' :=
  ⟨h.ids, h.distinct, fun i hi => hsub (h.mem i hi)⟩

theorem unique_update_iff {β : Type} {key : VirtualMachine → β} (h : Unique key vms)
    (hvm : vm.active) : Unique key (update vms i vm) ↔
      ∀ j, j ≠ i → (vms j).active → key (vms j) ≠ key vm := by
  constructor
  · intro hnew j hj hactive heq
    exact hj (hnew j i (by simpa [hj]) (by simpa) (by simpa [hj]))
  · intro hother j k hj hk heq
    rcases eq_or_ne j i with rfl | hji <;> rcases eq_or_ne k j with rfl | hkj
    · rfl
    · rw [update_of_ne hkj] at hk heq
      rw [update_self] at heq
      exact (hother k hkj hk heq.symm).elim
    · rfl
    · rw [update_of_ne hji] at hj heq
      rcases eq_or_ne k i with rfl | hki
      · rw [update_self] at heq
        exact (hother j hji hj heq).elim
      · rw [update_of_ne hki] at hk heq
        exact h j k hj hk heq

section

variable (h : Separate vms roots)
include h

/-- A machine that is put into a slot keeps the others apart when its id and its root are in no
    other slot. -/
theorem separate_update_iff (hvm : vm.active) : Separate (update vms i vm) roots ↔ vm.root ∈ roots ∧
      ∀ j, j ≠ i → (vms j).active → (vms j).vmId ≠ vm.vmId ∧ (vms j).root ≠ vm.root := by
  constructor
  · rintro ⟨hids, hdistinct, hmem⟩
    rw [unique_update_iff h.ids hvm] at hids
    rw [unique_update_iff h.distinct hvm] at hdistinct
    have hroot := hmem i
    rw [update_self] at hroot
    exact ⟨hroot hvm, fun j hj hactive => ⟨hids j hj hactive, hdistinct j hj hactive⟩⟩
  · rintro ⟨hroot, hother⟩
    refine ⟨(unique_update_iff h.ids hvm).mpr fun j hj hactive => (hother j hj hactive).1,
      (unique_update_iff h.distinct hvm).mpr fun j hj hactive => (hother j hj hactive).2,
      fun j hj => ?_⟩
    rcases eq_or_ne j i with rfl | hji
    · rwa [update_self]
    · rw [update_of_ne hji] at hj ⊢
      exact h.mem j hj

theorem Separate.of_imp (hsame : ∀ j, (vms' j).active → (vms j).active ∧
    (vms' j).vmId = (vms j).vmId ∧ (vms' j).root = (vms j).root ∧ (vms j).root ∈ roots') :
      Separate vms' roots' where
  ids i j hi hj heq := by
    obtain ⟨hi, hidi, -⟩ := hsame i hi
    obtain ⟨hj, hidj, -⟩ := hsame j hj
    exact h.ids i j hi hj (by rw [← hidi, heq, hidj])
  distinct i j hi hj heq := by
    obtain ⟨hi, -, hri, -⟩ := hsame i hi
    obtain ⟨hj, -, hrj, -⟩ := hsame j hj
    exact h.distinct i j hi hj (by rw [← hri, heq, hrj])
  mem i hi := by
    obtain ⟨-, -, hri, hmem⟩ := hsame i hi
    rwa [hri]

/-- A slot gets a machine that is inactive or has the id and the root of the one before it. -/
theorem Separate.update (hvm : vm.active → (vms i).active ∧ vm.vmId = (vms i).vmId ∧
    vm.root = (vms i).root ∧   (vms i).root ∈ roots')
    (hother : ∀ j, j ≠ i → (vms j).active → (vms j).root ∈ roots') :
    Separate (update vms i vm) roots' := by
  refine h.of_imp fun j hj => ?_
  rcases eq_or_ne j i with rfl | hji
  · rw [update_self] at hj ⊢
    exact hvm hj
  · rw [update_of_ne hji] at hj ⊢
    exact ⟨hj, rfl, rfl, hother j hji hj⟩

end

end Separate

/-! ### The tables behind the live roots -/

/-- The table at `r` consists of frames that are in use. -/
structure Tree (h : Host) (r : Nat) : Prop where
  frame : ∃ f, r = f * PAGE_SIZE ∧ 0 < f ∧ f < 2 ^ 44
  held : ∀ b ∈ gstageBlocks h.mem r, ∃ g, b = frameBlock g ∧ g ∈ h.allocated

structure Trees (h : Host) (log : List RootEvent) : Prop where
  tree : ∀ r ∈ live log, Tree h r
  apart : ∀ r ∈ live log, ∀ r' ∈ live log, r ≠ r' →
    ∀ b ∈ gstageBlocks h.mem r, b ∉ gstageBlocks h.mem r'
  once : FreedOnce log

section Trees

variable {h h' : Host} {log : List RootEvent} {r root : Nat}

theorem Tree.blocks_eq (ht : Tree h r) (hgrown : Grown h h') :
    gstageBlocks h'.mem r = gstageBlocks h.mem r := by
  obtain ⟨f, rfl, -⟩ := ht.frame
  rw [gstageBlocks_eq, gstageBlocks_eq]
  refine footprint_congr fun g hg i => hgrown.tables_eq g ?_ i
  rw [← gstageFoot, ← gstageBlocks_eq] at hg
  obtain ⟨g', heq, halloc⟩ := ht.held _ hg
  rwa [frameBlock_inj heq]

theorem Tree.grown (ht : Tree h r) (hgrown : Grown h h') : Tree h' r where
  frame := ht.frame
  held b hb := by
    rw [ht.blocks_eq hgrown] at hb
    obtain ⟨g, rfl, halloc⟩ := ht.held b hb
    exact ⟨g, rfl, hgrown.subset halloc⟩

section

variable (ht : Trees h log)
include ht

theorem Trees.grown (hgrown : Grown h h') : Trees h' log where
  tree r hr := (ht.tree r hr).grown hgrown
  apart r hr r' hr' hne := by
    rw [(ht.tree r hr).blocks_eq hgrown, (ht.tree r' hr').blocks_eq hgrown]
    exact ht.apart r hr r' hr' hne
  once := ht.once

theorem Trees.not_live (hfree : h.Free root) : root * PAGE_SIZE ∉ live log := by
  intro hlive
  obtain ⟨g, heq, halloc⟩ := (ht.tree _ hlive).held _
    (mem_append_right _ mem_cons_self)
  rw [← frameBlock_inj (show frameBlock root = frameBlock g from heq)] at halloc
  exact hfree.1 halloc

theorem Trees.built (hbuilt : Built h root h') : Trees h' (.built (root * PAGE_SIZE) :: log) := by
  have hold := ht.grown hbuilt.toGrown
  -- a page of the new table was not in use, a page of an old one was
  have hnew (r) (hr : r ∈ live log) : ∀ b ∈ gstageBlocks h'.mem (root * PAGE_SIZE),
      b ∉ gstageBlocks h'.mem r := by
    intro b hb hb'
    rw [gstageBlocks_eq] at hb
    obtain ⟨f, rfl, -, hfresh⟩ := hbuilt.fresh b hb
    rw [(ht.tree r hr).blocks_eq hbuilt.toGrown] at hb'
    obtain ⟨g, heq, halloc⟩ := (ht.tree r hr).held _ hb'
    rw [frameBlock_inj heq] at hfresh
    exact hfresh halloc
  refine ⟨fun r hr => ?_, fun r hr r' hr' hne => ?_, ht.once⟩
  · rcases mem_cons.mp hr with rfl | hr
    · refine ⟨⟨root, rfl, hbuilt.free.2⟩, fun b hb => ?_⟩
      rw [gstageBlocks_eq] at hb
      obtain ⟨f, rfl, halloc, -⟩ := hbuilt.fresh b hb
      exact ⟨f, rfl, halloc⟩
    · exact hold.tree r hr
  · rcases mem_cons.mp hr with rfl | hr <;> rcases mem_cons.mp hr' with rfl | hr'
    · exact (hne rfl).elim
    · exact hnew r' hr'
    · exact fun b hb hb' => hnew r hr b hb' hb
    · exact hold.apart r hr r' hr' hne

theorem Trees.destroyed (hr : r ∈ live log) : Trees (destroyGstage h r) (.destroyed r :: log) := by
  obtain ⟨f, rfl, hpos, -⟩ := (ht.tree r hr).frame
  have hne : f * PAGE_SIZE ≠ 0 := Nat.mul_ne_zero hpos.ne' (by decide)
  have hframes : ∀ b ∈ gstageBlocks h.mem (f * PAGE_SIZE), ∃ g, b = frameBlock g := by
    intro b hb
    obtain ⟨g, rfl, -⟩ := (ht.tree _ hr).held b hb
    exact ⟨g, rfl⟩
  rw [destroyGstage, if_neg hne]
  refine ⟨fun r' hr' => ?_, fun r' hr' r'' hr'' => ?_, hr, ht.once⟩
  · obtain ⟨hlive, hother⟩ := mem_filter.mp hr'
    refine ⟨(ht.tree r' hlive).frame, fun b hb => ?_⟩
    obtain ⟨g, rfl, halloc⟩ := (ht.tree r' hlive).held b hb
    have hapart := ht.apart r' hlive _ hr (of_decide_eq_true hother) _ hb
    refine ⟨g, rfl, ?_⟩
    rw [mem_foldl_freeBlock hframes]
    exact ⟨halloc, hapart⟩
  · exact ht.apart r' (mem_of_mem_filter hr') r'' (mem_of_mem_filter hr'')

end

end Trees

/-! ### The calls -/

/-- The invariant behind `Owned`. -/
structure Inv (s : System) : Prop where
  trees : Trees s.host s.log
  snapshots : ∀ p ∈ s.snapshots, ∃ rest, p.2 = p.1.bytes ++ rest

variable {s : System} {name : List UInt8} {memoryMb : Nat} {answers : List Nat} {vmId : UInt32}
  {i : Fin MAX_VMS} {c : Prop}

/-- Behind the invariant, ownership is the separation of the machines. -/
theorem Inv.owned_iff (hinv : Inv s) (hc : Separate s.vms (live s.log) ↔ c) :
    Inv s ∧ (Owned s ↔ c) := by
  refine ⟨hinv, Iff.trans ⟨Owned.toSeparate, fun h => ⟨h, fun i j hi hj hne => ?_, ?_⟩⟩ hc⟩
  case refine_2 => exact hinv.trees.once
  exact hinv.trees.apart _ (h.mem i hi) _ (h.mem j hj) fun heq => hne (h.distinct i j hi hj heq)

/-- Creation fails, finds no slot, or fills one. -/
theorem vmCreate_cases (s : System) (name : List UInt8) (memoryMb : Nat) (answers : List Nat) :
    (∃ host err, run (createGstage memoryMb) { s.host with answers } = (.error err, host) ∧
      Grown s.host host ∧ s.vmCreate name memoryMb answers = (none, { s with host })) ∨
    (∃ host root, Built s.host root host ∧ s.freeSlot = none ∧ s.vmCreate name memoryMb answers =
      (none, { s with host, log := .built (root * PAGE_SIZE) :: s.log })) ∨
    ∃ host root i vm, Built s.host root host ∧ s.freeSlot = some i ∧ vm.active ∧
      vm.vmId = s.vmIdCounter ∧ vm.root = root * PAGE_SIZE ∧
      s.vmCreate name memoryMb answers = (some s.vmIdCounter,
        { s with
          host, log := .built (root * PAGE_SIZE) :: s.log, vms := Function.update s.vms i vm
          vmIdCounter := s.vmIdCounter + 1 }) := by
  have hspec := (createGstage_spec { s.host with answers } memoryMb).ends _ rfl
  unfold System.vmCreate
  rcases hrun : run (createGstage memoryMb) { s.host with answers } with ⟨_ | ⟨hgatp, l2⟩, host⟩
  · rw [hrun] at hspec
    exact .inl ⟨host, _, rfl, ⟨hspec.subset, hspec.tables_eq⟩, rfl⟩
  · rw [hrun] at hspec
    obtain ⟨rfl, ⟨hbuilt, _⟩, _⟩ := hspec
    generalize taken _ 0 = root at hbuilt
    have hbuilt : Built s.host root host :=
      ⟨⟨hbuilt.subset, hbuilt.tables_eq⟩, hbuilt.free, hbuilt.fresh, hbuilt.nodup⟩
    cases hslot : s.freeSlot with
    | none => exact .inr (.inl ⟨host, root, hbuilt, rfl, rfl⟩)
    | some i =>
      refine .inr (.inr ⟨host, root, i, _, hbuilt, rfl, rfl, rfl, ?_, rfl⟩)
      have hlt : root * PAGE_SIZE < 2 ^ 64 := by
        have := hbuilt.free.2.2
        unfold PAGE_SIZE
        omega
      exact Nat.mod_eq_of_lt hlt

theorem active_of_vmById (h : s.vmById vmId = some i) : (s.vms i).active := by
  have := find?_some h
  simp_all

variable {vm : VirtualMachine}

/-- What the calls other than `vm_create`, `vm_destroy` and `restore` do. -/
structure Quiet (s t : System) : Prop where
  host : t.host = s.host
  log : t.log = s.log
  snapshots : ∀ p ∈ t.snapshots, p ∈ s.snapshots ∨ ∃ rest, p.2 = p.1.bytes ++ rest
  separate : ∀ roots, Separate s.vms roots → Separate t.vms roots

theorem Quiet.refl (s : System) : Quiet s s := ⟨rfl, rfl, fun _ => .inl, fun _ => id⟩

theorem quiet_setVm (hactive : vm.active = (s.vms i).active)
    (hid : vm.vmId = (s.vms i).vmId) (hroot : vm.root = (s.vms i).root) :
    Quiet s (s.setVm i vm) := by
  refine ⟨rfl, rfl, fun _ => .inl, fun _ h => h.update (fun hi => ?_) fun j _ => h.mem j⟩
  rw [hactive] at hi
  exact ⟨hi, hid, hroot, h.mem i hi⟩

theorem quiet_ite [Decidable c] {x y : Bool × System} (hx : Quiet s x.2) (hy : Quiet s y.2) :
    Quiet s (if c then x else y).2 := by
  split
  · exact hx
  · exact hy

theorem quiet_vmById {f : Fin MAX_VMS → Bool × System} (hf : ∀ i, Quiet s (f i).2) :
    Quiet s (match s.vmById vmId with
      | none => (false, s)
      | some i => f i).2 := by
  cases s.vmById vmId with
  | none => exact .refl s
  | some i => exact hf i

theorem quiet_snapshot (s : System) (slot : Fin MAX_VMS) (buf : List UInt8) :
    Quiet s (Call.exec s (.snapshot slot buf)) := by
  rw [Call.exec, Hypervisor.snapshot]
  by_cases hshort : buf.length < SNAPSHOT_SIZE
  · rw [if_pos hshort]
    exact .refl s
  · rw [if_neg hshort]
    refine ⟨rfl, rfl, fun p hp => ?_, fun _ => id⟩
    rcases mem_append.mp hp with hp | hp
    · exact .inl hp
    · obtain rfl := mem_singleton.mp hp
      exact .inr ⟨_, rfl⟩

variable {t : System}

theorem Quiet.inv (hq : Quiet s t) (hinv : Inv s) : Inv t where
  trees := by
    rw [hq.host, hq.log]
    exact hinv.trees
  snapshots p hp := (hq.snapshots p hp).elim (hinv.snapshots p) id

theorem exec_restore (hsnap : ∀ p ∈ s.snapshots, ∃ rest, p.2 = p.1.bytes ++ rest)
    (slot : Fin MAX_VMS) (index : Nat) :
    Call.exec s (.restore slot index) = match s.snapshots[index]? with
      | none => s
      | some (vm, _) => s.setVm slot vm := by
  rw [Call.exec]
  cases hget : s.snapshots[index]? with
  | none => rfl
  | some p =>
    obtain ⟨rest, hbuf⟩ := hsnap p (mem_of_getElem? hget)
    dsimp only
    rw [hbuf, restore_bytes]

/-! ### Runs -/

section

variable (hinv : Inv s) (hown : Owned s)
include hinv hown

theorem exec_quiet (hq : Quiet s t) : Inv t ∧ (Owned t ↔ True) := by
  refine (hq.inv hinv).owned_iff (iff_of_true ?_ trivial)
  rw [hq.log]
  exact hq.separate _ hown.toSeparate

/-- Creation keeps the invariant, and ownership exactly if it is allowed. -/
theorem exec_create : Inv (Call.exec s (.create name memoryMb answers)) ∧
    (Owned (Call.exec s (.create name memoryMb answers)) ↔
      Allowed s (.create name memoryMb answers)) := by
  rw [Call.exec, Allowed]
  rcases vmCreate_cases s name memoryMb answers with
      ⟨host, err, -, hgrown, heq⟩ | ⟨host, root, hbuilt, -, heq⟩ |
    ⟨host, root, i, vm, hbuilt, hslot, hactive, hid, hroot, heq⟩ <;> rw [heq]
  · exact Inv.owned_iff ⟨hinv.trees.grown hgrown, hinv.snapshots⟩
      (iff_of_true hown.toSeparate (by simp))
  · exact Inv.owned_iff ⟨hinv.trees.built hbuilt, hinv.snapshots⟩
      (iff_of_true (hown.toSeparate.mono (subset_cons_self _ _)) (by simp))
  · have hnew := hinv.trees.not_live hbuilt.free
    have hlive : vm.root ∈ live (.built (root * PAGE_SIZE) :: s.log) := by
      rw [hroot]
      exact mem_cons_self
    have hold : Separate s.vms (live (.built (root * PAGE_SIZE) :: s.log)) :=
      hown.toSeparate.mono (subset_cons_self _ _)
    refine Inv.owned_iff ⟨hinv.trees.built hbuilt, hinv.snapshots⟩
      ((separate_update_iff hold hactive).trans ?_)
    rw [hid]
    constructor
    · rintro ⟨-, hother⟩ vmId hsome j hj
      cases hsome
      refine (hother j ?_ hj).1
      rintro rfl
      have hfree := find?_some hslot
      simp [hj] at hfree
    · intro hother
      refine ⟨hlive, fun j _ hj => ⟨hother _ rfl j hj, fun hsame => hnew ?_⟩⟩
      rw [← hroot, ← hsame]
      exact hown.mem j hj

theorem exec_destroy (vmId : UInt32) :
    Inv (Call.exec s (.destroy vmId)) ∧ (Owned (Call.exec s (.destroy vmId)) ↔ True) := by
  rw [Call.exec, System.vmDestroy]
  cases hslot : s.vmById vmId with
  | none => exact exec_quiet hinv hown (.refl s)
  | some i =>
    have hactive := active_of_vmById hslot
    obtain ⟨f, hroot, hpos, -⟩ := (hinv.trees.tree _ (hown.mem i hactive)).frame
    have hne : (s.vms i).ctx.l2Phys ≠ 0 := by
      intro hzero
      rw [VirtualMachine.root, hzero] at hroot
      exact Nat.mul_ne_zero hpos.ne' (by decide) hroot.symm
    dsimp only
    rw [if_pos hne]
    refine Inv.owned_iff ⟨hinv.trees.destroyed (hown.mem i hactive), hinv.snapshots⟩
      (iff_of_true (hown.update (fun h => by cases h) fun j hji hj => ?_) trivial)
    -- no other active machine has the root that is gone
    have hroot : (s.vms j).root ≠ (s.vms i).root := fun h => hji (hown.distinct j i hj hactive h)
    exact mem_filter.mpr ⟨hown.mem j hj, decide_eq_true hroot⟩

theorem exec_restore_iff (slot : Fin MAX_VMS) (index : Nat) :
    Inv (Call.exec s (.restore slot index)) ∧
      (Owned (Call.exec s (.restore slot index)) ↔ Allowed s (.restore slot index)) := by
  rw [exec_restore hinv.snapshots, Allowed]
  cases s.snapshots[index]? with
  | none => exact hinv.owned_iff (iff_of_true hown.toSeparate (by simp))
  | some p =>
    have hval : ∀ P : VirtualMachine × List UInt8 → Prop, (∀ q ∈ some p, P q) ↔ P p := by simp
    rw [hval]
    refine Inv.owned_iff ⟨hinv.trees, hinv.snapshots⟩ ?_
    by_cases hactive : p.1.active
    · exact (separate_update_iff hown.toSeparate hactive).trans ⟨fun h _ => h, fun h => h hactive⟩
    · refine iff_of_true ?_ fun h => (hactive h).elim
      exact hown.update (fun h => (hactive h).elim) fun j _ => hown.mem j

/-- Ownership after one call. -/
theorem exec_spec (c : Call) : Inv (c.exec s) ∧ (Owned (c.exec s) ↔ Allowed s c) := by
  cases c with
  | create name memoryMb answers => exact exec_create hinv hown
  | destroy vmId => exact exec_destroy hinv hown vmId
  | start vmId entryPc =>
    exact exec_quiet hinv hown (quiet_vmById fun _ => quiet_ite (.refl s) (quiet_setVm rfl rfl rfl))
  | pause vmId =>
    exact exec_quiet hinv hown (quiet_vmById fun _ => quiet_ite (quiet_setVm rfl rfl rfl) (.refl s))
  | resume vmId =>
    exact exec_quiet hinv hown (quiet_vmById fun _ => quiet_ite (.refl s) (quiet_setVm rfl rfl rfl))
  | snapshot slot buf => exact exec_quiet hinv hown (quiet_snapshot s slot buf)
  | restore slot index => exact exec_restore_iff hinv hown slot index

end

/-- The states that allowed calls reach. -/
structure Sound (s : System) : Prop extends Inv s where
  owned : Owned s

theorem sound_boot (host : Host) : Sound (.boot host) := by
  have hinv : Inv (.boot host) := by
    refine ⟨⟨fun r hr => ?_, fun r hr => ?_, trivial⟩, fun p hp => ?_⟩
    · cases hr
    · cases hr
    · cases hp
  have hown : Separate (System.boot host).vms [] :=
    ⟨fun _ _ h => (by cases h), fun _ _ h => (by cases h), fun _ h => by cases h⟩
  exact ⟨hinv, (hinv.owned_iff .rfl).2.mpr hown⟩

theorem Sound.step {c : Call} (h : Sound s) (hstep : Guarded Step Allowed s c t) : Sound t := by
  obtain ⟨hallowed, rfl⟩ := hstep
  obtain ⟨hinv, hiff⟩ := exec_spec h.toInv h.owned c
  exact ⟨hinv, hiff.mpr hallowed⟩

/-- Ownership holds as long as every call is allowed, and the first call that is not breaks it. -/
theorem vm_ownership_iff {host : Host} {calls : List Call} {s : System}
    (hrun : Run (Guarded Step Allowed) (.boot host) calls s) (c : Call) :
    Owned s ∧ (Owned (c.exec s) ↔ Allowed s c) := by
  have h : Sound s := hrun.invariant (fun _ _ _ h hstep => h.step hstep) (sound_boot host)
  exact ⟨h.owned, (exec_spec h.toInv h.owned c).2⟩

def idleHost : Host := ⟨fun _ => 0, [], []⟩

/-- A machine of one megabyte takes 515 frames: a table of each level and 512 pages. -/
def frames : List Nat := List.range' 0x80000 515

def savedCalls (answers : List Nat) (calls : List Call) : List Call :=
  .create [118, 109] 1 answers :: .snapshot 0 (List.replicate SNAPSHOT_SIZE 0) :: calls

def savedAfter (calls : List Call) : System :=
  (savedCalls frames calls).foldl Call.exec (.boot idleHost)

def savedState (host : Host) (vm : VirtualMachine) : System :=
  ⟨host, Function.update (fun _ => .zeroed) 0 vm, 2, [(vm, vm.bytes)], [.built vm.root]⟩

theorem supplied_frames :
    Supplied (513 * ((1 + 1) / 2) + 2) { idleHost with answers := frames } := by
  refine ⟨frames, [], (append_nil frames).symm, length_range', nodup_range', ?_⟩
  intro f hf
  obtain ⟨k, hk, rfl⟩ := mem_range'.mp hf
  exact ⟨not_mem_nil, by omega, by omega⟩

theorem exec_savedCalls (calls : List Call) : ∃ host vm, vm.active ∧ vm.vmId = 1 ∧
    vm.ctx.l2Phys ≠ 0 ∧ savedAfter calls = calls.foldl Call.exec (savedState host vm) := by
  obtain ⟨res, host', hok⟩ := createGstage_succeeds (by decide) (by decide) supplied_frames
  rcases vmCreate_cases (.boot idleHost) [118, 109] 1 frames with ⟨host, err, hrun, -⟩ |
    ⟨host, root, -, hslot, -⟩ | ⟨host, root, i, vm, hbuilt, hslot, hactive, hid, hroot, heq⟩
  · have := hok.symm.trans hrun
    cases this
  · cases hslot
  · cases hslot
    have hcreate : Call.exec (.boot idleHost) (.create [118, 109] 1 frames) =
        ⟨host, update (fun _ => .zeroed) 0 vm, 2, [], [.built vm.root]⟩ := by
      rw [Call.exec, heq, hroot]
      rfl
    have hsave : Call.exec ⟨host, update (fun _ => .zeroed) 0 vm, 2, [], [.built vm.root]⟩
        (.snapshot 0 (List.replicate SNAPSHOT_SIZE 0)) = savedState host vm := by
      rw [Call.exec, Hypervisor.snapshot, length_replicate, if_neg (Nat.lt_irrefl _),
        drop_replicate, Nat.sub_self, replicate_zero, append_nil]
      rfl
    have hne : vm.ctx.l2Phys ≠ 0 := by
      intro hzero
      rw [VirtualMachine.root, hzero] at hroot
      exact Nat.mul_ne_zero hbuilt.free.2.1.ne' (by decide) hroot.symm
    refine ⟨host, vm, hactive, hid, hne, ?_⟩
    rw [savedAfter, savedCalls, foldl_cons, foldl_cons, hcreate, hsave]

theorem exec_restore_saved (hsaved : s.snapshots = [(vm, vm.bytes)])
    (slot : Fin MAX_VMS) : Call.exec s (.restore slot 0) = s.setVm slot vm := by
  rw [exec_restore, hsaved]
  · rfl
  · rw [hsaved]
    intro p hp
    obtain rfl := mem_singleton.mp hp
    exact ⟨[], (append_nil _).symm⟩

theorem exec_destroy_first (hactive : (s.vms 0).active) (hid : (s.vms 0).vmId = vmId)
    (hne : (s.vms 0).ctx.l2Phys ≠ 0) : Call.exec s (.destroy vmId) =
      { s with
        host := destroyGstage s.host (s.vms 0).root
        log := .destroyed (s.vms 0).root :: s.log
        vms := update s.vms 0 { s.vms 0 with active := false, running := false } } := by
  have hall : List.finRange MAX_VMS = 0 :: (List.finRange MAX_VMS).tail := rfl
  have hfirst : s.vmById vmId = some 0 := by
    rw [System.vmById, hall, find?_cons_of_pos]
    simp [hactive, hid]
  rw [Call.exec, System.vmDestroy, hfirst]
  dsimp only
  rw [if_pos hne]
  rfl

theorem run_savedAfter (calls : List Call) (hcalls : ∀ c ∈ calls, ∀ s, Allowed s c) :
    Run (Guarded Step Allowed) (.boot idleHost) (savedCalls frames calls) (savedAfter calls) := by
  have hcreate : Allowed (.boot idleHost) (.create [118, 109] 1 frames) := by
    intro _ _ j hj
    cases hj
  unfold savedAfter savedCalls
  rw [foldl_cons]
  refine .cons ⟨hcreate, rfl⟩ (run_foldl Call.exec _ (fun c hc s => ⟨?_, rfl⟩) _)
  rcases mem_cons.mp hc with rfl | hc
  · trivial
  · exact hcalls c hc s

/-- A machine may be restored into its own slot while it exists, not after it was destroyed. -/
theorem vm_ownership_iff_saved :
    Owned (Call.exec (savedAfter []) (.restore 0 0)) ∧ Owned (savedAfter [.destroy 1]) ∧
      ¬ Owned (Call.exec (savedAfter [.destroy 1]) (.restore 0 0)) := by
  have hsave := vm_ownership_iff (run_savedAfter [] (by simp)) (.restore 0 0)
  have hdestroy := vm_ownership_iff (run_savedAfter [.destroy 1] (by simp [Allowed]))
    (.restore 0 0)
  refine ⟨hsave.2.mpr ?_, hdestroy.1, mt hdestroy.2.mp ?_⟩
  · obtain ⟨host, vm, -, -, -, heq⟩ := exec_savedCalls []
    rw [heq]
    rintro p ⟨⟩ -
    refine ⟨mem_cons_self, fun j hj hactive => ?_⟩
    simp [savedState, update_of_ne hj, VirtualMachine.zeroed] at hactive
  · obtain ⟨host, vm, hactive, hid, hne, heq⟩ := exec_savedCalls [.destroy 1]
    have hfirst := exec_destroy_first (s := savedState host vm) hactive hid hne
    rw [heq, foldl_cons, foldl_nil, hfirst]
    intro hallowed
    have hlive := (hallowed (vm, vm.bytes) rfl hactive).1
    simp [live, savedState] at hlive

/-- A machine that is restored into a second slot is there twice, and one that is restored after
    it was destroyed has its root freed twice. -/
theorem restored_root_shared :
    (let s := savedAfter [.restore 1 0];
      (s.vms 0).active ∧ (s.vms 1).active ∧ (s.vms 0).vmId = (s.vms 1).vmId ∧
        (s.vms 0).root = (s.vms 1).root) ∧
    ∃ root, (savedAfter [.destroy 1, .restore 0 0, .destroy 1]).log =
      [.destroyed root, .destroyed root, .built root] := by
  constructor
  · obtain ⟨host, vm, hactive, -, -, heq⟩ := exec_savedCalls [.restore 1 0]
    rw [heq, foldl_cons, foldl_nil, exec_restore_saved rfl]
    exact ⟨hactive, hactive, rfl, rfl⟩
  · obtain ⟨host, vm, hactive, hid, hne, heq⟩ :=
      exec_savedCalls [.destroy 1, .restore 0 0, .destroy 1]
    have hfirst := exec_destroy_first (s := savedState host vm) hactive hid hne
    rw [heq, foldl_cons, hfirst, foldl_cons, exec_restore_saved rfl, foldl_cons,
      foldl_nil, exec_destroy_first hactive hid hne]
    exact ⟨vm.root, rfl⟩

/-! ### A machine that cannot be created -/

/-- A failed `vm_create` leaves the table of machines alone, and the frames that are in use stay
    the same exactly when it got none: what it took before it failed is not given back. -/
theorem vmCreate_failed_iff (s : System) (name : List UInt8) (memoryMb : Nat) (answers : List Nat)
    (hfail : (s.vmCreate name memoryMb answers).1 = none) :
    (s.vmCreate name memoryMb answers).2.vms = s.vms ∧
    ((∀ f, f ∈ (s.vmCreate name memoryMb answers).2.host.allocated ↔ f ∈ s.host.allocated) ↔
      memoryMb = 0 ∨ memoryMb > MAX_GUEST_MB ∨ ∀ f ∈ answers.head?, ¬ s.host.Free f) := by
  have hkeeps := createGstage_keeps_iff { s.host with answers } memoryMb
  unfold System.vmCreate at hfail ⊢
  rcases hrun : run (createGstage memoryMb) { s.host with answers } with ⟨_ | ⟨hgatp, l2⟩, host⟩ <;>
    rw [hrun] at hfail hkeeps
  · exact ⟨rfl, hkeeps⟩
  · dsimp only at hfail ⊢
    rcases hslot : s.freeSlot with _ | i
    · exact ⟨rfl, hkeeps⟩
    · rw [hslot] at hfail
      cases hfail

/-- Without a frame nothing is taken; with one, the root table is. -/
theorem vmCreate_failed_frames :
    (∀ f, f ∈ (System.vmCreate (.boot idleHost) [] 1 []).2.host.allocated ↔
      f ∈ idleHost.allocated) ∧
    (System.vmCreate (.boot idleHost) [] 1 [0x80000]).2.vms = (System.boot idleHost).vms ∧
    ¬ ∀ f, f ∈ (System.vmCreate (.boot idleHost) [] 1 [0x80000]).2.host.allocated ↔
      f ∈ idleHost.allocated := by
  obtain ⟨-, hnone⟩ := vmCreate_failed_iff (.boot idleHost) [] 1 [] rfl
  obtain ⟨hvms, hone⟩ := vmCreate_failed_iff (.boot idleHost) [] 1 [0x80000] rfl
  have htaken : ¬ (1 = 0 ∨ 1 > MAX_GUEST_MB ∨
      ∀ f ∈ [0x80000].head?, ¬ (System.boot idleHost).host.Free f) := by decide
  exact ⟨hnone.mpr (.inr (.inr (by simp))), hvms, mt hone.mp htaken⟩

/-- One frame is left: it becomes the root table, and stays in use when the next one is refused. -/
theorem vmCreate_leaks : System.vmCreate (.boot idleHost) [] 1 [0x80000] =
    (none, .boot ⟨fill (fun _ => 0) 0x80000000 PAGE_SIZE 0, [0x80000], []⟩) := rfl

end TrainOS.Hypervisor
