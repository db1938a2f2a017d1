import TrainOS.Sv39Walk
import TrainOS.Runs

/-!
# The kernel mapping and its copies (`mem/sv39.rs`)

`setup_kernel_mapping` fills the kernel root with superpages; the kernel root points
twice to the same second-level table, once for the low and once for the high view of
DRAM.  `copy_kernel_mappings` gives a process root its own copies of the second-level
tables.  A `none` result is the panic of `expect` on an allocation failure.
-/

namespace TrainOS.Sv39

open ByteMemory

def MMIO_BASE : Nat := 0x10000000

def ECAM_BASE : Nat := 0x30000000

def allocTable (s : Phys) : Option (Nat × Phys) :=
  match s.allocPage with
  | (none, _) => none
  | (some page, s) => some (page, { s with mem := fill s.mem page PAGE_SIZE 0 })

def initRootPt (s : Phys) : Option (Nat × Phys) := allocTable s

/-- A kernel-only 2 MiB superpage that maps a device at its physical address. -/
def deviceEntry (m : Memory) (l1Mmio base : Nat) : Memory :=
  writePte m l1Mmio (vpn1 base) (.page base true true false false)

def dramEntry (l1Page : Nat) (m : Memory) (i : Fin 64) : Memory :=
  writePte m l1Page (i.castLE (by decide)) (.page (DRAM_BASE + i * 0x200000) true true true false)

def setupKernelMapping (s : Phys) (root : Nat) : Option Phys := do
  let (l1Page, s) ← allocTable s
  let m := writePte s.mem root (vpn2 KERNEL_VBASE) (.table l1Page)
  let m := writePte m root (vpn2 DRAM_BASE) (.table l1Page)
  let m := (List.finRange 64).foldl (dramEntry l1Page) m
  let (l1MmioPage, s) ← allocTable { s with mem := m }
  let m := writePte s.mem root (vpn2 CLINT_BASE) (.table l1MmioPage)
  let m := deviceEntry m l1MmioPage CLINT_BASE
  let m := deviceEntry m l1MmioPage MMIO_BASE
  let m := deviceEntry m l1MmioPage ECAM_BASE
  return { s with mem := m }

/-- One iteration of `copy_kernel_mappings`: a second-level table is copied, any other
    entry is taken over as it is. -/
def copyKernelEntry (kernelRoot target : Nat) (s : Phys) (i : Fin 512) : Option Phys :=
  let entry := readPte s.mem kernelRoot i
  if entry.isBranch then
    match s.allocPage with
    | (none, _) => none
    | (some newL1, s) =>
        let m := copy s.mem entry.physAddr newL1 PAGE_SIZE
        some { s with mem := writePte m target i (.table newL1) }
  else some { s with mem := writePte s.mem target i entry }

def copyKernelMappings (kernelRoot target : Nat) (s : Phys) : Option Phys :=
  (List.finRange 512).foldlM (copyKernelEntry kernelRoot target) s

/-! ### Processes on top of one kernel table -/

/-- Physical memory with the roots of the processes created so far. -/
structure Spaces where
  phys : Phys
  roots : List Nat

def bootSpaces (s : Phys) : Option (Nat × Spaces) := do
  let (kernelRoot, s) ← initRootPt s
  let s ← setupKernelMapping s kernelRoot
  return (kernelRoot, { phys := s, roots := [] })

/-- What happens to the address spaces: a process root is created, or a call is made
    on one. -/
inductive SpaceCall where
  | newRoot
  | mapPage (root va pa : Nat) (r w x u : Bool)
  | mapUserPage (root va pa : Nat) (r w : Bool)
  | unmapUserPage (root va : Nat)

/-- A process root is a fresh zeroed frame that receives the kernel mappings; calls go
    to existing roots. -/
inductive SpaceStep (kernelRoot : Nat) : Spaces → SpaceCall → Spaces → Prop
  | newRoot {sys : Spaces} {target : Nat} {s s' : Phys} :
      allocTable sys.phys = some (target, s) → copyKernelMappings kernelRoot target s = some s' →
      SpaceStep kernelRoot sys .newRoot { phys := s', roots := target :: sys.roots }
  | mapPage {sys : Spaces} {root va pa : Nat} {r w x u : Bool} :
      root ∈ sys.roots →
      SpaceStep kernelRoot sys (.mapPage root va pa r w x u)
        { sys with phys := (Sv39.mapPage sys.phys root va pa r w x u).2 }
  | mapUserPage {sys : Spaces} {root va pa : Nat} {r w : Bool} :
      root ∈ sys.roots →
      SpaceStep kernelRoot sys (.mapUserPage root va pa r w)
        { sys with phys := (Sv39.mapUserPage sys.phys root va pa r w).2 }
  | unmapUserPage {sys : Spaces} {root va : Nat} :
      root ∈ sys.roots →
      SpaceStep kernelRoot sys (.unmapUserPage root va)
        { sys with phys := Sv39.unmapUserPage sys.phys root va }

end TrainOS.Sv39
