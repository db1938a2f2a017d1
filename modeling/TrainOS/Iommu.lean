import TrainOS.TableGrowth
import TrainOS.UserRange

/-!
# The IOMMU (`device/iommu.rs`)

A device context names the root of a page table, its own or that of a process.  `map` and
`unmap` walk it with a walk of their own, which takes a leaf of level one for a table, and
`map` never hears that a walk has failed.  The context table lies outside the memory of the
page tables; cache flushes have no part in the model.
-/

namespace TrainOS.Iommu

open ByteMemory MachineWord Sv39

/-! ### Device contexts -/

structure IommuDeviceContext where
  word0 : BitVec 64
  word1 : BitVec 64
  word2 : BitVec 64
deriving DecidableEq

namespace IommuDeviceContext

def empty : IommuDeviceContext := ⟨0, 0, 0⟩

/-- V, TC and the mode; the page number of the root; the device for fault reports. -/
def configure (pageTableRoot : Nat) (addressingMode : BitVec 8) (deviceId : Nat) :
    IommuDeviceContext :=
  let modeVal : BitVec 64 := addressingMode.setWidth 64 &&& 0x7
  { word0 := 1 ||| 2 ||| (modeVal <<< 2)
    word1 := BitVec.ofNat 64 (pageTableRoot >>> 12)
    word2 := BitVec.ofNat 64 deviceId }

def isValid (ctx : IommuDeviceContext) : Bool := ctx.word0 &&& 1 != 0

def ptRoot (ctx : IommuDeviceContext) : Nat := (ctx.word1 <<< 12).toNat

end IommuDeviceContext

/-- The hardware: how many contexts it has, and what its directory register holds. -/
structure RvIommu where
  numContexts : Nat
  ddirBase : Nat

def IOMMU_MAX_CONTEXTS : Nat := 16

/-! ### The walk -/

def tableWord (page : Nat) : PTE := ⟨BitVec.ofNat 64 ((page >>> 12) <<< 10 ||| 1)⟩

/-- `(entry >> 10) << 12`: the reserved bits of the entry are kept. -/
def nextPhys (e : PTE) : Nat := ((e.bits >>> 10) <<< 12).toNat

/-- Allocate a zeroed page and point entry `i` of `table` to it. -/
def linkTable (s : Phys) (table : Nat) (i : Fin 512) : Option Nat × Phys :=
  match s.allocPage with
  | (none, s) => (none, s)
  | (some newPage, s) =>
      (some newPage,
        { s with mem := writePte (fill s.mem newPage PAGE_SIZE 0) table i (tableWord newPage) })

def walkL2 (s : Phys) (root : Nat) (i : Fin 512) (alloc : Bool) : Option Nat × Phys :=
  let e := readPte s.mem root i
  if !e.isValid then
    if alloc then linkTable s root i else (none, s)
  else if e.isReadable || e.isWritable || e.isExecutable then (none, s)
  else (some (nextPhys e), s)

/-- From the table of level one to the last table: a valid entry is followed, leaf or not. -/
def walkL1 (s : Phys) (l1 : Nat) (i : Fin 512) (alloc : Bool) : Option Nat × Phys :=
  let e := readPte s.mem l1 i
  if !e.isValid then
    if alloc then linkTable s l1 i else (none, s)
  else (some (nextPhys e), s)

def iommuWalkPt (s : Phys) (root va : Nat) (alloc : Bool) : Option (Nat × Fin 512) × Phys :=
  match walkL2 s root (vpn2 va) alloc with
  | (none, s) => (none, s)
  | (some l1, s) =>
      match walkL1 s l1 (vpn1 va) alloc with
      | (none, s) => (none, s)
      | (some l0, s) => (some (l0, vpn0 va), s)

def pageWord (pa : Nat) (r w : Bool) : PTE :=
  let flags : BitVec 64 := 1 ||| (if r then 2 else 0) ||| (if w then 4 else 0)
  ⟨flags ||| BitVec.ofNat 64 ((pa >>> 12) <<< 10) ||| 0x40 ||| 0x80⟩

def iommuMapPte (s : Phys) (root va pa : Nat) (r w : Bool) : Phys :=
  match iommuWalkPt s root va true with
  | (none, s) => s
  | (some (l0, i), s) => { s with mem := writePte s.mem l0 i (pageWord pa r w) }

def iommuUnmapPte (s : Phys) (root va : Nat) : Phys :=
  match iommuWalkPt s root va false with
  | (none, s) => s
  | (some (l0, i), s) => { s with mem := writePte s.mem l0 i .empty }

/-! ### Page tables for devices -/

structure IommuPageTable where
  rootPhys : Nat
  addressingMode : BitVec 8
  mappedPages : Nat

def shareProcessPt (rootPhys : Nat) : IommuPageTable := ⟨rootPhys, 8, 0⟩

def newDedicated (s : Phys) : Option IommuPageTable × Phys :=
  match s.allocPage with
  | (none, s) => (none, s)
  | (some root, s) => (some ⟨root, 8, 0⟩, { s with mem := fill s.mem root PAGE_SIZE 0 })

/-- The pages from `va & !0xFFF` up to `(va + len + 0xFFF) & !0xFFF`; the sums wrap. -/
def regionPages (va len : Nat) : List Nat :=
  (List.range ((pageAlignUp (wrapAdd va len) - pageAlignDown va) / PAGE_SIZE)).map fun i =>
    pageAlignDown va + i * PAGE_SIZE

def flagR (flags : BitVec 8) : Bool := flags &&& 1 != 0

def flagW (flags : BitVec 8) : Bool := flags &&& 2 != 0

def sharePage (va pa : Nat) (perms : BitVec 8) (st : IommuPageTable × Phys) (pageVa : Nat) :
    IommuPageTable × Phys :=
  let pagePa := wrapAdd pa (pageVa - pageAlignDown va)
  ({ st.1 with mappedPages := wrapAdd st.1.mappedPages 1 },
    iommuMapPte st.2 st.1.rootPhys pageVa pagePa (flagR perms) (flagW perms))

def shareRegion (pt : IommuPageTable) (s : Phys) (va pa len : Nat) (perms : BitVec 8) :
    IommuPageTable × Phys :=
  if !(flagR perms || flagW perms) then (pt, s)
  else (regionPages va len).foldl (sharePage va pa perms) (pt, s)

/-! ### The operations on contexts -/

/-- The page tables with their roots, and the contexts: the built-in table, and the one that
    the directory register points to. -/
structure IoSystem where
  spaces : Spaces
  contextTable : Nat → IommuDeviceContext
  directory : Nat → IommuDeviceContext

def IoSystem.phys (sys : IoSystem) : Phys := sys.spaces.phys

def IoSystem.setPhys (sys : IoSystem) (s : Phys) : IoSystem :=
  { sys with spaces := { sys.spaces with phys := s } }

def createContext (io : RvIommu) (sys : IoSystem) (deviceId pageTableRoot : Nat) :
    Option Nat × IoSystem :=
  let table := if io.ddirBase = 0 then sys.contextTable else sys.directory
  match (List.range io.numContexts).find? fun i => !(table i).isValid with
  | none => (none, sys)
  | some i =>
      let table := Function.update table i (.configure pageTableRoot 8 deviceId)
      (some i, if io.ddirBase = 0 then { sys with contextTable := table }
        else { sys with directory := table })

def iommuShareProcessPt (sys : IoSystem) (contextId processPtRoot : Nat) : Bool × IoSystem :=
  if IOMMU_MAX_CONTEXTS ≤ contextId then (false, sys)
  else
    let ctx := sys.contextTable contextId
    if !ctx.isValid then (false, sys)
    else
      let ctx := { ctx with word1 := BitVec.ofNat 64 (processPtRoot >>> 12) }
      (true, { sys with contextTable := Function.update sys.contextTable contextId ctx })

def contextRoot (io : RvIommu) (sys : IoSystem) (contextId : Nat) : Option Nat :=
  if io.numContexts ≤ contextId then none
  else
    let ctx := sys.contextTable contextId
    if !ctx.isValid then none else some ctx.ptRoot

def mapLoop (s : Phys) (ptRoot iova hpa size : Nat) (flags : BitVec 8) : Phys :=
  ((regionPages iova size).foldl (fun st current =>
    shareRegion st.1 st.2 current (wrapAdd hpa (current - pageAlignDown iova)) PAGE_SIZE flags)
    (shareProcessPt ptRoot, s)).2

def map (io : RvIommu) (sys : IoSystem) (contextId iova hpa size : Nat) (flags : BitVec 8) :
    Bool × IoSystem :=
  match contextRoot io sys contextId with
  | none => (false, sys)
  | some ptRoot => (true, sys.setPhys (mapLoop sys.phys ptRoot iova hpa size flags))

def unmapLoop (s : Phys) (ptRoot iova size : Nat) : Phys :=
  (regionPages iova size).foldl (fun s current => iommuUnmapPte s ptRoot current) s

def unmap (io : RvIommu) (sys : IoSystem) (contextId iova size : Nat) : IoSystem :=
  match contextRoot io sys contextId with
  | none => sys
  | some ptRoot => sys.setPhys (unmapLoop sys.phys ptRoot iova size)

/-! ### Runs -/

/-- What happens to the page tables: the kernel creates and changes process tables, device
    tables and contexts are created, contexts are pointed to other tables, and ranges are
    mapped and unmapped for devices. -/
inductive IoCall where
  | space (c : SpaceCall)
  | newDedicated
  | createContext (deviceId root : Nat)
  | shareProcessPt (contextId root : Nat)
  | map (contextId iova hpa size : Nat) (flags : BitVec 8)
  | unmap (contextId iova size : Nat)

def addDedicated (sys : IoSystem) : IoSystem :=
  match newDedicated sys.phys with
  | (none, s) => sys.setPhys s
  | (some pt, s) => { sys with spaces := { phys := s, roots := pt.rootPhys :: sys.spaces.roots } }

/-- Contexts are given roots that exist. -/
inductive IoStep (io : RvIommu) (kernelRoot : Nat) : IoSystem → IoCall → IoSystem → Prop
  | space {sys : IoSystem} {c : SpaceCall} {spaces : Spaces} :
      SpaceStep kernelRoot sys.spaces c spaces →
      IoStep io kernelRoot sys (.space c) { sys with spaces := spaces }
  | newDedicated {sys : IoSystem} :
      IoStep io kernelRoot sys .newDedicated (addDedicated sys)
  | createContext {sys : IoSystem} {deviceId root : Nat} :
      root ∈ sys.spaces.roots →
      IoStep io kernelRoot sys (.createContext deviceId root)
        (Iommu.createContext io sys deviceId root).2
  | shareProcessPt {sys : IoSystem} {contextId root : Nat} :
      root ∈ sys.spaces.roots →
      IoStep io kernelRoot sys (.shareProcessPt contextId root)
        (iommuShareProcessPt sys contextId root).2
  | map {sys : IoSystem} {contextId iova hpa size : Nat} {flags : BitVec 8} :
      IoStep io kernelRoot sys (.map contextId iova hpa size flags)
        (Iommu.map io sys contextId iova hpa size flags).2
  | unmap {sys : IoSystem} {contextId iova size : Nat} :
      IoStep io kernelRoot sys (.unmap contextId iova size)
        (Iommu.unmap io sys contextId iova size)

def initial (spaces : Spaces) : IoSystem := ⟨spaces, fun _ => .empty, fun _ => .empty⟩

/-! ### What a device sees -/

/-- The translation of an I/O virtual address: the walk of the hardware, and the rights of
    the entry it ends at. -/
def deviceTranslate (m : Memory) (root iova : Nat) : Option Translation :=
  (hardwareWalk m root iova).map fun found => found.2.translation (leafSize found.1) iova

/-- Every byte of the range translates to the corresponding byte of the host range. -/
def Translates (m : Memory) (root iova hpa size : Nat) (flags : BitVec 8) : Prop :=
  ∀ i < size, deviceTranslate m root (iova + i) =
    some ⟨hpa + i, flagR flags, flagW flags, false, false⟩

def Untranslated (m : Memory) (root iova size : Nat) : Prop :=
  ∀ i < size, deviceTranslate m root (iova + i) = none

/-- Outside of the range nothing changed. -/
def SameElsewhere (m m' : Memory) (root iova size : Nat) : Prop :=
  ∀ a, a < iova ∨ iova + size ≤ a → deviceTranslate m' root a = deviceTranslate m root a

/-- Only pages of the table at `root` were written to. -/
def WritesTables (m m' : Memory) (root : Nat) : Prop :=
  ∀ a, m' a ≠ m a → TablePage m' (root / PAGE_SIZE) (a / PAGE_SIZE)

/-- The allocator has a frame for every table that the range lacks. -/
def Supplied (s : Phys) (root iova size : Nat) : Prop :=
  Supplies s.pool ((hasTable s.mem (root / PAGE_SIZE)).tablesFor (regionPages iova size))

end TrainOS.Iommu
