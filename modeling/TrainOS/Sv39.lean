import TrainOS.Layout
import TrainOS.Pte
import TrainOS.RadixTable

/-!
# Sv39 page tables (`mem/sv39.rs`)

Page tables live in physical memory, eight bytes an entry.  The kernel reaches every
table page through its linear map, so a table is named by its physical address.  The
page allocator appears as the sequence of answers it will give: a frame address, or
`none` when it is out of memory.
-/

namespace TrainOS.Sv39

open ByteMemory RadixTable

/-- Physical memory and the coming answers of `alloc_page`. -/
@[ext] structure Phys where
  mem : Memory
  pool : List (Option Nat)

def Phys.allocPage (s : Phys) : Option Nat × Phys :=
  match s.pool with
  | [] => (none, s)
  | r :: rest => (r, { s with pool := rest })

def entryAddr (table : Nat) (i : Fin 512) : Nat := table + 8 * i

def readPte (m : Memory) (table : Nat) (i : Fin 512) : PTE :=
  ⟨BitVec.ofNat 64 (readLE m (entryAddr table i) 8)⟩

def writePte (m : Memory) (table : Nat) (i : Fin 512) (e : PTE) : Memory :=
  writeLE m (entryAddr table i) 8 e.bits.toNat

/-- Allocate a zeroed table page and point entry `i` of `table` to it. -/
def newTable (s : Phys) (table : Nat) (i : Fin 512) : Option Nat × Phys :=
  match s.allocPage with
  | (none, s) => (none, s)
  | (some newPage, s) =>
      (some newPage,
        { s with mem := writePte (fill s.mem newPage PAGE_SIZE 0) table i (.table newPage) })

def nextTable (s : Phys) (table : Nat) (i : Fin 512) (alloc : Bool) : Option Nat × Phys :=
  let e := readPte s.mem table i
  if !e.isValid then
    if alloc then newTable s table i else (none, s)
  else if e.isLeaf then (none, s)
  else (some e.physAddr, s)

def walkProcessPt (s : Phys) (root va : Nat) (alloc : Bool) :
    Option (Nat × Fin 512) × Phys :=
  match nextTable s root (vpn2 va) alloc with
  | (none, s) => (none, s)
  | (some l1, s) =>
      match nextTable s l1 (vpn1 va) alloc with
      | (none, s) => (none, s)
      | (some l0, s) => (some (l0, vpn0 va), s)

/-- `map_page` and `map_user_page` up to the flags and the error text. -/
def mapWith (err : String) (s : Phys) (root va pa : Nat) (r w x u : Bool) :
    Except String Unit × Phys :=
  match walkProcessPt s root va true with
  | (none, s) => (.error err, s)
  | (some (l0, i), s) => (.ok (), { s with mem := writePte s.mem l0 i (.page pa r w x u) })

def mapPage (s : Phys) (root va pa : Nat) (r w x u : Bool) : Except String Unit × Phys :=
  mapWith "map_page: walk failed" s root va pa r w x u

def mapUserPage (s : Phys) (root va pa : Nat) (r w : Bool) : Except String Unit × Phys :=
  mapWith "map_user_page: walk failed" s root va pa r w false true

def unmapUserPage (s : Phys) (root va : Nat) : Phys :=
  match walkProcessPt s root va false with
  | (none, s) => s
  | (some (l0, i), s) => { s with mem := writePte s.mem l0 i .empty }

def unmapUserPagePhys (s : Phys) (root va : Nat) : Option Nat × Phys :=
  match walkProcessPt s root va false with
  | (none, s) => (none, s)
  | (some (l0, i), s) =>
      let e := readPte s.mem l0 i
      if e.isValid && e.isLeaf then
        (some e.physAddr, { s with mem := writePte s.mem l0 i .empty })
      else (none, s)

/-! ### Translation -/

/-- What an address translates to: the physical address and the permissions. -/
structure Translation where
  pa : Nat
  r : Bool
  w : Bool
  x : Bool
  u : Bool
deriving DecidableEq, Repr

def PTE.translation (e : PTE) (size va : Nat) : Translation :=
  { pa := e.physAddr + va % size
    r := e.isReadable
    w := e.isWritable
    x := e.isExecutable
    u := e.isUser }

/-- The three-level walk: a leaf at level two maps 1 GiB, at level one 2 MiB, at
    level zero 4 KiB. -/
def translate (m : Memory) (root va : Nat) : Option Translation :=
  let e2 := readPte m root (vpn2 va)
  if !e2.isValid then none
  else if e2.isLeaf then some (e2.translation (2 ^ 30) va)
  else
    let e1 := readPte m e2.physAddr (vpn1 va)
    if !e1.isValid then none
    else if e1.isLeaf then some (e1.translation (2 ^ 21) va)
    else
      let e0 := readPte m e1.physAddr (vpn0 va)
      if e0.isLeaf then some (e0.translation (2 ^ 12) va) else none

/-! ### Memory as a heap of tables -/

def PTE.decode (e : PTE) : Entry Nat PTE :=
  if !e.isValid then .empty else if e.isLeaf then .leaf e else .branch e.ppn

def tables (m : Memory) : Heap Nat (Fin 512) PTE :=
  fun f i => (readPte m (f * PAGE_SIZE) i).decode

def path (va : Nat) : List (Fin 512) := [vpn2 va, vpn1 va, vpn0 va]

theorem physAddr_eq (e : PTE) : e.physAddr = e.ppn * PAGE_SIZE := by
  unfold PTE.physAddr PAGE_SIZE
  rw [Nat.shiftLeft_eq]

theorem decode_eq_empty {e : PTE} : e.decode = .empty ↔ e.isValid = false := by
  unfold PTE.decode
  cases hv : e.isValid <;> cases hl : e.isLeaf <;> simp

theorem decode_eq_leaf {e v : PTE} : e.decode = .leaf v ↔ e = v ∧ e.isLeaf = true := by
  have himp : e.isLeaf = true → e.isValid = true := PTE.isValid_of_isLeaf
  unfold PTE.decode
  cases hv : e.isValid <;> cases hl : e.isLeaf <;> simp_all

theorem decode_eq_branch {e : PTE} {f : Nat} :
    e.decode = .branch f ↔ e.isValid = true ∧ e.isLeaf = false ∧ e.ppn = f := by
  unfold PTE.decode
  cases hv : e.isValid <;> cases hl : e.isLeaf <;> simp

/-- The size of the page that a leaf maps, by the number of indices left over. -/
def leafSize (left : Nat) : Nat := 2 ^ (12 + 9 * left)

theorem lookup_tables (m : Memory) (f : Nat) (i : Fin 512) (is : List (Fin 512)) :
    lookup (tables m) f (i :: is) =
      let e := readPte m (f * PAGE_SIZE) i
      if !e.isValid then none
      else if e.isLeaf then some (e, is)
      else lookup (tables m) e.ppn is := by
  simp only [lookup, tables, PTE.decode]
  split_ifs <;> rfl

theorem lookup_last (m : Memory) (f0 : Nat) (i : Fin 512) : lookup (tables m) f0 [i] =
      if (readPte m (f0 * PAGE_SIZE) i).isLeaf then some (readPte m (f0 * PAGE_SIZE) i, [])
      else none := by
  simp only [lookup_tables, lookup_nil]
  split_ifs with hinvalid hleaf
  · rw [PTE.isValid_of_isLeaf hleaf] at hinvalid
    cases hinvalid
  all_goals rfl

theorem translate_eq_lookup (m : Memory) (f va : Nat) : translate m (f * PAGE_SIZE) va =
      (lookup (tables m) f (path va)).map fun l => l.1.translation (leafSize l.2.length) va := by
  unfold translate path
  rw [lookup_tables]
  simp only [lookup_tables _ _ (vpn1 va), lookup_last, physAddr_eq]
  split_ifs <;> rfl

end TrainOS.Sv39
