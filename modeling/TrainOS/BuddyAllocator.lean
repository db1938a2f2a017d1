import TrainOS.ByteMemory
import TrainOS.LinkedChain
import TrainOS.DyadicBlocks
import TrainOS.Layout

/-!
# The physical page allocator (`mem/buddy.rs`)

A buddy allocator over the pages of `[base, end)` with one intrusive free list per order: the
link of a free block is the first machine word of the block, `0` ends a list.  Free lists hold
page indices; in front of them each hart keeps a small stack of single pages.
-/

namespace TrainOS.Buddy

open ByteMemory LinkedChain DyadicBlocks MachineWord

def MAX_ORDER : Nat := 12

def FREE_LIST_COUNT : Nat := MAX_ORDER + 1

/-- The locked state of the allocator; `limit` is the source's `end`, and `mem` is
    the physical memory. -/
structure BuddyInner where
  freeLists : Nat → Option Nat
  base : Nat
  limit : Nat
  totalPages : Nat
  allocatedPages : Nat
  mem : Memory

def pageToAddr (base page : Nat) : Nat := wrapAdd base (wrapMul page PAGE_SIZE)

def addrToPage (base addr : Nat) : Nat := wrapSub addr base / PAGE_SIZE

/-- The link stored in a free page; `0` is read as the end of the list. -/
def nodeNext (m : Memory) (base page : Nat) : Option Nat :=
  let val := readLE m (pageToAddr base page) 8
  if val = 0 then none else some val

def setNodeNext (m : Memory) (base page : Nat) (next : Option Nat) : Memory :=
  writeLE m (pageToAddr base page) 8 (next.getD 0)

namespace BuddyInner

def next (s : BuddyInner) : Nat → Option Nat := nodeNext s.mem s.base

def hasBuddy (s : BuddyInner) (page order : Nat) : Bool :=
  let blockSize := 2 ^ order
  let buddyAddr := pageToAddr s.base (buddy page order)
  let buddyEnd := wrapAdd buddyAddr (wrapMul blockSize PAGE_SIZE)
  decide (s.base ≤ buddyAddr) && decide (buddyEnd ≤ s.limit)

def pushFree (s : BuddyInner) (page order : Nat) : BuddyInner :=
  { s with
    mem := setNodeNext s.mem s.base page (s.freeLists order)
    freeLists := Function.update s.freeLists order (some page) }

def popFree (s : BuddyInner) (order : Nat) : Option Nat × BuddyInner :=
  match s.freeLists order with
  | none => (none, s)
  | some p => (some p, { s with freeLists := Function.update s.freeLists order (s.next p) })

/-- Halve the first block of order `order` until a block of order `targetOrder` is
    left over; `none` is the panic of `unwrap` or of `unreachable!`. -/
def split (s : BuddyInner) : Nat → Nat → Option (Nat × BuddyInner)
  | 0, _ => none
  | order + 1, targetOrder =>
      if order + 1 > targetOrder then
        match s.popFree (order + 1) with
        | (none, _) => none
        | (some blockStart, s) =>
            let s := s.pushFree (wrapAdd blockStart (2 ^ order)) order
            if order > targetOrder then
              (s.pushFree blockStart order).split order targetOrder
            else
              some (blockStart, s)
      else none

/-- Take the buddy, whose predecessor on its list is `prev`, off that list. -/
def unlink (s : BuddyInner) (buddyPage order : Nat) (prev : Option Nat) : BuddyInner :=
  let buddyNext := s.next buddyPage
  match prev with
  | some prevP => { s with mem := setNodeNext s.mem s.base prevP buddyNext }
  | none => { s with freeLists := Function.update s.freeLists order buddyNext }

/-- The loop of `try_merge`, with the rounds left until `MAX_ORDER`.  A free list
    visits no page twice, so the search is given `totalPages` nodes; a search that
    needs more does not return. -/
def mergeLoop : Nat → BuddyInner → Nat → Nat → Option BuddyInner
  | 0, s, page, order => some (s.pushFree page order)
  | rounds + 1, s, page, order =>
      if s.hasBuddy page order then
        match scan s.next (buddy page order) s.totalPages none (s.freeLists order) with
        | .diverged => none
        | .absent => some (s.pushFree page order)
        | .found prev =>
            mergeLoop rounds (s.unlink (buddy page order) order prev)
              (clearBit 64 page order) (order + 1)
      else some (s.pushFree page order)

def tryMerge (s : BuddyInner) (page order : Nat) : Option BuddyInner :=
  mergeLoop (MAX_ORDER - order) s page order

/-- `alloc_pages` on the locked state: the outer `none` is a panic, the inner one
    an allocation failure. -/
def allocPages (s : BuddyInner) (order : Nat) : Option (Option Nat × BuddyInner) :=
  if order > MAX_ORDER then some (none, s)
  else
    match (List.range' order (FREE_LIST_COUNT - order)).find?
        fun o => (s.freeLists o).isSome with
    | none => some (none, s)
    | some o =>
        if o > order then
          (s.split o order).map fun r =>
            (some r.1, { r.2 with allocatedPages := wrapAdd r.2.allocatedPages (2 ^ order) })
        else
          match s.popFree o with
          | (none, _) => none
          | (some page, s) =>
              some (some page, { s with allocatedPages := wrapAdd s.allocatedPages (2 ^ o) })

def freePages (s : BuddyInner) (page order : Nat) : Option BuddyInner :=
  if order > MAX_ORDER then some s
  else { s with allocatedPages := wrapSub s.allocatedPages (2 ^ order) }.tryMerge page order

/-- The loop of `init`: push the largest block that still fits, from the bottom of
    the region upwards. -/
def initLoop (s : BuddyInner) (remaining offset order : Nat) : BuddyInner :=
  if 2 ^ order ≤ remaining then
    initLoop (s.pushFree offset order) (remaining - 2 ^ order) (offset + 2 ^ order) order
  else
    match order with
    | 0 => s
    | order + 1 => initLoop s remaining offset order
termination_by (order, remaining)
decreasing_by
  · exact Prod.Lex.right _
      (Nat.sub_lt ((Nat.two_pow_pos _).trans_le (by assumption)) (Nat.two_pow_pos _))
  · exact Prod.Lex.left _ _ (Nat.lt_succ_self _)

def init (base limit : Nat) (mem : Memory) : BuddyInner :=
  let totalPages := wrapSub limit base / PAGE_SIZE
  initLoop
    { freeLists := fun _ => none, base, limit, totalPages, allocatedPages := 0, mem }
    totalPages 0 MAX_ORDER

/-- Sum the sizes of the blocks on all free lists; `none` when a list does not
    end within `totalPages` nodes. -/
def countFreePages (s : BuddyInner) : Option Nat :=
  (List.range FREE_LIST_COUNT).foldlM
    (fun total order =>
      foldNodes (fun total _ => total + 2 ^ order) s.next s.totalPages total
        (s.freeLists order))
    0

def freeBlocks (s : BuddyInner) (order : Nat) : List Nat :=
  nodes s.next s.totalPages (s.freeLists order)

end BuddyInner

/-! ### The per-CPU page caches and the interface -/

def CPU_CACHE_SIZE : Nat := 8

def MAX_CPU_HARTS : Nat := 8

/-- The global allocator: the shared buddy state and, per hart, the cached page
    addresses with the most recently freed one first. -/
structure Allocator where
  inner : BuddyInner
  cpuCaches : Nat → List Nat
  cacheHits : Nat
  cacheMisses : Nat

namespace Allocator

def allocPageFast (a : Allocator) (hart : Nat) : Option Nat × Allocator :=
  if hart ≥ MAX_CPU_HARTS then (none, a)
  else
    match a.cpuCaches hart with
    | [] => (none, a)
    | page :: rest => (some page, { a with cpuCaches := Function.update a.cpuCaches hart rest })

def freePageFast (a : Allocator) (hart page : Nat) : Bool × Allocator :=
  if hart ≥ MAX_CPU_HARTS then (false, a)
  else if (a.cpuCaches hart).length < CPU_CACHE_SIZE then
    (true, { a with
      cpuCaches := Function.update a.cpuCaches hart (page :: a.cpuCaches hart) })
  else (false, a)

def allocPages (a : Allocator) (order : Nat) : Option (Option Nat × Allocator) :=
  (a.inner.allocPages order).map fun r =>
    (r.1.map (pageToAddr r.2.base), { a with inner := r.2 })

def allocPage (a : Allocator) (hart : Nat) : Option (Option Nat × Allocator) :=
  match a.allocPageFast hart with
  | (some page, a) => some (some page, { a with cacheHits := wrapAdd a.cacheHits 1 })
  | (none, a) => { a with cacheMisses := wrapAdd a.cacheMisses 1 }.allocPages 0

def allocPageZeroed (a : Allocator) (hart : Nat) : Option (Option Nat × Allocator) :=
  (a.allocPage hart).map fun r =>
    match r.1 with
    | none => (none, r.2)
    | some page =>
        (some page,
          { r.2 with inner := { r.2.inner with mem := fill r.2.inner.mem page PAGE_SIZE 0 } })

def freePage (a : Allocator) (hart addr order : Nat) : Option Allocator :=
  let buddyFree (a : Allocator) : Option Allocator :=
    (a.inner.freePages (addrToPage a.inner.base addr) order).map fun s => { a with inner := s }
  if order = 0 then
    match a.freePageFast hart addr with
    | (true, a) => some a
    | (false, a) => buddyFree a
  else buddyFree a

def cached (a : Allocator) : List (Nat × Nat) :=
  (List.range MAX_CPU_HARTS).flatMap fun hart => (a.cpuCaches hart).map fun page => (page, 0)

def allocatedPages (a : Allocator) : Nat := a.inner.allocatedPages

def totalPages (a : Allocator) : Nat := a.inner.totalPages

def countFreePages (a : Allocator) : Option Nat := a.inner.countFreePages

/-- The allocator after boot: empty caches and `init` on the region. -/
def boot (base limit : Nat) (mem : Memory) : Allocator :=
  { inner := BuddyInner.init base limit mem
    cpuCaches := fun _ => []
    cacheHits := 0
    cacheMisses := 0 }

end Allocator

/-! ### The allocator with its clients -/

/-- The allocator together with the blocks its clients hold, as pairs of address
    and order. -/
structure System where
  alloc : Allocator
  handed : List (Nat × Nat)

inductive Call where
  | allocPage (hart : Nat)
  | allocPageZeroed (hart : Nat)
  | allocPages (order : Nat)
  | freePage (hart addr order : Nat)
  | store (addr : Nat) (x : UInt8)

def System.grant (sys : System) (r : Option Nat) (order : Nat) (a : Allocator) : System :=
  match r with
  | none => { sys with alloc := a }
  | some addr => { alloc := a, handed := (addr, order) :: sys.handed }

def System.released (sys : System) (addr order : Nat) (a : Allocator) : System :=
  { alloc := a, handed := sys.handed.erase (addr, order) }

def System.poke (sys : System) (addr : Nat) (x : UInt8) : System :=
  { sys with alloc.inner.mem := Function.update sys.alloc.inner.mem addr x }

/-- The blocks on the free lists, as pairs of address and order. -/
def BuddyInner.freeExtents (s : BuddyInner) : List (Nat × Nat) :=
  (List.range FREE_LIST_COUNT).flatMap fun order =>
    (s.freeBlocks order).map fun page => (pageToAddr s.base page, order)

/-- Every block the allocator or a client can reach: handed out, cached or free. -/
def System.extents (sys : System) : List (Nat × Nat) :=
  sys.handed ++ sys.alloc.cached ++ sys.alloc.inner.freeExtents

/-- One call.  A block is freed with the address and order it was handed out
    with, and a client stores only inside a block it holds. -/
inductive Step : System → Call → System → Prop
  | allocPage {sys : System} {hart : Nat} {r : Option Nat} {a : Allocator} :
      sys.alloc.allocPage hart = some (r, a) →
      Step sys (.allocPage hart) (sys.grant r 0 a)
  | allocPageZeroed {sys : System} {hart : Nat} {r : Option Nat} {a : Allocator} :
      sys.alloc.allocPageZeroed hart = some (r, a) →
      Step sys (.allocPageZeroed hart) (sys.grant r 0 a)
  | allocPages {sys : System} {order : Nat} {r : Option Nat} {a : Allocator} :
      sys.alloc.allocPages order = some (r, a) →
      Step sys (.allocPages order) (sys.grant r order a)
  | freePage {sys : System} {hart addr order : Nat} {a : Allocator} :
      (addr, order) ∈ sys.handed →
      sys.alloc.freePage hart addr order = some a →
      Step sys (.freePage hart addr order) (sys.released addr order a)
  | store {sys : System} {addr order dst : Nat} {x : UInt8} :
      (addr, order) ∈ sys.handed → addr ≤ dst → dst < addr + 2 ^ order * PAGE_SIZE →
      Step sys (.store dst x) (sys.poke dst x)

def System.boot (base limit : Nat) (mem : Memory) : System :=
  { alloc := Allocator.boot base limit mem, handed := [] }

end TrainOS.Buddy
