import TrainOS.Layout

/-!
# The pool of remote memory (`distributed/memory.rs`)

For each registered node the pool counts the pages that are still available and keeps a table of
what has been handed out; the pages come from the local allocator.  A handle names the node and
the address, the table also the size.  The entries of the table are never reused, and what is
given back to the allocator is always one page.
-/

namespace TrainOS.RemoteMemory

def MAX_REMOTE_PAGES : Nat := 256
def MAX_POOL_NODES : Nat := 8

/-! ### Handles -/

def encodeHandle (nodeId : UInt8) (phys : Nat) : UInt64 :=
  UInt64.ofNat ((nodeId.toNat <<< 56) ||| ((phys >>> 12) &&& 0x00FFFFFFFFFFFFFF))

def handleNode (handle : UInt64) : UInt8 := UInt8.ofNat (handle.toNat >>> 56)

def handlePhys (handle : UInt64) : Nat := ((handle.toNat &&& 0x00FFFFFFFFFFFFFF) <<< 12) % 2 ^ 64

theorem toNat_encodeHandle (nodeId : UInt8) (phys : Nat) :
    (encodeHandle nodeId phys).toNat = nodeId.toNat * 2 ^ 56 + phys / 2 ^ 12 % 2 ^ 56 := by
  have hnode := nodeId.toNat_lt
  have hpage : phys / 2 ^ 12 % 2 ^ 56 < 2 ^ 56 := Nat.mod_lt _ (by decide)
  rw [encodeHandle, Nat.shiftRight_eq_div_pow,
    show 0x00FFFFFFFFFFFFFF = 2 ^ 56 - 1 from rfl, Nat.and_two_pow_sub_one_eq_mod,
    ← Nat.shiftLeft_add_eq_or_of_lt hpage, Nat.shiftLeft_eq, UInt64.toNat_ofNat']
  exact Nat.mod_eq_of_lt (by omega)

theorem handleNode_encodeHandle (nodeId : UInt8) (phys : Nat) :
    handleNode (encodeHandle nodeId phys) = nodeId := by
  have hshift : (nodeId.toNat * 2 ^ 56 + phys / 2 ^ 12 % 2 ^ 56) / 2 ^ 56 = nodeId.toNat := by omega
  rw [handleNode, toNat_encodeHandle, Nat.shiftRight_eq_div_pow, hshift, UInt8.ofNat_toNat]

theorem handlePhys_encodeHandle (nodeId : UInt8) {phys : Nat} (halign : phys % PAGE_SIZE = 0)
    (hlt : phys < 2 ^ 64) : handlePhys (encodeHandle nodeId phys) = phys := by
  unfold PAGE_SIZE at halign
  rw [handlePhys, toNat_encodeHandle, show 0x00FFFFFFFFFFFFFF = 2 ^ 56 - 1 from rfl,
    Nat.and_two_pow_sub_one_eq_mod, Nat.shiftLeft_eq]
  omega

/-! ### The pools -/

/-- An entry of the table of a node.  Its own copy of the node id is never read. -/
structure RemotePageMeta where
  handle : UInt64
  size : Nat
  inUse : Bool
deriving DecidableEq

/-- `pages` holds the first `page_count` entries of the table. -/
structure NodeMemoryPool where
  nodeId : UInt8
  availablePages : Nat
  pages : List RemotePageMeta
deriving DecidableEq

def NodeMemoryPool.new (nodeId : UInt8) : NodeMemoryPool := ⟨nodeId, 4096, []⟩

def NodeMemoryPool.trackPage (p : NodeMemoryPool) (handle : UInt64) (size : Nat) :
    Bool × NodeMemoryPool :=
  if p.pages.length ≥ MAX_REMOTE_PAGES then (false, p)
  else (true, { p with pages := p.pages ++ [⟨handle, size, true⟩] })

/-- The loop of `release_page`: the size of the first entry in use with the handle, and the
    table without it. -/
def releaseEntry (handle : UInt64) : List RemotePageMeta → Option (Nat × List RemotePageMeta)
  | [] => none
  | e :: pages =>
      if e.handle = handle ∧ e.inUse then some (e.size, { e with inUse := false } :: pages)
      else (releaseEntry handle pages).map fun (size, pages) => (size, e :: pages)

def NodeMemoryPool.releasePage (p : NodeMemoryPool) (handle : UInt64) : Bool × NodeMemoryPool :=
  match releaseEntry handle p.pages with
  | none => (false, p)
  | some (size, pages) => (true, { p with pages, availablePages := p.availablePages + size })

def entriesInUse (pages : List RemotePageMeta) : List (UInt64 × Nat) :=
  (pages.filter (·.inUse)).map fun e => (e.handle, e.size)

def NodeMemoryPool.usedPages (p : NodeMemoryPool) : Nat := ((entriesInUse p.pages).map Prod.snd).sum

def withPool (nodeId : UInt8) (op : NodeMemoryPool → Bool × NodeMemoryPool) :
    List NodeMemoryPool → Bool × List NodeMemoryPool
  | [] => (false, [])
  | p :: pools =>
      if p.nodeId = nodeId then
        let (ok, p) := op p
        (ok, p :: pools)
      else
        let (ok, pools) := withPool nodeId op pools
        (ok, p :: pools)

/-- The list holds the first `node_count` pools.  Those behind it are as `new` made them, so the
    next one is a new pool whether or not it is written again. -/
def registerNode (pools : List NodeMemoryPool) (nodeId : UInt8) : Bool × List NodeMemoryPool :=
  if pools.length ≥ MAX_POOL_NODES then (false, pools)
  else if nodeId.toNat ≥ MAX_POOL_NODES then (false, pools)
  else if pools.any (·.nodeId = nodeId) then (true, pools)
  else (true, pools ++ [.new nodeId])

def trackRemotePage (pools : List NodeMemoryPool) (nodeId : UInt8) (handle : UInt64) (size : Nat) :
    Bool × List NodeMemoryPool :=
  withPool nodeId (fun p =>
    if p.availablePages ≥ size then
      { p with availablePages := p.availablePages - size }.trackPage handle size
    else (false, p)) pools

def releaseRemotePage (pools : List NodeMemoryPool) (handle : UInt64) :
    Bool × List NodeMemoryPool :=
  withPool (handleNode handle) (·.releasePage handle) pools

/-! ### The calls -/

/-- Address and order. -/
abbrev Block := Nat × Nat

/-- The pool, the blocks that the allocator has handed out, to the pool or to others, and the
    blocks that were allocated for handles and have not been given back. -/
structure System where
  pools : List NodeMemoryPool
  blocks : List Block
  granted : List (UInt64 × Block)

/-- After boot: `memory::init` may have registered the local node with its free pages. -/
def System.boot (localPages : Option Nat) (blocks : List Block) : System :=
  ⟨(localPages.map fun n => ⟨0, n, []⟩).toList, blocks, []⟩

/-- A block that the allocator may hand out. -/
def Fresh (blocks : List Block) (phys order : Nat) : Prop :=
  phys % PAGE_SIZE = 0 ∧ 0 < phys ∧ phys + 2 ^ order * PAGE_SIZE ≤ 2 ^ 64 ∧
    ∀ b ∈ blocks, phys + 2 ^ order * PAGE_SIZE ≤ b.1 ∨ b.1 + 2 ^ b.2 * PAGE_SIZE ≤ phys

instance (blocks : List Block) (phys order : Nat) : Decidable (Fresh blocks phys order) :=
  inferInstanceAs (Decidable (_ ∧ _))

/-- `buddy::alloc_pages`: the address that is handed out, unless there is none. -/
def buddyAlloc (s : System) (order : Nat) (answer : Option Nat) : Option Nat :=
  answer.filter (Fresh s.blocks · order)

/-- What `buddy::free_page` was called with, and whether that block was handed out. -/
abbrev Freed := Block × Bool

def buddyFree (s : System) (b : Block) : Freed × System :=
  ((b, decide (b ∈ s.blocks)), { s with blocks := s.blocks.erase b })

/-- The loop of `pages_to_order`; it ends after at most `n` rounds. -/
def orderLoop (n : Nat) : Nat → Nat → Nat → Nat
  | 0, order, _ => order
  | fuel + 1, order, size => if size < n then orderLoop n fuel (order + 1) (size <<< 1) else order

def pagesToOrder (n : Nat) : Nat := orderLoop n n 0 1

def remoteAllocPages (s : System) (nodeId : UInt8) (numPages : Nat) (answer : Option Nat) :
    Option Nat × List Freed × System :=
  if numPages = 0 ∨ numPages > 16 then (none, [], s)
  else
    let order := pagesToOrder numPages
    match buddyAlloc s order answer with
    | none => (none, [], s)
    | some phys =>
        let s := { s with blocks := (phys, order) :: s.blocks }
        let handle := encodeHandle nodeId phys
        match trackRemotePage s.pools nodeId handle (2 ^ order) with
        | (true, pools) =>
            (some phys, [], { s with pools, granted := (handle, phys, order) :: s.granted })
        | (false, pools) =>
            let (freed, s) := buddyFree { s with pools } (phys, order)
            (none, [freed], s)

def remoteFreePage (s : System) (handle : UInt64) : Bool × List Freed × System :=
  match releaseRemotePage s.pools handle with
  | (true, pools) =>
      let (freed, s) := buddyFree { s with pools } (handlePhys handle, 0)
      (true, [freed], { s with granted := s.granted.filter (·.1 ≠ handle) })
  | (false, pools) => (false, [], { s with pools })

/-- `migrate_page_local`; the copy of the contents is left out. -/
def migratePageLocal (s : System) (phys : Nat) (fromNode toNode : UInt8) (answer : Option Nat) :
    Except String Nat × List Freed × System :=
  if phys = 0 ∨ phys % PAGE_SIZE ≠ 0 then (.error "invalid physical address", [], s)
  else if fromNode = toNode then (.error "same node", [], s)
  else
    match remoteAllocPages s toNode 1 answer with
    | (none, freed, s) => (.error "OOM on target", freed, s)
    | (some newPhys, _, s) =>
        let handle := encodeHandle fromNode phys
        let (_, pools) := releaseRemotePage s.pools handle
        let (freed, s) := buddyFree { s with pools } (phys, 0)
        (.ok newPhys, [freed], { s with granted := s.granted.filter (·.1 ≠ handle) })

inductive Call where
  | register (nodeId : UInt8)
  | alloc (nodeId : UInt8) (numPages : Nat) (answer : Option Nat)
  | free (handle : UInt64)
  | migrate (phys : Nat) (fromNode toNode : UInt8) (answer : Option Nat)

/-- Whether the call succeeded, what it gave back to the allocator, and the state afterwards. -/
def Call.exec (s : System) : Call → Bool × List Freed × System
  | .register nodeId =>
      let (ok, pools) := registerNode s.pools nodeId
      (ok, [], { s with pools })
  | .alloc nodeId numPages answer =>
      let (res, freed, s) := remoteAllocPages s nodeId numPages answer
      (res.isSome, freed, s)
  | .free handle => remoteFreePage s handle
  | .migrate phys fromNode toNode answer =>
      let (res, freed, s) := migratePageLocal s phys fromNode toNode answer
      (res.isOk, freed, s)

def Step (s : System) (c : Call) (t : System) : Prop := t = (c.exec s).2.2

def Call.handle? : Call → Option UInt64
  | .free handle => some handle
  | .migrate phys fromNode _ _ => some (encodeHandle fromNode phys)
  | _ => none

end TrainOS.RemoteMemory
