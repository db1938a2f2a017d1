import TrainOS.MachineWord
import TrainOS.StateExcept

/-!
# The capability store (`cap/types.rs`, `cap/ops.rs`)

A global vector of counted resources, each with the resources minted from it.  A CNode is a
resource that holds slots, and a slot names a resource.  Every operation takes the lock on the
vector; `withResources` is the scope of the guard.  What a second attempt of the holder does
depends on the kind of lock; on the kernel's spin mutex it waits for itself.
-/

namespace TrainOS.Capability

open List MachineWord Option StateExcept

inductive CapType
  | null | mem | ep | proc | cnode | vector
  deriving DecidableEq, Repr

abbrev Rights := BitVec 8

structure Slot where
  capType : CapType
  rights : Rights
  resourceId : Nat
  deriving DecidableEq, Repr

def Slot.null : Slot := ⟨.null, 0, 0⟩

inductive ResourceData
  | null
  | mem (physAddr size : Nat)
  | ep (epId : Nat)
  | proc (pid : Nat)
  | cnode (slots : List Slot)
  | vector (pid : Nat)
  deriving DecidableEq, Repr

structure Resource where
  refCount : Nat
  resType : CapType
  derivationParent : Option Nat
  derivationChildren : List Nat
  data : ResourceData
  deriving DecidableEq, Repr

/-- `RESOURCES` and `NEXT_RESOURCE_ID`. -/
structure Store where
  resources : List (Option Resource)
  nextResourceId : Nat
  deriving DecidableEq, Repr

/-- After `cap::init`: entry 0 stays empty, ids start at 1. -/
def Store.init : Store := ⟨[none], 1⟩

/-! ### Reading and changing the vector -/

def setSlot (slots : List Slot) (idx : Nat) (slot : Slot) : List Slot :=
  (slots ++ replicate (idx + 1 - slots.length) Slot.null).set idx slot

variable {slot : Slot} {idx cnodeId : Nat}

theorem getElem?_setSlot {slots : List Slot} (j : Nat) : (setSlot slots idx slot)[j]? =
      if idx = j then some slot
      else if j < idx then some (slots[j]?.getD Slot.null) else slots[j]? := by
  simp only [setSlot, getElem?_set, getElem?_append, length_append,
    length_replicate, getElem?_replicate]
  grind

def Resource.slots? (res : Resource) : Option (List Slot) :=
  match res.data with
  | .cnode slots => some slots
  | _ => none

def Resource.release (res : Resource) : Option Resource :=
  if wrapSub res.refCount 1 = 0 then none
  else some { res with refCount := wrapSub res.refCount 1 }

namespace Store

variable (s : Store)

def get? (id : Nat) : Option Resource := s.resources[id]?.join

def slots? (id : Nat) : Option (List Slot) := (s.get? id).bind Resource.slots?

def slot? (cnodeId idx : Nat) : Option Slot := (s.slots? cnodeId).bind (·[idx]?)

def update (id : Nat) (f : Resource → Option Resource) : Store :=
  { s with resources := s.resources.modify id (·.bind f) }

def insert (id : Nat) (res : Resource) : Store :=
  { s with
    resources := (s.resources ++ replicate (id + 1 - s.resources.length) none).set id
      (some res) }

def addRef (id : Nat) : Store :=
  s.update id fun res => some { res with refCount := wrapAdd res.refCount 1 }

def dropRef (id : Nat) : Store := s.update id Resource.release

def putSlot (cnodeId idx : Nat) (slot : Slot) : Store :=
  s.update cnodeId fun res =>
    match res.data with
    | .cnode slots => some { res with data := .cnode (setSlot slots idx slot) }
    | _ => some res

/-- The new resource of `alloc_resource`, under the next id. -/
def alloc (resType : CapType) (data : ResourceData) : Store :=
  { s.insert s.nextResourceId ⟨1, resType, none, [], data⟩ with
    nextResourceId := s.nextResourceId + 1 }

/-- The child enters the parent's list and remembers its parent. -/
def recordDerivation (parentId childId : Nat) : Store :=
  (s.update parentId fun parent =>
      some { parent with derivationChildren := parent.derivationChildren ++ [childId] }).update
    childId fun child => some { child with derivationParent := some parentId }

variable {s} {id : Nat} {f : Resource → Option Resource} {res : Resource}

theorem get?_update (j : Nat) :
    (s.update id f).get? j = if id = j then (s.get? j).bind f else s.get? j := by
  simp only [get?, update, getElem?_modify]
  rcases s.resources[j]? with _ | _ | r <;> split <;> rfl

theorem get?_insert (j : Nat) :
    (s.insert id res).get? j = if id = j then some res else s.get? j := by
  simp only [get?, insert, getElem?_set, getElem?_append, length_append,
    length_replicate, getElem?_replicate]
  grind

theorem get?_alloc {resType : CapType} {data : ResourceData} (j : Nat) :
    (s.alloc resType data).get? j =
      if s.nextResourceId = j then some ⟨1, resType, none, [], data⟩ else s.get? j :=
  get?_insert j

@[simp] theorem length_update : (s.update id f).resources.length = s.resources.length := by
  simp [update]

@[simp] theorem nextResourceId_update :
    (s.update id f).nextResourceId = s.nextResourceId := rfl

@[simp] theorem slots?_addRef : (s.addRef id).slots? = s.slots? := by
  funext j
  simp only [slots?, addRef, get?_update]
  cases s.get? j <;> split <;> rfl

@[simp] theorem slot?_addRef : (s.addRef id).slot? = s.slot? := by
  funext c i
  simp [slot?]

theorem slots?_putSlot (j : Nat) : (s.putSlot cnodeId idx slot).slots? j =
      if cnodeId = j then (s.slots? j).map (setSlot · idx slot) else s.slots? j := by
  simp only [slots?, putSlot, get?_update]
  split
  · rcases s.get? j with _ | ⟨_, _, _, _, _ | _ | _ | _ | _ | _⟩ <;> rfl
  · rfl

theorem slot?_putSlot (c i : Nat) : (s.putSlot cnodeId idx slot).slot? c i =
      if cnodeId = c then (s.slots? c).bind fun slots => (setSlot slots idx slot)[i]?
      else s.slot? c i := by
  simp only [slot?, slots?_putSlot]
  split
  · cases s.slots? c <;> rfl
  · rfl

theorem slot?_putSlot_isSome {c i : Nat} (h : (s.slot? c i).isSome) :
    ((s.putSlot cnodeId idx slot).slot? c i).isSome := by
  obtain ⟨old, hold⟩ := isSome_iff_exists.mp h
  obtain ⟨slots, hslots, hget⟩ := bind_eq_some_iff.mp hold
  rw [slot?_putSlot]
  split
  · simp only [hslots, bind_some, getElem?_setSlot]
    split
    · rfl
    · split
      · rfl
      · simp [hget]
  · exact h

theorem lt_of_get? (h : s.get? id = some res) : id < s.resources.length := by
  simp only [get?, join_eq_some_iff] at h
  exact (List.getElem?_eq_some_iff.mp h).1

end Store

/-! ### The lock -/

inductive LockKind
  | spin | reentrant
  deriving DecidableEq

/-- Why an operation does not return. -/
inductive Stop
  | panic
  | deadlock
  | outOfFuel
  deriving DecidableEq, Repr

/-- The store, and how often the running operation holds the lock on it. -/
structure LockedStore where
  store : Store
  holds : Nat
  deriving DecidableEq

abbrev CapM := Prog LockedStore Stop

def readStore : CapM Store := do
  let k ← get
  pure k.store

def writeStore (f : Store → Store) : CapM Unit :=
  modify fun k => { k with store := f k.store }

variable (L : LockKind) {src : Slot} {s : Store}

def acquire : CapM Unit := do
  let k ← get
  if L = .spin ∧ 0 < k.holds then throw .deadlock
  else set { k with holds := k.holds + 1 }

def release : CapM Unit := modify fun k => { k with holds := k.holds - 1 }

def withResources {α : Type} (scope : CapM α) : CapM α := do
  acquire L
  let a ← scope
  release
  pure a

/-! ### Operations -/

def allocResource (resType : CapType) (data : ResourceData) : CapM Nat := do
  let s ← readStore
  let id := s.nextResourceId
  writeStore fun s => { s with nextResourceId := id + 1 }
  withResources L do
    writeStore (·.insert id ⟨1, resType, none, [], data⟩)
    pure id

def getResource (id : Nat) : CapM (Option Resource) :=
  withResources L do
    let s ← readStore
    pure (s.get? id)

/-- `inc_ref`: the index is not checked. -/
def incRef (id : Nat) : CapM Unit :=
  withResources L do
    let s ← readStore
    if id < s.resources.length then writeStore (·.addRef id) else throw .panic

def decRef (id : Nat) : CapM Unit :=
  withResources L do writeStore (·.dropRef id)

/-- `duplicate_resource_data_inner`: a CNode's slots are cloned as they are. -/
def duplicateResourceDataInner (resourceId : Nat) : CapM (Option ResourceData) :=
  withResources L do
    let s ← readStore
    match s.get? resourceId with
    | none => pure none
    | some res => do
      incRef L resourceId
      pure (some res.data)

def Store.mintSource (s : Store) (cnodeId srcSlotIdx : Nat) (desiredRights : Rights) :
    Option Slot := do
  let src ← s.slot? cnodeId srcSlotIdx
  if src.capType = .null then none
  else if desiredRights &&& src.rights ≠ desiredRights then none
  else some src

theorem Store.mintSource_eq_some {rights : Rights} : s.mintSource cnodeId idx rights = some src ↔
      s.slot? cnodeId idx = some src ∧ src.capType ≠ .null ∧ rights &&& src.rights = rights := by
  cases hslot : s.slot? cnodeId idx <;> simp [Store.mintSource, hslot]
  grind

def mint (cnodeId srcSlotIdx : Nat) (desiredRights : Rights) : CapM (Option Slot) :=
  withResources L do
    let s ← readStore
    match s.mintSource cnodeId srcSlotIdx desiredRights with
    | none => pure none
    | some src => do
      match ← duplicateResourceDataInner L src.resourceId with
      | none => pure none
      | some data => do
        let childId ← allocResource L src.capType data
        writeStore (·.recordDerivation src.resourceId childId)
        pure (some ⟨src.capType, desiredRights, childId⟩)

/-- The node a call works on, or the message for an id without one. -/
def Store.node (s : Store) (id : Nat) (missing freed : String) : Except String Resource :=
  match s.resources[id]? with
  | none => .error missing
  | some none => .error freed
  | some (some res) => .ok res

def Store.copySource (s : Store) (srcCnode srcIdx : Nat) : Except String Slot := do
  let node ← s.node srcCnode "src cnode not found" "src cnode freed"
  match node.slots? with
  | none => .error "src not a cnode"
  | some slots =>
    let slot := slots[srcIdx]?.getD Slot.null
    if slot.capType = .null then .error "src slot null" else .ok slot

theorem Store.copySource_eq_ok :
    s.copySource cnodeId idx = .ok src ↔ s.slot? cnodeId idx = some src ∧ src.capType ≠ .null := by
  simp only [copySource, node, slot?, slots?, get?]
  rcases s.resources[cnodeId]? with _ | _ | res
  · simp [bind, Except.bind]
  · simp [bind, Except.bind]
  · cases hslots : res.slots? with
    | none => simp [bind, Except.bind, hslots]
    | some slots =>
      cases hslot : slots[idx]? <;> simp [bind, Except.bind, hslots, hslot, Slot.null]
      grind

/-- `copy_cap`: the reference is counted before the destination is looked up. -/
def copyCap (srcCnode srcIdx dstCnode dstIdx : Nat) : CapM (Except String Unit) :=
  withResources L do
    let s ← readStore
    match s.copySource srcCnode srcIdx with
    | .error e => pure (.error e)
    | .ok srcSlot => do
      incRef L srcSlot.resourceId
      match s.node dstCnode "dst cnode not found" "dst cnode freed" with
      | .error e => pure (.error e)
      | .ok _ => do
        writeStore (·.putSlot dstCnode dstIdx srcSlot)
        pure (.ok ())

/-- The second scope of `move_cap`: the source slot is overwritten, its reference stays
    counted. -/
def emptySource (srcCnode srcIdx : Nat) : CapM (Except String Unit) :=
  withResources L do
    let s ← readStore
    match s.get? srcCnode with
    | none => throw .panic
    | some node =>
      match node.slots? with
      | none => pure (.ok ())
      | some slots =>
        if srcIdx < slots.length then do
          writeStore (·.putSlot srcCnode srcIdx Slot.null)
          pure (.ok ())
        else throw .panic

def moveCap (srcCnode srcIdx dstCnode dstIdx : Nat) : CapM (Except String Unit) := do
  match ← copyCap L srcCnode srcIdx dstCnode dstIdx with
  | .error e => pure (.error e)
  | .ok () => emptySource L srcCnode srcIdx

/-- `revoke`: the children in the list at the time of the call, each of them first. -/
def revoke : Nat → Nat → CapM Unit
  | 0, _ => throw .outOfFuel
  | fuel + 1, resourceId => do
    let found ← withResources L do
      let s ← readStore
      if resourceId < s.resources.length then pure (s.get? resourceId) else throw .panic
    match found with
    | none => pure ()
    | some res => do
      forM res.derivationChildren (revoke fuel)
      decRef L resourceId

/-- What `delete_cap` does under the lock: empty the slot and tell which resource it named. -/
def takeSlot (cnodeId slotIdx : Nat) : CapM (Except String Nat) := do
  let s ← readStore
  match s.node cnodeId "cnode not found" "cnode freed" with
  | .error e => pure (.error e)
  | .ok cnode =>
    match cnode.slots? with
    | none => pure (.error "not a cnode")
    | some slots =>
      match slots[slotIdx]? with
      | none => pure (.error "slot out of range")
      | some slot => do
        writeStore (·.putSlot cnodeId slotIdx Slot.null)
        pure (.ok slot.resourceId)

/-- `delete_cap`: the lock is given back before the reference is dropped. -/
def deleteCap (cnodeId slotIdx : Nat) : CapM (Except String Unit) := do
  match ← withResources L (takeSlot cnodeId slotIdx) with
  | .error e => pure (.error e)
  | .ok rid => do
    decRef L rid
    pure (.ok ())

end TrainOS.Capability
