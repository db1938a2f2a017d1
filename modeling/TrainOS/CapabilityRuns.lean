import TrainOS.CapabilityLock
import TrainOS.Runs

/-!
# Runs of the capability operations

The calls the kernel makes on the store, with the lock taken as reentrant.  A process keeps its
new CNode in its record, the other callers put a slot into some CNode.  `Effect` is the whole
of what a call can do to the store; every invariant of a run is proved from it.
-/

namespace TrainOS.Capability

open StateExcept

/-- An index of a CNode. -/
structure Place where
  cnode : Nat
  idx : Nat
  deriving DecidableEq, Repr

/-- What a new resource starts with: a CNode has no capabilities in it yet. -/
structure NewData where
  data : ResourceData
  empty : ∀ slots, data = .cnode slots → ∀ slot ∈ slots, slot = Slot.null

variable {resType : CapType}

theorem NewData.slots_null (data : NewData) {slots : List Slot}
    (hslots : Resource.slots? ⟨1, resType, none, [], data.data⟩ = some slots) :
    ∀ slot ∈ slots, slot = Slot.null := by
  refine data.empty slots ?_
  simp only [Resource.slots?] at hslots
  split at hslots <;> simp_all

def NewData.processCNode : NewData where
  data := .cnode (List.replicate 16 Slot.null)
  empty := by
    rintro _ ⟨⟩ slot hslot
    exact List.eq_of_mem_replicate hslot

def NewData.endpoint (epId : Nat) : NewData where
  data := .ep epId
  empty := by rintro _ ⟨⟩

inductive CapCall
  | spawn
  | create (resType : CapType) (data : NewData) (rights : Rights) (dst : Place)
  | mint (src : Place) (rights : Rights) (dst : Place)
  | copyCap (src dst : Place)
  | moveCap (src dst : Place)
  | deleteCap (place : Place)
  | revoke (id : Nat)

inductive Outcome
  | allocated (id : Nat)
  | minted (slot : Option Slot)
  | returned (res : Except String Unit)
  | revoked
  deriving DecidableEq

def keepSlot (dst : Place) (slot : Slot) : CapM Unit :=
  writeStore (·.putSlot dst.cnode dst.idx slot)

def perform (fuel : Nat) : CapCall → CapM Outcome
  | .spawn => do
    let id ← allocResource .reentrant .cnode NewData.processCNode.data
    pure (.allocated id)
  | .create resType data rights dst => do
    let id ← allocResource .reentrant resType data.data
    keepSlot dst ⟨resType, rights, id⟩
    pure (.allocated id)
  | .mint src rights dst => do
    match ← mint .reentrant src.cnode src.idx rights with
    | none => pure (.minted none)
    | some slot => do
      keepSlot dst slot
      pure (.minted (some slot))
  | .copyCap src dst => do
    let res ← copyCap .reentrant src.cnode src.idx dst.cnode dst.idx
    pure (.returned res)
  | .moveCap src dst => do
    let res ← moveCap .reentrant src.cnode src.idx dst.cnode dst.idx
    pure (.returned res)
  | .deleteCap place => do
    let res ← deleteCap .reentrant place.cnode place.idx
    pure (.returned res)
  | .revoke id => do
    revoke .reentrant fuel id
    pure .revoked

/-- The call returns with the outcome `out` and leaves the store `t`. -/
def Returns (s : Store) (call : CapCall) (out : Outcome) (t : Store) : Prop :=
  ∃ fuel, run (perform fuel call) ⟨s, 0⟩ = (.ok out, ⟨t, 0⟩)

def Step (s : Store) (call : CapCall) (t : Store) : Prop := ∃ out, Returns s call out t

/-! ### Runs with a record beside the store -/

variable {calls : List CapCall}

section Recorded

variable {G : Type}

/-- A call, and what is noted of it beside the store. -/
def RecordedStep (note : Store → CapCall → Outcome → G → G) (x : Store × G) (call : CapCall)
    (y : Store × G) : Prop :=
  ∃ out, Returns x.1 call out y.1 ∧ y.2 = note x.1 call out x.2

/-- The calls one after another, as long as each of them returns. -/
def execute (note : Store → CapCall → Outcome → G → G) (fuel : Nat) :
    List CapCall → Store × G → Option (Store × G)
  | [], x => some x
  | call :: calls, x =>
      match run (perform fuel call) ⟨x.1, 0⟩ with
      | (.ok out, ⟨t, 0⟩) => execute note fuel calls (t, note x.1 call out x.2)
      | _ => none

variable {note : Store → CapCall → Outcome → G → G}

theorem execute_run {fuel : Nat} {x y : Store × G} (h : execute note fuel calls x = some y) :
    Runs.Run (RecordedStep note) x calls y := by
  induction calls generalizing x with
  | nil =>
    obtain rfl := Option.some.inj h
    exact .nil x
  | cons call calls ih =>
    rw [execute] at h
    split at h
    next out t hrun => exact .cons ⟨out, ⟨fuel, hrun⟩, rfl⟩ (ih h)
    next => cases h

theorem run_of_recorded {x y : Store × G} (h : Runs.Run (RecordedStep note) x calls y) :
    Runs.Run Step x.1 calls y.1 := by
  induction h with
  | nil x => exact .nil x.1
  | cons hfirst _ ih =>
    obtain ⟨out, hreturns, -⟩ := hfirst
    exact .cons ⟨out, hreturns⟩ ih

end Recorded

/-! ### What a call does to the store -/

def Store.put (s : Store) (place : Place) (slot : Slot) : Store :=
  s.putSlot place.cnode place.idx slot

def Store.at? (s : Store) (place : Place) : Option Slot := s.slot? place.cnode place.idx

inductive Effect (s : Store) : CapCall → Outcome → Store → Prop
  | spawn : Effect s .spawn (.allocated s.nextResourceId)
      (s.alloc .cnode NewData.processCNode.data)
  | create {resType data rights dst} :
      Effect s (.create resType data rights dst) (.allocated s.nextResourceId)
        ((s.alloc resType data.data).put dst ⟨resType, rights, s.nextResourceId⟩)
  | mintRefused {src rights dst} : Effect s (.mint src rights dst) (.minted none) s
  | mint {src rights dst slot res} (hslot : s.at? src = some slot) (hnull : slot.capType ≠ .null)
      (hrights : rights &&& slot.rights = rights) (hres : s.get? slot.resourceId = some res) :
      Effect s (.mint src rights dst)
        (.minted (some ⟨slot.capType, rights, s.nextResourceId⟩))
        ((s.minted slot res).put dst ⟨slot.capType, rights, s.nextResourceId⟩)
  | copyRefused {src dst e} : Effect s (.copyCap src dst) (.returned (.error e)) s
  | copyLost {src dst slot e} (hslot : s.at? src = some slot) (hnull : slot.capType ≠ .null)
      (hdst : s.get? dst.cnode = none) :
      Effect s (.copyCap src dst) (.returned (.error e)) (s.addRef slot.resourceId)
  | copy {src dst slot node} (hslot : s.at? src = some slot) (hnull : slot.capType ≠ .null)
      (hdst : s.get? dst.cnode = some node) :
      Effect s (.copyCap src dst) (.returned (.ok ()))
        ((s.addRef slot.resourceId).put dst slot)
  | moveRefused {src dst e} : Effect s (.moveCap src dst) (.returned (.error e)) s
  | moveLost {src dst slot e} (hslot : s.at? src = some slot) (hnull : slot.capType ≠ .null)
      (hdst : s.get? dst.cnode = none) :
      Effect s (.moveCap src dst) (.returned (.error e)) (s.addRef slot.resourceId)
  | move {src dst slot node} (hslot : s.at? src = some slot) (hnull : slot.capType ≠ .null)
      (hdst : s.get? dst.cnode = some node) :
      Effect s (.moveCap src dst) (.returned (.ok ()))
        (((s.addRef slot.resourceId).put dst slot).put src Slot.null)
  | deleteRefused {place e} : Effect s (.deleteCap place) (.returned (.error e)) s
  | delete {place slot} (hslot : s.at? place = some slot) :
      Effect s (.deleteCap place) (.returned (.ok ()))
        ((s.put place Slot.null).dropRef slot.resourceId)
  | revoke {id} (ids : List Nat) : Effect s (.revoke id) .revoked (ids.foldl Store.dropRef s)

variable {s t : Store} {place : Place} {slot : Slot}

theorem Store.toOption_node (id : Nat) (missing freed : String) :
    s.get? id = (s.node id missing freed).toOption := by
  rw [Store.get?, Store.node]
  rcases s.resources[id]? with _ | _ | res <;> rfl

/-- A copy is refused, is counted and lost, or arrives. -/
theorem copyOutcome_cases {srcCnode srcIdx dstCnode : Nat} {final : Slot → Store}
    {res : Except String Unit}
    (h : copyOutcome s 0 srcCnode srcIdx dstCnode final = (.ok res, ⟨t, 0⟩)) :
    (∃ e, res = .error e ∧ t = s) ∨
      ∃ slot, s.slot? srcCnode srcIdx = some slot ∧ slot.capType ≠ .null ∧
        ((∃ e, s.get? dstCnode = none ∧ res = .error e ∧ t = s.addRef slot.resourceId) ∨
          ∃ node, s.get? dstCnode = some node ∧ res = .ok () ∧ t = final slot) := by
  rw [copyOutcome] at h
  cases hsource : s.copySource srcCnode srcIdx with
  | error e =>
    simp only [hsource] at h
    obtain ⟨⟨⟩, ⟨⟩⟩ := h
    exact .inl ⟨e, rfl, rfl⟩
  | ok slot =>
    obtain ⟨hslot, hnull⟩ := Store.copySource_eq_ok.mp hsource
    refine .inr ⟨slot, hslot, hnull, ?_⟩
    by_cases hid : slot.resourceId < s.resources.length
    · rw [s.toOption_node dstCnode "dst cnode not found" "dst cnode freed"]
      cases hdst : s.node dstCnode "dst cnode not found" "dst cnode freed" with
      | error e =>
        simp only [hsource, hid, if_true, hdst] at h
        obtain ⟨⟨⟩, ⟨⟩⟩ := h
        exact .inl ⟨e, rfl, rfl, rfl⟩
      | ok node =>
        simp only [hsource, hid, if_true, hdst] at h
        obtain ⟨⟨⟩, ⟨⟩⟩ := h
        exact .inr ⟨node, rfl, rfl, rfl⟩
    · simp [hsource, hid] at h

theorem run_bind_pure_ok {α β : Type} {x : CapM α} {f : α → β} {k k' : LockedStore} {b : β}
    (h : run (do let a ← x; pure (f a)) k = (.ok b, k')) :
    ∃ a, run x k = (.ok a, k') ∧ b = f a := by
  rw [run_bind] at h
  rcases hrun : run x k with ⟨_ | a, k1⟩
  · simp [hrun] at h
  · simp only [hrun, run_pure] at h
    obtain ⟨⟨⟩, ⟨⟩⟩ := h
    exact ⟨a, rfl, rfl⟩

/-- **Every call that returns has one of the effects.** -/
theorem Returns.effect {call : CapCall} {out : Outcome} (h : Returns s call out t) :
    Effect s call out t := by
  obtain ⟨fuel, h⟩ := h
  cases call with
  | spawn =>
    simp only [perform, run_bind, run_allocResource free_reentrant, run_pure] at h
    obtain ⟨⟨⟩, ⟨⟩⟩ := h
    exact .spawn
  | create resType data rights dst =>
    simp only [perform, run_bind, run_allocResource free_reentrant, keepSlot, run_writeStore,
      run_pure] at h
    obtain ⟨⟨⟩, ⟨⟩⟩ := h
    exact .create
  | mint src rights dst =>
    simp only [perform, run_bind, run_mint] at h
    cases hsource : s.mintSource src.cnode src.idx rights with
    | none =>
      simp only [hsource, run_pure] at h
      obtain ⟨⟨⟩, ⟨⟩⟩ := h
      exact .mintRefused
    | some slot =>
      obtain ⟨hslot, hnull, hrights⟩ := Store.mintSource_eq_some.mp hsource
      cases hres : s.get? slot.resourceId with
      | none =>
        simp only [hsource, hres, run_pure] at h
        obtain ⟨⟨⟩, ⟨⟩⟩ := h
        exact .mintRefused
      | some res =>
        simp only [hsource, hres, run_bind, keepSlot, run_writeStore, run_pure] at h
        obtain ⟨⟨⟩, ⟨⟩⟩ := h
        exact .mint hslot hnull hrights hres
  | copyCap src dst =>
    obtain ⟨res, hrun, rfl⟩ := run_bind_pure_ok h
    rw [run_copyCap] at hrun
    obtain ⟨e, rfl, rfl⟩ | ⟨slot, hslot, hnull, ⟨e, hdst, rfl, rfl⟩ | ⟨node, hdst, rfl, rfl⟩⟩ :=
      copyOutcome_cases hrun
    · exact .copyRefused
    · exact .copyLost hslot hnull hdst
    · exact .copy hslot hnull hdst
  | moveCap src dst =>
    obtain ⟨res, hrun, rfl⟩ := run_bind_pure_ok h
    rw [run_moveCap] at hrun
    obtain ⟨e, rfl, rfl⟩ | ⟨slot, hslot, hnull, ⟨e, hdst, rfl, rfl⟩ | ⟨node, hdst, rfl, rfl⟩⟩ :=
      copyOutcome_cases hrun
    · exact .moveRefused
    · exact .moveLost hslot hnull hdst
    · exact .move hslot hnull hdst
  | deleteCap place =>
    obtain ⟨res, hrun, rfl⟩ := run_bind_pure_ok h
    rcases run_deleteCap s 0 place.cnode place.idx with ⟨e, -, hdel⟩ | ⟨slot, hslot, hdel⟩
    · obtain ⟨⟨⟩, ⟨⟩⟩ := hdel.symm.trans hrun
      exact .deleteRefused
    · obtain ⟨⟨⟩, ⟨⟩⟩ := hdel.symm.trans hrun
      exact .delete hslot
  | revoke id =>
    obtain ⟨_, hrun, rfl⟩ := run_bind_pure_ok h
    obtain ⟨ids, hids⟩ := run_revoke hrun
    obtain ⟨⟩ := hids
    exact .revoke ids

/-! ### What the updates of the store leave -/

section Retains

variable {β : Type} {f : Resource → β} {s t u : Store} {id : Nat}

/-- Some resources of the first store may be gone in the second; the others have kept `f`. -/
structure Retains (f : Resource → β) (s t : Store) : Prop where
  next : t.nextResourceId = s.nextResourceId
  length : t.resources.length = s.resources.length
  resource : ∀ id res, t.get? id = some res → ∃ old, s.get? id = some old ∧ f res = f old

theorem Retains.trans (hst : Retains f s t) (htu : Retains f t u) : Retains f s u := by
  refine ⟨htu.next.trans hst.next, htu.length.trans hst.length, fun id res hres => ?_⟩
  obtain ⟨mid, hmid, hf⟩ := htu.resource id res hres
  obtain ⟨old, hold, hf'⟩ := hst.resource id mid hmid
  exact ⟨old, hold, hf.trans hf'⟩

theorem retains_update {g : Resource → Option Resource}
    (hg : ∀ res res', g res = some res' → f res' = f res) : Retains f s (s.update id g) := by
  refine ⟨rfl, Store.length_update, fun j res hres => ?_⟩
  rw [Store.get?_update] at hres
  split at hres
  · obtain ⟨old, hold, hgold⟩ := Option.bind_eq_some_iff.mp hres
    exact ⟨old, hold, hg old res hgold⟩
  · exact ⟨res, hres, rfl⟩

section

variable (hf : ∀ res n, f { res with refCount := n } = f res)
include hf

theorem retains_addRef :
    Retains f s (s.addRef id) :=
  retains_update fun res _ h => by
    cases h
    exact hf res _

theorem retains_dropRef : Retains f s (s.dropRef id) := by
  refine retains_update fun res res' h => ?_
  rw [Resource.release] at h
  split at h
  · cases h
  · obtain rfl := Option.some.inj h
    exact hf res _

theorem retains_dropRefs (ids : List Nat) : Retains f s (ids.foldl Store.dropRef s) := by
  induction ids generalizing s with
  | nil => exact ⟨rfl, rfl, fun _ res hres => ⟨res, hres, rfl⟩⟩
  | cons id ids ih => exact (retains_dropRef hf).trans ih

end

theorem retains_put (hf : ∀ res slots slots', res.data = .cnode slots →
      f { res with data := .cnode slots' } = f res) : Retains f s (s.put place slot) := by
  refine retains_update fun res res' h => ?_
  split at h
  next slots hdata =>
    cases h
    exact hf res slots _ hdata
  next =>
    cases h
    rfl

end Retains

/-! ### The slots of the store -/

section Slots

variable {s : Store}

theorem at?_alloc {data : ResourceData} (place : Place) : (s.alloc resType data).at? place =
      if s.nextResourceId = place.cnode then
        (Resource.slots? ⟨1, resType, none, [], data⟩).bind (·[place.idx]?)
      else s.at? place := by
  simp only [Store.at?, Store.slot?, Store.slots?, Store.get?_alloc]
  split <;> rfl

theorem at?_put {other : Place} {new : Slot} (hslot : (s.put place new).at? other = some slot) :
    (other = place ∧ slot = new) ∨ slot = Slot.null ∨
      (other ≠ place ∧ s.at? other = some slot) := by
  rw [Store.put, Store.at?, Store.slot?_putSlot] at hslot
  split at hslot
  next hnode =>
    obtain ⟨slots, hslots, hget⟩ := Option.bind_eq_some_iff.mp hslot
    rw [getElem?_setSlot] at hget
    have hat : s.at? other = slots[other.idx]? := by simp [Store.at?, Store.slot?, hslots]
    by_cases hidx : place.idx = other.idx
    · rw [if_pos hidx] at hget
      obtain ⟨⟩ := hget
      left
      exact ⟨by cases place; cases other; simp_all, rfl⟩
    · have hne : other ≠ place := fun heq => hidx (by rw [heq])
      cases hold : slots[other.idx]? with
      | none => simp_all
      | some x => simp_all
  next hnode => exact .inr (.inr ⟨fun heq => hnode (by rw [heq]), hslot⟩)

end Slots

end TrainOS.Capability
