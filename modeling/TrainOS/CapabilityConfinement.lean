import TrainOS.CapabilityRuns

/-!
# Authority is confined

Next to the store a run records for every slot the slots it was minted or copied from, back to
the creation of its resource (`History`).  Along the record rights only shrink, and a slot
whose resource is alive designates what the resource designated at the far end, because ids
are not handed out twice and no operation changes what a live resource designates.
-/

namespace TrainOS.Capability

open Option

/-! ### Objects and records -/

/-- What a resource designates: its type, and the memory range, endpoint or process. -/
structure Object where
  resType : CapType
  target : ResourceData
  deriving DecidableEq, Repr

/-- The slots of a CNode are its contents, not what it designates. -/
def ResourceData.target : ResourceData → ResourceData
  | .cnode _ => .cnode []
  | data => data

def Resource.object (res : Resource) : Object := ⟨res.resType, res.data.target⟩

/-- Where a slot comes from. -/
inductive Provenance
  | created (slot : Slot) (object : Object)
  | derived (slot : Slot) (source : Provenance)

namespace Provenance

def slot : Provenance → Slot
  | created slot _ => slot
  | derived slot _ => slot

/-- What the resource designated when the first slot of the chain was stored. -/
def origin : Provenance → Object
  | created _ object => object
  | derived _ source => source.origin

/-- Along the chain every slot's rights are a subset of those of the slot it came from. -/
def Confined : Provenance → Prop
  | created _ _ => True
  | derived slot source => slot.rights &&& source.slot.rights = slot.rights ∧ source.Confined

def copied (p : Provenance) : Provenance := derived p.slot p

end Provenance

abbrev History := Place → Option Provenance

namespace History

variable (h : History)

def put (place : Place) (p : Option Provenance) : History := Function.update h place p

/-- The slots of a minted CNode are copies of the slots of the one it was minted from. -/
def cloneNode (parent child : Nat) : History := fun place =>
  if place.cnode = child then (h ⟨parent, place.idx⟩).map Provenance.copied else h place

def record (s : Store) : CapCall → Outcome → History
  | .create resType data rights dst, .allocated id =>
      h.put dst (some (.created ⟨resType, rights, id⟩ ⟨resType, data.data.target⟩))
  | .mint src _ dst, .minted (some slot) =>
      match s.at? src with
      | some parent =>
          (h.cloneNode parent.resourceId slot.resourceId).put dst
            ((h src).map (Provenance.derived slot))
      | none => h
  | .copyCap src dst, .returned (.ok ()) => h.put dst ((h src).map Provenance.copied)
  | .moveCap src dst, .returned (.ok ()) =>
      (h.put dst ((h src).map Provenance.copied)).put src none
  | .deleteCap place, .returned (.ok ()) => h.put place none
  | _, _ => h

end History

def TracedStep : Store × History → CapCall → Store × History → Prop :=
  RecordedStep fun s call out h => h.record s call out

/-! ### The invariant -/

variable {s t : Store} {h : History} {id : Nat} {slot new : Slot} {place : Place}
  {p : Provenance} {resType : CapType} {data : ResourceData} {res : Resource}

/-- The record of a slot is right: the chain ends in this slot, rights shrink along it, and
    the slot's resource, if alive, designates the origin. -/
structure Backs (s : Store) (p : Provenance) (slot : Slot) : Prop where
  slot_eq : p.slot = slot
  confined : p.Confined
  capType : p.origin.resType = slot.capType
  allocated : slot.resourceId < s.nextResourceId
  object : ∀ res, s.get? slot.resourceId = some res → res.object = p.origin

/-- Every capability is backed by its record. -/
def Authorized (s : Store) (h : History) : Prop :=
  ∀ place slot, s.at? place = some slot → slot.capType ≠ .null →
    ∃ p, h place = some p ∧ Backs s p slot

/-- What a live resource designates and the slots it holds are kept. -/
abbrev Thins : Store → Store → Prop := Retains fun res => (res.object, res.slots?)

theorem thins_addRef : Thins s (s.addRef id) := retains_addRef fun _ _ => rfl

theorem thins_dropRefs (ids : List Nat) : Thins s (ids.foldl Store.dropRef s) :=
  retains_dropRefs (fun _ _ => rfl) ids

theorem thins_recordDerivation {parent child : Nat} : Thins s (s.recordDerivation parent child) :=
  (retains_update (by rintro res _ ⟨⟩; rfl)).trans (retains_update (by rintro res _ ⟨⟩; rfl))

theorem Thins.at? (hst : Thins s t) (hslot : t.at? place = some slot) :
    s.at? place = some slot := by
  obtain ⟨slots, hslots, hget⟩ := bind_eq_some_iff.mp hslot
  obtain ⟨res, hres, hrslots⟩ := bind_eq_some_iff.mp hslots
  obtain ⟨old, hold, heq⟩ := hst.resource _ _ hres
  have hslots_eq : res.slots? = old.slots? := congrArg Prod.snd heq
  simp [Store.at?, Store.slot?, Store.slots?, hold, ← hslots_eq, hrslots, hget]

theorem Backs.thins (hp : Backs s p slot) (hst : Thins s t) : Backs t p slot where
  __ := hp
  allocated := hst.next ▸ hp.allocated
  object res hres := by
    obtain ⟨old, hold, heq⟩ := hst.resource _ _ hres
    exact (congrArg Prod.fst heq).trans (hp.object old hold)

theorem Authorized.thins (hs : Authorized s h) (hst : Thins s t) : Authorized t h := by
  intro place slot hslot hnull
  obtain ⟨p, hp, hbacks⟩ := hs place slot (hst.at? hslot) hnull
  exact ⟨p, hp, hbacks.thins hst⟩

theorem Backs.alloc (hp : Backs s p slot) : Backs (s.alloc resType data) p slot where
  __ := hp
  allocated := hp.allocated.trans (Nat.lt_succ_self _)
  object res hres := by
    rw [Store.get?_alloc, if_neg hp.allocated.ne'] at hres
    exact hp.object res hres

theorem Backs.copied (hp : Backs s p slot) : Backs s p.copied slot where
  __ := hp
  confined := ⟨BitVec.and_self, hp.confined⟩

theorem Authorized.allocNew (hs : Authorized s h) (data : NewData) :
    Authorized (s.alloc resType data.data) h := by
  intro place slot hslot hnull
  rw [at?_alloc] at hslot
  split at hslot
  · obtain ⟨slots, hslots, hget⟩ := bind_eq_some_iff.mp hslot
    have hslotnull : slot = Slot.null :=
      data.slots_null hslots slot (List.mem_of_getElem? hget)
    exact absurd (by rw [hslotnull]; rfl) hnull
  · obtain ⟨p, hp, hbacks⟩ := hs place slot hslot hnull
    exact ⟨p, hp, hbacks.alloc⟩

theorem Authorized.allocClone (hs : Authorized s h) (hres : s.get? id = some res)
    (hdata : res.data = data) :
    Authorized (s.alloc resType data) (h.cloneNode id s.nextResourceId) := by
  subst hdata
  intro place slot hslot hnull
  rw [at?_alloc] at hslot
  rw [History.cloneNode]
  split at hslot
  next hnew =>
    have hold : s.at? ⟨id, place.idx⟩ = some slot := by
      simp only [Store.at?, Store.slot?, Store.slots?, hres, bind_some]
      exact hslot
    obtain ⟨p, hp, hbacks⟩ := hs _ slot hold hnull
    exact ⟨p.copied, by simp [hnew, hp], hbacks.copied.alloc⟩
  next hother =>
    obtain ⟨p, hp, hbacks⟩ := hs place slot hslot hnull
    exact ⟨p, by rw [if_neg (Ne.symm hother), hp], hbacks.alloc⟩

theorem Backs.put (hp : Backs s p slot) : Backs (s.put place new) p slot where
  __ := hp
  object res hres := by
    have hkeep : Retains Resource.object s (s.put place new) :=
      retains_put fun res slots _ hdata => by simp [Resource.object, ResourceData.target, hdata]
    obtain ⟨old, hold, hobj⟩ := hkeep.resource _ _ hres
    exact hobj.trans (hp.object old hold)

theorem Authorized.put (hs : Authorized s h)
    {p : Option Provenance} (hp : new.capType ≠ .null → ∃ q, p = some q ∧ Backs s q new) :
    Authorized (s.put place new) (h.put place p) := by
  intro other slot hslot hnull
  rcases at?_put hslot with ⟨rfl, rfl⟩ | rfl | ⟨hne, hold⟩
  · obtain ⟨q, hq, hbacks⟩ := hp hnull
    exact ⟨q, by simp [History.put, hq], hbacks.put⟩
  · exact absurd rfl hnull
  · obtain ⟨q, hq, hbacks⟩ := hs other slot hold hnull
    exact ⟨q, by rw [History.put, Function.update_of_ne hne, hq], hbacks.put⟩

theorem Authorized.putNull (hs : Authorized s h) :
    Authorized (s.put place Slot.null) (h.put place none) :=
  hs.put fun hnull => absurd rfl hnull

/-! ### Calls and runs -/

theorem Backs.minted {rights : Rights} (hp : Backs s p slot)
    (hrights : rights &&& slot.rights = rights)
    (hres : s.get? slot.resourceId = some res) :
    Backs (s.minted slot res) (p.derived ⟨slot.capType, rights, s.nextResourceId⟩)
      ⟨slot.capType, rights, s.nextResourceId⟩ where
  slot_eq := rfl
  confined := ⟨by rw [hp.slot_eq]; exact hrights, hp.confined⟩
  capType := hp.capType
  allocated := Nat.lt_succ_self _
  object new hnew := by
    obtain ⟨old, hold, heq⟩ := thins_recordDerivation.resource _ _ hnew
    have hobj : new.object = old.object := congrArg Prod.fst heq
    rw [Store.get?_alloc] at hold
    cases (if_pos rfl).symm.trans hold
    have horigin := hp.object res hres
    rw [hobj, Provenance.origin, ← horigin, Resource.object, ← hp.capType, ← horigin]
    rfl

theorem Authorized.putCopy (hs : Authorized s h) {src dst : Place} (hslot : s.at? src = some slot) :
    Authorized ((s.addRef slot.resourceId).put dst slot)
      (h.put dst ((h src).map Provenance.copied)) := by
  refine (hs.thins thins_addRef).put fun hnull => ?_
  obtain ⟨p, hp, hbacks⟩ := hs src slot hslot hnull
  exact ⟨p.copied, by simp [hp], (hbacks.thins thins_addRef).copied⟩

/-- **One call keeps every capability backed.** -/
theorem Authorized.effect {call : CapCall} {out : Outcome} (hs : Authorized s h)
    (heffect : Effect s call out t) : Authorized t (h.record s call out) := by
  cases heffect with
  | spawn => exact hs.allocNew _
  | @create resType data rights dst =>
    refine (hs.allocNew data).put fun _ => ⟨_, rfl, rfl, trivial, rfl, Nat.lt_succ_self _, ?_⟩
    intro res hres
    rw [Store.get?_alloc, if_pos rfl] at hres
    cases hres
    rfl
  | mintRefused => exact hs
  | @mint src rights dst slot res hslot hnull hrights hres =>
    obtain ⟨p, hp, hbacks⟩ := hs src slot hslot hnull
    have hclone : Authorized (s.minted slot res)
        (h.cloneNode slot.resourceId s.nextResourceId) := by
      refine .thins ?_ thins_recordDerivation
      have hres' : (s.addRef slot.resourceId).get? slot.resourceId =
          some { res with refCount := MachineWord.wrapAdd res.refCount 1 } := by
        simp [Store.addRef, Store.get?_update, hres]
      exact (hs.thins thins_addRef).allocClone hres' rfl
    simp only [History.record, hslot]
    exact hclone.put fun _ => ⟨_, by rw [hp]; rfl, hbacks.minted hrights hres⟩
  | copyRefused => exact hs
  | copyLost hslot hnull hdst => exact hs.thins thins_addRef
  | copy hslot hnull hdst => exact hs.putCopy hslot
  | moveRefused => exact hs
  | moveLost hslot hnull hdst => exact hs.thins thins_addRef
  | move hslot hnull hdst => exact (hs.putCopy hslot).putNull
  | deleteRefused => exact hs
  | delete hslot => exact hs.putNull.thins (thins_dropRefs [_])
  | revoke ids => exact hs.thins (thins_dropRefs ids)

def History.none : History := fun _ => Option.none

theorem authorized_init : Authorized Store.init History.none := by
  intro place slot hslot
  have hnone : Store.init.slots? place.cnode = Option.none := by
    rcases hcnode : place.cnode with _ | n <;> rfl
  simp [Store.at?, Store.slot?, hnone] at hslot

/-- **Authority is confined.**  In every reachable store, a capability's rights shrink along
    its record back to a slot stored at creation, and while its resource is alive it
    designates what that slot designated. -/
theorem authority_confined {calls : List CapCall}
    (hrun : Runs.Run TracedStep (Store.init, History.none) calls (s, h)) (place : Place)
    (slot : Slot) (hslot : s.at? place = some slot) (hnull : slot.capType ≠ .null) :
    ∃ p, h place = some p ∧ p.slot = slot ∧ p.Confined ∧ p.origin.resType = slot.capType ∧
      ∀ res, s.get? slot.resourceId = some res → res.object = p.origin := by
  have hstep (x : Store × History) (call : CapCall) (y : Store × History)
      (hx : Authorized x.1 x.2) (hxy : TracedStep x call y) : Authorized y.1 y.2 := by
    obtain ⟨out, hreturns, hrecord⟩ := hxy
    rw [hrecord]
    exact hx.effect hreturns.effect
  have hauthorized := hrun.invariant hstep authorized_init
  obtain ⟨p, hp, hbacks⟩ := hauthorized place slot hslot hnull
  exact ⟨p, hp, hbacks.slot_eq, hbacks.confined, hbacks.capType, hbacks.object⟩

/-! A process creates an endpoint and mints a capability that can only send to it. -/

def sendOnly : Option (Store × History) :=
  execute (fun s call out h => h.record s call out) 0
    [.spawn, .create .ep (.endpoint 0) 0x30 ⟨1, 0⟩, .mint ⟨1, 0⟩ 0x10 ⟨1, 1⟩]
    (Store.init, History.none)

theorem authority_confined_sendOnly :
    ∃ s h, sendOnly = some (s, h) ∧ s.at? ⟨1, 1⟩ = some ⟨.ep, 0x10, 3⟩ ∧
      ∃ p, h ⟨1, 1⟩ = some p ∧ p.slot = ⟨.ep, 0x10, 3⟩ ∧ p.Confined ∧ p.origin.resType = .ep ∧
        ∀ res, s.get? 3 = some res → res.object = p.origin := by
  have hslot : sendOnly.map (·.1.at? ⟨1, 1⟩) = some (some ⟨.ep, 0x10, 3⟩) := by
    decide +kernel
  obtain ⟨⟨s, h⟩, hrun, hslot⟩ := map_eq_some_iff.mp hslot
  exact ⟨s, h, hrun, hslot,
    authority_confined (execute_run hrun) ⟨1, 1⟩ ⟨.ep, 0x10, 3⟩ hslot (by decide)⟩

/-! ### What a number denotes -/

theorem Backs.effect {call : CapCall} {out : Outcome} (hp : Backs s p slot)
    (heffect : Effect s call out t) : Backs t p slot := by
  cases heffect with
  | spawn => exact hp.alloc
  | create => exact hp.alloc.put
  | mint => exact ((hp.thins thins_addRef).alloc.thins thins_recordDerivation).put
  | copyLost | moveLost => exact hp.thins thins_addRef
  | copy => exact (hp.thins thins_addRef).put
  | move => exact (hp.thins thins_addRef).put.put
  | delete => exact hp.put.thins (thins_dropRefs [_])
  | revoke ids => exact hp.thins (thins_dropRefs ids)
  | mintRefused | copyRefused | moveRefused | deleteRefused => exact hp

/-- **Numbers are not used again.**  Whatever calls follow, the number of a resource that is gone
    denotes nothing, and the number of one that lives denotes the same object. -/
theorem numbers_not_reused {calls : List CapCall} (hrun : Runs.Run Step s calls t)
    (hid : id < s.nextResourceId) (hres : t.get? id = some res) :
    ∃ old, s.get? id = some old ∧ res.object = old.object := by
  have hkept (o : Object) (ho : ∀ old, s.get? id = some old → old.object = o) : res.object = o := by
    have hbacks : Backs s (.created ⟨o.resType, 0, id⟩ o) ⟨o.resType, 0, id⟩ :=
      ⟨rfl, trivial, rfl, hid, ho⟩
    refine (hrun.invariant (P := (Backs · _ _)) ?_ hbacks).object res hres
    rintro _ _ _ hp ⟨_, hreturns⟩
    exact hp.effect hreturns.effect
  cases hold : s.get? id with
  | none =>
    -- what denotes nothing could denote two different objects
    have hnull := hkept ⟨.null, .ep 0⟩ (by simp [hold])
    cases hnull.symm.trans (hkept ⟨.null, .ep 1⟩ (by simp [hold]))
  | some old => exact ⟨old, rfl, hkept _ (by simp [hold])⟩

/-- Number 2 is given to an endpoint.  After a mint and the creation of another endpoint, which
    gets number 4, it still denotes the first one. -/
theorem numbers_not_reused_endpoint :
    ∃ s t res old, Runs.Run Step Store.init [.spawn, .create .ep (.endpoint 0) 0x30 ⟨1, 0⟩] s ∧
      Runs.Run Step s [.mint ⟨1, 0⟩ 0x10 ⟨1, 1⟩, .create .ep (.endpoint 7) 0x30 ⟨1, 2⟩] t ∧
      (t.get? 4).map Resource.object = some ⟨.ep, .ep 7⟩ ∧
      t.get? 2 = some res ∧ s.get? 2 = some old ∧ res.object = old.object := by
  have hcalls : ∃ x y, execute (fun _ _ _ _ => ()) 0
        [.spawn, .create .ep (.endpoint 0) 0x30 ⟨1, 0⟩] (Store.init, ()) = some x ∧
      execute (fun _ _ _ _ => ()) 0
        [.mint ⟨1, 0⟩ 0x10 ⟨1, 1⟩, .create .ep (.endpoint 7) 0x30 ⟨1, 2⟩] x = some y ∧
      2 < x.1.nextResourceId ∧ (y.1.get? 4).map Resource.object = some ⟨.ep, .ep 7⟩ ∧
      (y.1.get? 2).isSome = true :=
    ⟨_, _, rfl, rfl, by decide +kernel, by decide +kernel, by decide +kernel⟩
  obtain ⟨x, y, hx, hy, hlt, hnew, hlive⟩ := hcalls
  obtain ⟨res, hres⟩ := isSome_iff_exists.mp hlive
  obtain ⟨old, hold, heq⟩ := numbers_not_reused (run_of_recorded (execute_run hy)) hlt hres
  exact ⟨x.1, y.1, res, old, run_of_recorded (execute_run hx), run_of_recorded (execute_run hy),
    hnew, hres, hold, heq⟩

end TrainOS.Capability
