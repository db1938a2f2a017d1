import TrainOS.CapabilityRevocation

/-!
# Reference counts

A count is exact when it is the number of slots that name the resource, of process records
and of live resources minted from it.  `Careful` says which calls keep the counts exact;
overwriting or moving a capability, minting a CNode in use, and freeing a minted resource or
a CNode in use do not.
-/

namespace TrainOS.Capability

open List MachineWord Option

variable {s t : Store} {id j : Nat} {data : ResourceData}

/-! ### Counting over the store -/

namespace Store

def total (s : Store) (f : Resource → Nat) : Nat := (s.resources.map (·.elim 0 f)).sum

def share (s : Store) (f : Resource → Nat) (id : Nat) : Nat := (s.get? id).elim 0 f

theorem total_update (s : Store) (id : Nat) (f : Resource → Nat) (g : Resource → Option Resource) :
    (s.update id g).total f + s.share f id = s.total f + (s.update id g).share f id := by
  have hlist (l : List (Option Resource)) (i : Nat) :
      ((l.modify i (·.bind g)).map (·.elim 0 f)).sum + l[i]?.join.elim 0 f =
        (l.map (·.elim 0 f)).sum + (l[i]?.join.bind g).elim 0 f := by
    induction l generalizing i with
    | nil => simp
    | cons o l ih =>
      cases i with
      | zero => cases o <;> simp [Nat.add_comm, Nat.add_left_comm]
      | succ i =>
        have := ih i
        simp at this ⊢
        omega
  have hshare : (s.update id g).share f id = ((s.get? id).bind g).elim 0 f := by
    rw [share, get?_update, if_pos rfl]
  rw [hshare]
  exact hlist s.resources id

variable {f : Resource → Nat} {resType : CapType}

theorem total_alloc (hs : WellFormed s) :
    (s.alloc resType data).total f = s.total f + f ⟨1, resType, none, [], data⟩ := by
  simp [total, alloc, insert, ← hs.length]

theorem total_congr {g : Resource → Option Resource}
    (hg : ∀ res, (g res).elim 0 f = f res) : (s.update id g).total f = s.total f := by
  have hupdate := total_update s id f g
  have hshare : (s.update id g).share f id = s.share f id := by
    rw [share, get?_update, if_pos rfl, share]
    cases s.get? id with
    | none => rfl
    | some res => exact hg res
  omega

end Store

/-! ### References -/

/-- The slot is a capability for the resource. -/
def Slot.Names (id : Nat) (slot : Slot) : Prop := slot.capType ≠ .null ∧ slot.resourceId = id

instance : DecidablePred (Slot.Names id) := fun _ => inferInstanceAs (Decidable (_ ∧ _))

def Resource.naming (id : Nat) (res : Resource) : Nat :=
  res.slots?.elim 0 (·.countP (Slot.Names id ·))

def Resource.mintedFrom (id : Nat) (res : Resource) : Nat :=
  if res.derivationParent = some id then 1 else 0

def Store.naming (s : Store) (id : Nat) : Nat := s.total (Resource.naming id)

def Store.mintedFrom (s : Store) (id : Nat) : Nat := s.total (Resource.mintedFrom id)

def Slot.weight (id : Nat) (slot : Slot) : Nat := if slot.Names id then 1 else 0

@[simp] theorem weight_null : Slot.null.weight id = 0 := by
  simp [Slot.weight, Slot.Names, Slot.null]

variable {new : Slot}

theorem countP_setSlot {slots : List Slot} {idx : Nat} :
    (setSlot slots idx new).countP (Slot.Names id ·) +
        (slots[idx]?.getD Slot.null).weight id =
      slots.countP (Slot.Names id ·) + new.weight id := by
  set padded := slots ++ replicate (idx + 1 - slots.length) Slot.null with hpadded
  have hlt : idx < padded.length := by simp [hpadded]; omega
  have hcount : padded.countP (Slot.Names id ·) = slots.countP (Slot.Names id ·) := by
    simp [hpadded, countP_append, countP_replicate, Slot.Names, Slot.null]
  have hold : padded[idx] = slots[idx]?.getD Slot.null := by
    simp only [hpadded, getElem_append, getElem_replicate]
    split <;> simp_all
  have hle : padded[idx].weight id ≤ padded.countP (Slot.Names id ·) := by
    rw [Slot.weight]
    split
    next h => exact countP_pos_iff.mpr ⟨_, getElem_mem hlt, by simpa using h⟩
    next => exact Nat.zero_le _
  have hset : (setSlot slots idx new).countP (Slot.Names id ·) =
      padded.countP (Slot.Names id ·) - padded[idx].weight id + new.weight id := by
    rw [setSlot, ← hpadded, countP_set hlt]
    simp [Slot.weight]
  rw [← hold]
  omega

theorem share_naming : s.share (Resource.naming id) j =
    (s.slots? j).elim 0 (·.countP (Slot.Names id ·)) := by
  rw [Store.share, Store.slots?]
  cases s.get? j <;> rfl

variable {place : Place}

theorem naming_put (id : Nat) (hnode : (s.slots? place.cnode).isSome) :
    (s.put place new).naming id + ((s.at? place).getD Slot.null).weight id =
      s.naming id + new.weight id := by
  obtain ⟨slots, hslots⟩ := isSome_iff_exists.mp hnode
  have hat : s.at? place = slots[place.idx]? := by simp [Store.at?, Store.slot?, hslots]
  have htotal : (s.put place new).naming id + s.share (Resource.naming id) place.cnode =
      s.naming id + (s.put place new).share (Resource.naming id) place.cnode :=
    Store.total_update s place.cnode (Resource.naming id) _
  have hslot : (setSlot slots place.idx new).countP (Slot.Names id ·) + _ = _ := countP_setSlot
  rw [share_naming, share_naming, Store.put, Store.slots?_putSlot, if_pos rfl, hslots] at htotal
  simp only [map_some, elim_some] at htotal
  rw [hat]
  simp only [Store.put]
  omega

theorem mintedFrom_put : (s.put place new).mintedFrom id = s.mintedFrom id := by
  refine Store.total_congr fun res => ?_
  rcases res with ⟨_, _, _, _, _ | _ | _ | _ | _ | _⟩ <;> rfl

theorem naming_addRef : (s.addRef j).naming id = s.naming id :=
  Store.total_congr fun _ => rfl

theorem mintedFrom_addRef : (s.addRef j).mintedFrom id = s.mintedFrom id :=
  Store.total_congr fun _ => rfl

/-! ### Counts -/

def Store.count? (s : Store) (id : Nat) : Option Nat := (s.get? id).map Resource.refCount

theorem count?_eq_none : s.count? id = none ↔ s.get? id = none := map_eq_none_iff

variable {slot : Slot} {resType : CapType}

theorem count?_put : (s.put place slot).count? id = s.count? id := by
  simp only [Store.count?, Store.put, Store.putSlot, Store.get?_update]
  split
  · rcases s.get? id with _ | ⟨_, _, _, _, _ | _ | _ | _ | _ | _⟩ <;> rfl
  · rfl

theorem count?_alloc :
    (s.alloc resType data).count? id = if s.nextResourceId = id then some 1 else s.count? id := by
  simp only [Store.count?, Store.get?_alloc]
  split <;> rfl

theorem count?_addRef :
    (s.addRef j).count? id = if j = id then (s.count? id).map (wrapAdd · 1) else s.count? id := by
  simp only [Store.count?, Store.addRef, Store.get?_update]
  cases s.get? id <;> split <;> rfl

def released (n : Nat) : Option Nat := if wrapSub n 1 = 0 then none else some (wrapSub n 1)

variable {res : Resource} {n : Nat}

theorem released_eq (hpos : 1 ≤ n) (hword : n < WORD) :
    released n = if n = 1 then none else some (n - 1) := by
  rw [released, if_congr (wrapSub_one_eq_zero hword) rfl rfl, wrapSub_of_le hpos hword]

theorem count?_dropRef :
    (s.dropRef j).count? id = if j = id then (s.count? id).bind released else s.count? id := by
  simp only [Store.count?, Store.dropRef, Store.get?_update]
  split
  · cases s.get? id with
    | none => rfl
    | some res =>
      rw [bind_some, map_some, bind_some, Resource.release, released]
      split <;> simp
  · rfl

theorem count?_recordDerivation {p c : Nat} : (s.recordDerivation p c).count? id = s.count? id := by
  simp only [Store.count?, Store.recordDerivation, Store.get?_update]
  cases s.get? id <;> split <;> split <;> rfl

/-! ### Minting -/

theorem slots?_recordDerivation {p c : Nat} : (s.recordDerivation p c).slots? id = s.slots? id := by
  simp only [Store.slots?, Store.recordDerivation, Store.get?_update]
  cases s.get? id <;> split <;> split <;> rfl

section Minted

variable {slot : Slot} {res : Resource}

theorem at?_minted (hres : s.get? slot.resourceId = some res) (place : Place) :
    (s.minted slot res).at? place =
      if s.nextResourceId = place.cnode then s.at? ⟨slot.resourceId, place.idx⟩
      else s.at? place := by
  have halloc : (s.minted slot res).at? place =
      ((s.addRef slot.resourceId).alloc slot.capType res.data).at? place := by
    simp [Store.at?, Store.slot?, Store.minted, slots?_recordDerivation]
  have hclone : s.at? ⟨slot.resourceId, place.idx⟩ = res.slots?.bind (·[place.idx]?) := by
    simp [Store.at?, Store.slot?, Store.slots?, hres]
  have hrest : (s.addRef slot.resourceId).at? place = s.at? place := by
    simp [Store.at?]
  rw [halloc, at?_alloc, hclone, hrest]
  rfl

theorem count?_minted : (s.minted slot res).count? id =
      if s.nextResourceId = id then some 1
      else if slot.resourceId = id then (s.count? id).map (wrapAdd · 1) else s.count? id := by
  rw [Store.minted, count?_recordDerivation, count?_alloc, count?_addRef]
  rfl

theorem naming_minted (hs : WellFormed s) (hempty : Resource.naming id res = 0) :
    (s.minted slot res).naming id = s.naming id := by
  have hrecord (t : Store) (p c : Nat) : (t.recordDerivation p c).naming id = t.naming id :=
    (Store.total_congr fun _ => rfl).trans (Store.total_congr fun _ => rfl)
  have hnew : Resource.naming id ⟨1, slot.capType, none, [], res.data⟩ = 0 := hempty
  rw [Store.minted, hrecord, Store.naming, Store.total_alloc hs.addRef, hnew]
  exact naming_addRef

theorem mintedFrom_minted (hs : WellFormed s) (hne : slot.resourceId ≠ s.nextResourceId) :
    (s.minted slot res).mintedFrom id =
      s.mintedFrom id + if slot.resourceId = id then 1 else 0 := by
  set a := ((s.addRef slot.resourceId).alloc slot.capType res.data).update slot.resourceId
    fun parent => some { parent with
      derivationChildren := parent.derivationChildren ++ [s.nextResourceId] } with ha
  have hbefore : a.mintedFrom id = s.mintedFrom id := by
    have hnew : Resource.mintedFrom id ⟨1, slot.capType, none, [], res.data⟩ = 0 := rfl
    rw [Store.mintedFrom, ha, Store.total_congr (fun _ => rfl), Store.total_alloc hs.addRef, hnew]
    exact mintedFrom_addRef
  have hchild : a.get? s.nextResourceId = some ⟨1, slot.capType, none, [], res.data⟩ := by
    rw [ha, Store.get?_update, if_neg hne, Store.get?_alloc]
    exact if_pos rfl
  have htotal := Store.total_update a s.nextResourceId (Resource.mintedFrom id)
    fun child => some { child with derivationParent := some slot.resourceId }
  have hshare : a.share (Resource.mintedFrom id) s.nextResourceId = 0 := by
    simp [Store.share, hchild, Resource.mintedFrom]
  have hshare' : (a.update s.nextResourceId fun child =>
      some { child with derivationParent := some slot.resourceId }).share (Resource.mintedFrom id)
        s.nextResourceId = if slot.resourceId = id then 1 else 0 := by
    simp [Store.share, Store.get?_update, hchild, Resource.mintedFrom]
  have hminted : (s.minted slot res).mintedFrom id + _ = a.mintedFrom id + _ := htotal
  omega

end Minted

/-! ### Exact counts -/

def noteProcess (_ : Store) : CapCall → Outcome → List Nat → List Nat
  | .spawn, .allocated id, processes => id :: processes
  | _, _, processes => processes

/-- The index of a live CNode holds no capability. -/
def Vacant (s : Store) (place : Place) : Prop :=
  (s.slots? place.cnode).isSome ∧ ∀ slot, s.at? place = some slot → slot.capType = .null

/-- The calls that keep the counts exact.  A new capability goes to a vacant index, which may be
    one of a CNode that the call itself creates. -/
def Careful (s : Store) : CapCall → Prop
  | .spawn => True
  | .create resType data _ dst => resType ≠ .null ∧ Vacant (s.alloc resType data.data) dst
  | .mint src rights dst =>
      ∀ slot res, s.at? src = some slot → slot.capType ≠ .null → rights &&& slot.rights = rights →
        s.get? slot.resourceId = some res →
          Vacant (s.minted slot res) dst ∧ res.refCount + 1 < WORD ∧
            ∀ slots, res.slots? = some slots → ∀ x ∈ slots, x.capType = .null
  | .copyCap src dst =>
      ∀ slot res, s.at? src = some slot → slot.capType ≠ .null →
        s.get? slot.resourceId = some res → Vacant s dst ∧ res.refCount + 1 < WORD
  | .moveCap src _ => ∀ slot, s.at? src = some slot → slot.capType = .null
  | .deleteCap place =>
      ∀ slot res, s.at? place = some slot → slot.capType ≠ .null →
        s.get? slot.resourceId = some res → res.refCount = 1 →
          res.derivationParent = none ∧
            ∀ other x, other.cnode = slot.resourceId → other ≠ place → s.at? other = some x →
              x.capType = .null
  | .revoke _ => False

/-- Every live resource is counted by its references, and no dead one is named. -/
structure Exact (s : Store) (processes : List Nat) : Prop where
  wellFormed : WellFormed s
  counts : ∀ id n, s.count? id = some n →
    n = s.naming id + processes.count id + s.mintedFrom id
  named : ∀ id, s.count? id = none → s.naming id = 0
  parents : ∀ id, s.nextResourceId ≤ id → s.mintedFrom id = 0
  recorded : ∀ id ∈ processes, id < s.nextResourceId
  nulls : ∀ place slot, s.at? place = some slot → slot.capType = .null → slot.resourceId = 0
  zero : s.count? 0 = none
  positive : 0 < s.nextResourceId

variable {rights : Rights} {dst : Place}

section Exact

variable {processes : List Nat}

theorem Slot.weight_eq (hnull : slot.capType ≠ .null) :
    slot.weight id = if slot.resourceId = id then 1 else 0 := by
  simp [Slot.weight, Slot.Names, hnull]

theorem Slot.weight_of_null (hnull : slot.capType = .null) : slot.weight id = 0 := by
  simp [Slot.weight, Slot.Names, hnull]

theorem Vacant.naming_put (h : Vacant s place) :
    (s.put place new).naming id = s.naming id + new.weight id := by
  have hput : (s.put place new).naming id + _ = _ := Capability.naming_put id h.1
  have hold : ((s.at? place).getD Slot.null).weight id = 0 := by
    cases hat : s.at? place with
    | none => simp
    | some slot => exact Slot.weight_of_null (h.2 slot hat)
  omega

theorem naming_eq_zero (h : ∀ slots, res.slots? = some slots → ∀ x ∈ slots, x.capType = .null) :
    Resource.naming id res = 0 := by
  rw [Resource.naming]
  cases hslots : res.slots? with
  | none => rfl
  | some slots =>
    rw [elim_some, countP_eq_zero]
    intro x hx
    simp [Slot.Names, h slots hslots x hx]

def NullsZero (s : Store) : Prop :=
  ∀ place slot, s.at? place = some slot → slot.capType = .null → slot.resourceId = 0

theorem nulls_put (place : Place) (new : Slot) (hnulls : NullsZero s)
    (hnew : new.capType = .null → new.resourceId = 0) : NullsZero (s.put place new) := by
  intro other slot hslot hnull
  rcases at?_put hslot with ⟨-, rfl⟩ | rfl | ⟨-, hold⟩
  · exact hnew hnull
  · rfl
  · exact hnulls other slot hold hnull

theorem Vacant.congr (h : Vacant s place)
    (hslots : t.slots? place.cnode = s.slots? place.cnode) : Vacant t place := by
  rw [Vacant, Store.at?, Store.slot?, hslots]
  exact h

theorem naming_clear (id : Nat) (hslot : s.at? place = some slot) :
    (s.put place Slot.null).naming id + slot.weight id = s.naming id := by
  have hnode : (s.slots? place.cnode).isSome := by
    obtain ⟨slots, hslots, -⟩ := bind_eq_some_iff.mp hslot
    simp [hslots]
  have hput : (s.put place Slot.null).naming id + _ = _ := naming_put id hnode
  rwa [hslot, getD_some, weight_null, Nat.add_zero] at hput

theorem total_dropRef {f : Resource → Nat} (hf : ∀ res n, f { res with refCount := n } = f res)
    (hshare : ∀ res, s.get? j = some res → res.refCount < WORD → res.refCount = 1 → f res = 0)
    (hs : WellFormed s) : (s.dropRef j).total f = s.total f := by
  have htotal := Store.total_update s j f Resource.release
  have heq : (s.update j Resource.release).share f j = s.share f j := by
    rw [Store.share, Store.get?_update, if_pos rfl, Store.share]
    cases hres : s.get? j with
    | none => rfl
    | some res =>
      have hword := hs.counts j res hres
      rw [bind_some, elim_some]
      cases hrelease : res.release with
      | none =>
        exact (hshare res hres hword ((Resource.release_eq_none hword).mp hrelease)).symm
      | some res' =>
        rw [Resource.release_some hrelease, elim_some]
        exact hf res _
  rw [Store.dropRef]
  omega

variable (hs : Exact s processes)
include hs

theorem Exact.count_addRef (hres : s.get? id = some res)
    (hword : res.refCount + 1 < WORD) : id ≠ 0 ∧ (s.count? id).map (wrapAdd · 1) =
      some (s.naming id + processes.count id + s.mintedFrom id + 1) := by
  have hold : s.count? id = some res.refCount := by simp [Store.count?, hres]
  constructor
  · rintro rfl
    cases hold.symm.trans hs.zero
  · rw [hold, map_some, wrapAdd_of_lt hword, ← hs.counts _ _ hold]

theorem Exact.fresh :
    s.count? s.nextResourceId = none ∧ s.naming s.nextResourceId = 0 ∧
      processes.count s.nextResourceId = 0 ∧ s.mintedFrom s.nextResourceId = 0 := by
  have hdead : s.count? s.nextResourceId = none := by
    rcases h : s.count? s.nextResourceId with _ | n
    · rfl
    · obtain ⟨res, hres, -⟩ := map_eq_some_iff.mp h
      exact absurd (hs.wellFormed.lt hres) (lt_irrefl _)
  refine ⟨hdead, hs.named _ hdead, ?_, hs.parents _ le_rfl⟩
  exact count_eq_zero.mpr fun h => (hs.recorded _ h).false

theorem Exact.nulls_alloc (data : NewData) : NullsZero (s.alloc resType data.data) := by
  intro place slot hslot hnull
  rw [at?_alloc] at hslot
  split at hslot
  · obtain ⟨slots, hslots, hget⟩ := bind_eq_some_iff.mp hslot
    rw [data.slots_null hslots slot (mem_of_getElem? hget)]
    rfl
  · exact hs.nulls place slot hslot hnull

theorem Exact.totals_alloc (data : NewData) (id : Nat) :
    (s.alloc resType data.data).naming id = s.naming id ∧
      (s.alloc resType data.data).mintedFrom id = s.mintedFrom id := by
  refine ⟨?_, Store.total_alloc hs.wellFormed⟩
  rw [Store.naming, Store.total_alloc hs.wellFormed, naming_eq_zero]
  · rfl
  · intro slots hslots x hx
    rw [data.slots_null hslots x hx]
    rfl

/-- **One rule for all calls.**  Every id keeps its count and its references, is dead and not
    named, or is counted by its references. -/
theorem Exact.step {processes' : List Nat} (hwf : WellFormed t)
    (hnext : s.nextResourceId ≤ t.nextResourceId)
    (hrecorded : ∀ id ∈ processes', id ∈ processes ∨ id < t.nextResourceId)
    (hnulls : NullsZero t)
    (hids : ∀ id, (t.count? id = s.count? id ∧ t.naming id = s.naming id ∧
        processes'.count id = processes.count id ∧ t.mintedFrom id = s.mintedFrom id) ∨
      (t.count? id = none ∧ t.naming id = 0 ∧ t.mintedFrom id = s.mintedFrom id) ∨
      (id ≠ 0 ∧ id < t.nextResourceId ∧
        t.count? id = some (t.naming id + processes'.count id + t.mintedFrom id))) :
    Exact t processes' := by
  refine ⟨hwf, fun id n hn => ?_, fun id hn => ?_, fun id hid => ?_, fun id hid =>
    (hrecorded id hid).elim (fun h => (hs.recorded id h).trans_le hnext) fun h => h, hnulls, ?_,
    hs.positive.trans_le hnext⟩
  · rcases hids id with ⟨hcount, hnaming, hprocs, hminted⟩ | ⟨hcount, -⟩ | ⟨-, -, hcount⟩
    · rw [hnaming, hprocs, hminted]
      exact hs.counts id n (hcount ▸ hn)
    · cases hcount.symm.trans hn
    · exact some.inj (hn.symm.trans hcount)
  · rcases hids id with ⟨hcount, hnaming, -⟩ | ⟨-, hnaming, -⟩ | ⟨-, -, hcount⟩
    · exact hnaming.trans (hs.named id (hcount ▸ hn))
    · exact hnaming
    · cases hcount.symm.trans hn
  · rcases hids id with ⟨-, -, -, hminted⟩ | ⟨-, -, hminted⟩ | ⟨-, hlt, -⟩
    · exact hminted.trans (hs.parents id (hnext.trans hid))
    · exact hminted.trans (hs.parents id (hnext.trans hid))
    · exact absurd hid hlt.not_ge
  · rcases hids 0 with ⟨hcount, -⟩ | ⟨hcount, -⟩ | ⟨hne, -⟩
    · exact hcount.trans hs.zero
    · exact hcount
    · exact absurd rfl hne

theorem Exact.spawn :
    Exact (s.alloc .cnode NewData.processCNode.data) (s.nextResourceId :: processes) := by
  obtain ⟨hdead, hnaming, hcount, hminted⟩ := hs.fresh
  have htotals : ∀ id, (s.alloc .cnode NewData.processCNode.data).naming id = _ ∧ _ :=
    hs.totals_alloc NewData.processCNode
  refine hs.step hs.wellFormed.alloc (Nat.le_succ _) ?_ (hs.nulls_alloc _) fun id => ?_
  · exact forall_mem_cons.mpr ⟨.inr (Nat.lt_succ_self _), fun _ => .inl⟩
  · by_cases heq : s.nextResourceId = id
    · subst heq
      refine .inr (.inr ⟨hs.positive.ne', Nat.lt_succ_self _, ?_⟩)
      simp [count?_alloc, htotals, hnaming, hcount, hminted]
    · exact .inl ⟨by rw [count?_alloc, if_neg heq], (htotals id).1, by simp [heq], (htotals id).2⟩

theorem Exact.create {data : NewData} (hnull : resType ≠ .null)
    (hvacant : Vacant (s.alloc resType data.data) dst) :
    Exact ((s.alloc resType data.data).put dst ⟨resType, rights, s.nextResourceId⟩) processes := by
  obtain ⟨hdead, hnaming, hcount, hminted⟩ := hs.fresh
  have htotals : ∀ id, (s.alloc resType data.data).naming id = _ ∧ _ := hs.totals_alloc data
  have hput (id : Nat) : ((s.alloc resType data.data).put dst
      ⟨resType, rights, s.nextResourceId⟩).naming id =
        s.naming id + if s.nextResourceId = id then 1 else 0 := by
    rw [hvacant.naming_put, (htotals id).1, Slot.weight_eq hnull]
  refine hs.step hs.wellFormed.alloc.put (Nat.le_succ _) (fun _ => .inl)
    (nulls_put _ _ (hs.nulls_alloc data) fun h => absurd h hnull) fun id => ?_
  rw [hput, mintedFrom_put, (htotals id).2, count?_put, count?_alloc]
  by_cases hnew : s.nextResourceId = id
  · subst hnew
    refine .inr (.inr ⟨hs.positive.ne', Nat.lt_succ_self _, ?_⟩)
    simp [hnaming, hcount, hminted]
  · exact .inl (by simp [hnew])

/-- A minted capability is the first reference of its resource. -/
theorem Exact.mint
    (hnull : slot.capType ≠ .null) (hres : s.get? slot.resourceId = some res)
    (hvacant : Vacant (s.minted slot res) dst) (hword : res.refCount + 1 < WORD)
    (hempty : ∀ slots, res.slots? = some slots → ∀ x ∈ slots, x.capType = .null) :
    Exact ((s.minted slot res).put dst ⟨slot.capType, rights, s.nextResourceId⟩) processes := by
  obtain ⟨hdead, hnaming, hcount, hminted⟩ := hs.fresh
  have hlt : slot.resourceId < s.nextResourceId := hs.wellFormed.lt hres
  have hput (id : Nat) : ((s.minted slot res).put dst
      ⟨slot.capType, rights, s.nextResourceId⟩).naming id =
        s.naming id + if s.nextResourceId = id then 1 else 0 := by
    rw [hvacant.naming_put, naming_minted hs.wellFormed (naming_eq_zero hempty),
      Slot.weight_eq (by exact hnull)]
  have hfrom (id : Nat) : (s.minted slot res).mintedFrom id = _ :=
    mintedFrom_minted hs.wellFormed hlt.ne
  have hnulls : NullsZero (s.minted slot res) := by
    intro place x hx hxnull
    rw [at?_minted hres] at hx
    split at hx
    · exact hs.nulls _ x hx hxnull
    · exact hs.nulls _ x hx hxnull
  refine hs.step (hs.wellFormed.minted hres).put (Nat.le_succ _) (fun _ => .inl)
    (nulls_put _ _ hnulls fun h => absurd h hnull) fun id => ?_
  rw [hput, mintedFrom_put, hfrom, count?_put, count?_minted]
  by_cases hnew : s.nextResourceId = id
  · subst hnew
    refine .inr (.inr ⟨hs.positive.ne', Nat.lt_succ_self _, ?_⟩)
    simp [hnaming, hcount, hminted, hlt.ne]
  by_cases hold : slot.resourceId = id
  · subst hold
    obtain ⟨hne, hadd⟩ := hs.count_addRef hres hword
    refine .inr (.inr ⟨hne, hlt.trans (Nat.lt_succ_self _), ?_⟩)
    simp [hnew, hadd, Nat.add_assoc]
  · exact .inl (by simp [hnew, hold])

theorem Exact.live
    (hslot : s.at? place = some slot) (hnull : slot.capType ≠ .null) :
    ∃ res, s.get? slot.resourceId = some res ∧ 1 ≤ s.naming slot.resourceId := by
  have hclear := naming_clear slot.resourceId hslot
  rw [Slot.weight_eq hnull, if_pos rfl] at hclear
  cases hres : s.get? slot.resourceId with
  | none =>
    have := hs.named _ (count?_eq_none.mpr hres)
    omega
  | some res => exact ⟨res, rfl, by omega⟩

theorem Exact.copy
    (hnull : slot.capType ≠ .null) (hres : s.get? slot.resourceId = some res)
    (hdst : Vacant s dst) (hword : res.refCount + 1 < WORD) :
    Exact ((s.addRef slot.resourceId).put dst slot) processes := by
  have hvacant : Vacant (s.addRef slot.resourceId) dst := hdst.congr (by simp)
  have hput (id : Nat) : ((s.addRef slot.resourceId).put dst slot).naming id =
      s.naming id + if slot.resourceId = id then 1 else 0 := by
    rw [hvacant.naming_put, naming_addRef, Slot.weight_eq hnull]
  have hnulls : NullsZero (s.addRef slot.resourceId) := by
    intro place x hx
    exact hs.nulls place x (by simpa [Store.at?] using hx)
  refine hs.step hs.wellFormed.addRef.put le_rfl (fun _ => .inl)
    (nulls_put _ _ hnulls fun h => absurd h hnull) fun id => ?_
  rw [hput, mintedFrom_put, mintedFrom_addRef, count?_put, count?_addRef]
  by_cases hold : slot.resourceId = id
  · subst hold
    obtain ⟨hne, hadd⟩ := hs.count_addRef hres hword
    refine .inr (.inr ⟨hne, hs.wellFormed.lt hres, ?_⟩)
    rw [if_pos rfl, if_pos rfl, hadd]
    congr 1
    omega
  · exact .inl (by simp [hold])

theorem Exact.nulls_delete :
    NullsZero ((s.put place Slot.null).dropRef id) := by
  intro other x hx hnull
  have hdrop : Retains Resource.slots? (s.put place Slot.null)
      ((s.put place Slot.null).dropRef id) := retains_dropRef fun _ _ => rfl
  refine nulls_put place Slot.null hs.nulls (fun _ => rfl) other x ?_ hnull
  obtain ⟨slots, hslots, hget⟩ := bind_eq_some_iff.mp hx
  obtain ⟨res, hres, hrslots⟩ := bind_eq_some_iff.mp hslots
  obtain ⟨old, hold, heq⟩ := hdrop.resource _ res hres
  simp [Store.at?, Store.slot?, Store.slots?, hold, ← heq, hrslots, hget]

theorem Exact.last_reference (hslot : s.at? place = some slot)
    (hcareful : Careful s (.deleteCap place)) {last : Resource}
    (hlast : (s.put place Slot.null).get? slot.resourceId = some last) (hone : last.refCount = 1) :
    Resource.naming id last = 0 ∧ Resource.mintedFrom id last = 0 := by
  have hkept : Retains (fun res => (res.refCount, res.derivationParent)) s
      (s.put place Slot.null) := retains_put fun _ _ _ _ => rfl
  obtain ⟨res, hres, heq⟩ := hkept.resource _ last hlast
  obtain ⟨hcount, hparent⟩ := Prod.mk.inj heq
  have hnull : slot.capType ≠ .null := by
    intro hnull
    rw [hs.nulls place slot hslot hnull, count?_eq_none.mp hs.zero] at hres
    cases hres
  obtain ⟨hroot, hempty⟩ := hcareful slot res hslot hnull hres (hcount ▸ hone)
  refine ⟨naming_eq_zero fun slots hslots x hx => ?_, by simp [Resource.mintedFrom, hparent, hroot]⟩
  obtain ⟨i, hi⟩ := getElem?_of_mem hx
  have hat : (s.put place Slot.null).at? ⟨slot.resourceId, i⟩ = some x := by
    simp [Store.at?, Store.slot?, Store.slots?, hlast, hslots, hi]
  rcases at?_put hat with ⟨-, rfl⟩ | rfl | ⟨hne, hx⟩
  · rfl
  · rfl
  · exact hempty _ x rfl hne hx

/-- A deleted capability gives back its reference. -/
theorem Exact.delete (hslot : s.at? place = some slot)
    (hcareful : Careful s (.deleteCap place)) :
    Exact ((s.put place Slot.null).dropRef slot.resourceId) processes := by
  have hnaming (id : Nat) : ((s.put place Slot.null).dropRef slot.resourceId).naming id +
      slot.weight id = s.naming id := by
    have hdrop : ((s.put place Slot.null).dropRef slot.resourceId).naming id =
        (s.put place Slot.null).naming id :=
      total_dropRef (fun _ _ => rfl)
        (fun last hlast _ hone => (hs.last_reference hslot hcareful hlast hone).1)
        hs.wellFormed.put
    rw [hdrop, naming_clear id hslot]
  have hminted (id : Nat) : ((s.put place Slot.null).dropRef slot.resourceId).mintedFrom id =
      s.mintedFrom id :=
    (total_dropRef (fun _ _ => rfl)
      (fun last hlast _ hone => (hs.last_reference hslot hcareful hlast hone).2)
      hs.wellFormed.put).trans mintedFrom_put
  refine hs.step hs.wellFormed.put.dropRef le_rfl (fun _ => .inl) hs.nulls_delete fun id => ?_
  have hname := hnaming id
  rw [hminted, count?_dropRef, count?_put]
  by_cases hnull : slot.capType = .null
  · rw [Slot.weight_of_null hnull, Nat.add_zero] at hname
    refine .inl ⟨?_, hname, rfl, rfl⟩
    rw [hs.nulls place slot hslot hnull]
    split
    next heq => rw [← heq, hs.zero, bind_none]
    next => rfl
  · rw [Slot.weight_eq hnull] at hname
    split at hname
    next heq =>
      subst heq
      obtain ⟨res, hres, hpos⟩ := hs.live hslot hnull
      have hword := hs.wellFormed.counts _ res hres
      have hold : s.count? slot.resourceId = some res.refCount := by simp [Store.count?, hres]
      have hrefs := hs.counts _ _ hold
      rw [if_pos rfl, hold, bind_some, released_eq (by omega) hword]
      by_cases hlast : res.refCount = 1
      · exact .inr (.inl ⟨if_pos hlast, by omega, rfl⟩)
      · refine .inr (.inr ⟨?_, hs.wellFormed.lt hres, ?_⟩)
        · intro hzero
          simp [hzero, hs.zero] at hold
        · rw [if_neg hlast]
          congr 1
          omega
    next hne => exact .inl ⟨if_neg hne, by omega, rfl, rfl⟩

/-- **One careful call keeps the counts exact.** -/
theorem Exact.effect {call : CapCall} {out : Outcome}
    (hcareful : Careful s call) (heffect : Effect s call out t) :
    Exact t (noteProcess s call out processes) := by
  cases heffect with
  | spawn => exact hs.spawn
  | create => exact hs.create hcareful.1 hcareful.2
  | mintRefused => exact hs
  | mint hslot hnull hrights hres =>
    obtain ⟨hdst, hword, hempty⟩ := hcareful _ _ hslot hnull hrights hres
    exact hs.mint hnull hres hdst hword hempty
  | copyRefused => exact hs
  | @copyLost src dst slot e hslot hnull hdst =>
    obtain ⟨res, hres, -⟩ := hs.live hslot hnull
    obtain ⟨⟨hnode, -⟩, -⟩ := hcareful _ _ hslot hnull hres
    simp [Store.slots?, hdst] at hnode
  | copy hslot hnull hdst =>
    obtain ⟨res, hres, -⟩ := hs.live hslot hnull
    obtain ⟨hvacant, hword⟩ := hcareful _ _ hslot hnull hres
    exact hs.copy hnull hres hvacant hword
  | moveRefused => exact hs
  | moveLost hslot hnull hdst => exact absurd (hcareful _ hslot) hnull
  | move hslot hnull hdst => exact absurd (hcareful _ hslot) hnull
  | deleteRefused => exact hs
  | delete hslot => exact hs.delete hslot hcareful
  | revoke ids => exact hcareful.elim

end Exact

theorem exact_init : Exact Store.init [] := by
  have hdead (id : Nat) : Store.init.get? id = none := by rcases id with _ | id <;> rfl
  refine ⟨wellFormed_init, ?_, fun _ _ => rfl, fun _ _ => rfl, ?_, ?_, rfl, Nat.one_pos⟩
  · simp [Store.count?, hdead]
  · simp
  · simp [Store.at?, Store.slot?, Store.slots?, hdead]

/-- **Reference counts.**  After every run of careful calls the count of a live resource is
    the number of slots and process records that name it, plus the number of live resources
    minted from it, and a resource named by a slot is alive. -/
theorem counts_exact {calls : List CapCall} {processes : List Nat} (hrun : Runs.Run
      (Runs.Guarded (RecordedStep noteProcess) fun x call => Careful x.1 call)
      (Store.init, []) calls (s, processes)) :
    (∀ id res, s.get? id = some res →
      res.refCount = s.naming id + processes.count id + s.mintedFrom id) ∧
    ∀ place slot, s.at? place = some slot → slot.capType ≠ .null →
      (s.get? slot.resourceId).isSome := by
  have hstep (x : Store × List Nat) (call : CapCall) (y : Store × List Nat)
      (hx : Exact x.1 x.2)
      (hxy : Runs.Guarded (RecordedStep noteProcess) (fun x call => Careful x.1 call) x call y) :
      Exact y.1 y.2 := by
    obtain ⟨hcareful, out, hreturns, hnote⟩ := hxy
    rw [hnote]
    exact hx.effect hcareful hreturns.effect
  have hexact := hrun.invariant (P := fun x => Exact x.1 x.2) hstep exact_init
  refine ⟨fun id res hres => hexact.counts id _ (by simp [Store.count?, hres]),
    fun place slot hslot hnull => ?_⟩
  obtain ⟨res, hres, -⟩ := hexact.live hslot hnull
  simp [hres]

/-! ### A careful run, and two careless ones -/

def createBoth : List CapCall :=
  [.create .cnode .processCNode 0xff ⟨1, 0⟩, .create .ep (.endpoint 0) 0x30 ⟨1, 1⟩]

def createdNode : Store :=
  ⟨[none, some ⟨1, .cnode, none, [],
    .cnode (⟨.cnode, 0xff, 1⟩ :: replicate 15 Slot.null)⟩], 2⟩

def createdBoth : Store :=
  ⟨[none, some ⟨1, .cnode, none, [],
      .cnode (⟨.cnode, 0xff, 1⟩ :: ⟨.ep, 0x30, 2⟩ :: replicate 14 Slot.null)⟩,
    some ⟨1, .ep, none, [], .ep 0⟩], 3⟩

theorem createBoth_careful :
    Runs.Run (Runs.Guarded (RecordedStep noteProcess) fun x call => Careful x.1 call)
      (Store.init, []) createBoth (createdBoth, []) := by
  have hnode : Careful Store.init (.create .cnode .processCNode 0xff ⟨1, 0⟩) := by
    refine ⟨by decide, rfl, fun slot hslot => ?_⟩
    cases hslot
    rfl
  have hep : Careful createdNode (.create .ep (.endpoint 0) 0x30 ⟨1, 1⟩) := by
    refine ⟨by decide, rfl, fun slot hslot => ?_⟩
    cases hslot
    rfl
  have hfirst : RecordedStep noteProcess (Store.init, [])
      (.create .cnode .processCNode 0xff ⟨1, 0⟩) (createdNode, []) :=
    ⟨.allocated 1, ⟨0, by decide +kernel⟩, rfl⟩
  have hsecond : RecordedStep noteProcess (createdNode, [])
      (.create .ep (.endpoint 0) 0x30 ⟨1, 1⟩) (createdBoth, []) :=
    ⟨.allocated 2, ⟨0, by decide +kernel⟩, rfl⟩
  exact .cons ⟨hnode, hfirst⟩ (.cons ⟨hep, hsecond⟩ (.nil _))

/-- After minting a capability for the endpoint. -/
def mintedThird : Store :=
  ⟨[none, some ⟨1, .cnode, none, [],
      .cnode (⟨.cnode, 0xff, 1⟩ :: ⟨.ep, 0x30, 2⟩ :: ⟨.ep, 0x10, 3⟩ ::
        replicate 13 Slot.null)⟩,
    some ⟨2, .ep, none, [3], .ep 0⟩, some ⟨1, .ep, some 2, [], .ep 0⟩], 4⟩

/-- After copying the endpoint's own capability to slot 3. -/
def copiedFourth : Store :=
  ⟨[none, some ⟨1, .cnode, none, [], .cnode (⟨.cnode, 0xff, 1⟩ :: ⟨.ep, 0x30, 2⟩ ::
      ⟨.ep, 0x10, 3⟩ :: ⟨.ep, 0x30, 2⟩ :: replicate 12 Slot.null)⟩,
    some ⟨3, .ep, none, [3], .ep 0⟩, some ⟨1, .ep, some 2, [], .ep 0⟩], 4⟩

/-- A mint, a copy and the deletion of the copy: the endpoint is counted once for its slot and
    once for the resource minted from it. -/
theorem counts_exact_mint_copy_delete :
    Runs.Run (Runs.Guarded (RecordedStep noteProcess) fun x call => Careful x.1 call)
      (Store.init, []) (createBoth ++
        [.mint ⟨1, 1⟩ 0x10 ⟨1, 2⟩, .copyCap ⟨1, 1⟩ ⟨1, 3⟩, .deleteCap ⟨1, 3⟩]) (mintedThird, []) ∧
    (∃ res, mintedThird.get? 2 = some res ∧ mintedThird.naming 2 = 1 ∧
      mintedThird.mintedFrom 2 = 1 ∧ res.refCount = 2) ∧
    ∀ place slot, mintedThird.at? place = some slot → slot.capType ≠ .null →
      (mintedThird.get? slot.resourceId).isSome := by
  have hmint : Careful createdBoth (.mint ⟨1, 1⟩ 0x10 ⟨1, 2⟩) := by
    rintro _ _ ⟨⟩ - - ⟨⟩
    exact ⟨⟨rfl, by rintro _ ⟨⟩; rfl⟩, by decide, nofun⟩
  have hcopy : Careful mintedThird (.copyCap ⟨1, 1⟩ ⟨1, 3⟩) := by
    rintro _ _ ⟨⟩ - ⟨⟩
    exact ⟨⟨rfl, by rintro _ ⟨⟩; rfl⟩, by decide⟩
  have hdelete : Careful copiedFourth (.deleteCap ⟨1, 3⟩) := by
    rintro _ _ ⟨⟩ - ⟨⟩ ⟨⟩
  have hrun : Runs.Run (Runs.Guarded (RecordedStep noteProcess) fun x call => Careful x.1 call)
      (createdBoth, []) [.mint ⟨1, 1⟩ 0x10 ⟨1, 2⟩, .copyCap ⟨1, 1⟩ ⟨1, 3⟩, .deleteCap ⟨1, 3⟩]
      (mintedThird, []) :=
    .cons (t := (mintedThird, []))
      ⟨hmint, .minted (some ⟨.ep, 0x10, 3⟩), ⟨0, by decide +kernel⟩, rfl⟩
      (.cons (t := (copiedFourth, [])) ⟨hcopy, .returned (.ok ()), ⟨0, by decide +kernel⟩, rfl⟩
        (.cons (t := (mintedThird, []))
          ⟨hdelete, .returned (.ok ()), ⟨0, by decide +kernel⟩, rfl⟩ (.nil _)))
  obtain ⟨hcounts, hlive⟩ := counts_exact (createBoth_careful.append hrun)
  have hnaming : mintedThird.naming 2 = 1 := by decide +kernel
  have hminted : mintedThird.mintedFrom 2 = 1 := by decide +kernel
  refine ⟨createBoth_careful.append hrun, ⟨_, rfl, hnaming, hminted, ?_⟩, hlive⟩
  rw [hcounts 2 _ rfl, hnaming, hminted]
  rfl

def afterCalls (calls : List CapCall) : Option (Store × List Nat) :=
  execute noteProcess 0 calls (Store.init, [])

/-- Mint a capability for the endpoint and delete it again: the endpoint stays counted twice.
    Mint the CNode and delete the endpoint's slot in the original: the endpoint is freed, and
    the slot in the copy still names it. -/
theorem careless_calls_break_counts : (∃ s, Runs.Run (RecordedStep noteProcess) (Store.init, [])
        (createBoth ++ [.mint ⟨1, 1⟩ 0x10 ⟨1, 2⟩, .deleteCap ⟨1, 2⟩]) (s, []) ∧
      (s.get? 2).map Resource.refCount = some 2 ∧ s.naming 2 = 1 ∧ s.mintedFrom 2 = 0) ∧
    ∃ s, Runs.Run (RecordedStep noteProcess) (Store.init, [])
        (createBoth ++ [.mint ⟨1, 0⟩ 0xff ⟨1, 2⟩, .deleteCap ⟨1, 1⟩]) (s, []) ∧
      s.at? ⟨3, 1⟩ = some ⟨.ep, 0x30, 2⟩ ∧ s.get? 2 = none := by
  constructor
  · have hcalls : (afterCalls
        (createBoth ++ [.mint ⟨1, 1⟩ 0x10 ⟨1, 2⟩, .deleteCap ⟨1, 2⟩])).map (fun x =>
          (x.2, (x.1.get? 2).map Resource.refCount, x.1.naming 2, x.1.mintedFrom 2)) =
        some ([], some 2, 1, 0) := by decide +kernel
    obtain ⟨⟨s, _⟩, hrun, heq⟩ := map_eq_some_iff.mp hcalls
    simp only [Prod.mk.injEq] at heq
    obtain ⟨rfl, hcount, hnaming, hminted⟩ := heq
    exact ⟨s, execute_run hrun, hcount, hnaming, hminted⟩
  · have hcalls : (afterCalls
        (createBoth ++ [.mint ⟨1, 0⟩ 0xff ⟨1, 2⟩, .deleteCap ⟨1, 1⟩])).map (fun x =>
          (x.2, x.1.at? ⟨3, 1⟩, x.1.get? 2)) =
        some ([], some ⟨.ep, 0x30, 2⟩, none) := by decide +kernel
    obtain ⟨⟨s, _⟩, hrun, heq⟩ := map_eq_some_iff.mp hcalls
    simp only [Prod.mk.injEq] at heq
    obtain ⟨rfl, hslot, hdead⟩ := heq
    exact ⟨s, execute_run hrun, hslot, hdead⟩

end TrainOS.Capability
