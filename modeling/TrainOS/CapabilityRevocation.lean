import TrainOS.CapabilityRuns
import TrainOS.Forest

/-!
# Revocation

In every reachable store the derivation lists form a forest, so `revoke` returns and drops one
reference of the resource and of each live resource below it.  That does not free a resource
from which something was minted, or one that was copied.
-/

namespace TrainOS.Capability

open Forest List MachineWord Option Relation StateExcept

variable {s t u : Store} {id : Nat}

/-! ### The derivation forest -/

/-- `c` is in the `derivation_children` of the live resource `p`. -/
def Store.Child (s : Store) (p c : Nat) : Prop :=
  ∃ res, s.get? p = some res ∧ c ∈ res.derivationChildren

/-- What holds of every reachable store. -/
structure WellFormed (s : Store) : Prop where
  length : s.resources.length = s.nextResourceId
  counts : ∀ id res, s.get? id = some res → res.refCount < WORD
  forest : IsForest s.Child
  allocated : ∀ p c, s.Child p c → c < s.nextResourceId
  nodup : ∀ id res, s.get? id = some res → res.derivationChildren.Nodup

variable {res : Resource}

theorem WellFormed.lt (hs : WellFormed s) (h : s.get? id = some res) :
    id < s.nextResourceId :=
  hs.length ▸ Store.lt_of_get? h

/-- The derivation lists are kept. -/
abbrev Prunes : Store → Store → Prop := Retains Resource.derivationChildren

variable {p c : Nat}

theorem Prunes.child (hst : Prunes s t) (h : t.Child p c) : s.Child p c := by
  obtain ⟨res, hres, hc⟩ := h
  obtain ⟨old, hold, heq⟩ := hst.resource p res hres
  exact ⟨old, hold, heq ▸ hc⟩

theorem WellFormed.prunes (hs : WellFormed s) (hst : Prunes s t)
    (hcounts : ∀ id res, t.get? id = some res → res.refCount < WORD) : WellFormed t where
  length := by rw [hst.length, hst.next, hs.length]
  counts := hcounts
  forest := ⟨fun h => hs.forest.lt (hst.child h),
    fun h h' => hs.forest.unique (hst.child h) (hst.child h')⟩
  allocated p c h := hst.next ▸ hs.allocated p c (hst.child h)
  nodup id res hres := by
    obtain ⟨old, hold, heq⟩ := hst.resource id res hres
    exact heq ▸ hs.nodup id old hold

theorem wrapSub_lt {a b : Nat} : wrapSub a b < WORD := Nat.mod_lt _ (by decide)

theorem WellFormed.update (hs : WellFormed s) {g : Resource → Option Resource}
    (hg : ∀ res res', g res = some res' → res'.derivationChildren = res.derivationChildren ∧
      (res.refCount < WORD → res'.refCount < WORD)) : WellFormed (s.update id g) := by
  refine hs.prunes (retains_update fun res res' h => (hg res res' h).1) fun j res hres => ?_
  rw [Store.get?_update] at hres
  split at hres
  · obtain ⟨old, hold, hgold⟩ := bind_eq_some_iff.mp hres
    exact (hg old res hgold).2 (hs.counts j old hold)
  · exact hs.counts j res hres

theorem WellFormed.addRef (hs : WellFormed s) : WellFormed (s.addRef id) :=
  hs.update fun _ _ h => some.inj h ▸ ⟨rfl, fun _ => Nat.mod_lt _ (by decide)⟩

theorem Resource.release_some {res' : Resource} (h : res.release = some res') :
    res' = { res with refCount := wrapSub res.refCount 1 } := by
  rw [Resource.release] at h
  split at h
  · cases h
  · exact (some.inj h).symm

variable {out : Outcome} {resType : CapType} {data : ResourceData} {place : Place} {slot : Slot}
  {call : CapCall}

section

variable (hs : WellFormed s)
include hs

theorem WellFormed.dropRef : WellFormed (s.dropRef id) :=
  hs.update fun _ _ h => Resource.release_some h ▸ ⟨rfl, fun _ => wrapSub_lt⟩

theorem WellFormed.put : WellFormed (s.put place slot) := by
  refine hs.update fun res res' h => ?_
  split at h
  · exact some.inj h ▸ ⟨rfl, id⟩
  · exact some.inj h ▸ ⟨rfl, id⟩

theorem WellFormed.alloc : WellFormed (s.alloc resType data) := by
  have hchild {p c : Nat} (h : (s.alloc resType data).Child p c) : s.Child p c := by
    obtain ⟨res, hres, hc⟩ := h
    rw [Store.get?_alloc] at hres
    split at hres
    · cases hres
      cases hc
    · exact ⟨res, hres, hc⟩
  refine ⟨?_, fun j res hres => ?_, ⟨fun h => hs.forest.lt (hchild h),
    fun h h' => hs.forest.unique (hchild h) (hchild h')⟩,
    fun p c h => (hs.allocated p c (hchild h)).trans (Nat.lt_succ_self _), fun j res hres => ?_⟩
  · simp [Store.alloc, Store.insert, hs.length]
  all_goals
    rw [Store.get?_alloc] at hres
    split at hres
  · cases hres
    exact one_lt_word
  · exact hs.counts j res hres
  · cases hres
    exact nodup_nil
  · exact hs.nodup j res hres

/-- A fresh child keeps the derivations a forest. -/
theorem WellFormed.recordDerivation (hlt : p < c)
    (hc : c < s.nextResourceId) (hfresh : ∀ q, ¬ s.Child q c) :
    WellFormed (s.recordDerivation p c) := by
  have hget {j : Nat} {res : Resource} (hres : (s.recordDerivation p c).get? j = some res) :
      ∃ old, s.get? j = some old ∧ res.refCount = old.refCount ∧
        res.derivationChildren =
          if p = j then old.derivationChildren ++ [c] else old.derivationChildren := by
    simp only [Store.recordDerivation, Store.get?_update] at hres
    cases hold : s.get? j with
    | none => simp [hold] at hres
    | some old =>
      refine ⟨old, rfl, ?_⟩
      simp only [hold] at hres
      split at hres <;> split at hres <;> obtain rfl := some.inj hres <;> simp_all
  have hchild {q d : Nat} (h : (s.recordDerivation p c).Child q d) :
      s.Child q d ∨ q = p ∧ d = c := by
    obtain ⟨res, hres, hd⟩ := h
    obtain ⟨old, hold, -, hlist⟩ := hget hres
    rw [hlist] at hd
    split at hd
    next heq =>
      rcases mem_append.mp hd with hd | hd
      · exact .inl ⟨old, hold, hd⟩
      · exact .inr ⟨heq.symm, mem_singleton.mp hd⟩
    next => exact .inl ⟨old, hold, hd⟩
  refine ⟨?_, fun j res hres => ?_, ⟨fun h => ?_, fun h h' => ?_⟩, fun q d h => ?_,
    fun j res hres => ?_⟩
  · simpa [Store.recordDerivation] using hs.length
  · obtain ⟨old, hold, hcount, -⟩ := hget hres
    exact hcount ▸ hs.counts j old hold
  · rcases hchild h with h | ⟨rfl, rfl⟩
    · exact hs.forest.lt h
    · exact hlt
  · rcases hchild h with hold | ⟨rfl, rfl⟩ <;> rcases hchild h' with hold' | ⟨hq, hd⟩
    · exact hs.forest.unique hold hold'
    · exact absurd (hd ▸ hold) (hfresh _)
    · exact absurd hold' (hfresh _)
    · exact hq.symm
  · rcases hchild h with h | ⟨rfl, rfl⟩
    · exact hs.allocated q d h
    · exact hc
  · obtain ⟨old, hold, -, hlist⟩ := hget hres
    rw [hlist]
    split
    · refine nodup_append.mpr ⟨hs.nodup j old hold, by simp, ?_⟩
      rintro d hd _ hdc rfl
      exact hfresh j ⟨old, hold, mem_singleton.mp hdc ▸ hd⟩
    · exact hs.nodup j old hold

theorem WellFormed.minted (hres : s.get? slot.resourceId = some res) :
    WellFormed (s.minted slot res) := by
  refine hs.addRef.alloc.recordDerivation (hs.lt hres) (Nat.lt_succ_self _) fun q hq => ?_
  obtain ⟨new, hnew, hc⟩ := hq
  rw [Store.get?_alloc] at hnew
  split at hnew
  · cases hnew
    cases hc
  · exact (hs.addRef.allocated q _ ⟨new, hnew, hc⟩).false

/-- **One call keeps the derivation lists a forest.** -/
theorem WellFormed.effect (heffect : Effect s call out t) : WellFormed t := by
  cases heffect with
  | spawn => exact hs.alloc
  | create => exact hs.alloc.put
  | mint hslot hnull hrights hres => exact (hs.minted hres).put
  | copyLost | moveLost => exact hs.addRef
  | copy => exact hs.addRef.put
  | move => exact hs.addRef.put.put
  | delete => exact hs.put.dropRef
  | revoke ids =>
    induction ids generalizing s with
    | nil => exact hs
    | cons id ids ih => exact ih hs.dropRef
  | mintRefused | copyRefused | moveRefused | deleteRefused => exact hs

end

theorem wellFormed_init : WellFormed Store.init := by
  have hdead (id : Nat) : Store.init.get? id = none := by rcases id with _ | id <;> rfl
  refine ⟨rfl, ?_, ⟨?_, ?_⟩, ?_, ?_⟩ <;> simp [Store.Child, hdead]

/-! ### What `revoke` does -/

/-- One reference of every resource in `D` is dropped. -/
structure DropsAll (D : Set Nat) (s t : Store) : Prop where
  next : t.nextResourceId = s.nextResourceId
  length : t.resources.length = s.resources.length
  dropped : ∀ id ∈ D, t.get? id = (s.get? id).bind Resource.release
  kept : ∀ id ∉ D, t.get? id = s.get? id

theorem dropsAll_empty : DropsAll ∅ s s := ⟨rfl, rfl, fun _ h => h.elim, fun _ _ => rfl⟩

theorem dropsAll_dropRef : DropsAll {id} s (s.dropRef id) where
  next := rfl
  length := Store.length_update
  dropped j hj := by
    obtain rfl : j = id := hj
    simp [Store.dropRef, Store.get?_update]
  kept j hj := by
    rw [Store.dropRef, Store.get?_update, if_neg (Ne.symm hj)]

variable {D : Set Nat}

theorem DropsAll.trans {E : Set Nat} (hst : DropsAll D s t) (htu : DropsAll E t u)
    (hdisjoint : ∀ id ∈ D, id ∉ E) : DropsAll (D ∪ E) s u where
  next := htu.next.trans hst.next
  length := htu.length.trans hst.length
  dropped id hid := by
    rcases hid with hid | hid
    · rw [htu.kept id (hdisjoint id hid), hst.dropped id hid]
    · rw [htu.dropped id hid, hst.kept id fun h => hdisjoint id h hid]
  kept id hid := by
    rw [htu.kept id fun h => hid (.inr h), hst.kept id fun h => hid (.inl h)]

theorem DropsAll.unique (hst : DropsAll D s t) (hsu : DropsAll D s u) : t = u := by
  have hget (id : Nat) : t.get? id = u.get? id := by
    by_cases hid : id ∈ D
    · rw [hst.dropped id hid, hsu.dropped id hid]
    · rw [hst.kept id hid, hsu.kept id hid]
  have hlength : t.resources.length = u.resources.length := hst.length.trans hsu.length.symm
  have hresources : t.resources = u.resources := by
    refine ext_getElem hlength fun i hi hi' => ?_
    simpa [Store.get?, hi, hi'] using hget i
  have hnext : t.nextResourceId = u.nextResourceId := hst.next.trans hsu.next.symm
  cases t
  cases u
  simp_all

def Store.subtree (s : Store) (id : Nat) : Set Nat := { x | ReflTransGen s.Child id x }

theorem Store.subtree_eq (hres : s.get? id = some res) :
    s.subtree id = { x | ∃ c ∈ res.derivationChildren, x ∈ s.subtree c } ∪ {id} := by
  ext x
  simp only [subtree, Set.mem_ofPred_eq, Set.mem_union, Set.mem_singleton_iff]
  rw [ReflTransGen.cases_head_iff, or_comm, eq_comm]
  simp [Store.Child, hres]

theorem Store.subtree_dead (hdead : s.get? id = none) : s.subtree id = {id} := by
  ext x
  simp only [subtree, Set.mem_ofPred_eq, Set.mem_singleton_iff]
  rw [ReflTransGen.cases_head_iff, eq_comm]
  simp [Store.Child, hdead]

theorem DropsAll.subtree_eq (hst : DropsAll D s t)
    (hout : ∀ x ∈ s.subtree id, x ∉ D) : t.subtree id = s.subtree id := by
  ext x
  refine subtree_congr fun y hy z => ?_
  simp [Store.Child, hst.kept y (hout y hy)]

theorem DropsAll.wellFormed (hst : DropsAll D s t) (hs : WellFormed s) : WellFormed t := by
  have hold {j : Nat} {res : Resource} (hres : t.get? j = some res) :
      ∃ old, s.get? j = some old ∧ res.derivationChildren = old.derivationChildren ∧
        res.refCount < WORD := by
    by_cases hj : j ∈ D
    · rw [hst.dropped j hj] at hres
      obtain ⟨old, hold, hrelease⟩ := bind_eq_some_iff.mp hres
      obtain rfl := Resource.release_some hrelease
      exact ⟨old, hold, rfl, wrapSub_lt⟩
    · rw [hst.kept j hj] at hres
      exact ⟨res, hres, rfl, hs.counts j res hres⟩
  refine hs.prunes ⟨hst.next, hst.length, fun j res hres => ?_⟩ fun j res hres => ?_
  · obtain ⟨old, hold, heq, -⟩ := hold hres
    exact ⟨old, hold, heq⟩
  · exact (hold hres).choose_spec.2.2

variable {holds fuel : Nat}

/-- What the recursion provides for a child. -/
def Revokes (fuel holds : Nat) : Prop :=
  ∀ (s : Store) (id : Nat), WellFormed s → id < s.nextResourceId → s.nextResourceId ≤ id + fuel →
    ∃ t, run (revoke .reentrant fuel id) ⟨s, holds⟩ = (.ok (), ⟨t, holds⟩) ∧
      DropsAll (s.subtree id) s t

/-- Revoking the children drops their subtrees. -/
theorem revoke_children (hrec : Revokes fuel holds) (children : List Nat)
    (hs : WellFormed s) (hfuel : s.nextResourceId ≤ p + (fuel + 1)) (hnodup : children.Nodup)
    (hchildren : ∀ c ∈ children, s.Child p c) :
    ∃ t, run (forM children (revoke .reentrant fuel)) ⟨s, holds⟩ = (.ok (), ⟨t, holds⟩) ∧
      DropsAll { x | ∃ c ∈ children, x ∈ s.subtree c } s t := by
  induction children generalizing s with
  | nil => exact ⟨s, rfl, by simpa using dropsAll_empty⟩
  | cons c cs ih =>
    obtain ⟨hc, hcs⟩ := forall_mem_cons.mp hchildren
    obtain ⟨hnotin, hnodup⟩ := nodup_cons.mp hnodup
    have hlt : p < c := hs.forest.lt hc
    obtain ⟨t, hrun, hdrops⟩ := hrec s c hs (hs.allocated p c hc) (by omega)
    have hp : t.get? p = s.get? p := hdrops.kept p fun h => (hlt.trans_le (hs.forest.le h)).false
    have hcs' (d : Nat) (hd : d ∈ cs) : t.Child p d := by
      obtain ⟨res, hres, hmem⟩ := hcs d hd
      exact ⟨res, hp.trans hres, hmem⟩
    have hdisjoint (x d : Nat) (hd : d ∈ cs) (hx : x ∈ s.subtree d) : x ∉ s.subtree c :=
      hs.forest.siblings_disjoint (hcs d hd) hc (fun heq => hnotin (heq ▸ hd)) hx
    have hsubtree : { x | ∃ d ∈ cs, x ∈ t.subtree d } = { x | ∃ d ∈ cs, x ∈ s.subtree d } := by
      ext x
      refine exists_congr fun d => and_congr_right fun hd => ?_
      rw [hdrops.subtree_eq fun x hx => hdisjoint x d hd hx]
    obtain ⟨u, hrun', hdrops'⟩ :=
      ih (hdrops.wellFormed hs) (hdrops.next ▸ hfuel) hnodup hcs'
    rw [hsubtree] at hdrops'
    refine ⟨u, by rw [run_forM_cons, hrun]; exact hrun', ?_⟩
    have hall := hdrops.trans hdrops' fun x hx ⟨d, hd, hxd⟩ => hdisjoint x d hd hxd hx
    have hset : s.subtree c ∪ { x | ∃ d ∈ cs, x ∈ s.subtree d } =
        { x | ∃ d ∈ c :: cs, x ∈ s.subtree d } := by
      ext x
      simp
    exact hset ▸ hall

/-- **`revoke` returns, and drops one reference of the resource and of each live resource
    below it.** -/
theorem revokes (fuel holds : Nat) : Revokes fuel holds := by
  induction fuel with
  | zero =>
    intro s id _ hid hfuel
    omega
  | succ fuel ih =>
    intro s id hs hid hfuel
    rw [run_revoke_succ, if_pos (hs.length ▸ hid)]
    cases hres : s.get? id with
    | none =>
      refine ⟨s, rfl, rfl, rfl, fun x hx => ?_, fun x _ => rfl⟩
      rw [Store.subtree_dead hres] at hx
      obtain rfl : x = id := hx
      rw [hres]
      rfl
    | some res =>
      obtain ⟨t, hrun, hdrops⟩ := revoke_children ih res.derivationChildren hs hfuel
        (hs.nodup id res hres) fun c hc => ⟨res, hres, hc⟩
      refine ⟨t.dropRef id, ?_, ?_⟩
      · simp [run_bind, hrun, run_decRef free_reentrant]
      · rw [Store.subtree_eq hres]
        refine hdrops.trans dropsAll_dropRef ?_
        rintro x ⟨c, hc, hx⟩ rfl
        exact ((hs.forest.lt ⟨res, hres, hc⟩).trans_le (hs.forest.le hx)).false

theorem WellFormed.revoke_returns (hs : WellFormed s) {r : Nat} (hr : r < s.nextResourceId) :
    ∃ t, (∃ n, ∀ fuel ≥ n, run (revoke .reentrant fuel r) ⟨s, 0⟩ = (.ok (), ⟨t, 0⟩)) ∧
      DropsAll (s.subtree r) s t := by
  obtain ⟨t, -, hdrops⟩ := revokes s.nextResourceId 0 s r hs hr (by omega)
  refine ⟨t, ⟨s.nextResourceId, fun fuel hfuel => ?_⟩, hdrops⟩
  obtain ⟨u, hrun, hdrops'⟩ := revokes fuel 0 s r hs hr (by omega)
  rw [hrun, hdrops'.unique hdrops]

theorem Resource.release_eq_none (hword : res.refCount < WORD) :
    res.release = none ↔ res.refCount = 1 := by
  rw [← wrapSub_one_eq_zero hword, Resource.release]
  split
  next hzero => exact iff_of_true rfl hzero
  next hzero => exact iff_of_false (by simp) hzero

/-- **When revocation is complete.**  In every reachable store `revoke` of a live resource
    returns; afterwards nothing below the resource is alive exactly when every live resource
    below it was counted once. -/
theorem revocation_complete_iff {calls : List CapCall} (hrun : Runs.Run Step Store.init calls s)
    {r : Nat} {res : Resource} (hlive : s.get? r = some res) :
    ∃ t, (∃ n, ∀ fuel ≥ n, run (revoke .reentrant fuel r) ⟨s, 0⟩ = (.ok (), ⟨t, 0⟩)) ∧
      ((∀ x, TransGen s.Child r x → t.get? x = none) ↔
        ∀ x below, TransGen s.Child r x → s.get? x = some below → below.refCount = 1) := by
  have hs : WellFormed s :=
    hrun.invariant (fun _ _ _ hx ⟨_, hreturns⟩ => hx.effect hreturns.effect) wellFormed_init
  obtain ⟨t, hreturns, hdrops⟩ := hs.revoke_returns (hs.lt hlive)
  refine ⟨t, hreturns, forall_congr' fun x => ?_⟩
  rw [forall_comm]
  refine forall_congr' fun hx => ?_
  rw [hdrops.dropped x hx.to_reflTransGen]
  cases hbelow : s.get? x with
  | none => simp
  | some below =>
    rw [bind_some, Resource.release_eq_none (hs.counts x below hbelow)]
    exact ⟨fun h _ heq => some.inj heq ▸ h, fun h => h below rfl⟩

/-! An endpoint, a capability minted from it, and one minted from that. -/

def mintTwice : List CapCall :=
  [.spawn, .create .ep (.endpoint 0) 0x30 ⟨1, 0⟩, .mint ⟨1, 0⟩ 0x30 ⟨1, 1⟩,
    .mint ⟨1, 1⟩ 0x10 ⟨1, 2⟩]

def mintedTwice : Store :=
  ⟨[none,
    some ⟨1, .cnode, none, [], .cnode ([⟨.ep, 0x30, 2⟩, ⟨.ep, 0x30, 3⟩, ⟨.ep, 0x10, 4⟩] ++
      replicate 13 Slot.null)⟩,
    some ⟨2, .ep, none, [3], .ep 0⟩, some ⟨2, .ep, some 2, [4], .ep 0⟩,
    some ⟨1, .ep, some 3, [], .ep 0⟩], 5⟩

theorem run_mintTwice : Runs.Run Step Store.init mintTwice mintedTwice := by
  have hexec : execute (fun _ _ _ _ => ()) 0 mintTwice (Store.init, ()) =
      some (mintedTwice, ()) := by decide +kernel
  exact run_of_recorded (execute_run hexec)

theorem revocation_complete_iff_mintTwice :
    ∃ t, (∃ n, ∀ fuel ≥ n, run (revoke .reentrant fuel 3) ⟨mintedTwice, 0⟩ = (.ok (), ⟨t, 0⟩)) ∧
      ((∀ x, TransGen mintedTwice.Child 3 x → t.get? x = none) ↔
        ∀ x below, TransGen mintedTwice.Child 3 x → mintedTwice.get? x = some below →
          below.refCount = 1) :=
  revocation_complete_iff run_mintTwice rfl

def endpointRevoked : Store :=
  ⟨[none,
    some ⟨1, .cnode, none, [], .cnode ([⟨.ep, 0x30, 2⟩, ⟨.ep, 0x30, 3⟩, ⟨.ep, 0x10, 4⟩] ++
      replicate 13 Slot.null)⟩,
    some ⟨1, .ep, none, [3], .ep 0⟩, some ⟨1, .ep, some 2, [4], .ep 0⟩, none], 5⟩

/-- Revoking the endpoint frees the second capability, but not the first: it is still alive,
    and slot 1 still names it. -/
theorem revoke_leaves_child_alive :
    Runs.Run Step Store.init mintTwice mintedTwice ∧ (mintedTwice.get? 2).isSome ∧
      TransGen mintedTwice.Child 2 3 ∧
      run (revoke .reentrant 3 2) ⟨mintedTwice, 0⟩ = (.ok (), ⟨endpointRevoked, 0⟩) ∧
      (endpointRevoked.get? 3).isSome ∧
      endpointRevoked.at? ⟨1, 1⟩ = some ⟨.ep, 0x30, 3⟩ :=
  ⟨run_mintTwice, rfl, .single ⟨_, rfl, mem_singleton_self 3⟩, by decide +kernel, rfl, rfl⟩

/-! ### The forest and the reach of a revocation -/

/-- The calls of a run, and `alloc_resource` with any data. -/
inductive AnyCall
  | kernel (call : CapCall)
  | allocResource (resType : CapType) (data : ResourceData)

def AnyStep (s : Store) : AnyCall → Store → Prop
  | .kernel call, t => Step s call t
  | .allocResource resType data, t =>
      ∃ id, run (allocResource .reentrant resType data) ⟨s, 0⟩ = (.ok id, ⟨t, 0⟩)

/-- A resource comes after the parent it remembers. -/
def ParentsFirst (s : Store) : Prop :=
  ∀ id res p, s.get? id = some res → res.derivationParent = some p → p < id

section

variable (hs : ParentsFirst s)
include hs

theorem ParentsFirst.retains (hst : Retains Resource.derivationParent s t) : ParentsFirst t := by
  intro id res p hres hp
  obtain ⟨old, hold, heq⟩ := hst.resource id res hres
  exact hs id old p hold (heq ▸ hp)

theorem ParentsFirst.alloc : ParentsFirst (s.alloc resType data) := by
  intro id res p hres hp
  rw [Store.get?_alloc] at hres
  split at hres
  · cases hres
    cases hp
  · exact hs id res p hres hp

theorem ParentsFirst.put :
    ParentsFirst (s.put place slot) :=
  hs.retains (retains_put fun _ _ _ _ => rfl)

theorem ParentsFirst.addRef : ParentsFirst (s.addRef id) :=
  hs.retains (retains_addRef fun _ _ => rfl)

theorem ParentsFirst.recordDerivation (hlt : p < c) : ParentsFirst (s.recordDerivation p c) := by
  have hlist : ParentsFirst (s.update p fun parent =>
      some { parent with derivationChildren := parent.derivationChildren ++ [c] }) :=
    hs.retains (retains_update (by rintro res _ ⟨⟩; rfl))
  intro id res q hres hq
  rw [Store.recordDerivation, Store.get?_update] at hres
  split at hres
  · rename_i heq
    obtain ⟨old, -, hold⟩ := bind_eq_some_iff.mp hres
    cases hold
    cases hq
    exact heq ▸ hlt
  · exact hlist id res q hres hq

theorem ParentsFirst.effect (hwell : WellFormed s) (heffect : Effect s call out t) :
    ParentsFirst t := by
  cases heffect with
  | spawn => exact hs.alloc
  | create => exact hs.alloc.put
  | mint hslot hnull hrights hres => exact (hs.addRef.alloc.recordDerivation (hwell.lt hres)).put
  | copyLost | moveLost => exact hs.addRef
  | copy => exact hs.addRef.put
  | move => exact hs.addRef.put.put
  | delete => exact hs.put.retains (retains_dropRef fun _ _ => rfl)
  | revoke ids => exact hs.retains (retains_dropRefs (fun _ _ => rfl) ids)
  | mintRefused | copyRefused | moveRefused | deleteRefused => exact hs

end

theorem anyStep_keeps {call : AnyCall} (hs : WellFormed s ∧ ParentsFirst s)
    (hstep : AnyStep s call t) : WellFormed t ∧ ParentsFirst t := by
  cases call with
  | kernel call =>
    obtain ⟨out, hreturns⟩ := hstep
    exact ⟨hs.1.effect hreturns.effect, hs.2.effect hs.1 hreturns.effect⟩
  | allocResource resType data =>
    obtain ⟨id, hrun⟩ := hstep
    cases hrun
    exact ⟨hs.1.alloc, hs.2.alloc⟩

/-- **Derivation is a forest and revocation is local.**  In every reachable store a child comes
    after its parent and stands once in the list of one parent; `revoke` of an id of the
    vector returns, drops one reference of each live resource of the subtree, and leaves
    every other resource as it was. -/
theorem derivation_forest {calls : List AnyCall} (hrun : Runs.Run AnyStep Store.init calls s) :
    (∀ p c, s.Child p c → p < c) ∧
      (∀ c res p, s.get? c = some res → res.derivationParent = some p → p < c) ∧
      (∀ p q c, s.Child p c → s.Child q c → p = q) ∧
      (∀ p res, s.get? p = some res → res.derivationChildren.Nodup) ∧
      ∀ r < s.resources.length, ∃ t,
        (∃ n, ∀ fuel ≥ n, run (revoke .reentrant fuel r) ⟨s, 0⟩ = (.ok (), ⟨t, 0⟩)) ∧
        (∀ x, ReflTransGen s.Child r x → t.get? x = (s.get? x).bind Resource.release) ∧
        ∀ x, ¬ ReflTransGen s.Child r x → t.get? x = s.get? x := by
  have hinit : ParentsFirst Store.init := by
    intro id res p hres
    rcases id with _ | id <;> cases hres
  obtain ⟨hs, hparents⟩ := hrun.invariant (fun _ _ _ hx hstep => anyStep_keeps hx hstep)
    ⟨wellFormed_init, hinit⟩
  refine ⟨fun _ _ => hs.forest.lt, hparents, fun _ _ _ => hs.forest.unique, hs.nodup,
    fun r hr => ?_⟩
  obtain ⟨t, hreturns, hdrops⟩ := hs.revoke_returns (hs.length ▸ hr)
  exact ⟨t, hreturns, hdrops.dropped, hdrops.kept⟩

theorem run_kernel {calls : List CapCall} (h : Runs.Run Step s calls t) :
    Runs.Run AnyStep s (calls.map .kernel) t := by
  induction h with
  | nil s => exact .nil s
  | cons hfirst _ ih => exact .cons hfirst ih

/-- Capability 3 is minted from the endpoint 2 and capability 4 from 3.  Revoking 3 drops one
    reference of both, and the endpoint stays as it was. -/
theorem derivation_forest_mintTwice :
    mintedTwice.Child 2 3 ∧ mintedTwice.Child 3 4 ∧ ∃ t,
      (∃ n, ∀ fuel ≥ n, run (revoke .reentrant fuel 3) ⟨mintedTwice, 0⟩ = (.ok (), ⟨t, 0⟩)) ∧
      (t.get? 3).map Resource.refCount = some 1 ∧ t.get? 4 = none ∧
      t.get? 2 = mintedTwice.get? 2 := by
  obtain ⟨hlt, -, -, -, hrevoke⟩ := derivation_forest (run_kernel run_mintTwice)
  have hfirst : mintedTwice.Child 2 3 := ⟨_, rfl, mem_singleton_self 3⟩
  have hsecond : mintedTwice.Child 3 4 := ⟨_, rfl, mem_singleton_self 4⟩
  obtain ⟨t, hreturns, hdropped, hkept⟩ := hrevoke 3 (by decide)
  have hbelow : ∀ x, ReflTransGen mintedTwice.Child 3 x → 3 ≤ x := by
    intro x hx
    induction hx with
    | refl => exact le_refl 3
    | tail _ hchild ih => exact ih.trans (hlt _ _ hchild).le
  refine ⟨hfirst, hsecond, t, hreturns, ?_, ?_, hkept 2 fun hreach => ?_⟩
  · rw [hdropped 3 .refl]
    rfl
  · rw [hdropped 4 (.single hsecond)]
    rfl
  · exact absurd (hbelow 2 hreach) (by decide)

end TrainOS.Capability
