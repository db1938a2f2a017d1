import TrainOS.Capability

/-!
# The capability operations and their lock

With a reentrant lock every operation is a function on the store.  With the kernel's spin mutex
`mint`, `copy_cap` and `move_cap` wait for themselves whenever they get as far as the
resource; `delete_cap`, `revoke` and `get_resource` never do.
-/

namespace TrainOS.Capability

open StateExcept

variable {α β : Type} {L : LockKind}

/-! ### Scopes -/

@[simp] theorem run_readStore_bind (f : Store → CapM β) (k : LockedStore) :
    run (readStore >>= f) k = run (f k.store) k := rfl

@[simp] theorem run_writeStore (f : Store → Store) (k : LockedStore) :
    run (writeStore f) k = (.ok (), ⟨f k.store, k.holds⟩) := rfl

@[simp] theorem run_writeStore_bind (f : Store → Store) (g : Unit → CapM β) (k : LockedStore) :
    run (writeStore f >>= g) k = run (g ()) ⟨f k.store, k.holds⟩ := rfl

def Free (L : LockKind) (holds : Nat) : Prop := L = .spin → holds = 0

theorem free_zero : Free L 0 := fun _ => rfl

variable {holds id cnodeId idx fuel srcCnode srcIdx dstCnode dstIdx : Nat}

theorem free_reentrant : Free .reentrant holds := by simp [Free]

variable {scope : CapM α} {s : Store}

theorem run_withResources (hfree : Free L holds) : run (withResources L scope) ⟨s, holds⟩ =
      match run scope ⟨s, holds + 1⟩ with
      | (.ok a, k) => (.ok a, ⟨k.store, k.holds - 1⟩)
      | (.error e, k) => (.error e, k) := by
  have hacquire : run (acquire L) ⟨s, holds⟩ = (.ok (), ⟨s, holds + 1⟩) := by
    have hnot : ¬ (L = .spin ∧ 0 < holds) := fun h => (hfree h.1 ▸ h.2).false
    simp [acquire, run_bind, run_get, hnot, run_set]
  simp only [withResources, run_bind, hacquire]
  rcases run scope ⟨s, holds + 1⟩ with ⟨_ | a, k⟩ <;> rfl

/-- **The holder of a spin mutex waits for itself.** -/
theorem run_withResources_held :
    run (withResources .spin scope) ⟨s, holds + 1⟩ = (.error .deadlock, ⟨s, holds + 1⟩) := by
  simp [withResources, acquire, run_bind, run_get, run_throw]

/-! ### Operations that take the lock once -/

section Once

variable {s : Store} {holds id : Nat}

theorem run_incRef (hfree : Free L holds) : run (incRef L id) ⟨s, holds⟩ =
      if id < s.resources.length then (.ok (), ⟨s.addRef id, holds⟩)
      else (.error .panic, ⟨s, holds + 1⟩) := by
  rw [incRef, run_withResources hfree, run_readStore_bind]
  by_cases hid : id < s.resources.length <;> simp [hid, run_throw]

theorem run_decRef (hfree : Free L holds) :
    run (decRef L id) ⟨s, holds⟩ = (.ok (), ⟨s.dropRef id, holds⟩) := by
  rw [decRef, run_withResources hfree, run_writeStore]
  rfl

theorem run_allocResource {resType : CapType} {data : ResourceData} (hfree : Free L holds) :
    run (allocResource L resType data) ⟨s, holds⟩ =
      (.ok s.nextResourceId, ⟨s.alloc resType data, holds⟩) := by
  rw [allocResource, run_readStore_bind, run_writeStore_bind, run_withResources hfree]
  rfl

end Once

/-! ### With a reentrant lock -/

variable {rights : Rights}

section Reentrant

variable {s : Store} {holds : Nat}

theorem run_duplicateResourceDataInner : run (duplicateResourceDataInner .reentrant id) ⟨s, holds⟩ =
      match s.get? id with
      | none => (.ok none, ⟨s, holds⟩)
      | some res => (.ok (some res.data), ⟨s.addRef id, holds⟩) := by
  rw [duplicateResourceDataInner, run_withResources free_reentrant, run_readStore_bind]
  cases hget : s.get? id with
  | none => rfl
  | some res =>
    simp only [run_bind, run_incRef free_reentrant, Store.lt_of_get? hget, if_true]
    rfl

/-- The store after a successful `mint` of a slot whose resource is `res`. -/
def Store.minted (s : Store) (src : Slot) (res : Resource) : Store :=
  ((s.addRef src.resourceId).alloc src.capType res.data).recordDerivation src.resourceId
    s.nextResourceId

theorem run_mint : run (mint .reentrant cnodeId idx rights) ⟨s, holds⟩ =
      match s.mintSource cnodeId idx rights with
      | none => (.ok none, ⟨s, holds⟩)
      | some src =>
        match s.get? src.resourceId with
        | none => (.ok none, ⟨s, holds⟩)
        | some res =>
          (.ok (some ⟨src.capType, rights, s.nextResourceId⟩), ⟨s.minted src res, holds⟩) := by
  rw [mint, run_withResources free_reentrant, run_readStore_bind]
  cases s.mintSource cnodeId idx rights with
  | none => rfl
  | some src =>
    cases hget : s.get? src.resourceId with
    | none => simp [run_bind, run_duplicateResourceDataInner, hget, run_pure]
    | some res =>
      simp only [run_bind, run_duplicateResourceDataInner, hget, run_allocResource free_reentrant]
      rfl

/-- How `copy_cap` and `move_cap` end; `final` is the store once both ends are found. -/
def copyOutcome (s : Store) (holds srcCnode srcIdx dstCnode : Nat) (final : Slot → Store) :
    Except Stop (Except String Unit) × LockedStore :=
  match s.copySource srcCnode srcIdx with
  | .error e => (.ok (.error e), ⟨s, holds⟩)
  | .ok src =>
    if src.resourceId < s.resources.length then
      match s.node dstCnode "dst cnode not found" "dst cnode freed" with
      | .error e => (.ok (.error e), ⟨s.addRef src.resourceId, holds⟩)
      | .ok _ => (.ok (.ok ()), ⟨final src, holds⟩)
    else (.error .panic, ⟨s, holds + 2⟩)

variable {srcCnode srcIdx dstCnode dstIdx : Nat}

theorem run_copyCap : run (copyCap .reentrant srcCnode srcIdx dstCnode dstIdx) ⟨s, holds⟩ =
      copyOutcome s holds srcCnode srcIdx dstCnode fun src =>
        (s.addRef src.resourceId).putSlot dstCnode dstIdx src := by
  rw [copyCap, run_withResources free_reentrant, run_readStore_bind, copyOutcome]
  cases s.copySource srcCnode srcIdx with
  | error e => rfl
  | ok src =>
    by_cases hid : src.resourceId < s.resources.length
    · simp only [run_bind, run_incRef free_reentrant, hid, if_true]
      cases s.node dstCnode "dst cnode not found" "dst cnode freed" <;> rfl
    · simp [run_bind, run_incRef free_reentrant, hid]

theorem run_emptySource (hslot : (s.slot? srcCnode srcIdx).isSome) :
    run (emptySource .reentrant srcCnode srcIdx) ⟨s, holds⟩ =
      (.ok (.ok ()), ⟨s.putSlot srcCnode srcIdx Slot.null, holds⟩) := by
  obtain ⟨slot, hslot⟩ := Option.isSome_iff_exists.mp hslot
  obtain ⟨slots, hslots, hget⟩ := Option.bind_eq_some_iff.mp hslot
  obtain ⟨node, hnode, hnslots⟩ := Option.bind_eq_some_iff.mp hslots
  have hlt : srcIdx < slots.length := (List.getElem?_eq_some_iff.mp hget).1
  rw [emptySource, run_withResources free_reentrant, run_readStore_bind]
  simp only [hnode, hnslots, hlt, if_true]
  rfl

theorem run_moveCap : run (moveCap .reentrant srcCnode srcIdx dstCnode dstIdx) ⟨s, holds⟩ =
      copyOutcome s holds srcCnode srcIdx dstCnode fun src =>
        ((s.addRef src.resourceId).putSlot dstCnode dstIdx src).putSlot srcCnode srcIdx
          Slot.null := by
  simp only [moveCap, run_bind, run_copyCap, copyOutcome]
  cases hsource : s.copySource srcCnode srcIdx with
  | error e => rfl
  | ok src =>
    by_cases hid : src.resourceId < s.resources.length
    · cases s.node dstCnode "dst cnode not found" "dst cnode freed" with
      | error e => simp [hid, run_pure]
      | ok _ =>
        have hslot : (s.slot? srcCnode srcIdx).isSome := by
          simp [(Store.copySource_eq_ok.mp hsource).1]
        simp only [hid, if_true]
        exact run_emptySource (Store.slot?_putSlot_isSome (by simpa using hslot))
    · simp [hid]

theorem run_deleteCap (s : Store) (holds cnodeId idx : Nat) : (∃ e, s.slot? cnodeId idx = none ∧
      run (deleteCap .reentrant cnodeId idx) ⟨s, holds⟩ = (.ok (.error e), ⟨s, holds⟩)) ∨
    ∃ slot, s.slot? cnodeId idx = some slot ∧
      run (deleteCap .reentrant cnodeId idx) ⟨s, holds⟩ =
        (.ok (.ok ()),
          ⟨(s.putSlot cnodeId idx Slot.null).dropRef slot.resourceId, holds⟩) := by
  rw [deleteCap, run_bind, run_withResources free_reentrant, takeSlot, run_readStore_bind]
  simp only [Store.node, Store.slot?, Store.slots?, Store.get?]
  rcases s.resources[cnodeId]? with _ | _ | node
  · exact .inl ⟨_, rfl, rfl⟩
  · exact .inl ⟨_, rfl, rfl⟩
  · cases hslots : node.slots? with
    | none => exact .inl ⟨_, by simp [hslots], by simp only [hslots]; rfl⟩
    | some slots =>
      cases hslot : slots[idx]? with
      | none => exact .inl ⟨_, by simp [hslots, hslot], by simp only [hslots, hslot]; rfl⟩
      | some slot =>
        refine .inr ⟨slot, by simp [hslots, hslot], ?_⟩
        simp only [hslots, hslot]
        rfl

theorem run_revoke_succ : run (revoke .reentrant (fuel + 1) id) ⟨s, holds⟩ =
      if id < s.resources.length then
        match s.get? id with
        | none => (.ok (), ⟨s, holds⟩)
        | some res => run (do
            forM res.derivationChildren (revoke .reentrant fuel)
            decRef .reentrant id) ⟨s, holds⟩
      else (.error .panic, ⟨s, holds + 1⟩) := by
  rw [revoke, run_bind, run_withResources free_reentrant, run_readStore_bind]
  by_cases hid : id < s.resources.length
  · simp only [hid, if_true, run_pure]
    cases s.get? id <;> rfl
  · simp [hid, run_throw]

theorem run_revoke {k k' : LockedStore} (h : run (revoke .reentrant fuel id) k = (.ok (), k')) :
    ∃ ids : List Nat, k' = ⟨ids.foldl Store.dropRef k.store, k.holds⟩ := by
  induction fuel generalizing id k k' with
  | zero => simp [revoke, run_throw] at h
  | succ fuel ih =>
    rw [run_revoke_succ] at h
    by_cases hid : id < k.store.resources.length
    · simp only [hid, if_true] at h
      cases hget : k.store.get? id with
      | none =>
        simp only [hget] at h
        exact ⟨[], (Prod.mk.inj h).2.symm⟩
      | some res =>
        simp only [hget, run_bind] at h
        rcases hloop : run (forM res.derivationChildren (revoke .reentrant fuel)) k with
          ⟨_ | _, t⟩
        · simp [hloop] at h
        · obtain ⟨ids, rfl⟩ := run_forM_relates
            (fun k k' : LockedStore =>
              ∃ ids : List Nat, k' = ⟨ids.foldl Store.dropRef k.store, k.holds⟩)
            (fun k => ⟨[], rfl⟩) (by rintro _ _ _ ⟨is, rfl⟩ ⟨js, rfl⟩; exact ⟨is ++ js, by simp⟩)
            (fun _ _ _ => ih) _ hloop
          simp only [hloop, run_decRef free_reentrant] at h
          exact ⟨ids ++ [id], by simpa using (Prod.mk.inj h).2.symm⟩
    · simp [hid] at h

end Reentrant

/-! ### With the spin mutex -/

/-- The operation, called with the lock free, waits for a lock that it holds itself. -/
def Deadlocks {α : Type} (x : CapM α) (s : Store) : Prop :=
  (run x ⟨s, 0⟩).1 = .error .deadlock

section Spin

variable {s : Store}

theorem deadlocks_mint_iff : Deadlocks (mint .spin cnodeId idx rights) s ↔
      ∃ src, s.slot? cnodeId idx = some src ∧ src.capType ≠ .null ∧
        rights &&& src.rights = rights := by
  simp only [← Store.mintSource_eq_some]
  rw [Deadlocks, mint, run_withResources free_zero, run_readStore_bind]
  cases s.mintSource cnodeId idx rights with
  | none => simp [run_pure]
  | some src => simp [run_bind, duplicateResourceDataInner, run_withResources_held]

theorem run_copyCap_spin : (run (copyCap .spin srcCnode srcIdx dstCnode dstIdx) ⟨s, 0⟩).1 =
      match s.copySource srcCnode srcIdx with
      | .error e => .ok (.error e)
      | .ok _ => .error .deadlock := by
  rw [copyCap, run_withResources free_zero, run_readStore_bind]
  cases s.copySource srcCnode srcIdx with
  | error e => rfl
  | ok src => simp [run_bind, incRef, run_withResources_held]

theorem deadlocks_copyCap_iff : Deadlocks (copyCap .spin srcCnode srcIdx dstCnode dstIdx) s ↔
      ∃ src, s.slot? srcCnode srcIdx = some src ∧ src.capType ≠ .null := by
  simp only [← Store.copySource_eq_ok]
  rw [Deadlocks, run_copyCap_spin]
  cases s.copySource srcCnode srcIdx <;> simp

theorem deadlocks_moveCap_iff : Deadlocks (moveCap .spin srcCnode srcIdx dstCnode dstIdx) s ↔
      ∃ src, s.slot? srcCnode srcIdx = some src ∧ src.capType ≠ .null := by
  have hcopy : (run (copyCap .spin srcCnode srcIdx dstCnode dstIdx) ⟨s, 0⟩).1 = _ :=
    run_copyCap_spin
  simp only [← Store.copySource_eq_ok]
  rw [Deadlocks, moveCap, run_bind]
  rcases hrun : run (copyCap .spin srcCnode srcIdx dstCnode dstIdx) ⟨s, 0⟩ with ⟨out, k⟩
  cases hsource : s.copySource srcCnode srcIdx <;> simp_all [run_pure]

end Spin

/-! ### Operations that give the lock back first -/

/-- The operation does not wait for itself, and returns with the lock as it found it. -/
def Orderly {α : Type} (holds : Nat) (x : CapM α) : Prop :=
  ∀ s, match run x ⟨s, holds⟩ with
    | (.ok _, k) => k.holds = holds
    | (.error e, _) => e ≠ .deadlock

variable {x : CapM α}

section Orderly

variable {holds : Nat}

theorem orderly_pure (a : α) : Orderly holds (pure a : CapM α) := fun _ => rfl

theorem orderly_bind {f : α → CapM β} (hx : Orderly holds x)
    (hf : ∀ a, Orderly holds (f a)) : Orderly holds (x >>= f) := by
  intro s
  have hfirst := hx s
  rw [run_bind]
  rcases hrun : run x ⟨s, holds⟩ with ⟨_ | a, k⟩
  · rw [hrun] at hfirst
    exact hfirst
  · rw [hrun] at hfirst
    obtain rfl : k.holds = holds := hfirst
    exact hf a k.store

theorem orderly_forM {ι : Type} {f : ι → CapM Unit} (is : List ι)
    (hf : ∀ i, Orderly holds (f i)) : Orderly holds (forM is f) := by
  induction is with
  | nil => exact orderly_pure ()
  | cons i is ih => exact orderly_bind (hf i) fun _ => ih

section

variable (hfree : Free L holds)
include hfree

theorem orderly_withResources (hscope : Orderly (holds + 1) scope) :
    Orderly holds (withResources L scope) := by
  intro s
  have hinside := hscope s
  rw [run_withResources hfree]
  rcases hrun : run scope ⟨s, holds + 1⟩ with ⟨_ | a, k⟩
  · rw [hrun] at hinside
    exact hinside
  · rw [hrun] at hinside
    simp [show k.holds = holds + 1 from hinside]

theorem orderly_decRef : Orderly holds (decRef L id) :=
  orderly_withResources hfree fun _ => rfl

theorem orderly_revoke (fuel id : Nat) : Orderly holds (revoke L fuel id) := by
  induction fuel generalizing id with
  | zero => exact fun _ => by simp [revoke, run_throw]
  | succ fuel ih =>
    refine orderly_bind (orderly_withResources hfree fun s => ?_) fun found => ?_
    · by_cases hid : id < s.resources.length <;> simp [hid, run_pure, run_throw]
    · cases found with
      | none => exact orderly_pure ()
      | some res =>
        exact orderly_bind (orderly_forM _ ih) fun _ => orderly_decRef hfree

end

theorem orderly_takeSlot : Orderly holds (takeSlot cnodeId idx) := by
  intro s
  rw [takeSlot, run_readStore_bind]
  cases s.node cnodeId "cnode not found" "cnode freed" with
  | error e => rfl
  | ok node =>
    cases hslots : node.slots? with
    | none => simp [hslots, run_pure]
    | some slots => cases hslot : slots[idx]? <;> simp only [hslots, hslot] <;> rfl

theorem orderly_deleteCap (hfree : Free L holds) : Orderly holds (deleteCap L cnodeId idx) := by
  refine orderly_bind (orderly_withResources hfree orderly_takeSlot) fun taken => ?_
  cases taken with
  | error e => exact orderly_pure _
  | ok rid => exact orderly_bind (orderly_decRef hfree) fun _ => orderly_pure _

theorem Orderly.not_deadlocks (hx : Orderly 0 x) : ¬ Deadlocks x s := by
  intro hdead
  have hend := hx s
  rcases hrun : run x ⟨s, 0⟩ with ⟨_ | a, k⟩ <;> simp_all [Deadlocks]

end Orderly

/-- **Which operations wait for themselves.**  At every store: `mint` exactly when it is given
    a capability and rights it may hand on, `copy_cap` and `move_cap` exactly when there is a
    capability to copy; `delete_cap`, `revoke` and `get_resource` never. -/
theorem deadlocks_iff (s : Store) :
    (∀ cnodeId idx rights, Deadlocks (mint .spin cnodeId idx rights) s ↔
      ∃ src, s.slot? cnodeId idx = some src ∧ src.capType ≠ .null ∧
        rights &&& src.rights = rights) ∧
    (∀ srcCnode srcIdx dstCnode dstIdx,
      Deadlocks (copyCap .spin srcCnode srcIdx dstCnode dstIdx) s ↔
        ∃ src, s.slot? srcCnode srcIdx = some src ∧ src.capType ≠ .null) ∧
    (∀ srcCnode srcIdx dstCnode dstIdx,
      Deadlocks (moveCap .spin srcCnode srcIdx dstCnode dstIdx) s ↔
        ∃ src, s.slot? srcCnode srcIdx = some src ∧ src.capType ≠ .null) ∧
    (∀ cnodeId idx, ¬ Deadlocks (deleteCap .spin cnodeId idx) s) ∧
    (∀ fuel id, ¬ Deadlocks (revoke .spin fuel id) s) ∧
    ∀ id, ¬ Deadlocks (getResource .spin id) s :=
  ⟨fun _ _ _ => deadlocks_mint_iff, fun _ _ _ _ => deadlocks_copyCap_iff,
    fun _ _ _ _ => deadlocks_moveCap_iff,
    fun _ _ => (orderly_deleteCap free_zero).not_deadlocks,
    fun fuel id => (orderly_revoke free_zero fuel id).not_deadlocks,
    fun _ => (orderly_withResources free_zero fun _ => rfl).not_deadlocks⟩

/-- A process with a CNode of one slot, the capability for an endpoint it has created. -/
def oneEndpoint : Store :=
  ⟨[none, some ⟨1, .cnode, none, [], .cnode [⟨.ep, 0x30, 2⟩]⟩,
    some ⟨1, .ep, none, [], .ep 0⟩], 3⟩

/-- Minting a copy of the endpoint's capability, or copying it, never returns. -/
theorem mint_and_copy_deadlock :
    Deadlocks (mint .spin 1 0 0x10) oneEndpoint ∧ Deadlocks (copyCap .spin 1 0 1 1) oneEndpoint ∧
      Deadlocks (moveCap .spin 1 0 1 1) oneEndpoint := by
  simp only [Deadlocks]
  decide +kernel

end TrainOS.Capability
