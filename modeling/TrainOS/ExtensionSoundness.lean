import TrainOS.ExtensionMachine

/-!
# Soundness of the extension verifier

`SearchInv` says what the verifier's search knows between two rounds: an index that is marked
visited passed its checks, and its successors are visited or still on the stack.  At the end
the visited set is closed under successors (`Certified`).  The interpreter stays in that set,
and since all jumps go forward its index grows in every round.
-/

namespace TrainOS.ExtensionVm

open List

/-! ### What the checks on one instruction give -/

variable {msg back misaligned outside : String}

theorem require_bind_eq_ok {α : Type} {ok : Bool} {k : Unit → Except String α}
    {a : α} : (require ok msg >>= k) = .ok a ↔ ok = true ∧ k () = .ok a := by
  cases ok <;> simp [require, bind, Except.bind]

variable {i : Insn} {bcLen pc target maxInst t idx : Nat}

theorem checkJump_eq_ok (h : checkJump bcLen pc i back misaligned outside = .ok target) :
    0 < i.offset ∧ target = pc + i.offset.toNat ∧ target % 8 = 0 ∧ target < bcLen := by
  unfold checkJump at h
  rw [require_bind_eq_ok, require_bind_eq_ok, require_bind_eq_ok] at h
  obtain ⟨hpos, halign, hin, htarget⟩ := h
  have htarget' : pc + i.offset.toNat = target := by simpa [pure, Except.pure] using htarget
  subst htarget'
  exact ⟨by simpa using hpos, rfl, by simpa using halign, by simpa using hin⟩

variable {succs : List Nat}

theorem checkJump_bind_eq_ok {k : Nat → List Nat}
    (h : (checkJump bcLen pc i back misaligned outside >>= fun t => pure (k t)) = .ok succs) :
    ∃ target, succs = k target ∧ 0 < i.offset ∧ target = pc + i.offset.toNat ∧
      target % 8 = 0 ∧ target < bcLen := by
  rcases hjump : checkJump bcLen pc i back misaligned outside with msg | target
  · rw [hjump] at h
    cases h
  · rw [hjump] at h
    have hsuccs : k target = succs := by simpa [bind, Except.bind, pure, Except.pure] using h
    exact ⟨target, hsuccs.symm, checkJump_eq_ok hjump⟩

theorem mem_fallThrough : t ∈ fallThrough maxInst pc ↔ pc / 8 + 1 < maxInst ∧ t = pc + 8 := by
  unfold fallThrough
  split <;> rename_i hlt
  · simp [hlt]
  · simp [hlt]

/-- How a checked instruction can go on: stop without complaint, or move to one
    of the successors that the verifier follows. -/
def Benign (h : Halt) : Prop :=
  h = .ok ∨ h = .error "execution stack overflow" ∨ h = .error "execution stack underflow"

def Effect.Follows (succs : List Nat) (vm : Vm) : Effect → Prop
  | .next vm' => vm'.pc ∈ succs ∧ vm'.cycles = vm.cycles
  | .halt h vm' => Benign h ∧ vm'.cycles = vm.cycles

variable {vm : Vm}

theorem withReg_follows {r : Nat} {k : Fin REG_COUNT → Effect}
    (hr : r < 32) (hk : ∀ q, (k q).Follows succs vm) : (withReg vm r k).Follows succs vm := by
  have hr' : r < REG_COUNT := hr
  rw [withReg, dif_pos hr']
  exact hk ⟨r, hr'⟩

theorem jumpTo_follows (hpos : 0 < i.offset) (htarget : target = vm.pc + i.offset.toNat)
    (halign : target % 8 = 0) (hin : target < bcLen) (hmem : target ∈ succs) :
    (jumpTo bcLen vm i msg).Follows succs vm := by
  have hcast : ((vm.pc : Int) + i.offset).toNat = target := by omega
  have hgood : ¬ ((vm.pc : Int) + i.offset < 0 ∨ bcLen ≤ ((vm.pc : Int) + i.offset).toNat ∨
      ((vm.pc : Int) + i.offset).toNat % 8 ≠ 0) := by
    omega
  unfold jumpTo
  rw [if_neg hgood, hcast]
  exact ⟨hmem, rfl⟩

/-- **One checked instruction is safe.**  If the verifier accepted the
    instruction at `vm.pc` and it is not the last one (unless it is a `RET`),
    the interpreter follows one of the recorded successors or stops benignly. -/
theorem execInsn_follows (hcheck : checkInsn bcLen maxInst vm.pc i = .ok succs)
    (hlast : vm.pc / 8 + 1 < maxInst ∨ Opcode.ofByte i.op = some .ret) :
    (execInsn bcLen vm i).Follows succs vm := by
  rcases hop : Opcode.ofByte i.op with _ | op
  · simp [checkInsn, hop] at hcheck
  -- away from `RET` the program goes on behind the current instruction
  have hfall : op ≠ .ret → vm.pc + 8 ∈ fallThrough maxInst vm.pc := by
    intro hne
    rcases hlast with hlt | hret
    · exact mem_fallThrough.mpr ⟨hlt, rfl⟩
    · rw [hop] at hret
      exact absurd (Option.some.inj hret) hne
  cases op <;>
    simp only [checkInsn, execInsn, hop, require_bind_eq_ok, decide_eq_true_eq] at hcheck ⊢
  case ret => exact ⟨.inl rfl, rfl⟩
  case jmp =>
    obtain ⟨target, rfl, hpos, htarget, halign, hin⟩ := checkJump_bind_eq_ok hcheck
    exact jumpTo_follows hpos htarget halign hin (mem_singleton.mpr rfl)
  case je =>
    obtain ⟨target, rfl, hpos, htarget, halign, hin⟩ := checkJump_bind_eq_ok hcheck
    split
    · exact jumpTo_follows hpos htarget halign hin (by simp)
    · exact ⟨mem_append_left _ (hfall (by simp)), rfl⟩
  case jne =>
    obtain ⟨target, rfl, hpos, htarget, halign, hin⟩ := checkJump_bind_eq_ok hcheck
    split
    · exact ⟨mem_append_left _ (hfall (by simp)), rfl⟩
    · exact jumpTo_follows hpos htarget halign hin (by simp)
  case mov =>
    obtain ⟨h1, ⟨⟩⟩ := hcheck
    exact withReg_follows h1 fun d => ⟨hfall (by simp), rfl⟩
  case add | sub =>
    obtain ⟨h1, h2, h3, ⟨⟩⟩ := hcheck
    refine withReg_follows h2 fun a => withReg_follows h3 fun b => ?_
    exact withReg_follows h1 fun d => ⟨hfall (by simp), rfl⟩
  case cmp =>
    obtain ⟨h2, h3, ⟨⟩⟩ := hcheck
    exact withReg_follows h2 fun a => withReg_follows h3 fun b => ⟨hfall (by simp), rfl⟩
  case load =>
    obtain ⟨h1, hoff, ⟨⟩⟩ := hcheck
    rw [if_neg (Nat.not_lt.mpr hoff)]
    exact withReg_follows h1 fun d => ⟨hfall (by simp), rfl⟩
  case store =>
    obtain ⟨h2, hoff, ⟨⟩⟩ := hcheck
    rw [if_neg (Nat.not_lt.mpr hoff)]
    exact withReg_follows h2 fun a => ⟨hfall (by simp), rfl⟩
  case push =>
    obtain ⟨h2, ⟨⟩⟩ := hcheck
    split
    · exact ⟨.inr (.inl rfl), rfl⟩
    · exact withReg_follows h2 fun a => ⟨hfall (by simp), rfl⟩
  case pop =>
    obtain ⟨h1, ⟨⟩⟩ := hcheck
    split
    · exact ⟨.inr (.inr rfl), rfl⟩
    · exact withReg_follows h1 fun d => ⟨hfall (by simp), rfl⟩

section

variable (hcheck : checkInsn bcLen maxInst pc i = .ok succs)
include hcheck

/-- The successors of an instruction lie behind it. -/
theorem checkInsn_shape : succs ⊆ fallThrough maxInst pc ∨
      ∃ target, succs ⊆ fallThrough maxInst pc ++ [target] ∧ target % 8 = 0 ∧
        target < bcLen ∧ pc < target := by
  rcases hop : Opcode.ofByte i.op with _ | op
  · simp [checkInsn, hop] at hcheck
  cases op <;> simp only [checkInsn, hop, require_bind_eq_ok, pure, Except.pure,
    Except.ok.injEq] at hcheck
  case ret =>
    subst hcheck
    exact .inl (nil_subset _)
  case jmp =>
    obtain ⟨target, rfl, hpos, htarget, halign, hin⟩ := checkJump_bind_eq_ok hcheck
    exact .inr ⟨target, subset_append_right _ _, halign, hin, by omega⟩
  case je | jne =>
    obtain ⟨target, rfl, hpos, htarget, halign, hin⟩ := checkJump_bind_eq_ok hcheck
    exact .inr ⟨target, .refl _, halign, hin, by omega⟩
  case mov | push | pop =>
    rw [← hcheck.2]
    exact .inl (.refl _)
  case cmp | load | store =>
    rw [← hcheck.2.2]
    exact .inl (.refl _)
  case add | sub =>
    rw [← hcheck.2.2.2]
    exact .inl (.refl _)

theorem checkInsn_succs (hpc : pc % 8 = 0) (hmax : 8 * maxInst = bcLen) :
    ∀ t ∈ succs, t % 8 = 0 ∧ t < bcLen ∧ pc < t := by
  have hfall : ∀ t ∈ fallThrough maxInst pc, t % 8 = 0 ∧ t < bcLen ∧ pc < t := by
    intro t ht
    obtain ⟨hlt, rfl⟩ := mem_fallThrough.mp ht
    omega
  intro t ht
  rcases checkInsn_shape hcheck with hsub | ⟨target, hsub, htarget⟩
  · exact hfall t (hsub ht)
  · rcases mem_append.mp (hsub ht) with hnext | hjump
    · exact hfall t hnext
    · rw [mem_singleton.mp hjump]
      exact htarget

end

/-! ### The search invariant -/

/-- The instruction at index `idx` passed its checks, and `follow` holds of each
    of its successors. -/
def CheckedAt (bc : List UInt8) (maxInst idx : Nat) (follow : Nat → Prop) : Prop :=
  ∃ i succs, fetch bc (8 * idx) = some i ∧
    checkInsn bc.length maxInst (8 * idx) i = .ok succs ∧ ∀ t ∈ succs, follow t

variable {bc : List UInt8}

theorem CheckedAt.mono {follow follow' : Nat → Prop}
    (h : CheckedAt bc maxInst idx follow) (himp : ∀ t, follow t → follow' t) :
    CheckedAt bc maxInst idx follow' := by
  obtain ⟨i, succs, hfetch, hcheck, hsuccs⟩ := h
  exact ⟨i, succs, hfetch, hcheck, fun t ht => himp t (hsuccs t ht)⟩

/-- What `verify_bytecode` knows between two rounds of its search. -/
structure SearchInv (bc : List UInt8) (maxInst : Nat) (visited : List Bool)
    (stack : List Nat) : Prop where
  size : visited.length = 64
  start : visited[0]? = some true ∨ 0 ∈ stack
  aligned : ∀ t ∈ stack, t % 8 = 0
  checked : ∀ idx, visited[idx]? = some true → idx < maxInst ∧
    CheckedAt bc maxInst idx fun t =>
      t % 8 = 0 ∧ (visited[t / 8]? = some true ∨ t ∈ stack)

/-- The end of a successful search: a set of indices that contains the entry,
    is closed under the successors of its instructions, and whose instructions
    all passed their checks. -/
structure Certified (bc : List UInt8) (maxInst : Nat) (seen : Nat → Prop) : Prop where
  start : seen 0
  bound : ∀ idx, seen idx → idx < maxInst
  checked : ∀ idx, seen idx → CheckedAt bc maxInst idx fun t => t % 8 = 0 ∧ seen (t / 8)
  lastRet : ∃ b, bc[bc.length - 8]? = some b ∧ Opcode.ofByte b = some .ret

variable {visited : List Bool} {stack : List Nat}

theorem pushUnvisited_eq : pushUnvisited visited stack succs =
    (succs.filter fun t => visited[t / 8]? = some false).reverse ++ stack := by
  induction succs generalizing stack with
  | nil => rfl
  | cons s rest ih =>
    unfold pushUnvisited
    split
    case h_1 hs => simp [ih, hs]
    case h_2 hs =>
      have hno : visited[s / 8]? ≠ some false := hs
      simp [ih, hno]

theorem mem_pushUnvisited : t ∈ pushUnvisited visited stack succs ↔
      t ∈ stack ∨ (t ∈ succs ∧ visited[t / 8]? = some false) := by
  simp [pushUnvisited_eq, or_comm]

theorem visited_or_not (h : idx < visited.length) :
    visited[idx]? = some true ∨ visited[idx]? = some false := by
  rw [getElem?_eq_getElem h]
  cases visited[idx] <;> simp

/-- **One round keeps the invariant.**  The popped index becomes visited, its
    unvisited successors are pushed, and nothing else leaves the stack. -/
theorem SearchInv.round (hinv : SearchInv bc maxInst visited (pc :: stack))
    (hmax : 8 * maxInst = bc.length) (hsmall : maxInst ≤ 64) (hidx : pc / 8 < maxInst)
    (hfetch : fetch bc pc = some i) (hcheck : checkInsn bc.length maxInst pc i = .ok succs) :
    SearchInv bc maxInst (visited.set (pc / 8) true)
      (pushUnvisited (visited.set (pc / 8) true) stack succs) := by
  have hpc : pc % 8 = 0 := hinv.aligned pc mem_cons_self
  have hsuccs := checkInsn_succs hcheck hpc hmax
  have hlen : pc / 8 < visited.length := by
    rw [hinv.size]
    omega
  have hnew : (visited.set (pc / 8) true)[pc / 8]? = some true := by
    rw [getElem?_set_self hlen]
  have hkeep : ∀ idx : Nat, visited[idx]? = some true →
      (visited.set (pc / 8) true)[idx]? = some true := by
    intro idx hidx'
    by_cases heq : pc / 8 = idx
    · rw [← heq]
      exact hnew
    · rw [getElem?_set_ne heq]
      exact hidx'
  -- the popped address is visited now, every other pending address stays pending
  have hpending : ∀ t, t ∈ pc :: stack →
      (visited.set (pc / 8) true)[t / 8]? = some true ∨
        t ∈ pushUnvisited (visited.set (pc / 8) true) stack succs := by
    intro t ht
    rcases mem_cons.mp ht with rfl | hstack
    · exact .inl hnew
    · exact .inr (mem_pushUnvisited.mpr (.inl hstack))
  constructor
  · rw [length_set]
    exact hinv.size
  · rcases hinv.start with hseen | hstack
    · exact .inl (hkeep 0 hseen)
    · exact hpending 0 hstack
  · intro t ht
    rcases mem_pushUnvisited.mp ht with hstack | ⟨hsucc, _⟩
    · exact hinv.aligned t (mem_cons_of_mem _ hstack)
    · exact (hsuccs t hsucc).1
  · intro idx hseen
    by_cases heq : pc / 8 = idx
    · subst heq
      have hpc8 : 8 * (pc / 8) = pc := by omega
      refine ⟨hidx, i, succs, ?_, ?_, ?_⟩
      · rw [hpc8]
        exact hfetch
      · rw [hpc8]
        exact hcheck
      · intro t ht
        obtain ⟨halign, hin, _⟩ := hsuccs t ht
        refine ⟨halign, ?_⟩
        have hrange : t / 8 < (visited.set (pc / 8) true).length := by
          rw [length_set, hinv.size]
          omega
        rcases visited_or_not hrange with htrue | hfalse
        · exact .inl htrue
        · exact .inr (mem_pushUnvisited.mpr (.inr ⟨ht, hfalse⟩))
    · rw [getElem?_set_ne heq] at hseen
      obtain ⟨hbound, hchk⟩ := hinv.checked idx hseen
      refine ⟨hbound, hchk.mono ?_⟩
      rintro t ⟨halign, hseen' | hstack⟩
      · exact ⟨halign, .inl (hkeep _ hseen')⟩
      · exact ⟨halign, hpending t hstack⟩

theorem verifyLoop_nil (bc : List UInt8) (maxInst fuel : Nat) (visited : List Bool) :
    verifyLoop bc maxInst fuel visited [] =
      match bc[bc.length - 8]? with
      | none => .panicked
      | some b =>
          if Opcode.ofByte b = some .ret then .accepted
          else .rejected "bytecode must end with RET instruction" := by
  cases fuel <;> rfl

theorem verifyLoop_cons_accepted {fuel : Nat}
    (h : verifyLoop bc maxInst (fuel + 1) visited (pc :: stack) = .accepted) :
    ∃ i succs, pc / 8 < maxInst ∧ visited[pc / 8]? = some false ∧ fetch bc pc = some i ∧
      checkInsn bc.length maxInst pc i = .ok succs ∧
      verifyLoop bc maxInst fuel (visited.set (pc / 8) true)
        (pushUnvisited (visited.set (pc / 8) true) stack succs) = .accepted := by
  rw [verifyLoop] at h
  split at h
  · cases h
  rename_i hidx
  split at h
  · cases h
  · cases h
  rename_i hvisited
  split at h
  · cases h
  rename_i i hfetch
  split at h
  · cases h
  rename_i succs hcheck
  dsimp only at h
  split at h
  · cases h
  · exact ⟨i, succs, by omega, hvisited, hfetch, hcheck, h⟩

/-- **An accepting search certifies the program.** -/
theorem verifyLoop_certified (hmax : 8 * maxInst = bc.length) (hsmall : maxInst ≤ 64) :
    ∀ (fuel : Nat) (visited : List Bool) (stack : List Nat),
      SearchInv bc maxInst visited stack →
      verifyLoop bc maxInst fuel visited stack = .accepted →
      ∃ seen, Certified bc maxInst seen := by
  -- with an empty stack the visited set itself is closed
  have hdone : ∀ (fuel : Nat) (visited : List Bool), SearchInv bc maxInst visited [] →
      verifyLoop bc maxInst fuel visited [] = .accepted → ∃ seen, Certified bc maxInst seen := by
    intro fuel visited hinv hacc
    rw [verifyLoop_nil] at hacc
    refine ⟨fun idx => visited[idx]? = some true, ?_, ?_, ?_, ?_⟩
    · simpa using hinv.start
    · exact fun idx hseen => (hinv.checked idx hseen).1
    · intro idx hseen
      refine (hinv.checked idx hseen).2.mono ?_
      rintro t ⟨halign, htrue | hmem⟩
      · exact ⟨halign, htrue⟩
      · cases hmem
    · rcases hb : bc[bc.length - 8]? with _ | b
      · rw [hb] at hacc
        cases hacc
      · rw [hb] at hacc
        by_cases hret : Opcode.ofByte b = some .ret
        · exact ⟨b, rfl, hret⟩
        · simp [hret] at hacc
  intro fuel
  induction fuel with
  | zero =>
    intro visited stack hinv hacc
    cases stack with
    | nil => exact hdone 0 visited hinv hacc
    | cons pc stack => cases hacc
  | succ fuel ih =>
    intro visited stack hinv hacc
    cases stack with
    | nil => exact hdone (fuel + 1) visited hinv hacc
    | cons pc stack =>
      obtain ⟨i, succs, hidx, _, hfetch, hcheck, hacc'⟩ := verifyLoop_cons_accepted hacc
      exact ih _ _ (hinv.round hmax hsmall hidx hfetch hcheck) hacc'

/-- What is accepted has a certificate. -/
theorem verifyBytecode_certified (h : verifyBytecode bc = .accepted) :
    bc.length % 8 = 0 ∧ bc.length / 8 ≤ 64 ∧ ∃ seen, Certified bc (bc.length / 8) seen := by
  unfold verifyBytecode at h
  split at h
  · cases h
  split at h
  · cases h
  split at h
  · cases h
  split at h
  · cases h
  rename_i hshort hlong hmod
  have hmod' : bc.length % 8 = 0 := by simpa using hmod
  have hsmall : bc.length / 8 ≤ 64 := by
    unfold MAX_BYTECODE at hlong
    omega
  refine ⟨hmod', hsmall, verifyLoop_certified (by omega) hsmall _ _ _ ?_ h⟩
  constructor
  · simp
  · exact .inr mem_cons_self
  · simp
  · intro idx hseen
    rw [getElem?_replicate] at hseen
    split at hseen <;> simp at hseen

/-! ### The interpreter inside a certified program -/

/-- The run of the interpreter from a certified index.  `cycles ≤ idx` is what
    turns the forward jumps into a bound on the number of instructions. -/
theorem execLoop_benign {seen : Nat → Prop}
    (hcert : Certified bc maxInst seen) (hmax : 8 * maxInst = bc.length) (hsmall : maxInst ≤ 64) :
    ∀ (fuel : Nat) (vm : Vm) (idx : Nat), seen idx → vm.pc = 8 * idx → vm.cycles ≤ idx →
      maxInst < idx + fuel →
      Benign (execLoop bc bc.length fuel vm).1 ∧
        (execLoop bc bc.length fuel vm).2.cycles ≤ maxInst := by
  intro fuel
  induction fuel with
  | zero =>
    intro vm idx hseen _ _ hfuel
    have hbound := hcert.bound idx hseen
    omega
  | succ fuel ih =>
    intro vm idx hseen hpc hcycles hfuel
    have hbound := hcert.bound idx hseen
    obtain ⟨i, succs, hfetch, hcheck, hsuccs⟩ := hcert.checked idx hseen
    rw [← hpc] at hfetch hcheck
    have hbudget : ¬ CYCLE_BUDGET ≤ vm.cycles := by
      unfold CYCLE_BUDGET
      omega
    have hinside : ¬ bc.length < vm.pc + 8 := by omega
    have hstep : step bc bc.length vm =
        execInsn bc.length { vm with cycles := vm.cycles + 1 } i := by
      simp [step, if_neg hinside, hfetch]
    -- the last instruction of the program is the `RET` that the verifier demands
    have hlast : vm.pc / 8 + 1 < maxInst ∨ Opcode.ofByte i.op = some .ret := by
      by_cases hlt : idx + 1 < maxInst
      · exact .inl (by omega)
      · obtain ⟨b, hb, hret⟩ := hcert.lastRet
        have hwhole : vm.pc + 8 ≤ bc.length := by omega
        obtain ⟨i', hfetch', hop'⟩ := fetch_isSome hwhole
        have hii : i' = i := Option.some.inj (hfetch'.symm.trans hfetch)
        have hpos : bc.length - 8 = vm.pc := by omega
        rw [hpos, hop', hii] at hb
        exact .inr (by rw [Option.some.inj hb]; exact hret)
    have hfollow : (execInsn bc.length { vm with cycles := vm.cycles + 1 } i).Follows succs
        { vm with cycles := vm.cycles + 1 } := execInsn_follows hcheck hlast
    simp only [execLoop, if_neg hbudget, hstep]
    rcases heff : execInsn bc.length { vm with cycles := vm.cycles + 1 } i with vm' | ⟨h, vm'⟩
    · rw [heff] at hfollow
      obtain ⟨hmem, hcyc⟩ := hfollow
      obtain ⟨halign, hseen'⟩ := hsuccs vm'.pc hmem
      have hforward := (checkInsn_succs hcheck (by omega) hmax vm'.pc hmem).2.2
      have hcyc' : vm'.cycles = vm.cycles + 1 := hcyc
      exact ih vm' (vm'.pc / 8) hseen' (by omega) (by omega) (by omega)
    · rw [heff] at hfollow
      obtain ⟨hben, hcyc⟩ := hfollow
      have hcyc' : vm'.cycles = vm.cycles + 1 := hcyc
      exact ⟨hben, by show vm'.cycles ≤ maxInst; omega⟩

/-- **Soundness of the extension verifier.**  A program that `verify_bytecode`
    accepts, placed at the front of the bytecode array of any extension, runs to
    completion on every hook within 64 instructions: it returns normally, or it
    overflows or underflows the execution stack.  No other error, no timeout and
    no panic can occur. -/
theorem verified_extension_safe (bc rest : List UInt8) (scratch : ByteMemory.Memory)
    (hookType : UInt8) (context0 context1 : UInt64) (hverified : verifyBytecode bc = .accepted) :
    let result := executeExtension ⟨bc ++ rest, bc.length, scratch⟩ hookType context0 context1
    (result.1 = .ok ∨ result.1 = .error "execution stack overflow" ∨
      result.1 = .error "execution stack underflow") ∧ result.2.cycles ≤ 64 := by
  obtain ⟨hmod, hsmall, seen, hcert⟩ := verifyBytecode_certified hverified
  have hrun := execLoop_benign hcert (by omega) hsmall (CYCLE_BUDGET + 1)
    (Vm.init ⟨bc ++ rest, bc.length, scratch⟩ hookType context0 context1) 0 hcert.start rfl
    (Nat.le_refl 0) (by unfold CYCLE_BUDGET; omega)
  simp only [executeExtension, take_left]
  exact ⟨hrun.1, Nat.le_trans hrun.2 hsmall⟩

/-- A two-instruction program: push register 0 and return. -/
theorem verified_extension_safe_push_ret :
    let bc : List UInt8 := [0x0A, 0, 0, 0, 0, 0, 0, 0, 0x0C, 0, 0, 0, 0, 0, 0, 0]
    verifyBytecode bc = .accepted ∧
      (executeExtension ⟨bc ++ [], bc.length, fun _ => 0⟩ 3 7 9).2.cycles ≤ 64 :=
  ⟨by decide +kernel, (verified_extension_safe _ [] (fun _ => 0) 3 7 9 (by decide +kernel)).2⟩

end TrainOS.ExtensionVm
