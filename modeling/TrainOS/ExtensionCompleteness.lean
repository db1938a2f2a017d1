import TrainOS.ExtensionSoundness
import TrainOS.ForwardSearch
import Mathlib.Data.List.Perm.Subperm

/-!
# Which programs the extension verifier accepts

The search takes the target of a conditional jump before the instruction behind the jump, so
what waits on its stack lies below everything it still reaches.  It therefore visits no
instruction twice, unless a conditional jump leads to the next instruction and that one was not
visited before: then it is pushed twice, and the verifier reports a back-edge.
-/

namespace TrainOS.ExtensionVm

open ForwardSearch List

/-- An opcode that exists, with registers, scratch offset and jump target in range. -/
def Insn.Valid (bcLen pc : Nat) (i : Insn) : Prop :=
  match Opcode.ofByte i.op with
  | none => False
  | some .ret => True
  | some .jmp | some .je | some .jne =>
      0 < i.offset ∧ (pc + i.offset.toNat) % 8 = 0 ∧ pc + i.offset.toNat < bcLen
  | some .mov | some .pop => i.r1 < 32
  | some .push => i.r2 < 32
  | some .add | some .sub => i.r1 < 32 ∧ i.r2 < 32 ∧ i.r3 < 32
  | some .cmp => i.r2 < 32 ∧ i.r3 < 32
  | some .load => i.r1 < 32 ∧ i.imm + 8 ≤ SCRATCH_SIZE
  | some .store => i.r2 < 32 ∧ i.imm + 8 ≤ SCRATCH_SIZE

/-- Where the program can go on after the instruction at `pc`. -/
def Insn.successors (pc : Nat) (i : Insn) : List Nat :=
  match Opcode.ofByte i.op with
  | none | some .ret => []
  | some .jmp => [pc + i.offset.toNat]
  | some .je | some .jne => [pc + 8, pc + i.offset.toNat]
  | _ => [pc + 8]

def nextOf (bc : List UInt8) (pc : Nat) : List Nat :=
  match fetch bc pc with
  | none => []
  | some i => i.successors pc

def Reachable (bc : List UInt8) (pc : Nat) : Prop := Leads (nextOf bc) 0 pc

/-- At most 64 instructions, the last one a return, and those that can be reached valid. -/
structure WellFormed (bc : List UInt8) : Prop where
  nonempty : bc ≠ []
  whole : bc.length % 8 = 0
  fits : bc.length ≤ MAX_BYTECODE
  last : ∃ b, bc[bc.length - 8]? = some b ∧ Opcode.ofByte b = some .ret
  valid : ∀ pc i, Reachable bc pc → fetch bc pc = some i → i.Valid bc.length pc

/-- A conditional jump to the instruction behind it. -/
def Insn.SkipsNothing (i : Insn) : Prop :=
  (Opcode.ofByte i.op = some .je ∨ Opcode.ofByte i.op = some .jne) ∧ i.offset = 8

variable {bc : List UInt8} {pc maxInst bcLen : Nat} {i : Insn} {visited : List Bool}
  {stack : List Nat} {offset : UInt8}

theorem checkInsn_of_valid (hvalid : i.Valid bcLen pc)
    (hnext : Opcode.ofByte i.op ≠ some .ret → pc / 8 + 1 < maxInst) :
    checkInsn bcLen maxInst pc i = .ok (i.successors pc) := by
  unfold Insn.Valid at hvalid
  rcases hop : Opcode.ofByte i.op with _ | op
  · simp [hop] at hvalid
  have hfall : op ≠ .ret → fallThrough maxInst pc = [pc + 8] := fun hne =>
    if_pos (hnext (by simpa [hop] using hne))
  cases op <;> simp only [hop] at hvalid <;>
    simp [checkInsn, Insn.successors, checkJump, require, hop, hvalid, hfall, bind, Except.bind,
      pure, Except.pure]

theorem nextOf_eq (hfetch : fetch bc pc = some i) : nextOf bc pc = i.successors pc := by
  rw [nextOf, hfetch]

theorem successors_later (hvalid : i.Valid bcLen pc) : ∀ t ∈ i.successors pc, pc < t := by
  unfold Insn.Valid at hvalid
  rcases hop : Opcode.ofByte i.op with _ | op
  · simp [hop] at hvalid
  cases op <;> simp [hop] at hvalid <;> simp [Insn.successors, hop] <;> omega

theorem successors_sorted (hpc : pc % 8 = 0) (hvalid : i.Valid bcLen pc)
    (hskip : ¬ i.SkipsNothing) : (i.successors pc).Pairwise (· < ·) := by
  unfold Insn.Valid at hvalid
  unfold Insn.SkipsNothing at hskip
  rcases hop : Opcode.ofByte i.op with _ | op
  · simp [hop] at hvalid
  cases op <;> simp [hop] at hvalid hskip <;> simp [Insn.successors, hop] <;> omega

theorem successors_of_skipsNothing (pc : Nat) (hskip : i.SkipsNothing) :
    i.successors pc = [pc + 8, pc + 8] := by
  obtain ⟨hop | hop, hoffset⟩ := hskip
  · simp [Insn.successors, hop, hoffset]
  · simp [Insn.successors, hop, hoffset]

section

variable (hwf : WellFormed bc)
include hwf

/-- Only a return stands at the end. -/
theorem WellFormed.fetch (hpc : pc % 8 = 0) (hlt : pc < bc.length) : ∃ i, fetch bc pc = some i ∧
      (Opcode.ofByte i.op ≠ some .ret → pc / 8 + 1 < bc.length / 8) := by
  have hwhole := hwf.whole
  obtain ⟨i, hfetch, hop⟩ := fetch_isSome (show pc + 8 ≤ bc.length by omega)
  refine ⟨i, hfetch, fun hne => ?_⟩
  obtain ⟨b, hlast, hret⟩ := hwf.last
  have hbefore : pc ≠ bc.length - 8 := by
    rintro rfl
    obtain rfl := Option.some.inj (hop.symm.trans hlast)
    exact hne hret
  omega

theorem WellFormed.inside (h : Reachable bc pc) : pc % 8 = 0 ∧ pc < bc.length := by
  induction h with
  | refl => exact ⟨rfl, length_pos_iff.mpr hwf.nonempty⟩
  | @tail pc t hreach ht ih =>
    obtain ⟨i, hfetch, hnext⟩ := hwf.fetch ih.1 ih.2
    rw [nextOf_eq hfetch] at ht
    have hvalid := hwf.valid _ _ hreach hfetch
    have hwhole := hwf.whole
    unfold Insn.Valid at hvalid
    rcases hop : Opcode.ofByte i.op with _ | op
    · simp [hop] at hvalid
    cases op <;> simp [hop] at hvalid hnext <;> simp [Insn.successors, hop] at ht <;> omega

theorem WellFormed.forward (pc : Nat) (h : Reachable bc pc) : ∀ t ∈ nextOf bc pc, pc < t := by
  obtain ⟨i, hfetch, _⟩ := hwf.fetch (hwf.inside h).1 (hwf.inside h).2
  rw [nextOf_eq hfetch]
  exact successors_later (hwf.valid pc i h hfetch)

end

/-- The stack of the search: unvisited instructions that can be reached, the last one on top; what
    is visited is what the order of the search says. -/
structure Pending (bc : List UInt8) (visited : List Bool) (stack : List Nat) : Prop where
  size : visited.length = 64
  sorted : stack.Pairwise (· > ·)
  fresh : ∀ t ∈ stack, visited[t / 8]? = some false
  reached : ∀ t ∈ stack, Reachable bc t
  chain : Chain (nextOf bc) stack
  seen : ∀ t, Reachable bc t → (visited[t / 8]? = some true ↔ Before (nextOf bc) stack t)

theorem Pending.set_self (h : Pending bc visited (pc :: stack)) :
    (visited.set (pc / 8) true)[pc / 8]? = some true := by
  obtain ⟨hidx, -⟩ := List.getElem?_eq_some_iff.mp (h.fresh pc mem_cons_self)
  exact getElem?_set_self hidx

/-- A search that accepts has visited nothing that is pending. -/
theorem verifyLoop_accepted_fresh {fuel t : Nat}
    (h : verifyLoop bc maxInst fuel visited stack = .accepted) (ht : t ∈ stack) :
    visited[t / 8]? = some false := by
  induction fuel generalizing visited stack with
  | zero =>
    cases stack with
    | nil => cases ht
    | cons a stack => cases h
  | succ fuel ih =>
    cases stack with
    | nil => cases ht
    | cons a stack =>
      obtain ⟨i, succs, -, hfresh, -, -, hrest⟩ := verifyLoop_cons_accepted h
      rcases mem_cons.mp ht with rfl | ht
      · exact hfresh
      have hlater := ih hrest (mem_pushUnvisited.mpr (.inl ht))
      obtain ⟨hidx, -⟩ := List.getElem?_eq_some_iff.mp hfresh
      by_cases heq : a / 8 = t / 8
      · rw [← heq, getElem?_set_self hidx] at hlater
        cases hlater
      · rwa [getElem?_set_ne heq] at hlater

/-- An instruction that is pushed twice is rejected. -/
theorem verifyLoop_twice {fuel t : Nat} :
    verifyLoop bc maxInst fuel visited (t :: t :: stack) ≠ .accepted := by
  intro h
  cases fuel with
  | zero => cases h
  | succ fuel =>
    obtain ⟨i, succs, -, hfresh, -, -, hrest⟩ := verifyLoop_cons_accepted h
    obtain ⟨hidx, -⟩ := List.getElem?_eq_some_iff.mp hfresh
    have hlater := verifyLoop_accepted_fresh hrest (mem_pushUnvisited.mpr (.inl mem_cons_self))
    rw [getElem?_set_self hidx] at hlater
    cases hlater

section

variable (hwf : WellFormed bc)
include hwf

theorem Pending.length_lt (h : Pending bc visited stack) {idx : Nat}
    (hseen : visited[idx]? = some true) : stack.length < 64 := by
  have hidx : idx < 64 := h.size ▸ (List.getElem?_eq_some_iff.mp hseen).1
  have hnodup : (stack.map (· / 8)).Nodup := by
    refine pairwise_map.mpr (h.sorted.imp_of_mem fun {a b} ha hb hlt heq => ?_)
    have h1 := (hwf.inside (h.reached a ha)).1
    omega
  have hsub : stack.map (· / 8) ⊆ (range 64).erase idx := by
    intro k hk
    obtain ⟨t, ht, rfl⟩ := mem_map.mp hk
    have hlt := (hwf.inside (h.reached t ht)).2
    have hfits := hwf.fits
    unfold MAX_BYTECODE at hfits
    refine (mem_erase_of_ne ?_).mpr (mem_range.mpr (by omega))
    rintro rfl
    cases (h.fresh t ht).symm.trans hseen
  have hle := (subperm_of_subset hnodup hsub).length_le
  rw [length_map, length_erase_of_mem (mem_range.mpr hidx), length_range] at hle
  omega

theorem WellFormed.set_other {t : Nat} (hreach : Reachable bc pc) (ht : Reachable bc t)
    (hne : t ≠ pc) : (visited.set (pc / 8) true)[t / 8]? = visited[t / 8]? := by
  have h1 := (hwf.inside hreach).1
  have h2 := (hwf.inside ht).1
  exact getElem?_set_ne (by omega)

/-- The successors that are pushed are those that the search has not come to. -/
theorem Pending.mem_fresh (h : Pending bc visited (pc :: stack)) (hfetch : fetch bc pc = some i)
    {t : Nat} : (t ∈ (i.successors pc).filter fun t => (visited.set (pc / 8) true)[t / 8]? =
      some false) ↔ t ∈ nextOf bc pc ∧ ¬ Done (nextOf bc) pc t := by
  rw [nextOf_eq hfetch, mem_filter, decide_eq_true_eq]
  refine and_congr_right fun ht => ?_
  have hreach := h.reached pc mem_cons_self
  have hreach' : Reachable bc t := hreach.tail (nextOf_eq hfetch ▸ ht)
  have hlater := successors_later (hwf.valid pc i hreach hfetch) t ht
  obtain ⟨hpc, -⟩ := hwf.inside hreach
  obtain ⟨halign, hlt⟩ := hwf.inside hreach'
  have hfits := hwf.fits
  unfold MAX_BYTECODE at hfits
  have hseen : visited[t / 8]? = some true ↔ Done (nextOf bc) pc t := h.seen t hreach'
  rw [getElem?_set_ne (by omega), ← hseen]
  rcases visited_or_not (show t / 8 < visited.length by rw [h.size]; omega) with htrue | hfalse
  · simp [htrue]
  · simp [hfalse]

/-- **One round of the search** on a well-formed program. -/
theorem Pending.round (h : Pending bc visited (pc :: stack)) (hfetch : fetch bc pc = some i)
    (hskip : i.SkipsNothing → SeenBefore (nextOf bc) pc (pc + 8)) :
    Pending bc (visited.set (pc / 8) true)
      (pushUnvisited (visited.set (pc / 8) true) stack (i.successors pc)) := by
  have hreach := h.reached pc mem_cons_self
  have hvalid := hwf.valid pc i hreach hfetch
  obtain ⟨hbelow, hstack⟩ := pairwise_cons.mp h.sorted
  have hsorted : ((i.successors pc).filter fun t => (visited.set (pc / 8) true)[t / 8]? =
      some false).Pairwise (· < ·) := by
    by_cases hnothing : i.SkipsNothing
    · have hempty : ((i.successors pc).filter fun t => (visited.set (pc / 8) true)[t / 8]? =
          some false) = [] := by
        refine eq_nil_iff_forall_not_mem.mpr fun t ht => ?_
        obtain ⟨hmem, hnot⟩ := (h.mem_fresh hwf hfetch).mp ht
        rw [nextOf_eq hfetch, successors_of_skipsNothing pc hnothing] at hmem
        obtain rfl : t = pc + 8 := by simpa using hmem
        exact hnot (.inr (hskip hnothing))
      rw [hempty]
      exact .nil
    · exact (successors_sorted (hwf.inside hreach).1 hvalid hnothing).filter _
  obtain ⟨hchain, hbefore⟩ := chain_push hwf.forward hreach (fun t => h.mem_fresh hwf hfetch)
    hsorted h.chain
  rw [pushUnvisited_eq]
  refine ⟨by simpa using h.size, ?_, fun t ht => ?_, fun t ht => ?_, hchain, fun t ht => ?_⟩
  · refine pairwise_append.mpr ⟨pairwise_reverse.mpr hsorted, hstack, fun t ht t' ht' => ?_⟩
    have h1 := successors_later hvalid t (mem_of_mem_filter (mem_reverse.mp ht))
    exact (hbelow t' ht').trans h1
  · rcases mem_append.mp ht with hnew | hold
    · exact of_decide_eq_true (mem_filter.mp (mem_reverse.mp hnew)).2
    · have hmem := mem_cons_of_mem pc hold
      rw [hwf.set_other hreach (h.reached t hmem) (hbelow t hold).ne]
      exact h.fresh t hmem
  · rcases mem_append.mp ht with hnew | hold
    · exact hreach.tail (nextOf_eq hfetch ▸ mem_of_mem_filter (mem_reverse.mp hnew))
    · exact h.reached t (mem_cons_of_mem pc hold)
  · rw [hbefore]
    by_cases heq : t = pc
    · subst heq
      exact iff_of_true (h.set_self) (.inr rfl)
    · rw [hwf.set_other hreach ht heq, or_iff_left heq]
      exact h.seen t ht

/-- If the instruction is a conditional jump to the next one, the search comes to that one first. -/
def NextSeen (bc : List UInt8) (pc : Nat) (i : Insn) : Prop :=
  i.SkipsNothing → SeenBefore (nextOf bc) pc (pc + 8)

/-- The loop accepts if every jump still to come is in order. -/
theorem verifyLoop_accepted_iff (fuel : Nat) (h : Pending bc visited stack)
    (hfuel : visited.count false < fuel) :
    verifyLoop bc (bc.length / 8) fuel visited stack = .accepted ↔
      ∀ pc i, Reachable bc pc → visited[pc / 8]? = some false → fetch bc pc = some i →
        NextSeen bc pc i := by
  induction fuel generalizing visited stack with
  | zero => cases hfuel
  | succ fuel ih =>
    cases stack with
    | nil =>
      obtain ⟨b, hlast, hret⟩ := hwf.last
      refine iff_of_true (by simp [verifyLoop_nil, hlast, hret]) fun pc i hreach hfalse _ => ?_
      cases hfalse.symm.trans ((h.seen pc hreach).mpr hreach)
    | cons pc stack =>
      have hreach := h.reached pc mem_cons_self
      have hfresh := h.fresh pc mem_cons_self
      obtain ⟨hpc, hlt⟩ := hwf.inside hreach
      obtain ⟨i, hfetch, hnext⟩ := hwf.fetch hpc hlt
      have hcheck := checkInsn_of_valid (hwf.valid pc i hreach hfetch) hnext
      by_cases hgood : NextSeen bc pc i
      · have hround := h.round hwf hfetch hgood
        have hroom := hround.length_lt hwf (h.set_self)
        obtain ⟨hidx, hfalse⟩ := List.getElem?_eq_some_iff.mp hfresh
        have hcount : (visited.set (pc / 8) true).count false < fuel := by
          have hpos : 0 < visited.count false := count_pos_iff.mpr (hfalse ▸ getElem_mem hidx)
          rw [count_set hidx, hfalse]
          simp
          omega
        rw [verifyLoop, if_neg (by have := hwf.whole; omega)]
        simp only [hfresh, hfetch, hcheck, if_neg (Nat.not_le.mpr hroom)]
        rw [ih hround hcount]
        -- the instruction on top is the only one that is visited now and was not before
        refine forall₂_congr fun pc' i' => forall_congr' fun hreach' => ?_
        by_cases heq : pc' = pc
        · subst heq
          refine iff_of_true (fun hfalse' => ?_) fun _ hfetch' => ?_
          · cases hfalse'.symm.trans h.set_self
          · cases hfetch.symm.trans hfetch'
            exact hgood
        · rw [hwf.set_other hreach hreach' heq]
      · refine iff_of_false (fun hacc => ?_) fun hall => hgood (hall pc i hreach hfresh hfetch)
        obtain ⟨hskip, hnot⟩ := Classical.not_imp.mp hgood
        obtain ⟨i', succs, -, -, hfetch', hcheck', hrest⟩ := verifyLoop_cons_accepted hacc
        cases hfetch.symm.trans hfetch'
        cases hcheck.symm.trans hcheck'
        have hsuccs := successors_of_skipsNothing pc hskip
        have hmem : pc + 8 ∈ nextOf bc pc := by simp [nextOf_eq hfetch, hsuccs]
        have hunseen := (h.mem_fresh hwf hfetch).mpr
          ⟨hmem, fun hdone => hnot (seenBefore_of_done hwf.forward hreach hmem hdone)⟩
        have hfalse := of_decide_eq_true (mem_filter.mp hunseen).2
        simp only [hsuccs, pushUnvisited, hfalse] at hrest
        exact verifyLoop_twice hrest

end

/-- **Completeness of the extension verifier.**  A well-formed program is accepted exactly if each
    conditional jump to the next instruction that can be reached comes after that instruction in
    the order of the search. -/
theorem verifier_accepts_iff (hwf : WellFormed bc) :
    verifyBytecode bc = .accepted ↔
      ∀ pc i, Reachable bc pc → fetch bc pc = some i → i.SkipsNothing →
        SeenBefore (nextOf bc) pc (pc + 8) := by
  have hpos := length_pos_iff.mpr hwf.nonempty
  have hwhole := hwf.whole
  have hnone {t : Nat} (ht : Reachable bc t) : (replicate 64 false)[t / 8]? = some false := by
    have hlt := (hwf.inside ht).2
    have hfits := hwf.fits
    unfold MAX_BYTECODE at hfits
    rw [getElem?_replicate, if_pos (by omega)]
  have hstart : Pending bc (replicate 64 false) [0] := by
    refine ⟨rfl, pairwise_singleton _ _, by simp, fun t ht => mem_singleton.mp ht ▸ .refl,
      ⟨fun y => (or_iff_right (not_done_zero hwf.forward)).symm, trivial⟩, fun t ht => ?_⟩
    rw [hnone ht]
    exact iff_of_false (by simp) (not_done_zero hwf.forward)
  unfold verifyBytecode
  rw [if_neg (by simpa using hwf.nonempty), if_neg (by omega), if_neg hwf.fits.not_gt,
    if_neg (by omega), verifyLoop_accepted_iff hwf 65 hstart (by decide)]
  exact forall₂_congr fun pc i => forall_congr' fun hreach =>
    ⟨fun h => h (hnone hreach), fun h _ => h⟩

theorem Reachable.mem {pcs : List Nat} (hzero : 0 ∈ pcs)
    (hclosed : ∀ pc ∈ pcs, ∀ t ∈ nextOf bc pc, t ∈ pcs) (h : Reachable bc pc) : pc ∈ pcs := by
  induction h with
  | refl => exact hzero
  | tail _ ht ih => exact hclosed _ ih _ ht

instance (bcLen pc : Nat) (i : Insn) : Decidable (i.Valid bcLen pc) := by
  unfold Insn.Valid
  split <;> infer_instance

/-- A conditional jump, an instruction with the operand 8, and a return. -/
def jumpProgram (offset op : UInt8) : List UInt8 :=
  [0x06, 0, 0, 0, offset, 0, 0, 0, op, 0, 0, 0, 8, 0, 0, 0, 0x0C, 0, 0, 0, 0, 0, 0, 0]

theorem jumpProgram_wellFormed {offset op : UInt8}
    (hclosed : ∀ pc ∈ [0, 8, 16], ∀ t ∈ nextOf (jumpProgram offset op) pc, t ∈ [0, 8, 16])
    (hvalid : ∀ pc ∈ [0, 8, 16], ∀ i ∈ fetch (jumpProgram offset op) pc, i.Valid 24 pc) :
    WellFormed (jumpProgram offset op) :=
  ⟨cons_ne_nil _ _, by simp [jumpProgram], by simp [jumpProgram, MAX_BYTECODE],
    ⟨0x0C, rfl, by decide⟩,
    fun pc i hreach hfetch => hvalid pc (hreach.mem (by decide) hclosed) i hfetch⟩

/-- A jump over a jump to the next instruction: the search comes to that instruction first. -/
theorem verifier_accepts_second_jump :
    WellFormed (jumpProgram 16 0x06) ∧ verifyBytecode (jumpProgram 16 0x06) = .accepted := by
  have hwf : WellFormed (jumpProgram 16 0x06) := jumpProgram_wellFormed (by decide) (by decide)
  have hoffset :
      ∀ pc ∈ [0, 8, 16], pc ≠ 8 → ∀ i ∈ fetch (jumpProgram 16 0x06) pc, i.offset ≠ 8 := by
    decide
  have hlast {y : Nat} (h : Leads (nextOf (jumpProgram 16 0x06)) 16 y) : y = 16 := by
    have hret : nextOf (jumpProgram 16 0x06) 16 = [] := by decide
    simpa [hret] using leads_iff.mp h
  refine ⟨hwf, (verifier_accepts_iff hwf).mpr fun pc i hreach hfetch hskip => ?_⟩
  have hpc : pc ∈ [0, 8, 16] := hreach.mem (by decide) (by decide)
  obtain rfl : pc = 8 := by
    by_contra hne
    exact hoffset pc hpc hne i hfetch hskip.2
  refine ⟨0, 16, .start, by decide, by decide, fun c hc hlead => ?_, .refl⟩
  have hnext : nextOf (jumpProgram 16 0x06) 0 = [8, 16] := by decide
  rw [hnext] at hc
  rcases mem_pair.mp hc with rfl | rfl
  · decide
  · exact absurd (hlast hlead) (by decide)

/-- A conditional jump to the next instruction is reported as a back-edge. -/
theorem verifier_rejects_jump_to_next : WellFormed (jumpProgram 8 0x01) ∧
    verifyBytecode (jumpProgram 8 0x01) =
      .rejected "back-edge detected (potential infinite loop)" :=
  ⟨jumpProgram_wellFormed (by decide) (by decide), by decide +kernel⟩

end TrainOS.ExtensionVm
