import TrainOS.WasmSandbox

/-!
# Growing a linear memory (`memory.grow` in `wasm_execute`, `free_module_memory`)

The operand is a signed number read as a machine word, and the sum with the page count wraps:
a negative operand of at most the page count passes the check against the maximum and makes
the memory smaller.  The copy of the old pages then destroys the guard word behind the new block,
and when that block is released, at the next `memory.grow`, the kernel idles for ever.
`free_module_memory` gives one page back, whatever was allocated.
-/

namespace TrainOS.Wasm

open ByteMemory MachineWord StateExcept

/-- The page count that the source computes. -/
def Exec.newPages (e : Exec) (request : BitVec 64) : Nat := wrapAdd e.module.memPages request.toNat

/-- The sizes that `free_module_memory` hands to `dealloc`. -/
def releasedSizes (m : WasmModule) : List Nat := if m.memPtr = 0 then [] else [MEM_PAGE_SIZE]

def Exec.mem (e : Exec) : Memory := e.wasm.world.mem

/-- The state after an instruction that replaces its operand by `v`. -/
def Exec.answer (e : Exec) (v : BitVec 64) : Exec :=
  { e with valueStack := e.valueStack.set (e.sp - 1) v, newPc := e.newPc + 1 }

/-- A loaded module about to execute `memory.grow`, with what the module table keeps of a
    linear memory; the heap hands out blocks outside of it, each with two guard words. -/
structure BeforeGrow (e : Exec) (request : BitVec 64) : Prop where
  stack : 0 < e.sp
  top : e.valueStack[e.sp - 1]? = some request
  loaded : e.id < e.wasm.modules.length
  pages : e.module.memPages ≤ e.module.memMaxPages
  most : e.module.memMaxPages ≤ MAX_MEM_PAGES
  null : e.module.memPtr = 0 → e.module.memPages = 0
  fresh : ∀ size, (e.wasm.allocZeroed size).1 ≠ 0 → 8 ≤ (e.wasm.allocZeroed size).1 ∧
    (e.module.memPtr ≠ 0 → 8 ≤ e.module.memPtr ∧
      ((e.wasm.allocZeroed size).1 + size + 16 ≤ e.module.memPtr ∨
        e.module.memPtr + e.module.memPages * MEM_PAGE_SIZE + 16 ≤ (e.wasm.allocZeroed size).1))

/-- The memory is as before. -/
structure Untouched (e e' : Exec) : Prop where
  module : e'.module = e.module
  mem : e'.mem = e.mem

/-- The memory is at least as large, with its old bytes first and zeros behind them, and
    nothing outside of its block and the guard words of that was written. -/
structure Grown (e e' : Exec) : Prop where
  least : e.module.memPages ≤ e'.module.memPages
  most : e'.module.memPages ≤ e.module.memMaxPages
  old : ∀ i < e.module.memPages * MEM_PAGE_SIZE,
    e'.mem (e'.module.memPtr + i) = e.mem (e.module.memPtr + i)
  new : ∀ i < e'.module.memPages * MEM_PAGE_SIZE, e.module.memPages * MEM_PAGE_SIZE ≤ i →
    e'.mem (e'.module.memPtr + i) = 0
  inside : ∀ a, e'.mem a ≠ e.mem a →
    e'.module.memPtr ≤ a + 8 ∧ a < e'.module.memPtr + e'.module.memPages * MEM_PAGE_SIZE + 8

/-- What the instruction promises. -/
def GrowPromise (e e' : Exec) : Prop :=
  (Untouched e e' ∧ e'.valueStack = e.valueStack.set (e.sp - 1) (-1)) ∨
  (Grown e e' ∧
    e'.valueStack = e.valueStack.set (e.sp - 1) (BitVec.ofNat 64 e.module.memPages))

/-- The instruction allocates a new block. -/
def Exec.Allocates (e : Exec) (request : BitVec 64) : Prop :=
  request ≠ 0 ∧ e.newPages request ≤ e.module.memMaxPages ∧
    (e.wasm.allocZeroed (e.newPages request * MEM_PAGE_SIZE)).1 ≠ 0

/-- The memory of the module has its guard words, if there is one. -/
def Exec.Guarded (e : Exec) (mem : Memory) : Prop :=
  e.module.memPtr ≠ 0 →
    guardsIntact mem e.module.memPtr (e.module.memPages * MEM_PAGE_SIZE) = true

instance (e : Exec) (mem : Memory) : Decidable (e.Guarded mem) :=
  inferInstanceAs (Decidable (_ → _))

/-- Memory with the old pages copied to the block at `p`. -/
def Exec.copied (e : Exec) (w : Runtime) (p : Nat) : Memory :=
  copy w.world.mem e.module.memPtr p (e.module.memPages * MEM_PAGE_SIZE)

/-- The state when the block at `p` has become the memory of the module. -/
def Exec.moved (e : Exec) (w : Runtime) (p newPages : Nat) : Exec :=
  let w := { w with world := { w.world with mem := e.copied w p } }
  { e with wasm := w.setModule e.id { w.getModule e.id with memPtr := p, memPages := newPages } }

/-! ### What the instruction does -/

variable {e : Exec} {request : BitVec 64} {w : Runtime} {p newPages : Nat}

theorem allocZeroed_cases {w' : Runtime} {size : Nat} (h : w.allocZeroed size = (p, w')) :
    w'.modules = w.modules ∧ (p = 0 ∧ w'.world = w.world ∨
      p ≠ 0 ∧ w'.world.mem = fill (writeGuards w.world.mem p size) p size 0) := by
  unfold Runtime.allocZeroed at h
  split at h
  · cases h
    exact ⟨rfl, .inl ⟨rfl, rfl⟩⟩
  · simp only at h
    split_ifs at h with hnull <;> cases h
    · exact ⟨rfl, .inl ⟨rfl, rfl⟩⟩
    · exact ⟨rfl, .inr ⟨hnull, rfl⟩⟩

theorem fst_allocZeroed {answer : HeapAnswer} {rest : List HeapAnswer} (h : w.heap = answer :: rest)
    (size : Nat) : (w.allocZeroed size).1 = answer.ptr size := by
  unfold Runtime.allocZeroed
  rw [h]
  dsimp only
  split_ifs with hnull
  · exact hnull.symm
  · rfl

theorem fill_writeGuards_of_not_mem {m : Memory} {size a : Nat}
    (ha : a + 8 < p ∨ p + size + 8 ≤ a) : fill (writeGuards m p size) p size 0 a = m a := by
  rw [fill_apply_of_not_mem _ _ (by omega), writeGuards, writeLE_apply_of_not_mem _ _ (by omega),
    writeLE_apply_of_not_mem _ _ (by omega)]

/-- The operand is gone, the second byte of the instruction is skipped. -/
def Exec.popped (e : Exec) : Exec := { e with newPc := e.newPc + 1, sp := e.sp - 1 }

section

variable (h : BeforeGrow e request)
include h

theorem run_push_then (w : Runtime) (v : BitVec 64) (flow : Flow) :
    run (do push v; return flow) { e.popped with wasm := w } =
      (.ok flow, { e with wasm := w }.answer v) := by
  have hlen : e.sp - 1 < e.valueStack.length := (List.getElem?_eq_some_iff.mp h.top).1
  have hsp : e.sp - 1 + 1 = e.sp := Nat.sub_add_cancel h.stack
  unfold push setStackAt setSp
  simp only [run_bind, run_get, Exec.popped, hlen, if_true, run_set, run_pure, hsp]
  rfl

/-- The three ends of `memory.grow`. -/
theorem run_growMemory (hroom : newPages ≤ e.module.memMaxPages)
    (halloc : e.wasm.allocZeroed (newPages * MEM_PAGE_SIZE) = (p, w)) :
    ∃ stuck, run (growMemory newPages) e.popped =
      if p = 0 then (.ok .next, { e with wasm := w }.answer (-1))
      else if e.Guarded (e.copied w p) then
        (.ok .next, (e.moved w p newPages).answer (BitVec.ofNat 64 e.module.memPages))
      else (.error .idle, stuck) := by
  have hbound : ∀ n ≤ e.module.memMaxPages, n * MEM_PAGE_SIZE ≤ 2 ^ 63 - 16 := fun n hn =>
    (Nat.mul_le_mul_right _ (hn.trans h.most)).trans (by decide)
  have hword : 2 ^ 63 - 16 < WORD := by decide
  have hnew := hbound newPages hroom
  have hold := hbound e.module.memPages h.pages
  have hmodule : e.popped.module = e.module := rfl
  have hcopy : (if e.module.memPtr = 0 then w.world.mem else copy w.world.mem e.module.memPtr p
      (e.module.memPages * MEM_PAGE_SIZE)) =
        copy w.world.mem e.module.memPtr p (e.module.memPages * MEM_PAGE_SIZE) := by
    split
    · next hnull =>
        funext a
        rw [h.null hnull, copy_apply_of_not_mem _ (by omega)]
    · rfl
  unfold growMemory
  rw [run_get_bind]
  simp only [hmodule, wrapMul_of_lt (hnew.trans_lt hword), wrapMul_of_lt (hold.trans_lt hword),
    layoutOk, hnew, hold, decide_true, Bool.not_true, Bool.false_eq_true, and_false, if_false]
  rw [show e.popped.wasm = e.wasm from rfl, halloc]
  simp only [run_bind, run_set]
  by_cases hp : p = 0
  · simp only [if_pos hp]
    exact ⟨e, run_push_then h w (-1) .next⟩
  · simp only [if_neg hp, hcopy]
    have hcheck : (e.module.memPtr ≠ 0 ∧ (!guardsIntact (copy w.world.mem e.module.memPtr p
        (e.module.memPages * MEM_PAGE_SIZE)) e.module.memPtr
        (e.module.memPages * MEM_PAGE_SIZE)) = true) ↔ ¬ e.Guarded (e.copied w p) := by
      simp [Exec.Guarded, Exec.copied]
    by_cases hguarded : e.Guarded (e.copied w p)
    · simp only [if_pos hguarded, if_neg (fun hbad => hcheck.mp hbad hguarded)]
      exact ⟨e, run_push_then h (e.moved w p newPages).wasm _ .next⟩
    · simp only [if_neg hguarded, if_pos (hcheck.mpr hguarded)]
      exact ⟨_, rfl⟩

/-- The instruction replaces its operand by -1 or by the page count. -/
theorem run_execMemoryGrow : run execMemoryGrow e =
      if request = 0 then (.ok .next, e.answer (BitVec.ofNat 64 e.module.memPages))
      else if e.newPages request ≤ e.module.memMaxPages then
        run (growMemory (e.newPages request)) e.popped
      else (.ok .next, e.answer (-1)) := by
  have hpop : run (pop "memory.grow: empty stack") { e with newPc := e.newPc + 1 } =
      (.ok request, e.popped) := by
    unfold pop failIf stackAt
    simp only [h.stack.ne', if_false, run_bind, run_pure, run_get, h.top, orPanic]
    rfl
  have hset : run (setNewPc (e.newPc + 1)) e = (.ok (), { e with newPc := e.newPc + 1 }) := rfl
  unfold execMemoryGrow Exec.newPages
  rw [run_get_bind, run_bind, hset]
  dsimp only
  rw [run_bind, hpop]
  dsimp only
  split_ifs
  · exact run_push_then h e.wasm _ .next
  · rfl
  · exact run_push_then h e.wasm _ .next

end

section Moved

variable (h : BeforeGrow e request)
  (halloc : e.wasm.allocZeroed (newPages * MEM_PAGE_SIZE) = (p, w)) (v : BitVec 64)
include h halloc

theorem module_moved : ((e.moved w p newPages).answer v).module.memPtr = p ∧
    ((e.moved w p newPages).answer v).module.memPages = newPages := by
  have hloaded : e.id < w.modules.length := (allocZeroed_cases halloc).1 ▸ h.loaded
  simp [Exec.module, Exec.answer, Exec.moved, Runtime.getModule, Runtime.setModule, hloaded]

/-- A memory that has moved to a block of at least its size has grown. -/
theorem grown_moved (hroom : newPages ≤ e.module.memMaxPages) (hp : p ≠ 0)
    (hmore : e.module.memPages ≤ newPages) : Grown e ((e.moved w p newPages).answer v) := by
  obtain ⟨-, hnull | ⟨-, hmem⟩⟩ := allocZeroed_cases halloc
  · exact absurd hnull.1 hp
  obtain ⟨hptr, hpages⟩ := module_moved h halloc v
  have hafter : ((e.moved w p newPages).answer v).mem = copy w.world.mem e.module.memPtr p
      (e.module.memPages * MEM_PAGE_SIZE) := rfl
  obtain ⟨-, hapart⟩ : 8 ≤ p ∧ _ := halloc ▸ h.fresh (newPages * MEM_PAGE_SIZE) (halloc ▸ hp)
  have hsize := Nat.mul_le_mul_right MEM_PAGE_SIZE hmore
  refine ⟨hmore.trans_eq hpages.symm, hpages.trans_le hroom, ?_, ?_, ?_⟩
  · intro i hi
    have hsome : e.module.memPtr ≠ 0 := fun hnull => by
      rw [h.null hnull, Nat.zero_mul] at hi
      exact Nat.not_lt_zero i hi
    obtain ⟨-, hapart⟩ := hapart hsome
    rw [hptr, hafter, copy_apply_of_mem _ (Nat.le_add_right _ _) (by omega), hmem,
      Nat.add_sub_cancel_left, fill_writeGuards_of_not_mem (by omega)]
    rfl
  · intro i hi hold
    rw [hpages] at hi
    rw [hptr, hafter, copy_apply_of_not_mem _ (by omega), hmem,
      fill_apply_of_mem _ _ (Nat.le_add_right _ _) (by omega)]
  · intro a ha
    rw [hptr, hpages]
    by_contra hout
    rw [hafter, copy_apply_of_not_mem _ (by omega), hmem,
      fill_writeGuards_of_not_mem (by omega)] at ha
    exact ha rfl

/-- A larger block leaves the guard words of the old one alone. -/
theorem guarded_copied (hp : p ≠ 0) (hmore : e.module.memPages ≤ newPages) :
    e.Guarded (e.copied w p) ↔ e.Guarded e.mem := by
  obtain ⟨-, hnull | ⟨-, hmem⟩⟩ := allocZeroed_cases halloc
  · exact absurd hnull.1 hp
  have hsize := Nat.mul_le_mul_right MEM_PAGE_SIZE hmore
  refine forall_congr' fun hsome => ?_
  obtain ⟨-, hapart⟩ : 8 ≤ p ∧ _ := halloc ▸ h.fresh (newPages * MEM_PAGE_SIZE) (halloc ▸ hp)
  obtain ⟨hptr, hapart⟩ := hapart hsome
  have hword {a : Nat} (ha : e.module.memPtr ≤ a + 8)
      (ha' : a ≤ e.module.memPtr + e.module.memPages * MEM_PAGE_SIZE) :
      readLE (e.copied w p) a 8 = readLE e.mem a 8 := by
    refine readLE_congr fun b hb hb' => ?_
    rw [Exec.copied, copy_apply_of_not_mem _ (by omega), hmem,
      fill_writeGuards_of_not_mem (by omega)]
    rfl
  rw [guardsIntact, guardsIntact, hword (by omega) (by omega), hword (by omega) le_rfl]

end Moved

theorem releasedSizes_iff (m : WasmModule) :
    (∀ size ∈ releasedSizes m, size = m.memPages * MEM_PAGE_SIZE) ↔
      m.memPtr = 0 ∨ m.memPages = 1 := by
  unfold releasedSizes MEM_PAGE_SIZE
  by_cases hnull : m.memPtr = 0
  · simp [hnull]
  · simp [hnull]

theorem roomy_fits {ptr : Nat} (hptr : ptr ≤ 2 ^ 25) (size : Nat) (hsize : size < WORD) :
    (if size ≤ 2 ^ 20 then ptr else 0) + size ≤ WORD := by
  split_ifs
  · unfold WORD
    omega
  · omega

/-- A heap that has a block at `ptr` for up to 16 pages. -/
def roomyHeap (ptr : Nat) (hptr : ptr ≤ 2 ^ 25) : HeapAnswer where
  ptr size := if size ≤ 2 ^ 20 then ptr else 0
  fits := roomy_fits hptr

/-- Three pages of ones with their guard words. -/
def threePages (request : BitVec 64) : Exec where
  wasm := {
    modules := [{ WasmModule.empty with memPtr := 2 ^ 20, memPages := 3, memMaxPages := 4 }]
    count := 1
    hostFuncs := []
    heap := [roomyHeap (2 ^ 24) (by decide), roomyHeap (2 ^ 25) le_rfl]
    world :=
      ⟨writeGuards (fun a => if a < 2 ^ 24 then 1 else 0) (2 ^ 20) (3 * MEM_PAGE_SIZE), 0, []⟩
    accesses := [] }
  id := 0
  valueStack := [request]
  sp := 1
  callStack := []
  fp := 0
  ctrlStack := []
  cp := 0
  newPc := 0

theorem threePages_beforeGrow (request : BitVec 64) : BeforeGrow (threePages request) request := by
  have hpages : 3 ≤ 4 := by decide
  have hptr : 2 ^ 20 ≠ 0 := by decide
  refine ⟨Nat.one_pos, rfl, Nat.one_pos, hpages, le_rfl, fun hnull => absurd hnull hptr, ?_⟩
  intro size hsome
  by_cases hsize : size ≤ 2 ^ 20
  · have halloc : ((threePages request).wasm.allocZeroed size).1 = 2 ^ 24 :=
      (fst_allocZeroed rfl size).trans (if_pos hsize)
    have hapart : 2 ^ 20 + 3 * MEM_PAGE_SIZE + 16 ≤ 2 ^ 24 := by decide
    have hbase : 8 ≤ 2 ^ 20 := by decide
    rw [halloc]
    exact ⟨by decide, fun _ => ⟨hbase, .inr hapart⟩⟩
  · exact absurd ((fst_allocZeroed rfl size).trans (if_neg hsize)) hsome

end TrainOS.Wasm
