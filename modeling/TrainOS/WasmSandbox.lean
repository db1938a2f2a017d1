import TrainOS.WasmMachine
import TrainOS.Runs

/-!
# The memory sandbox

Every load and store of `wasm_execute`, for every bytecode and every sequence of calls, stays in
the linear memory of the running module.  The wrapping bounds check is exact because an address
and an offset are below `2 ^ 32` and a linear memory ends inside the address space
(`MemoryFits`).
-/

namespace TrainOS.Wasm

open ByteMemory List MachineWord Runs StateExcept
open Option (bind_eq_bind bind_eq_some_iff)

/-! ### The invariant -/

/-- The linear memory of a module ends inside the address space. -/
structure MemoryFits (m : WasmModule) : Prop where
  stop : m.memPtr + m.memPages * MEM_PAGE_SIZE ≤ WORD
  pages : m.memMaxPages ≤ MAX_MEM_PAGES

/-- All memories fit, and all loads and stores so far were inside. -/
structure Sandboxed (w : Runtime) : Prop where
  fits : ∀ m ∈ w.modules, MemoryFits m
  inside : ∀ a ∈ w.accesses, a.origin = .instruction → a.Inside

variable {w w' : Runtime} {α : Type}

theorem memoryFits_empty : MemoryFits WasmModule.empty := by
  constructor <;> decide

variable {size ptr last id : Nat} {m : WasmModule} {f : Nat → Interp α}

section

variable (h : Sandboxed w)
include h

theorem Sandboxed.getModule (id : Nat) : MemoryFits (w.getModule id) := by
  unfold Runtime.getModule
  rw [getD_eq_getElem?_getD]
  cases hm : w.modules[id]? with
  | none => exact memoryFits_empty
  | some m => exact h.fits m (mem_of_getElem? hm)

theorem Sandboxed.setModule (id : Nat) (hm : MemoryFits m) : Sandboxed (w.setModule id m) := by
  refine ⟨?_, h.inside⟩
  intro m' hm'
  rcases mem_or_eq_of_mem_set hm' with hold | rfl
  · exact h.fits m' hold
  · exact hm

theorem Sandboxed.congr (hmodules : w'.modules = w.modules)
    (haccesses : w'.accesses = w.accesses) : Sandboxed w' := by
  constructor
  · rw [hmodules]
    exact h.fits
  · rw [haccesses]
    exact h.inside

theorem Sandboxed.record {touched : List Access}
    (htouched : ∀ a ∈ touched, a.origin = .instruction → a.Inside) :
    Sandboxed { w with accesses := w.accesses ++ touched } := by
  exact ⟨h.fits, forall_mem_append.mpr ⟨h.inside, htouched⟩⟩

theorem Sandboxed.allocZeroed (hsize : size < WORD)
    (hrun : w.allocZeroed size = (ptr, w')) : Sandboxed w' ∧ ptr + size ≤ WORD := by
  unfold Runtime.allocZeroed at hrun
  cases hheap : w.heap with
  | nil =>
    rw [hheap] at hrun
    cases hrun
    exact ⟨h, by omega⟩
  | cons answer rest =>
    rw [hheap] at hrun
    dsimp only at hrun
    by_cases hnull : answer.ptr size = 0
    · rw [if_pos hnull] at hrun
      cases hrun
      exact ⟨h.congr rfl rfl, by omega⟩
    · rw [if_neg hnull] at hrun
      cases hrun
      exact ⟨h.congr rfl rfl, answer.fits size hsize⟩

end

/-! ### Loads and stores -/

theorem access_inside {ea n k : Nat} (hm : MemoryFits m) (hea : ea < 2 ^ 33)
    (hn : n ≤ 8) (hk : k < n) (hcheck : ¬ wrapMul m.memPages MEM_PAGE_SIZE < wrapAdd ea n) :
    (Access.mk .instruction (wrapAdd m.memPtr (ea + k)) m.memPtr m.memPages).Inside := by
  have hsum : wrapAdd ea n = ea + n := wrapAdd_of_lt (by unfold WORD; omega)
  have hsize : wrapMul m.memPages MEM_PAGE_SIZE ≤ m.memPages * MEM_PAGE_SIZE := Nat.mod_le _ _
  have hstop := hm.stop
  have haddr : wrapAdd m.memPtr (ea + k) = m.memPtr + (ea + k) := wrapAdd_of_lt (by omega)
  constructor
  · rw [haddr]
    exact Nat.le_add_right _ _
  · dsimp only
    omega

theorem effectiveAddr_lt (addr : BitVec 64) {offset : Nat} (h : offset < 2 ^ 32) :
    effectiveAddr addr offset < 2 ^ 33 := by
  have hsum : effectiveAddr addr offset = addr.toNat % 2 ^ 32 + offset :=
    wrapAdd_of_lt (by unfold WORD; omega)
  omega

/-! ### Every instruction keeps the invariant -/

/-- The invariant on the state of an execution. -/
def SafeExec (e : Exec) : Prop := Sandboxed e.wasm

/-- A program that keeps the invariant. -/
abbrev Safe (x : Interp α) : Prop := Keeps SafeExec x

theorem safe_failIf (c : Prop) [Decidable c] (msg : String) : Safe (failIf c msg) :=
  .ite (.throw _) (.pure _)

theorem safe_failIf_bind {c : Prop} [Decidable c] {msg : String} {f : Unit → Interp α}
    (h : ¬ c → Safe (f ())) : Safe (failIf c msg >>= f) := by
  intro e he
  rw [run_bind]
  unfold failIf
  by_cases hc : c
  · rw [if_pos hc, run_throw]
    exact he
  · rw [if_neg hc, run_pure]
    exact h hc e he

theorem safe_orPanic (a : Option α) : Safe (orPanic a) := by
  cases a with
  | none => exact .throw _
  | some a => exact .pure _

theorem safe_orFail (a : Except String α) : Safe (orFail a) := by
  cases a with
  | error msg => exact .throw _
  | ok a => exact .pure _

theorem safe_modify {f : Exec → Exec} (h : ∀ e, (f e).wasm = e.wasm) :
    Safe (modify f : Interp PUnit) := by
  refine .modify ?_
  intro e he
  unfold SafeExec
  rw [h e]
  exact he

theorem safe_setSp (sp : Nat) : Safe (setSp sp) := safe_modify fun _ => rfl

theorem safe_setNewPc (pc : Nat) : Safe (setNewPc pc) := safe_modify fun _ => rfl

theorem safe_setFrame (f : Frame) : Safe (setFrame f) := safe_modify fun _ => rfl

theorem safe_stackAt (i : Nat) : Safe (stackAt i) :=
  .get_bind fun _ _ => safe_orPanic _

theorem safe_frame : Safe frame := .get_bind fun _ _ => safe_orPanic _

theorem safe_setStackAt (i : Nat) (v : BitVec 64) : Safe (setStackAt i v) :=
  .get_bind fun _ he => .ite (.set he) (.throw _)

theorem safe_push (v : BitVec 64) : Safe (push v) :=
  .get_bind fun _ _ => .bind (safe_setStackAt _ _) fun _ => safe_setSp _

theorem safe_pushChecked (v : BitVec 64) : Safe (pushChecked v) :=
  .get_bind fun _ _ => .bind (safe_failIf _ _) fun _ => safe_push v

theorem safe_pop (msg : String) : Safe (pop msg) := by
  refine .get_bind fun e _ => .bind (safe_failIf _ _) fun _ => ?_
  exact .bind (safe_stackAt _) fun v => .bind (safe_setSp _) fun _ => .pure v

theorem safe_mapTop (msg : String) (f : BitVec 64 → BitVec 64) : Safe (mapTop msg f) := by
  refine .get_bind fun e _ => .bind (safe_failIf _ _) fun _ => ?_
  exact .bind (safe_stackAt _) fun _ => safe_setStackAt _ _

theorem safe_pushCtrl (f : CtrlFrame) : Safe (pushCtrl f) :=
  .get_bind fun _ he => .bind (safe_failIf _ _) fun _ => .set he

theorem safe_immediate_bind (h : ∀ v < 2 ^ 32, Safe (f v)) : Safe (immediate >>= f) := by
  intro e he
  rw [run_bind]
  unfold immediate
  rw [run_bind, run_get]
  dsimp only
  cases hleb : leb128U e.bc e.newPc with
  | none => exact he
  | some r => exact h r.1 (leb128U_lt hleb) { e with newPc := r.2 } he

theorem safe_setWorld (world : World) : Safe (setWorld world) :=
  .modify fun _ he => he.congr rfl rfl

theorem safe_setMem (mem : Memory) : Safe (setMem mem) :=
  .get_bind fun _ _ => safe_setWorld _

/-! ### Control flow -/

theorem safe_skipBlockType (msg : String) : Safe (skipBlockType msg) :=
  .get_bind fun _ _ => .bind (safe_failIf _ _) fun _ => safe_setNewPc _

theorem safe_execBlock (pc : Nat) : Safe (execBlock pc) := by
  refine .bind (safe_skipBlockType _) fun _ => .get_bind fun e _ => ?_
  exact .bind (safe_orFail _) fun _ => safe_pushCtrl _

theorem safe_execLoop : Safe execLoop :=
  .bind (safe_skipBlockType _) fun _ => .get_bind fun _ _ => safe_pushCtrl _

theorem safe_execIf (pc : Nat) : Safe (execIf pc) := by
  refine .bind (safe_skipBlockType _) fun _ => .bind (safe_pop _) fun cond => ?_
  refine .get_bind fun e _ => .bind (safe_orFail _) ?_
  rintro ⟨elsePc, endPc⟩
  refine .ite (safe_pushCtrl _) (.ite ?_ (safe_setNewPc _))
  exact .bind (safe_pushCtrl _) fun _ => safe_setNewPc _

theorem safe_execElse (pc : Nat) : Safe (execElse pc) :=
  .get_bind fun _ _ => .bind (safe_orFail _) fun _ => safe_setNewPc _

theorem safe_execEnd : Safe execEnd := by
  refine .get_bind fun e he => .ite (.pure _) ?_
  refine .bind (safe_orPanic _) fun entry => .bind (.set he) fun _ => ?_
  cases entry.kind with
  | func => exact .pure _
  | loop => exact .pure _
  | block => exact .bind (safe_setNewPc _) fun _ => .pure _
  | if_ => exact .bind (safe_setNewPc _) fun _ => .pure _

theorem safe_branch (msg : String) (label : Nat) : Safe (branch msg label) := by
  refine .get_bind fun e he => .bind (safe_failIf _ _) fun _ => ?_
  exact .bind (safe_orPanic _) fun _ => .ite (.set he) (.set he)

theorem safe_execBr : Safe execBr := safe_immediate_bind fun _ _ => safe_branch _ _

theorem safe_execBrIf : Safe execBrIf := by
  refine safe_immediate_bind fun label _ => .bind (safe_pop _) fun cond => ?_
  exact .ite (safe_branch _ _) (.pure _)

theorem safe_execReturn : Safe execReturn := by
  refine .bind safe_frame fun f => .get_bind fun e he => ?_
  refine .bind (.ite (safe_stackAt _) (.pure _)) fun retVal => ?_
  refine .bind (.set he) fun _ => .bind (safe_failIf _ _) fun _ => ?_
  refine .bind (safe_modify fun _ => rfl) fun _ => .bind (safe_push _) fun _ => ?_
  exact .bind safe_frame fun _ => safe_setNewPc _

theorem safe_pastEnd : Safe pastEnd := by
  refine .bind safe_frame fun f => .get_bind fun e he => ?_
  refine .ite (.pure _) ?_
  refine .bind (.ite (safe_stackAt _) (.pure _)) fun retVal => ?_
  refine .bind (.set he) fun _ => .bind (safe_push _) fun _ => ?_
  exact .ite (.pure _) (.pure _)

/-! ### Calls -/

variable (env : HostEnv)

theorem safe_callArgs (n : Nat) : Safe (callArgs n) := .get_bind fun _ _ => safe_orPanic _

theorem safe_runHost (funcIdx : Nat) (args : List (BitVec 64)) :
    Safe (runHost env funcIdx args) := by
  refine .get_bind fun e he => .bind (safe_orPanic _) fun importName => ?_
  split
  · refine .bind (safe_orPanic _) fun res => .bind ?_ fun _ => ?_
    · refine .modify fun e' he' => .record he' ?_
      intro a ha horigin
      obtain ⟨addr, _, rfl⟩ := mem_map.mp ha
      cases horigin
    · exact .bind (safe_setWorld _) fun _ => .pure _
  · split
    · exact .throw _
    · exact .bind (safe_setWorld _) fun _ => .pure _

theorem safe_callHost (funcIdx : Nat) : Safe (callHost env funcIdx) := by
  refine .get_bind fun e _ => .bind (safe_orPanic _) fun typeIdx => ?_
  refine .bind (safe_failIf _ _) fun _ => .bind (safe_callArgs _) fun args => ?_
  refine .bind (safe_setSp _) fun _ => .bind (safe_runHost env _ _) fun result => ?_
  exact .ite (safe_pushChecked _) (.pure _)

theorem safe_callDefined (defIdx : Nat) : Safe (callDefined defIdx) := by
  refine .get_bind fun e _ => .bind (safe_failIf _ _) fun _ => ?_
  refine .bind (safe_orPanic _) fun ftIdx => .bind (safe_failIf _ _) fun _ => ?_
  refine .bind safe_frame fun f => .bind (safe_setFrame _) fun _ => ?_
  refine .bind (safe_failIf _ _) fun _ => .bind (safe_orPanic _) fun codeStart => ?_
  refine .bind (safe_callArgs _) fun args => .bind (safe_modify fun _ => rfl) fun _ => ?_
  refine .bind (safe_setFrame _) fun _ => .bind (safe_pushCtrl _) fun _ => ?_
  exact safe_setNewPc _

theorem safe_execCall : Safe (execCall env) := by
  refine safe_immediate_bind fun funcIdx _ => .get_bind fun e _ => ?_
  exact .ite (safe_callHost env _) (safe_callDefined _)

/-! ### Locals, constants, arithmetic -/

theorem safe_execLocalGet : Safe execLocalGet := by
  refine safe_immediate_bind fun idx _ => .bind (safe_failIf _ _) fun _ => ?_
  refine .bind safe_frame fun f => .bind (safe_orPanic _) fun v => ?_
  exact safe_pushChecked v

theorem safe_execLocalSet : Safe execLocalSet := by
  refine safe_immediate_bind fun idx _ => .bind (safe_failIf _ _) fun _ => ?_
  exact .bind (safe_pop _) fun v => .bind safe_frame fun f => safe_setFrame _

theorem safe_execLocalTee : Safe execLocalTee := by
  refine safe_immediate_bind fun idx _ => .bind (safe_failIf _ _) fun _ => ?_
  refine .get_bind fun e _ => .bind (safe_failIf _ _) fun _ => ?_
  exact .bind (safe_stackAt _) fun v => .bind safe_frame fun f => safe_setFrame _

theorem safe_execI32Const : Safe execI32Const := by
  refine .get_bind fun e _ => .bind (safe_orPanic _) fun v => ?_
  exact .bind (safe_setNewPc _) fun _ => safe_pushChecked _

theorem safe_execI64Const : Safe execI64Const := by
  refine .get_bind fun e _ => .bind (safe_orPanic _) fun v => ?_
  exact .bind (safe_setNewPc _) fun _ => safe_pushChecked _

theorem safe_execBinary (op : BinOp) : Safe (execBinary op) := by
  refine .get_bind fun e _ => .bind (safe_failIf _ _) fun _ => ?_
  refine .bind (safe_stackAt _) fun a => .bind (safe_stackAt _) fun b => ?_
  cases op.apply (a.setWidth 32) (b.setWidth 32) with
  | error msg => exact .throw _
  | ok v => exact .bind (safe_setStackAt _ _) fun _ => safe_setSp _

theorem safe_execSelect : Safe execSelect := by
  refine .get_bind fun e _ => .bind (safe_failIf _ _) fun _ => ?_
  refine .bind (safe_stackAt _) fun cond => .bind (safe_stackAt _) fun val2 => ?_
  refine .bind (safe_stackAt _) fun val1 => ?_
  exact .bind (safe_setStackAt _ _) fun _ => safe_setSp _

/-! ### Memory -/

/-- **Loads and stores.**  What passes the check is inside. -/
theorem safe_access {name : String} {ea n : Nat} (hea : ea < 2 ^ 33) (hn : n ≤ 8) :
    Safe (access name ea n) := by
  refine .get_bind fun e he => safe_failIf_bind fun hcheck => ?_
  refine .bind (safe_failIf _ _) fun _ => .bind ?_ fun _ => .pure _
  refine .modify fun e' he' => .record he' ?_
  intro a ha _
  obtain ⟨k, hk, rfl⟩ := mem_map.mp ha
  exact access_inside (he.getModule e.id) hea hn (mem_range.mp hk) hcheck

theorem safe_memArg_bind (h : ∀ offset < 2 ^ 32, Safe (f offset)) : Safe (memArg >>= f) := by
  unfold memArg
  rw [bind_assoc]
  exact safe_immediate_bind fun _ _ => safe_immediate_bind h

theorem safe_execLoad {op : LoadOp} (hwidth : op.width ≤ 8) : Safe (execLoad op) := by
  refine safe_memArg_bind fun offset hoffset => .bind (safe_pop _) fun addr => ?_
  refine .bind (safe_access (effectiveAddr_lt addr hoffset) hwidth) fun p => ?_
  exact .get_bind fun e _ => safe_pushChecked _

theorem safe_execStore {op : StoreOp} (hwidth : op.width ≤ 8) : Safe (execStore op) := by
  refine safe_memArg_bind fun offset hoffset => .get_bind fun e _ => ?_
  refine .bind (safe_failIf _ _) fun _ => .bind (safe_stackAt _) fun addr => ?_
  refine .bind (safe_stackAt _) fun val => .bind (safe_setSp _) fun _ => ?_
  refine .bind (safe_access (effectiveAddr_lt addr hoffset) hwidth) fun p => ?_
  exact safe_setMem _

theorem safe_execMemorySize : Safe execMemorySize :=
  .get_bind fun _ _ => .bind (safe_setNewPc _) fun _ => safe_pushChecked _

theorem safe_push_then (v : BitVec 64) (flow : Flow) :
    Safe (do push v; return flow) :=
  .bind (safe_push v) fun _ => .pure flow

theorem safe_setMemory {pages : Nat} (hstop : ptr + pages * MEM_PAGE_SIZE ≤ WORD) :
    Safe (setMemory ptr pages) := by
  refine .modify fun e he => .setModule he _ ?_
  exact ⟨hstop, (Sandboxed.getModule he e.id).pages⟩

theorem safe_growMemory {newPages : Nat} (hpages : newPages ≤ MAX_MEM_PAGES) :
    Safe (growMemory newPages) := by
  have hsmall : newPages * MEM_PAGE_SIZE < WORD :=
    (Nat.mul_le_mul_right _ hpages).trans_lt (by decide)
  refine .get_bind fun e he => .ite (safe_push_then _ _) ?_
  rcases halloc : e.wasm.allocZeroed (wrapMul newPages MEM_PAGE_SIZE) with ⟨newMem, w⟩
  rw [wrapMul_of_lt hsmall] at halloc
  obtain ⟨hw, hstop⟩ := Sandboxed.allocZeroed he hsmall halloc
  refine .bind (.set hw) fun _ => .ite (safe_push_then _ _) ?_
  refine .bind (safe_setMem _) fun _ => .ite (safe_push_then _ _) (.ite (.throw _) ?_)
  exact .bind (safe_setMemory hstop) fun _ => safe_push_then _ _

theorem safe_execMemoryGrow : Safe execMemoryGrow := by
  refine .get_bind fun e he => .bind (safe_setNewPc _) fun _ => ?_
  refine .bind (safe_pop _) fun request => .ite (safe_push_then _ _) ?_
  split
  · rename_i hroom
    exact safe_growMemory (hroom.trans (Sandboxed.getModule he e.id).pages)
  · exact safe_push_then _ _

/-! ### The loop -/

def Opcode.width : Opcode → Nat
  | .load op => op.width
  | .store op => op.width
  | _ => 0

variable {opcode : Opcode}

theorem decode_width {byte : UInt8} (h : Opcode.decode byte = some opcode) : opcode.width ≤ 8 := by
  have hall : ∀ entry ∈ opcodes, entry.2.width ≤ 8 := by decide
  obtain ⟨entry, hfind, rfl⟩ := Option.map_eq_some_iff.mp h
  exact hall entry (mem_of_find?_eq_some hfind)

theorem safe_thenNext {x : Interp Unit} (hx : Safe x) : Safe (thenNext x) :=
  .bind hx fun _ => .pure _

/-- **One instruction** stays inside the sandbox. -/
theorem safe_execOpcode (pc : Nat) (hwidth : opcode.width ≤ 8) :
    Safe (execOpcode env pc opcode) := by
  cases opcode with
  | unreachable => exact .throw _
  | nop => exact safe_thenNext (.pure _)
  | block => exact safe_thenNext (safe_execBlock pc)
  | loop => exact safe_thenNext safe_execLoop
  | if_ => exact safe_thenNext (safe_execIf pc)
  | else_ => exact safe_thenNext (safe_execElse pc)
  | end_ => exact safe_execEnd
  | br => exact safe_thenNext safe_execBr
  | brIf => exact safe_thenNext safe_execBrIf
  | return_ => exact safe_thenNext safe_execReturn
  | call => exact safe_thenNext (safe_execCall env)
  | select => exact safe_thenNext safe_execSelect
  | localGet => exact safe_thenNext safe_execLocalGet
  | localSet => exact safe_thenNext safe_execLocalSet
  | localTee => exact safe_thenNext safe_execLocalTee
  | i32Const => exact safe_thenNext safe_execI32Const
  | i64Const => exact safe_thenNext safe_execI64Const
  | i32WrapI64 => exact safe_thenNext (safe_mapTop _ _)
  | i64ExtendI32S => exact safe_thenNext (safe_mapTop _ _)
  | i64ExtendI32U => exact safe_thenNext (safe_mapTop _ _)
  | i32Eqz => exact safe_thenNext (safe_mapTop _ _)
  | binary op => exact safe_thenNext (safe_execBinary op)
  | load op => exact safe_thenNext (safe_execLoad hwidth)
  | store op => exact safe_thenNext (safe_execStore hwidth)
  | memorySize => exact safe_thenNext safe_execMemorySize
  | memoryGrow => exact safe_execMemoryGrow

theorem safe_execAt (pc : Nat) (byte : UInt8) : Safe (execAt env pc byte) := by
  refine .bind (safe_setNewPc _) fun _ => ?_
  cases hdecode : Opcode.decode byte with
  | none => exact .throw _
  | some opcode =>
    refine .bind (safe_execOpcode env pc (decode_width hdecode)) fun flow => ?_
    cases flow with
    | next =>
      refine .bind safe_frame fun f => .get_bind fun e _ => ?_
      exact .bind (safe_setFrame _) fun _ => .pure _
    | again => exact .pure _
    | done => exact .pure _

theorem safe_cycle : Safe (cycle env) := by
  refine .bind safe_frame fun f => .get_bind fun e _ => ?_
  cases e.bc[f.pc]? with
  | none => exact safe_pastEnd
  | some byte => exact safe_execAt env f.pc byte

theorem safe_interpret (cycles : Nat) : Safe (interpret env cycles) := by
  induction cycles with
  | zero => exact .throw _
  | succ cycles ih =>
    refine .bind (safe_cycle env) fun flow => ?_
    cases flow with
    | done => exact .pure _
    | next => exact ih
    | again => exact ih

theorem safe_topResult : Safe topResult := by
  refine .get_bind fun e _ => .ite ?_ (.pure _)
  exact .bind (safe_stackAt _) fun v => .pure _

theorem Sandboxed.execute (h : Sandboxed w) (id : Nat) (name : List UInt8)
    (args : List (BitVec 64)) : Sandboxed (wasmExecute env id name args w).2 := by
  unfold wasmExecute
  dsimp only
  split
  · exact h
  split
  · exact h
  · exact h
  split
  · exact h
  split
  · exact h
  split
  · exact h
  split
  · exact Keeps.bind (safe_interpret env CYCLE_BUDGET) (fun _ => safe_topResult) _ h
  · exact h

/-! ### Loading -/

def WasmModule.memory (m : WasmModule) : Nat × Nat × Nat := (m.memPtr, m.memPages, m.memMaxPages)

variable {m m' : WasmModule}

theorem MemoryFits.congr (h : MemoryFits m) (hsame : m'.memory = m.memory) : MemoryFits m' := by
  obtain ⟨hptr, hrest⟩ := Prod.mk.inj hsame
  obtain ⟨hpages, hmax⟩ := Prod.mk.inj hrest
  constructor
  · rw [hptr, hpages]
    exact h.stop
  · rw [hmax]
    exact h.pages

variable {bc : List UInt8} {fuel offset count : Nat}

/-- A pass of a section parser leaves the memory fields alone. -/
def KeepsMemory (pass : Nat → Nat → WasmModule → Option (Option (Nat × WasmModule))) : Prop :=
  ∀ offset count m next m', pass offset count m = some (some (next, m')) → m'.memory = m.memory

theorem parseLoop_memory {pass : Nat → Nat → WasmModule → Option (Option (Nat × WasmModule))}
    {finish : Nat → WasmModule → WasmModule}
    (h : parseLoop last pass finish fuel offset count m = some m') (hpass : KeepsMemory pass)
    (hfinish : ∀ count m, (finish count m).memory = m.memory) : m'.memory = m.memory := by
  induction fuel generalizing offset count m with
  | zero =>
    cases h
    exact hfinish count m
  | succ fuel ih =>
    unfold parseLoop at h
    split at h
    · cases h
      exact hfinish count m
    split at h
    · cases h
    · cases h
      exact hfinish count m
    · rename_i next m1 hentry
      have hrest := ih h
      exact hrest.trans (hpass offset count m next m1 hentry)

theorem parseType_memory : KeepsMemory (parseType bc) := by
  intro offset count m next m' h
  obtain ⟨funcType, _, h⟩ := bind_eq_some_iff.mp h
  split at h
  · cases h
  obtain ⟨⟨nparams, offset1⟩, _, h⟩ := bind_eq_some_iff.mp h
  obtain ⟨⟨nresults, offset2⟩, _, h⟩ := bind_eq_some_iff.mp h
  cases h
  rfl

theorem parseImport_memory : KeepsMemory (parseImport bc) := by
  intro offset count m next m' h
  simp only [parseImport, bind_eq_bind, bind_eq_some_iff] at h
  obtain ⟨module, _, field, _, bytes, _, kind, _, h⟩ := h
  split at h
  · obtain ⟨typeIdx, _, h⟩ := bind_eq_some_iff.mp h
    cases h
    rfl
  · cases h
    rfl

theorem parseFunction_memory : KeepsMemory (parseFunction bc) := by
  intro offset count m next m' h
  obtain ⟨⟨typeIdx, offset1⟩, _, h⟩ := bind_eq_some_iff.mp h
  cases h
  rfl

theorem parseExport_memory : KeepsMemory (parseExport bc) := by
  intro offset count m next m' h
  simp only [parseExport, bind_eq_bind, bind_eq_some_iff] at h
  obtain ⟨name, _, bytes, _, kind, _, idx, _, h⟩ := h
  cases h
  rfl

theorem parseBody_memory : KeepsMemory (parseBody bc last) := by
  intro offset count m next m' h
  simp only [parseBody, bind_eq_bind, bind_eq_some_iff] at h
  obtain ⟨body, _, decls, _, locals, _, h⟩ := h
  cases h
  rfl

theorem parseSection_memory {sectionId : UInt8}
    (h : parseSection bc sectionId offset size m = some m') : m'.memory = m.memory := by
  unfold parseSection at h
  split at h
  · exact parseLoop_memory h parseType_memory fun _ _ => rfl
  split at h
  · exact parseLoop_memory h parseImport_memory fun _ _ => rfl
  split at h
  · exact parseLoop_memory h parseFunction_memory fun _ _ => rfl
  split at h
  · exact parseLoop_memory h parseExport_memory fun _ _ => rfl
  split at h
  · exact parseLoop_memory h parseBody_memory fun _ _ => rfl
  · cases h
    rfl

theorem parseSections_memory {bcLen : Nat} (h : parseSections bc bcLen fuel offset m = some m') :
    m'.memory = m.memory := by
  induction fuel generalizing offset m with
  | zero =>
    cases h
    rfl
  | succ fuel ih =>
    unfold parseSections at h
    split at h
    · cases h
      rfl
    obtain ⟨sectionId, _, h⟩ := bind_eq_some_iff.mp h
    obtain ⟨⟨size, offset1⟩, _, h⟩ := bind_eq_some_iff.mp h
    obtain ⟨m1, hsection, h⟩ := bind_eq_some_iff.mp h
    have hrest := ih h
    exact hrest.trans (parseSection_memory hsection)

theorem parseModule_memory (h : parseModule m = some m') : m'.memory = m.memory :=
  parseSections_memory h

section

variable (h : Sandboxed w)
include h

theorem Sandboxed.allocModuleMemory {ok : Bool}
    (hrun : allocModuleMemory w id = (ok, w')) : Sandboxed w' := by
  unfold Wasm.allocModuleMemory at hrun
  rcases halloc : w.allocZeroed MEM_PAGE_SIZE with ⟨ptr, w1⟩
  obtain ⟨h1, hstop⟩ := h.allocZeroed (by decide) halloc
  rw [halloc] at hrun
  dsimp only at hrun
  split at hrun
  · cases hrun
    exact h1
  · cases hrun
    refine h1.setModule id ⟨?_, le_refl _⟩
    rw [Nat.one_mul]
    exact hstop

variable {bytecode : List UInt8}

theorem Sandboxed.load {pid : Nat} {name : List UInt8} {res : Option Nat}
    (hrun : wasmLoad pid name bytecode w = some (res, w')) : Sandboxed w' := by
  unfold wasmLoad at hrun
  split at hrun
  · cases hrun
    exact h
  split at hrun
  · cases hrun
    exact h
  dsimp only at hrun
  split at hrun
  · cases hrun
  · rename_i m1 hparse
    have hsame := parseModule_memory hparse
    have hfits : MemoryFits m1 := (h.getModule w.count).congr hsame
    have h1 := h.setModule w.count hfits
    split at hrun
    · rename_i w1 halloc
      cases hrun
      have h2 := h1.allocModuleMemory halloc
      exact h2.setModule _ ((h2.getModule _).congr rfl)
    · rename_i w1 halloc
      cases hrun
      exact (h1.allocModuleMemory halloc).congr rfl rfl

theorem Sandboxed.unload (id : Nat) : Sandboxed (wasmUnload id w).2 := by
  unfold wasmUnload
  split
  · exact h
  · refine h.setModule id (.congr (m := freeModuleMemory (w.getModule id)) ?_ rfl)
    unfold freeModuleMemory
    split
    · exact h.getModule id
    · exact ⟨by dsimp only; omega, (h.getModule id).pages⟩

theorem Sandboxed.hotReload {res : Except String Unit}
    (hrun : wasmHotReload id bytecode w = some (res, w')) : Sandboxed w' := by
  unfold wasmHotReload at hrun
  split at hrun
  · cases hrun
    exact h
  split at hrun
  · cases hrun
    exact h
  split at hrun
  · cases hrun
    exact h
  split at hrun
  · cases hrun
  · rename_i m1 hparse
    cases hrun
    have hsame := parseModule_memory hparse
    exact h.setModule id ((h.getModule id).congr hsame)

theorem Sandboxed.registerHostFunc (name : List UInt8) (func : HostFunc) :
    Sandboxed (wasmRegisterHostFunc name func w).2 := by
  unfold wasmRegisterHostFunc
  split
  · exact h
  · exact h.congr rfl rfl

end

/-! ### Runs of the subsystem -/

/-- The calls of the subsystem. -/
inductive WasmCall where
  | load (pid : Nat) (name bytecode : List UInt8)
  | unload (id : Nat)
  | hotReload (id : Nat) (bytecode : List UInt8)
  | registerHostFunc (name : List UInt8) (func : HostFunc)
  | execute (id : Nat) (name : List UInt8) (args : List (BitVec 64))

/-- One call.  A panic of the parser has no next state; an execution that stops with a
    panic leaves the accesses it made. -/
inductive WasmStep (env : HostEnv) : Runtime → WasmCall → Runtime → Prop
  | load {w w' : Runtime} {pid : Nat} {name bytecode : List UInt8} {res : Option Nat} :
      wasmLoad pid name bytecode w = some (res, w') →
      WasmStep env w (.load pid name bytecode) w'
  | unload {w : Runtime} {id : Nat} : WasmStep env w (.unload id) (wasmUnload id w).2
  | hotReload {w w' : Runtime} {id : Nat} {bytecode : List UInt8} {res : Except String Unit} :
      wasmHotReload id bytecode w = some (res, w') → WasmStep env w (.hotReload id bytecode) w'
  | registerHostFunc {w : Runtime} {name : List UInt8} {func : HostFunc} :
      WasmStep env w (.registerHostFunc name func) (wasmRegisterHostFunc name func w).2
  | execute {w : Runtime} {id : Nat} {name : List UInt8} {args : List (BitVec 64)} :
      WasmStep env w (.execute id name args) (wasmExecute env id name args w).2

def Runtime.boot (heap : List HeapAnswer) (world : World) : Runtime where
  modules := replicate MAX_WASM_MODULES WasmModule.empty
  count := 0
  hostFuncs := []
  heap := heap
  world := world
  accesses := []

theorem sandboxed_boot (heap : List HeapAnswer) (world : World) :
    Sandboxed (Runtime.boot heap world) := by
  constructor
  · intro m hm
    rw [eq_of_mem_replicate hm]
    exact memoryFits_empty
  · intro a ha
    cases ha

theorem Sandboxed.step {call : WasmCall} (h : Sandboxed w) (hstep : WasmStep env w call w') :
    Sandboxed w' := by
  cases hstep with
  | load hrun => exact h.load hrun
  | unload => exact h.unload _
  | hotReload hrun => exact h.hotReload hrun
  | registerHostFunc => exact h.registerHostFunc _ _
  | execute => exact h.execute env _ _ _

def HeapAnswer.block (p : Nat) : HeapAnswer where
  ptr := fun size => if p + size ≤ WORD then p else 0
  fits := by
    intro size hsize
    split <;> omega

def noSyscalls : HostEnv := ⟨[], fun _ _ _ world => (0, world)⟩

def oneBlock : Runtime := Runtime.boot [.block 0x80800000] ⟨fun _ => 0, 0, []⟩

def storeModule : List UInt8 :=
  [0x00, 0x61, 0x73, 0x6D, 0x01, 0x00, 0x00, 0x00,
   0x01, 0x03, 0x60, 0x00, 0x00,
   0x03, 0x01, 0x00,
   0x07, 0x04, 0x01, 0x66, 0x00, 0x00,
   0x0A, 0x0A, 0x09, 0x00, 0x41, 0x08, 0x41, 0x05, 0x36, 0x02, 0x00, 0x0B]

def afterLoad (bytecode : List UInt8) (w : Runtime) : Runtime :=
  ((wasmLoad 1 [0x6D] bytecode w).getD (none, w)).2

theorem step_afterLoad (h : (wasmLoad 1 [0x6D] bytecode w).isSome = true) :
    WasmStep env w (.load 1 [0x6D] bytecode) (afterLoad bytecode w) := by
  obtain ⟨⟨res, w1⟩, hload⟩ := Option.isSome_iff_exists.mp h
  have hafter : afterLoad bytecode w = w1 := by
    unfold afterLoad
    rw [hload]
    rfl
  rw [hafter]
  exact .load hload

variable {env}

/-- **The sandbox.**  In every run of the subsystem, each address that a load or store of a
    module touches lies in the linear memory that the module has at that time. -/
theorem loads_and_stores_stay_inside {heap : List HeapAnswer} {world : World}
    {calls : List WasmCall} (hrun : Run (WasmStep env) (Runtime.boot heap world) calls w) :
    ∀ a ∈ w.accesses, a.origin = .instruction → a.Inside := by
  have hsafe := hrun.invariant (fun _ _ _ h hstep => h.step env hstep) (sandboxed_boot heap world)
  exact hsafe.inside

theorem loads_and_stores_stay_inside_store : ∃ w, Run (WasmStep noSyscalls) oneBlock
        [.load 1 [0x6D] storeModule, .execute 0 [0x66] []] w ∧
      ⟨.instruction, 0x80800008, 0x80800000, 1⟩ ∈ w.accesses ∧
      ∀ a ∈ w.accesses, a.origin = .instruction → a.Inside := by
  have hload : WasmStep noSyscalls oneBlock (.load 1 [0x6D] storeModule)
      (afterLoad storeModule oneBlock) := step_afterLoad _ (by decide +kernel)
  have hexecute : WasmStep noSyscalls (afterLoad storeModule oneBlock) (.execute 0 [0x66] [])
      (wasmExecute noSyscalls 0 [0x66] [] (afterLoad storeModule oneBlock)).2 := .execute
  have hrun := Run.cons hload (.cons hexecute (.nil _))
  exact ⟨_, hrun, by decide +kernel, loads_and_stores_stay_inside hrun⟩

end TrainOS.Wasm
