import TrainOS.FileCalls

/-!
# The sandbox and the requests to the file service

A rule that forbids a process to read and write under a prefix is meant to keep every request
about such a file from the file service.  It does so for the calls that ask the sandbox
(`open`, `read`, `write`, `unlink`, `rename`), as long as no earlier rule allows the access
(`sandbox_mediates`); `mkdir`, `rmdir`, `truncate`, `access` and `sendfile` do not ask.
-/

namespace TrainOS.Files

open ByteMemory List Runs StateExcept

variable {σ : Type} {h : Host σ} {pid : Nat} {deny : SandboxRule} {rules : SandboxRules}

/-! ### Where the rule works -/

/-- A message about the path names a file under the prefix of the rule. -/
def Under (deny : SandboxRule) (path : Path) : Prop := deny.pathPrefix <+: path.take 31

/-- If the path is under the prefix, the first rule that applies to it does not allow the
    access. -/
def Unshadowed (rules : SandboxRules) (pid : Nat) (deny : SandboxRule) (path : Path)
    (wantsWrite : Bool) : Prop :=
  Under deny path → ∀ r, firstRule rules pid path = some r → r.allows wantsWrite = false

/-- The call does not reach around the rule: where the sandbox is not asked no path is
    under the prefix, and where it is asked no earlier rule allows the access. -/
def Mediated (pid : Nat) (deny : SandboxRule) (st : FileState σ) : FileAct → Prop
  | .call (.sysOpen pathPtr flags) => ∀ path, readUserString st.user pathPtr = .ok path →
      Unshadowed st.rules pid deny path (wantsWrite flags)
  | .call (.sysRead fd _ _) => ∀ e, findFd st.fds pid fd = some e →
      Unshadowed st.rules pid deny e.path false
  | .call (.sysWrite fd _ _) => ∀ e, findFd st.fds pid fd = some e →
      Unshadowed st.rules pid deny e.path true
  | .call (.sysUnlink pathPtr) => ∀ path, readUserPath st.user pathPtr = .ok path →
      Unshadowed st.rules pid deny path true
  | .call (.sysRename oldPtr newPtr) => ∀ ptr ∈ [oldPtr, newPtr], ∀ path,
      readUserPath st.user ptr = .ok path → Unshadowed st.rules pid deny path true
  | .call (.sysMkdir pathPtr) | .call (.sysRmdir pathPtr) | .call (.sysTruncate pathPtr)
  | .call (.sysAccess pathPtr) => ∀ path, readUserPath st.user pathPtr = .ok path →
      ¬ Under deny path
  | .call (.sysSendfile outFd inFd _) => ∀ fd ∈ [inFd, outFd], ∀ e,
      findFd st.fds pid fd = some e → ¬ Under deny e.path
  | .call (.sysSymlink _ _) | .call (.sysReadlink _ _ _) | .compute _ => True

/-- The rule forbids the process to read and to write. -/
structure Denies (rules : SandboxRules) (pid : Nat) (deny : SandboxRule) : Prop where
  mem : deny ∈ rules.entries
  pid : deny.pid = pid
  read : deny.allowRead = false
  write : deny.allowWrite = false

variable {path : Path}

theorem Under.applies (hunder : Under deny path) (hpid : deny.pid = pid) :
    deny.applies pid path = true := by
  have hprefix : deny.pathPrefix <+: path := List.IsPrefix.trans hunder (List.take_prefix 31 path)
  simp [SandboxRule.applies, hpid, hprefix]

variable {wantsWrite : Bool}

/-! ### What the calls send -/

/-- The rules are the given ones, and no request that was sent is under the prefix. -/
def Clear (rules : SandboxRules) (deny : SandboxRule) (st : FileState σ) : Prop :=
  st.rules = rules ∧ ∀ req ∈ st.sent, ¬ deny.pathPrefix <+: req.path

theorem Clear.request {st : FileState σ} (hst : Clear rules deny st)
    (hpath : ¬ Under deny path) (h : Host σ) (opcode : Nat) (data : List UInt8) :
    Clear rules deny (st.request h (.make opcode path data)).2 := by
  unfold FileState.request
  split
  · exact hst
  · exact ⟨hst.1, forall_mem_append.mpr ⟨hst.2, forall_mem_singleton.mpr hpath⟩⟩

variable {data : List UInt8} {opcode pathPtr bufPtr count : Nat}

theorem keeps_vfsRequest
    (hpath : ¬ Under deny path) : Keeps (Clear rules deny) (vfsRequest h opcode path data) := by
  apply Keeps.get_bind
  intro st hst
  have hnext := hst.request hpath h opcode data
  split
  · exact .throw _
  · rename_i heq
    rw [heq] at hnext
    exact .bind (.set hnext) fun _ => .pure _

variable {α : Type}

theorem keeps_vfsRequest_pure (a : α) (hpath : ¬ Under deny path) :
    Keeps (Clear rules deny) (vfsRequest h opcode path data >>= fun _ => pure a) :=
  .bind (keeps_vfsRequest hpath) fun _ => .pure a

theorem keeps_orThrow_bind {β : Type} {P : FileState σ → Prop} {x : Except String α}
    {f : α → FileProg σ β} (hf : ∀ a, x = .ok a → Keeps P (f a)) : Keeps P (orThrow x >>= f) := by
  intro st hst
  cases x with
  | error e => exact hst
  | ok a => exact hf a rfl st hst

theorem keeps_copyOut (bufPtr : Nat) (bytes : List UInt8) :
    Keeps (Clear rules deny) (copyOut bufPtr bytes : FileProg σ PUnit) :=
  .ite (.pure _) (.modify fun _ hst => hst)

theorem keeps_checked {e : String} {x : FileProg σ α} (hdeny : Denies rules pid deny)
    (hun : Unshadowed rules pid deny path wantsWrite)
    (hx : ¬ Under deny path → Keeps (Clear rules deny) x) : Keeps (Clear rules deny)
      (if !sandboxCheck rules pid path wantsWrite then throw e else x) := by
  by_cases hunder : Under deny path
  · have hdenied : sandboxCheck rules pid path wantsWrite = false := by
      unfold sandboxCheck
      cases hfirst : firstRule rules pid path with
      | some r => exact hun hunder r hfirst
      | none =>
        have hno := find?_eq_none.mp hfirst deny hdeny.mem
        exact absurd (hunder.applies hdeny.pid) hno
    rw [hdenied]
    exact .throw e
  · exact .ite (.throw e) (hx hunder)

/-! ### The calls -/

variable {st : FileState σ}

section

variable (hst : Clear rules deny st)
include hst

theorem Clear.sysOpen {flags : Nat} (hdeny : Denies rules pid deny)
    (hcall : Mediated pid deny st (.call (.sysOpen pathPtr flags))) :
    Clear rules deny (run (Files.sysOpen h pid pathPtr flags) st).2 := by
  obtain rfl := hst.1
  refine keeps_orThrow_bind (fun path hread => ?_) st hst
  refine keeps_checked hdeny (hcall path hread) fun hpath => ?_
  have htouch : Keeps (Clear st.rules deny) (touch h flags path) :=
    .ite (.modify fun _ hst' => hst'.request hpath h VFS_WRITE []) (.pure _)
  refine .bind htouch fun _ => .bind (keeps_vfsRequest hpath) fun _ => ?_
  refine .get_bind fun st' hst' => ?_
  split
  · exact .throw _
  · exact .bind (.set hst') fun _ => .pure _

section

variable (hcall : ∀ path, readUserPath st.user pathPtr = .ok path → ¬ Under deny path)
include hcall

theorem Clear.requestPath :
    Clear rules deny (run (Files.requestPath h opcode pathPtr data) st).2 := by
  exact keeps_orThrow_bind (fun path hread => keeps_vfsRequest_pure 0 (hcall path hread)) st hst

theorem Clear.sysAccess : Clear rules deny (run (Files.sysAccess h pathPtr) st).2 := by
  refine keeps_orThrow_bind (fun path hread => ?_) st hst
  have hnext := hst.request (hcall path hread) h VFS_READ []
  split
  · exact .throw _
  · rename_i heq
    rw [heq] at hnext
    exact .bind (.set hnext) fun _ => .pure _

end

section

variable (hdeny : Denies rules pid deny) {fd : Nat}
include hdeny

theorem Clear.sysUnlink (hcall : Mediated pid deny st (.call (.sysUnlink pathPtr))) :
    Clear rules deny (run (Files.sysUnlink h pid pathPtr) st).2 := by
  obtain rfl := hst.1
  refine keeps_orThrow_bind (fun path hread => ?_) st hst
  exact keeps_checked hdeny (hcall path hread) fun hpath => keeps_vfsRequest_pure 0 hpath

theorem Clear.sysRename {oldPtr newPtr : Nat}
    (hcall : Mediated pid deny st (.call (.sysRename oldPtr newPtr))) :
    Clear rules deny (run (Files.sysRename h pid oldPtr newPtr) st).2 := by
  obtain rfl := hst.1
  refine keeps_orThrow_bind (fun oldPath hold => ?_) st hst
  refine keeps_orThrow_bind fun newPath hnew => ?_
  refine keeps_checked hdeny (hcall oldPtr (by simp) oldPath hold) fun holdPath => ?_
  refine keeps_checked hdeny (hcall newPtr (by simp) newPath hnew) fun hnewPath => ?_
  refine .bind (keeps_vfsRequest holdPath) fun oldData => ?_
  refine .bind (keeps_vfsRequest hnewPath) fun _ => ?_
  exact keeps_vfsRequest_pure 0 holdPath

theorem Clear.sysRead (hcall : Mediated pid deny st (.call (.sysRead fd bufPtr count))) :
    Clear rules deny (run (Files.sysRead h pid fd bufPtr count) st).2 := by
  obtain rfl := hst.1
  refine Keeps.ite (.throw _) (.ite ?_ (.ite (.throw _) ?_)) st hst
  · exact .bind (.set hst) fun _ => .bind (keeps_copyOut _ _) fun _ => .pure _
  · split
    · exact .throw _
    · rename_i e hfind
      refine .ite ?_ (keeps_checked hdeny (hcall e hfind) fun hpath => ?_)
      · exact .bind (.set hst) fun _ =>
          .bind (keeps_copyOut _ _) fun _ => .pure _
      · refine .bind (keeps_vfsRequest hpath) fun resp => .ite (.pure _) ?_
        refine .bind (keeps_copyOut _ _) fun _ => ?_
        exact .bind (.modify fun _ hst' => hst') fun _ => .pure _

theorem Clear.sysWrite (hcall : Mediated pid deny st (.call (.sysWrite fd bufPtr count))) :
    Clear rules deny (run (Files.sysWrite h pid fd bufPtr count) st).2 := by
  obtain rfl := hst.1
  refine Keeps.ite (.throw _) (.ite ?_ ?_) st hst
  · exact .bind (.set hst) fun _ => .pure _
  · split
    · exact .throw _
    · rename_i e hfind
      refine .ite ?_ (keeps_checked hdeny (hcall e hfind) fun hpath => ?_)
      · exact .bind (.set hst) fun _ => .ite (.pure _) (.throw _)
      · exact keeps_vfsRequest_pure _ hpath

end

theorem Clear.sysSendfile {outFd inFd : Nat}
    (hcall : Mediated pid deny st (.call (.sysSendfile outFd inFd count))) :
    Clear rules deny (run (Files.sysSendfile h pid outFd inFd count) st).2 := by
  refine Keeps.ite (.throw _) ?_ st hst
  split
  · exact .throw _
  · rename_i e hin
    refine .bind (keeps_vfsRequest (hcall inFd (by simp) e hin)) fun resp => ?_
    refine .ite (.pure _) ?_
    split
    · exact .throw _
    · rename_i d hout
      exact keeps_vfsRequest_pure _ (hcall outFd (by simp) d hout)

end

theorem keeps_sysSymlink (targetPtr linkpathPtr : Nat) :
    Keeps (Clear rules deny) (Files.sysSymlink targetPtr linkpathPtr : FileProg σ Nat) := by
  refine .get_bind fun st hst => keeps_orThrow_bind fun target _ =>
    keeps_orThrow_bind fun linkpath _ => .ite (.throw _) ?_
  split
  · exact .throw _
  · exact .bind (.set hst) fun _ => .pure _

theorem keeps_sysReadlink (pathPtr bufPtr bufSize : Nat) :
    Keeps (Clear rules deny) (Files.sysReadlink pathPtr bufPtr bufSize : FileProg σ Nat) := by
  refine .get_bind fun st hst => keeps_orThrow_bind fun path _ =>
    .ite (.throw _) (.ite (.throw _) ?_)
  split
  · exact .throw _
  · exact .bind (keeps_copyOut _ _) fun _ => .pure _

/-! ### Runs -/

/-- A mediated call sends no request under the prefix. -/
theorem Clear.step {st' : FileState σ} {a : FileAct} (hst : Clear rules deny st)
    (hdeny : Denies rules pid deny)
    (hstep : Guarded (FileStep h pid) (Mediated pid deny) st a st') : Clear rules deny st' := by
  obtain ⟨hcall, hstep⟩ := hstep
  cases a with
  | compute user =>
    obtain rfl := hstep
    exact hst
  | call c =>
    obtain rfl := hstep
    cases c with
    | sysOpen pathPtr flags => exact hst.sysOpen hdeny hcall
    | sysRead fd bufPtr count => exact hst.sysRead hdeny hcall
    | sysWrite fd bufPtr count => exact hst.sysWrite hdeny hcall
    | sysMkdir pathPtr => exact hst.requestPath hcall
    | sysRmdir pathPtr => exact hst.requestPath hcall
    | sysUnlink pathPtr => exact hst.sysUnlink hdeny hcall
    | sysRename oldPtr newPtr => exact hst.sysRename hdeny hcall
    | sysTruncate pathPtr => exact hst.requestPath hcall
    | sysAccess pathPtr => exact hst.sysAccess hcall
    | sysSymlink targetPtr linkpathPtr => exact keeps_sysSymlink _ _ st hst
    | sysReadlink pathPtr bufPtr bufSize => exact keeps_sysReadlink _ _ _ st hst
    | sysSendfile outFd inFd count => exact hst.sysSendfile hcall

/-- **Mediation.**  Along file system calls that do not reach around the rule, no request
    that names a file under its prefix is sent. -/
theorem sandbox_mediates {st st' : FileState σ} {acts : List FileAct}
    (hdeny : Denies st.rules pid deny) (hstart : st.sent = [])
    (hrun : Run (Guarded (FileStep h pid) (Mediated pid deny)) st acts st') :
    ∀ req ∈ st'.sent, ¬ deny.pathPrefix <+: req.path := by
  have hclear : Clear st.rules deny st := ⟨rfl, by simp [hstart]⟩
  exact (hrun.invariant (fun s a s' hs hstep => hs.step hdeny hstep) hclear).2

/-! ### A process that may not see `/secret` -/

def quietHost : Host Unit where
  serve := fun _ _ => some ([], ())
  recv := fun _ _ => ([], ())
  send := fun _ _ _ => (true, ())
  getchar := fun _ => (0, ())
  putchars := fun _ _ => ()
  rangeValid := fun _ _ _ => true

def secretPath : Path := [0x2F, 0x73, 0x65, 0x63, 0x72, 0x65, 0x74]

def secretRule : SandboxRule := ⟨7, secretPath, false, false⟩

/-- Process 7 has the path `/secret` at 4096 and the path `/tmp` at 8192, and has opened
    `/secret` as descriptor 3 before the rule was made. -/
def secretState : FileState Unit where
  rules := ⟨[secretRule], by decide⟩
  fds := [⟨7, 3, .file, secretPath, 0, 0, true⟩]
  symlinks := .empty
  user := storeBytes (storeBytes (fun _ => 0) 4096 secretPath) 8192 [0x2F, 0x74, 0x6D, 0x70]
  sent := []
  host := ()

/-- `open` of the secret is refused, `mkdir` elsewhere is sent. -/
theorem sandbox_mediates_two : ∃ st', Run (FileStep quietHost 7) secretState
        [.call (.sysOpen 4096 0), .call (.sysMkdir 8192)] st' ∧
      st'.sent.length = 1 ∧ ∀ req ∈ st'.sent, ¬ secretPath <+: req.path := by
  refine ⟨_, .cons rfl (.cons rfl (.nil _)), by decide +kernel, ?_⟩
  have hdeny : Denies secretState.rules 7 secretRule := ⟨mem_singleton_self _, rfl, rfl, rfl⟩
  have hopen : Mediated 7 secretRule secretState (.call (.sysOpen 4096 0)) := by
    intro path _ _ r hr
    obtain rfl := mem_singleton.mp (mem_of_find?_eq_some hr)
    rfl
  have hmkdir : Mediated 7 secretRule (run (sysOpen quietHost 7 4096 0) secretState).2
      (.call (.sysMkdir 8192)) := by
    intro path hread
    have htmp : readUserPath (run (sysOpen quietHost 7 4096 0) secretState).2.user 8192 =
        .ok [0x2F, 0x74, 0x6D, 0x70] := by decide +kernel
    cases htmp.symm.trans hread
    exact (by decide : ¬ secretPath <+: [0x2F, 0x74, 0x6D, 0x70])
  exact sandbox_mediates hdeny rfl (.cons ⟨hopen, rfl⟩ (.cons ⟨hmkdir, rfl⟩ (.nil _)))

/-- The calls that do not ask the sandbox. -/
theorem secret_requested :
    List.Forall (fun c => ∃ st', Run (FileStep quietHost 7) secretState [.call c] st' ∧
        ∃ req ∈ st'.sent, secretPath <+: req.path)
      [FileCall.sysMkdir 4096, .sysRmdir 4096, .sysTruncate 4096, .sysAccess 4096,
        .sysSendfile 3 3 1] := by
  have hsent : ∀ c ∈ [FileCall.sysMkdir 4096, .sysRmdir 4096, .sysTruncate 4096, .sysAccess 4096,
        .sysSendfile 3 3 1],
      ∃ req ∈ (run (c.exec quietHost 7) secretState).2.sent, secretPath <+: req.path := by
    decide +kernel
  rw [forall_iff_forall_mem]
  exact fun c hc => ⟨_, .cons rfl (.nil _), hsent c hc⟩

end TrainOS.Files
