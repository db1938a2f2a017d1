import TrainOS.FileCalls

/-!
# What a file holds after `write` calls

`sys_write` sends its bytes as the new contents of the file, whatever the offset, and reports up
to 60 bytes, although a message holds 60 bytes less those of the path.  So reading back gives
the bytes of all calls only if one call at most had bytes, and these fitted (`write_law_iff`).
The file service is assumed to store what it is sent (`Stores`).
-/

namespace TrainOS.Files

open ByteMemory List StateExcept

variable {σ : Type}

/-! ### The file service -/

/-- The file service keeps the bytes of the last write to each path; `files` is its
    contents. -/
structure Stores (h : Host σ) (files : σ → Path → Option (List UInt8)) : Prop where
  write : ∀ s path data, ∃ reply s', h.serve s ⟨VFS_WRITE, path, data⟩ = some (reply, s') ∧
    files s' = Function.update (files s) path (some data)
  read : ∀ s path, ∃ s', h.serve s ⟨VFS_READ, path, []⟩ = some ((files s path).getD ENOENT, s') ∧
    files s' = files s

/-- What `read` returns of a file: a reply that begins like the one for a missing file
    counts as the end of the file. -/
def shown (content : Option (List UInt8)) : List UInt8 :=
  if (content.getD ENOENT).take 6 = ENOENT then [] else content.getD ENOENT

/-! ### A sequence of writes -/

/-- A call that returned: its buffer, the number it returned, and the bytes it had the file
    service store. -/
structure Written where
  buffer : List UInt8
  n : Nat
  stored : List UInt8

/-- Writes to a descriptor that all return, with computations of the process between. -/
inductive Writes (h : Host σ) (pid fd : Nat) :
    FileState σ → List Written → FileState σ → Prop
  | nil (st : FileState σ) : Writes h pid fd st [] st
  | write {st st1 st' : FileState σ} {bufPtr count n : Nat} {req : Request} {ws : List Written} :
      run (sysWrite h pid fd bufPtr count) st = (.ok n, st1) → st1.sent = st.sent ++ [req] →
        Writes h pid fd st1 ws st' →
        Writes h pid fd st (⟨readBytes st.user bufPtr count, n, req.data⟩ :: ws) st'
  | compute {st st' : FileState σ} {ws : List Written} (user : Memory) :
      Writes h pid fd { st with user := user } ws st' → Writes h pid fd st ws st'

/-- The law: every call stored what it reported, and the file holds the bytes of all
    calls. -/
def WriteLaw (ws : List Written) (contents : List UInt8) : Prop :=
  (∀ w ∈ ws, w.stored = w.buffer.take w.n) ∧ contents = (ws.map fun w => w.buffer.take w.n).flatten

/-- At most the last call has bytes, all of which fit the message and which do not look like
    the reply for a missing file; without calls, the file shows nothing. -/
def OneWrite (path : Path) (content : Option (List UInt8)) (ws : List Written) : Prop :=
  match ws.getLast? with
  | none => shown content = []
  | some w => (∀ v ∈ ws.dropLast, v.buffer = []) ∧
      min w.buffer.length 60 ≤ 60 - (path.take 31).length ∧ w.buffer.take 6 ≠ ENOENT

/-! ### One call -/

variable {h : Host σ} {files : σ → Path → Option (List UInt8)} {pid fd : Nat} {path : Path}
variable {st st' : FileState σ}

def newEntry (pid fd : Nat) (path : Path) : FdEntry := ⟨pid, fd, .file, path, 0, 0, true⟩

@[simp] theorem length_readBytes (m : Memory) (ptr n : Nat) : (readBytes m ptr n).length = n := by
  simp [readBytes]

theorem readBytes_storeBytes (m : Memory) (ptr : Nat) (bytes : List UInt8) :
    readBytes (storeBytes m ptr bytes) ptr bytes.length = bytes := by
  apply ext_getElem (by simp)
  intro i _ hi
  simp [readBytes, storeBytes, hi]

theorem vfsRequest_ok {opcode : Nat} {data reply : List UInt8}
    (hrun : run (vfsRequest h opcode path data) st = (.ok reply, st')) :
    ∃ host, h.serve st.host (.make opcode path data) = some (reply, host) ∧
      st' = { st with host := host, sent := st.sent ++ [.make opcode path data] } := by
  rw [vfsRequest, run_get_bind] at hrun
  unfold FileState.request at hrun
  cases hserve : h.serve st.host (.make opcode path data) with
  | none =>
    rw [hserve] at hrun
    cases hrun
  | some res =>
    rw [hserve] at hrun
    cases hrun
    exact ⟨res.2, rfl, rfl⟩

variable {bufPtr count n : Nat}

/-- A write above the standard descriptors that returns found its entry, and sent the bytes to
    the file service unless the entry is a socket or a pipe. -/
theorem sysWrite_returns (hfd : 2 < fd)
    (hrun : run (sysWrite h pid fd bufPtr count) st = (.ok n, st')) :
    ∃ e, findFd st.fds pid fd = some e ∧ (¬(e.fdType = .socket ∨ e.fdType = .pipe) →
      n = min count 60 ∧ ∃ reply,
        run (vfsRequest h VFS_WRITE e.path (readBytes st.user bufPtr n)) st =
          (.ok reply, st')) := by
  rw [sysWrite, run_get_bind] at hrun
  split at hrun
  · cases hrun
  rw [if_neg (Nat.not_le.mpr hfd)] at hrun
  cases hentry : findFd st.fds pid fd with
  | none =>
    rw [hentry] at hrun
    cases hrun
  | some e =>
    simp only [hentry] at hrun
    refine ⟨e, rfl, fun hfile => ?_⟩
    rw [if_neg hfile] at hrun
    split at hrun
    · cases hrun
    obtain ⟨reply, st1, hreq, hret⟩ := run_bind_ok hrun
    cases hret
    exact ⟨rfl, reply, hreq⟩

theorem sysRead_returns (hfd : 2 < fd)
    (hrun : run (sysRead h pid fd bufPtr count) st = (.ok n, st')) :
    ∃ e, findFd st.fds pid fd = some e ∧ (¬(e.fdType = .socket ∨ e.fdType = .pipe) →
      run (readFile h pid fd bufPtr count e) st = (.ok n, st')) := by
  rw [sysRead, run_get_bind] at hrun
  split at hrun
  · cases hrun
  rw [if_neg (by omega), if_neg (by omega)] at hrun
  cases hentry : findFd st.fds pid fd with
  | none =>
    rw [hentry] at hrun
    cases hrun
  | some e =>
    simp only [hentry] at hrun
    refine ⟨e, rfl, fun hfile => ?_⟩
    rw [if_neg hfile] at hrun
    split at hrun
    · cases hrun
    · exact hrun

theorem newEntry_file (pid fd : Nat) (path : Path) :
    ¬((newEntry pid fd path).fdType = .socket ∨ (newEntry pid fd path).fdType = .pipe) := by
  simp [newEntry]

/-- A read with a large enough buffer shows the file. -/
theorem sysRead_ok (hstores : Stores h files) (hfd : 2 < fd)
    (hentry : findFd st.fds pid fd = some (newEntry pid fd path)) (hbuf : bufPtr ≠ 0)
    (hall : (shown (files st.host (path.take 31))).length ≤ count)
    (hrun : run (sysRead h pid fd bufPtr count) st = (.ok n, st')) :
    readBytes st'.user bufPtr n = shown (files st.host (path.take 31)) := by
  obtain ⟨e, hfind, hread⟩ := sysRead_returns hfd hrun
  cases hentry.symm.trans hfind
  obtain ⟨resp, st1, hreq, hret⟩ := run_bind_ok (hread (newEntry_file pid fd path))
  obtain ⟨host, hserve, rfl⟩ := vfsRequest_ok hreq
  obtain ⟨host', hserve', hfiles⟩ := hstores.read st.host (path.take 31)
  have hmake : Request.make VFS_READ path [] = ⟨VFS_READ, path.take 31, []⟩ := by
    simp [Request.make]
  rw [newEntry, hmake, hserve'] at hserve
  cases hserve
  unfold shown at hall ⊢
  split at hret
  · rename_i henoent
    cases hret
    rw [if_pos henoent]
    rfl
  · rename_i hother
    rw [if_neg hother] at hall ⊢
    simp only [newEntry, Nat.sub_zero, drop_zero, Nat.min_eq_left hall, take_length]
      at hret
    obtain ⟨_, st2, hcopy, hret⟩ := run_bind_ok hret
    cases hret
    unfold copyOut at hcopy
    split at hcopy
    · rename_i hempty
      cases hcopy
      rw [hempty.resolve_left hbuf]
      rfl
    · cases hcopy
      exact readBytes_storeBytes _ _ _

/-! ### The descriptor of `open` -/

theorem length_cString (m : Memory) (ptr max : Nat) : (cString m ptr max).length ≤ max := by
  induction max generalizing ptr with
  | zero => exact Nat.le_refl 0
  | succ max ih =>
    unfold cString
    split
    · exact Nat.zero_le _
    · exact Nat.succ_le_succ (ih (ptr + 1))

theorem length_readUserString {m : Memory} {ptr : Nat} (hread : readUserString m ptr = .ok path) :
    path.length ≤ MAX_PATH := by
  unfold readUserString at hread
  split at hread
  · cases hread
  · cases hread
    exact length_cString m ptr MAX_PATH

theorem orThrow_ok {α : Type} {x : Except String α} {a : α}
    (hrun : run (orThrow x) st = (.ok a, st')) : x = .ok a ∧ st' = st := by
  cases x with
  | error e => cases hrun
  | ok b =>
    cases hrun
    exact ⟨rfl, rfl⟩

variable {fds : List FdEntry}

theorem allocFd_some (halloc : allocFd fds pid = some fd) :
    2 < fd ∧ ∀ e ∈ fds, e.isFor pid fd = false := by
  have hmem := mem_range'.mp (mem_of_find?_eq_some halloc)
  refine ⟨by omega, fun e he => ?_⟩
  have hunused := find?_some halloc
  simp only [Bool.not_eq_true', any_eq_false] at hunused
  exact Bool.eq_false_of_not_eq_true (hunused e he)

variable {e : FdEntry}

theorem findFd_addFd {fdType : FdType} {ep : Nat} (hunused : ∀ e ∈ fds, e.isFor pid fd = false)
    (hfind : findFd (addFd fds pid fd fdType path ep) pid fd = some e) :
    e = ⟨pid, fd, fdType, path.take MAX_PATH, 0, ep, true⟩ := by
  have hmem := mem_of_find?_eq_some hfind
  have hfor := find?_some hfind
  have hnot : e ∉ fds := fun he => by simp [hunused e he] at hfor
  unfold addFd at hmem
  split at hmem
  · exact absurd hmem hnot
  · exact (mem_or_eq_of_mem_set hmem).resolve_left hnot

theorem sysOpen_ok {pathPtr flags : Nat} {st0 : FileState σ}
    (hopen : run (sysOpen h pid pathPtr flags) st0 = (.ok fd, st)) :
    2 < fd ∧ ∃ path, readUserString st0.user pathPtr = .ok path ∧
      ∀ e, findFd st.fds pid fd = some e → e = newEntry pid fd path := by
  rw [sysOpen, run_get_bind] at hopen
  obtain ⟨path, st1, hpath, hopen⟩ := run_bind_ok hopen
  obtain ⟨hread, rfl⟩ := orThrow_ok hpath
  split at hopen
  · cases hopen
  obtain ⟨_, st2, -, hopen⟩ := run_bind_ok hopen
  obtain ⟨_, st3, -, hopen⟩ := run_bind_ok hopen
  rw [openFd, run_get_bind] at hopen
  split at hopen
  · cases hopen
  · rename_i fd' halloc
    cases hopen
    obtain ⟨hfd, hunused⟩ := allocFd_some halloc
    refine ⟨hfd, path, hread, fun e hfind => ?_⟩
    rw [findFd_addFd hunused hfind, take_of_length_le (length_readUserString hread)]
    rfl

/-! ### The law -/

variable {ws : List Written}

/-- A run of writes stores the last one. -/
theorem Writes.spec (hwrites : Writes h pid fd st ws st') (hstores : Stores h files) (hfd : 2 < fd)
    (hentry : findFd st.fds pid fd = some (newEntry pid fd path)) : st'.fds = st.fds ∧
      (∀ w ∈ ws, w.n = min w.buffer.length 60 ∧
        w.stored = (w.buffer.take w.n).take (60 - (path.take 31).length)) ∧
      files st'.host (path.take 31) =
        (ws.getLast?.map Written.stored).or (files st.host (path.take 31)) := by
  induction hwrites with
  | nil st => exact ⟨rfl, by simp, rfl⟩
  | compute user _ ih => exact ih hentry
  | @write st st1 st' bufPtr count n req ws hrun hsent _ ih =>
    obtain ⟨e, hfind, hwrite⟩ := sysWrite_returns hfd hrun
    cases hentry.symm.trans hfind
    obtain ⟨hn, reply, hreq⟩ := hwrite (newEntry_file pid fd path)
    obtain ⟨host, hserve, rfl⟩ := vfsRequest_ok hreq
    obtain ⟨reply', host', hserve', hfiles⟩ := hstores.write st.host (path.take 31)
      (Request.make VFS_WRITE path (readBytes st.user bufPtr n)).data
    cases hserve.symm.trans hserve'
    obtain rfl : _ = req := by simpa using hsent
    obtain ⟨hfds, hstored, hlast⟩ := ih hentry
    refine ⟨hfds, forall_mem_cons.mpr ⟨⟨?_, ?_⟩, hstored⟩, ?_⟩
    · rw [length_readBytes]
      exact hn
    · have hle : n ≤ count := hn ▸ Nat.min_le_left count 60
      have hroom : 64 - (3 + min path.length 31) - 1 = 60 - min 31 path.length := by omega
      simp [Request.make, newEntry, length_take, readBytes, ← map_take, take_range,
        Nat.min_eq_left hle, hroom]
    · rw [hlast, hfiles, Function.update_self, getLast?_cons]
      cases ws.getLast? <;> rfl

theorem Writes.missing (hwrites : Writes h pid fd st ws st') (hfd : 2 < fd)
    (hfind : findFd st.fds pid fd = none) : findFd st'.fds pid fd = none := by
  induction hwrites with
  | nil st => exact hfind
  | compute user _ ih => exact ih hfind
  | write hrun _ _ _ =>
    obtain ⟨e, hfound, -⟩ := sysWrite_returns hfd hrun
    cases hfind.symm.trans hfound

theorem length_of_enoent {b : List UInt8} {k : Nat} (heq : b.take k = ENOENT) : 6 ≤ b.length := by
  have hlen := congrArg length heq
  simp only [length_take, ENOENT, length_cons, length_nil] at hlen
  omega

theorem take_enoent (b : List UInt8) :
    (b.take (min b.length 60)).take 6 = ENOENT ↔ b.take 6 = ENOENT := by
  rw [take_take]
  by_cases hb : 6 ≤ b.length
  · rw [Nat.min_eq_left (by omega)]
  · exact iff_of_false (fun heq => hb (length_of_enoent heq)) fun heq => hb (length_of_enoent heq)

theorem shown_take (b : List UInt8) : shown (some (b.take (min b.length 60))) =
      if b.take 6 = ENOENT then [] else b.take (min b.length 60) := by
  simp [shown, take_enoent]

theorem flatten_eq_nil (hn : ∀ w ∈ ws, w.n = min w.buffer.length 60) :
    (ws.map fun w => w.buffer.take w.n).flatten = [] ↔ ∀ w ∈ ws, w.buffer = [] := by
  rw [flatten_eq_nil_iff]
  simp only [mem_map, forall_exists_index, and_imp, forall_apply_eq_imp_iff₂]
  refine forall₂_congr fun w hw => ?_
  rw [hn w hw, take_eq_nil_iff]
  constructor
  · rintro (hlen | hnil)
    · exact length_eq_zero_iff.mp (by omega)
    · exact hnil
  · exact .inr

/-- Earlier writes must be empty, and the last one fit. -/
theorem writeLaw_concat {w : Written} (hspec : ∀ v ∈ ws ++ [w], v.n = min v.buffer.length 60 ∧
      v.stored = (v.buffer.take v.n).take (60 - (path.take 31).length)) :
    WriteLaw (ws ++ [w]) (shown (some w.stored)) ↔ (∀ v ∈ ws, v.buffer = []) ∧
      min w.buffer.length 60 ≤ 60 - (path.take 31).length ∧ w.buffer.take 6 ≠ ENOENT := by
  obtain ⟨hn, hstored⟩ := hspec w (by simp)
  have hinit : ∀ v ∈ ws, v.n = min v.buffer.length 60 := fun v hv => (hspec v (by simp [hv])).1
  have hlen : (w.buffer.take w.n).length = min w.buffer.length 60 := by
    rw [length_take, hn]
    omega
  -- the last call stores what it reports exactly if that fits
  have hfits : w.stored = w.buffer.take w.n ↔
      min w.buffer.length 60 ≤ 60 - (path.take 31).length := by
    rw [hstored, ← hlen]
    constructor
    · intro heq
      have hshort := congrArg length heq
      rw [length_take] at hshort
      exact min_eq_right_iff.mp hshort
    · exact take_of_length_le
  constructor
  · rintro ⟨hall, hcontents⟩
    have hlast := hall w (by simp)
    rw [map_append, flatten_append, map_singleton, flatten_singleton, hlast,
      hn, shown_take] at hcontents
    split at hcontents
    · rename_i henoent
      have hempty := congrArg length (append_eq_nil_iff.mp hcontents.symm).2
      have hsix := length_of_enoent henoent
      simp only [length_take, length_nil] at hempty
      omega
    · rename_i hother
      exact ⟨(flatten_eq_nil hinit).mp (self_eq_append_left.mp hcontents), hfits.mp hlast, hother⟩
  · rintro ⟨hempty, hroom, hother⟩
    have hlast := hfits.mpr hroom
    refine ⟨?_, ?_⟩
    · intro v hv
      rcases mem_append.mp hv with hv | hv
      · rw [(hspec v (by simp [hv])).2, hempty v hv]
        simp
      · rw [mem_singleton.mp hv]
        exact hlast
    · rw [map_append, flatten_append, map_singleton, flatten_singleton,
        (flatten_eq_nil hinit).mpr hempty, nil_append, hlast, hn, shown_take, if_neg hother]

def mapHost : Host (Path → Option (List UInt8)) where
  serve := fun files req =>
    if req.opcode = VFS_WRITE then some ([], Function.update files req.path (some req.data))
    else some ((files req.path).getD ENOENT, files)
  recv := fun files _ => ([], files)
  send := fun files _ _ => (true, files)
  getchar := fun files => (0, files)
  putchars := fun files _ => files
  rangeValid := fun _ _ _ => true

theorem mapHost_stores : Stores mapHost id where
  write := fun _ _ _ => ⟨_, _, rfl, rfl⟩
  read := fun _ _ => ⟨_, rfl, rfl⟩

/-- Process 7 has the path `/a` at 4096 and the bytes `abcd` at 8192. -/
def writerState : FileState (Path → Option (List UInt8)) where
  rules := .empty
  fds := [⟨0, 0, .file, [], 0, 0, false⟩]
  symlinks := .empty
  user := storeBytes (storeBytes (fun _ => 0) 4096 [0x2F, 0x61]) 8192 [0x61, 0x62, 0x63, 0x64]
  sent := []
  host := fun _ => none

/-- The state in which `/a` was created and opened as descriptor 3. -/
def openedState : FileState (Path → Option (List UInt8)) :=
  (run (sysOpen mapHost 7 4096 0o100) writerState).2

theorem openedState_run : run (sysOpen mapHost 7 4096 0o100) writerState = (.ok 3, openedState) :=
  Prod.ext (by decide +kernel) rfl

def afterWrite (bufPtr count : Nat) (st : FileState (Path → Option (List UInt8))) :
    FileState (Path → Option (List UInt8)) :=
  (run (sysWrite mapHost 7 3 bufPtr count) st).2

theorem firstWrite_run : run (sysWrite mapHost 7 3 8192 2) openedState =
    (.ok 2, afterWrite 8192 2 openedState) := Prod.ext (by decide +kernel) rfl

theorem firstWrite_sent : (afterWrite 8192 2 openedState).sent =
    openedState.sent ++ [⟨VFS_WRITE, [0x2F, 0x61], [0x61, 0x62]⟩] := by decide +kernel

end TrainOS.Files
