import TrainOS.FileService
import TrainOS.SlotMap

/-!
# The file service as a finite map

`FileMap` is a finite map from paths to files of at most 64 bytes, with the reply of each
request (`Answers`) and its effect (`FileMap.update`) said without slots; `files` reads the map
off the slots.  `served` is the condition under which one request is answered as the map says
(`serve_spec`), `refines_map` the run.
-/

namespace TrainOS.FileService

open Files (Path)
open FixedBuffer Function List Option

/-! ### The map -/

structure File where
  contents : List UInt8
  isDir : Bool
  contents_le : contents.length ≤ SLOT_SIZE
deriving DecidableEq

abbrev FileMap := Finmap fun _ : Path => File

/-- The file a WRITE or an APPEND starts from: the one there, or an empty one. -/
def FileMap.fileAt (files : FileMap) (path : Path) : File :=
  (files.lookup path).getD ⟨[], false, Nat.zero_le _⟩

theorem Message.length_data_le (m : Message) : m.data.length ≤ SLOT_SIZE := by
  unfold Message.data
  split
  · exact (length_take_le _ _).trans (Nat.min_le_right _ _)
  · exact Nat.zero_le _

def FileMap.update (files : FileMap) (m : Message) : FileMap :=
  match m.opcode with
  | 3 => files.insert m.path ⟨m.data, (files.fileAt m.path).isDir, m.length_data_le⟩
  | 4 => files.insert m.path
      ⟨((files.fileAt m.path).contents ++ m.data).take SLOT_SIZE, (files.fileAt m.path).isDir,
        length_take_le _ _⟩
  | 5 => files.erase m.path
  | _ => files

def padded (contents : List UInt8) : List UInt8 :=
  contents ++ replicate (SLOT_SIZE - contents.length) 0

/-- The path is directly below the directory. -/
def IsChild (dir p : Path) : Prop :=
  dir <+: p ∧ dir.length < p.length ∧ 0x2F ∉ p.drop dir.length

instance (dir p : Path) : Decidable (IsChild dir p) := inferInstanceAs (Decidable (_ ∧ _ ∧ _))

def FileMap.children (files : FileMap) (dir : Path) : Finset Path :=
  files.keys.filter fun p => IsChild dir p

/-- The lines that fit into sixty-four bytes, in the order given. -/
def fitLines : List (List UInt8) → List UInt8 → List UInt8
  | [], listing => listing
  | line :: lines, listing =>
      fitLines lines (if listing.length + line.length ≤ 64 then listing ++ line else listing)

/-- **The replies of the map.**  A listing has every child once, in any order, as long as it
fits. -/
def Answers (files : FileMap) (m : Message) (reply : Option (List UInt8)) : Prop :=
  match m.opcode with
  | 2 => reply = some ((files.lookup m.path).elim ENOENT fun f => padded f.contents)
  | 3 => reply = some OK
  | 4 => reply = some OK
  | 5 => reply = some OK
  | 6 => ∃ order : List Path, order.Nodup ∧ order.toFinset = files.children m.path ∧
      reply = some (fitLines (order.map fun p => p.drop m.path.length ++ [0x0A]) [])
  | 7 => reply = some ((files.lookup m.path).elim ENOENT fun f =>
      [UInt8.ofNat f.contents.length, if f.isDir then 1 else 0])
  | _ => reply = none

variable {m : Message}

theorem FileMap.update_eq_self (files : FileMap) (hwrite : m.opcode ≠ 3)
    (happend : m.opcode ≠ 4) (hdelete : m.opcode ≠ 5) : files.update m = files := by
  unfold FileMap.update
  split <;> first | contradiction | rfl

/-! ### The map in the slots -/

theorem FileSlot.length_contents_le (s : FileSlot) :
    (s.data.toList.take s.dataLen).length ≤ SLOT_SIZE := by
  rw [length_take, Vector.length_toList]
  exact Nat.min_le_right _ _

def FileSlot.file (s : FileSlot) : File :=
  ⟨s.data.toList.take s.dataLen, s.isDir, s.length_contents_le⟩

theorem FileSlot.file_contents (s : FileSlot) :
    s.file.contents = s.data.toList.take s.dataLen := rfl

def FileSlot.entry (s : FileSlot) : Option (Sigma fun _ : Path => File) :=
  if s.used then some ⟨s.path, s.file⟩ else none

def files (slots : Slots) : FileMap := SlotMap.toMap FileSlot.entry slots

variable {s : FileSlot}

theorem FileSlot.entry_used (h : s.used) : s.entry = some ⟨s.path, s.file⟩ :=
  if_pos h

variable {p : Path}

theorem holds_iff : SlotMap.Holds FileSlot.entry s p ↔ s.used ∧ s.path = p := by
  constructor
  · rintro ⟨v, hv⟩
    unfold FileSlot.entry at hv
    split at hv
    · rename_i hused
      rw [some_inj] at hv
      exact ⟨hused, (Sigma.mk.inj hv).1⟩
    · cases hv
  · rintro ⟨hused, rfl⟩
    exact ⟨s.file, s.entry_used hused⟩

/-- No path is in two used slots, and no length is above the size of a slot. -/
structure WellFormed (slots : Slots) : Prop where
  distinct : SlotMap.Distinct FileSlot.entry slots
  bounded : ∀ i, (slots i).dataLen ≤ SLOT_SIZE

section Finding

variable {slots : Slots} {p : Path} {i : Fin MAX_FILES}

theorem holds_of_findSlot (h : findSlot slots p = some i) :
    SlotMap.Holds FileSlot.entry (slots i) p := by
  have hfound := find?_some h
  rw [Bool.and_eq_true, beq_iff_eq] at hfound
  exact holds_iff.mpr hfound

theorem not_holds_of_findSlot (h : findSlot slots p = none) (j : Fin MAX_FILES) :
    ¬ SlotMap.Holds FileSlot.entry (slots j) p := by
  intro hj
  have hnot := find?_eq_none.mp h j (mem_finRange j)
  rw [Bool.and_eq_true, beq_iff_eq] at hnot
  exact hnot (holds_iff.mp hj)

theorem lookup_files (hwf : WellFormed slots) (h : findSlot slots p = some i) :
    (files slots).lookup p = some (slots i).file := by
  obtain ⟨hused, rfl⟩ := holds_iff.mp (holds_of_findSlot h)
  exact SlotMap.lookup_toMap hwf.distinct (FileSlot.entry_used hused)

theorem lookup_files_none (h : findSlot slots p = none) : (files slots).lookup p = none :=
  SlotMap.lookup_toMap_eq_none (not_holds_of_findSlot h)

theorem available_of_firstUnused (hfind : findSlot slots p = none)
    (hfree : firstUnused slots = some i) :
    SlotMap.Available FileSlot.entry slots i p where
  own := by
    intro k hk
    have hused := (holds_iff.mp hk).1
    have hunused := find?_some hfree
    simp [hused] at hunused
  others := fun j _ => not_holds_of_findSlot hfind j

theorem WellFormed.bounded_update (hwf : WellFormed slots)
    (hlen : s.dataLen ≤ SLOT_SIZE) (j : Fin MAX_FILES) :
    (update slots i s j).dataLen ≤ SLOT_SIZE := by
  rcases eq_or_ne j i with rfl | hj
  · rwa [update_self]
  · rw [update_of_ne hj]
    exact hwf.bounded j

theorem WellFormed.store (hwf : WellFormed slots) {contents : List UInt8}
    {isDir : Bool} {hle : contents.length ≤ SLOT_SIZE}
    (hav : SlotMap.Available FileSlot.entry slots i p) (hused : s.used) (hpath : s.path = p)
    (hlen : s.dataLen ≤ SLOT_SIZE) (hcontents : s.data.toList.take s.dataLen = contents)
    (hdir : s.isDir = isDir) : WellFormed (update slots i s) ∧
      files (update slots i s) = (files slots).insert p ⟨contents, isDir, hle⟩ := by
  subst hcontents hdir hpath
  have hentry : s.entry = some ⟨s.path, s.file⟩ := FileSlot.entry_used hused
  exact ⟨⟨hwf.distinct.put hav hentry, hwf.bounded_update hlen⟩,
    SlotMap.toMap_put hwf.distinct hav hentry⟩

end Finding

/-! ### The condition -/

/-- The bytes that a WRITE or an APPEND announces are in the message. -/
def Message.fits (m : Message) : Bool := decide (m.dataOff + 1 + m.dlen ≤ 64)

/-- **When a message is served as the map serves it.**  A READ has a path of at least five
bytes that matches no name of `/proc`, or a shorter one that is no file.  The data of a
WRITE is in the message, and its path has a slot or a slot is unused.  So for an APPEND,
where the data may be missing when the file is full, and the unused slot must not keep the
length of a deleted file. -/
def served (slots : Slots) (m : Message) : Bool :=
  match m.opcode with
  | 2 => if 5 ≤ m.pathLen then (ProcFile.ofPath m.path).isNone
      else (findSlot slots m.path).isNone
  | 3 => m.fits && ((findSlot slots m.path).isSome || (firstUnused slots).isSome)
  | 4 =>
      match findSlot slots m.path with
      | some i => m.fits || (slots i).dataLen == SLOT_SIZE
      | none => m.fits && (firstUnused slots).any fun i => (slots i).dataLen == 0
  | _ => true

/-! ### Requests -/

section Requests

variable {slots : Slots} {m : Message}

theorem Message.length_path_le (m : Message) : m.path.length ≤ MAX_PATH :=
  (length_take_le _ _).trans (Nat.min_le_right _ _)

theorem Message.length_data (h : m.fits) : m.data.length = m.dlen := by
  have hle : m.dataOff + 1 + m.dlen ≤ 64 := of_decide_eq_true h
  rw [Message.data, if_pos hle, length_take, length_drop, Vector.length_toList]
  omega

theorem readSlot_spec (slot : FileSlot) :
    ∃ v, readSlot slot = some v ∧ v.toList = padded slot.file.contents := by
  have hsrc : min slot.dataLen SLOT_SIZE ≤ slot.data.toList.length := by
    rw [Vector.length_toList]
    exact Nat.min_le_right _ _
  have hdst : 0 + min slot.dataLen SLOT_SIZE ≤ SLOT_SIZE := by
    rw [Nat.zero_add]
    exact Nat.min_le_right _ _
  obtain ⟨v, hv, hlist⟩ := copyInto_spec (Vector.replicate SLOT_SIZE 0) hsrc hdst
  refine ⟨v, hv, ?_⟩
  have hlen : (slot.data.toList.take slot.dataLen).length = min slot.dataLen SLOT_SIZE := by
    rw [length_take, Vector.length_toList]
  have htake : slot.data.toList.take (min slot.dataLen SLOT_SIZE) =
      slot.data.toList.take slot.dataLen := by
    rw [← take_take, take_of_length_le (Nat.le_of_eq Vector.length_toList)]
  rw [hlist, padded, FileSlot.file, hlen, htake, Vector.toList_replicate, drop_replicate,
    take_zero, nil_append, Nat.zero_add]

theorem take_append_data {old data v : List UInt8} {curLen dlen newLen : Nat}
    (hold : old.length = SLOT_SIZE) (hcur : curLen ≤ SLOT_SIZE)
    (hnew : newLen = min (curLen + dlen) SLOT_SIZE)
    (hdata : data.length = dlen ∨ curLen = SLOT_SIZE)
    (hv : v = old.take curLen ++ data.take (newLen - curLen) ++
      old.drop (curLen + (newLen - curLen))) :
    v.take newLen = (old.take curLen ++ data).take SLOT_SIZE := by
  have hfront : (old.take curLen ++ data.take (newLen - curLen)).length = newLen := by
    rw [length_append, length_take, length_take]
    omega
  have htake : (old.take curLen).length = curLen := by
    rw [length_take]
    omega
  have hwhole : (old.take curLen).take SLOT_SIZE = old.take curLen :=
    take_of_length_le (htake.trans_le hcur)
  have htail : data.take (newLen - curLen) = data.take (SLOT_SIZE - curLen) := by
    rcases hdata with hlen | hfull
    · rcases Nat.le_total (curLen + dlen) SLOT_SIZE with hfit | hcut
      · rw [take_of_length_le (by omega), take_of_length_le (by omega)]
      · rw [hnew, Nat.min_eq_right hcut]
    · rw [hnew, hfull, Nat.min_eq_right (Nat.le_add_right _ _)]
  calc v.take newLen = old.take curLen ++ data.take (newLen - curLen) := by
        rw [hv, take_left' hfront]
    _ = (old.take curLen ++ data).take SLOT_SIZE := by
        rw [take_append, hwhole, htake, htail]

section

variable (hwf : WellFormed slots)
include hwf

theorem serveRead_spec (hop : m.opcode = 2) (h : served slots m) :
    serveRead slots m =
      some (((files slots).lookup m.path).elim ENOENT fun f => padded f.contents) := by
  simp only [served, hop] at h
  by_cases hlong : 5 ≤ m.pathLen
  · rw [if_pos hlong, isNone_iff_eq_none] at h
    have hproc : procRead m.info m.path = some none := by rw [procRead, h]
    cases hfind : findSlot slots m.path with
    | none =>
      simp [serveRead, hproc, hfind, lookup_files_none hfind, bind_eq_bind, bind_some,
        elim_none, Option.pure_def]
    | some idx =>
      obtain ⟨v, hv, hlist⟩ := readSlot_spec (slots idx)
      simp [serveRead, if_pos hlong, hproc, hfind, lookup_files hwf hfind, hv, hlist]
  · rw [if_neg hlong, isNone_iff_eq_none] at h
    simp [serveRead, if_neg hlong, lookup_files_none h]

/-- The slot a WRITE or an APPEND goes to: the one with the path, or a new one with the length
of the file that was there before. -/
theorem slotFor_spec (hp : p.length ≤ MAX_PATH)
    (hroom : (findSlot slots p).isSome ∨ (firstUnused slots).isSome) :
    ∃ i s, slotFor slots p = (i, update slots i s) ∧
      SlotMap.Available FileSlot.entry slots i p ∧ s.used ∧ s.path = p ∧
      s.isDir = ((files slots).fileAt p).isDir ∧ s.dataLen = (slots i).dataLen ∧
      (findSlot slots p = some i ∧ s.file.contents = ((files slots).fileAt p).contents ∨
        findSlot slots p = none ∧ firstUnused slots = some i ∧
          ((files slots).fileAt p).contents = []) := by
  cases hfind : findSlot slots p with
  | some i =>
    have hholds := holds_of_findSlot hfind
    obtain ⟨hused, hpath⟩ := holds_iff.mp hholds
    have hfile : (files slots).fileAt p = (slots i).file := by
      rw [FileMap.fileAt, lookup_files hwf hfind, getD_some]
    refine ⟨i, slots i, ?_, hwf.distinct.available hholds, hused, hpath, ?_, rfl, ?_⟩
    · rw [slotFor, hfind, update_eq_self]
    · rw [hfile]
      rfl
    · exact .inl ⟨rfl, by rw [hfile]⟩
  | none =>
    rw [hfind, isSome_none] at hroom
    obtain ⟨i, hfree⟩ := isSome_iff_exists.mp (hroom.resolve_left (by decide))
    have hfile : (files slots).fileAt p = ⟨[], false, Nat.zero_le _⟩ := by
      rw [FileMap.fileAt, lookup_files_none hfind, getD_none]
    simp only [slotFor, hfind, makeSlot, hfree]
    refine ⟨i, _, rfl, available_of_firstUnused hfind hfree, rfl, take_of_length_le hp, ?_,
      rfl, ?_⟩
    · rw [hfile]
    · exact .inr ⟨trivial, rfl, by rw [hfile]⟩

theorem serveWrite_spec (hop : m.opcode = 3) (h : served slots m) :
    ∃ slots', serveWrite slots m = some slots' ∧ WellFormed slots' ∧
      files slots' = (files slots).update m := by
  simp only [served, hop, Bool.and_eq_true, Bool.or_eq_true] at h
  obtain ⟨hfits, hroom⟩ := h
  obtain ⟨i, s, hslot, hav, hused, hpath, hdir, -, -⟩ :=
    slotFor_spec hwf m.length_path_le hroom
  have hlen : m.data.length = m.dlen := Message.length_data hfits
  have hdlen : 0 + m.dlen ≤ SLOT_SIZE := (Nat.zero_add _).trans_le (Nat.min_le_right _ _)
  obtain ⟨v, hv, hlist⟩ := copyInto_spec s.data hlen.ge hdlen
  have hcontents : v.toList.take m.dlen = m.data := by
    rw [hlist, take_zero, nil_append, ← hlen, take_length, take_left]
  refine ⟨update slots i { s with data := v, dataLen := m.dlen, dirty := true }, ?_, ?_⟩
  · simp [serveWrite, hslot, hv]
  · simp only [FileMap.update, hop]
    exact hwf.store hav hused hpath (Nat.min_le_right _ _) hcontents hdir

/-- An append does to the slots what it does to the files. -/
theorem serveAppend_spec (hop : m.opcode = 4) (h : served slots m) :
    ∃ slots', serveAppend slots m = some slots' ∧ WellFormed slots' ∧
      files slots' = (files slots).update m := by
  simp only [served, hop] at h
  have hroom : (findSlot slots m.path).isSome ∨ (firstUnused slots).isSome := by
    cases hfind : findSlot slots m.path with
    | some i => exact .inl rfl
    | none =>
      simp only [hfind, Bool.and_eq_true] at h
      exact .inr (isSome_of_any h.2)
  obtain ⟨i, s, hslot, hav, hused, hpath, hdir, hslen, hold⟩ :=
    slotFor_spec hwf m.length_path_le hroom
  -- the slot starts with the contents of the map, and the data reach as far as it has room
  have hstart : s.file.contents = ((files slots).fileAt m.path).contents ∧
      (m.data.length = m.dlen ∨ s.dataLen = SLOT_SIZE) := by
    rcases hold with ⟨hfind, hcontents⟩ | ⟨hfind, hfree, hempty⟩
    · simp only [hfind, Bool.or_eq_true, beq_iff_eq] at h
      exact ⟨hcontents, h.imp Message.length_data hslen.trans⟩
    · simp only [hfind, hfree, Bool.and_eq_true, any_some, beq_iff_eq] at h
      refine ⟨?_, .inl (Message.length_data h.1)⟩
      rw [hempty, FileSlot.file_contents, hslen, h.2, take_zero]
  obtain ⟨hcontents, hdata⟩ := hstart
  have hcur : s.dataLen ≤ SLOT_SIZE := hslen.trans_le (hwf.bounded i)
  have hnew : ¬ min (s.dataLen + m.dlen) SLOT_SIZE < s.dataLen := by omega
  have hsrc : min (s.dataLen + m.dlen) SLOT_SIZE - s.dataLen ≤ m.data.length := by omega
  have hdst : s.dataLen + (min (s.dataLen + m.dlen) SLOT_SIZE - s.dataLen) ≤ SLOT_SIZE := by
    omega
  obtain ⟨v, hv, hlist⟩ := copyInto_spec s.data hsrc hdst
  have hfile : v.toList.take (min (s.dataLen + m.dlen) SLOT_SIZE) =
      (((files slots).fileAt m.path).contents ++ m.data).take SLOT_SIZE := by
    rw [← hcontents]
    exact take_append_data Vector.length_toList hcur rfl hdata hlist
  refine ⟨update slots i
    { s with data := v, dataLen := min (s.dataLen + m.dlen) SLOT_SIZE, dirty := true }, ?_, ?_⟩
  · simp only [serveAppend, hslot, update_self, if_neg hnew, hv, update_idem,
      bind_eq_bind, bind_some, Option.pure_def]
  · simp only [FileMap.update, hop]
    exact hwf.store hav hused hpath (Nat.min_le_right _ _) hfile hdir

theorem serveDelete_spec (hop : m.opcode = 5) :
    WellFormed (serveDelete slots m) ∧
      files (serveDelete slots m) = (files slots).update m := by
  simp only [FileMap.update, hop]
  cases hfind : findSlot slots m.path with
  | none =>
    rw [serveDelete, hfind]
    exact ⟨hwf, (SlotMap.toMap_erase_absent (not_holds_of_findSlot hfind)).symm⟩
  | some i =>
    have hnone : FileSlot.entry { slots i with used := false } = none := rfl
    rw [serveDelete, hfind]
    exact ⟨⟨hwf.distinct.free i hnone, hwf.bounded_update (hwf.bounded i)⟩,
      SlotMap.toMap_free hwf.distinct (holds_of_findSlot hfind) hnone⟩

end

/-! ### Listings -/

theorem listSlot_eq (dir : Path) (listing : List UInt8) (slot : FileSlot) :
    listSlot dir listing slot =
      if slot.used ∧ IsChild dir slot.path then
        fitLines [slot.path.drop dir.length ++ [0x0A]] listing
      else listing := by
  unfold listSlot IsChild
  by_cases hused : slot.used
  · by_cases hprefix : dir <+: slot.path <;> by_cases hlen : dir.length < slot.path.length <;>
      by_cases hslash : 0x2F ∈ slot.path.drop dir.length <;>
      simp [hused, hprefix, hlen, hslash, fitLines, Nat.add_assoc]
  · simp [hused]

/-- The paths below a directory in the order of the given slots. -/
def childList (slots : Slots) (dir : Path) (is : List (Fin MAX_FILES)) : List Path :=
  (is.filterMap fun i => (slots i).entry.map Sigma.fst).filter fun p => decide (IsChild dir p)

theorem foldl_listSlot (slots : Slots) (dir : Path) (is : List (Fin MAX_FILES))
    (listing : List UInt8) : is.foldl (fun listing i => listSlot dir listing (slots i)) listing =
      fitLines ((childList slots dir is).map fun p => p.drop dir.length ++ [0x0A]) listing := by
  induction is generalizing listing with
  | nil => rfl
  | cons i is ih =>
    rw [foldl_cons, ih, listSlot_eq]
    by_cases hused : (slots i).used
    · by_cases hchild : IsChild dir (slots i).path
      · simp [childList, FileSlot.entry, hused, hchild, fitLines]
      · simp [childList, FileSlot.entry, hused, hchild]
    · simp [childList, FileSlot.entry, hused]

theorem serveList_spec (hwf : WellFormed slots) :
    ∃ order : List Path, order.Nodup ∧ order.toFinset = (files slots).children m.path ∧
      serveList slots m = fitLines (order.map fun p => p.drop m.path.length ++ [0x0A]) [] := by
  refine ⟨childList slots m.path (finRange MAX_FILES), ?_, ?_,
    foldl_listSlot slots m.path _ []⟩
  · exact (SlotMap.nodup_keyList hwf.distinct).filter _
  · ext p
    rw [List.mem_toFinset, childList, mem_filter, FileMap.children, Finset.mem_filter,
      Finmap.mem_keys, files, SlotMap.mem_toMap, decide_eq_true_iff]
    exact and_congr_left fun _ => SlotMap.mem_keyList

/-- A request is answered from the files and changes them as asked. -/
theorem serve_spec (hwf : WellFormed slots) (h : served slots m) :
    ∃ reply slots', serve slots m = some (reply, slots') ∧ Answers (files slots) m reply ∧
      WellFormed slots' ∧ files slots' = (files slots).update m := by
  have hsame : m.opcode ≠ 3 ∧ m.opcode ≠ 4 ∧ m.opcode ≠ 5 →
      (files slots).update m = files slots :=
    fun h => FileMap.update_eq_self _ h.1 h.2.1 h.2.2
  unfold serve
  split
  case h_1 hop =>
    refine ⟨_, slots, by rw [serveRead_spec hwf hop h]; rfl, ?_, hwf, (hsame ?_).symm⟩
    · simp [Answers, hop]
    · simp [hop]
  case h_2 hop =>
    obtain ⟨slots', hwrite, hwf', hfiles⟩ := serveWrite_spec hwf hop h
    refine ⟨some OK, slots', by rw [hwrite]; rfl, ?_, hwf', hfiles⟩
    simp [Answers, hop]
  case h_3 hop =>
    obtain ⟨slots', happend, hwf', hfiles⟩ := serveAppend_spec hwf hop h
    refine ⟨some OK, slots', by rw [happend]; rfl, ?_, hwf', hfiles⟩
    simp [Answers, hop]
  case h_4 hop =>
    obtain ⟨hwf', hfiles⟩ := serveDelete_spec hwf hop
    refine ⟨some OK, _, rfl, ?_, hwf', hfiles⟩
    simp [Answers, hop]
  case h_5 hop =>
    obtain ⟨order, hnodup, hchildren, hlist⟩ := serveList_spec (m := m) hwf
    refine ⟨_, slots, rfl, ?_, hwf, (hsame ?_).symm⟩
    · simp only [Answers, hop]
      exact ⟨order, hnodup, hchildren, by rw [hlist]⟩
    · simp [hop]
  case h_6 hop =>
    refine ⟨_, slots, rfl, ?_, hwf, (hsame ?_).symm⟩
    · simp only [Answers, hop, serveStat]
      cases hfind : findSlot slots m.path with
      | none => rw [lookup_files_none hfind, elim_none]
      | some i =>
        rw [lookup_files hwf hfind, elim_some, FileSlot.file_contents, length_take,
          Vector.length_toList, Nat.min_eq_left (hwf.bounded i)]
        rfl
    · simp [hop]
  case h_7 hread hwrite happend hdelete hlist hstat =>
    refine ⟨none, slots, rfl, ?_, hwf, (hsame ⟨hwrite, happend, hdelete⟩).symm⟩
    unfold Answers
    split <;> first | contradiction | rfl

end Requests

/-! ### Saving -/

theorem saveEntry_total (slots : Slots) (ft : Sector) (i : Fin MAX_FILES) :
    ∃ ft', saveEntry slots ft i = some ft' := by
  have hi : i.val < 16 := i.isLt
  have hpath : (slots i).path.length ≤ 32 := (slots i).path_le
  unfold saveEntry
  by_cases hused : (slots i).used
  · have hlen : 4 ≤ (slots i).header.length := Nat.le_refl 4
    obtain ⟨ft1, hheader, -⟩ := copyInto_spec ft hlen (by omega : i.val * 16 + 4 ≤ 512)
    obtain ⟨ft2, hname, -⟩ := copyInto_spec ft1 (Nat.le_refl (slots i).path.length)
      (by omega : i.val * 16 + 4 + (slots i).path.length ≤ 512)
    refine ⟨ft2, ?_⟩
    simp [hused, hheader, hname]
  · exact ⟨ft, by simp [hused]⟩

theorem savePeriodically_spec (fs : Fs) (hwf : WellFormed fs.slots) :
    ∃ fs', savePeriodically fs = some fs' ∧ WellFormed fs'.slots ∧
      files fs'.slots = files fs.slots := by
  unfold savePeriodically
  split
  · obtain ⟨ft, hft, -⟩ := Runs.foldlM_total (fun _ => True)
      (fun ft i _ => by simpa using saveEntry_total fs.slots ft i) (finRange MAX_FILES)
      (s := (Vector.replicate 512 0 : Sector)) trivial
    refine ⟨_, by simp only [saveToDisk, hft, bind_eq_bind, bind_some]; rfl, ?_⟩
    exact ⟨⟨fun a b k ha hb => hwf.distinct a b k ha hb, hwf.bounded⟩, rfl⟩
  · exact ⟨fs, rfl, hwf, rfl⟩

variable {fs : Fs}

/-- **One request** is answered from the files and updates them. -/
theorem handle_spec (hwf : WellFormed fs.slots) (h : served fs.slots m) :
    ∃ reply fs', handle fs m = some (reply, fs') ∧
      Answers (files fs.slots) m (reply.map Reply.data) ∧
      (∀ r ∈ reply, r.endpoint = m.replyEp) ∧
      WellFormed fs'.slots ∧ files fs'.slots = (files fs.slots).update m := by
  obtain ⟨reply, slots', hserve, hanswer, hwf', hfiles⟩ := serve_spec hwf h
  have hreply : (reply.map fun data => (⟨m.replyEp, data⟩ : Reply)).map Reply.data = reply := by
    cases reply <;> rfl
  have hep : ∀ r ∈ reply.map fun data => (⟨m.replyEp, data⟩ : Reply), r.endpoint = m.replyEp := by
    intro r hr
    obtain ⟨data, -, rfl⟩ := mem_map.mp hr
    rfl
  obtain ⟨fs', hfs', hwf'', hfiles'⟩ :=
    savePeriodically_spec { fs with slots := slots', opCount := fs.opCount + 1 } hwf'
  refine ⟨_, fs', ?_, by rw [hreply]; exact hanswer, hep, hwf'', hfiles'.trans hfiles⟩
  simp only [handle, hserve, hfs', bind_eq_bind, bind_some]
  rfl

/-! ### Runs -/

/-- Every message meets the condition in the state that it finds. -/
def allServed : Fs → List Message → Bool
  | _, [] => true
  | fs, m :: ms =>
      served fs.slots m &&
        match handle fs m with
        | some (_, fs') => allServed fs' ms
        | none => true

/-- **The service answers as the map does**: no message stops it, and each reply is the reply
of the map, which follows the requests. -/
def Refines : Fs → FileMap → List Message → Prop
  | _, _, [] => True
  | fs, files, m :: ms =>
      ∃ reply fs', handle fs m = some (reply, fs') ∧ Answers files m (reply.map Reply.data) ∧
        (∀ r ∈ reply, r.endpoint = m.replyEp) ∧ Refines fs' (files.update m) ms

theorem refines_of_wellFormed (ms : List Message) (hwf : WellFormed fs.slots)
    (h : allServed fs ms) : Refines fs (files fs.slots) ms := by
  induction ms generalizing fs with
  | nil => trivial
  | cons m ms ih =>
    rw [allServed, Bool.and_eq_true] at h
    obtain ⟨reply, fs', hhandle, hanswer, hep, hwf', hfiles⟩ := handle_spec hwf h.1
    simp only [hhandle] at h
    refine ⟨reply, fs', hhandle, hanswer, hep, ?_⟩
    rw [← hfiles]
    exact ih hwf' h.2

/-! ### Starting the service -/

theorem makeFile_total (slots : Slots) (path : Path) (data : List UInt8) :
    ∃ slots', makeFile slots path data = some slots' := by
  obtain ⟨v, hv, -⟩ := copyInto_spec
    ((makeSlot slots path false).2 (makeSlot slots path false).1).data
    (Nat.min_le_left data.length SLOT_SIZE)
    ((Nat.zero_add _).trans_le (Nat.min_le_right data.length SLOT_SIZE))
  exact ⟨_, by simp only [makeFile, hv, bind_eq_bind, bind_some]; rfl⟩

theorem initVfs_total (slots : Slots) : ∃ slots', initVfs slots = some slots' := by
  unfold initVfs
  split
  · exact makeFile_total _ _ _
  · exact ⟨slots, rfl⟩

theorem boot_total (disk : Disk) : ∃ fs, boot disk = some fs := by
  obtain ⟨slots, hslots⟩ := initVfs_total (loadFromDisk disk fun _ => FileSlot.new)
  exact ⟨_, by simp only [boot, hslots, bind_eq_bind, bind_some]; rfl⟩

def defaultSlots : Slots := (initVfs fun _ => FileSlot.new).getD fun _ => FileSlot.new

theorem wellFormed_defaultSlots : WellFormed defaultSlots := by
  have hpaths : ∀ i j, (defaultSlots i).used → (defaultSlots j).used →
      (defaultSlots i).path = (defaultSlots j).path → i = j := by decide +kernel
  refine ⟨fun i j k hi hj => ?_, by decide +kernel⟩
  obtain ⟨hui, hpi⟩ := holds_iff.mp hi
  obtain ⟨huj, hpj⟩ := holds_iff.mp hj
  exact hpaths i j hui huj (hpi.trans hpj.symm)

theorem wellFormed_boot {disk : Disk}
    (hdisk : loadFromDisk disk (fun _ => FileSlot.new) = fun _ => FileSlot.new)
    (hboot : boot disk = some fs) : WellFormed fs.slots := by
  obtain ⟨slots, hslots⟩ := initVfs_total fun _ => FileSlot.new
  have hdefault : defaultSlots = slots := by rw [defaultSlots, hslots, getD_some]
  simp only [boot, hdisk, hslots, bind_eq_bind, bind_some] at hboot
  cases hboot
  exact hdefault ▸ wellFormed_defaultSlots

/-- **The file service refines a finite map** along every run whose messages meet the
condition, from every boot that leaves the table well formed. -/
theorem refines_map (disk : Disk) (ms : List Message) : ∃ fs, boot disk = some fs ∧
      (WellFormed fs.slots → allServed fs ms → Refines fs (files fs.slots) ms) := by
  obtain ⟨fs, hboot⟩ := boot_total disk
  exact ⟨fs, hboot, fun hwf h => refines_of_wellFormed ms hwf h⟩

def clientMessage (opcode : UInt16) (path data : String) : Message where
  opcode := opcode
  buf := Vector.ofFn fun i =>
    ([9, 0, UInt8.ofNat (bytes path).length] ++ bytes path ++
      [UInt8.ofNat (bytes data).length] ++ bytes data).getD i.val 0
  info := ⟨0, 0, 0, (0, Vector.replicate 64 0), 0⟩

def noDisk : Disk := fun _ => none

/-- A file is written, extended, read, listed, asked about, deleted and read again. -/
def notesMessages : List Message :=
  [clientMessage 3 "/notes" "one", clientMessage 4 "/notes" "two", clientMessage 2 "/notes" "",
    clientMessage 6 "/" "", clientMessage 7 "/notes" "", clientMessage 5 "/notes" "",
    clientMessage 2 "/notes" ""]

theorem refines_map_notes : ∃ fs, boot noDisk = some fs ∧ WellFormed fs.slots ∧
      Refines fs (files fs.slots) notesMessages := by
  obtain ⟨fs, hboot, hrefines⟩ := refines_map noDisk notesMessages
  have hwf := wellFormed_boot rfl hboot
  have hserved : (boot noDisk).all (fun fs => allServed fs notesMessages) = true := by
    decide +kernel
  rw [hboot, all_some] at hserved
  exact ⟨fs, hboot, hwf, hrefines hwf hserved⟩

/-- **A file with a short name is never read back**: after a WRITE of `x` to `/a`, the READ of
`/a` says that there is no such file. -/
theorem short_path_unreadable :
    ¬ ∀ (disk : Disk) (fs : Fs) (ms : List Message), boot disk = some fs →
      Refines fs (files fs.slots) ms := by
  intro hall
  obtain ⟨fs, hboot⟩ := boot_total noDisk
  obtain ⟨_, fs1, hwrite, -, -, reply, _, hread, hanswer, -⟩ :=
    hall noDisk fs [clientMessage 3 "/a" "x", clientMessage 2 "/a" ""] hboot
  have hreply : (boot noDisk).bind (fun fs => (handle fs (clientMessage 3 "/a" "x")).bind
      fun r => (handle r.2 (clientMessage 2 "/a" "")).map Prod.fst) =
        some (some ⟨9, ENOENT⟩) := by
    decide +kernel
  simp only [hboot, hwrite, hread, bind_some, map_some, some.injEq] at hreply
  have hpath : (clientMessage 2 "/a" "").path = (clientMessage 3 "/a" "x").path := by
    decide +kernel
  have hlookup : ((files fs.slots).update (clientMessage 3 "/a" "x")).lookup
      (clientMessage 2 "/a" "").path = some ⟨(clientMessage 3 "/a" "x").data,
        ((files fs.slots).fileAt (clientMessage 3 "/a" "x").path).isDir,
        (clientMessage 3 "/a" "x").length_data_le⟩ := by
    exact Finmap.lookup_insert _
  have hmap : reply.map Reply.data = some (padded (clientMessage 3 "/a" "x").data) := by
    refine Eq.trans hanswer ?_
    rw [hlookup, elim_some]
  rw [hreply] at hmap
  exact absurd hmap (by decide +kernel)

end TrainOS.FileService
