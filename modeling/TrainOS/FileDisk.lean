import Mathlib.Data.Vector.Defs
import TrainOS.FileRefinement

/-!
# The sectors of the files

`make_slot` gives every file a sector for its data, and `save_to_disk` writes there.  Of sixteen
slots the used ones have different sectors (`Stored`), so no write of a save replaces another
(`data_sectors_apart`).
-/

namespace TrainOS.FileService

open Files (Path)
open Function Runs
open List hiding Vector
open Option (bind_eq_some_iff)

variable {slots : Slots} {fs fs' : Fs} {disk : Disk} {m : Message} {i : Fin MAX_FILES}
  {slot : FileSlot}

/-- Every file has a sector of its own among those for data. -/
structure Stored (slots : Slots) : Prop where
  inside : ∀ i, (slots i).used → 16 ≤ (slots i).diskSector ∧ (slots i).diskSector ≤ 127
  apart : ∀ i j, (slots i).used → (slots j).used → (slots i).diskSector = (slots j).diskSector →
    i = j

/-- Sixteen slots do not use all of the 112 sectors, so the fallback is not reached. -/
theorem allocDiskSector_spec (slots : Slots) :
    (16 ≤ allocDiskSector slots ∧ allocDiskSector slots ≤ 127) ∧
      ∀ i, (slots i).used → (slots i).diskSector ≠ allocDiskSector slots := by
  have hfree : ∃ s ∈ range' 16 112, s ∉ (finRange MAX_FILES).map fun i => (slots i).diskSector := by
    by_contra! hfull
    have hle := ((nodup_range' (s := 16) (n := 112)).subperm hfull).length_le
    simp [MAX_FILES] at hle
  unfold allocDiskSector
  simp only [FILE_DATA_BASE]
  cases hfind : find? _ (range' 16 (128 - 16)) with
  | none =>
    obtain ⟨s, hs, hunused⟩ := hfree
    have htaken := find?_eq_none.mp hfind s hs
    simp only [Bool.not_eq_true, Bool.not_eq_false', List.any_eq_true, Bool.and_eq_true,
      beq_iff_eq] at htaken
    obtain ⟨i, hi, -, hsector⟩ := htaken
    exact absurd (mem_map.mpr ⟨i, hi, hsector⟩) hunused
  | some s =>
    have hs := mem_range'_1.mp (mem_of_find?_eq_some hfind)
    refine ⟨by simp only [Option.getD_some]; omega, fun i hused heq => ?_⟩
    have hnot := find?_some hfind
    simp only [Bool.not_eq_true', List.any_eq_false, Bool.and_eq_true, not_and,
      beq_iff_eq] at hnot
    simp only [Option.getD_some] at heq
    exact hnot i (mem_finRange i) ⟨hused, decide_eq_true (by omega)⟩ heq

section

variable (h : Stored slots)
include h

theorem Stored.put (hin : slot.used → 16 ≤ slot.diskSector ∧ slot.diskSector ≤ 127)
    (hown : slot.used → ∀ j ≠ i, (slots j).used → (slots j).diskSector ≠ slot.diskSector) :
    Stored (update slots i slot) := by
  obtain ⟨hinside, hapart⟩ := h
  constructor
  · intro j
    grind [update_apply]
  · intro j k
    grind [update_apply]

/-- A slot that keeps its sector may be changed and taken out of use. -/
theorem Stored.change (hused : slot.used → (slots i).used)
    (hsector : slot.diskSector = (slots i).diskSector) : Stored (update slots i slot) := by
  refine h.put (fun hu => hsector ▸ h.inside i (hused hu)) fun hu j hne hj heq => hne ?_
  exact h.apart j i hj (hused hu) (heq.trans hsector)

theorem Stored.makeSlot (path : Path) (isDir : Bool) : Stored (makeSlot slots path isDir).2 := by
  unfold FileService.makeSlot
  split
  · exact h
  · next i _ =>
    obtain ⟨hin, hown⟩ := allocDiskSector_spec (update slots i { slots i with
      used := true, isDir := isDir, path := path.take MAX_PATH, path_le := length_take_le _ _ })
    refine h.put (fun _ => hin) fun _ j hne hj => ?_
    have hother := hown j
    rw [update_of_ne hne] at hother
    exact hother hj

/-- A request keeps each file on a sector of its own. -/
theorem Stored.serve {reply : Option (List UInt8)} {slots' : Slots}
    (hserve : serve slots m = some (reply, slots')) : Stored slots' := by
  have hslot : Stored (slotFor slots m.path).2 := by
    unfold slotFor
    split
    · exact h
    · exact h.makeSlot m.path false
  unfold FileService.serve at hserve
  split at hserve
  case h_2 =>
    simp only [serveWrite, Option.bind_eq_bind, bind_eq_some_iff] at hserve
    obtain ⟨_, ⟨data, -, heq⟩, hserve⟩ := hserve
    cases heq
    cases hserve
    exact hslot.change id rfl
  case h_3 =>
    simp only [serveAppend, Option.bind_eq_bind, bind_eq_some_iff] at hserve
    obtain ⟨_, happend, heq⟩ := hserve
    split at happend
    · cases happend
    · obtain ⟨data, -, happend⟩ := bind_eq_some_iff.mp happend
      cases happend
      cases heq
      exact hslot.change id rfl
  case h_4 =>
    cases hserve
    unfold serveDelete
    split
    · exact h.change (fun h => by cases h) rfl
    · exact h
  case h_1 =>
    obtain ⟨_, -, heq⟩ := bind_eq_some_iff.mp hserve
    cases heq
    exact h
  all_goals
    cases hserve
    exact h

end

/-- One round of the loop of the service. -/
def Step (fs : Fs) (m : Message) (fs' : Fs) : Prop := ∃ reply, handle fs m = some (reply, fs')

theorem Stored.step (h : Stored fs.slots) (hstep : Step fs m fs') : Stored fs'.slots := by
  obtain ⟨reply, hstep⟩ := hstep
  simp only [handle, savePeriodically, Option.bind_eq_bind, bind_eq_some_iff] at hstep
  obtain ⟨⟨_, slots⟩, hserve, fs1, hsave, heq⟩ := hstep
  cases heq
  have hslots := h.serve hserve
  split at hsave
  · obtain ⟨ft, -, hsave⟩ := bind_eq_some_iff.mp hsave
    cases hsave
    exact ⟨hslots.inside, hslots.apart⟩
  · cases hsave
    exact hslots

theorem stored_boot (hdisk : loadFromDisk disk (fun _ => .new) = fun _ => .new)
    (hboot : boot disk = some fs) : Stored fs.slots := by
  obtain ⟨slots, hslots, heq⟩ := bind_eq_some_iff.mp hboot
  cases heq
  rw [hdisk] at hslots
  have hnew : Stored fun _ => .new := ⟨fun _ h => (by cases h), fun _ _ h => by cases h⟩
  unfold initVfs makeFile at hslots
  split at hslots
  · obtain ⟨data, -, heq⟩ := bind_eq_some_iff.mp hslots
    cases heq
    refine .change ?_ id rfl
    exact (((((hnew.makeSlot _ _).makeSlot _ _).makeSlot _ _).makeSlot _ _).makeSlot _ _).makeSlot
      _ _
  · cases hslots
    exact hnew

/-- The writes of `save_to_disk`, as sectors and data. -/
def saveWrites (slots : Slots) (ft : Sector) : List (Nat × List UInt8) :=
  (SUPERBLOCK_SECTOR, superblock slots) :: (FILE_TABLE_SECTOR, ft.toList) ::
    ((finRange MAX_FILES).filter fun i => (slots i).mustSave).map fun i =>
      ((slots i).diskSector, (slots i).data.toList)

theorem Stored.nodup_saveWrites (h : Stored slots) (ft : Sector) :
    ((saveWrites slots ft).map Prod.fst).Nodup := by
  have hused : ∀ i ∈ (finRange MAX_FILES).filter fun i => (slots i).mustSave, (slots i).used := by
    intro i hi
    have hmust := of_mem_filter hi
    simp only [FileSlot.mustSave, Bool.and_eq_true] at hmust
    exact hmust.1.1
  have hlow : ∀ s < 16, s ∉ ((finRange MAX_FILES).filter fun i => (slots i).mustSave).map
      fun i => (slots i).diskSector := by
    intro s hs hmem
    obtain ⟨i, hi, rfl⟩ := mem_map.mp hmem
    exact Nat.not_lt.mpr (h.inside i (hused i hi)).1 hs
  rw [saveWrites, map_cons, map_cons, map_map, nodup_cons, nodup_cons]
  refine ⟨not_mem_cons_of_ne_of_not_mem Nat.zero_ne_one (hlow 0 (by decide)),
    hlow 1 (by decide), ?_⟩
  exact ((nodup_finRange MAX_FILES).filter _).map_on fun i hi j hj =>
    h.apart i j (hused i hi) (hused j hj)

/-- **File data never overlaps on the disk.**  After any requests, the files of a service that
    started without saved data have sectors of their own among 16 to 127, and no two writes of
    `save_to_disk` go to the same sector. -/
theorem data_sectors_apart {ms : List Message}
    (hdisk : loadFromDisk disk (fun _ => .new) = fun _ => .new) (hboot : boot disk = some fs)
    (hrun : Run Step fs ms fs') :
    Stored fs'.slots ∧ ∀ fs'', saveToDisk fs' = some fs'' → ∃ ft,
      (finRange MAX_FILES).foldlM (saveEntry fs'.slots) (Vector.replicate 512 0) = some ft ∧
      ((saveWrites fs'.slots ft).map Prod.fst).Nodup ∧
      fs''.disk =
        (saveWrites fs'.slots ft).foldl (fun disk w => diskWrite disk w.1 w.2) fs'.disk := by
  have hstored := hrun.invariant (P := fun fs => Stored fs.slots) (fun _ _ _ h => h.step)
    (stored_boot hdisk hboot)
  refine ⟨hstored, fun fs'' hsave => ?_⟩
  obtain ⟨ft, hft, heq⟩ := bind_eq_some_iff.mp hsave
  cases heq
  refine ⟨ft, hft, hstored.nodup_saveWrites ft, ?_⟩
  rw [saveWrites, foldl_cons, foldl_cons, foldl_map, foldl_filter]

theorem data_sectors_apart_notes : ∃ fs fs', boot noDisk = some fs ∧
      Run Step fs notesMessages fs' ∧ Stored fs'.slots := by
  have hserved : ((boot noDisk).bind fun fs =>
      notesMessages.foldlM (fun fs m => (handle fs m).map Prod.snd) fs).isSome := by
    decide +kernel
  obtain ⟨fs', hfs'⟩ := Option.isSome_iff_exists.mp hserved
  obtain ⟨fs, hboot, hfold⟩ := bind_eq_some_iff.mp hfs'
  have hrun : Run Step fs notesMessages fs' := run_of_foldlM (fun m _ s t hexec => by
    obtain ⟨⟨reply, _⟩, hhandle, rfl⟩ := Option.map_eq_some_iff.mp hexec
    exact ⟨reply, hhandle⟩) hfold
  exact ⟨fs, fs', hboot, hrun, (data_sectors_apart rfl hboot hrun).1⟩

end TrainOS.FileService
