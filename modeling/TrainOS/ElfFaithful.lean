import TrainOS.ElfSafety
import TrainOS.UserRange

/-!
# The loaded program is the file

For a file whose segments are readable, lie in the file and occupy pages of their own, the
process sees the bytes of the file, then zeros, with the permissions that the segment asks
for.  Exceptions are the addresses that Sv39 does not have, the last page of the address
space, and writable code above `2 ^ 38`, which `force_wxorx` does not reach.
-/

namespace TrainOS.Sv39

open ByteMemory Function List MachineWord Option RadixTable

/-! ### What a file asks for -/

/-- The segment has a byte in page `n`. -/
def Elf64Phdr.covers (ph : Elf64Phdr) (n : Nat) : Prop :=
  ph.pVaddr / PAGE_SIZE ≤ n ∧ n * PAGE_SIZE < ph.pVaddr + ph.pMemsz

def programHeaders (elf : Memory) : List Elf64Phdr :=
  (range (readLE elf 56 2)).map fun i =>
    Elf64Phdr.read elf (readLE elf 32 8 + i * readLE elf 54 2)

def loadedSegments (elf : Memory) : List Elf64Phdr :=
  (programHeaders elf).filter Elf64Phdr.isLoaded

/-- A file for the machine whose segments are readable, lie in the file and in the address
    space, and occupy disjoint pages away from the stack page and from the superpages of
    the kernel. -/
structure SoundFile (m : Memory) (kernelRoot : Nat) (elf : Memory) (len : Nat) : Prop where
  word : len < WORD
  header : 64 ≤ len
  magic : readLE elf 0 4 = 0x464C457F
  machine : readLE elf 18 2 = 243
  entry : 56 ≤ readLE elf 54 2
  table : readLE elf 32 8 + readLE elf 56 2 * readLE elf 54 2 ≤ len
  readable : ∀ ph ∈ loadedSegments elf, ph.r = true
  sizes : ∀ ph ∈ loadedSegments elf, ph.pFilesz ≤ ph.pMemsz
  file : ∀ ph ∈ loadedSegments elf, ph.pOffset + ph.pFilesz ≤ len
  space : ∀ ph ∈ loadedSegments elf, ph.pVaddr + ph.pMemsz < WORD
  disjoint : (loadedSegments elf).Pairwise fun ph ph' => ∀ n, ph.covers n → ¬ ph'.covers n
  stack : ∀ ph ∈ loadedSegments elf, ∀ n, ph.covers n → n * PAGE_SIZE ≠ STACK_BOTTOM
  kernel : ∀ ph ∈ loadedSegments elf, ∀ n, ph.covers n → canonical (n * PAGE_SIZE) = true →
    translate m kernelRoot (n * PAGE_SIZE) = none

/-! ### What the process sees -/

def userView (m : Memory) (root va : Nat) : Option Translation :=
  if canonical va then (translate m root va).filter (·.u) else none

def userRead (m : Memory) (root va : Nat) : Option UInt8 :=
  (userView m root va).bind fun tr => if tr.r then some (m tr.pa) else none

/-- From `m` to `m'` the process got the segments and a zeroed stack page, and nothing else. -/
structure FaithfulImage (elf : Memory) (root : Nat) (m m' : Memory) : Prop where
  bytes : ∀ ph ∈ loadedSegments elf, ∀ k < ph.pMemsz,
    userRead m' root (ph.pVaddr + k) = some (if k < ph.pFilesz then elf (ph.pOffset + k) else 0)
  flags : ∀ ph ∈ loadedSegments elf, ∀ n, ph.covers n →
    ∃ pa, userView m' root (n * PAGE_SIZE) = some ⟨pa, ph.r, ph.w, ph.x && !ph.w, true⟩
  stackFlags : ∃ pa, userView m' root STACK_BOTTOM = some ⟨pa, true, true, false, true⟩
  stackBytes : ∀ k < PAGE_SIZE, userRead m' root (STACK_BOTTOM + k) = some 0
  others : ∀ va, (∀ ph ∈ loadedSegments elf, ¬ ph.covers (va / PAGE_SIZE)) →
    va / PAGE_SIZE * PAGE_SIZE ≠ STACK_BOTTOM → userView m' root va = userView m root va

/-- `load_elf` returns the entry point and leaves the process with the image of the file. -/
def LoadsFaithfully (elf : Memory) (len root : Nat) (s : Phys) : Prop :=
  ∃ s', loadElf elf len root s =
      some (some (readLE elf 24 8, STACK_BOTTOM + PAGE_SIZE - 16), s') ∧
    FaithfulImage elf root s.mem s'.mem

/-! ### Pages and paths -/

variable {elf : Memory} {len root : Nat} {ph : Elf64Phdr} {s : Phys} {img : Image}

theorem path_inj {a b : Nat} (ha : canonical a = true) (hb : canonical b = true) :
    path a = path b ↔ a / PAGE_SIZE = b / PAGE_SIZE := by
  rw [path_eq_iff]
  unfold vpn
  simp only [canonical, Bool.or_eq_true, Bool.and_eq_true, decide_eq_true_eq] at ha hb
  unfold PAGE_SIZE
  constructor <;> omega

theorem path_page (a : Nat) : path (a / PAGE_SIZE * PAGE_SIZE) = path a := by
  rw [path_eq_iff, vpn, frame_div _, vpn]

theorem canonical_page (a : Nat) : canonical (a / PAGE_SIZE * PAGE_SIZE) = canonical a := by
  rw [Bool.eq_iff_iff]
  simp only [canonical, Bool.or_eq_true, Bool.and_eq_true, decide_eq_true_eq]
  unfold PAGE_SIZE
  omega

variable {va n kr flags : Nat}

/-- The pages that the loader maps are those the segment has bytes in, unless rounding up
    its end overflows; then there are none. -/
theorem mem_pages (hspace : ph.pVaddr + ph.pMemsz < WORD) :
    va ∈ ph.pages ↔ ph.pVaddr + ph.pMemsz + (PAGE_SIZE - 1) < WORD ∧
      ∃ n, ph.covers n ∧ va = n * PAGE_SIZE := by
  unfold Elf64Phdr.pages Elf64Phdr.covers pageAlignUp pageAlignDown
  simp only [List.mem_map, mem_range]
  unfold wrapAdd
  unfold WORD PAGE_SIZE at *
  constructor
  · rintro ⟨k, hk, rfl⟩
    refine ⟨by omega, ph.pVaddr / 4096 + k, ⟨by omega, by omega⟩, by omega⟩
  · rintro ⟨hend, n, ⟨hlo, hhi⟩, rfl⟩
    exact ⟨n - ph.pVaddr / 4096, by omega, by omega⟩

theorem covers_byte (hlo : ph.pVaddr ≤ va) (hhi : va < ph.pVaddr + ph.pMemsz) :
    ph.covers (va / PAGE_SIZE) := by
  unfold Elf64Phdr.covers PAGE_SIZE
  omega

theorem exists_byte (hmem : 0 < ph.pMemsz) (h : ph.covers n) :
    ∃ k < ph.pMemsz, (ph.pVaddr + k) / PAGE_SIZE = n := by
  obtain ⟨hlo, hhi⟩ := h
  unfold PAGE_SIZE at *
  by_cases hfirst : n = ph.pVaddr / 4096
  · exact ⟨0, hmem, by omega⟩
  · exact ⟨n * 4096 - ph.pVaddr, by omega, by omega⟩

/-! ### The image of a segment -/

variable {a : Nat} {b : UInt8}

def Image.viewAt (img : Image) (a : Nat) : Option ((Bool × Bool × Bool) × UInt8) :=
  (img (path a)).map fun pg => ((pg.r, pg.w, pg.x), pg.byte (a % PAGE_SIZE))

theorem Image.viewAt_mapPage (ha : canonical a = true) (hva : canonical va = true)
    (r w x : Bool) (hrwx : (r || w || x) = true) : (img.mapPage r w x va).viewAt a =
      if a / PAGE_SIZE = va / PAGE_SIZE then some ((r, w, x), 0) else img.viewAt a := by
  unfold Image.viewAt Image.mapPage
  by_cases hp : path a = path va
  · rw [if_pos ((path_inj ha hva).mp hp), hp, update_self, if_pos hrwx]
    rfl
  · rw [if_neg fun hpage => hp ((path_inj ha hva).mpr hpage), update_of_ne hp]

theorem same_page (hva : va % PAGE_SIZE = 0) :
    a / PAGE_SIZE = va / PAGE_SIZE ↔ a / PAGE_SIZE * PAGE_SIZE = va := by
  unfold PAGE_SIZE at *
  omega

section

variable (ha : canonical a = true)
include ha

theorem Image.viewAt_mapPages (hpages : ∀ va ∈ ph.pages, canonical va = true ∧ va % PAGE_SIZE = 0)
    (hr : ph.r = true) :
    (img.mapPages ph).viewAt a = if a / PAGE_SIZE * PAGE_SIZE ∈ ph.pages
      then some ((ph.r, ph.w, ph.x), 0) else img.viewAt a := by
  unfold Image.mapPages
  generalize ph.pages = vas at hpages
  induction vas generalizing img with
  | nil => rfl
  | cons va vas ih =>
    obtain ⟨⟨hva, haligned⟩, hvas⟩ := forall_mem_cons.mp hpages
    rw [foldl_cons, ih hvas, Image.viewAt_mapPage ha hva _ _ _ (by rw [hr]; rfl)]
    simp only [same_page haligned, mem_cons]
    by_cases hin : a / PAGE_SIZE * PAGE_SIZE ∈ vas
    · rw [if_pos hin, if_pos (.inr hin)]
    · simp [hin, or_false]

theorem Image.viewAt_writeBytes {src : Nat} (hva : canonical va = true)
    (hchunk : va % PAGE_SIZE + n ≤ PAGE_SIZE) :
    (img.writeBytes va elf src n).viewAt a =
      if va ≤ a ∧ a < va + n then (img.viewAt a).map fun v => (v.1, elf (src + (a - va)))
      else img.viewAt a := by
  unfold Image.viewAt Image.writeBytes
  by_cases hp : path a = path va
  · have hpage := (path_inj ha hva).mp hp
    rw [hp, update_self, Option.map_map, Option.map_map]
    by_cases hin : va ≤ a ∧ a < va + n
    · rw [if_pos hin]
      apply Option.map_congr
      intro pg _
      have hoff : va % PAGE_SIZE ≤ a % PAGE_SIZE ∧ a % PAGE_SIZE < va % PAGE_SIZE + n := by
        unfold PAGE_SIZE at *
        omega
      have hsrc : a % PAGE_SIZE - va % PAGE_SIZE = a - va := by
        unfold PAGE_SIZE at *
        omega
      simp [copyFrom, if_pos hoff, hsrc]
    · rw [if_neg hin]
      apply Option.map_congr
      intro pg _
      have hoff : ¬ (va % PAGE_SIZE ≤ a % PAGE_SIZE ∧ a % PAGE_SIZE < va % PAGE_SIZE + n) := by
        unfold PAGE_SIZE at *
        omega
      simp [copyFrom, if_neg hoff]
  · have hout : ¬ (va ≤ a ∧ a < va + n) := by
      intro hin
      apply hp
      rw [path_inj ha hva]
      unfold PAGE_SIZE at *
      omega
    rw [if_neg hout, update_of_ne hp]

/-- **The copy loop** puts the bytes of the file at the addresses of the segment. -/
theorem Image.viewAt_copySegment {remaining : Nat} (hva : ph.pVaddr ≤ va)
    (hspace : va + remaining < WORD)
    (hfile : ph.pOffset + (va + remaining - ph.pVaddr) < WORD)
    (hcanon : ∀ b, va ≤ b → b < va + remaining → canonical b = true) :
    (img.copySegment elf ph va remaining).viewAt a =
      if va ≤ a ∧ a < va + remaining then
        (img.viewAt a).map fun v => (v.1, elf (ph.pOffset + (a - ph.pVaddr)))
      else img.viewAt a := by
  induction remaining using Nat.strong_induction_on generalizing img va with
  | _ remaining ih =>
    rw [Image.copySegment]
    by_cases hzero : remaining = 0
    · rw [if_pos hzero, if_neg (by omega)]
    · rw [if_neg hzero]
      obtain ⟨hle, hpage⟩ := chunkLen_le va remaining
      have hpos : 0 < chunkLen va remaining := chunkLen_pos hzero
      generalize chunkLen va remaining = n at *
      have hnext : wrapAdd va n = va + n := wrapAdd_of_lt (by omega)
      have hback : wrapSub va ph.pVaddr = va - ph.pVaddr := wrapSub_of_le hva (by omega)
      have hsrc : wrapAdd ph.pOffset (va - ph.pVaddr) = ph.pOffset + (va - ph.pVaddr) :=
        wrapAdd_of_lt (by omega)
      rw [hnext, hback, hsrc, ih (remaining - n) (by omega) (by omega) (by omega) (by omega)
        (fun b hlo hhi => hcanon b (by omega) (by omega)),
        Image.viewAt_writeBytes ha (hcanon va le_rfl (by omega)) hpage]
      by_cases hin : va ≤ a ∧ a < va + n
      · have hsum : ph.pOffset + (va - ph.pVaddr) + (a - va) = ph.pOffset + (a - ph.pVaddr) := by
          omega
        rw [if_neg (by omega), if_pos hin, if_pos (by omega), hsum]
      · rw [if_neg hin]
        by_cases hrest : va + n ≤ a ∧ a < va + n + (remaining - n)
        · rw [if_pos hrest, if_pos (by omega)]
        · rw [if_neg hrest, if_neg (by omega)]

end

/-- What is assumed of a segment; its pages are addresses of Sv39. -/
structure SoundSegment (len : Nat) (ph : Elf64Phdr) : Prop where
  loaded : ph.isLoaded = true
  readable : ph.r = true
  sizes : ph.pFilesz ≤ ph.pMemsz
  file : ph.pOffset + ph.pFilesz ≤ len
  space : ph.pVaddr + ph.pMemsz < WORD
  canon : ∀ n, ph.covers n → canonical (n * PAGE_SIZE) = true

section

variable (h : SoundSegment len ph)
include h

theorem SoundSegment.canon_byte (ha : ph.covers (a / PAGE_SIZE)) : canonical a = true := by
  rw [← canonical_page]
  exact h.canon _ ha

theorem SoundSegment.page (hva : va ∈ ph.pages) :
    ∃ n, ph.covers n ∧ va = n * PAGE_SIZE :=
  ((mem_pages h.space).mp hva).2

theorem SoundSegment.pages_canon : ∀ va ∈ ph.pages, canonical va = true ∧ va % PAGE_SIZE = 0 := by
  intro va hva
  obtain ⟨n, hn, rfl⟩ := h.page hva
  exact ⟨h.canon n hn, Nat.mul_mod_left n PAGE_SIZE⟩

theorem SoundSegment.isCopied (hlen : len < WORD) : ph.isCopied len = decide (0 < ph.pFilesz) := by
  unfold Elf64Phdr.isCopied
  rw [wrapAdd_of_lt (h.file.trans_lt hlen), decide_eq_true h.file, Bool.and_true]

/-- What the process should see of the segment at an address in one of its pages. -/
def Elf64Phdr.view (ph : Elf64Phdr) (elf : Memory) (a : Nat) : (Bool × Bool × Bool) × UInt8 :=
  ((ph.r, ph.w, ph.x),
    if ph.pVaddr ≤ a ∧ a < ph.pVaddr + ph.pFilesz then elf (ph.pOffset + (a - ph.pVaddr)) else 0)

/-- **A segment** shows in its pages, unless they were not mapped, and nowhere else. -/
theorem SoundSegment.viewAt (hlen : len < WORD)
    (ha : canonical a = true) (hfresh : ph.covers (a / PAGE_SIZE) → img.viewAt a = none) :
    (img.loadSegment elf len ph).viewAt a =
      if a / PAGE_SIZE * PAGE_SIZE ∈ ph.pages then some (ph.view elf a) else img.viewAt a := by
  have hmapped : (img.mapPages ph).viewAt a = _ :=
    Image.viewAt_mapPages ha h.pages_canon h.readable
  have hbyte : ∀ b, ph.pVaddr ≤ b → b < ph.pVaddr + ph.pFilesz → ph.covers (b / PAGE_SIZE) :=
    fun b hlo hhi => covers_byte hlo (hhi.trans_le (Nat.add_le_add_left h.sizes _))
  unfold Image.loadSegment Elf64Phdr.view
  rw [if_pos h.loaded, h.isCopied hlen]
  by_cases hsize : 0 < ph.pFilesz
  · have hspace := h.space
    have hsizes := h.sizes
    have hfile := h.file
    rw [if_pos (decide_eq_true hsize), Image.viewAt_copySegment ha le_rfl (by omega) (by omega),
      hmapped]
    · by_cases hin : ph.pVaddr ≤ a ∧ a < ph.pVaddr + ph.pFilesz
      · rw [if_pos hin, if_pos hin]
        split
        · rfl
        · rw [hfresh (hbyte a hin.1 hin.2)]
          rfl
      · rw [if_neg hin, if_neg hin]
    · exact fun b hlo hhi => h.canon_byte (hbyte b hlo hhi)
  · have hout : ¬ (ph.pVaddr ≤ a ∧ a < ph.pVaddr + ph.pFilesz) := by omega
    rw [if_neg (by simpa using hsize), if_neg hout, hmapped]

theorem SoundSegment.covers_of_page (ha : a / PAGE_SIZE * PAGE_SIZE ∈ ph.pages) :
    ph.covers (a / PAGE_SIZE) := by
  obtain ⟨n, hn, heq⟩ := h.page ha
  rwa [Nat.eq_of_mul_eq_mul_right (by decide) heq]

end

/-! ### The image of a file -/

/-- The loaded segments among the headers are sound. -/
def SoundHeaders (len : Nat) (headers : List Elf64Phdr) : Prop :=
  ∀ ph ∈ headers, ph.isLoaded = true → SoundSegment len ph

section Headers

variable {headers : List Elf64Phdr} {a : Nat}

theorem viewAt_loadSegment (hph : ph.isLoaded = true → SoundSegment len ph) (hlen : len < WORD)
    (ha : canonical a = true) (hno : ph.isLoaded = true → ¬ ph.covers (a / PAGE_SIZE)) :
    (img.loadSegment elf len ph).viewAt a = img.viewAt a := by
  by_cases hloaded : ph.isLoaded = true
  · have hseg := hph hloaded
    rw [hseg.viewAt hlen ha fun hcov => absurd hcov (hno hloaded),
      if_neg fun hin => hno hloaded (hseg.covers_of_page hin)]
  · unfold Image.loadSegment
    rw [if_neg hloaded]

theorem viewAt_of_not_covered (hsound : SoundHeaders len headers) (hlen : len < WORD)
    (ha : canonical a = true)
    (hno : ∀ ph ∈ headers, ph.isLoaded = true → ¬ ph.covers (a / PAGE_SIZE)) :
    (headers.foldl (Image.loadSegment elf len) img).viewAt a = img.viewAt a := by
  induction headers generalizing img with
  | nil => rfl
  | cons ph headers ih =>
    obtain ⟨hph, hsound⟩ := forall_mem_cons.mp hsound
    obtain ⟨hno0, hno⟩ := forall_mem_cons.mp hno
    rw [foldl_cons, ih hsound hno, viewAt_loadSegment hph hlen ha hno0]

/-- **The segments** show in their pages. -/
theorem viewAt_of_covered (hsound : SoundHeaders len headers) (hlen : len < WORD)
    (hdisjoint : (headers.filter Elf64Phdr.isLoaded).Pairwise
      fun ph ph' => ∀ n, ph.covers n → ¬ ph'.covers n)
    (hph : ph ∈ headers) (hloaded : ph.isLoaded = true) (hcov : ph.covers (a / PAGE_SIZE))
    (himg : img.viewAt a = none) : (headers.foldl (Image.loadSegment elf len) img).viewAt a =
      if a / PAGE_SIZE * PAGE_SIZE ∈ ph.pages then some (ph.view elf a) else none := by
  have ha := (hsound ph hph hloaded).canon_byte hcov
  induction headers generalizing img with
  | nil => cases hph
  | cons ph0 headers ih =>
    obtain ⟨hph0, hsound'⟩ := forall_mem_cons.mp hsound
    rw [foldl_cons]
    rcases mem_cons.mp hph with rfl | hin
    · rw [filter_cons_of_pos hloaded, pairwise_cons] at hdisjoint
      rw [viewAt_of_not_covered hsound' hlen ha, (hph0 hloaded).viewAt hlen ha fun _ => himg, himg]
      intro ph' hph' hloaded'
      exact hdisjoint.1 ph' (mem_filter.mpr ⟨hph', hloaded'⟩) _ hcov
    · apply ih hsound' (hdisjoint.sublist ((sublist_cons_self ph0 headers).filter _)) hin
      rw [viewAt_loadSegment hph0 hlen ha ?_, himg]
      intro hloaded0 hcov0
      rw [filter_cons_of_pos hloaded0, pairwise_cons] at hdisjoint
      exact hdisjoint.1 ph (mem_filter.mpr ⟨hin, hloaded⟩) _ hcov0 hcov

def scrubView (a : Nat) (v : (Bool × Bool × Bool) × UInt8) : (Bool × Bool × Bool) × UInt8 :=
  ((v.1.1, v.1.2.1, v.1.2.2 && !(decide (a / 2 ^ 38 % 2 = 0) && v.1.2.1)), v.2)

theorem Image.viewAt_withoutX (img : Image) (a : Nat) :
    img.withoutX.viewAt a = (img.viewAt a).map (scrubView a) := by
  unfold Image.viewAt Image.withoutX scrubView
  rw [Option.map_map, Option.map_map]
  apply Option.map_congr
  rintro ⟨r, w, x, byte⟩ _
  simp only [comp_apply, path_user_iff]
  by_cases hlow : a / 2 ^ 38 % 2 = 0
  · cases w with
    | true =>
      rw [if_pos ⟨hlow, rfl⟩, decide_eq_true hlow]
      simp
    | false => simp
  · rw [decide_eq_false hlow, if_neg fun hboth => hlow hboth.1]
    simp

theorem viewAt_processImage (ha : canonical a = true) : (processImage elf len headers).viewAt a =
      if a / PAGE_SIZE * PAGE_SIZE = STACK_BOTTOM then some ((true, true, false), 0)
      else ((segmentsImage elf len headers).viewAt a).map (scrubView a) := by
  have hstack : canonical STACK_BOTTOM = true := by decide
  unfold processImage
  rw [Image.viewAt_withoutX, Image.viewAt_mapPage ha hstack _ _ _ rfl]
  simp only [same_page (by decide : STACK_BOTTOM % PAGE_SIZE = 0)]
  split <;> rfl

end Headers

/-! ### The image in the process -/

section Process

variable {s' s0 : Phys} {own own0 : Own} {kr t a : Nat} {K : List (Fin 512) → Found} {tab : Tabled}

theorem Loading.userView_some {r w x : Bool} (h : Loading K kr t s0 own0 s own img tab)
    (ha : canonical a = true)
    (hview : img.viewAt a = some ((r, w, x), b)) :
    ∃ pa, userView s.mem (t * PAGE_SIZE) a = some ⟨pa, r, w, x, true⟩ ∧ s.mem pa = b := by
  obtain ⟨pg, hpg, hv⟩ := map_eq_some_iff.mp hview
  obtain ⟨hflags, rfl⟩ := Prod.mk.inj hv
  obtain ⟨rfl, hwx⟩ := Prod.mk.inj hflags
  cases hwx
  obtain ⟨e, he, _⟩ := h.shown.pages _ pg (path_length a) hpg
  refine ⟨e.physAddr + a % PAGE_SIZE, ?_, ?_⟩
  · unfold userView
    rw [if_pos ha, translate_eq_lookup, he.found]
    simp only [map_some, PTE.translation, he.readable, he.writable, he.executable, he.user,
      filter_some]
    rfl
  · rw [physAddr_eq]
    exact he.bytes _ (Nat.mod_lt _ (by decide))

theorem Loading.userView_none (h : Loading K kr t s0 own0 s own img tab)
    (hfinds : ∀ p, p.length = 3 → lookup (tables s0.mem) t p = K p) (hview : img.viewAt a = none) :
    userView s.mem (t * PAGE_SIZE) a = userView s0.mem (t * PAGE_SIZE) a := by
  have hnone := map_eq_none_iff.mp hview
  have hsame : translate s.mem (t * PAGE_SIZE) a = translate s0.mem (t * PAGE_SIZE) a := by
    apply translate_of_lookup
    rw [h.shown.others _ (path_length a) hnone, hfinds _ (path_length a)]
  unfold userView
  rw [hsame]

end Process

/-! ### The result -/

variable {kernelRoot : Nat} {before : Phys} {m : Memory}

theorem SoundFile.elfHeaders (h : SoundFile m kernelRoot elf len) :
    elfHeaders elf len = some (programHeaders elf) := by
  have hword := h.word
  have htable := h.table
  refine elfHeaders_eq_some.mpr ⟨⟨h.header, h.magic, h.machine, ?_⟩, ?_⟩
  · exact ((Nat.mod_le _ _).trans (Nat.add_le_add_left (Nat.mod_le _ _) _)).trans htable
  · unfold programHeaders headerAddrs
    rw [List.map_map]
    apply map_congr_left
    intro i hi
    have hle : i * readLE elf 54 2 ≤ readLE elf 56 2 * readLE elf 54 2 :=
      Nat.mul_le_mul_right _ (mem_range.mp hi).le
    have hmul : wrapMul i (readLE elf 54 2) = i * readLE elf 54 2 := wrapMul_of_lt (by omega)
    rw [comp_apply, hmul, wrapAdd_of_lt (by omega)]

theorem flatMap_segmentPages (headers : List Elf64Phdr) : headers.flatMap segmentPages =
    (headers.filter Elf64Phdr.isLoaded).flatMap Elf64Phdr.pages := by
  induction headers with
  | nil => rfl
  | cons ph headers ih =>
    rw [flatMap_cons, ih, segmentPages]
    by_cases hp : ph.isLoaded = true
    · rw [if_pos hp, filter_cons_of_pos hp, flatMap_cons]
    · rw [if_neg hp, filter_cons_of_neg hp, nil_append]

theorem SoundFile.sound (h : SoundFile m kernelRoot elf len)
    (hcanon : ∀ ph ∈ loadedSegments elf, ∀ n, ph.covers n → canonical (n * PAGE_SIZE) = true) :
    SoundHeaders len (programHeaders elf) := by
  intro ph hph hloaded
  have hin : ph ∈ loadedSegments elf := mem_filter.mpr ⟨hph, hloaded⟩
  exact ⟨hloaded, h.readable ph hin, h.sizes ph hin, h.file ph hin, h.space ph hin, hcanon ph hin⟩

theorem SoundFile.viewAt (hfile : SoundFile m kernelRoot elf len)
    (hsound : SoundHeaders len (programHeaders elf)) (hph : ph ∈ loadedSegments elf)
    (hcov : ph.covers (a / PAGE_SIZE)) :
    (processImage elf len (programHeaders elf)).viewAt a =
      if a / PAGE_SIZE * PAGE_SIZE ∈ ph.pages then some (scrubView a (ph.view elf a))
      else none := by
  obtain ⟨hin, hloaded⟩ := mem_filter.mp hph
  rw [viewAt_processImage ((hsound ph hin hloaded).canon_byte hcov),
    if_neg (hfile.stack ph hph _ hcov), segmentsImage,
    viewAt_of_covered hsound hfile.word hfile.disjoint hin hloaded hcov rfl]
  split <;> rfl

variable {K : List (Fin 512) → Found}

theorem SoundSegment.kernelFree (h : SoundSegment len ph)
    (hK : ∀ n, ph.covers n → K (path (n * PAGE_SIZE)) = none) : KernelFree K len ph := by
  intro _
  refine ⟨?_, ?_⟩
  · intro va hva
    obtain ⟨n, hn, rfl⟩ := h.page hva
    exact hK n hn
  · intro _ k hk
    have hsizes := h.sizes
    have hspace := h.space
    rw [wrapAdd_of_lt (by omega), ← path_page]
    exact hK _ (covers_byte (Nat.le_add_right _ k) (by omega))

/-- The pages of the segment are in Sv39 and below its end, and writable code is below
    `2 ^ 38`. -/
structure Elf64Phdr.Placed (ph : Elf64Phdr) : Prop where
  aligned : ph.pVaddr + ph.pMemsz + (PAGE_SIZE - 1) < WORD
  canon : ∀ n, ph.covers n → canonical (n * PAGE_SIZE) = true
  low : ph.w = true → ph.x = true → ∀ n, ph.covers n → n * PAGE_SIZE < 2 ^ 38

theorem SoundSegment.accepts (h : SoundSegment len ph)
    (haligned : ph.pVaddr + ph.pMemsz + (PAGE_SIZE - 1) < WORD) : img.accepts len ph := by
  intro _ _ k hk hnone
  have hsizes := h.sizes
  have hcov := covers_byte (Nat.le_add_right ph.pVaddr k) (by omega)
  have hpage : (ph.pVaddr + k) / PAGE_SIZE * PAGE_SIZE ∈ ph.pages :=
    (mem_pages h.space).mpr ⟨haligned, _, hcov, rfl⟩
  have hview : (img.mapPages ph).viewAt (ph.pVaddr + k) = _ :=
    Image.viewAt_mapPages (h.canon_byte hcov) h.pages_canon h.readable
  rw [wrapAdd_of_lt (by omega)] at hnone
  rw [if_pos hpage, Image.viewAt, hnone] at hview
  cases hview

theorem acceptsAll_of_sound {headers : List Elf64Phdr} (h : SoundHeaders len headers)
    (haligned : ∀ ph ∈ headers, ph.isLoaded = true →
      ph.pVaddr + ph.pMemsz + (PAGE_SIZE - 1) < WORD) : img.acceptsAll elf len headers := by
  induction headers generalizing img with
  | nil => exact trivial
  | cons ph headers ih =>
    obtain ⟨hph, hsound⟩ := forall_mem_cons.mp h
    obtain ⟨ha, haligned⟩ := forall_mem_cons.mp haligned
    refine ⟨?_, ih hsound haligned⟩
    intro hloaded
    exact (hph hloaded).accepts (ha hloaded) hloaded

theorem userRead_some {pa : Nat} {w x : Bool} (h : userView m root va = some ⟨pa, true, w, x, true⟩)
    (hb : m pa = b) :
    userRead m root va = some b := by
  unfold userRead
  rw [h, bind_some, if_pos rfl, hb]

theorem Elf64Phdr.Placed.scrubView (h : ph.Placed) (hcov : ph.covers (a / PAGE_SIZE)) :
    scrubView a (ph.view elf a) = ((ph.r, ph.w, ph.x && !ph.w), (ph.view elf a).2) := by
  have hbit : (ph.x && !(decide (a / 2 ^ 38 % 2 = 0) && ph.w)) = (ph.x && !ph.w) := by
    cases hw : ph.w with
    | false => simp
    | true =>
      cases hx : ph.x with
      | false => rfl
      | true =>
        have hlow := h.low hw hx _ hcov
        have hzero : a / 2 ^ 38 % 2 = 0 := by
          unfold PAGE_SIZE at hlow
          omega
        rw [decide_eq_true hzero]
        rfl
  unfold Sv39.scrubView Elf64Phdr.view
  rw [hbit]

variable {own : Own}

/-- **What is loaded.**  The image of a placed and sound file is what the file asks for. -/
theorem faithful_of_loading {s' : Phys} {own' : Own} {t : Nat}
    {tab : Tabled} (hfile : SoundFile m kernelRoot elf len)
    (hplaced : ∀ ph ∈ loadedSegments elf, ph.Placed)
    (hfinds : ∀ p, p.length = 3 → lookup (tables s.mem) t p = K p)
    (h : Loading K kr t s own s' own' (processImage elf len (programHeaders elf)) tab) :
    FaithfulImage elf (t * PAGE_SIZE) s.mem s'.mem := by
  have hsound := hfile.sound fun ph hph => (hplaced ph hph).canon
  -- the process at an address of a segment
  have hsegment : ∀ ph ∈ loadedSegments elf, ∀ a, ph.covers (a / PAGE_SIZE) →
      ∃ pa, userView s'.mem (t * PAGE_SIZE) a = some ⟨pa, ph.r, ph.w, ph.x && !ph.w, true⟩ ∧
        s'.mem pa = (ph.view elf a).2 := by
    intro ph hph a hcov
    obtain ⟨hin, hloaded⟩ := mem_filter.mp hph
    have hseg := hsound ph hin hloaded
    have hpage : a / PAGE_SIZE * PAGE_SIZE ∈ ph.pages :=
      (mem_pages hseg.space).mpr ⟨(hplaced ph hph).aligned, _, hcov, rfl⟩
    apply h.userView_some (hseg.canon_byte hcov)
    rw [hfile.viewAt hsound hph hcov, if_pos hpage, (hplaced ph hph).scrubView hcov]
  have hstack : ∀ a, a / PAGE_SIZE * PAGE_SIZE = STACK_BOTTOM →
      ∃ pa, userView s'.mem (t * PAGE_SIZE) a = some ⟨pa, true, true, false, true⟩ ∧
        s'.mem pa = 0 := by
    intro a hpage
    have ha : canonical a = true := by
      rw [← canonical_page, hpage]
      decide
    apply h.userView_some ha
    rw [viewAt_processImage ha, if_pos hpage]
  constructor
  case bytes =>
    intro ph hph k hk
    obtain ⟨pa, hview, hbyte⟩ := hsegment ph hph (ph.pVaddr + k)
      (covers_byte (Nat.le_add_right _ k) (by omega))
    rw [hfile.readable ph hph] at hview
    apply userRead_some hview
    rw [hbyte, Elf64Phdr.view]
    simp
  case flags =>
    intro ph hph n hn
    have hcov : ph.covers (n * PAGE_SIZE / PAGE_SIZE) := by
      rwa [frame_div n]
    obtain ⟨pa, hview, _⟩ := hsegment ph hph (n * PAGE_SIZE) hcov
    exact ⟨pa, hview⟩
  case stackFlags =>
    obtain ⟨pa, hview, _⟩ := hstack STACK_BOTTOM (by decide)
    exact ⟨pa, hview⟩
  case stackBytes =>
    intro k hk
    have hpage : (STACK_BOTTOM + k) / PAGE_SIZE * PAGE_SIZE = STACK_BOTTOM := by
      unfold STACK_BOTTOM PAGE_SIZE at *
      omega
    obtain ⟨pa, hview, hbyte⟩ := hstack _ hpage
    exact userRead_some hview hbyte
  case others =>
    intro va hno hpage
    by_cases ha : canonical va = true
    · apply h.userView_none hfinds
      rw [viewAt_processImage ha, if_neg hpage, segmentsImage,
        viewAt_of_not_covered hsound hfile.word ha]
      · rfl
      · intro ph hph hloaded
        exact hno ph (mem_filter.mpr ⟨hph, hloaded⟩)
    · unfold userView
      rw [if_neg ha, if_neg ha]

theorem pMemsz_pos (hph : ph.isLoaded = true) : 0 < ph.pMemsz := by
  simp only [Elf64Phdr.isLoaded, Bool.and_eq_true, bne_iff_ne, ne_eq] at hph
  exact Nat.pos_of_ne_zero hph.2

theorem FaithfulImage.canon {m' : Memory} (h : FaithfulImage elf root m m')
    (hph : ph ∈ loadedSegments elf) (hn : ph.covers n) : canonical (n * PAGE_SIZE) = true := by
  obtain ⟨k, hk, rfl⟩ := exists_byte (pMemsz_pos (mem_filter.mp hph).2) hn
  rw [canonical_page]
  by_contra hno
  have hread := h.bytes ph hph k hk
  unfold userRead userView at hread
  rw [if_neg hno] at hread
  cases hread

section Necessary

variable {s' : Phys} {own own' : Own} {kr t : Nat} {K : List (Fin 512) → Found} {tab : Tabled}

section

variable (hfile : SoundFile m kernelRoot elf len) (hsound : SoundHeaders len (programHeaders elf))
include hfile hsound

/-- Unless the end of the segment rounds up without overflow, no page of it is mapped and
    its first byte cannot be read. -/
theorem FaithfulImage.aligned (hfinds : ∀ p, p.length = 3 → lookup (tables s.mem) t p = K p)
    (hK : ∀ n, ph.covers n → K (path (n * PAGE_SIZE)) = none)
    (h : Loading K kr t s own s' own' (processImage elf len (programHeaders elf)) tab)
    (hfaith : FaithfulImage elf (t * PAGE_SIZE) s.mem s'.mem) (hph : ph ∈ loadedSegments elf) :
    ph.pVaddr + ph.pMemsz + (PAGE_SIZE - 1) < WORD := by
  by_contra hwrap
  obtain ⟨hin, hloaded⟩ := mem_filter.mp hph
  have hseg := hsound ph hin hloaded
  have hmem := pMemsz_pos hloaded
  have hcov : ph.covers (ph.pVaddr / PAGE_SIZE) := covers_byte le_rfl (by omega)
  have hnone : (processImage elf len (programHeaders elf)).viewAt ph.pVaddr = none := by
    rw [hfile.viewAt hsound hph hcov, if_neg fun hpage => hwrap ((mem_pages hseg.space).mp hpage).1]
  have hunmapped : translate s.mem (t * PAGE_SIZE) ph.pVaddr = none := by
    rw [translate_eq_lookup, hfinds _ (path_length _), ← path_page, hK _ hcov]
    rfl
  have hread := hfaith.bytes ph hph 0 hmem
  unfold userRead at hread
  rw [Nat.add_zero, h.userView_none hfinds hnone, userView, hunmapped] at hread
  simp at hread

theorem FaithfulImage.low (haligned : ph.pVaddr + ph.pMemsz + (PAGE_SIZE - 1) < WORD)
    (h : Loading K kr t s own s' own' (processImage elf len (programHeaders elf)) tab)
    (hfaith : FaithfulImage elf (t * PAGE_SIZE) s.mem s'.mem) (hph : ph ∈ loadedSegments elf)
    (hw : ph.w = true) (hx : ph.x = true) (hn : ph.covers n) : n * PAGE_SIZE < 2 ^ 38 := by
  by_contra hhigh
  obtain ⟨hin, hloaded⟩ := mem_filter.mp hph
  have hseg := hsound ph hin hloaded
  have hdiv := frame_div n
  have hc := hseg.canon n hn
  have hbit : n * PAGE_SIZE / 2 ^ 38 % 2 ≠ 0 := by
    simp only [canonical, Bool.or_eq_true, Bool.and_eq_true, decide_eq_true_eq] at hc
    omega
  have hpage : n * PAGE_SIZE ∈ ph.pages := (mem_pages hseg.space).mpr ⟨haligned, n, hn, rfl⟩
  have hsome := hfile.viewAt (a := n * PAGE_SIZE) hsound hph (by rwa [hdiv])
  rw [hdiv, if_pos hpage, scrubView, decide_eq_false hbit] at hsome
  obtain ⟨pa, huser, _⟩ := h.userView_some hc hsome
  obtain ⟨pa', huser'⟩ := hfaith.flags ph hph n hn
  rw [huser] at huser'
  have hx' := congrArg Translation.x (some.inj huser')
  simp [Elf64Phdr.view, hw, hx] at hx'

end

end Necessary

theorem SoundFile.kernelFree {R : Nat → Prop} (hfile : SoundFile s.mem (kr * PAGE_SIZE) elf len)
    (hinv : TablesInv (fun _ _ _ => True) K kr R s own)
    (hcanon : ∀ ph ∈ loadedSegments elf, ∀ n, ph.covers n → canonical (n * PAGE_SIZE) = true) :
    (∀ ph ∈ loadedSegments elf, ∀ n, ph.covers n → K (path (n * PAGE_SIZE)) = none) ∧
      ∀ ph ∈ programHeaders elf, KernelFree K len ph := by
  have hK : ∀ ph ∈ loadedSegments elf, ∀ n, ph.covers n → K (path (n * PAGE_SIZE)) = none := by
    intro ph hph n hn
    have hnone := hfile.kernel ph hph n hn (hcanon ph hph n hn)
    rw [translate_eq_lookup, hinv.finds, map_eq_none_iff] at hnone
    exact hnone
  refine ⟨hK, ?_⟩
  intro ph hph hloaded
  exact (hfile.sound hcanon ph hph hloaded).kernelFree
    (hK ph (mem_filter.mpr ⟨hph, hloaded⟩)) hloaded

theorem placed_of_faithful (hprep : Prepared kernelRoot before root s)
    (hfile : SoundFile s.mem kernelRoot elf len) (h : LoadsFaithfully elf len root s) :
    ∀ ph ∈ loadedSegments elf, ph.Placed := by
  obtain ⟨kr, t, own, K, rfl, rfl, hinv, hfinds, hunused, _, _⟩ := hprep.tables
  obtain ⟨s', hrun, hfaith⟩ := h
  have hcanon : ∀ ph ∈ loadedSegments elf, ∀ n, ph.covers n →
      canonical (n * PAGE_SIZE) = true := fun ph hph n hn => hfaith.canon hph hn
  have hsound := hfile.sound hcanon
  obtain ⟨hK, hfree⟩ := hfile.kernelFree hinv hcanon
  obtain ⟨hends, _⟩ := (loadElf_attempt hinv hfinds hfile.elfHeaders hfree
    (hunused _ (by decide))).post _ hrun
  cases hends with
  | done hloading =>
    intro ph hph
    have haligned := hfaith.aligned hfile hsound hfinds (hK ph hph) hloading hph
    exact ⟨haligned, hcanon ph hph, fun hw hx n hn =>
      hfaith.low hfile hsound haligned hloading hph hw hx hn⟩

/-- **Faithful loading.**  A sound file is loaded as it stands exactly when all its segments
    are placed. -/
theorem load_elf_faithful_iff (hprep : Prepared kernelRoot before root s)
    (hfile : SoundFile s.mem kernelRoot elf len)
    (hframes : Supplies s.pool ((hasTable s.mem (root / PAGE_SIZE)).demand
      ((loadedSegments elf).flatMap Elf64Phdr.pages ++ [STACK_BOTTOM]))) :
    LoadsFaithfully elf len root s ↔ ∀ ph ∈ loadedSegments elf, ph.Placed := by
  refine ⟨placed_of_faithful hprep hfile, ?_⟩
  obtain ⟨kr, t, own, K, rfl, rfl, hinv, hfinds, hunused, _, _⟩ := hprep.tables
  intro hplaced
  have hcanon : ∀ ph ∈ loadedSegments elf, ∀ n, ph.covers n →
      canonical (n * PAGE_SIZE) = true := fun ph hph => (hplaced ph hph).canon
  obtain ⟨_, hfree⟩ := hfile.kernelFree hinv hcanon
  have hattempt := loadElf_attempt hinv hfinds hfile.elfHeaders hfree (hunused _ (by decide))
  rw [flatMap_segmentPages, ← loadedSegments] at hattempt
  rw [frame_div t, Tabled.demand_append, supplies_add] at hframes
  obtain ⟨hsupply, hstack⟩ := hframes
  rw [Tabled.demand, Tabled.demand, Nat.add_zero] at hstack
  have haccept : Image.acceptsAll elf len (fun _ => none) (programHeaders elf) := by
    apply acceptsAll_of_sound (hfile.sound hcanon)
    intro ph hph hloaded
    exact (hplaced ph (mem_filter.mpr ⟨hph, hloaded⟩)).aligned
  -- how many frames are asked for does not matter any more
  generalize (hasTable s.mem t).demand ((loadedSegments elf).flatMap Elf64Phdr.pages) = pages at *
  generalize ((hasTable s.mem t).withPages _).need STACK_BOTTOM = need at *
  obtain ⟨⟨res, s'⟩, hrun, hends, hnone⟩ := hattempt.elim ⟨⟨hsupply, haccept⟩, fun _ => hstack⟩
  cases hends with
  | refused h => exact absurd (supplies_add.mp hstack).1 (hnone.mp rfl)
  | done h => exact ⟨s', hrun, faithful_of_loading hfile hplaced hfinds h⟩

/-! ### Two files -/

theorem covers_onePage {filesz : Nat} (hva : va % PAGE_SIZE = 0) :
    (Elf64Phdr.mk PT_LOAD flags 0 va filesz PAGE_SIZE).covers n ↔ n * PAGE_SIZE = va := by
  unfold Elf64Phdr.covers
  unfold PAGE_SIZE at *
  constructor
  · rintro ⟨hlo, hhi⟩
    simp only at hlo hhi
    omega
  · rintro rfl
    exact ⟨by simp, by simp⟩

/-- After boot a file with one page can be loaded. -/
theorem exists_sound (elf : Memory) (len : Nat)
    (hheader : 64 ≤ len ∧ len < WORD ∧ readLE elf 0 4 = 0x464C457F ∧ readLE elf 18 2 = 243 ∧
      56 ≤ readLE elf 54 2 ∧ readLE elf 32 8 + readLE elf 56 2 * readLE elf 54 2 ≤ len)
    (hseg : loadedSegments elf = [⟨PT_LOAD, flags, 0, va, 1, PAGE_SIZE⟩])
    (hflags : flags &&& PF_R ≠ 0) (hva : va % PAGE_SIZE = 0) (hend : va + PAGE_SIZE < WORD)
    (hstack : va ≠ STACK_BOTTOM)
    (hkernel : vpn2 va ∉ [vpn2 CLINT_BASE, vpn2 DRAM_BASE, vpn2 KERNEL_VBASE])
    (hpages : 3 * ((loadedSegments elf).flatMap Elf64Phdr.pages ++ [STACK_BOTTOM]).length ≤ 84) :
    ∃ kernelRoot before root s, Prepared kernelRoot before root s ∧
      SoundFile s.mem kernelRoot elf len ∧
      Supplies s.pool ((hasTable s.mem (root / PAGE_SIZE)).demand
        ((loadedSegments elf).flatMap Elf64Phdr.pages ++ [STACK_BOTTOM])) := by
  obtain ⟨kernelRoot, before, root, s, hprep, hs⟩ := exists_booted
  have hdemand := (hasTable s.mem (root / PAGE_SIZE)).demand_le
    ((loadedSegments elf).flatMap Elf64Phdr.pages ++ [STACK_BOTTOM])
  refine ⟨kernelRoot, before, root, s, hprep, ?_,
    HasFrames.supplies ⟨(hdemand.trans hpages).trans hs.1, hs.2⟩⟩
  obtain ⟨kr, t, own, K, rfl, rfl, hinv, _, hunused, _⟩ := hprep.tables
  obtain ⟨hlen, hword, hmagic, hmachine, hentry, htable⟩ := hheader
  refine ⟨hword, hlen, hmagic, hmachine, hentry, htable, ?_, ?_, ?_, ?_, ?_, ?_, ?_⟩
  all_goals rw [hseg]
  case refine_5 => exact pairwise_singleton _ _
  all_goals
    intro ph hph
    obtain rfl := mem_singleton.mp hph
  · simpa [Elf64Phdr.r] using hflags
  · exact Nat.succ_pos _
  · exact (show 0 + 1 ≤ 64 by decide).trans hlen
  · exact hend
  · intro n hn
    rw [(covers_onePage hva).mp hn]
    exact hstack
  · intro n hn _
    rw [(covers_onePage hva).mp hn, translate_eq_lookup, hinv.finds, hunused va hkernel]
    rfl

/-- The hypotheses are met after boot by a file with a page of code, whose first byte is
    loaded from the file. -/
theorem load_elf_faithful_code : ∃ kernelRoot before root s, Prepared kernelRoot before root s ∧
      SoundFile s.mem kernelRoot (segmentElf (PF_R + PF_X) 0x40000000 1 PAGE_SIZE) 120 ∧
      LoadsFaithfully (segmentElf (PF_R + PF_X) 0x40000000 1 PAGE_SIZE) 120 root s := by
  obtain ⟨kernelRoot, before, root, s, hprep, hfile, hframes⟩ := exists_sound
    (segmentElf (PF_R + PF_X) 0x40000000 1 PAGE_SIZE) 120 (by decide) rfl (by decide) (by decide)
    (by decide) (by decide) (by decide) (by decide)
  refine ⟨kernelRoot, before, root, s, hprep, hfile,
    (load_elf_faithful_iff hprep hfile hframes).mpr fun ph hph => ?_⟩
  obtain rfl := mem_singleton.mp hph
  refine ⟨by decide, ?_, fun hw => by cases hw⟩
  intro n hn
  rw [(covers_onePage (by decide)).mp hn]
  decide

/-- **Writable code above `2 ^ 38`** stays executable, although the loader means to "clear X
    on any page with both W and X set". -/
theorem load_elf_keeps_high_writable_code :
    ∃ kernelRoot before root s, Prepared kernelRoot before root s ∧
      SoundFile s.mem kernelRoot
        (segmentElf (PF_R + PF_W + PF_X) 0xFFFFFFC040000000 1 PAGE_SIZE) 120 ∧
      Supplies s.pool ((hasTable s.mem (root / PAGE_SIZE)).demand
        ((loadedSegments (segmentElf (PF_R + PF_W + PF_X) 0xFFFFFFC040000000 1 PAGE_SIZE)).flatMap
          Elf64Phdr.pages ++ [STACK_BOTTOM])) ∧
      ¬ LoadsFaithfully (segmentElf (PF_R + PF_W + PF_X) 0xFFFFFFC040000000 1 PAGE_SIZE) 120 root
        s := by
  obtain ⟨kernelRoot, before, root, s, hprep, hfile, hframes⟩ := exists_sound
    (segmentElf (PF_R + PF_W + PF_X) 0xFFFFFFC040000000 1 PAGE_SIZE) 120 (by decide) rfl
    (by decide) (by decide) (by decide) (by decide) (by decide) (by decide)
  refine ⟨kernelRoot, before, root, s, hprep, hfile, hframes, fun hfaith => ?_⟩
  have hplaced := placed_of_faithful hprep hfile hfaith
  have hlow := (hplaced _ mem_cons_self).low rfl rfl (0xFFFFFFC040000000 / PAGE_SIZE)
    ((covers_onePage (by decide)).mpr (by decide))
  exact absurd hlow (by decide)

end TrainOS.Sv39
