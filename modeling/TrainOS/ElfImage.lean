import TrainOS.Sv39Refinement
import TrainOS.TableGrowth

/-!
# The image that the loader builds

An image gives every page of the process its permissions and its bytes.  `Loading` relates an
image to the page table and the physical memory; each step of the loader is the step on
images, and it fails exactly when the allocator refuses a frame or a byte is to be copied into
a page that is not mapped.
-/

namespace TrainOS.Sv39

open ByteMemory Function List MachineWord Option RadixTable Runs

/-! ### Images -/

/-- A page of a process: its permissions and its bytes. -/
structure PageImage where
  r : Bool
  w : Bool
  x : Bool
  byte : Memory

/-- The pages of a process, by path. -/
abbrev Image := List (Fin 512) → Option PageImage

namespace Image

/-- A zeroed page at `va`; an entry without R, W and X maps nothing. -/
def mapPage (img : Image) (r w x : Bool) (va : Nat) : Image :=
  update img (path va) (if r || w || x then some ⟨r, w, x, fun _ => 0⟩ else none)

/-- `n` bytes of the file from `src` on are written at `va`, inside its page. -/
def writeBytes (img : Image) (va : Nat) (elf : Memory) (src n : Nat) : Image :=
  update img (path va) ((img (path va)).map fun pg =>
    { pg with byte := copyFrom pg.byte (va % PAGE_SIZE) elf src n })

def mapPages (img : Image) (ph : Elf64Phdr) : Image :=
  ph.pages.foldl (fun img va => img.mapPage ph.r ph.w ph.x va) img

def copySegment (elf : Memory) (ph : Elf64Phdr) (copyVa remaining : Nat) (img : Image) : Image :=
  if remaining = 0 then img
  else
    copySegment elf ph (wrapAdd copyVa (chunkLen copyVa remaining))
      (remaining - chunkLen copyVa remaining)
      (img.writeBytes copyVa elf (wrapAdd ph.pOffset (wrapSub copyVa ph.pVaddr))
        (chunkLen copyVa remaining))
termination_by remaining
decreasing_by exact Nat.sub_lt (Nat.pos_of_ne_zero ‹_›) (chunkLen_pos ‹_›)

def loadSegment (elf : Memory) (len : Nat) (img : Image) (ph : Elf64Phdr) : Image :=
  if ph.isLoaded then
    if ph.isCopied len then (img.mapPages ph).copySegment elf ph ph.pVaddr ph.pFilesz
    else img.mapPages ph
  else img

/-- Every byte of the segment that is copied goes to a mapped page. -/
def accepts (len : Nat) (img : Image) (ph : Elf64Phdr) : Prop :=
  ph.isLoaded = true → ph.isCopied len = true →
    ∀ k < ph.pFilesz, img.mapPages ph (path (wrapAdd ph.pVaddr k)) ≠ none

/-- So it is with each segment, after those before it. -/
def acceptsAll (elf : Memory) (len : Nat) : Image → List Elf64Phdr → Prop
  | _, [] => True
  | img, ph :: headers =>
      img.accepts len ph ∧ acceptsAll elf len (img.loadSegment elf len ph) headers

def withoutX (img : Image) : Image := fun p =>
  (img p).map fun pg =>
    if (∃ i ∈ userEntries, [i] <+: p) ∧ pg.w = true then { pg with x := false } else pg

variable {p : List (Fin 512)}

theorem writeBytes_eq_none {img : Image} {va src n : Nat} {elf : Memory} :
    img.writeBytes va elf src n p = none ↔ img p = none := by
  unfold writeBytes
  by_cases hp : p = path va
  · rw [hp, update_self, map_eq_none_iff]
  · rw [update_of_ne hp]

end Image

def segmentPages (ph : Elf64Phdr) : List Nat := if ph.isLoaded then ph.pages else []

/-! ### The image in memory -/

/-- The entry `e` of root `t` maps page `p`, with the contents `pg`. -/
structure Holds (m : Memory) (t : Nat) (p : List (Fin 512)) (pg : PageImage) (e : PTE) : Prop where
  found : lookup (tables m) t p = some (e, [])
  readable : e.isReadable = pg.r
  writable : e.isWritable = pg.w
  executable : e.isExecutable = pg.x
  user : e.isUser = true
  bytes : ∀ o < PAGE_SIZE, m (e.ppn * PAGE_SIZE + o) = pg.byte o

/-- The table of `t` maps the pages of the image, in frames of `H` of their own, and
    otherwise what the kernel maps. -/
structure Shows (K : List (Fin 512) → Found) (t : Nat) (H : Nat → Prop) (m : Memory)
    (img : Image) : Prop where
  apart : ∀ p, img p ≠ none → K p = none
  pages : ∀ p pg, p.length = 3 → img p = some pg → ∃ e, Holds m t p pg e ∧ H e.ppn
  others : ∀ p, p.length = 3 → img p = none → lookup (tables m) t p = K p
  distinct : ∀ p q e e', p.length = 3 → q.length = 3 → img p ≠ none → img q ≠ none →
    lookup (tables m) t p = some (e, []) → lookup (tables m) t q = some (e', []) →
    e.ppn = e'.ppn → p = q

/-- The allocator gave the frame away between the two states. -/
def Handed (s0 s : Phys) (f : Nat) : Prop :=
  f * PAGE_SIZE ∈ frames s0.pool ∧ f * PAGE_SIZE ∉ frames s.pool

/-- A load into root `t` that began in `s0` has reached `s`: the table shows the image, has
    the tables `tab`, and only tables of the root and frames from the allocator were
    written. -/
structure Loading (K : List (Fin 512) → Found) (kr t : Nat) (s0 : Phys) (own0 : Own) (s : Phys)
    (own : Own) (img : Image) (tab : Tabled) : Prop where
  inv : TablesInv (fun _ _ _ => True) K kr (· = t) s own
  shown : Shows K t (Handed s0 s) s.mem img
  pool : s.pool <:+ s0.pool
  grown : ∀ f, Foreign s0 own0 f → own f = none
  touched : ∀ a, s.mem a ≠ s0.mem a →
    TablePage s.mem t (a / PAGE_SIZE) ∨ Handed s0 s (a / PAGE_SIZE)
  tabled : ∀ q, q.length < 3 → hasTable s.mem t q = tab q

variable {s s' s0 : Phys} {own own' own0 : Own} {kr t f : Nat} {K : List (Fin 512) → Found}
variable {img : Image} {tab : Tabled} {elf : Memory} {len : Nat} {ph : Elf64Phdr}

theorem Handed.mono (h : Handed s0 s f) (hpool : s'.pool <:+ s.pool) : Handed s0 s' f :=
  ⟨h.1, fun hin => h.2 (frames_subset_of_suffix hpool _ hin)⟩

theorem Loading.root_own (h : Loading K kr t s0 own0 s own img tab) : own t = some (t, []) :=
  h.inv.root_own t rfl

variable {pg : PageImage} {e : PTE}

theorem Loading.dataFrame {p : List (Fin 512)} (h : Loading K kr t s0 own0 s own img tab)
    (hp : p.length = 3) (himg : img p = some pg)
    (hfound : lookup (tables s.mem) t p = some (e, [])) : DataFrame s own kr e.ppn :=
  (h.inv.small rfl hp (h.shown.apart p (by simp [himg])) hfound).2.2

theorem Loading.start (h : TablesInv (fun _ _ _ => True) K kr (· = t) s own)
    (hfinds : ∀ p, p.length = 3 → lookup (tables s.mem) t p = K p) :
    Loading K kr t s own s own (fun _ => none) (hasTable s.mem t) where
  inv := h
  shown := by
    refine ⟨fun p hp => absurd rfl hp, ?_, fun p hp _ => hfinds p hp, ?_⟩
    · intro p pg _ hp
      cases hp
    · intro p q e e' _ _ hp
      exact absurd rfl hp
  pool := suffix_refl _
  grown := fun f hf => hf.1
  touched := fun a ha => absurd rfl ha
  tabled := fun q _ => rfl

/-! ### Tables that a write does not reach -/

section Congr

variable {ok : PTE → Prop} {m : Memory}

section

variable (h : Tree ok s own) (hroot : own t = some (t, []))
  (hsame : ∀ a, own (a / PAGE_SIZE) ≠ none → m a = s.mem a)
include h hroot hsame

theorem frameAt_congr_bytes (q : List (Fin 512)) (hq : q.length < 3) :
    frameAt (tables m) t q = frameAt (tables s.mem) t q := by
  apply frameAt_congr
  intro q' g hq' hg i
  have hown := h.owned.frameAt hroot (by simpa using hq'.trans hq) hg
  apply tables_congr
  rintro a rfl
  exact hsame a (by simp [hown])

theorem hasTable_congr (q : List (Fin 512)) (hq : q.length < 3) :
    hasTable m t q = hasTable s.mem t q :=
  congrArg isSome (frameAt_congr_bytes h hroot hsame q hq)

theorem lookup_congr_bytes (p : List (Fin 512)) (hp : p.length = 3) :
    lookup (tables m) t p = lookup (tables s.mem) t p := by
  refine lookup_congr_owned h.owned ?_ hroot (by simp [hp])
  intro g o hg
  apply tables_congr
  rintro a rfl
  exact hsame a (by simp [hg])

end

end Congr

/-! ### Mapping a page -/

variable {rest : List (Option Nat)}

section

variable (h : Loading K kr t s0 own0 s own img tab)
include h

/-- A new page shows as a page of zeros. -/
theorem Shows.mapPage {va pa : Nat} {r w x : Bool} (hva : K (path va) = none)
    (hpool : s.pool = some pa :: rest) (heff : Effect plainEntry (atPage t va) s s' own own')
    (hfound : lookup (tables s'.mem) t (path va) =
      if r || w || x then some (.page pa r w x true, []) else none)
    (hzero : ∀ o < PAGE_SIZE, s'.mem (pa / PAGE_SIZE * PAGE_SIZE + o) = 0)
    (hout : pa ∉ frames s'.pool) : Shows K t (Handed s0 s') s'.mem (img.mapPage r w x va) := by
  obtain ⟨hpa, hsmall, _, _⟩ := h.inv.tree.next_frame hpool
  have hppn : ∀ r w x u, (PTE.page pa r w x u).ppn = pa / PAGE_SIZE := by
    rw [hpa, frame_div]
    exact PTE.ppn_page_frame (hpa ▸ hsmall)
  have hother : ∀ p, p.length = 3 → p ≠ path va →
      lookup (tables s'.mem) t p = lookup (tables s.mem) t p := by
    intro p hp hne
    exact heff.lookup_root h.root_own hp.le fun ha => hne (atPage_full hp ha).2
  -- the frames of the pages that stay are not the new one
  have hold : ∀ p pg e, p.length = 3 → img p = some pg →
      lookup (tables s.mem) t p = some (e, []) → e.ppn ≠ pa / PAGE_SIZE := by
    intro p pg e hp himg hl
    exact (h.dataFrame hp himg hl).foreign.ne_next hpool
  constructor
  case apart =>
    intro p hp
    by_cases hpv : p = path va
    · rw [hpv]
      exact hva
    · rw [Image.mapPage, update_of_ne hpv] at hp
      exact h.shown.apart p hp
  case pages =>
    intro p pg hp himg
    by_cases hpv : p = path va
    · subst hpv
      rw [Image.mapPage, update_self] at himg
      by_cases hrwx : (r || w || x) = true
      · rw [if_pos hrwx] at himg hfound
        cases himg
        obtain ⟨_, hr, hw, hx, hu, _⟩ := PTE.flags_page pa r w x true
        refine ⟨_, ⟨hfound, hr, hw, hx, hu, ?_⟩, ?_⟩
        · rw [hppn]
          exact hzero
        · rw [hppn]
          refine ⟨?_, by rw [← hpa]; exact hout⟩
          rw [← hpa]
          apply frames_subset_of_suffix h.pool
          rw [hpool]
          exact mem_cons_self
      · rw [if_neg hrwx] at himg
        cases himg
    · rw [Image.mapPage, update_of_ne hpv] at himg
      obtain ⟨e, he, hhanded⟩ := h.shown.pages p pg hp himg
      have hdata := h.dataFrame hp himg he.found
      refine ⟨e, { he with found := (hother p hp hpv).trans he.found, bytes := ?_ },
        hhanded.mono heff.pool⟩
      intro o ho
      rw [← he.bytes o ho]
      exact heff.page hdata.foreign ho
  case others =>
    intro p hp himg
    by_cases hpv : p = path va
    · subst hpv
      rw [Image.mapPage, update_self] at himg
      by_cases hrwx : (r || w || x) = true
      · rw [if_pos hrwx] at himg
        cases himg
      · rw [if_neg hrwx] at hfound
        rw [hfound, hva]
    · rw [Image.mapPage, update_of_ne hpv] at himg
      exact (hother p hp hpv).trans (h.shown.others p hp himg)
  case distinct =>
    -- the page at `va` is the only one in the new frame
    have hnew : ∀ p e e', p.length = 3 → img.mapPage r w x va p ≠ none → p ≠ path va →
        lookup (tables s'.mem) t p = some (e, []) →
        lookup (tables s'.mem) t (path va) = some (e', []) → e.ppn ≠ e'.ppn := by
      intro p e e' hp himg hpv hl hl'
      rw [Image.mapPage, update_of_ne hpv] at himg
      obtain ⟨pg, hpg⟩ := ne_none_iff_exists'.mp himg
      rw [hother p hp hpv] at hl
      rw [hfound] at hl'
      obtain ⟨_, he'⟩ := ite_none_right_eq_some.mp hl'
      cases he'
      rw [hppn]
      exact hold p pg e hp hpg hl
    intro p q e e' hp hq himgp himgq hlp hlq hsame
    by_cases hpv : p = path va
    · by_cases hqv : q = path va
      · rw [hpv, hqv]
      · exact absurd hsame.symm (hnew q e' e hq himgq hqv hlq (hpv ▸ hlp))
    · by_cases hqv : q = path va
      · exact absurd hsame (hnew p e e' hp himgp hpv hlp (hqv ▸ hlq))
      · rw [Image.mapPage, update_of_ne hpv] at himgp
        rw [Image.mapPage, update_of_ne hqv] at himgq
        rw [hother p hp hpv] at hlp
        rw [hother q hq hqv] at hlq
        exact h.shown.distinct p q e e' hp hq himgp himgq hlp hlq hsame

theorem Loading.foreign (hf : Foreign s0 own0 f) :
    Foreign s own f :=
  ⟨h.grown f hf, fun p hp => hf.2 p (frames_subset_of_suffix h.pool p hp)⟩

theorem Loading.touched_step {a : Nat}
    (hpool : s'.pool <:+ s.pool) (hkeep : ∀ f, TablePage s.mem t f → TablePage s'.mem t f)
    (hstep : s'.mem a = s.mem a ∨ TablePage s'.mem t (a / PAGE_SIZE) ∨
      Handed s0 s' (a / PAGE_SIZE)) (ha : s'.mem a ≠ s0.mem a) :
    TablePage s'.mem t (a / PAGE_SIZE) ∨ Handed s0 s' (a / PAGE_SIZE) := by
  rcases hstep with hsame | hstep
  · rcases h.touched a (hsame ▸ ha) with htable | hhanded
    · exact .inl (hkeep _ htable)
    · exact .inr (hhanded.mono hpool)
  · exact hstep

/-- A load has come to an image and tables, with these answers of the allocator left. -/
def Reached (K : List (Fin 512) → Found) (kr t : Nat) (s0 : Phys) (own0 : Own)
    (left : List (Option Nat)) (img : Image) (tab : Tabled) (s : Phys) : Prop :=
  s.pool = left ∧ ∃ own, Loading K kr t s0 own0 s own img tab

/-- **A zeroed page** is mapped if the allocator has the tables for it. -/
theorem Loading.mapPage {va pa : Nat} (r w x : Bool)
    (hva : K (path va) = none)
    (hpool : s.pool = some pa :: rest) :
    Attempt (mapIntoPt { mem := fill s.mem pa PAGE_SIZE 0, pool := rest } (t * PAGE_SIZE) va pa
      r w x true) (Supplies rest (tab.need va))
      (Reached K kr t s0 own0 (rest.drop (tab.need va)) (img.mapPage r w x va)
        (tab.withPage va)) := by
  obtain ⟨hpa, _, hfresh, hrest⟩ := h.inv.tree.next_frame hpool
  have hbytes : ∀ a, a / PAGE_SIZE ≠ pa / PAGE_SIZE → fill s.mem pa PAGE_SIZE 0 a = s.mem a :=
    fun _ => fill_page hpa
  have hsame : ∀ a, own (a / PAGE_SIZE) ≠ none → fill s.mem pa PAGE_SIZE 0 a = s.mem a := by
    intro a ha
    apply hbytes
    intro heq
    exact ha (heq ▸ hfresh)
  obtain ⟨h1, hd⟩ := h.inv.take hpool hbytes
  obtain ⟨htake, hforeign⟩ := takeFrame_effect h.inv.tree hpool hbytes
  have htab : ∀ q, q.length < 3 → hasTable (fill s.mem pa PAGE_SIZE 0) t q = tab q :=
    fun q hq => (hasTable_congr h.inv.tree h.root_own hsame q hq).trans (h.tabled q hq)
  have hneed := Tabled.need_congr va htab
  refine (mapIntoPt_attempt h1.tree h.root_own pa r w x true (h1.noSuperpage rfl hva)).mono
    (by rw [hneed]) ?_
  rintro s' ⟨own', heff, hfound, hgrown⟩
  have hall : Effect plainEntry (atPage t va) s s' own own' := htake.of_nowhere.trans heff
  have hout : pa ∉ frames s'.pool :=
    fun hin => hrest pa (frames_subset_of_suffix heff.pool pa hin) rfl
  have hhanded : Handed s0 s' (pa / PAGE_SIZE) := by
    unfold Handed
    rw [← hpa]
    refine ⟨frames_subset_of_suffix h.pool pa ?_, hout⟩
    rw [hpool]
    exact mem_cons_self
  refine ⟨by rw [hgrown.pool, hneed], own', ?_⟩
  constructor
  case inv =>
    refine h1.effect heff ?_
    rintro t' rfl p hp ha
    obtain ⟨_, rfl⟩ := atPage_full hp ha
    refine .inr ⟨hva, ?_⟩
    intro e rest hl
    rw [hfound] at hl
    obtain ⟨_, he⟩ := ite_none_right_eq_some.mp hl
    cases he
    exact ⟨rfl, trivial, (hd _ _ _ _).effect h1.kernel heff⟩
  case shown =>
    refine .mapPage h hva hpool hall hfound ?_ hout
    intro o ho
    rw [heff.page hforeign ho]
    apply fill_apply_of_mem
    · omega
    · omega
  case pool => exact hall.pool.trans h.pool
  case grown => exact fun f hf => hall.foreign f (h.foreign hf)
  case touched =>
    intro a ha
    refine h.touched_step hall.pool (fun f => hall.tablePage h.inv.tree h.root_own atPage_short)
      ?_ ha
    by_cases hmap : s'.mem a = fill s.mem pa PAGE_SIZE 0 a
    · by_cases hframe : a / PAGE_SIZE = pa / PAGE_SIZE
      · rw [hframe]
        exact .inr (.inr hhanded)
      · exact .inl (hmap.trans (hbytes a hframe))
    · exact .inr (.inl (hgrown.touched a hmap))
  case tabled =>
    intro q hq
    rw [hgrown.tabled q hq]
    exact Tabled.add_congr (Tabled.add_congr (htab q hq))

theorem Loading.loadPage {va : Nat}
    (hva : K (path va) = none) :
    Attempt (loadPage (t * PAGE_SIZE) ph s va) (Supplies s.pool (1 + tab.need va))
      (Reached K kr t s0 own0 (s.pool.drop (1 + tab.need va)) (img.mapPage ph.r ph.w ph.x va)
        (tab.withPage va)) := by
  unfold Sv39.loadPage Phys.allocPage
  rcases hpool : s.pool with _ | ⟨_ | pa, rest⟩
  · exact .none (by simp [Nat.add_comm 1, Supplies])
  · exact .none (by simp [Nat.add_comm 1, Supplies])
  · refine (h.mapPage ph.r ph.w ph.x hva hpool).mono ?_ ?_
    · simp [Nat.add_comm 1, Supplies]
    · rintro s' ⟨hs', hload⟩
      exact ⟨by rw [hs', Nat.add_comm 1, drop_succ_cons], hload⟩

/-- **The pages of a segment.** -/
theorem Loading.loadPages {vas : List Nat}
    (hfree : ∀ va ∈ vas, K (path va) = none) :
    Attempt (vas.foldlM (Sv39.loadPage (t * PAGE_SIZE) ph) s) (Supplies s.pool (tab.demand vas))
      (Reached K kr t s0 own0 (s.pool.drop (tab.demand vas))
        (vas.foldl (fun img va => img.mapPage ph.r ph.w ph.x va) img) (tab.withPages vas)) := by
  induction vas generalizing s own img tab with
  | nil => exact (Attempt.some ⟨rfl, own, h⟩).mono (by simp [Tabled.demand]) fun _ => id
  | cons va vas ih =>
    rw [foldlM_cons, Tabled.demand, supplies_add]
    refine (h.loadPage (hfree va mem_cons_self)).bind ?_
    rintro s1 ⟨hs1, own1, h1⟩
    rw [← hs1, ← drop_drop, ← hs1]
    exact ih h1 fun va' hva' => hfree va' (mem_cons_of_mem va hva')

end

/-! ### Copying bytes -/

variable {H : Nat → Prop}

/-- The table still has the same pages, in the same frames. -/
theorem Shows.pagewise {m m' : Memory} {img' : Image} (h : Shows K t H m img)
    (hnone : ∀ p, img' p = none ↔ img p = none)
    (hothers : ∀ p, p.length = 3 → img p = none → lookup (tables m') t p = lookup (tables m) t p)
    (hpages : ∀ p pg pg' e, p.length = 3 → img p = some pg → img' p = some pg' →
      Holds m t p pg e → ∃ e', Holds m' t p pg' e' ∧ e'.ppn = e.ppn) : Shows K t H m' img' := by
  have hpage : ∀ p, p.length = 3 → img' p ≠ none → ∃ e e', lookup (tables m) t p = some (e, []) ∧
      H e.ppn ∧ (∀ pg', img' p = some pg' → Holds m' t p pg' e') ∧
      lookup (tables m') t p = some (e', []) ∧ e'.ppn = e.ppn := by
    intro p hp hne
    obtain ⟨pg', hpg'⟩ := ne_none_iff_exists'.mp hne
    obtain ⟨pg, hpg⟩ := ne_none_iff_exists'.mp (mt (hnone p).mpr hne)
    obtain ⟨e, he, hH⟩ := h.pages p pg hp hpg
    obtain ⟨e', he', hppn⟩ := hpages p pg pg' e hp hpg hpg' he
    refine ⟨e, e', he.found, hH, ?_, he'.found, hppn⟩
    rintro _ hsame
    cases hpg'.symm.trans hsame
    exact he'
  refine ⟨fun p hne => h.apart p (mt (hnone p).mpr hne), ?_, ?_, ?_⟩
  · intro p pg' hp hpg'
    obtain ⟨e, e', _, hH, he', _, hppn⟩ := hpage p hp (by simp [hpg'])
    exact ⟨e', he' pg' hpg', hppn ▸ hH⟩
  · intro p hp hno
    have hno' := (hnone p).mp hno
    exact (hothers p hp hno').trans (h.others p hp hno')
  · intro p q e1 e2 hp hq hnp hnq hlp hlq hsame
    obtain ⟨e, _, he, _, _, hfound, hppn⟩ := hpage p hp hnp
    obtain ⟨f, _, hf, _, _, hfound', hppn'⟩ := hpage q hq hnq
    cases hlp.symm.trans hfound
    cases hlq.symm.trans hfound'
    exact h.distinct p q e f hp hq (mt (hnone p).mpr hnp) (mt (hnone q).mpr hnq) he hf
      (hppn.symm.trans (hsame.trans hppn'))

/-- A chunk that is copied shows as written bytes. -/
theorem Shows.writeBytes {va src n : Nat} {m m' : Memory} (h : Shows K t H m img)
    (himg : img (path va) = some pg) (he : Holds m t (path va) pg e)
    (hm' : m' = copyFrom m (e.physAddr + va % PAGE_SIZE) elf src n)
    (hchunk : va % PAGE_SIZE + n ≤ PAGE_SIZE)
    (hlookup : ∀ p, p.length = 3 → lookup (tables m') t p = lookup (tables m) t p) :
    Shows K t H m' (img.writeBytes va elf src n) := by
  have hphys := physAddr_eq e
  refine h.pagewise (fun p => Image.writeBytes_eq_none) (fun p hp _ => hlookup p hp) ?_
  intro p pg0 pg' e' hp hpg hpg' he'
  unfold Image.writeBytes at hpg'
  by_cases hpv : p = path va
  · subst hpv
    rw [update_self, himg, map_some] at hpg'
    cases hpg'
    cases himg.symm.trans hpg
    cases he.found.symm.trans he'.found
    refine ⟨e, { he with found := (hlookup _ hp).trans he.found, bytes := ?_ }, rfl⟩
    intro o ho
    rw [hm']
    simp only [copyFrom, hphys]
    by_cases hin : va % PAGE_SIZE ≤ o ∧ o < va % PAGE_SIZE + n
    · rw [if_pos (by omega), if_pos hin]
      congr 1
      omega
    · rw [if_neg (by omega), if_neg hin]
      exact he.bytes o ho
  · rw [update_of_ne hpv] at hpg'
    cases hpg.symm.trans hpg'
    have hne : e'.ppn ≠ e.ppn := by
      intro hsame
      exact hpv (h.distinct p _ e' e hp (path_length va) (by simp [hpg]) (by simp [himg])
        he'.found he.found hsame)
    refine ⟨e', { he' with found := (hlookup p hp).trans he'.found, bytes := ?_ }, rfl⟩
    intro o ho
    rw [hm', ← he'.bytes o ho]
    simp only [copyFrom, hphys]
    rw [if_neg]
    unfold PAGE_SIZE at *
    omega

theorem path_wrapAdd {va k : Nat} (hva : va < WORD) (hk : va % PAGE_SIZE + k < PAGE_SIZE) :
    path (wrapAdd va k) = path va := by
  have hsum : va + k < WORD := by
    unfold WORD PAGE_SIZE at *
    omega
  have hpage : (va + k) / PAGE_SIZE = va / PAGE_SIZE := by
    unfold PAGE_SIZE at *
    omega
  rw [wrapAdd_of_lt hsum, path_eq_iff]
  unfold vpn
  rw [hpage]

section

variable (h : Loading K kr t s0 own0 s own img tab)
include h

/-- **One pass of the copy loop** needs the page mapped. -/
theorem Loading.copyChunk {va chunk : Nat}
    (hva : K (path va) = none) (hchunk : va % PAGE_SIZE + chunk ≤ PAGE_SIZE) :
    Attempt (copyChunk elf (t * PAGE_SIZE) ph va chunk s) (img (path va) ≠ none)
      (Reached K kr t s0 own0 s.pool
        (img.writeBytes va elf (wrapAdd ph.pOffset (wrapSub va ph.pVaddr)) chunk) tab) := by
  unfold Sv39.copyChunk
  rw [virtToPhysInPt_eq h.inv.tree h.root_own (h.inv.noSuperpage rfl hva)]
  cases himg : img (path va) with
  | none =>
    rw [h.shown.others _ (path_length va) himg, hva]
    exact .none fun hne => hne rfl
  | some pg =>
    obtain ⟨e, he, hhanded⟩ := h.shown.pages _ pg (path_length va) himg
    rw [he.found]
    refine (Attempt.some ⟨rfl, own, ?_⟩).mono (by simp) fun _ => id
    have hdata := h.dataFrame (path_length va) himg he.found
    generalize hm' : copyFrom s.mem (e.physAddr + va % PAGE_SIZE) elf
      (wrapAdd ph.pOffset (wrapSub va ph.pVaddr)) chunk = m'
    have hframe : ∀ a, a / PAGE_SIZE ≠ e.ppn → m' a = s.mem a := by
      intro a ha
      rw [← hm']
      simp only [copyFrom, physAddr_eq]
      rw [if_neg]
      unfold PAGE_SIZE at *
      omega
    have hsame : ∀ a, own (a / PAGE_SIZE) ≠ none → m' a = s.mem a := by
      intro a ha
      apply hframe
      intro heq
      exact ha (heq ▸ hdata.foreign.1)
    constructor
    case inv => exact h.inv.write_frame hdata.foreign.1 hdata.apart hframe
    case shown =>
      exact h.shown.writeBytes himg he hm'.symm hchunk
        (lookup_congr_bytes h.inv.tree h.root_own hsame)
    case pool => exact h.pool
    case grown => exact h.grown
    case touched =>
      intro a ha
      refine h.touched_step (suffix_refl _)
        (fun f => .imp fun q hq =>
          ⟨hq.1, (frameAt_congr_bytes h.inv.tree h.root_own hsame q hq.1).trans hq.2⟩) ?_ ha
      by_cases hae : a / PAGE_SIZE = e.ppn
      · rw [hae]
        exact .inr (.inr hhanded)
      · exact .inl (hframe a hae)
    case tabled =>
      intro q hq
      exact (hasTable_congr h.inv.tree h.root_own hsame q hq).trans (h.tabled q hq)

/-- **The copy loop** of a segment needs every page that it writes mapped. -/
theorem Loading.copySegment {va remaining : Nat}
    (hva : va < WORD) (hfree : ∀ k < remaining, K (path (wrapAdd va k)) = none) :
    Attempt (copySegment elf (t * PAGE_SIZE) ph va remaining s)
      (∀ k < remaining, img (path (wrapAdd va k)) ≠ none)
      (Reached K kr t s0 own0 s.pool (img.copySegment elf ph va remaining) tab) := by
  induction remaining using Nat.strong_induction_on generalizing s own img va with
  | _ remaining ih =>
    rw [Sv39.copySegment, Image.copySegment]
    by_cases hzero : remaining = 0
    · rw [if_pos hzero, if_pos hzero]
      exact (Attempt.some ⟨rfl, own, h⟩).mono (by simp [hzero]) fun _ => id
    · rw [if_neg hzero, if_neg hzero]
      obtain ⟨hle, hpage⟩ := chunkLen_le va remaining
      have hpos : 0 < chunkLen va remaining := chunkLen_pos hzero
      have hstart : wrapAdd va 0 = va := wrapAdd_of_lt hva
      have hva0 : K (path va) = none := by
        rw [← hstart]
        exact hfree 0 (Nat.pos_of_ne_zero hzero)
      have hrest : ∀ k < remaining - chunkLen va remaining,
          K (path (wrapAdd (wrapAdd va (chunkLen va remaining)) k)) = none := by
        intro k hk
        rw [wrapAdd_wrapAdd]
        exact hfree _ (by omega)
      generalize hwrite : img.writeBytes va elf (wrapAdd ph.pOffset (wrapSub va ph.pVaddr))
        (chunkLen va remaining) = img1
      have hmapped : ∀ p, img1 p = none ↔ img p = none := by
        intro p
        rw [← hwrite]
        exact Image.writeBytes_eq_none
      have hnext : ∀ s1, Reached K kr t s0 own0 s.pool img1 tab s1 →
          Attempt (Sv39.copySegment elf (t * PAGE_SIZE) ph (wrapAdd va (chunkLen va remaining))
            (remaining - chunkLen va remaining) s1)
            (∀ k < remaining - chunkLen va remaining,
              img1 (path (wrapAdd (wrapAdd va (chunkLen va remaining)) k)) ≠ none)
            (Reached K kr t s0 own0 s.pool (img1.copySegment elf ph
              (wrapAdd va (chunkLen va remaining)) (remaining - chunkLen va remaining)) tab) := by
        rintro s1 ⟨hs1, own1, h1⟩
        have hloop := ih _ (by omega) h1 (Nat.mod_lt _ (by decide)) hrest
        rwa [hs1] at hloop
      have hchunk : Attempt (Sv39.copyChunk elf (t * PAGE_SIZE) ph va (chunkLen va remaining) s)
          (img (path va) ≠ none) (Reached K kr t s0 own0 s.pool img1 tab) := by
        rw [← hwrite]
        exact h.copyChunk hva0 hpage
      simp only [ne_eq, hmapped] at hnext
      refine (hchunk.bind hnext).mono ?_ fun _ => id
      constructor
      · rintro ⟨hfirst, hothers⟩ k hk
        by_cases hin : k < chunkLen va remaining
        · rw [path_wrapAdd hva (by omega)]
          exact hfirst
        · have hk' := hothers (k - chunkLen va remaining) (by omega)
          rw [wrapAdd_wrapAdd, Nat.add_sub_cancel' (by omega)] at hk'
          exact hk'
      · intro hall
        refine ⟨hstart ▸ hall 0 (Nat.pos_of_ne_zero hzero), ?_⟩
        intro k hk
        rw [wrapAdd_wrapAdd]
        exact hall _ (by omega)

/-! ### Segments -/

/-- The kernel maps none of the addresses that the segment maps or copies to. -/
def KernelFree (K : List (Fin 512) → Found) (len : Nat) (ph : Elf64Phdr) : Prop :=
  ph.isLoaded = true → (∀ va ∈ ph.pages, K (path va) = none) ∧
    (ph.isCopied len = true → ∀ k < ph.pFilesz, K (path (wrapAdd ph.pVaddr k)) = none)

/-- **A segment** is loaded if the allocator has the frames for its pages and its bytes go
    to mapped pages. -/
theorem Loading.loadSegment (hword : ph.pVaddr < WORD)
    (hfree : KernelFree K len ph) : Attempt (loadSegment elf len (t * PAGE_SIZE) s ph)
      (Supplies s.pool (tab.demand (segmentPages ph)) ∧ img.accepts len ph)
      (Reached K kr t s0 own0 (s.pool.drop (tab.demand (segmentPages ph)))
        (img.loadSegment elf len ph) (tab.withPages (segmentPages ph))) := by
  unfold Image.loadSegment Image.accepts segmentPages
  cases hloaded : ph.isLoaded with
  | false =>
    unfold Sv39.loadSegment
    simp only [hloaded, Bool.false_eq_true, if_false]
    exact (Attempt.some ⟨rfl, own, h⟩).mono (by simp [Tabled.demand]) fun _ => id
  | true =>
    obtain ⟨hpages, hcopied⟩ := hfree hloaded
    rw [loadSegment_loaded _ hloaded]
    refine (h.loadPages hpages).bind ?_
    rintro s1 ⟨hs1, own1, h1⟩
    cases hcopy : ph.isCopied len with
    | false =>
      simp only [Bool.false_eq_true, if_false]
      exact (Attempt.some ⟨hs1, own1, h1⟩).mono (by simp) fun _ => id
    | true =>
      simp only [if_true, forall_const]
      rw [← hs1]
      exact h1.copySegment hword (hcopied hcopy)

variable {headers : List Elf64Phdr}

/-- **All segments.** -/
theorem Loading.loadSegments
    (hword : ∀ ph ∈ headers, ph.pVaddr < WORD) (hfree : ∀ ph ∈ headers, KernelFree K len ph) :
    Attempt (headers.foldlM (Sv39.loadSegment elf len (t * PAGE_SIZE)) s)
      (Supplies s.pool (tab.demand (headers.flatMap segmentPages)) ∧
        img.acceptsAll elf len headers)
      (Reached K kr t s0 own0 (s.pool.drop (tab.demand (headers.flatMap segmentPages)))
        (headers.foldl (Image.loadSegment elf len) img)
        (tab.withPages (headers.flatMap segmentPages))) := by
  induction headers generalizing s own img tab with
  | nil =>
    refine (Attempt.some ⟨rfl, own, h⟩).mono ?_ fun _ => id
    simp [Tabled.demand, Image.acceptsAll]
  | cons ph headers ih =>
    obtain ⟨hw, hword⟩ := forall_mem_cons.mp hword
    obtain ⟨hf, hfree⟩ := forall_mem_cons.mp hfree
    rw [foldlM_cons, flatMap_cons, Tabled.demand_append, supplies_add,
      show tab.withPages (_ ++ _) = _ from foldl_append]
    refine ((h.loadSegment hw hf).bind ?_).mono and_and_and_comm fun _ => id
    rintro s1 ⟨hs1, own1, h1⟩
    rw [← hs1, ← drop_drop, ← hs1]
    exact ih h1 hword hfree

/-! ### The end of a load -/

/-- **`force_wxorx`** on the image. -/
theorem Loading.forceWxorx :
    Loading K kr t s0 own0 { s with mem := forceWxorx (t * PAGE_SIZE) s.mem } own img.withoutX
      tab := by
  obtain ⟨heff, hscrub, hclean⟩ := forceWxorx_effect h.inv.tree h.root_own
  obtain ⟨htouch, _⟩ := forceWxorx_scrubbed (t := t) (F := TablePage s.mem t) s.mem
    fun i _ q g hq hg => ⟨i :: q, Nat.succ_lt_succ hq, hg⟩
  have hinv := h.inv.scrub rfl fun _ _ _ => trivial
  generalize Sv39.forceWxorx (t * PAGE_SIZE) s.mem = m' at *
  have hframeAt := htouch.frameAt t
  constructor
  case inv => exact hinv
  case shown =>
    refine h.shown.pagewise (fun p => map_eq_none_iff) ?_ ?_
    · intro p hp hnone
      rcases hscrub.lookup t p with hsame | ⟨e, rest, hold, hnew⟩
      · exact hsame
      · -- what the kernel maps is not for users
        have hkernel := (h.shown.others p hp hnone).symm.trans hold
        have hno : e.isWx = false := by
          unfold PTE.isWx
          rw [(h.inv.kernel_leaf hp hkernel).2]
          rfl
        rw [hnew, hold, PTE.withoutX_of_not_wx hno]
    · intro p pg pg' e hp hpg hpg' he
      have hbytes : ∀ o < PAGE_SIZE, m' (e.ppn * PAGE_SIZE + o) = pg.byte o := fun o ho =>
        (heff.page (h.dataFrame hp hpg he.found).foreign ho).trans (he.bytes o ho)
      rw [Image.withoutX, hpg, map_some] at hpg'
      obtain rfl := some.inj hpg'
      by_cases huser : ∃ i ∈ userEntries, [i] <+: p
      · have hfound : lookup (tables m') t p = some (e.withoutX, []) := by
          rcases hscrub.lookup t p with hsame | ⟨e0, rest, hold, hnew⟩
          · obtain ⟨i, hi, hpre⟩ := huser
            obtain ⟨a, b, d, rfl⟩ := length_eq_three.mp hp
            have hia : i = a := by simpa using hpre
            rw [PTE.withoutX_of_not_wx (hclean a (hia ▸ hi) b d e (hsame.trans he.found))]
            exact hsame.trans he.found
          · cases hold.symm.trans he.found
            exact hnew
        obtain ⟨hr, hw, hu, hx⟩ := e.flags_withoutX
        rw [he.user, he.writable, he.executable, Bool.true_and] at hx
        have hpage : (if (∃ i ∈ userEntries, [i] <+: p) ∧ pg.w = true then { pg with x := false }
            else pg) = { pg with x := pg.x && !pg.w } := by
          obtain ⟨r, _ | _, x, byte⟩ := pg <;> simp [huser]
        rw [hpage]
        exact ⟨e.withoutX, ⟨hfound, hr.trans he.readable, hw.trans he.writable, hx,
          hu.trans he.user, by rwa [PTE.ppn_withoutX]⟩, e.ppn_withoutX⟩
      · rw [if_neg fun hboth => huser hboth.1]
        have hfound := heff.lookup_root h.root_own hp.le fun ha => huser ha.2
        exact ⟨e, { he with found := hfound.trans he.found, bytes := hbytes }, rfl⟩
  case pool => exact h.pool
  case grown => exact h.grown
  case touched =>
    have hkeep : ∀ f, TablePage s.mem t f → TablePage m' t f := by
      rintro f ⟨q, hq, hf⟩
      exact ⟨q, hq, (hframeAt q).trans hf⟩
    intro a ha
    refine h.touched_step (suffix_refl _) hkeep ?_ ha
    by_cases htable : TablePage s.mem t (a / PAGE_SIZE)
    · exact .inr (.inl (hkeep _ htable))
    · exact .inl (htouch.bytes a htable)
  case tabled =>
    intro q hq
    rw [← h.tabled q hq]
    exact congrArg isSome (hframeAt q)

theorem Loading.drop (hpool : s.pool = none :: rest) :
    Loading K kr t s0 own0 { s with pool := rest } own img tab := by
  have hsuffix : rest <:+ s.pool := by
    rw [hpool]
    exact suffix_cons _ _
  have hhanded : ∀ f, Handed s0 s f → Handed s0 { s with pool := rest } f :=
    fun f hf => hf.mono hsuffix
  refine { h with inv := h.inv.drop hpool, shown := { h.shown with pages := ?_ }
                  pool := hsuffix.trans h.pool, touched := ?_ }
  · intro p pg hp hpg
    obtain ⟨e, he, hH⟩ := h.shown.pages p pg hp hpg
    exact ⟨e, he, hhanded _ hH⟩
  · intro a ha
    exact (h.touched a ha).imp_right (hhanded _)

end

def loadStack (elf : Memory) (root : Nat) (s : Phys) : Option (Option (Nat × Nat) × Phys) :=
  match s.allocPage with
  | (none, s) => some (none, s)
  | (some stackPhys, s) =>
      (mapIntoPt { s with mem := fill s.mem stackPhys PAGE_SIZE 0 } root STACK_BOTTOM stackPhys
        true true false true).map fun s =>
          (some (readLE elf 24 8, STACK_BOTTOM + PAGE_SIZE - 16),
            { s with mem := Sv39.forceWxorx root s.mem })

theorem loadElf_eq (root : Nat) (hheaders : elfHeaders elf len = some headers) :
    loadElf elf len root s =
      (headers.foldlM (Sv39.loadSegment elf len root) s).bind (loadStack elf root) := by
  unfold loadElf
  rw [hheaders]
  simp only
  cases headers.foldlM (Sv39.loadSegment elf len root) s with
  | none => rfl
  | some s1 =>
    simp only [bind_some, loadStack]
    rcases s1.allocPage with ⟨_ | stackPhys, s2⟩
    · rfl
    · simp only
      cases mapIntoPt { mem := fill s2.mem stackPhys PAGE_SIZE 0, pool := s2.pool } root
        STACK_BOTTOM stackPhys true true false true <;> rfl

/-- The image that the file asks for, before the stack is mapped. -/
def segmentsImage (elf : Memory) (len : Nat) (headers : List Elf64Phdr) : Image :=
  headers.foldl (Image.loadSegment elf len) fun _ => none

def processImage (elf : Memory) (len : Nat) (headers : List Elf64Phdr) : Image :=
  ((segmentsImage elf len headers).mapPage true true false STACK_BOTTOM).withoutX

/-- What a load ends with: no frame for the stack, or the image of the process. -/
inductive Ends (K : List (Fin 512) → Found) (kr t : Nat) (s0 : Phys) (own0 : Own) (elf : Memory)
    (img : Image) : Option (Nat × Nat) × Phys → Prop
  | refused {s : Phys} {own : Own} {img' : Image} {tab : Tabled} :
      Loading K kr t s0 own0 s own img' tab → Ends K kr t s0 own0 elf img (none, s)
  | done {s : Phys} {own : Own} {tab : Tabled} :
      Loading K kr t s0 own0 s own img tab →
      Ends K kr t s0 own0 elf img (some (readLE elf 24 8, STACK_BOTTOM + PAGE_SIZE - 16), s)

theorem Loading.loadStack (h : Loading K kr t s0 own0 s own img tab)
    (hstack : K (path STACK_BOTTOM) = none) : Attempt (loadStack elf (t * PAGE_SIZE) s)
      (Supplies s.pool 1 → Supplies s.pool (1 + tab.need STACK_BOTTOM)) fun out =>
        Ends K kr t s0 own0 elf (img.mapPage true true false STACK_BOTTOM).withoutX out ∧
          (out.1 = none ↔ ¬ Supplies s.pool 1) := by
  unfold Sv39.loadStack Phys.allocPage
  rcases hpool : s.pool with _ | ⟨_ | pa, rest⟩
  · refine (Attempt.some ⟨.refused h, ?_⟩).mono ?_ fun _ => id <;> simp [Supplies]
  · refine (Attempt.some ⟨.refused (h.drop hpool), ?_⟩).mono ?_ fun _ => id <;> simp [Supplies]
  · have hmap := h.mapPage true true false hstack hpool
    rw [Nat.add_comm 1]
    simp only [map_eq_bind, Supplies, supplies_zero, forall_const, not_true_eq_false]
    refine (hmap.bind ?_).mono (iff_of_eq (and_true _)) fun _ => id
    rintro s1 ⟨_, own1, h1⟩
    exact .some ⟨.done h1.forceWxorx, by simp⟩

/-- **`load_elf`.**  Where the kernel maps nothing, loading panics exactly when a frame for
    a page or a table is refused or a byte is to be copied into a page that is not mapped. -/
theorem loadElf_attempt (h : TablesInv (fun _ _ _ => True) K kr (· = t) s own)
    (hfinds : ∀ p, p.length = 3 → lookup (tables s.mem) t p = K p)
    (hheaders : elfHeaders elf len = some headers) (hfree : ∀ ph ∈ headers, KernelFree K len ph)
    (hstack : K (path STACK_BOTTOM) = none) : Attempt (loadElf elf len (t * PAGE_SIZE) s)
      ((Supplies s.pool ((hasTable s.mem t).demand (headers.flatMap segmentPages)) ∧
          Image.acceptsAll elf len (fun _ => none) headers) ∧
        (Supplies (s.pool.drop ((hasTable s.mem t).demand (headers.flatMap segmentPages))) 1 →
          Supplies (s.pool.drop ((hasTable s.mem t).demand (headers.flatMap segmentPages)))
            (1 + ((hasTable s.mem t).withPages (headers.flatMap segmentPages)).need STACK_BOTTOM)))
      fun out => Ends K kr t s own elf (processImage elf len headers) out ∧
        (out.1 = none ↔ ¬ Supplies
          (s.pool.drop ((hasTable s.mem t).demand (headers.flatMap segmentPages))) 1) := by
  rw [loadElf_eq _ hheaders]
  refine ((Loading.start h hfinds).loadSegments (elfHeaders_word hheaders) hfree).bind ?_
  rintro s1 ⟨hs1, own1, h1⟩
  rw [← hs1]
  exact h1.loadStack hstack

end TrainOS.Sv39
