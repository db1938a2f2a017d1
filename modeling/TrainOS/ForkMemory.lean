import TrainOS.Fork

/-!
# Fork gives the child an equal but private memory

After a successful copy the child reads what the parent reads, and the two can no longer
reach each other through a store.  Sharing is limited to pages that are neither writable
nor dirty; the parent must not have a second, writable mapping of such a page.
-/

namespace TrainOS.Sv39

open ByteMemory Option RadixTable

def userByte (m : Memory) (root va : Nat) : Option UInt8 :=
  match translate m root va with
  | some t => if t.u then some (m t.pa) else none
  | none => none

def store (m : Memory) (a : Nat) (v : UInt8) : Memory := Function.update m a v

/-- The state before a fork: the parent `pf` maps, below `2 ^ 38`, user pages of 4 KiB and
    what the kernel `kr` maps, and no frame in use by either table or mapped for user mode
    by the parent is free; the kernel's superpages may cover free frames. -/
structure ForkSource (s : Phys) (kr pf : Nat) : Prop where
  pool : PoolOk s.pool
  kernel : KernelTable s (fun _ => none) kr
  supervisor : ∀ va l, lookup (tables s.mem) kr (path va) = some l → l.1.isUser = false
  used : ∀ q f, q.length < 3 → frameAt (tables s.mem) pf q = some f →
    Foreign s (fun _ => none) f
  mapped : ∀ va t, translate s.mem (pf * PAGE_SIZE) va = some t → t.u = true →
    Foreign s (fun _ => none) (t.pa / PAGE_SIZE)
  covered : ∀ va l, lookup (tables s.mem) kr (path va) = some l →
    lookup (tables s.mem) pf (path va) = some l
  user : ∀ va e rest, va < 2 ^ 38 → lookup (tables s.mem) pf (path va) = some (e, rest) →
    (rest = [] ∧ e.isUser = true) ∨ lookup (tables s.mem) kr (path va) = some (e, rest)

/-- No frame of the parent is mapped both by a writable user page and, below `2 ^ 38`, by
    a page that is neither writable nor dirty. -/
def NoWritableAlias (s : Phys) (pf : Nat) : Prop :=
  ∀ va t va' e, translate s.mem (pf * PAGE_SIZE) va = some t → t.u = true → t.w = true →
    va' < 2 ^ 38 → lookup (tables s.mem) pf (path va') = some (e, []) →
    e.isWritable = false → e.isDirty = false → t.pa / PAGE_SIZE ≠ e.ppn

variable {s s' : Phys} {own : Own} {kr pf c : Nat}

/-! ### Paths and addresses -/

variable {p rest q : List (Fin 512)}

theorem exists_path (hp : p.length = 3) :
    ∃ va, path va = p ∧ ((∃ i ∈ userEntries, [i] <+: p) → va < 2 ^ 38) := by
  obtain ⟨a, b, d, rfl⟩ := List.length_eq_three.mp hp
  have ha := a.isLt
  have hb := b.isLt
  have hd := d.isLt
  refine ⟨a * 2 ^ 30 + b * 2 ^ 21 + d * 2 ^ 12, ?_, ?_⟩
  · have hfield : ∀ (x : Fin 512) (k va : Nat), va / 2 ^ k % 512 = x.val → vpnField k va = x := by
      intro x k va hx
      apply Fin.ext
      rw [vpnField_val]
      exact hx
    unfold path vpn2 vpn1 vpn0
    rw [hfield a 30 _ (by omega), hfield b 21 _ (by omega), hfield d 12 _ (by omega)]
  · rintro ⟨i, hi, hpre⟩
    have hai : i = a := by simpa using hpre
    have hlow := mem_userEntries.mp hi
    rw [hai] at hlow
    omega

variable {va : Nat}

theorem path_user_iff : (∃ i ∈ userEntries, [i] <+: path va) ↔ va / 2 ^ 38 % 2 = 0 := by
  have hval : (vpn2 va).val = va / 2 ^ 30 % 512 := vpnField_val 30 va
  have hentry : vpn2 va ∈ userEntries ↔ va / 2 ^ 38 % 2 = 0 := by
    rw [mem_userEntries]
    omega
  rw [← hentry]
  constructor
  · rintro ⟨i, hi, hpre⟩
    have hiv : i = vpn2 va := by simpa [path] using hpre
    rwa [← hiv]
  · exact fun hi => ⟨vpn2 va, hi, [vpn1 va, vpn0 va], rfl⟩

theorem path_user (hva : va < 2 ^ 38) : ∃ i ∈ userEntries, [i] <+: path va := by
  rw [path_user_iff, Nat.div_eq_of_lt hva]

variable {m : Memory} {f root ro : Nat} {e : PTE} {v : UInt8}

theorem giga_of_lookup {i j k : Fin 512}
    (h : lookup (tables m) f [i, j, k] = some (e, [j, k])) : tables m f i = .leaf e := by
  rcases lookup_cons_eq_some.mp h with ⟨hleaf, _⟩ | ⟨g, _, hl⟩
  · exact hleaf
  · exact absurd (lookup_rest_lt hl) (lt_irrefl _)

theorem ForkSource.forkable (h : ForkSource s kr pf) : Forkable anyEntry s kr pf := by
  refine ⟨entryRule_any, kernelEntries_any s kr, h.pool, h.kernel,
    fun q f hq hf => ⟨h.used q f hq hf, fun _ => trivial⟩, ?_, ?_⟩
  · intro p l hp hl
    obtain ⟨va, rfl, _⟩ := exists_path hp
    exact h.covered va l hl
  · intro i hi e hentry
    obtain ⟨va, hpath, hlow⟩ := exists_path (p := [i, 0, 0]) rfl
    have hva := hlow ⟨i, hi, [0, 0], rfl⟩
    have hfound : lookup (tables s.mem) pf (path va) = some (e, [0, 0]) := by
      rw [hpath]
      exact lookup_leaf _ hentry
    rcases h.user va e _ hva hfound with ⟨hnil, _⟩ | hkernel
    · cases hnil
    · rw [hpath] at hkernel
      exact giga_of_lookup hkernel

/-! ### Stores and translations -/

theorem translate_congr {m' : Memory}
    (hsame : ∀ q f, q.length < 3 → frameAt (tables m) root q = some f →
      ∀ a, a / PAGE_SIZE = f → m' a = m a) (va : Nat) :
    translate m' (root * PAGE_SIZE) va = translate m (root * PAGE_SIZE) va := by
  apply translate_of_lookup
  apply lookup_congr_frames
  intro q f _ hq hf i
  exact tables_congr (hsame q f hq hf) i

theorem store_of_ne {a b : Nat} (h : b ≠ a) : store m a v b = m b :=
  Function.update_of_ne h _ _

theorem userByte_store {a : Nat}
    (htable : ∀ q f, q.length < 3 → frameAt (tables m) root q = some f → a / PAGE_SIZE ≠ f)
    (hpage : ∀ va t, translate m (root * PAGE_SIZE) va = some t → t.u = true →
      a / PAGE_SIZE ≠ t.pa / PAGE_SIZE) (va : Nat) :
    userByte (store m a v) (root * PAGE_SIZE) va = userByte m (root * PAGE_SIZE) va := by
  have hsame : translate (store m a v) (root * PAGE_SIZE) va =
      translate m (root * PAGE_SIZE) va := by
    apply translate_congr
    intro q f hq hf b hb
    apply store_of_ne
    rintro rfl
    exact htable q f hq hf hb
  unfold userByte
  rw [hsame]
  cases ht : translate m (root * PAGE_SIZE) va with
  | none => rfl
  | some t =>
    cases hu : t.u with
    | false => simp [hu]
    | true =>
      have hne : t.pa ≠ a := by
        rintro rfl
        exact hpage va t ht hu rfl
      simp [hu, store_of_ne hne]

theorem pa_of_page (e : PTE) (va : Nat) : (e.translation (leafSize 0) va).pa / PAGE_SIZE = e.ppn ∧
      (e.translation (leafSize 0) va).pa = e.physAddr + va % PAGE_SIZE := by
  unfold PTE.translation leafSize
  rw [physAddr_eq]
  unfold PAGE_SIZE
  constructor
  · simp only
    omega
  · rfl

theorem translate_page (h : lookup (tables m) root (path va) = some (e, [])) :
    translate m (root * PAGE_SIZE) va = some (e.translation (leafSize 0) va) := by
  rw [translate_eq_lookup, h]
  rfl

theorem translate_none :
    translate m (root * PAGE_SIZE) va = none ↔ lookup (tables m) root (path va) = none := by
  rw [translate_eq_lookup]
  exact map_eq_none_iff

/-! ### The child's user pages -/

theorem PTE.ppn_page_frame {g : Nat} (hg : g * PAGE_SIZE < 2 ^ 56) (r w x u : Bool) :
    (PTE.page (g * PAGE_SIZE) r w x u).ppn = g := by
  rw [PTE.ppn_page hg, Nat.shiftRight_eq_div_pow]
  exact frame_div g

theorem ForkSource.superpage (h : ForkSource s kr pf)
    (hp : p.length = 3) (huser : ∃ i ∈ userEntries, [i] <+: p) (hrest : rest ≠ [])
    (hl : lookup (tables s.mem) pf p = some (e, rest)) : e.isUser = false := by
  obtain ⟨va, rfl, hlow⟩ := exists_path hp
  rcases h.user va e rest (hlow huser) hl with ⟨hnil, _⟩ | hkernel
  · exact absurd hnil hrest
  · exact h.supervisor va (e, rest) hkernel

variable {t : Translation}

section

variable (hf : Forked s kr pf c s' own)
include hf

/-- A user page of the child lies in a frame that was free before the fork, or it is a
    page of the parent that is neither writable nor dirty. -/
theorem Forked.user_page
    (h : ForkSource s kr pf) (ht : translate s'.mem (c * PAGE_SIZE) va = some t) (hu : t.u = true) :
    (t.pa / PAGE_SIZE * PAGE_SIZE ∈ frames s.pool) ∨
      (t.w = false ∧ ∃ va' e, va' < 2 ^ 38 ∧
        lookup (tables s.mem) pf (path va') = some (e, []) ∧ e.isWritable = false ∧
        e.isDirty = false ∧ t.pa / PAGE_SIZE = e.ppn) := by
  rw [translate_eq_lookup] at ht
  obtain ⟨⟨e', rest⟩, hl, rfl⟩ := map_eq_some_iff.mp ht
  have huser : e'.isUser = true := hu
  by_cases hlow : ∃ i ∈ userEntries, [i] <+: path va
  · cases hf.user (path va) rfl hlow with
    | unmapped _ hchild =>
      rw [hl] at hchild
      cases hchild
    | superpage hrest hparent hchild =>
      cases hl.symm.trans hchild
      rw [h.superpage rfl hlow hrest hparent] at huser
      cases huser
    | @page e _ hparent hchild hcopied =>
      cases hl.symm.trans hchild
      have hframe := (pa_of_page e' va).1
      rcases hcopied with ⟨hclean, rfl⟩ | ⟨_, g, rfl, hpool, _, _⟩
      · right
        obtain ⟨hw, hd⟩ := Bool.or_eq_false_iff.mp hclean
        obtain ⟨va', hpath, hva'⟩ := exists_path (p := path va) rfl
        refine ⟨hw, va', e', hva' hlow, ?_, hw, hd, hframe⟩
        rw [hpath]
        exact hparent
      · left
        rw [PTE.ppn_page_frame (h.pool.frame _ hpool).2] at hframe
        show (PTE.translation _ (leafSize 0) va).pa / PAGE_SIZE * PAGE_SIZE ∈ _
        rw [hframe]
        exact hpool
  · rw [hf.kernel (path va) rfl hlow] at hl
    have hsuper := h.supervisor va _ hl
    rw [huser] at hsuper
    cases hsuper

theorem Forked.table_fresh
    (heff : Effect anyEntry (inTable c) s s' (fun _ => none) own) (hq : q.length < 3)
    (hframe : frameAt (tables s'.mem) c q = some f) : ¬ Foreign s (fun _ => none) f := by
  intro hforeign
  have hown := heff.tree.owned.frameAt hf.root (by simpa using hq) hframe
  rw [heff.foreign f hforeign] at hown
  cases hown

/-- The child shares a page of the parent that is neither writable nor dirty. -/
theorem Forked.shares (hva : va < 2 ^ 38)
    (hpage : lookup (tables s.mem) pf (path va) = some (e, []))
    (hclean : (e.isWritable || e.isDirty) = false) :
    lookup (tables s'.mem) c (path va) = some (e, []) := by
  cases hf.user (path va) rfl (path_user hva) with
  | unmapped hparent _ => cases hpage.symm.trans hparent
  | superpage hrest hparent _ =>
    cases hpage.symm.trans hparent
    exact absurd rfl hrest
  | page hparent hchild hcopied =>
    cases hpage.symm.trans hparent
    rcases hcopied with ⟨_, rfl⟩ | ⟨hdirty, _⟩
    · exact hchild
    · cases hclean.symm.trans hdirty

/-- The child reads what the parent read. -/
theorem Forked.reads
    (h : ForkSource s kr pf) (heff : Effect anyEntry (inTable c) s s' (fun _ => none) own)
    (hva : va < 2 ^ 38) (ht : translate s.mem (pf * PAGE_SIZE) va = some t) (hu : t.u = true) :
    ∃ t', translate s'.mem (c * PAGE_SIZE) va = some t' ∧ t'.u = true ∧
      s'.mem t'.pa = s.mem t.pa := by
  have hmapped := h.mapped va t ht hu
  rw [translate_eq_lookup] at ht
  obtain ⟨⟨e, rest⟩, hl, rfl⟩ := map_eq_some_iff.mp ht
  have huser : e.isUser = true := hu
  cases hf.user (path va) rfl (path_user hva) with
  | unmapped hparent _ =>
    rw [hl] at hparent
    cases hparent
  | superpage hrest hparent _ =>
    cases hl.symm.trans hparent
    rw [h.superpage rfl (path_user hva) hrest hl] at huser
    cases huser
  | @page _ e' hparent hchild hcopied =>
    cases hl.symm.trans hparent
    refine ⟨_, translate_page hchild, ?_⟩
    rcases hcopied with ⟨_, rfl⟩ | ⟨_, g, rfl, hpool, _, hbytes⟩
    · exact ⟨huser, heff.bytes _ hmapped⟩
    · refine ⟨(PTE.flags_page _ _ _ _ _).2.2.2.2.1, ?_⟩
      have hframe : Foreign s (fun _ => none) e.ppn := by
        rw [← (pa_of_page e va).1]
        exact hmapped
      have hpos : va % PAGE_SIZE < PAGE_SIZE := Nat.mod_lt _ (by decide)
      show s'.mem (PTE.translation _ _ _).pa = s.mem (PTE.translation _ (leafSize 0) _).pa
      rw [(pa_of_page _ va).2, (pa_of_page e va).2, physAddr_eq,
        PTE.ppn_page_frame (h.pool.frame _ hpool).2]
      exact hbytes hframe _ hpos

/-- The child maps nothing else. -/
theorem Forked.no_more {t' : Translation} (h : ForkSource s kr pf) (hva : va < 2 ^ 38)
    (ht : translate s'.mem (c * PAGE_SIZE) va = some t') :
    ∃ t, translate s.mem (pf * PAGE_SIZE) va = some t ∧ t.u = t'.u := by
  rw [translate_eq_lookup] at ht ⊢
  obtain ⟨⟨e', rest⟩, hl, rfl⟩ := map_eq_some_iff.mp ht
  cases hf.user (path va) rfl (path_user hva) with
  | unmapped _ hchild =>
    rw [hl] at hchild
    cases hchild
  | superpage _ hparent hchild =>
    cases hl.symm.trans hchild
    rw [hparent]
    exact ⟨_, rfl, rfl⟩
  | @page e _ hparent hchild hcopied =>
    cases hl.symm.trans hchild
    rw [hparent]
    refine ⟨_, rfl, ?_⟩
    rcases hcopied with ⟨_, rfl⟩ | ⟨_, g, rfl, _⟩
    · rfl
    · -- a page of 4 KiB is a user page: the kernel has superpages only
      show e.isUser = (PTE.page _ _ _ _ _).isUser
      rw [(PTE.flags_page _ _ _ _ _).2.2.2.2.1]
      rcases h.user va e [] hva hparent with ⟨_, huser⟩ | hkernel
      · exact huser
      · exact absurd rfl (h.kernel.superpage hkernel)

theorem Forked.kernel_same
    (h : ForkSource s kr pf) (ht : translate s.mem (kr * PAGE_SIZE) va = some t) :
    translate s'.mem (c * PAGE_SIZE) va = some t ∧
      translate s.mem (pf * PAGE_SIZE) va = some t := by
  obtain ⟨⟨e, rest⟩, hl⟩ := lookup_of_translate ht
  have hparent := h.covered va _ hl
  have hrest := h.kernel.superpage hl
  have hchild : lookup (tables s'.mem) c (path va) = some (e, rest) := by
    by_cases hlow : ∃ i ∈ userEntries, [i] <+: path va
    · cases hf.user (path va) rfl hlow with
      | unmapped hnone _ =>
        rw [hparent] at hnone
        cases hnone
      | superpage _ hsuper hchild =>
        rw [hchild, ← hsuper, hparent]
      | page hpage _ _ =>
        cases hparent.symm.trans hpage
        exact absurd rfl hrest
    · rw [hf.kernel (path va) rfl hlow, hl]
  rw [← ht]
  exact ⟨translate_of_lookup (hchild.trans hl.symm), translate_of_lookup (hparent.trans hl.symm)⟩

end

/-! ### The result -/

/-- The tables of the parent are as they were. -/
theorem ForkSource.table_kept (h : ForkSource s kr pf)
    (heff : Effect anyEntry (inTable c) s s' (fun _ => none) own) (q : List (Fin 512)) (f : Nat)
    (hq : q.length < 3) (hf : frameAt (tables s.mem) pf q = some f) (a : Nat)
    (ha : a / PAGE_SIZE = f) : s'.mem a = s.mem a :=
  heff.bytes a (ha ▸ h.used q f hq hf)

/-- **Equal but private memory.**  If the copy succeeds, then the child has the user
    addresses of the parent and reads the same bytes there, has the kernel's mappings,
    and no store through a writable user page of one process changes what the other one
    reads; the parent's table and pages are untouched. -/
theorem fork_equal_private {childPt : Nat} (h : ForkSource s kr pf) (halias : NoWritableAlias s pf)
    (hrun : forkPageTable (kr * PAGE_SIZE) (pf * PAGE_SIZE) s = some (.ok childPt, s')) :
    (∀ va < 2 ^ 38, ∀ t, translate s.mem (pf * PAGE_SIZE) va = some t → t.u = true →
      ∃ t', translate s'.mem childPt va = some t' ∧ t'.u = true ∧ s'.mem t'.pa = s.mem t.pa ∧
        s'.mem t.pa = s.mem t.pa) ∧
    (∀ va < 2 ^ 38, ∀ t', translate s'.mem childPt va = some t' →
      ∃ t, translate s.mem (pf * PAGE_SIZE) va = some t ∧ t.u = t'.u) ∧
    (∀ va t, translate s.mem (kr * PAGE_SIZE) va = some t →
      translate s'.mem childPt va = some t ∧ translate s'.mem (pf * PAGE_SIZE) va = some t) ∧
    (∀ va t v, translate s'.mem childPt va = some t → t.u = true → t.w = true → ∀ va',
      userByte (store s'.mem t.pa v) (pf * PAGE_SIZE) va' =
        userByte s'.mem (pf * PAGE_SIZE) va') ∧
    (∀ va t v, translate s'.mem (pf * PAGE_SIZE) va = some t → t.u = true → t.w = true → ∀ va',
      userByte (store s'.mem t.pa v) childPt va' = userByte s'.mem childPt va') ∧
    (∀ q f, q.length < 3 → frameAt (tables s.mem) pf q = some f →
      ∀ a, a / PAGE_SIZE = f → s'.mem a = s.mem a) := by
  obtain ⟨c, own, heff, hres⟩ := forkPageTable_effect h.forkable hrun
  obtain ⟨rfl, hforked⟩ := hres childPt rfl
  have htable := h.table_kept heff
  have hparent := translate_congr htable
  have hframes : ∀ q f, q.length < 3 → frameAt (tables s'.mem) pf q = some f →
      Foreign s (fun _ => none) f := by
    intro q f hq hf
    rw [frameAt_congr fun q' g hq' hg => tables_congr (htable q' g (hq'.trans hq) hg)] at hf
    exact h.used q f hq hf
  have hfree : ∀ {f : Nat}, f * PAGE_SIZE ∈ frames s.pool → ¬ Foreign s (fun _ => none) f := by
    intro f hf hforeign
    exact hforeign.2 _ hf (frame_div f)
  refine ⟨?_, ?_, ?_, ?_, ?_, htable⟩
  · intro va hva t ht hu
    obtain ⟨t', ht', hu', hbyte⟩ := hforked.reads h heff hva ht hu
    exact ⟨t', ht', hu', hbyte, heff.bytes _ (h.mapped va t ht hu)⟩
  · intro va hva t' ht'
    exact hforked.no_more h hva ht'
  · intro va t ht
    rw [hparent]
    exact hforked.kernel_same h ht
  · -- the child writes to frames that were free
    intro va t v ht hu hw
    have hpool : t.pa / PAGE_SIZE * PAGE_SIZE ∈ frames s.pool := by
      rcases hforked.user_page h ht hu with hpool | ⟨hro, _⟩
      · exact hpool
      · rw [hw] at hro
        cases hro
    apply userByte_store
    · rintro q f hq hf rfl
      exact hfree hpool (hframes q _ hq hf)
    · intro va' t' ht' hu' heq
      rw [hparent] at ht'
      rw [heq] at hpool
      exact hfree hpool (h.mapped va' t' ht' hu')
  · -- the parent writes to frames that were in use
    intro va t v ht hu hw
    rw [hparent] at ht
    have hmapped := h.mapped va t ht hu
    apply userByte_store
    · rintro q f hq hf rfl
      exact hforked.table_fresh heff hq hf hmapped
    · intro va' t' ht' hu' heq
      rcases hforked.user_page h ht' hu' with hpool | ⟨_, va'', e, hva'', hl, hro, hclean, hpa⟩
      · rw [← heq] at hpool
        exact hfree hpool hmapped
      · exact halias va t va'' e ht hu hw hva'' hl hro hclean (heq.trans hpa)

/-! ### Two pages -/

def readOnlyPage (pa : Nat) : PTE := (PTE.empty.setPpn (pa >>> 12)).setFlags true false false true

local instance neZero_slots : NeZero 512 := ⟨by decide⟩

/-- The superpage through which the kernel reaches all of DRAM, free frames too. -/
def kernelPage : PTE := .page DRAM_BASE true true true false

/-- Tables at frame `0x80001` with the superpage of the kernel table `0x80000`, a writable page
    at address 0, frame `0x80004`, and a clean read-only page at address `0x1000`, frame `ro`. -/
def twoPages (ro : Nat) : Memory :=
  let m := writePte (fun _ => 0) (0x80000 * PAGE_SIZE) 2 kernelPage
  let m := writePte m (0x80001 * PAGE_SIZE) 2 kernelPage
  let m := writePte m (0x80001 * PAGE_SIZE) 0 (.table (0x80002 * PAGE_SIZE))
  let m := writePte m (0x80002 * PAGE_SIZE) 0 (.table (0x80003 * PAGE_SIZE))
  let m := writePte m (0x80003 * PAGE_SIZE) 0 (.page (0x80004 * PAGE_SIZE) true true false true)
  writePte m (0x80003 * PAGE_SIZE) 1 (readOnlyPage (ro * PAGE_SIZE))

theorem readOnlyPage_flags (pa : Nat) :
    (readOnlyPage pa).isLeaf = true ∧ (readOnlyPage pa).isWritable = false ∧
      (readOnlyPage pa).isDirty = false ∧ (readOnlyPage pa).isUser = true := by
  refine ⟨?_, ?_, ?_, ?_⟩
  all_goals
    simp [readOnlyPage, PTE.isLeaf, PTE.isValid, PTE.isReadable, PTE.isWritable, PTE.isExecutable,
      PTE.isDirty, PTE.isUser, PTE.setFlags, PTE.setPpn, PTE.flagByte, PTE.empty]

theorem tables_twoPages (ro : Nat) : tables (twoPages ro) =
      write (write (write (write (write (write (fun _ _ => .empty) 0x80000 2 (.leaf kernelPage))
        0x80001 2 (.leaf kernelPage)) 0x80001 0 (.branch 0x80002)) 0x80002 0 (.branch 0x80003))
        0x80003 0 (.leaf (.page (0x80004 * PAGE_SIZE) true true false true)))
        0x80003 1 (.leaf (readOnlyPage (ro * PAGE_SIZE))) := by
  have hzero : tables (fun _ => 0) = fun _ _ => .empty := by
    funext f i
    exact tables_zero f i
  have hro : (readOnlyPage (ro * PAGE_SIZE)).decode = .leaf (readOnlyPage (ro * PAGE_SIZE)) :=
    decode_eq_leaf.mpr ⟨rfl, (readOnlyPage_flags _).1⟩
  unfold twoPages
  rw [tables_writePte, tables_writePte, tables_writePte, tables_writePte, tables_writePte,
    tables_writePte, hzero, decode_table (by decide), decode_table (by decide), decode_page _ _ rfl,
    hro, kernelPage, decode_page _ _ rfl]

theorem lookup_kernelPage (i : Fin 512) (is : List (Fin 512)) :
    lookup (tables (twoPages ro)) 0x80000 (i :: is) =
      if i = 2 then some (kernelPage, is) else none := by
  rw [tables_twoPages]
  by_cases hi : i = 2 <;> simp [lookup, write, hi]

theorem lookup_twoPages (hp : p.length = 3)
    (hl : lookup (tables (twoPages ro)) 0x80001 p = some (e, rest)) :
    (rest = [] ∧ ((p = [0, 0, 0] ∧ e = .page (0x80004 * PAGE_SIZE) true true false true) ∨
      (p = [0, 0, 1] ∧ e = readOnlyPage (ro * PAGE_SIZE)))) ∨
    (e = kernelPage ∧ lookup (tables (twoPages ro)) 0x80000 p = some (e, rest)) := by
  obtain ⟨a, b, d, rfl⟩ := List.length_eq_three.mp hp
  rw [lookup_kernelPage]
  rw [tables_twoPages] at hl
  by_cases ha : a = 0
  · by_cases hb : b = 0
    · by_cases hd0 : d = 0
      · simp [lookup, write, ha, hb, hd0] at hl
        simp [ha, hb, hd0, ← hl.1, ← hl.2]
      · by_cases hd1 : d = 1
        · simp [lookup, write, ha, hb, hd1] at hl
          simp [ha, hb, hd1, ← hl.1, ← hl.2]
        · simp [lookup, write, ha, hb, hd0, hd1] at hl
    · simp [lookup, write, ha, hb] at hl
  · by_cases ha2 : a = 2
    · simp [lookup, write, ha2] at hl
      simp [ha2, ← hl.1, ← hl.2]
    · simp [lookup, write, ha, ha2] at hl

theorem frameAt_twoPages (hq : q.length < 3)
    (hf : frameAt (tables (twoPages ro)) 0x80001 q = some f) : f < 0x80100 := by
  rw [tables_twoPages] at hf
  rcases q with _ | ⟨a, _ | ⟨b, _ | ⟨d, q⟩⟩⟩
  · cases hf
    decide
  · by_cases ha : a = 0
    · simp [frameAt, write, ha] at hf
      omega
    · by_cases ha2 : a = 2 <;> simp [frameAt, write, ha, ha2] at hf
  · by_cases ha : a = 0
    · by_cases hb : b = 0
      · simp [frameAt, write, ha, hb] at hf
        omega
      · simp [frameAt, write, ha, hb] at hf
    · by_cases ha2 : a = 2 <;> simp [frameAt, write, ha, ha2] at hf
  · simp at hq
    omega

theorem readOnlyPage_ppn (hro : ro < 0x80100) : (readOnlyPage (ro * PAGE_SIZE)).ppn = ro := by
  have hsmall : ro * PAGE_SIZE < 2 ^ 56 := by
    unfold PAGE_SIZE
    omega
  unfold readOnlyPage
  rw [PTE.ppn_setFlags, PTE.ppn_setPpn (PTE.frame_lt hsmall), Nat.shiftRight_eq_div_pow]
  exact frame_div ro

/-- The two pages and the kernel table with enough free frames. -/
def twoPagesState (ro : Nat) : Phys :=
  { mem := twoPages ro, pool := framePool 0x80100 67240705 }

theorem forkSource_twoPages (hro : ro < 0x80100) :
    ForkSource (twoPagesState ro) 0x80000 0x80001 := by
  have hkernel : ∀ i f, tables (twoPagesState ro).mem 0x80000 i ≠ .branch f := by
    intro i f
    rw [twoPagesState, tables_twoPages]
    by_cases hi : i = 2 <;> simp [write, hi]
  have hsuper : kernelPage.isUser = false := (PTE.flags_page _ _ _ _ _).2.2.2.2.1
  have hforeign : ∀ f, f < 0x80100 → Foreign (twoPagesState ro) (fun _ => none) f :=
    fun f hf => foreign_framePool (.inl hf)
  constructor
  case pool => exact poolOk_framePool (by decide)
  case kernel =>
    refine ⟨hforeign _ (by decide), ?_, ?_⟩
    · exact fun i f hbranch => absurd hbranch (hkernel i f)
    · exact fun i f _ _ hbranch => absurd hbranch (hkernel i f)
  case supervisor =>
    intro va l hl
    simp only [twoPagesState, path, lookup_kernelPage] at hl
    split at hl
    · cases hl
      exact hsuper
    · cases hl
  case used =>
    intro q f hq hf
    exact hforeign f (frameAt_twoPages hq hf)
  case mapped =>
    intro va t ht hu
    rw [translate_eq_lookup] at ht
    obtain ⟨⟨e, rest⟩, hl, rfl⟩ := map_eq_some_iff.mp ht
    obtain ⟨rfl, he⟩ | ⟨rfl, -⟩ := lookup_twoPages rfl hl
    case inr => exact absurd (hsuper.symm.trans hu) (by decide)
    apply hforeign
    show (e.translation (leafSize 0) va).pa / PAGE_SIZE < _
    rw [(pa_of_page e va).1]
    rcases he with ⟨_, rfl⟩ | ⟨_, rfl⟩
    · rw [PTE.ppn_page_frame (by decide)]
      decide
    · rw [readOnlyPage_ppn hro]
      exact hro
  case covered =>
    intro va l hl
    simp only [twoPagesState, path, lookup_kernelPage] at hl
    split at hl
    · rename_i hgiga
      cases hl
      rw [twoPagesState, tables_twoPages, path, hgiga]
      simp [lookup, write]
    · cases hl
  case user =>
    intro va e rest _ hl
    refine (lookup_twoPages rfl hl).imp ?_ And.right
    rintro ⟨rfl, he⟩
    refine ⟨rfl, ?_⟩
    rcases he with ⟨_, rfl⟩ | ⟨_, rfl⟩
    · exact (PTE.flags_page _ _ _ _ _).2.2.2.2.1
    · exact (readOnlyPage_flags _).2.2.2

theorem noWritableAlias_twoPages : NoWritableAlias (twoPagesState 0x80005) 0x80001 := by
  intro va t va' e ht hu hw _ hl hro hclean
  rw [translate_eq_lookup] at ht
  obtain ⟨⟨e', rest⟩, hl', rfl⟩ := map_eq_some_iff.mp ht
  obtain ⟨rfl, he'⟩ | ⟨rfl, -⟩ := lookup_twoPages rfl hl'
  case inr => exact absurd ((PTE.flags_page _ _ _ _ _).2.2.2.2.1.symm.trans hu) (by decide)
  obtain ⟨_, he⟩ | ⟨rfl, -⟩ := lookup_twoPages rfl hl
  case inr => exact absurd ((PTE.flags_page _ _ _ _ _).2.2.1.symm.trans hro) (by decide)
  have hwritable : e'.isWritable = true := hw
  show (e'.translation (leafSize 0) va).pa / PAGE_SIZE ≠ _
  rw [(pa_of_page e' va).1]
  rcases he' with ⟨_, rfl⟩ | ⟨_, rfl⟩
  · rcases he with ⟨_, rfl⟩ | ⟨_, rfl⟩
    · rw [(PTE.flags_page _ _ _ _ _).2.2.2.2.2] at hclean
      cases hclean
    · rw [PTE.ppn_page_frame (by decide), readOnlyPage_ppn (by decide)]
      decide
  · rw [(readOnlyPage_flags _).2.1] at hwritable
    cases hwritable

theorem fork_equal_private_two_pages :
    ∃ childPt s', forkPageTable (0x80000 * PAGE_SIZE) (0x80001 * PAGE_SIZE)
        (twoPagesState 0x80005) = some (.ok childPt, s') ∧
      ∀ va t v, translate s'.mem (0x80001 * PAGE_SIZE) va = some t → t.u = true → t.w = true →
        ∀ va', userByte (store s'.mem t.pa v) childPt va' = userByte s'.mem childPt va' := by
  obtain ⟨childPt, s', hrun, _⟩ := HasFrames.forkPageTable (s := twoPagesState 0x80005) (n := 0)
    (hasFrames_framePool _ _) (0x80000 * PAGE_SIZE) (0x80001 * PAGE_SIZE)
  have hprivate := fork_equal_private (forkSource_twoPages (by decide)) noWritableAlias_twoPages
    hrun
  exact ⟨childPt, s', hrun, hprivate.2.2.2.2.1⟩

/-- A parent that maps one frame both writable and clean read-only shares it with the
    child and can change it. -/
theorem fork_shares_aliased_page :
    ∃ childPt s' t, ForkSource (twoPagesState 0x80004) 0x80000 0x80001 ∧
      forkPageTable (0x80000 * PAGE_SIZE) (0x80001 * PAGE_SIZE) (twoPagesState 0x80004) =
        some (.ok childPt, s') ∧
      translate s'.mem (0x80001 * PAGE_SIZE) 0 = some t ∧ t.u = true ∧ t.w = true ∧
      userByte s'.mem childPt 0x1000 = some 0 ∧
      userByte (store s'.mem t.pa 1) childPt 0x1000 = some 1 := by
  have hsource := forkSource_twoPages (show 0x80004 < 0x80100 by decide)
  obtain ⟨childPt, s', hrun, _⟩ := HasFrames.forkPageTable (s := twoPagesState 0x80004) (n := 0)
    (hasFrames_framePool _ _) (0x80000 * PAGE_SIZE) (0x80001 * PAGE_SIZE)
  obtain ⟨c, own, heff, hres⟩ := forkPageTable_effect hsource.forkable hrun
  obtain ⟨rfl, hforked⟩ := hres childPt rfl
  -- the parent's writable page, before and after
  have hwritable : lookup (tables (twoPages 0x80004)) 0x80001 (path 0) =
      some (.page (0x80004 * PAGE_SIZE) true true false true, []) := by
    have hpath : path 0 = [0, 0, 0] := by decide
    rw [tables_twoPages, hpath]
    simp [lookup, write]
  have hparent : translate s'.mem (0x80001 * PAGE_SIZE) 0 = some
      ((PTE.page (0x80004 * PAGE_SIZE) true true false true).translation (leafSize 0) 0) := by
    rw [translate_congr (hsource.table_kept heff)]
    exact translate_page hwritable
  -- the child's read-only page is the parent's
  have hreadOnly : lookup (tables (twoPages 0x80004)) 0x80001 (path 0x1000) =
      some (readOnlyPage (0x80004 * PAGE_SIZE), []) := by
    have hpath : path 0x1000 = [0, 0, 1] := by decide
    rw [tables_twoPages, hpath]
    simp [lookup, write]
  have hchild : translate s'.mem (c * PAGE_SIZE) 0x1000 = some
      ((readOnlyPage (0x80004 * PAGE_SIZE)).translation (leafSize 0) 0x1000) := by
    apply translate_page
    apply hforked.shares (by decide) hreadOnly
    simp [(readOnlyPage_flags _).2.1, (readOnlyPage_flags _).2.2.1]
  have hpa : ((readOnlyPage (0x80004 * PAGE_SIZE)).translation (leafSize 0) 0x1000).pa =
      0x80004 * PAGE_SIZE := by decide +kernel
  have hpa' : ((PTE.page (0x80004 * PAGE_SIZE) true true false true).translation
      (leafSize 0) 0).pa = 0x80004 * PAGE_SIZE := by decide +kernel
  have huser : ((readOnlyPage (0x80004 * PAGE_SIZE)).translation (leafSize 0) 0x1000).u = true :=
    (readOnlyPage_flags _).2.2.2
  have hforeign : Foreign (twoPagesState 0x80004) (fun _ => none) 0x80004 :=
    foreign_framePool (.inl (by decide))
  have hzero : s'.mem (0x80004 * PAGE_SIZE) = 0 := by
    rw [heff.bytes _ hforeign]
    decide +kernel
  have hafter : ∀ v, translate (store s'.mem (0x80004 * PAGE_SIZE) v) (c * PAGE_SIZE) 0x1000 =
      translate s'.mem (c * PAGE_SIZE) 0x1000 := by
    intro v
    apply translate_congr
    rintro q f hq hf a rfl
    apply store_of_ne
    rintro rfl
    exact hforked.table_fresh heff hq hf hforeign
  refine ⟨_, s', _, hsource, hrun, hparent, ?_, ?_, ?_, ?_⟩
  · decide +kernel
  · decide +kernel
  · simp [userByte, hchild, huser, hpa, hzero]
  · simp only [hpa', userByte, hafter, hchild, huser, if_true, hpa]
    rw [store, Function.update_self]

end TrainOS.Sv39
