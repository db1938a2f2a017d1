import TrainOS.AddressSpaces

/-!
# Copying an address space (`syscall/proc.rs`)

The page-table part of `sys_fork`: a fresh root receives the kernel mappings, and then
three nested loops copy the parent's tables below `2 ^ 38`.  A writable or dirty page is
copied into a fresh frame; any other page is shared.  `none` is the panic of
`copy_kernel_mappings` when it runs out of memory.
-/

namespace TrainOS.Sv39

open ByteMemory List RadixTable Runs

def forkPage (parentL0 childL0 : Nat) (i : Fin 512) (s : Phys) : Except String Unit × Phys :=
  let e := readPte s.mem parentL0 i
  if !e.isValid || !e.isLeaf then (.ok (), s)
  else if e.isWritable || e.isDirty then
    match s.allocPage with
    | (none, s) => (.error "OOM", s)
    | (some newPage, s) =>
        let m := copy s.mem e.physAddr newPage PAGE_SIZE
        (.ok (), { s with
          mem := writePte m childL0 i (.page newPage true true e.isExecutable true) })
  else (.ok (), { s with mem := writePte s.mem childL0 i e })

/-- One entry of a second-level table; superpages are taken over as they are. -/
def forkTable (parentL1 childL1 : Nat) (i : Fin 512) (s : Phys) : Except String Unit × Phys :=
  let e := readPte s.mem parentL1 i
  if !e.isValid then (.ok (), s)
  else if e.isLeaf then (.ok (), { s with mem := writePte s.mem childL1 i e })
  else
    match newTable s childL1 i with
    | (none, s) => (.error "OOM", s)
    | (some childL0, s) => forEach (forkPage e.physAddr childL0) (finRange 512) s

def forkRegion (parentPt childPt : Nat) (i : Fin 512) (s : Phys) : Except String Unit × Phys :=
  let e := readPte s.mem parentPt i
  if !e.isValid then (.ok (), s)
  else if e.isLeaf then (.ok (), s)
  else
    match newTable s childPt i with
    | (none, s) => (.error "OOM", s)
    | (some childL1, s) => forEach (forkTable e.physAddr childL1) (finRange 512) s

def userEntries : List (Fin 512) := (finRange 256).map (Fin.castLE (by decide))

def copyUserMappingsFull (parentPt childPt : Nat) (s : Phys) : Except String Unit × Phys :=
  forEach (forkRegion parentPt childPt) userEntries s

/-- The page-table part of `sys_fork`: the root of the child. -/
def forkPageTable (kernelRoot parentPt : Nat) (s : Phys) : Option (Except String Nat × Phys) :=
  match s.allocPage with
  | (none, s) => some (.error "OOM", s)
  | (some childPt, s) =>
      match copyKernelMappings kernelRoot childPt
          { s with mem := fill s.mem childPt PAGE_SIZE 0 } with
      | none => none
      | some s =>
          match copyUserMappingsFull parentPt childPt s with
          | (.ok (), s) => some (.ok childPt, s)
          | (.error err, s) => some (.error err, s)

/-! ### What one path of the child looks like -/

variable {ok : PTE → Prop} {s0 s s' : Phys} {own own' : Own}
  {affected : Nat → List (Fin 512) → Prop}
variable {pf child kr c : Nat} {q p : List (Fin 512)}

/-- The child's leaf `e'` for the parent's leaf `e`: the same entry, or a writable one
    for a frame that was free before and holds the bytes of the parent's frame, unless
    that was free itself. -/
def LeafCopied (s0 s : Phys) (own : Own) (e e' : PTE) : Prop :=
  ((e.isWritable || e.isDirty) = false ∧ e' = e) ∨
  ((e.isWritable || e.isDirty) = true ∧
    ∃ g, e' = .page (g * PAGE_SIZE) true true e.isExecutable true ∧
      g * PAGE_SIZE ∈ frames s0.pool ∧ Foreign s own g ∧
      (Foreign s0 (fun _ => none) e.ppn →
        ∀ k < PAGE_SIZE, s.mem (g * PAGE_SIZE + k) = s0.mem (e.physAddr + k)))

/-- What the child finds at path `p`, given what the parent found in state `s0`. -/
inductive ForkedAt (s0 : Phys) (pf child : Nat) (s : Phys) (own : Own) (p : List (Fin 512)) : Prop
  | unmapped : lookup (tables s0.mem) pf p = none → lookup (tables s.mem) child p = none →
      ForkedAt s0 pf child s own p
  | superpage {e : PTE} {rest : List (Fin 512)} : rest ≠ [] →
      lookup (tables s0.mem) pf p = some (e, rest) →
      lookup (tables s.mem) child p = some (e, rest) → ForkedAt s0 pf child s own p
  | page {e e' : PTE} : lookup (tables s0.mem) pf p = some (e, []) →
      lookup (tables s.mem) child p = some (e', []) → LeafCopied s0 s own e e' →
      ForkedAt s0 pf child s own p

theorem Effect.lookup_root (h : Effect ok affected s s' own own')
    (hroot : own child = some (child, [])) (hp : p.length ≤ 3) (hout : ¬ affected child p) :
    lookup (tables s'.mem) child p = lookup (tables s.mem) child p :=
  h.same child child [] p hroot (by simpa using hp) hout

variable {e : PTE}

theorem LeafCopied.keep {e' : PTE} (h : LeafCopied s0 s own e e')
    (heff : Effect ok affected s s' own own') : LeafCopied s0 s' own' e e' := by
  rcases h with hshared | ⟨hcopied, g, hentry, hpool, hforeign, hbytes⟩
  · exact .inl hshared
  · refine .inr ⟨hcopied, g, hentry, hpool, heff.foreign_of hforeign, ?_⟩
    intro hsource k hk
    rw [heff.page hforeign hk]
    exact hbytes hsource k hk

theorem ForkedAt.keep (h : ForkedAt s0 pf child s own p) (hroot : own child = some (child, []))
    (hp : p.length ≤ 3) (heff : Effect ok affected s s' own own') (hout : ¬ affected child p) :
    ForkedAt s0 pf child s' own' p := by
  have hsame := heff.lookup_root hroot hp hout
  cases h with
  | unmapped hparent hchild => exact .unmapped hparent (hsame.trans hchild)
  | superpage hrest hparent hchild => exact .superpage hrest hparent (hsame.trans hchild)
  | page hparent hchild hcopied => exact .page hparent (hsame.trans hchild) (hcopied.keep heff)

/-! ### The loops -/

/-- Since state `s0` only the child's table has changed, and `c` is its frame at path `q`. -/
structure ForkCtx (ok : PTE → Prop) (s0 : Phys) (child : Nat) (q : List (Fin 512)) (c : Nat)
    (s : Phys) (own : Own) : Prop where
  effect : Effect ok (inTable child) s0 s (fun _ => none) own
  root : own child = some (child, [])
  frame : frameAt (tables s.mem) child q = some c

theorem ForkCtx.own_frame (h : ForkCtx ok s0 child q c s own) (hq : q.length < 3) :
    own c = some (child, q) :=
  h.effect.tree.owned.frameAt h.root (by simpa using hq) h.frame

theorem ForkCtx.step (h : ForkCtx ok s0 child q c s own) (hq : q.length < 3)
    (heff : Effect ok (under child (q ++ [i])) s s' own own') :
    ForkCtx ok s0 child q c s' own' := by
  refine ⟨h.effect.trans (heff.mono fun r p ha => ha.1), heff.keep _ _ h.root, ?_⟩
  apply heff.frameAt h.effect.tree h.root (by simpa using hq) _ h.frame
  intro p hp ha
  have hshort := hp.length_le
  have hlong := ha.2.length_le
  simp only [nil_append, length_append, length_singleton] at hshort hlong
  omega

/-- The paths of root `r` that go through one of the entries `todo` below `q`. -/
def underAny (r : Nat) (q todo : List (Fin 512)) : Nat → List (Fin 512) → Prop :=
  fun r' p => r' = r ∧ ∃ i ∈ todo, q ++ [i] <+: p

theorem index_unique {i j : Fin 512} (hi : q ++ [i] <+: p) (hj : q ++ [j] <+: p) : i = j := by
  have hpre := prefix_of_prefix_length_le hi hj (by simp)
  have heq := hpre.eq_of_length (by simp)
  simpa using heq

/-- The full paths that start with `q` were copied. -/
def ForkedBelow (s0 : Phys) (pf child : Nat) (q : List (Fin 512)) (s : Phys) (own : Own) : Prop :=
  ∀ p, q <+: p → p.length = 3 → ForkedAt s0 pf child s own p

/-- At the full paths that start with `q` the child finds what `before` says. -/
def FindsBelow (before : List (Fin 512) → Option (PTE × List (Fin 512))) (child : Nat)
    (q : List (Fin 512)) (s : Phys) : Prop :=
  ∀ p, q <+: p → p.length = 3 → lookup (tables s.mem) child p = before p

variable {res : Except String Unit}

/-- A pass over entry `i` below `q`, where the child finds what `before` says, touches only this
    entry and copies it. -/
def CopiesEntry (ok : PTE → Prop) (s0 : Phys) (pf child c : Nat) (q : List (Fin 512)) (i : Fin 512)
    (before : List (Fin 512) → Option (PTE × List (Fin 512)))
    (pass : Phys → Except String Unit × Phys) : Prop :=
  ∀ s s' own res, ForkCtx ok s0 child q c s own → FindsBelow before child (q ++ [i]) s →
    pass s = (res, s') → ∃ own', Effect ok (under child (q ++ [i])) s s' own own' ∧
      (res = .ok () → ForkedBelow s0 pf child (q ++ [i]) s' own')

/-- **The loop rule.**  A loop over entries below `q`, each pass of which touches only
    its own entry and copies it, copies them all. -/
theorem forkLoop_effect {body : Fin 512 → Phys → Except String Unit × Phys}
    {before : List (Fin 512) → Option (PTE × List (Fin 512))}
    {todo : List (Fin 512)} (hq : q.length < 3)
    (hbody : ∀ i ∈ todo, CopiesEntry ok s0 pf child c q i before (body i))
    (hnodup : todo.Nodup) (hctx : ForkCtx ok s0 child q c s own)
    (hbefore : ∀ i ∈ todo, FindsBelow before child (q ++ [i]) s)
    (hrun : forEach body todo s = (res, s')) :
    ∃ own', Effect ok (underAny child q todo) s s' own own' ∧
      (res = .ok () → ∀ i ∈ todo, ForkedBelow s0 pf child (q ++ [i]) s' own') := by
  induction todo generalizing s own with
  | nil =>
    cases hrun
    exact ⟨own, .refl hctx.effect.tree, by simp⟩
  | cons i todo ih =>
    obtain ⟨hi, hnodup'⟩ := nodup_cons.mp hnodup
    have hfirst : ∀ r p, under child (q ++ [i]) r p → underAny child q (i :: todo) r p :=
      fun r p hu => ⟨hu.1, i, mem_cons_self, hu.2⟩
    rcases forEach_cons hrun with ⟨s1, hpass, hrest⟩ | ⟨err, rfl, hpass⟩
    · obtain ⟨own1, heff1, hdone⟩ :=
        hbody i mem_cons_self s s1 own _ hctx (hbefore i mem_cons_self) hpass
      have hctx1 := hctx.step hq heff1
      have hbefore1 : ∀ j ∈ todo, FindsBelow before child (q ++ [j]) s1 := by
        intro j hj p hp hlen
        rw [heff1.lookup_root hctx.root hlen.le]
        · exact hbefore j (mem_cons_of_mem i hj) p hp hlen
        · rintro ⟨_, hpi⟩
          rw [index_unique hpi hp] at hi
          exact hi hj
      obtain ⟨own2, heff2, hdone2⟩ :=
        ih (fun j hj => hbody j (mem_cons_of_mem i hj)) hnodup' hctx1 hbefore1 hrest
      have hlater : ∀ r p, underAny child q todo r p → underAny child q (i :: todo) r p := by
        rintro r p ⟨hr, j, hj, hpre⟩
        exact ⟨hr, j, mem_cons_of_mem i hj, hpre⟩
      refine ⟨own2, (heff1.mono hfirst).trans (heff2.mono hlater), ?_⟩
      intro hok j hj
      rcases mem_cons.mp hj with rfl | hj
      · intro p hp hlen
        apply (hdone rfl p hp hlen).keep hctx1.root hlen.le heff2
        rintro ⟨_, k, hk, hpk⟩
        rw [index_unique hp hpk] at hi
        exact hi hk
      · exact hdone2 hok j hj
    · obtain ⟨own1, heff1, _⟩ :=
        hbody i mem_cons_self s s' own _ hctx (hbefore i mem_cons_self) hpass
      exact ⟨own1, heff1.mono hfirst, by simp⟩

/-! ### The three levels -/

/-- A frame of the parent's table: it is not handed out, and its words satisfy `ok`. -/
def ParentFrame (ok : PTE → Prop) (s0 : Phys) (f : Nat) : Prop :=
  Foreign s0 (fun _ => none) f ∧ ∀ i, ok (readPte s0.mem (f * PAGE_SIZE) i)

variable {f n : Nat}

section

variable (h : ForkCtx ok s0 child q c s own) (hf : ParentFrame ok s0 f)
include h hf

theorem ForkCtx.parent_word (i : Fin 512) :
    readPte s.mem (f * PAGE_SIZE) i = readPte s0.mem (f * PAGE_SIZE) i :=
  h.effect.readPte_foreign hf.1 i

theorem ForkCtx.parent_entry (i : Fin 512) :
    tables s.mem f i = tables s0.mem f i :=
  congrArg PTE.decode (h.parent_word hf i)

end

variable {i : Fin 512} {body : Nat → Fin 512 → Phys → Except String Unit × Phys} {k : Nat}

theorem lookup_child {rest : List (Fin 512)}
    (hframe : frameAt (tables s.mem) child q = some c) (hentry : tables s.mem c i = .leaf e) :
    lookup (tables s.mem) child (q ++ i :: rest) = some (e, rest) := by
  rw [lookup_frameAt hframe, lookup_leaf _ hentry]

/-- A writable or dirty page is copied into a fresh frame. -/
theorem copyPage_effect {page : Nat} {rest : List (Option Nat)}
    (hq : q.length = 2) (hctx : ForkCtx ok s0 child q c s own) (hpool : s.pool = some page :: rest)
    (hcopied : (e.isWritable || e.isDirty) = true) :
    let m := writePte (copy s.mem e.physAddr page PAGE_SIZE) (c * PAGE_SIZE) i
      (.page page true true e.isExecutable true)
    Effect ok (under child (q ++ [i])) s { mem := m, pool := rest } own own ∧
      LeafCopied s0 { mem := m, pool := rest } own e
        (.page page true true e.isExecutable true) := by
  intro m
  have hown := hctx.own_frame (by omega)
  have htree := hctx.effect.tree
  obtain ⟨hpage, _, hfresh, _⟩ := htree.next_frame hpool
  set g := page / PAGE_SIZE
  have hbytes : ∀ a, a / PAGE_SIZE ≠ g → copy s.mem e.physAddr page PAGE_SIZE a = s.mem a := by
    intro a ha
    rw [physAddr_eq, hpage]
    exact copy_bytes ha
  obtain ⟨htake, hforeign⟩ := takeFrame_effect (m := copy s.mem e.physAddr page PAGE_SIZE)
    htree hpool hbytes
  have hlast : q.length + 1 < 3 → ∀ g,
      (PTE.page page true true e.isExecutable true).decode ≠ .branch g := by
    intro hlevel
    omega
  have hwrite := writeEntry_effect (i := i) htake.tree hown (htree.rule.page _ _ _ _ _) hlast
  refine ⟨htake.of_nowhere.trans hwrite, .inr ⟨hcopied, g, ?_, ?_, hwrite.foreign_of hforeign, ?_⟩⟩
  · rw [← hpage]
  · rw [← hpage]
    apply frames_subset_of_suffix hctx.effect.pool
    rw [hpool]
    exact mem_cons_self
  · intro hsource k hk
    have hframe : (g * PAGE_SIZE + k) / PAGE_SIZE ≠ c := by
      rw [frame_add g hk]
      exact (ne_of_fresh hfresh hown).symm
    show writePte _ _ _ _ _ = _
    rw [writePte_bytes hframe, hpage, copy_apply_of_mem _ (Nat.le_add_right _ _) (by omega),
      Nat.add_sub_cancel_left, physAddr_eq]
    exact hctx.effect.page hsource hk

/-- **Level zero.** -/
theorem forkPage_effect (hq : q.length = 2)
    (hparent : frameAt (tables s0.mem) pf q = some f) (hf : ParentFrame ok s0 f) :
    CopiesEntry ok s0 pf child c q i (fun _ => none)
      (forkPage (f * PAGE_SIZE) (c * PAGE_SIZE) i) := by
  intro s s' own res hctx hbefore hrun
  have hown := hctx.own_frame (by omega)
  have htree := hctx.effect.tree
  have hword := hctx.parent_word hf i
  -- a full path through this entry ends with it
  have hpath : ∀ p, q ++ [i] <+: p → p.length = 3 → p = q ++ [i] := by
    intro p hpre hlen
    exact (hpre.eq_of_length (by simp [hq, hlen])).symm
  have hlast : q.length + 1 < 3 → ∀ (e : PTE) g, e.decode ≠ .branch g := by
    intro hlevel
    omega
  unfold forkPage at hrun
  generalize readPte s.mem (f * PAGE_SIZE) i = e at hword hrun
  have hfound : lookup (tables s0.mem) pf (q ++ [i]) = if e.isLeaf then some (e, []) else none := by
    rw [lookup_frameAt hparent, lookup_last, hword]
  cases hleaf : e.isLeaf with
  | false =>
    simp only [hleaf, Bool.not_false, Bool.or_true, if_true] at hrun
    cases hrun
    refine ⟨own, .refl htree, ?_⟩
    intro _ p hpre hlen
    refine .unmapped ?_ (hbefore p hpre hlen)
    rw [hpath p hpre hlen, hfound, hleaf]
    rfl
  | true =>
    rw [hleaf, if_pos rfl] at hfound
    simp only [PTE.isValid_of_isLeaf hleaf, hleaf, Bool.not_true, Bool.or_self,
      Bool.false_eq_true, if_false] at hrun
    -- in both cases the child's entry becomes a leaf
    have hplaced : ∀ {m : Memory} {e' : PTE} {own' : Own} {rest : List (Option Nat)},
        Effect ok (under child (q ++ [i])) s { mem := m, pool := rest } own own' →
        tables m c i = .leaf e' → LeafCopied s0 { mem := m, pool := rest } own' e e' →
        ForkedBelow s0 pf child (q ++ [i]) { mem := m, pool := rest } own' := by
      intro m e' own' rest heff hleaf' hcopied p hpre hlen
      have hctx' := hctx.step (by omega) heff
      rw [hpath p hpre hlen]
      exact .page hfound (lookup_child hctx'.frame hleaf') hcopied
    by_cases hcopied : (e.isWritable || e.isDirty) = true
    · simp only [hcopied, if_true, Phys.allocPage] at hrun
      rcases hpool : s.pool with _ | ⟨_ | page, rest⟩
      · rw [hpool] at hrun
        cases hrun
        exact ⟨own, .refl htree, by simp⟩
      · rw [hpool] at hrun
        cases hrun
        exact ⟨own, .drop htree hpool, by simp⟩
      · rw [hpool] at hrun
        cases hrun
        obtain ⟨heff, hleafCopied⟩ := copyPage_effect (i := i) hq hctx hpool hcopied
        refine ⟨own, heff, fun _ => hplaced heff ?_ hleafCopied⟩
        rw [tables_writePte, write_self]
        exact decode_page _ _ rfl
    · simp only [hcopied] at hrun
      cases hrun
      have hok : ok e := hword ▸ hf.2 i
      have heff := writeEntry_effect (i := i) htree hown hok fun hlevel => hlast hlevel e
      refine ⟨own, heff, fun _ => hplaced heff ?_ (.inl ⟨by simpa using hcopied, rfl⟩)⟩
      rw [tables_writePte, write_self]
      exact decode_eq_leaf.mpr ⟨rfl, hleaf⟩

theorem exists_index (hpre : q <+: p) (hlen : q.length < p.length) : ∃ i, q ++ [i] <+: p := by
  obtain ⟨t, rfl⟩ := hpre
  cases t with
  | nil => simp at hlen
  | cons i t => exact ⟨i, t, by simp⟩

/-- A subtree of the child is copied below a new table. -/
theorem forkSub_effect (hq : q.length < 2) (hctx : ForkCtx ok s0 child q c s own)
    (hbody : ∀ c' j, CopiesEntry ok s0 pf child c' (q ++ [i]) j (fun _ => none)
      (body (c' * PAGE_SIZE) j))
    (hrun : (match newTable s (c * PAGE_SIZE) i with
      | (none, s) => (.error "OOM", s)
      | (some l, s) => forEach (body l) (finRange 512) s) = (res, s')) :
    ∃ own', Effect ok (under child (q ++ [i])) s s' own own' ∧
      (res = .ok () → ForkedBelow s0 pf child (q ++ [i]) s' own') := by
  have hown := hctx.own_frame (by omega)
  rcases hnew : newTable s (c * PAGE_SIZE) i with ⟨_ | l, s1⟩
  · obtain ⟨own1, heff1, _, _⟩ := newTable_effect hctx.effect.tree hown hnew
    rw [hnew] at hrun
    cases hrun
    exact ⟨own1, heff1, by simp⟩
  · obtain ⟨own1, heff1, _, hres⟩ := newTable_effect hctx.effect.tree hown hnew
    obtain ⟨c', rfl, hbranch, _, hempty⟩ := hres l rfl
    rw [hnew] at hrun
    have hctx1 := hctx.step (by omega) heff1
    have hframe : frameAt (tables s1.mem) child (q ++ [i]) = some c' :=
      frameAt_snoc.mpr ⟨c, hctx1.frame, hbranch⟩
    have hctx' : ForkCtx ok s0 child (q ++ [i]) c' s1 own1 := ⟨hctx1.effect, hctx1.root, hframe⟩
    have hbefore : ∀ j ∈ finRange 512,
        FindsBelow (fun _ => none) child (q ++ [i] ++ [j]) s1 := by
      rintro j _ p ⟨t, rfl⟩ _
      rw [append_assoc, lookup_frameAt hframe]
      exact lookup_cleared hempty _
    have hlen : (q ++ [i]).length < 3 := by
      simp only [length_append, length_cons, length_nil]
      omega
    obtain ⟨own2, heff2, hdone⟩ := forkLoop_effect hlen (fun j _ => hbody c' j)
      (nodup_finRange 512) hctx' hbefore hrun
    have hmono : ∀ r p, underAny child (q ++ [i]) (finRange 512) r p →
        under child (q ++ [i]) r p := by
      rintro r p ⟨hr, j, _, hpre⟩
      exact ⟨hr, (prefix_append _ _).trans hpre⟩
    refine ⟨own2, heff1.trans (heff2.mono hmono), ?_⟩
    intro hok p hpre hp
    obtain ⟨j, hj⟩ := exists_index hpre (by omega)
    exact hdone hok j (mem_finRange j) p hj hp

/-- **Level one.** -/
theorem forkTable_effect (hq : q.length = 1)
    (hused : ∀ q f, q.length < 3 → frameAt (tables s0.mem) pf q = some f → ParentFrame ok s0 f)
    (hparent : frameAt (tables s0.mem) pf q = some f) :
    CopiesEntry ok s0 pf child c q i (fun _ => none)
      (forkTable (f * PAGE_SIZE) (c * PAGE_SIZE) i) := by
  intro s s' own res hctx hbefore hrun
  have htree := hctx.effect.tree
  have hframe := hused q f (by omega) hparent
  have hsame := hctx.parent_entry hframe i
  unfold forkTable at hrun
  cases hentry : tables s.mem f i with
  | empty =>
    have hinvalid := decode_eq_empty.mp hentry
    simp only [hinvalid, Bool.not_false, if_true] at hrun
    cases hrun
    refine ⟨own, .refl htree, ?_⟩
    rintro _ p ⟨t, rfl⟩ hlen
    refine .unmapped ?_ (hbefore _ ⟨t, rfl⟩ hlen)
    rw [append_assoc, lookup_frameAt hparent]
    exact lookup_empty _ (hsame.symm.trans hentry)
  | leaf e =>
    obtain ⟨heq, hleaf⟩ := decode_eq_leaf.mp hentry
    rw [heq] at hleaf
    simp only [heq, PTE.isValid_of_isLeaf hleaf, hleaf, Bool.not_true, Bool.false_eq_true,
      if_false, if_true] at hrun
    cases hrun
    have hdecode : e.decode = .leaf e := decode_eq_leaf.mpr ⟨rfl, hleaf⟩
    have hok : ok e := by
      rw [← heq, hctx.parent_word hframe i]
      exact hframe.2 i
    have heff := writeEntry_effect (i := i) (e := e) htree (hctx.own_frame (by omega)) hok
      (fun _ g hg => by rw [hdecode] at hg; cases hg)
    have hctx' := hctx.step (by omega) heff
    refine ⟨own, heff, ?_⟩
    rintro _ p ⟨t, rfl⟩ hlen
    have ht : t ≠ [] := by
      rintro rfl
      simp [hq] at hlen
    rw [append_assoc]
    refine .superpage (e := e) ht ?_ (lookup_child hctx'.frame ?_)
    · rw [lookup_frameAt hparent]
      exact lookup_leaf _ (hsame.symm.trans hentry)
    · rw [tables_writePte, write_self, hdecode]
  | branch g =>
    obtain ⟨hvalid, hleaf, hppn⟩ := decode_eq_branch.mp hentry
    simp only [hvalid, hleaf, Bool.not_true, Bool.false_eq_true, if_false, physAddr_eq,
      hppn] at hrun
    have hsub : frameAt (tables s0.mem) pf (q ++ [i]) = some g :=
      frameAt_snoc.mpr ⟨f, hparent, hsame.symm.trans hentry⟩
    have hlen : (q ++ [i]).length = 2 := by simp [hq]
    exact forkSub_effect (by omega) hctx
      (fun _ _ => forkPage_effect hlen hsub (hused _ g (by omega) hsub)) hrun

/-- **Level two.**  Where the parent has no table of its own, it maps there what the
    kernel maps. -/
theorem forkRegion_effect
    (hused : ∀ q f, q.length < 3 → frameAt (tables s0.mem) pf q = some f → ParentFrame ok s0 f)
    (hkernel : ∀ p l, p.length = 3 → lookup (tables s0.mem) kr p = some l →
      lookup (tables s0.mem) pf p = some l)
    (hgiga : ∀ e, tables s0.mem pf i = .leaf e → tables s0.mem kr i = .leaf e) :
    CopiesEntry ok s0 pf child child [] i (lookup (tables s0.mem) kr)
      (forkRegion (pf * PAGE_SIZE) (child * PAGE_SIZE) i) := by
  intro s s' own res hctx hbefore hrun
  have htree := hctx.effect.tree
  have hsame := hctx.parent_entry (hused [] pf (by decide) rfl) i
  unfold forkRegion at hrun
  cases hentry : tables s.mem pf i with
  | empty =>
    have hinvalid := decode_eq_empty.mp hentry
    simp only [hinvalid, Bool.not_false, if_true] at hrun
    cases hrun
    refine ⟨own, .refl htree, ?_⟩
    rintro _ p ⟨t, rfl⟩ hlen
    have hnone : lookup (tables s0.mem) pf ([] ++ [i] ++ t) = none :=
      lookup_empty _ (hsame.symm.trans hentry)
    refine .unmapped hnone ?_
    rw [hbefore _ ⟨t, rfl⟩ hlen, Option.eq_none_iff_forall_ne_some]
    intro l hl
    rw [hkernel _ l hlen hl] at hnone
    cases hnone
  | leaf e =>
    obtain ⟨heq, hleaf⟩ := decode_eq_leaf.mp hentry
    rw [heq] at hleaf
    simp only [heq, PTE.isValid_of_isLeaf hleaf, hleaf, Bool.not_true, Bool.false_eq_true,
      if_false, if_true] at hrun
    cases hrun
    refine ⟨own, .refl htree, ?_⟩
    rintro _ p ⟨t, rfl⟩ hlen
    have ht : t ≠ [] := by
      rintro rfl
      simp at hlen
    have hparent := hsame.symm.trans hentry
    refine .superpage ht (lookup_leaf _ hparent) ?_
    rw [hbefore _ ⟨t, rfl⟩ hlen]
    exact lookup_leaf _ (hgiga e hparent)
  | branch g =>
    obtain ⟨hvalid, hleaf, hppn⟩ := decode_eq_branch.mp hentry
    simp only [hvalid, hleaf, Bool.not_true, Bool.false_eq_true, if_false, physAddr_eq,
      hppn] at hrun
    have hsub : frameAt (tables s0.mem) pf ([] ++ [i]) = some g :=
      frameAt_snoc.mpr ⟨pf, rfl, hsame.symm.trans hentry⟩
    exact forkSub_effect (by decide) hctx (fun _ _ => forkTable_effect rfl hused hsub) hrun

/-! ### The whole copy -/

theorem nodup_userEntries : userEntries.Nodup :=
  (nodup_finRange 256).map (Fin.castLE_injective _)

theorem mem_userEntries : i ∈ userEntries ↔ i.val < 256 := by
  unfold userEntries
  rw [mem_map]
  constructor
  · rintro ⟨j, _, rfl⟩
    exact j.isLt
  · intro hi
    exact ⟨⟨i.val, hi⟩, mem_finRange _, rfl⟩

/-- What has to hold of the parent's table `pf` and the kernel's table `kr` for the copy
    to be one: no frame of either is free, the words of both satisfy `ok`, and the parent
    has all mappings of the kernel and no leaves of the first level but those. -/
structure Forkable (ok : PTE → Prop) (s : Phys) (kr pf : Nat) : Prop where
  rule : EntryRule ok
  entries : KernelEntries ok s kr
  pool : PoolOk s.pool
  kernel : KernelTable s (fun _ => none) kr
  used : ∀ q f, q.length < 3 → frameAt (tables s.mem) pf q = some f → ParentFrame ok s f
  covered : ∀ p l, p.length = 3 → lookup (tables s.mem) kr p = some l →
    lookup (tables s.mem) pf p = some l
  giga : ∀ i ∈ userEntries, ∀ e, tables s.mem pf i = .leaf e → tables s.mem kr i = .leaf e

/-- The child's table `c` is a copy of the parent's below `2 ^ 38` and of the kernel's
    above. -/
structure Forked (s0 : Phys) (kr pf c : Nat) (s : Phys) (own : Own) : Prop where
  root : own c = some (c, [])
  user : ∀ p, p.length = 3 → (∃ i ∈ userEntries, [i] <+: p) → ForkedAt s0 pf c s own p
  kernel : ∀ p, p.length = 3 → (¬ ∃ i ∈ userEntries, [i] <+: p) →
    lookup (tables s.mem) c p = lookup (tables s0.mem) kr p

/-- **Fork.**  Only frames that were free change, and if the copy succeeds the new root
    is a copy. -/
theorem forkPageTable_effect {res : Except String Nat} (h : Forkable ok s0 kr pf)
    (hrun : forkPageTable (kr * PAGE_SIZE) (pf * PAGE_SIZE) s0 = some (res, s')) :
    ∃ c own', Effect ok (inTable c) s0 s' (fun _ => none) own' ∧
      ∀ childPt, res = .ok childPt → childPt = c * PAGE_SIZE ∧ Forked s0 kr pf c s' own' := by
  have htree := Tree.unowned h.rule h.pool
  unfold forkPageTable at hrun
  rcases hpool : s0.pool with _ | ⟨_ | childPt, rest⟩
  · simp only [Phys.allocPage, hpool] at hrun
    cases hrun
    exact ⟨0, _, .refl htree, by simp⟩
  · simp only [Phys.allocPage, hpool] at hrun
    cases hrun
    exact ⟨0, _, .drop htree hpool, by simp⟩
  · have halloc : allocTable s0 =
        some (childPt, { mem := fill s0.mem childPt PAGE_SIZE 0, pool := rest }) := by
      simp [allocTable, Phys.allocPage, hpool]
    simp only [Phys.allocPage, hpool] at hrun
    generalize ({ mem := fill s0.mem childPt PAGE_SIZE 0, pool := rest } : Phys) = s1 at *
    rcases hcopy : copyKernelMappings (kr * PAGE_SIZE) childPt s1 with _ | s2
    · rw [hcopy] at hrun
      cases hrun
    rw [hcopy] at hrun
    obtain ⟨c, own2, rfl, _, _, hown, heff, hcopied⟩ :=
      newRoot_effect htree h.kernel h.entries halloc hcopy
    have hctx : ForkCtx ok s0 c [] c s2 own2 := ⟨heff, hown, frameAt_nil _ _⟩
    have hstart : ∀ p, lookup (tables s2.mem) c p = lookup (tables s0.mem) kr p := by
      intro p
      rw [hcopied p, h.kernel.lookup_same heff]
    rcases huser : copyUserMappingsFull (pf * PAGE_SIZE) (c * PAGE_SIZE) s2 with ⟨res2, s3⟩
    simp only [huser] at hrun
    obtain ⟨own3, heff3, hdone⟩ := forkLoop_effect (by decide)
      (fun i hi => forkRegion_effect h.used h.covered (h.giga i hi)) nodup_userEntries hctx
      (fun i _ p _ _ => hstart p) huser
    refine ⟨c, own3, ?_⟩
    have hend : Effect ok (inTable c) s0 s3 (fun _ => none) own3 :=
      heff.trans (heff3.mono fun _ _ hu => hu.1)
    cases res2 with
    | error err =>
      cases hrun
      exact ⟨hend, by simp⟩
    | ok _ =>
      cases hrun
      refine ⟨hend, ?_⟩
      rintro childPt' hres
      cases hres
      refine ⟨rfl, heff3.keep c _ hown, ?_, ?_⟩
      · rintro p hlen ⟨i, hi, hpre⟩
        exact hdone rfl i hi p hpre hlen
      · intro p hlen hout
        rw [heff3.lookup_root hown hlen.le, hstart p]
        rintro ⟨_, i, hi, hpre⟩
        exact hout ⟨i, hi, hpre⟩

/-! ### With enough frames the copy succeeds -/

theorem HasFrames.forEach {ι : Type} {body : ι → Phys → Except String Unit × Phys}
    (hbody : ∀ i s n, HasFrames s.pool (n + k) →
      ∃ s', body i s = (.ok (), s') ∧ HasFrames s'.pool n) (todo : List ι)
    (hs : HasFrames s.pool (n + k * todo.length)) :
    ∃ s', Runs.forEach body todo s = (.ok (), s') ∧ HasFrames s'.pool n := by
  induction todo generalizing s with
  | nil => exact ⟨s, rfl, by simpa using hs⟩
  | cons i todo ih =>
    have hsplit : n + k * (i :: todo).length = n + k * todo.length + k := by
      rw [length_cons, Nat.mul_succ, Nat.add_assoc]
    rw [hsplit] at hs
    obtain ⟨s1, hfirst, hs1⟩ := hbody i s _ hs
    obtain ⟨s2, hrest, hs2⟩ := ih hs1
    refine ⟨s2, ?_, hs2⟩
    simp [Runs.forEach, hfirst, hrest]

theorem HasFrames.newTable (hs : HasFrames s.pool (n + 1)) (table : Nat) (i : Fin 512) :
    ∃ l s', newTable s table i = (some l, s') ∧ HasFrames s'.pool n := by
  obtain ⟨page, rest, hpool, hrest⟩ := hs.cons
  simp only [Sv39.newTable, Phys.allocPage, hpool]
  exact ⟨page, _, rfl, hrest⟩

theorem HasFrames.ite {c : Prop} [Decidable c] {x y : Except String Unit × Phys}
    (hx : ∃ s', x = (.ok (), s') ∧ HasFrames s'.pool n)
    (hy : ∃ s', y = (.ok (), s') ∧ HasFrames s'.pool n) :
    ∃ s', (if c then x else y) = (.ok (), s') ∧ HasFrames s'.pool n := by
  split
  · exact hx
  · exact hy

theorem HasFrames.forkPage (a b : Nat) (i : Fin 512) (s : Phys) (n : Nat)
    (hs : HasFrames s.pool (n + 1)) :
    ∃ s', forkPage a b i s = (.ok (), s') ∧ HasFrames s'.pool n := by
  obtain ⟨page, rest, hpool, hrest⟩ := hs.cons
  refine HasFrames.ite ⟨s, rfl, hs.weaken⟩ (HasFrames.ite ?_ ⟨_, rfl, hs.weaken⟩)
  simp only [Phys.allocPage, hpool]
  exact ⟨_, rfl, hrest⟩

theorem HasFrames.sub (hbody : ∀ l i s n, HasFrames s.pool (n + k) →
      ∃ s', body l i s = (.ok (), s') ∧ HasFrames s'.pool n)
    (hs : HasFrames s.pool (n + (k * 512 + 1))) : ∃ s', (match Sv39.newTable s c i with
      | (none, s) => (.error "OOM", s)
      | (some l, s) => Runs.forEach (body l) (finRange 512) s) = (.ok (), s') ∧
      HasFrames s'.pool n := by
  obtain ⟨l, s1, hnew, hs1⟩ := HasFrames.newTable (n := n + k * 512) hs c i
  rw [hnew]
  refine HasFrames.forEach (hbody l) _ ?_
  rw [length_finRange]
  exact hs1

theorem HasFrames.forkTable (a b : Nat) (i : Fin 512) (s : Phys) (n : Nat)
    (hs : HasFrames s.pool (n + 513)) :
    ∃ s', forkTable a b i s = (.ok (), s') ∧ HasFrames s'.pool n :=
  HasFrames.ite ⟨s, rfl, hs.weaken⟩ (HasFrames.ite ⟨_, rfl, hs.weaken⟩
    (HasFrames.sub (fun l => HasFrames.forkPage _ l) hs))

theorem HasFrames.forkRegion (a b : Nat) (i : Fin 512) (s : Phys) (n : Nat)
    (hs : HasFrames s.pool (n + 262657)) :
    ∃ s', forkRegion a b i s = (.ok (), s') ∧ HasFrames s'.pool n :=
  HasFrames.ite ⟨s, rfl, hs.weaken⟩ (HasFrames.ite ⟨_, rfl, hs.weaken⟩
    (HasFrames.sub (fun l => HasFrames.forkTable _ l) hs))

theorem HasFrames.forkPageTable (hs : HasFrames s.pool (n + 67240705)) (a b : Nat) :
    ∃ childPt s', forkPageTable a b s = some (.ok childPt, s') ∧ HasFrames s'.pool n := by
  obtain ⟨childPt, rest, hpool, hrest⟩ := HasFrames.cons (n := n + 67240704) hs
  simp only [Sv39.forkPageTable, Phys.allocPage, hpool]
  obtain ⟨s1, hcopy, hs1⟩ := HasFrames.copyLoop (n := n + 67240192)
    (s := { mem := fill s.mem childPt PAGE_SIZE 0, pool := rest }) a childPt
    (finRange 512) (by simpa using hrest)
  obtain ⟨s2, huser, hs2⟩ := HasFrames.forEach (n := n) (HasFrames.forkRegion b childPt)
    userEntries (by simpa [userEntries] using hs1)
  have hcopy' : copyKernelMappings a childPt
      { mem := fill s.mem childPt PAGE_SIZE 0, pool := rest } = some s1 := hcopy
  have huser' : copyUserMappingsFull b childPt s1 = (.ok (), s2) := huser
  simp only [hcopy', huser']
  exact ⟨childPt, s2, rfl, hs2⟩

end TrainOS.Sv39
