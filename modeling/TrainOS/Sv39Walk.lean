import TrainOS.Sv39

/-!
# What the page-table operations do to the tables

Every table frame belongs to one root and one path (`Tree`).  An operation on one
root grafts fresh frames into the tree, which no translation notices, and writes one
last-level entry, which only the translation of that page notices.  `Effect` records
this; it composes, so later developments never look into a walk again.
-/

namespace TrainOS.Sv39

open ByteMemory List RadixTable

/-! ### Memory writes seen as table writes -/

variable {g a table root va f0 : Nat}

theorem readPte_writePte_self (m : Memory) (f : Nat) (i : Fin 512) (e : PTE) :
    readPte (writePte m (f * PAGE_SIZE) i e) (f * PAGE_SIZE) i = e := by
  unfold readPte writePte
  have hlt : e.bits.toNat < 256 ^ 8 := e.bits.isLt
  rw [readLE_writeLE_same, Nat.mod_eq_of_lt hlt, BitVec.ofNat_toNat, BitVec.setWidth_eq]

variable {m : Memory} {e : PTE} {f : Nat}

theorem readPte_writePte_of_ne {i j : Fin 512} (h : ¬ (g = f ∧ j = i)) :
    readPte (writePte m (f * PAGE_SIZE) i e) (g * PAGE_SIZE) j = readPte m (g * PAGE_SIZE) j := by
  unfold readPte writePte
  rw [readLE_writeLE_disjoint]
  unfold entryAddr PAGE_SIZE
  omega

theorem word_writePte {ok : PTE → Prop} {i j : Fin 512} (he : ok e)
    (h : ok (readPte m (g * PAGE_SIZE) j)) :
    ok (readPte (writePte m (f * PAGE_SIZE) i e) (g * PAGE_SIZE) j) := by
  by_cases hsame : g = f ∧ j = i
  · obtain ⟨rfl, rfl⟩ := hsame
    rw [readPte_writePte_self]
    exact he
  · rwa [readPte_writePte_of_ne hsame]

theorem tables_writePte (m : Memory) (f : Nat) (i : Fin 512) (e : PTE) :
    tables (writePte m (f * PAGE_SIZE) i e) = write (tables m) f i e.decode := by
  funext g j
  unfold tables
  by_cases hsame : g = f ∧ j = i
  · obtain ⟨rfl, rfl⟩ := hsame
    rw [readPte_writePte_self, write_self]
  · rw [readPte_writePte_of_ne hsame]
    simp [write, hsame]

theorem slot_in_frame (f : Nat) (i : Fin 512) : f * PAGE_SIZE ≤ entryAddr (f * PAGE_SIZE) i ∧
      entryAddr (f * PAGE_SIZE) i + 8 ≤ f * PAGE_SIZE + PAGE_SIZE := by
  unfold entryAddr PAGE_SIZE
  omega

variable {f p : Nat} {m' : Memory}

theorem readPte_congr (h : ∀ a, a / PAGE_SIZE = f → m' a = m a)
    (i : Fin 512) : readPte m' (f * PAGE_SIZE) i = readPte m (f * PAGE_SIZE) i := by
  have hagree : AgreeOn m' m (entryAddr (f * PAGE_SIZE) i) 8 := by
    intro a hlo hhi
    apply h
    have hslot := slot_in_frame f i
    unfold PAGE_SIZE at *
    omega
  unfold readPte
  rw [readLE_congr hagree]

theorem tables_congr (h : ∀ a, a / PAGE_SIZE = f → m' a = m a)
    (i : Fin 512) : tables m' f i = tables m f i :=
  congrArg PTE.decode (readPte_congr h i)

theorem fill_bytes (ha : a / PAGE_SIZE ≠ g) : fill m (g * PAGE_SIZE) PAGE_SIZE 0 a = m a := by
  apply fill_apply_of_not_mem
  unfold PAGE_SIZE at *
  omega

theorem readPte_fill (m : Memory) (g : Nat) (i : Fin 512) :
    readPte (fill m (g * PAGE_SIZE) PAGE_SIZE 0) (g * PAGE_SIZE) i = .empty := by
  unfold readPte
  rw [readLE_fill_zero m (slot_in_frame g i).1 (slot_in_frame g i).2]
  rfl

theorem fill_page (hp : p = p / PAGE_SIZE * PAGE_SIZE) (ha : a / PAGE_SIZE ≠ p / PAGE_SIZE) :
    fill m p PAGE_SIZE 0 a = m a := by
  rw [hp]
  exact fill_bytes ha

theorem readPte_fill_page (m : Memory) (hp : p = p / PAGE_SIZE * PAGE_SIZE) (i : Fin 512) :
    readPte (fill m p PAGE_SIZE 0) (p / PAGE_SIZE * PAGE_SIZE) i = .empty := by
  rw [← readPte_fill m (p / PAGE_SIZE) i, ← hp]

theorem tables_fill (m : Memory) (g : Nat) :
    tables (fill m (g * PAGE_SIZE) PAGE_SIZE 0) = clear (tables m) g := by
  funext f i
  by_cases hfg : f = g
  · subst hfg
    rw [clear_self]
    unfold tables
    rw [readPte_fill]
    exact decode_eq_empty.mpr PTE.isValid_empty
  · rw [clear_of_ne hfg]
    apply tables_congr
    rintro a rfl
    exact fill_bytes hfg

theorem copy_bytes (ha : a / PAGE_SIZE ≠ g) :
    copy m (f * PAGE_SIZE) (g * PAGE_SIZE) PAGE_SIZE a = m a := by
  apply copy_apply_of_not_mem
  unfold PAGE_SIZE at *
  omega

variable {i : Fin 512}

theorem writePte_bytes (ha : a / PAGE_SIZE ≠ f) : writePte m (f * PAGE_SIZE) i e a = m a := by
  apply writeLE_apply_of_not_mem
  unfold entryAddr PAGE_SIZE at *
  omega

theorem writePte_congr (h : m a = m' a) : writePte m table i e a = writePte m' table i e a := by
  unfold writePte writeLE
  simp [h]

theorem decode_table (hg : g * PAGE_SIZE < 2 ^ 56) :
    (PTE.table (g * PAGE_SIZE)).decode = .branch g := by
  refine decode_eq_branch.mpr ⟨(PTE.flags_setFlags _ _ _ _ _).1, PTE.isLeaf_setFlags _ _ _ _ _, ?_⟩
  rw [PTE.ppn_table hg, Nat.shiftRight_eq_div_pow]
  exact frame_div g

variable {w x alloc : Bool}

theorem decode_page (pa : Nat) {r : Bool} (u : Bool) (hrwx : (r || w || x) = true) :
    (PTE.page pa r w x u).decode = .leaf (.page pa r w x u) := by
  refine decode_eq_leaf.mpr ⟨rfl, ?_⟩
  rw [PTE.isLeaf_page, hrwx]

theorem decode_empty : PTE.empty.decode = .empty := decode_eq_empty.mpr PTE.isValid_empty

theorem tables_zero (f : Nat) (i : Fin 512) : tables (fun _ => 0) f i = .empty := by
  have hbits : readPte (fun _ => 0) (f * PAGE_SIZE) i = .empty := by
    unfold readPte
    simp [readLE, PTE.empty]
  rw [tables, hbits, decode_empty]

/-! ### The allocator's answers -/

def frames (pool : List (Option Nat)) : List Nat := pool.filterMap id

/-- The allocator hands out distinct page-aligned frames below `2 ^ 56`. -/
structure PoolOk (pool : List (Option Nat)) : Prop where
  nodup : (frames pool).Nodup
  frame : ∀ p ∈ frames pool, p % PAGE_SIZE = 0 ∧ p < 2 ^ 56

variable {rest : List (Option Nat)} {o : Nat}

theorem PoolOk.tail {r : Option Nat} (h : PoolOk (r :: rest)) : PoolOk rest := by
  cases r with
  | none => exact ⟨h.nodup, h.frame⟩
  | some p =>
    exact ⟨(nodup_cons.mp h.nodup).2, fun q hq => h.frame q (mem_cons_of_mem p hq)⟩

theorem frames_subset_of_suffix {pool : List (Option Nat)} (h : rest <:+ pool) :
    ∀ p ∈ frames rest, p ∈ frames pool := by
  intro p hp
  obtain ⟨before, rfl⟩ := h
  unfold frames
  rw [filterMap_append]
  exact mem_append_right _ hp

theorem frame_mul (h : p % PAGE_SIZE = 0) : p / PAGE_SIZE * PAGE_SIZE = p :=
  Nat.div_mul_cancel (Nat.dvd_of_mod_eq_zero h)

theorem frame_add (f : Nat) (ho : o < PAGE_SIZE) : (f * PAGE_SIZE + o) / PAGE_SIZE = f := by
  unfold PAGE_SIZE at *
  omega

/-! ### Trees and effects -/

/-- Who owns a frame: the frame number of a root and a path from it. -/
abbrev Own := Nat → Option (Nat × List (Fin 512))

/-- A condition on entry words that all words built by the kernel satisfy. -/
structure EntryRule (ok : PTE → Prop) : Prop where
  empty : ok .empty
  table : ∀ p, ok (.table p)
  page : ∀ pa r w x u, ok (.page pa r w x u)

def anyEntry : PTE → Prop := fun _ => True

theorem entryRule_any : EntryRule anyEntry := ⟨trivial, fun _ => trivial, fun _ _ _ _ _ => trivial⟩

/-- The tables of all roots are trees of distinct frames whose words satisfy `ok`, and the
    allocator hands out frames that belong to none of them. -/
structure Tree (ok : PTE → Prop) (s : Phys) (own : Own) : Prop where
  rule : EntryRule ok
  entries : ∀ f o, own f = some o → ∀ i, ok (readPte s.mem (f * PAGE_SIZE) i)
  owned : Owned 3 (tables s.mem) own
  pool : PoolOk s.pool
  fresh : ∀ p ∈ frames s.pool, own (p / PAGE_SIZE) = none

/-- The frame belongs to no table and will not be handed out. -/
def Foreign (s : Phys) (own : Own) (f : Nat) : Prop :=
  own f = none ∧ ∀ p ∈ frames s.pool, p / PAGE_SIZE ≠ f

/-- From `s` to `s'` the trees grew from `own` to `own'`, foreign frames kept their bytes,
    and outside of `affected`, a set of paths of roots, no branch was lost and no lookup
    changed. -/
structure Effect (ok : PTE → Prop) (affected : Nat → List (Fin 512) → Prop) (s s' : Phys)
    (own own' : Own) : Prop where
  tree : Tree ok s' own'
  keep : ∀ f o, own f = some o → own' f = some o
  foreign : ∀ f, Foreign s own f → own' f = none
  bytes : ∀ a, Foreign s own (a / PAGE_SIZE) → s'.mem a = s.mem a
  pool : s'.pool <:+ s.pool
  branch : ∀ f r q i g, own f = some (r, q) → q.length + 1 < 3 → ¬ affected r (q ++ [i]) →
    tables s.mem f i = .branch g → tables s'.mem f i = .branch g
  same : ∀ f r q is, own f = some (r, q) → q.length + is.length ≤ 3 → ¬ affected r (q ++ is) →
    lookup (tables s'.mem) f is = lookup (tables s.mem) f is

def nowhere : Nat → List (Fin 512) → Prop := fun _ _ => False

/-- The paths of root `r` that start with `p`. -/
def under (r : Nat) (p : List (Fin 512)) : Nat → List (Fin 512) → Prop :=
  fun r' p' => r' = r ∧ p <+: p'

variable {ok : PTE → Prop} {s s' s'' : Phys} {own own' own'' : Own}
variable {affected affected' : Nat → List (Fin 512) → Prop} {r : Nat}

theorem Effect.page (h : Effect ok affected s s' own own') (hf : Foreign s own f)
    (ho : o < PAGE_SIZE) : s'.mem (f * PAGE_SIZE + o) = s.mem (f * PAGE_SIZE + o) :=
  h.bytes _ (by rwa [frame_add f ho])

theorem Effect.refl (h : Tree ok s own) : Effect ok affected s s own own where
  tree := h
  keep := fun _ _ ho => ho
  foreign := fun _ hf => hf.1
  bytes := fun _ _ => rfl
  pool := suffix_refl _
  branch := fun _ _ _ _ _ _ _ _ hb => hb
  same := fun _ _ _ _ _ _ _ => rfl

theorem Effect.foreign_of (h : Effect ok affected s s' own own')
    (hf : Foreign s own f) : Foreign s' own' f :=
  ⟨h.foreign f hf, fun p hp => hf.2 p (frames_subset_of_suffix h.pool p hp)⟩

theorem Effect.trans (h1 : Effect ok affected s s' own own')
    (h2 : Effect ok affected s' s'' own' own'') : Effect ok affected s s'' own own'' where
  tree := h2.tree
  keep := fun f o ho => h2.keep f o (h1.keep f o ho)
  foreign := fun f hf => h2.foreign f (h1.foreign_of hf)
  bytes := fun a ha => (h2.bytes a (h1.foreign_of ha)).trans (h1.bytes a ha)
  pool := h2.pool.trans h1.pool
  branch := fun f r q i g ho hl hn hb =>
    h2.branch f r q i g (h1.keep f _ ho) hl hn (h1.branch f r q i g ho hl hn hb)
  same := fun f r q is ho hd hn =>
    (h2.same f r q is (h1.keep f _ ho) hd hn).trans (h1.same f r q is ho hd hn)

theorem Effect.mono (h : Effect ok affected s s' own own')
    (himp : ∀ r p, affected r p → affected' r p) : Effect ok affected' s s' own own' :=
  { h with
    branch := fun f r q i g ho hl hn => h.branch f r q i g ho hl fun ha => hn (himp r _ ha)
    same := fun f r q is ho hd hn => h.same f r q is ho hd fun ha => hn (himp r _ ha) }

theorem Effect.of_nowhere (h : Effect ok nowhere s s' own own') :
    Effect ok affected s s' own own' :=
  h.mono fun _ _ hf => hf.elim

theorem Effect.frameAt {p q : List (Fin 512)} (h : Effect ok affected s s' own own')
    (htree : Tree ok s own) (hf : own f = some (r, p)) (hlevel : p.length + q.length < 3)
    (hout : ∀ p', p' <+: p ++ q → ¬ affected r p')
    (hg : RadixTable.frameAt (tables s.mem) f q = some g) :
    RadixTable.frameAt (tables s'.mem) f q = some g := by
  induction q generalizing f p with
  | nil =>
    rw [frameAt_nil] at hg ⊢
    exact hg
  | cons i q ih =>
    obtain ⟨k, hk, hg'⟩ := frameAt_cons.mp hg
    rw [length_cons] at hlevel
    have hassoc : p ++ i :: q = p ++ [i] ++ q := by simp
    have hkown := htree.owned f r p i k hf (by omega) hk
    have hkeep := h.branch f r p i k hf (by omega) (hout _ ⟨q, hassoc.symm⟩) hk
    refine frameAt_cons.mpr ⟨k, hkeep, ih hkown (by simp; omega) ?_ hg'⟩
    rw [← hassoc]
    exact hout

theorem Effect.drop {r : Option Nat} (h : Tree ok s own)
    (hpool : s.pool = r :: rest) : Effect ok affected s { s with pool := rest } own own where
  tree := by
    have hfresh := h.fresh
    have hok := h.pool
    rw [hpool] at hfresh hok
    refine ⟨h.rule, h.entries, h.owned, hok.tail, fun p hp => hfresh p ?_⟩
    exact frames_subset_of_suffix (suffix_cons r rest) p hp
  keep := fun _ _ ho => ho
  foreign := fun _ hf => hf.1
  bytes := fun _ _ => rfl
  pool := by
    rw [hpool]
    exact suffix_cons r rest
  branch := fun _ _ _ _ _ _ _ _ hb => hb
  same := fun _ _ _ _ _ _ _ => rfl

/-! ### The three ways to change the tables -/

theorem Tree.next_frame (h : Tree ok s own) (hpool : s.pool = some p :: rest) :
    p = p / PAGE_SIZE * PAGE_SIZE ∧ p < 2 ^ 56 ∧ own (p / PAGE_SIZE) = none ∧
      ∀ q ∈ frames rest, q / PAGE_SIZE ≠ p / PAGE_SIZE := by
  have hok := h.pool
  have hfresh := h.fresh
  rw [hpool] at hok hfresh
  obtain ⟨halign, hsmall⟩ := hok.frame p mem_cons_self
  refine ⟨(frame_mul halign).symm, hsmall, hfresh p mem_cons_self, ?_⟩
  intro q hq heq
  have hsame : q = p := by
    have halign' := (hok.frame q (mem_cons_of_mem p hq)).1
    rw [← frame_mul halign', heq, frame_mul halign]
  exact (nodup_cons.mp hok.nodup).1 (hsame ▸ hq)

theorem Foreign.ne_next (hf : Foreign s own f) (hpool : s.pool = some p :: rest) :
    f ≠ p / PAGE_SIZE := by
  have hout := hf.2
  rw [hpool] at hout
  exact (hout p mem_cons_self).symm

theorem Foreign.ne_owned {o : Nat × List (Fin 512)} (hf : Foreign s own f)
    (hg : own g = some o) : f ≠ g :=
  (ne_of_fresh hf.1 hg).symm

section

variable (h : Tree ok s own)
include h

theorem Tree.rewrite (hbytes : ∀ a o, own (a / PAGE_SIZE) = some o → m a = s.mem a) :
    Tree ok { s with mem := m } own ∧
      ∀ f r q is, own f = some (r, q) → q.length + is.length ≤ 3 →
        lookup (tables m) f is = lookup (tables s.mem) f is := by
  have hsame : ∀ f o, own f = some o → ∀ a, a / PAGE_SIZE = f → m a = s.mem a := by
    rintro f o hf a rfl
    exact hbytes a o hf
  have hkeep : ∀ f o, own f = some o → ∀ i, tables m f i = tables s.mem f i :=
    fun f o hf => tables_congr (hsame f o hf)
  refine ⟨⟨h.rule, ?_, ?_, h.pool, h.fresh⟩, ?_⟩
  · intro f o hf i
    rw [readPte_congr (hsame f o hf)]
    exact h.entries f o hf i
  · intro f r q i g hf hlevel hbranch
    exact h.owned f r q i g hf hlevel ((hkeep f _ hf i).symm.trans hbranch)
  · intro f r q is hf hdepth
    exact lookup_congr_owned h.owned hkeep hf hdepth

theorem takeFrame_effect (hpool : s.pool = some p :: rest)
    (hbytes : ∀ a, a / PAGE_SIZE ≠ p / PAGE_SIZE → m a = s.mem a) :
    Effect ok nowhere s { mem := m, pool := rest } own own ∧
      Foreign { mem := m, pool := rest } own (p / PAGE_SIZE) := by
  obtain ⟨_, _, hfresh, hrest⟩ := h.next_frame hpool
  have hout : ∀ a o, own (a / PAGE_SIZE) = some o → m a = s.mem a :=
    fun a o ha => hbytes a (ne_of_fresh hfresh ha)
  have hdrop : Effect ok nowhere s { s with pool := rest } own own := .drop h hpool
  refine ⟨?_, hfresh, hrest⟩
  constructor
  case tree => exact (hdrop.tree.rewrite hout).1
  case keep => exact hdrop.keep
  case foreign => exact hdrop.foreign
  case bytes =>
    intro a ha
    exact hbytes a (ha.ne_next hpool)
  case pool => exact hdrop.pool
  case branch =>
    rintro f r q i g hf _ _ hbranch
    rw [tables_congr (by rintro a rfl; exact hout a _ hf)]
    exact hbranch
  case same =>
    intro f r q is hf hdepth _
    exact (h.rewrite hout).2 f r q is hf hdepth

variable {q : List (Fin 512)}

/-- A written leaf changes only the paths through it. -/
theorem writeEntry_effect (hf : own f = some (r, q)) (hok : ok e)
    (hleaf : q.length + 1 < 3 → ∀ g, e.decode ≠ .branch g) :
    Effect ok (under r (q ++ [i])) s
      { s with mem := writePte s.mem (f * PAGE_SIZE) i e } own own := by
  have htables := tables_writePte s.mem f i e
  constructor
  case tree =>
    refine ⟨h.rule, ?_, ?_, h.pool, h.fresh⟩
    · exact fun k o hk j => word_writePte hok (h.entries k o hk j)
    · rw [htables]
      apply h.owned.write
      intro g r' q' hbranch hf' hlevel
      cases hf.symm.trans hf'
      exact absurd hbranch (hleaf hlevel g)
  case keep => exact fun _ _ ho => ho
  case foreign => exact fun _ hk => hk.1
  case bytes =>
    intro a ha
    exact writePte_bytes (ha.ne_owned hf)
  case pool => exact suffix_refl _
  case branch =>
    intro k r' q' j g hk _ hother hbranch
    rw [htables]
    by_cases hsame : k = f ∧ j = i
    · obtain ⟨rfl, rfl⟩ := hsame
      cases hf.symm.trans hk
      exact absurd ⟨rfl, prefix_refl _⟩ hother
    · simp only [RadixTable.write, if_neg hsame]
      exact hbranch
  case same =>
    intro k r' q' is hk hdepth hother
    rw [htables]
    apply lookup_write h.owned hf hk hdepth
    by_cases hr : r' = r
    · exact .inr fun hpre => hother ⟨hr, hpre⟩
    · exact .inl hr

/-- Linking a fresh table changes only what is below the entry. -/
theorem attach_effect (hf : own f = some (r, q)) (hpool : s.pool = some p :: rest)
    (hbytes : ∀ a, a / PAGE_SIZE ≠ p / PAGE_SIZE → m a = s.mem a)
    (hok : ∀ j, ok (readPte m (p / PAGE_SIZE * PAGE_SIZE) j))
    (hc : ∀ j k, tables m (p / PAGE_SIZE) j ≠ .branch k) :
    let m' := writePte m (f * PAGE_SIZE) i (.table p)
    Effect ok (under r (q ++ [i])) s { mem := m', pool := rest } own
        (graftOwn own f i (p / PAGE_SIZE)) ∧
      tables m' = attach (tables s.mem) f i (p / PAGE_SIZE) (tables m (p / PAGE_SIZE)) := by
  intro m'
  obtain ⟨hp, hsmall, hfresh, hrest⟩ := h.next_frame hpool
  have hdrop : Effect ok nowhere s { s with pool := rest } own own := .drop h hpool
  have htables : tables m' =
      attach (tables s.mem) f i (p / PAGE_SIZE) (tables m (p / PAGE_SIZE)) := by
    have hdecode : (PTE.table p).decode = .branch (p / PAGE_SIZE) := by
      rw [← decode_table (hp ▸ hsmall), ← hp]
    have hfill :
        tables m = overwrite (tables s.mem) (p / PAGE_SIZE) (tables m (p / PAGE_SIZE)) := by
      funext k j
      by_cases hk : k = p / PAGE_SIZE
      · rw [hk, overwrite_self]
      · rw [overwrite_of_ne hk]
        apply tables_congr
        rintro a rfl
        exact hbytes a hk
    rw [tables_writePte, hdecode]
    exact congrArg (fun t => RadixTable.write t f i _) hfill
  refine ⟨?_, htables⟩
  constructor
  case tree =>
    refine ⟨h.rule, ?_, ?_, hdrop.tree.pool, ?_⟩
    · intro k o hk j
      refine word_writePte (h.rule.table p) ?_
      by_cases hkp : k = p / PAGE_SIZE
      · rw [hkp]
        exact hok j
      · simp only [graftOwn, if_neg hkp] at hk
        rw [readPte_congr fun a ha => hbytes a (ha ▸ hkp)]
        exact h.entries k o hk j
    · rw [htables]
      exact h.owned.attach hf hfresh hc
    · intro p' hp'
      simp only [graftOwn, if_neg (hrest p' hp')]
      exact hdrop.tree.fresh p' hp'
  case keep =>
    intro k o hk
    exact graftOwn_of_owned hfresh hk
  case foreign =>
    intro k hk
    simp [graftOwn, if_neg (hk.ne_next hpool), hk.1]
  case bytes =>
    intro a ha
    show writePte _ _ _ _ a = _
    rw [writePte_bytes (ha.ne_owned hf)]
    exact hbytes a (ha.ne_next hpool)
  case pool => exact hdrop.pool
  case branch =>
    intro k r' q' j g hk _ hother hbranch
    have hsame : ¬ (k = f ∧ j = i) := by
      rintro ⟨rfl, rfl⟩
      cases hf.symm.trans hk
      exact hother ⟨rfl, prefix_refl _⟩
    rw [htables, attach_of_ne (ne_of_fresh hfresh hk) hsame]
    exact hbranch
  case same =>
    intro k r' q' is hk hdepth hother
    rw [htables]
    apply lookup_attach h.owned hf hfresh hk hdepth
    by_cases hr : r' = r
    · exact .inr fun hpre => hother ⟨hr, hpre⟩
    · exact .inl hr

end

/-! ### One level -/

variable {res : Option Nat} {ro pa : Nat}

theorem Phys.allocPage_cases (hrun : s.allocPage = (res, s')) :
    (res = none ∧ (s' = s ∨ ∃ rest, s.pool = none :: rest ∧ s' = { s with pool := rest })) ∨
    ∃ p rest, res = some p ∧ s.pool = some p :: rest ∧ s' = { s with pool := rest } := by
  unfold Phys.allocPage at hrun
  rcases hpool : s.pool with _ | ⟨_ | p, rest⟩
  · rw [hpool] at hrun
    cases hrun
    exact .inl ⟨rfl, .inl rfl⟩
  · rw [hpool] at hrun
    cases hrun
    exact .inl ⟨rfl, .inr ⟨rest, rfl, rfl⟩⟩
  · rw [hpool] at hrun
    cases hrun
    exact .inr ⟨p, rest, rfl, rfl, rfl⟩

theorem newTable_cases (hrun : newTable s table i = (res, s')) :
    (res = none ∧ (s' = s ∨ ∃ rest, s.pool = none :: rest ∧ s' = { s with pool := rest })) ∨
    ∃ p rest, res = some p ∧ s.pool = some p :: rest ∧
      s' = { mem := writePte (fill s.mem p PAGE_SIZE 0) table i (.table p), pool := rest } := by
  unfold newTable at hrun
  rcases halloc : s.allocPage with ⟨answer, s1⟩
  rw [halloc] at hrun
  rcases Phys.allocPage_cases halloc with ⟨rfl, hcase⟩ | ⟨p, rest, rfl, hpool, rfl⟩
  · cases hrun
    exact .inl ⟨rfl, hcase⟩
  · cases hrun
    exact .inr ⟨p, rest, rfl, hpool, rfl⟩

/-- A new table hangs below the entry and is empty. -/
theorem newTable_effect (h : Tree ok s own) (hf : own f = some (r, q))
    (hrun : newTable s (f * PAGE_SIZE) i = (res, s')) :
    ∃ own', Effect ok (under r (q ++ [i])) s s' own own' ∧
      (tables s.mem f i = .empty → Effect ok nowhere s s' own own') ∧
      ∀ l, res = some l → ∃ g, l = g * PAGE_SIZE ∧ tables s'.mem f i = .branch g ∧
        own' g = some (r, q ++ [i]) ∧ ∀ j, tables s'.mem g j = .empty := by
  rcases newTable_cases hrun with ⟨rfl, hsame | ⟨rest, hpool, hsame⟩⟩ | ⟨p, rest, rfl, hpool, rfl⟩
  · rw [hsame]
    exact ⟨own, .refl h, fun _ => .refl h, by simp⟩
  · rw [hsame]
    exact ⟨own, .drop h hpool, fun _ => .drop h hpool, by simp⟩
  · obtain ⟨hp, _, hfresh, _⟩ := h.next_frame hpool
    have hzero := readPte_fill_page s.mem hp
    have hcleared : tables (fill s.mem p PAGE_SIZE 0) (p / PAGE_SIZE) = fun _ => .empty :=
      funext fun j => (congrArg PTE.decode (hzero j)).trans decode_empty
    obtain ⟨heff, htables⟩ := attach_effect (i := i) h hf hpool (fun _ => fill_page hp)
      (fun j => by rw [hzero j]; exact h.rule.empty) (fun j k => by rw [hcleared]; simp)
    rw [hcleared] at htables
    refine ⟨graftOwn own f i (p / PAGE_SIZE), heff, ?_, ?_⟩
    · intro hempty
      refine { heff with branch := ?_, same := ?_ }
      · intro k r' q' j g hk _ _ hbranch
        have hsame : ¬ (k = f ∧ j = i) := by
          rintro ⟨rfl, rfl⟩
          rw [hempty] at hbranch
          cases hbranch
        rw [htables, attach_of_ne (ne_of_fresh hfresh hk) hsame]
        exact hbranch
      · intro k r' q' is hk hdepth _
        rw [htables]
        exact lookup_graft h.owned hf hfresh hempty hk is hdepth
    · rintro l hl
      cases hl
      refine ⟨p / PAGE_SIZE, hp, ?_, graftOwn_self hf, ?_⟩
      · rw [htables]
        exact write_self _ _ _ _
      · intro j
        rw [htables]
        exact attach_frame hfresh hf j

theorem nextTable_leaf (alloc : Bool)
    (hentry : tables s.mem f i = .leaf e) : nextTable s (f * PAGE_SIZE) i alloc = (none, s) := by
  obtain ⟨_, hleaf⟩ := decode_eq_leaf.mp hentry
  have hvalid : (readPte s.mem (f * PAGE_SIZE) i).isValid = true := PTE.isValid_of_isLeaf hleaf
  simp [nextTable, hvalid, hleaf]

theorem nextTable_branch (alloc : Bool) (hentry : tables s.mem f i = .branch g) :
    nextTable s (f * PAGE_SIZE) i alloc = (some (g * PAGE_SIZE), s) := by
  obtain ⟨hvalid, hleaf, hppn⟩ := decode_eq_branch.mp hentry
  simp [nextTable, hvalid, hleaf, physAddr_eq, hppn]

theorem nextTable_empty (hentry : tables s.mem f i = .empty) :
    nextTable s (f * PAGE_SIZE) i true = newTable s (f * PAGE_SIZE) i := by
  have hinvalid := decode_eq_empty.mp hentry
  simp [nextTable, hinvalid]

theorem nextTable_read (s : Phys) (f : Nat) (i : Fin 512) : nextTable s (f * PAGE_SIZE) i false =
      (match tables s.mem f i with
        | .branch g => some (g * PAGE_SIZE)
        | _ => none, s) := by
  cases hentry : tables s.mem f i with
  | empty =>
    have hinvalid := decode_eq_empty.mp hentry
    simp [nextTable, hinvalid]
  | leaf e => exact nextTable_leaf false hentry
  | branch g => exact nextTable_branch false hentry

/-- One level of the walk. -/
theorem nextTable_effect (h : Tree ok s own) (hf : own f = some (r, q)) (hlevel : q.length + 1 < 3)
    (hrun : nextTable s (f * PAGE_SIZE) i alloc = (res, s')) :
    ∃ own', Effect ok nowhere s s' own own' ∧
      ∀ l, res = some l → ∃ g, l = g * PAGE_SIZE ∧ tables s'.mem f i = .branch g ∧
        own' g = some (r, q ++ [i]) := by
  cases hentry : tables s.mem f i with
  | empty =>
    cases alloc with
    | false =>
      rw [nextTable_read, hentry] at hrun
      cases hrun
      exact ⟨own, .refl h, by simp⟩
    | true =>
      rw [nextTable_empty hentry] at hrun
      obtain ⟨own', _, heff, hres⟩ := newTable_effect h hf hrun
      refine ⟨own', heff hentry, ?_⟩
      intro l hl
      obtain ⟨g, hg, hbranch, hown, _⟩ := hres l hl
      exact ⟨g, hg, hbranch, hown⟩
  | leaf e =>
    rw [nextTable_leaf alloc hentry] at hrun
    cases hrun
    exact ⟨own, .refl h, by simp⟩
  | branch g =>
    rw [nextTable_branch alloc hentry] at hrun
    cases hrun
    refine ⟨own, .refl h, ?_⟩
    rintro l hl
    cases hl
    exact ⟨g, rfl, hentry, h.owned f r q i g hf hlevel hentry⟩

/-! ### Walks -/

/-- The last-level table of `va` is frame `f0`. -/
def Reaches (m : Memory) (root va f0 : Nat) : Prop :=
  frameAt (tables m) root [vpn2 va, vpn1 va] = some f0

theorem reaches_iff : Reaches m root va f0 ↔
      ∃ f1, tables m root (vpn2 va) = .branch f1 ∧ tables m f1 (vpn1 va) = .branch f0 := by
  unfold Reaches
  rw [frameAt_cons]
  apply exists_congr
  intro f1
  rw [← nil_append [vpn1 va], frameAt_snoc]
  simp [frameAt]

theorem lookup_of_reaches (h : Reaches m root va f0) :
    lookup (tables m) root (path va) = lookup (tables m) f0 [vpn0 va] :=
  lookup_frameAt h [vpn0 va]

theorem own_of_reaches (h : Reaches s.mem root va f0) (htree : Tree ok s own)
    (hroot : own root = some (r, [])) : own f0 = some (r, [vpn2 va, vpn1 va]) :=
  htree.owned.frameAt hroot (by simp) h

/-- A walk changes no translation and ends at the last table. -/
theorem walkProcessPt_effect {res : Option (Nat × Fin 512)} (h : Tree ok s own)
    (hroot : own root = some (r, []))
    (hrun : walkProcessPt s (root * PAGE_SIZE) va alloc = (res, s')) :
    ∃ own', Effect ok nowhere s s' own own' ∧
      ∀ l0 i, res = some (l0, i) → ∃ f0, l0 = f0 * PAGE_SIZE ∧ i = vpn0 va ∧
        Reaches s'.mem root va f0 := by
  unfold walkProcessPt at hrun
  rcases hfirst : nextTable s (root * PAGE_SIZE) (vpn2 va) alloc with ⟨res1, s1⟩
  rw [hfirst] at hrun
  obtain ⟨own1, heff1, hres1⟩ := nextTable_effect h hroot (by decide) hfirst
  cases res1 with
  | none =>
    cases hrun
    exact ⟨own1, heff1, by simp⟩
  | some l1 =>
    obtain ⟨f1, rfl, hbranch1, hf1⟩ := hres1 l1 rfl
    rcases hsecond : nextTable s1 (f1 * PAGE_SIZE) (vpn1 va) alloc with ⟨res0, s0⟩
    simp only [hsecond] at hrun
    obtain ⟨own0, heff0, hres0⟩ := nextTable_effect heff1.tree hf1 (by simp) hsecond
    cases res0 with
    | none =>
      cases hrun
      exact ⟨own0, heff1.trans heff0, by simp⟩
    | some l0 =>
      cases hrun
      refine ⟨own0, heff1.trans heff0, ?_⟩
      rintro l i hl
      cases hl
      obtain ⟨f0, hl0, hbranch0, _⟩ := hres0 l0 rfl
      refine ⟨f0, hl0, rfl, reaches_iff.mpr ⟨f1, ?_, hbranch0⟩⟩
      exact heff0.branch root r [] _ f1 (heff1.keep _ _ hroot) (by decide) id hbranch1

/-! ### Writing a last-level entry -/

/-- The lookups of the page of `va` in the table of root `r`. -/
def atPage (r va : Nat) : Nat → List (Fin 512) → Prop := under r (path va)

theorem writeLeaf_effect (h : Tree ok s own)
    (hroot : own root = some (r, [])) (hok : ok e) (hreach : Reaches s.mem root va f0) :
    Effect ok (atPage r va) s
        { s with mem := writePte s.mem (f0 * PAGE_SIZE) (vpn0 va) e } own own ∧
      Reaches (writePte s.mem (f0 * PAGE_SIZE) (vpn0 va) e) root va f0 ∧
      tables (writePte s.mem (f0 * PAGE_SIZE) (vpn0 va) e) f0 (vpn0 va) = e.decode := by
  have hf0 := own_of_reaches hreach h hroot
  have heff : Effect ok (atPage r va) s
      { s with mem := writePte s.mem (f0 * PAGE_SIZE) (vpn0 va) e } own own :=
    writeEntry_effect h hf0 hok fun hlevel => absurd hlevel (by simp)
  refine ⟨heff, heff.frameAt h hroot (by simp) ?_ hreach, ?_⟩
  · -- the branches on the way are shorter than the path of the page
    rintro p hp ⟨_, hpre⟩
    exact absurd (hpre.trans hp).length_le (by simp [path])
  · rw [tables_writePte, write_self]

/-! ### Mapping and unmapping -/

theorem lookup_page {r u : Bool} (hentry : tables m f0 i = (PTE.page pa r w x u).decode) :
    lookup (tables m) f0 [i] = if r || w || x then some (.page pa r w x u, []) else none := by
  by_cases hrwx : (r || w || x) = true
  · rw [if_pos hrwx]
    exact lookup_leaf [] (hentry.trans (decode_page pa u hrwx))
  · rw [if_neg hrwx]
    have hbranch : (PTE.page pa r w x u).decode = .branch _ :=
      decode_eq_branch.mpr ⟨(PTE.flags_page pa r w x u).1, by
        rw [PTE.isLeaf_page]; exact Bool.eq_false_of_not_eq_true hrwx, rfl⟩
    rw [lookup_branch [] (hentry.trans hbranch)]
    rfl

/-- A failed mapping changes no translation; a successful one only that of its page,
    which then is the new leaf. -/
theorem mapWith_effect {err : String} {r u : Bool} {res : Except String Unit} (h : Tree ok s own)
    (hroot : own root = some (ro, []))
    (hrun : mapWith err s (root * PAGE_SIZE) va pa r w x u = (res, s')) :
    ∃ own', Effect ok (atPage ro va) s s' own own' ∧
      (∀ e, res = .error e → Effect ok nowhere s s' own own') ∧
      (res = .ok () → lookup (tables s'.mem) root (path va) =
        if r || w || x then some (.page pa r w x u, []) else none) := by
  unfold mapWith at hrun
  rcases hwalk : walkProcessPt s (root * PAGE_SIZE) va true with ⟨found, s1⟩
  rw [hwalk] at hrun
  obtain ⟨own', heff, hfound⟩ := walkProcessPt_effect h hroot hwalk
  cases found with
  | none =>
    cases hrun
    exact ⟨own', heff.of_nowhere, fun _ _ => heff, by simp⟩
  | some slot =>
    obtain ⟨l0, i⟩ := slot
    obtain ⟨f0, rfl, rfl, hreach⟩ := hfound l0 i rfl
    cases hrun
    obtain ⟨hwrite, hreach', hentry⟩ := writeLeaf_effect (e := .page pa r w x u) heff.tree
      (heff.keep _ _ hroot) (h.rule.page pa r w x u) hreach
    refine ⟨own', heff.of_nowhere.trans hwrite, by simp, ?_⟩
    intro _
    rw [lookup_of_reaches hreach']
    exact lookup_page hentry

theorem reaches_of_lookup
    (h : lookup (tables m) root (path va) = some (e, [])) : ∃ f0, Reaches m root va f0 := by
  rcases lookup_cons_eq_some.mp h with ⟨_, hrest⟩ | ⟨f1, h2, h⟩
  · cases hrest
  rcases lookup_cons_eq_some.mp h with ⟨_, hrest⟩ | ⟨f0, h1, _⟩
  · cases hrest
  · exact ⟨f0, reaches_iff.mpr ⟨f1, h2, h1⟩⟩

theorem walkProcessPt_of_reaches (h : Reaches s.mem root va f0) :
    walkProcessPt s (root * PAGE_SIZE) va false = (some (f0 * PAGE_SIZE, vpn0 va), s) := by
  obtain ⟨f1, h2, h1⟩ := reaches_iff.mp h
  simp [walkProcessPt, nextTable_branch false h2, nextTable_branch false h1]

theorem walkProcessPt_read (s : Phys) (root va : Nat) : (∃ f0, Reaches s.mem root va f0 ∧
      walkProcessPt s (root * PAGE_SIZE) va false = (some (f0 * PAGE_SIZE, vpn0 va), s)) ∨
    (walkProcessPt s (root * PAGE_SIZE) va false = (none, s) ∧
      ∀ e, lookup (tables s.mem) root (path va) ≠ some (e, [])) := by
  by_cases hreach : ∃ f0, Reaches s.mem root va f0
  · obtain ⟨f0, hreach⟩ := hreach
    exact .inl ⟨f0, hreach, walkProcessPt_of_reaches hreach⟩
  · refine .inr ⟨?_, fun e he => hreach (reaches_of_lookup he)⟩
    unfold walkProcessPt
    rw [nextTable_read]
    cases h2 : tables s.mem root (vpn2 va) with
    | empty => rfl
    | leaf e => rfl
    | branch f1 =>
      simp only [nextTable_read]
      cases h1 : tables s.mem f1 (vpn1 va) with
      | empty => rfl
      | leaf e => rfl
      | branch f0 => exact absurd ⟨f0, reaches_iff.mpr ⟨f1, h2, h1⟩⟩ hreach

theorem unmapUserPage_effect (h : Tree ok s own) (hroot : own root = some (ro, [])) (va : Nat) :
    Effect ok (atPage ro va) s (unmapUserPage s (root * PAGE_SIZE) va) own own ∧
      (lookup (tables (unmapUserPage s (root * PAGE_SIZE) va).mem) root (path va) = none ∨
        (unmapUserPage s (root * PAGE_SIZE) va = s ∧
          ∀ e, lookup (tables s.mem) root (path va) ≠ some (e, []))) := by
  unfold unmapUserPage
  rcases walkProcessPt_read s root va with ⟨f0, hreach, hwalk⟩ | ⟨hwalk, hnone⟩
  · rw [hwalk]
    obtain ⟨hwrite, hreach', hentry⟩ := writeLeaf_effect (e := .empty) h hroot h.rule.empty hreach
    refine ⟨hwrite, .inl ?_⟩
    rw [lookup_of_reaches hreach', lookup_empty [] hentry]
  · rw [hwalk]
    exact ⟨.refl h, .inr ⟨rfl, hnone⟩⟩

/-- `unmap_user_page_phys` does the same and returns the frame; it fails exactly when
    the page has no last-level leaf, and then changes nothing. -/
theorem unmapUserPagePhys_eq (s : Phys) (root va : Nat) :
    (∃ e, lookup (tables s.mem) root (path va) = some (e, []) ∧
      unmapUserPagePhys s (root * PAGE_SIZE) va =
        (some e.physAddr, unmapUserPage s (root * PAGE_SIZE) va)) ∨
    ((∀ e, lookup (tables s.mem) root (path va) ≠ some (e, [])) ∧
      unmapUserPagePhys s (root * PAGE_SIZE) va = (none, s)) := by
  unfold unmapUserPagePhys unmapUserPage
  rcases walkProcessPt_read s root va with ⟨f0, hreach, hwalk⟩ | ⟨hwalk, hnone⟩
  · rw [hwalk, lookup_of_reaches hreach, lookup_last]
    by_cases hleaf : (readPte s.mem (f0 * PAGE_SIZE) (vpn0 va)).isLeaf = true
    · have hvalid := PTE.isValid_of_isLeaf hleaf
      exact .inl ⟨_, if_pos hleaf, by simp [hvalid, hleaf]⟩
    · exact .inr (by simp [hleaf])
  · right
    rw [hwalk]
    exact ⟨hnone, rfl⟩

end TrainOS.Sv39
