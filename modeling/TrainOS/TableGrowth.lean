import TrainOS.ProcessCreation

/-!
# How a table grows under the loader's walk

A walk that maps a page asks the allocator for the tables that are missing on the way, and
for nothing else.  `mapIntoPt_attempt` says exactly when it gets them, which answers of the
allocator are used up, which tables exist afterwards, and which frames are written.
-/

namespace TrainOS.Sv39

open ByteMemory RadixTable Runs

variable {ok : PTE → Prop} {s s' : Phys} {own own' : Own} {t f : Nat}

/-! ### Supply -/

/-- The next `n` answers of the allocator are frames. -/
def Supplies : List (Option Nat) → Nat → Prop
  | _, 0 => True
  | some _ :: rest, n + 1 => Supplies rest n
  | _, _ + 1 => False

@[simp] theorem supplies_zero (pool : List (Option Nat)) : Supplies pool 0 := by
  cases pool <;> simp [Supplies]

variable {pool : List (Option Nat)} {n k va g : Nat} {s'' : Phys}

theorem supplies_succ :
    Supplies pool (n + 1) ↔ ∃ p rest, pool = some p :: rest ∧ Supplies rest n := by
  rcases pool with _ | ⟨_ | p, rest⟩ <;> simp [Supplies]

theorem supplies_add : Supplies pool (n + k) ↔ Supplies pool n ∧ Supplies (pool.drop n) k := by
  induction n generalizing pool with
  | zero => simp
  | succ n ih =>
    rw [Nat.add_right_comm, supplies_succ, supplies_succ]
    constructor
    · rintro ⟨p, rest, rfl, hrest⟩
      obtain ⟨hn, hk⟩ := ih.mp hrest
      exact ⟨⟨p, rest, rfl, hn⟩, hk⟩
    · rintro ⟨⟨p, rest, rfl, hn⟩, hk⟩
      exact ⟨p, rest, rfl, ih.mpr ⟨hn, hk⟩⟩

theorem Supplies.mono (h : Supplies pool k) (hle : n ≤ k) : Supplies pool n := by
  obtain ⟨j, rfl⟩ := Nat.exists_eq_add_of_le hle
  exact (supplies_add.mp h).1

instance decidableSupplies : ∀ pool n, Decidable (Supplies pool n)
  | pool, 0 => isTrue (supplies_zero pool)
  | some _ :: rest, n + 1 => decidableSupplies rest n
  | [], _ + 1 => isFalse id
  | none :: _, _ + 1 => isFalse id

theorem HasFrames.supplies (h : HasFrames pool n) : Supplies pool n := by
  induction n generalizing pool with
  | zero => exact supplies_zero pool
  | succ n ih =>
    obtain ⟨p, rest, hpool, hrest⟩ := h.cons
    exact supplies_succ.mpr ⟨p, rest, hpool, ih hrest⟩

/-! ### Which tables exist -/

/-- Which tables a root has, by path. -/
abbrev Tabled := List (Fin 512) → Bool

def hasTable (m : Memory) (t : Nat) : Tabled := fun q => (frameAt (tables m) t q).isSome

namespace Tabled

def add (tab : Tabled) (q : List (Fin 512)) : Tabled := fun q' => tab q' || decide (q' = q)

def missing (tab : Tabled) (q : List (Fin 512)) : Nat := if tab q then 0 else 1

def need (tab : Tabled) (va : Nat) : Nat :=
  tab.missing [vpn2 va] + (tab.add [vpn2 va]).missing [vpn2 va, vpn1 va]

def withPage (tab : Tabled) (va : Nat) : Tabled := (tab.add [vpn2 va]).add [vpn2 va, vpn1 va]

def tablesFor (tab : Tabled) : List Nat → Nat
  | [] => 0
  | va :: vas => tab.need va + (tab.withPage va).tablesFor vas

/-- The frames that mapping fresh pages at these addresses takes. -/
def demand (tab : Tabled) : List Nat → Nat
  | [] => 0
  | va :: vas => 1 + tab.need va + (tab.withPage va).demand vas

def withPages (tab : Tabled) (vas : List Nat) : Tabled := vas.foldl withPage tab

theorem demand_append (tab : Tabled) (vas vas' : List Nat) :
    tab.demand (vas ++ vas') = tab.demand vas + (tab.withPages vas).demand vas' := by
  induction vas generalizing tab with
  | nil => simp [demand, withPages]
  | cons va vas ih =>
    rw [List.cons_append, demand, demand, ih]
    simp only [withPages, List.foldl_cons]
    omega

theorem missing_le (tab : Tabled) (q : List (Fin 512)) : tab.missing q ≤ 1 := by
  unfold missing
  split <;> decide

theorem need_le (tab : Tabled) (va : Nat) : tab.need va ≤ 2 :=
  Nat.add_le_add (tab.missing_le _) (missing_le _ _)

theorem demand_le (tab : Tabled) (vas : List Nat) : tab.demand vas ≤ 3 * vas.length := by
  induction vas generalizing tab with
  | nil => exact Nat.zero_le _
  | cons va vas ih =>
    have hneed := tab.need_le va
    have hrest := ih (tab.withPage va)
    rw [demand, List.length_cons]
    omega

end Tabled

/-- The frame holds a table of the root. -/
def TablePage (m : Memory) (t f : Nat) : Prop :=
  ∃ q, q.length < 3 ∧ frameAt (tables m) t q = some f

/-- From `s` to `s'` the table of `t` grew to `tab'` with `n` frames of the allocator, and
    only bytes of its tables were written. -/
structure Grown (t : Nat) (s s' : Phys) (n : Nat) (tab' : Tabled) : Prop where
  supplied : Supplies s.pool n
  pool : s'.pool = s.pool.drop n
  tabled : ∀ q, q.length < 3 → hasTable s'.mem t q = tab' q
  touched : ∀ a, s'.mem a ≠ s.mem a → TablePage s'.mem t (a / PAGE_SIZE)

theorem Effect.tablePage {affected : Nat → List (Fin 512) → Prop}
    (h : Effect ok affected s s' own own') (htree : Tree ok s own)
    (hroot : own t = some (t, [])) (hout : ∀ q, q.length < 3 → ¬ affected t q)
    (hf : TablePage s.mem t f) : TablePage s'.mem t f := by
  obtain ⟨q, hq, hf⟩ := hf
  refine ⟨q, hq, h.frameAt htree hroot (by simpa using hq) ?_ hf⟩
  intro p hp
  exact hout p (hp.length_le.trans_lt hq)

theorem Grown.trans {tab' tab'' : Tabled} (h1 : Grown t s s' n tab') (h2 : Grown t s' s'' k tab'')
    (hkeep : ∀ f, TablePage s'.mem t f → TablePage s''.mem t f) :
    Grown t s s'' (n + k) tab'' := by
  constructor
  case supplied => exact supplies_add.mpr ⟨h1.supplied, h1.pool ▸ h2.supplied⟩
  case pool => rw [h2.pool, h1.pool, List.drop_drop]
  case tabled => exact h2.tabled
  case touched =>
    intro a ha
    by_cases hsecond : s''.mem a = s'.mem a
    · exact hkeep _ (h1.touched a (hsecond ▸ ha))
    · exact h2.touched a hsecond

theorem atPage_short (q : List (Fin 512)) (hq : q.length < 3) : ¬ atPage t va t q :=
  fun ha => absurd (ha.2.length_le.trans_lt hq) (by simp [path])

/-! ### Writes stay in the tables -/

variable {q : List (Fin 512)} {i : Fin 512} {res : Option Nat} {alloc : Bool} {f0 : Nat} {e : PTE}

/-- From `s` to `s'` only pages of the table at frame `t` were written to, and it kept its
    pages. -/
structure WritesWithin (t : Nat) (s s' : Phys) : Prop where
  bytes : ∀ a, s'.mem a ≠ s.mem a → TablePage s'.mem t (a / PAGE_SIZE)
  keep : ∀ f, TablePage s.mem t f → TablePage s'.mem t f

theorem WritesWithin.refl (t : Nat) (s : Phys) : WritesWithin t s s :=
  ⟨fun _ hne => absurd rfl hne, fun _ hf => hf⟩

theorem WritesWithin.trans (h1 : WritesWithin t s s') (h2 : WritesWithin t s' s'') :
    WritesWithin t s s'' := by
  refine ⟨?_, fun f hf => h2.keep f (h1.keep f hf)⟩
  intro a hne
  by_cases hsecond : s''.mem a = s'.mem a
  · exact h2.keep _ (h1.bytes a (hsecond ▸ hne))
  · exact h2.bytes a hsecond

/-! ### One level -/

theorem nextTable_mem {table : Nat}
    (hrun : nextTable s table i alloc = (res, s')) : s'.mem = s.mem ∨ ∃ p, res = some p ∧
      s'.mem = writePte (fill s.mem p PAGE_SIZE 0) table i (.table p) := by
  unfold nextTable at hrun
  dsimp only at hrun
  split at hrun
  · split at hrun
    · rcases newTable_cases hrun with ⟨_, rfl | ⟨_, _, rfl⟩⟩ | ⟨p, rest, rfl, _, rfl⟩
      · exact .inl rfl
      · exact .inl rfl
      · exact .inr ⟨p, rfl, rfl⟩
    · cases hrun
      exact .inl rfl
  · split at hrun <;> cases hrun <;> exact .inl rfl

theorem tables_newTable (m : Memory) (f : Nat) (i : Fin 512) (hg : g * PAGE_SIZE < 2 ^ 56) :
    tables (writePte (fill m (g * PAGE_SIZE) PAGE_SIZE 0) (f * PAGE_SIZE) i
      (.table (g * PAGE_SIZE))) = attach (tables m) f i g fun _ => .empty := by
  rw [tables_writePte, tables_fill, decode_table hg]
  rfl

theorem frameAt_snoc_empty (hf : frameAt (tables s.mem) t q = some f)
    (hempty : tables s.mem f i = .empty) : frameAt (tables s.mem) t (q ++ [i]) = none := by
  rw [Option.eq_none_iff_forall_ne_some]
  intro k hk
  obtain ⟨f', hf', hbranch⟩ := frameAt_snoc.mp hk
  cases hf'.symm.trans hf
  rw [hempty] at hbranch
  cases hbranch

theorem Tabled.add_self {tab : Tabled} (h : tab q = true)
    (q' : List (Fin 512)) : tab.add q q' = tab q' := by
  unfold Tabled.add
  by_cases hq : q' = q
  · simp [hq, h]
  · simp [hq]

section

variable (h : Tree ok s own) (hroot : own t = some (t, []))
include h hroot

theorem nextTable_within (hreach : frameAt (tables s.mem) t q = some f) (hlevel : q.length + 1 < 3)
    (hrun : nextTable s (f * PAGE_SIZE) i alloc = (res, s')) : WritesWithin t s s' := by
  have hf : own f = some (t, q) := h.owned.frameAt hroot (by simp; omega) hreach
  obtain ⟨own', heff, hres⟩ := nextTable_effect h hf hlevel hrun
  have hkeep : ∀ k, TablePage s.mem t k → TablePage s'.mem t k :=
    fun k => heff.tablePage h hroot fun _ _ => id
  refine ⟨?_, hkeep⟩
  intro a hne
  rcases nextTable_mem hrun with hsame | ⟨p, rfl, hmem⟩
  · exact absurd (congrFun hsame a) hne
  · -- the new page and the table that points to it
    obtain ⟨g, rfl, hbranch, _⟩ := hres p rfl
    have hreach' : frameAt (tables s'.mem) t q = some f :=
      heff.frameAt h hroot (by simp; omega) (fun _ _ ha => ha) hreach
    by_cases hg : a / PAGE_SIZE = g
    · rw [hg]
      exact ⟨q ++ [i], by simpa using hlevel, frameAt_snoc.mpr ⟨f, hreach', hbranch⟩⟩
    · by_cases hfa : a / PAGE_SIZE = f
      · rw [hfa]
        exact ⟨q, by omega, hreach'⟩
      · rw [hmem, writePte_bytes hfa, fill_bytes hg] at hne
        exact absurd rfl hne

theorem writeLeaf_within (hok : ok e) (hreach : Reaches s.mem t va f0) :
    WritesWithin t s { s with mem := writePte s.mem (f0 * PAGE_SIZE) (vpn0 va) e } := by
  obtain ⟨heff, hreach', _⟩ := writeLeaf_effect h hroot hok hreach
  refine ⟨?_, fun k => heff.tablePage h hroot atPage_short⟩
  intro a hne
  by_cases hfa : a / PAGE_SIZE = f0
  · rw [hfa]
    exact ⟨_, by simp, hreach'⟩
  · exact absurd (writePte_bytes hfa) hne

theorem walkProcessPt_within {res : Option (Nat × Fin 512)}
    (hrun : walkProcessPt s (t * PAGE_SIZE) va alloc = (res, s')) : WritesWithin t s s' := by
  unfold walkProcessPt at hrun
  rcases hfirst : nextTable s (t * PAGE_SIZE) (vpn2 va) alloc with ⟨res1, s1⟩
  rw [hfirst] at hrun
  have hw1 : WritesWithin t s s1 :=
    nextTable_within h hroot (frameAt_nil _ _) (by decide) hfirst
  obtain ⟨own1, heff1, hres1⟩ := nextTable_effect h hroot (by decide) hfirst
  cases res1 with
  | none =>
    cases hrun
    exact hw1
  | some l1 =>
    obtain ⟨f1, rfl, hbranch, _⟩ := hres1 l1 rfl
    rcases hsecond : nextTable s1 (f1 * PAGE_SIZE) (vpn1 va) alloc with ⟨res0, s0⟩
    simp only [hsecond] at hrun
    have hreach : frameAt (tables s1.mem) t [vpn2 va] = some f1 :=
      frameAt_cons.mpr ⟨f1, hbranch, frameAt_nil _ _⟩
    have hw0 : WritesWithin t s1 s0 :=
      nextTable_within heff1.tree (heff1.keep _ _ hroot) hreach (by simp) hsecond
    cases res0 <;> cases hrun <;> exact hw1.trans hw0

theorem mapWith_within {err : String} {pa : Nat} {r w x u : Bool} {res : Except String Unit}
    (hrun : mapWith err s (t * PAGE_SIZE) va pa r w x u = (res, s')) : WritesWithin t s s' := by
  unfold mapWith at hrun
  rcases hwalk : walkProcessPt s (t * PAGE_SIZE) va true with ⟨_ | ⟨l0, i⟩, s1⟩ <;>
    rw [hwalk] at hrun <;> cases hrun
  · exact walkProcessPt_within h hroot hwalk
  · obtain ⟨own', heff, hfound⟩ := walkProcessPt_effect h hroot hwalk
    obtain ⟨f0, rfl, rfl, hreach⟩ := hfound l0 i rfl
    exact (walkProcessPt_within h hroot hwalk).trans
      (writeLeaf_within heff.tree (heff.keep _ _ hroot) (h.rule.page pa r w x u) hreach)

variable (hf : frameAt (tables s.mem) t q = some f) (hq : q.length + 1 < 3)
include hf hq

theorem frameAt_graft (hfresh : own g = none) :
    frameAt (attach (tables s.mem) f i g fun _ => .empty) t (q ++ [i]) = some g := by
  have hown : own f = some (t, q) := h.owned.frameAt hroot (by simp; omega) hf
  refine frameAt_snoc.mpr ⟨f, ?_, by rw [attach, write_self]⟩
  rw [frameAt_attach h.owned hown hfresh hroot (by simp; omega)]
  · exact hf
  · right
    intro hpre
    exact absurd hpre.length_le (by simp)

theorem hasTable_graft (hfresh : own g = none) (hempty : tables s.mem f i = .empty)
    {m' : Memory} (hm' : tables m' = attach (tables s.mem) f i g fun _ => .empty)
    (q' : List (Fin 512)) (hq' : q'.length < 3) :
    hasTable m' t q' = (hasTable s.mem t).add (q ++ [i]) q' := by
  have hown : own f = some (t, q) := h.owned.frameAt hroot (by simp; omega) hf
  have hnew : frameAt (tables m') t (q ++ [i]) = some g := by
    rw [hm']
    exact frameAt_graft h hroot hf hq hfresh
  have hnone := frameAt_snoc_empty hf hempty
  unfold hasTable Tabled.add
  by_cases hpre : q ++ [i] <+: q'
  · obtain ⟨rest, rfl⟩ := hpre
    rcases rest with _ | ⟨j, rest⟩
    · simp [hnew]
    · -- the new table is empty, and the entry was
      have hafter : frameAt (tables m') t (q ++ [i] ++ j :: rest) = none := by
        rw [frameAt_append hnew, frameAt, hm', attach_frame hfresh hown]
      have hbefore : frameAt (tables s.mem) t (q ++ [i] ++ j :: rest) = none :=
        frameAt_append_none hnone _
      have hne : q ++ [i] ++ j :: rest ≠ q ++ [i] := by simp
      simp only [hafter, hbefore, hne, decide_false, Bool.or_false]
  · rw [hm', frameAt_attach h.owned hown hfresh hroot (by simpa using hq') (.inr hpre)]
    have hne : q' ≠ q ++ [i] := by
      rintro rfl
      exact hpre (List.prefix_refl _)
    simp [hne]

/-- **One level** of `walk_pt` gets its table unless a frame is needed and refused. -/
theorem followTable_cases (hleaf : ∀ e, tables s.mem f i ≠ .leaf e)
    (hrun : followTable s (f * PAGE_SIZE) i true = (res, s')) :
    (res = none ∧ ¬ Supplies s.pool ((hasTable s.mem t).missing (q ++ [i]))) ∨
    ∃ g own', res = some (g * PAGE_SIZE) ∧ Effect ok nowhere s s' own own' ∧
      frameAt (tables s'.mem) t (q ++ [i]) = some g ∧
      Grown t s s' ((hasTable s.mem t).missing (q ++ [i]))
        ((hasTable s.mem t).add (q ++ [i])) := by
  have hown : own f = some (t, q) := h.owned.frameAt hroot (by simp; omega) hf
  rw [followTable_eq true hleaf] at hrun
  have hwithin := nextTable_within h hroot hf hq hrun
  cases hentry : tables s.mem f i with
  | leaf e => exact absurd hentry (hleaf e)
  | branch g =>
    have hfound : frameAt (tables s.mem) t (q ++ [i]) = some g :=
      frameAt_snoc.mpr ⟨f, hf, hentry⟩
    have hthere : hasTable s.mem t (q ++ [i]) = true := by simp [hasTable, hfound]
    rw [nextTable_branch true hentry] at hrun
    cases hrun
    refine .inr ⟨g, own, rfl, .refl h, hfound, ?_⟩
    simp only [Tabled.missing, hthere, if_true]
    exact ⟨supplies_zero _, rfl, fun q' _ => (Tabled.add_self hthere q').symm, hwithin.bytes⟩
  | empty =>
    have hmissing : hasTable s.mem t (q ++ [i]) = false := by
      simp [hasTable, frameAt_snoc_empty hf hentry]
    rw [nextTable_empty hentry] at hrun
    simp only [Tabled.missing, hmissing, Bool.false_eq_true, if_false]
    rcases newTable_cases hrun with ⟨rfl, _⟩ | ⟨p, rest, rfl, hpool, rfl⟩
    · refine .inl ⟨rfl, ?_⟩
      rw [supplies_succ]
      rintro ⟨p, rest, hpool, _⟩
      simp [newTable, Phys.allocPage, hpool] at hrun
    · obtain ⟨hp, hsmall, hfresh, _⟩ := h.next_frame hpool
      obtain ⟨own', _, heff, _⟩ := newTable_effect h hown hrun
      have htables := tables_newTable s.mem f i (hp ▸ hsmall)
      rw [← hp] at htables
      have hgraft := hasTable_graft h hroot hf hq hfresh hentry htables
      refine .inr ⟨p / PAGE_SIZE, own', by rw [← hp], heff hentry, ?_, ?_⟩
      · rw [htables]
        exact frameAt_graft h hroot hf hq hfresh
      · exact ⟨supplies_succ.mpr ⟨p, rest, hpool, supplies_zero _⟩, by simp [hpool], hgraft,
          hwithin.bytes⟩

end

/-! ### The walk -/

variable {tab tab' : Tabled}

theorem Tabled.missing_congr (h : tab q = tab' q) : tab.missing q = tab'.missing q := by
  unfold Tabled.missing
  rw [h]

theorem Tabled.add_congr {q' : List (Fin 512)} (h : tab q' = tab' q') :
    tab.add q q' = tab'.add q q' := by
  unfold Tabled.add
  rw [h]

theorem Tabled.need_congr (va : Nat)
    (h : ∀ q, q.length < 3 → tab q = tab' q) : tab.need va = tab'.need va := by
  have hsecond : (tab.add [vpn2 va]).missing [vpn2 va, vpn1 va] =
      (tab'.add [vpn2 va]).missing [vpn2 va, vpn1 va] :=
    Tabled.missing_congr (Tabled.add_congr (h _ (by simp)))
  unfold Tabled.need
  rw [hsecond, Tabled.missing_congr (h [vpn2 va] (by simp))]

theorem Tabled.tablesFor_congr (vas : List Nat)
    (h : ∀ q, q.length < 3 → tab q = tab' q) : tab.tablesFor vas = tab'.tablesFor vas := by
  induction vas generalizing tab tab' with
  | nil => rfl
  | cons va vas ih =>
    have hpage : ∀ q, q.length < 3 → tab.withPage va q = tab'.withPage va q :=
      fun q hq => Tabled.add_congr (Tabled.add_congr (h q hq))
    rw [tablesFor, tablesFor, need_congr va h, ih hpage]

section

variable (h : Tree ok s own) (hroot : own t = some (t, []))
include h hroot

/-- **The walk** reaches a last-level table unless the frames that it needs are refused. -/
theorem walkPt_cases {res : Option (Nat × Fin 512)} (hsmall : NoSuperpage s.mem t va)
    (hrun : walkPt s (t * PAGE_SIZE) va true = (res, s')) :
    (res = none ∧ ¬ Supplies s.pool ((hasTable s.mem t).need va)) ∨
    ∃ f0 own', res = some (f0 * PAGE_SIZE, vpn0 va) ∧ Effect ok nowhere s s' own own' ∧
      Reaches s'.mem t va f0 ∧
      Grown t s s' ((hasTable s.mem t).need va) ((hasTable s.mem t).withPage va) := by
  unfold walkPt at hrun
  rcases hfirst : followTable s (t * PAGE_SIZE) (vpn2 va) true with ⟨res1, s1⟩
  rw [hfirst] at hrun
  rcases followTable_cases (q := []) h hroot rfl (by simp) hsmall.first hfirst with
    ⟨rfl, hno⟩ | ⟨f1, own1, rfl, heff1, hf1, hgrown1⟩
  · cases hrun
    exact .inl ⟨rfl, fun hs => hno (supplies_add.mp hs).1⟩
  · rw [List.nil_append] at hf1 hgrown1
    have h1 : ∀ e, tables s1.mem f1 (vpn1 va) ≠ .leaf e := by
      intro e hleaf
      have hsame : lookup (tables s1.mem) t (path va) = lookup (tables s.mem) t (path va) :=
        heff1.same t t [] (path va) hroot (by simp [path]) id
      have hfound : lookup (tables s1.mem) t (path va) = some (e, [vpn0 va]) :=
        (lookup_frameAt hf1 [vpn1 va, vpn0 va]).trans (lookup_leaf _ hleaf)
      have hrest := hsmall e _ (hsame.symm.trans hfound)
      cases hrest
    rcases hsecond : followTable s1 (f1 * PAGE_SIZE) (vpn1 va) true with ⟨res0, s0⟩
    simp only [hsecond] at hrun
    have hroot1 := heff1.keep t _ hroot
    have htab : hasTable s1.mem t [vpn2 va, vpn1 va] =
        (hasTable s.mem t).add [vpn2 va] [vpn2 va, vpn1 va] := hgrown1.tabled _ (by simp)
    have hneed : (hasTable s1.mem t).missing [vpn2 va, vpn1 va] =
        ((hasTable s.mem t).add [vpn2 va]).missing [vpn2 va, vpn1 va] :=
      Tabled.missing_congr htab
    rcases followTable_cases (q := [vpn2 va]) heff1.tree hroot1 hf1 (by simp) h1 hsecond with
      ⟨rfl, hno⟩ | ⟨f0, own0, rfl, heff0, hf0, hgrown0⟩
    · cases hrun
      refine .inl ⟨rfl, fun hs => hno ?_⟩
      have hrest := (supplies_add.mp hs).2
      rw [← hgrown1.pool, ← hneed] at hrest
      exact hrest
    · cases hrun
      refine .inr ⟨f0, own0, rfl, heff1.trans heff0, hf0, ?_⟩
      have hall := hgrown1.trans hgrown0 fun f => heff0.tablePage heff1.tree hroot1 fun _ _ => id
      rw [Tabled.need, ← hneed]
      refine { hall with tabled := fun q hq => ?_ }
      rw [hall.tabled q hq]
      exact Tabled.add_congr (hgrown1.tabled q hq)

theorem hasTable_writeLeaf (hreach : Reaches s.mem t va f0) (q : List (Fin 512)) (hq : q.length < 3)
    :
    hasTable (writePte s.mem (f0 * PAGE_SIZE) (vpn0 va) e) t q = hasTable s.mem t q := by
  unfold hasTable
  rw [tables_writePte]
  congr 1
  apply frameAt_congr
  intro q' g hq' hg i
  apply write_of_frame_ne
  rintro rfl
  have hown := own_of_reaches hreach h hroot
  have hown' := h.owned.frameAt hroot (by simp; omega) hg
  rw [hown] at hown'
  obtain ⟨_, rfl⟩ := Prod.mk.inj (Option.some.inj hown')
  simp only [List.length_cons, List.length_nil] at hq'
  omega

/-- **`map_into_pt`** maps the page unless the frames that it needs are refused. -/
theorem mapIntoPt_attempt (pa : Nat) (r w x u : Bool) (hsmall : NoSuperpage s.mem t va) :
    Attempt (mapIntoPt s (t * PAGE_SIZE) va pa r w x u)
      (Supplies s.pool ((hasTable s.mem t).need va)) fun s' =>
        ∃ own', Effect ok (atPage t va) s s' own own' ∧
          lookup (tables s'.mem) t (path va) =
            (if r || w || x then some (.page pa r w x u, []) else none) ∧
          Grown t s s' ((hasTable s.mem t).need va) ((hasTable s.mem t).withPage va) := by
  unfold mapIntoPt
  rcases hwalk : walkPt s (t * PAGE_SIZE) va true with ⟨res, s1⟩
  rcases walkPt_cases h hroot hsmall hwalk with
    ⟨rfl, hno⟩ | ⟨f0, own1, rfl, heff, hreach, hgrown⟩
  · exact .none hno
  have hroot1 := heff.keep t _ hroot
  obtain ⟨hwrite, hreach', hentry⟩ := writeLeaf_effect (e := .page pa r w x u) heff.tree
    hroot1 (h.rule.page pa r w x u) hreach
  apply (Attempt.some _).mono (iff_of_true trivial hgrown.supplied) fun _ => id
  refine ⟨own1, heff.of_nowhere.trans hwrite, ?_, ?_⟩
  · rw [lookup_of_reaches hreach']
    exact lookup_page hentry
  · refine ⟨hgrown.supplied, hgrown.pool, ?_, ?_⟩
    · intro q hq
      rw [← hgrown.tabled q hq]
      exact hasTable_writeLeaf heff.tree hroot1 hreach q hq
    · have hwalked : WritesWithin t s s1 :=
        ⟨hgrown.touched, fun _ => heff.tablePage h hroot fun _ _ => id⟩
      exact (hwalked.trans
        (writeLeaf_within heff.tree hroot1 (h.rule.page pa r w x u) hreach)).bytes

end

end TrainOS.Sv39
