import Mathlib.Data.List.Nodup
import Mathlib.Data.List.Perm.Subperm
import Mathlib.Data.Nat.Bitwise

/-!
# Dyadic blocks

A block of order `k` is a run of `2 ^ k` consecutive pages that starts at a multiple of `2 ^ k`.
Splitting a block and joining two buddies permute the list of covered pages (`pages_split`,
`pages_join`).
-/

namespace TrainOS.DyadicBlocks

open List

/-! ### Families of lists -/

section Families

variable {ι α : Type*}

/-- Changing one member of a family of lists changes the concatenation by the
    same elements. -/
theorem flatMap_perm_of_change {l : List ι} {f g : ι → List α} {i : ι} {xs ys : List α}
    (hnodup : l.Nodup) (hi : i ∈ l) (hsame : ∀ j ∈ l, j ≠ i → g j = f j)
    (hchange : (xs ++ g i) ~ (ys ++ f i)) : (xs ++ l.flatMap g) ~ (ys ++ l.flatMap f) := by
  obtain ⟨before, after, rfl⟩ := append_of_mem hi
  have hni : i ∉ before ∧ i ∉ after := by
    have h := nodup_middle.mp hnodup
    simpa using (nodup_cons.mp h).1
  have hcongr : ∀ m : List ι, (∀ j ∈ m, j ∈ before ++ i :: after) → i ∉ m →
      m.flatMap g = m.flatMap f := by
    intro m hm him
    refine flatMap_congr fun j hj => hsame j (hm j hj) ?_
    rintro rfl
    exact him hj
  have hbefore := hcongr before (fun j hj => mem_append_left _ hj) hni.1
  have hafter := hcongr after
    (fun j hj => mem_append_right _ (mem_cons_of_mem _ hj)) hni.2
  rw [flatMap_append, flatMap_append, flatMap_cons, flatMap_cons, hbefore, hafter]
  -- bring the changed member next to what is added or removed
  calc xs ++ (before.flatMap f ++ (g i ++ after.flatMap f))
      ~ (xs ++ g i) ++ (before.flatMap f ++ after.flatMap f) := by
        rw [append_assoc]
        exact List.Perm.append_left xs (perm_append_comm_assoc _ _ _)
    _ ~ (ys ++ f i) ++ (before.flatMap f ++ after.flatMap f) := hchange.append_right _
    _ ~ ys ++ (before.flatMap f ++ (f i ++ after.flatMap f)) := by
        rw [append_assoc]
        exact List.Perm.append_left ys (perm_append_comm_assoc _ _ _)

/-- Taking an element out of an image takes out one of its preimages. -/
theorem perm_cons_map {β : Type*} [DecidableEq α] {f : α → β} {x : β} {l : List β} {C : List α}
    (h : (x :: l) ~ C.map f) : ∃ b C', f b = x ∧ C ~ (b :: C') ∧ l ~ C'.map f := by
  obtain ⟨b, hb, hfb⟩ := mem_map.mp (h.subset mem_cons_self)
  have herase : C ~ (b :: C.erase b) := perm_cons_erase hb
  have himage : C.map f ~ (f b :: (C.erase b).map f) := herase.map f
  refine ⟨b, C.erase b, hfb, herase, ?_⟩
  rw [hfb] at himage
  exact (h.trans himage).cons_inv

end Families

/-! ### Blocks and the pages they cover -/

/-- `2 ^ order` consecutive pages from `start` on. -/
structure Block where
  start : Nat
  order : Nat
deriving DecidableEq, Repr

def Block.pages (b : Block) : List Nat := range' b.start (2 ^ b.order)

/-- The block starts at a multiple of its size. -/
def Block.Aligned (b : Block) : Prop := 2 ^ b.order ∣ b.start

def Block.Apart (b c : Block) : Prop :=
  b.start + 2 ^ b.order ≤ c.start ∨ c.start + 2 ^ c.order ≤ b.start

/-- The pages covered by a collection of blocks, with repetitions. -/
def pages (B : List Block) : List Nat := B.flatMap Block.pages

variable {b : Block} {p k q w a : Nat}

theorem Block.mem_pages : p ∈ b.pages ↔ b.start ≤ p ∧ p < b.start + 2 ^ b.order := by
  unfold Block.pages
  simp

theorem Block.start_mem_pages (b : Block) : b.start ∈ b.pages := by
  rw [Block.mem_pages]
  exact ⟨le_refl _, Nat.lt_add_of_pos_right (Nat.two_pow_pos _)⟩

@[simp] theorem pages_nil : pages [] = [] := rfl

@[simp] theorem pages_cons (b : Block) (B : List Block) : pages (b :: B) = b.pages ++ pages B :=
  flatMap_cons

@[simp] theorem pages_append (B C : List Block) : pages (B ++ C) = pages B ++ pages C :=
  flatMap_append

variable {B C : List Block}

theorem mem_pages : p ∈ pages B ↔ ∃ b ∈ B, p ∈ b.pages :=
  mem_flatMap

theorem pages_perm (h : B ~ C) : pages B ~ pages C :=
  h.flatMap fun _ _ => .refl _

theorem pages_sublist (h : B <+ C) : pages B <+ pages C := by
  induction h with
  | slnil => exact .refl _
  | cons b _ ih =>
    rw [pages_cons]
    exact ih.trans (sublist_append_right _ _)
  | cons_cons b _ ih =>
    rw [pages_cons, pages_cons]
    exact (List.Sublist.refl _).append ih

theorem pages_split (p k : Nat) :
    (⟨p, k + 1⟩ : Block).pages = (⟨p, k⟩ : Block).pages ++ (⟨p + 2 ^ k, k⟩ : Block).pages := by
  unfold Block.pages
  rw [pow_succ, Nat.mul_two, range'_append_1]

theorem Block.Aligned.halves (h : (⟨p, k + 1⟩ : Block).Aligned) :
    (⟨p, k⟩ : Block).Aligned ∧ (⟨p + 2 ^ k, k⟩ : Block).Aligned := by
  have hp : 2 ^ k ∣ p := (pow_dvd_pow 2 (Nat.le_succ k)).trans h
  exact ⟨hp, Nat.dvd_add hp (dvd_refl _)⟩

/-! ### Buddies -/

/-- The other half of the block of order `k + 1` around `p`. -/
def buddy (p k : Nat) : Nat := p ^^^ 2 ^ k

theorem buddy_buddy (p k : Nat) : buddy (buddy p k) k = p := by
  unfold buddy
  rw [Nat.xor_assoc, Nat.xor_self, Nat.xor_zero]

theorem buddy_ne : buddy p k ≠ p := by
  intro heq
  have hzero : 2 ^ k = 0 := by
    have hxor : p ^^^ (p ^^^ 2 ^ k) = 2 ^ k := by rw [← Nat.xor_assoc, Nat.xor_self, Nat.zero_xor]
    unfold buddy at heq
    rw [heq, Nat.xor_self] at hxor
    exact hxor.symm
  exact absurd hzero (Nat.two_pow_pos k).ne'

/-- An aligned block is the lower or the upper half of the next larger block. -/
theorem buddy_cases (h : 2 ^ k ∣ p) : (2 ^ (k + 1) ∣ p ∧ buddy p k = p + 2 ^ k) ∨
      (∃ q, 2 ^ (k + 1) ∣ q ∧ p = q + 2 ^ k ∧ buddy p k = q) := by
  obtain ⟨m, rfl⟩ := h
  have hxor : buddy (2 ^ k * m) k = 2 ^ k * (m ^^^ 1) := by
    unfold buddy
    rw [Nat.mul_comm, Nat.mul_comm _ (m ^^^ 1), ← Nat.shiftLeft_eq, ← Nat.shiftLeft_eq,
      Nat.shiftLeft_xor_distrib, Nat.one_shiftLeft]
  rw [hxor, pow_succ]
  rcases Nat.even_or_odd' m with ⟨n, rfl | rfl⟩
  · left
    refine ⟨⟨n, (Nat.mul_assoc _ _ _).symm⟩, ?_⟩
    rw [Nat.xor_one_of_even (even_two_mul n), Nat.mul_succ]
  · right
    refine ⟨2 ^ k * (2 * n), ⟨n, (Nat.mul_assoc _ _ _).symm⟩, Nat.mul_succ _ _, ?_⟩
    rw [Nat.xor_one_of_odd (odd_two_mul_add_one n), Nat.add_sub_cancel]

theorem buddy_lower (h : 2 ^ (k + 1) ∣ q) : buddy q k = q + 2 ^ k := by
  have hk : 2 ^ k ∣ q := (pow_dvd_pow 2 (Nat.le_succ k)).trans h
  rcases buddy_cases hk with ⟨_, heq⟩ | ⟨r, hr, hqr, _⟩
  · exact heq
  · -- an odd multiple of `2 ^ k` is not a multiple of `2 ^ (k + 1)`
    have hdvd : 2 ^ (k + 1) ∣ 2 ^ k := (Nat.dvd_add_right hr).mp (hqr ▸ h)
    exact absurd (Nat.le_of_dvd (Nat.two_pow_pos k) hdvd)
      (not_le_of_gt (Nat.pow_lt_pow_right Nat.one_lt_two (Nat.lt_succ_self k)))

/-- Clearing bit `k` of a `w`-bit word, by masking with its complement. -/
def clearBit (w p k : Nat) : Nat := p &&& (2 ^ w - (2 ^ k + 1))

theorem clearBit_testBit {i : Nat} (hp : p < 2 ^ w) (hk : k < w) :
    (clearBit w p k).testBit i = (p.testBit i && !decide (k = i)) := by
  have hmask : 2 ^ k < 2 ^ w := Nat.pow_lt_pow_right Nat.one_lt_two hk
  unfold clearBit
  rw [Nat.testBit_and, Nat.testBit_two_pow_sub_succ hmask, Nat.testBit_two_pow]
  by_cases hi : i < w
  · simp [hi]
  · have hzero : p.testBit i = false :=
      Nat.testBit_lt_two_pow (hp.trans_le (Nat.pow_le_pow_right Nat.two_pos (not_lt.mp hi)))
    simp [hzero]

/-- Clearing bit `k` of either buddy gives the start of the joined block. -/
theorem clearBit_lower (hq : q < 2 ^ w) (hk : k < w) (h : 2 ^ (k + 1) ∣ q) :
    clearBit w q k = q := by
  refine Nat.eq_of_testBit_eq fun i => ?_
  rw [clearBit_testBit hq hk]
  by_cases hi : k = i
  · subst hi
    obtain ⟨m, rfl⟩ := h
    rw [Nat.testBit_two_pow_mul]
    simp
  · simp [hi]

theorem clearBit_upper (hq : q + 2 ^ k < 2 ^ w) (hk : k < w)
    (h : 2 ^ (k + 1) ∣ q) : clearBit w (q + 2 ^ k) k = q := by
  have hxor : q + 2 ^ k = q ^^^ 2 ^ k := (buddy_lower h).symm
  have hbit : q.testBit k = false := by
    obtain ⟨m, rfl⟩ := h
    rw [Nat.testBit_two_pow_mul]
    simp
  refine Nat.eq_of_testBit_eq fun i => ?_
  rw [clearBit_testBit hq hk, hxor, Nat.testBit_xor, Nat.testBit_two_pow]
  by_cases hi : k = i
  · subst hi
    simp [hbit]
  · simp [hi]

/-- **Joining buddies.**  The block of order `k + 1` at the cleared start covers
    the two buddies. -/
theorem pages_join (hp : p < 2 ^ w) (hk : k < w) (h : 2 ^ k ∣ p) : 2 ^ (k + 1) ∣ clearBit w p k ∧
      (⟨clearBit w p k, k + 1⟩ : Block).pages ~
        ((⟨p, k⟩ : Block).pages ++ (⟨buddy p k, k⟩ : Block).pages) := by
  rcases buddy_cases h with ⟨hlow, hbuddy⟩ | ⟨q, hq, rfl, hbuddy⟩
  · rw [clearBit_lower hp hk hlow, hbuddy, pages_split]
    exact ⟨hlow, .refl _⟩
  · rw [clearBit_upper hp hk hq, hbuddy, pages_split]
    exact ⟨hq, perm_append_comm⟩

/-! ### Well-placed collections -/

/-- The blocks are aligned, lie inside the first `total` pages and cover no page
    twice. -/
structure WellPlaced (total : Nat) (B : List Block) : Prop where
  aligned : ∀ b ∈ B, b.Aligned
  nodup : (pages B).Nodup
  inside : ∀ p ∈ pages B, p < total

variable {total : Nat} {B C : List Block}

section

variable (h : WellPlaced total B)
include h

/-- Aligned blocks that cover no more than a well-placed collection are
    well placed. -/
theorem WellPlaced.of_subperm (haligned : ∀ c ∈ C, c.Aligned) (hpages : pages C <+~ pages B) :
    WellPlaced total C where
  aligned := haligned
  nodup := by
    obtain ⟨l, hperm, hsub⟩ := hpages
    exact hperm.nodup (h.nodup.sublist hsub)
  inside := fun p hp => h.inside p (hpages.subset hp)

/-- Leaving blocks out and reordering keeps a collection well placed. -/
theorem WellPlaced.subperm (hsub : C <+~ B) : WellPlaced total C := by
  obtain ⟨D, hperm, hDB⟩ := hsub
  refine h.of_subperm (fun c hc => h.aligned c (hDB.subset (hperm.mem_iff.mpr hc))) ?_
  exact (pages_perm hperm.symm).subperm.trans (pages_sublist hDB).subperm

theorem WellPlaced.stop_le (hb : b ∈ B) : b.start + 2 ^ b.order ≤ total := by
  have hpos : 0 < 2 ^ b.order := Nat.two_pow_pos _
  have hlast : b.start + 2 ^ b.order - 1 ∈ pages B := by
    rw [mem_pages]
    refine ⟨b, hb, ?_⟩
    rw [Block.mem_pages]
    omega
  have hlt := h.inside _ hlast
  omega

theorem WellPlaced.start_lt (hb : b ∈ B) :
    b.start < total :=
  h.inside _ (mem_pages.mpr ⟨b, hb, b.start_mem_pages⟩)

end

theorem Block.apart_of_disjoint {c : Block} (h : b.pages.Disjoint c.pages) : b.Apart c := by
  by_contra hcon
  obtain ⟨hbc, hcb⟩ := not_or.mp hcon
  -- the later of the two starts lies in both blocks
  have hmem : max b.start c.start ∈ b.pages ∧ max b.start c.start ∈ c.pages := by
    have hb : 0 < 2 ^ b.order := Nat.two_pow_pos _
    have hc : 0 < 2 ^ c.order := Nat.two_pow_pos _
    rw [Block.mem_pages, Block.mem_pages]
    omega
  exact h hmem.1 hmem.2

section

variable (h : WellPlaced total B)
include h

theorem WellPlaced.pairwise_apart : B.Pairwise Block.Apart := by
  have hdisj := (nodup_flatMap.mp h.nodup).2
  exact hdisj.imp fun {_ _} hbc => Block.apart_of_disjoint hbc

theorem WellPlaced.nodup_starts : (B.map Block.start).Nodup := by
  have hdisj := (nodup_flatMap.mp h.nodup).2
  refine pairwise_map.mpr (hdisj.imp fun {b c} hbc heq => ?_)
  exact hbc b.start_mem_pages (heq ▸ c.start_mem_pages)

theorem WellPlaced.subperm_range : pages B <+~ range total :=
  h.nodup.subperm fun p hp => mem_range.mpr (h.inside p hp)

theorem WellPlaced.length_le : (pages B).length ≤ total := by
  simpa using h.subperm_range.length_le

/-- A well-placed collection of full weight covers every page. -/
theorem WellPlaced.covers (hfull : (pages B).length = total) (hp : p < total) :
    ∃ b ∈ B, p ∈ b.pages := by
  have hperm : pages B ~ range total :=
    h.subperm_range.perm_of_length_le (by rw [length_range, hfull])
  exact mem_pages.mp (hperm.mem_iff.mpr (mem_range.mpr hp))

end

/-- An aligned block of at least the size `2 ^ k` that contains a page of an aligned range of
    this size contains the start of the range. -/
theorem Block.mem_pages_of_le (hb : b.Aligned) (hk : k ≤ b.order)
    (ha : 2 ^ k ∣ a) (hp : p ∈ b.pages) (hap : a ≤ p) (hpa : p < a + 2 ^ k) : a ∈ b.pages := by
  rw [Block.mem_pages] at hp ⊢
  refine ⟨?_, hap.trans_lt hp.2⟩
  obtain ⟨m, rfl⟩ := ha
  obtain ⟨n, hn⟩ := (pow_dvd_pow 2 hk).trans hb
  rw [hn] at hp ⊢
  have hlt : 2 ^ k * n < 2 ^ k * (m + 1) := by
    exact hp.1.trans_lt hpa
  exact Nat.mul_le_mul_left _ (Nat.lt_succ_iff.mp (Nat.lt_of_mul_lt_mul_left hlt))

theorem Block.start_eq (hb : b.Aligned) (ha : 2 ^ b.order ∣ a) (hmem : a ∈ b.pages) :
    b.start = a := by
  obtain ⟨hlo, hhi⟩ := Block.mem_pages.mp hmem
  have hstart : b.start ∈ (⟨a, b.order⟩ : Block).pages :=
    Block.mem_pages_of_le ha (le_refl _) hb (Block.start_mem_pages _) hlo hhi
  exact le_antisymm hlo (Block.mem_pages.mp hstart).1

/-- **Joined buddies leave no fragments.**  In a collection without two buddies below the
    order `top`, an aligned range that is covered lies in one block. -/
theorem WellPlaced.block_of_covered (h : WellPlaced total B) {top : Nat}
    (hjoined : ∀ b ∈ B, b.order < top → (⟨buddy b.start b.order, b.order⟩ : Block) ∉ B)
    (hk : k ≤ top) (ha : 2 ^ k ∣ a)
    (hcov : ∀ p, a ≤ p → p < a + 2 ^ k → p ∈ pages B) : ∃ b ∈ B, k ≤ b.order ∧ a ∈ b.pages := by
  induction k generalizing a with
  | zero =>
    obtain ⟨b, hb, hab⟩ := mem_pages.mp (hcov a (le_refl _) (Nat.lt_add_of_pos_right (by decide)))
    exact ⟨b, hb, Nat.zero_le _, hab⟩
  | succ k ih =>
    have ha' : 2 ^ k ∣ a := (pow_dvd_pow 2 (Nat.le_succ k)).trans ha
    obtain ⟨b, hb, hbk, hab⟩ := ih (Nat.le_of_succ_le hk) ha' fun p hp hpa =>
      hcov p hp (by omega)
    obtain ⟨c, hc, hck, hac⟩ := ih (Nat.le_of_succ_le hk) (Nat.dvd_add ha' (dvd_refl _))
      fun p hp hpa => hcov p (by omega) (by omega)
    rcases Nat.lt_or_ge k b.order with hlarge | hsmall
    · exact ⟨b, hb, hlarge, hab⟩
    rcases Nat.lt_or_ge k c.order with hlarge | hsmall'
    · exact ⟨c, hc, hlarge, Block.mem_pages_of_le (h.aligned c hc) hlarge ha hac (by omega)
        (by omega)⟩
    -- the two blocks are the halves of the range, so they are buddies
    obtain ⟨start, order⟩ := b
    obtain ⟨start', order'⟩ := c
    obtain rfl : order = k := le_antisymm hsmall hbk
    obtain rfl : order' = order := le_antisymm hsmall' hck
    obtain rfl : start = a := Block.start_eq (h.aligned _ hb) ha' hab
    obtain rfl : start' = start + 2 ^ order' :=
      Block.start_eq (h.aligned _ hc) (Nat.dvd_add ha' (dvd_refl _)) hac
    refine absurd hc ?_
    have halone := hjoined _ hb hk
    rw [buddy_lower ha] at halone
    exact halone

end TrainOS.DyadicBlocks
