import TrainOS.BuddyInvariant

/-!
# Splitting, merging and initialisation

One specification lemma for each operation of the locked buddy state.  Splitting
loses nothing, since it pushes only onto empty lists.  Merging ends with one push,
onto the list at which the block comes to rest (`restOrder`); it loses pages
exactly when that list is headed by page `0`.
-/

namespace TrainOS.Buddy

open ByteMemory DyadicBlocks Function LinkedChain List MachineWord

variable {s : BuddyInner} {B : List Block} {L : Nat → List Nat}

/-! ### Splitting -/

variable {p k : Nat}

theorem linkPush_self (h : (L k).head? ≠ some 0) : linkPush L p k k = p :: L k := by
  unfold linkPush
  rw [update_self, if_neg h]

theorem linkPush_of_ne {j : Nat} (h : j ≠ k) : linkPush L p k j = L j :=
  update_of_ne h _ _

theorem pages_push (hk : k ≤ MAX_ORDER) (h : (L k).head? ≠ some 0) :
    pages (pool (linkPush L p k)) ~ ((⟨p, k⟩ : Block).pages ++ pages (pool L)) := by
  obtain ⟨cut, hperm, hcut, hfirst⟩ := pool_linkPush (L := L) (p := p) hk
  have hnone : cut = [] := by
    by_contra hne
    have hlen := length_pos_of_mem (hfirst hne)
    rw [hcut, lost_eq_zero.mpr h] at hlen
    exact Nat.lt_irrefl 0 hlen
  rw [hnone, nil_append] at hperm
  exact pages_perm hperm

/-- What an operation does to the free lists: it is given some blocks, gives others
    up, and keeps the buddies joined. -/
structure Reshapes (given left : List Block) (L L' : Nat → List Nat) : Prop where
  covers : pages (left ++ pool L') ~ pages (given ++ pool L)
  coalesced : Coalesced L → Coalesced L'

variable {L' : Nat → List Nat}

theorem Reshapes.weight {given left : List Block} (h : Reshapes given left L L') :
    (pages left).length + freeWeight L' = (pages given).length + freeWeight L := by
  have hlen := h.covers.length_eq
  rw [pages_append, pages_append, length_append, length_append] at hlen
  exact hlen

theorem length_pages_singleton (p k : Nat) : (pages [⟨p, k⟩]).length = 2 ^ k := by
  rw [pages_cons, pages_nil, append_nil, length_block_pages]

/-- **Splitting.**  With empty lists from the target order up to the order of the
    block, `split` hands over the lowest part of the block and keeps the rest on
    the lists. -/
theorem Shape.split {o target : Nat} {l : List Nat} (h : Shape s B L) (ho : o ≤ MAX_ORDER)
    (hlt : target < o) (hlist : L o = p :: l) (hempty : ∀ j, target ≤ j → j < o → L j = []) :
    ∃ s' L', s.split o target = some (p, s') ∧ Keeps s s' ∧ Shape s' (⟨p, target⟩ :: B) L' ∧
      pages ([⟨p, target⟩] ++ pool L') ~ pages (pool L) ∧
      (Coalesced (update L o l) → Coalesced L') := by
  induction o generalizing s L p l with
  | zero => exact absurd hlt (Nat.not_lt_zero _)
  | succ o ih =>
    have ho' : o ≤ MAX_ORDER := Nat.le_of_succ_le ho
    obtain ⟨s1, hpop, hkeep1, hshape1⟩ := h.popFree ho hlist
    have htaken := pages_perm (pool_take ho (.of_eq hlist.symm))
    rw [pages_cons, pages_split] at htaken
    set L1 := update L (o + 1) l with hL1
    have hL1o : L1 o = [] := by
      rw [hL1, update_of_ne (Nat.ne_of_lt (Nat.lt_succ_self o))]
      exact hempty o (Nat.lt_succ_iff.mp hlt) (Nat.lt_succ_self o)
    have hhead1 : (L1 o).head? ≠ some 0 := by simp [hL1o]
    have hhalves := hshape1.halve
    -- the upper half starts inside the region, so its index does not wrap
    have hupper : wrapAdd p (2 ^ o) = p + 2 ^ o :=
      wrapAdd_of_lt ((hhalves.held_lt mem_cons_self).trans hhalves.total_lt)
    have hshape2 := hhalves.pushFree ho'
    set L2 := linkPush L1 (p + 2 ^ o) o with hL2
    have hpushed : pages ([⟨p, o⟩] ++ pool L2) ~ pages (pool L) := by
      refine List.Perm.trans ?_ htaken
      rw [append_assoc]
      exact (pages_push ho' hhead1).append_left _
    have hjoined2 : Coalesced L1 → Coalesced L2 :=
      fun hjoined => hjoined.linkPush fun _ => by simp [hL1o]
    have hkeep2 : Keeps s (s1.pushFree (p + 2 ^ o) o) := hkeep1.trans (.pushFree _ _ _)
    rw [BuddyInner.split, if_pos hlt, hpop]
    simp only [hupper]
    by_cases hmore : target < o
    · rw [if_pos hmore]
      have hL2o : L2 o = [p + 2 ^ o] := by rw [hL2, linkPush_self hhead1, hL1o]
      have hhead2 : (L2 o).head? ≠ some 0 := by
        rw [hL2o]
        simp
      have hshape3 := hshape2.pushFree ho'
      have hlist3 : linkPush L2 p o o = p :: [p + 2 ^ o] := by
        rw [linkPush_self hhead2, hL2o]
      have hempty3 : ∀ j, target ≤ j → j < o → linkPush L2 p o j = [] := by
        intro j hj hjo
        rw [linkPush_of_ne (Nat.ne_of_lt hjo), hL2, linkPush_of_ne (Nat.ne_of_lt hjo), hL1,
          update_of_ne (Nat.ne_of_lt (hjo.trans (Nat.lt_succ_self o)))]
        exact hempty j hj (hjo.trans (Nat.lt_succ_self o))
      obtain ⟨s', L', hsplit, hkeep, hshape, hpages, hjoined⟩ :=
        ih hshape3 ho' hmore hlist3 hempty3
      refine ⟨s', L', hsplit, (hkeep2.trans (.pushFree _ _ _)).trans hkeep, hshape,
        (hpages.trans (pages_push ho' hhead2)).trans hpushed, fun hjoined1 => hjoined ?_⟩
      -- without the block that is split next, the lists are those of the last push
      have hback : update (linkPush L2 p o) o [p + 2 ^ o] = L2 := by
        unfold linkPush
        rw [update_idem, ← hL2o, update_eq_self]
      rw [hback]
      exact hjoined2 hjoined1
    · rw [if_neg hmore]
      have htarget : o = target := by omega
      subst htarget
      exact ⟨_, _, rfl, hkeep2, hshape2, hpushed, hjoined2⟩

/-! ### Merging -/

variable {base offset loss lo remaining : Nat} {m : Memory}

theorem nodeNext_ne_zero : nodeNext m base p ≠ some 0 := by
  intro hzero
  by_cases hval : readLE m (pageToAddr base p) 8 = 0
  · simp [nodeNext, hval] at hzero
  · simp [nodeNext, hval] at hzero

theorem nodeNext_getD_lt : (nodeNext m base p).getD 0 < WORD := by
  have hlt : readLE m (pageToAddr base p) 8 < WORD := readLE_lt m (pageToAddr base p) 8
  by_cases hval : readLE m (pageToAddr base p) 8 = 0
  · simp [nodeNext, hval, WORD]
  · simpa [nodeNext, hval] using hlt

theorem Shape.hasBuddy (h : Shape s B L) (hk : k ≤ MAX_ORDER)
    (hmem : buddy p k ∈ L k) : s.hasBuddy p k = true := by
  have hb : (⟨buddy p k, k⟩ : Block) ∈ B ++ pool L :=
    mem_append_right B (Shape.mem_pool_of_mem hk hmem)
  have hstop : buddy p k + 2 ^ k ≤ s.totalPages := h.placed.stop_le hb
  have hlt : buddy p k < s.totalPages := h.placed.start_lt hb
  have hfits : s.base + s.totalPages * 4096 ≤ s.limit := h.region
  have hlimit := h.limit_lt
  have hsize : wrapMul (2 ^ k) 4096 = 2 ^ k * 4096 := wrapMul_of_lt (by omega)
  have hsum : s.base + buddy p k * 4096 + 2 ^ k * 4096 ≤ s.limit := by omega
  have hstart : pageToAddr s.base (buddy p k) = s.base + buddy p k * 4096 :=
    pageToAddr_of_lt h.fits hlt
  simp [BuddyInner.hasBuddy, PAGE_SIZE, hstart, hsize, wrapAdd_of_lt (hsum.trans_lt hlimit), hsum]

variable {pre post : List Nat}

/-- A block leaves its list. -/
theorem Shape.unlink {b : Nat} (h : Shape s B L) (hk : k ≤ MAX_ORDER)
    (hlist : L k = pre ++ b :: post) : Keeps s (s.unlink b k (lastOr none pre)) ∧
      Shape (s.unlink b k (lastOr none pre)) (⟨b, k⟩ :: B)
        (update L k (pre ++ post)) := by
  have hperm : (b :: (pre ++ post)) ~ L k := by
    rw [hlist]
    exact perm_middle.symm
  have hplaced := h.placed_take hk hperm
  have hchain := h.chain k hk
  rw [hlist] at hchain
  cases pre with
  | nil =>
    -- the buddy is the head: the list head moves on
    obtain ⟨_, htail⟩ := hchain
    refine ⟨⟨rfl, rfl, rfl, rfl⟩, ⟨h.region, h.limit_lt, ?_, hplaced⟩⟩
    intro j hj
    by_cases hjk : j = k
    · subst hjk
      simpa [BuddyInner.unlink, lastOr, BuddyInner.next] using htail
    · simpa [BuddyInner.unlink, lastOr, BuddyInner.next, hjk] using h.chain j hj
  | cons p pre =>
    -- the buddy has a predecessor `q`, whose link is redirected
    obtain ⟨q, hq⟩ := Option.ne_none_iff_exists'.mp (lastOr_cons_ne_none (l := pre) (p := p))
    have hqmem : q ∈ L k := by
      rw [hlist]
      rcases lastOr_eq_some_mem hq with rfl | hin
      · exact mem_cons_self
      · exact mem_cons_of_mem _ (mem_append_left _ hin)
    have hqlt : q < s.totalPages := h.node_lt hk hqmem
    have hnodup := h.list_nodup hk
    rw [hlist] at hnodup
    have hunlink : s.unlink b k (lastOr none (p :: pre)) =
        { s with mem := setNodeNext s.mem s.base q (s.next b) } := by
      simp [BuddyInner.unlink, lastOr, hq]
    rw [hunlink]
    refine ⟨⟨rfl, rfl, rfl, rfl⟩, ⟨h.region, h.limit_lt, ?_, hplaced⟩⟩
    intro j hj
    have hkeep : ∀ r ∈ L j, r ≠ q →
        nodeNext (setNodeNext s.mem s.base q (s.next b)) s.base r = s.next r := by
      intro r hr hne
      exact nodeNext_setNodeNext_ne h.fits hqlt (h.node_lt hj hr) hne
    by_cases hjk : j = k
    · subst hjk
      have hredirect : nodeNext (setNodeNext s.mem s.base q (s.next b)) s.base q = s.next b := by
        unfold BuddyInner.next
        rw [nodeNext_setNodeNext_same nodeNext_getD_lt, if_neg nodeNext_ne_zero]
      rw [update_self]
      rw [hlist] at hkeep
      exact hchain.unlink hnodup hq hredirect hkeep
    · rw [update_of_ne hjk]
      refine (h.chain j hj).congr fun r hr => hkeep r hr ?_
      rintro rfl
      exact hjk (h.lists_disjoint hk hj hr hqmem)

theorem Shape.join (h : Shape s (⟨buddy p k, k⟩ :: ⟨p, k⟩ :: B) L) (hk : k < 64) :
    Shape s (⟨clearBit 64 p k, k + 1⟩ :: B) L ∧ (⟨clearBit 64 p k, k + 1⟩ : Block).pages ~
      ((⟨p, k⟩ : Block).pages ++ (⟨buddy p k, k⟩ : Block).pages) := by
  have hp : p < 2 ^ 64 :=
    (h.held_lt (mem_cons_of_mem _ mem_cons_self)).trans h.total_lt
  have haligned : 2 ^ k ∣ p := h.placed.aligned ⟨p, k⟩ (by simp)
  obtain ⟨hjoined, hperm⟩ := pages_join hp hk haligned
  have hpages : pages ((⟨clearBit 64 p k, k + 1⟩ :: B) ++ pool L) ~
      pages ((⟨buddy p k, k⟩ :: ⟨p, k⟩ :: B) ++ pool L) := by
    simp only [cons_append, pages_cons, ← append_assoc]
    exact (hperm.trans perm_append_comm).append_right _
  refine ⟨{ h with placed := h.placed.of_subperm ?_ hpages.subperm }, hperm⟩
  exact forall_mem_cons.mpr ⟨hjoined, fun c hc =>
    h.placed.aligned c (mem_cons_of_mem _ (mem_cons_of_mem _ hc))⟩

/-- The order at which a freed block comes to rest: it grows while its buddy is
    free. -/
def restOrder (L : Nat → List Nat) : Nat → Nat → Nat → Nat
  | 0, _, order => order
  | rounds + 1, page, order =>
      if buddy page order ∈ L order then
        restOrder L rounds (clearBit 64 page order) (order + 1)
      else order

variable {rounds page order : Nat}

theorem restOrder_bounds : order ≤ restOrder L rounds page order ∧
    restOrder L rounds page order ≤ rounds + order := by
  induction rounds generalizing page order with
  | zero => exact ⟨le_refl _, Nat.le_add_left _ _⟩
  | succ rounds ih =>
    rw [restOrder]
    split
    · have hgrown : order + 1 ≤ restOrder L rounds (clearBit 64 page order) (order + 1) ∧ _ := ih
      omega
    · exact ⟨le_refl _, Nat.le_add_left _ _⟩

theorem restOrder_congr (h : ∀ j, order ≤ j → j < rounds + order → L' j = L j) :
    restOrder L' rounds page order = restOrder L rounds page order := by
  induction rounds generalizing page order with
  | zero => rfl
  | succ rounds ih =>
    rw [restOrder, restOrder, h order (le_refl _) (by omega)]
    have hrest : restOrder L' rounds (clearBit 64 page order) (order + 1) =
        restOrder L rounds (clearBit 64 page order) (order + 1) :=
      ih fun j hj hlt => h j (Nat.le_of_succ_le hj) (by omega)
    rw [hrest]

theorem mergeLoop_found (h : Shape s B L)
    (hk : order ≤ MAX_ORDER) (hlist : L order = pre ++ buddy page order :: post) :
    BuddyInner.mergeLoop (rounds + 1) s page order =
      BuddyInner.mergeLoop rounds (s.unlink (buddy page order) order (lastOr none pre))
        (clearBit 64 page order) (order + 1) := by
  have hmem : buddy page order ∈ L order := by
    rw [hlist]
    exact mem_append_right _ mem_cons_self
  have hnodup := h.list_nodup hk
  have hlen := h.list_length_le hk
  have hchain := h.chain order hk
  rw [hlist] at hnodup hlen hchain
  have hfirst : buddy page order ∉ pre :=
    fun hin => (nodup_append.mp hnodup).2.2 _ hin _ mem_cons_self rfl
  rw [length_append, length_cons] at hlen
  rw [BuddyInner.mergeLoop, if_pos (h.hasBuddy hk hmem), scan_found hchain hfirst (by omega)]

/-- **Merging.**  `try_merge` puts the block, joined with its free buddies, onto
    the list at which it comes to rest; the blocks `cut` are lost, page `0` among
    them if there are any. -/
theorem Shape.mergeLoop (h : Shape s (⟨page, order⟩ :: B) L)
    (hrounds : rounds + order = MAX_ORDER) :
    ∃ s' L' cut, BuddyInner.mergeLoop rounds s page order = some s' ∧ Keeps s s' ∧
      Shape s' B L' ∧ Reshapes [⟨page, order⟩] cut L L' ∧
      (pages cut).length = lost L (restOrder L rounds page order) ∧
      (cut ≠ [] → 0 ∈ pages cut) := by
  -- the last step, at a list without the buddy or at the largest order
  have hpush : ∀ {s : BuddyInner} {L : Nat → List Nat} {page order : Nat},
      Shape s (⟨page, order⟩ :: B) L → order ≤ MAX_ORDER →
      (order < MAX_ORDER → buddy page order ∉ L order) →
      ∃ cut, Shape (s.pushFree page order) B (linkPush L page order) ∧
        Reshapes [⟨page, order⟩] cut L (linkPush L page order) ∧
        (pages cut).length = lost L order ∧ (cut ≠ [] → 0 ∈ pages cut) := by
    intro s L page order h hk halone
    obtain ⟨cut, hperm, hcut, hfirst⟩ := pool_linkPush (L := L) (p := page) hk
    exact ⟨cut, h.pushFree hk, ⟨pages_perm hperm, fun hjoined => hjoined.linkPush halone⟩, hcut,
      hfirst⟩
  induction rounds generalizing s page order L with
  | zero =>
    have hk : order ≤ MAX_ORDER := by omega
    obtain ⟨cut, hshape, hreshape, hcut, hfirst⟩ := hpush h hk fun hlt => by omega
    exact ⟨_, _, cut, rfl, .pushFree s page order, hshape, hreshape, hcut, hfirst⟩
  | succ rounds ih =>
    have hk : order ≤ MAX_ORDER := by omega
    by_cases hmem : buddy page order ∈ L order
    · obtain ⟨pre, post, hlist⟩ := append_of_mem hmem
      have hperm : (buddy page order :: (pre ++ post)) ~ L order := by
        rw [hlist]
        exact perm_middle.symm
      obtain ⟨hkeep, hunlinked⟩ := h.unlink hk hlist
      obtain ⟨hjoined, hjoin⟩ := hunlinked.join (hk.trans_lt (by decide))
      obtain ⟨s', L', cut, hloop, hkeep', hshape, hreshape, hcut, hfirst⟩ := ih hjoined (by omega)
      have hsame : ∀ j ≥ order + 1, update L order (pre ++ post) j = L j := by
        intro j hj
        exact update_of_ne (Nat.ne_of_gt hj) _ _
      -- the lists above `order` are untouched, so the resting place is the same
      have hrest : restOrder L (rounds + 1) page order =
          restOrder L rounds (clearBit 64 page order) (order + 1) := by
        rw [restOrder, if_pos hmem]
      have hlost : lost (update L order (pre ++ post))
          (restOrder L rounds (clearBit 64 page order) (order + 1)) =
          lost L (restOrder L rounds (clearBit 64 page order) (order + 1)) := by
        unfold lost
        rw [hsame _ restOrder_bounds.1]
      rw [restOrder_congr fun j hj _ => hsame j hj, hlost] at hcut
      refine ⟨s', L', cut, (mergeLoop_found h hk hlist).trans hloop, hkeep.trans hkeep', hshape,
        ⟨?_, ?_⟩, by rw [hrest, hcut], hfirst⟩
      · calc pages (cut ++ pool L')
            ~ pages ([⟨clearBit 64 page order, order + 1⟩] ++
                pool (update L order (pre ++ post))) := hreshape.covers
          _ ~ pages ([⟨page, order⟩] ++
                ⟨buddy page order, order⟩ :: pool (update L order (pre ++ post))) := by
              rw [singleton_append, pages_cons, singleton_append, pages_cons,
                pages_cons, ← append_assoc]
              exact hjoin.append_right _
          _ ~ pages ([⟨page, order⟩] ++ pool L) :=
              pages_perm ((pool_take hk hperm).append_left _)
      · intro hjoined
        apply hreshape.coalesced
        apply hjoined.update
        intro q hq
        exact hperm.subset (mem_cons_of_mem _ hq)
    · obtain ⟨cut, hshape, hreshape, hcut, hfirst⟩ := hpush h hk fun _ => hmem
      refine ⟨_, _, cut, ?_, .pushFree s page order, hshape, hreshape, ?_, hfirst⟩
      · rw [BuddyInner.mergeLoop]
        split
        · rw [scan_absent (h.chain order hk) (h.list_length_le hk) hmem]
        · rfl
      · rw [restOrder, if_neg hmem]
        exact hcut

/-! ### Allocation and release on the locked state -/

theorem Shape.setAllocated (h : Shape s B L) (n : Nat) :
    Shape { s with allocatedPages := n } B L :=
  ⟨h.region, h.limit_lt, h.chain, h.placed⟩

/-- `alloc_pages` fails and changes nothing, because no block of the wanted order or a
    larger one is free, or hands over a block of the wanted order. -/
theorem Shape.allocPages (h : Shape s B L) (order : Nat) :
    (s.allocPages order = some (none, s) ∧ ∀ b ∈ pool L, b.order < order) ∨
      ∃ p s' L', s.allocPages order = some (some p, s') ∧ order ≤ MAX_ORDER ∧
        (∃ b ∈ pool L, order ≤ b.order) ∧
        Keeps { s with allocatedPages := wrapAdd s.allocatedPages (2 ^ order) } s' ∧
        Shape s' (⟨p, order⟩ :: B) L' ∧ Reshapes [] [⟨p, order⟩] L L' := by
  unfold BuddyInner.allocPages
  by_cases hbig : order > MAX_ORDER
  · left
    rw [if_pos hbig]
    exact ⟨rfl, fun b hb => (mem_pool.mp hb).1.trans_lt hbig⟩
  have horder : order ≤ MAX_ORDER := not_lt.mp hbig
  -- a list that the search passes over is empty
  have hskipped : ∀ o ≤ MAX_ORDER, (!(s.freeLists o).isSome) = true → L o = [] := by
    intro o hmax hnone
    rw [h.freeLists_eq hmax] at hnone
    cases hL : L o with
    | nil => rfl
    | cons q l => simp [hL] at hnone
  have hcount : order + (FREE_LIST_COUNT - order) = MAX_ORDER + 1 := by
    unfold FREE_LIST_COUNT
    omega
  rw [if_neg hbig]
  rcases hfind : (range' order (FREE_LIST_COUNT - order)).find?
      (fun o => (s.freeLists o).isSome) with _ | o
  · left
    refine ⟨rfl, fun b hb => not_le.mp fun hle => ?_⟩
    obtain ⟨hmax, hstart⟩ := mem_pool.mp hb
    have hnone := find?_range'_eq_none.mp hfind b.order hle (by omega)
    rw [hskipped b.order hmax hnone] at hstart
    cases hstart
  right
  obtain ⟨hsome, hmem, hnone⟩ := find?_range'_eq_some.mp hfind
  have hbounds : order ≤ o ∧ o ≤ MAX_ORDER := by
    have hrange := mem_range'_1.mp hmem
    omega
  obtain ⟨p, l, hlist⟩ : ∃ p l, L o = p :: l := by
    rw [h.freeLists_eq hbounds.2] at hsome
    cases hL : L o with
    | nil => simp [hL] at hsome
    | cons p l => exact ⟨p, l, rfl⟩
  have hrest : l ⊆ L o := by
    rw [hlist]
    exact subset_cons_self p l
  have hlarge : ∃ b ∈ pool L, order ≤ b.order :=
    ⟨⟨p, o⟩, mem_pool.mpr ⟨hbounds.2, hlist ▸ mem_cons_self⟩, hbounds.1⟩
  by_cases hsplit : o > order
  · -- the lists between the two orders are empty, or the search had stopped earlier
    have hempty : ∀ j, order ≤ j → j < o → L j = [] := fun j hj hjo =>
      hskipped j (hjo.le.trans hbounds.2) (hnone j hj hjo)
    obtain ⟨s', L', hrun, hkeep, hshape, hpages, hjoined⟩ := h.split hbounds.2 hsplit hlist hempty
    refine ⟨p, { s' with allocatedPages := wrapAdd s'.allocatedPages (2 ^ order) }, L', ?_,
      horder, hlarge, ⟨hkeep.base, hkeep.limit, hkeep.totalPages, ?_⟩, hshape.setAllocated _,
      ⟨hpages, fun hcoalesced => hjoined (hcoalesced.update hrest)⟩⟩
    · simp [if_pos hsplit, hrun]
    · rw [hkeep.allocatedPages]
  · have ho : o = order := by omega
    subst ho
    obtain ⟨s', hpop, hkeep, hshape⟩ := h.popFree horder hlist
    refine ⟨p, { s' with allocatedPages := wrapAdd s'.allocatedPages (2 ^ o) }, _, ?_,
      horder, hlarge, ⟨hkeep.base, hkeep.limit, hkeep.totalPages, ?_⟩, hshape.setAllocated _,
      ⟨pages_perm (pool_take horder (.of_eq hlist.symm)),
        fun hcoalesced => hcoalesced.update hrest⟩⟩
    · simp [hpop]
    · rw [hkeep.allocatedPages]

/-- The list onto which `free_pages` finally pushes the block. -/
def BuddyInner.freeTarget (s : BuddyInner) (page order : Nat) : Nat :=
  restOrder s.freeBlocks (MAX_ORDER - order) page order

theorem Shape.lost_freeTarget (h : Shape s B L) (hk : order ≤ MAX_ORDER) :
    lost L (s.freeTarget page order) = 0 ↔ s.freeLists (s.freeTarget page order) ≠ some 0 := by
  have hle : s.freeTarget page order ≤ MAX_ORDER := by
    have hbound : s.freeTarget page order ≤ MAX_ORDER - order + order := restOrder_bounds.2
    omega
  rw [lost_eq_zero, h.freeLists_eq hle]

theorem Shape.freePages (h : Shape s (⟨page, order⟩ :: B) L) (hk : order ≤ MAX_ORDER) :
    ∃ s' L' cut, s.freePages page order = some s' ∧
      Keeps { s with allocatedPages := wrapSub s.allocatedPages (2 ^ order) } s' ∧
      Shape s' B L' ∧ Reshapes [⟨page, order⟩] cut L L' ∧
      (pages cut).length = lost L (s.freeTarget page order) ∧ (cut ≠ [] → 0 ∈ pages cut) := by
  obtain ⟨s', L', cut, hloop, hkeep, hshape, hreshape, hcut, hfirst⟩ :=
    (h.setAllocated (wrapSub s.allocatedPages (2 ^ order))).mergeLoop
      (Nat.sub_add_cancel hk)
  refine ⟨s', L', cut, ?_, hkeep, hshape, hreshape, ?_, hfirst⟩
  · unfold BuddyInner.freePages
    rw [if_neg (not_lt.mpr hk)]
    exact hloop
  · have htarget : s.freeTarget page order = _ :=
      restOrder_congr fun j _ hj => h.freeBlocks_eq (by omega)
    rw [htarget]
    exact hcut

/-! ### Initialisation -/

/-- The lists `L` hold blocks below page `offset`, all but `loss` of its pages. -/
structure Carved (s : BuddyInner) (L : Nat → List Nat) (offset loss : Nat) : Prop where
  shape : Shape s [] L
  below : ∀ p ∈ pages (pool L), p < offset
  weight : freeWeight L + loss = offset

theorem mem_pages_linkPush {q : Nat} (hk : k ≤ MAX_ORDER) (hq : q ∈ pages (pool (linkPush L p k))) :
    q ∈ (⟨p, k⟩ : Block).pages ∨ q ∈ pages (pool L) := by
  obtain ⟨cut, hperm, _⟩ := pool_linkPush (L := L) (p := p) hk
  rw [← mem_append, ← pages_cons, ← (pages_perm hperm).mem_iff, pages_append]
  exact mem_append_right _ hq

theorem Carved.push (h : Carved s L offset loss)
    (hk : order ≤ MAX_ORDER) (hdvd : 2 ^ order ∣ offset) (hin : offset + 2 ^ order ≤ s.totalPages) :
    Carved (s.pushFree offset order) (linkPush L offset order) (offset + 2 ^ order)
      (loss + lost L order) := by
  have hblock : ∀ p, p ∈ (⟨offset, order⟩ : Block).pages ↔ offset ≤ p ∧ p < offset + 2 ^ order :=
    fun p => Block.mem_pages
  have hnew : Shape s [⟨offset, order⟩] L := by
    refine { h.shape with placed := ⟨?_, ?_, ?_⟩ }
    · exact forall_mem_cons.mpr ⟨hdvd, h.shape.placed.aligned⟩
    · rw [singleton_append, pages_cons, nodup_append]
      refine ⟨nodup_range', h.shape.placed.nodup, ?_⟩
      intro p hp q hq heq
      have hlow := ((hblock p).mp hp).1
      have hhigh := h.below q hq
      omega
    · intro p hp
      rw [singleton_append, pages_cons, mem_append] at hp
      rcases hp with hp | hp
      · exact ((hblock p).mp hp).2.trans_le hin
      · exact h.shape.placed.inside p hp
  refine ⟨hnew.pushFree hk, ?_, ?_⟩
  · intro p hp
    rcases mem_pages_linkPush hk hp with hmem | hmem
    · exact ((hblock p).mp hmem).2
    · exact (h.below p hmem).trans_le (Nat.le_add_right _ _)
  · have hpush := freeWeight_linkPush (L := L) (p := offset) hk
    have hweight := h.weight
    omega

/-- The buddies are joined, and no page below `lo` is free. -/
structure Tidy (L : Nat → List Nat) (lo : Nat) : Prop where
  coalesced : Coalesced L
  above : ∀ p ∈ pages (pool L), lo ≤ p

theorem Tidy.push (h : Tidy L lo) (hk : k ≤ MAX_ORDER) (hlo : lo ≤ p)
    (halone : k < MAX_ORDER → buddy p k ∉ L k) : Tidy (linkPush L p k) lo := by
  refine ⟨h.coalesced.linkPush halone, fun q hq => ?_⟩
  rcases mem_pages_linkPush hk hq with hmem | hmem
  · exact hlo.trans (Block.mem_pages.mp hmem).1
  · exact h.above q hmem

/-- What is left below one block is carved into smaller ones. -/
theorem initLoop_small (h : Carved s L offset loss)
    (hk : order ≤ MAX_ORDER) (hdvd : 2 ^ order ∣ offset)
    (hsum : offset + remaining = s.totalPages) (hrem : remaining < 2 ^ order)
    (hempty : ∀ j < order, L j = []) (htidy : Tidy L lo) (hlo : lo ≤ offset) :
    ∃ L', Carved (s.initLoop remaining offset order) L' (offset + remaining) loss ∧
      Tidy L' lo ∧ Keeps s (s.initLoop remaining offset order) := by
  induction order generalizing s L remaining offset with
  | zero =>
    obtain rfl : remaining = 0 := by omega
    rw [BuddyInner.initLoop, if_neg (not_le.mpr hrem)]
    exact ⟨L, h, htidy, .refl s⟩
  | succ order ih =>
    have hdvd' : 2 ^ order ∣ offset := (pow_dvd_pow 2 (Nat.le_succ _)).trans hdvd
    have hempty' : ∀ j < order, L j = [] := fun j hj => hempty j (hj.trans (Nat.lt_succ_self _))
    rw [BuddyInner.initLoop, if_neg (not_le.mpr hrem)]
    by_cases hfit : 2 ^ order ≤ remaining
    · -- the block goes onto an empty list
      have hnil := hempty order (Nat.lt_succ_self _)
      have hpush := h.push (Nat.le_of_lt hk) hdvd' (by omega)
      rw [lost_eq_zero.mpr (by simp [hnil])] at hpush
      have htidy' := htidy.push (Nat.le_of_lt hk) hlo fun _ => by simp [hnil]
      have hpushed : ∀ j < order, linkPush L offset order j = [] := by
        intro j hj
        rw [linkPush_of_ne (Nat.ne_of_lt hj)]
        exact hempty' j hj
      have hsum' : offset + 2 ^ order + (remaining - 2 ^ order) =
          (s.pushFree offset order).totalPages := by
        show _ = s.totalPages
        omega
      obtain ⟨L', hcarved, hend, hkeep⟩ :=
        ih hpush (Nat.le_of_lt hk) (Nat.dvd_add hdvd' (dvd_refl _)) hsum' (by omega) hpushed htidy'
          (hlo.trans (Nat.le_add_right _ _))
      rw [BuddyInner.initLoop.eq_def, if_pos hfit]
      refine ⟨L', ?_, hend, (Keeps.pushFree _ _ _).trans hkeep⟩
      have hall : offset + 2 ^ order + (remaining - 2 ^ order) = offset + remaining := by omega
      rw [hall] at hcarved
      exact hcarved
    · exact ih h (Nat.le_of_lt hk) hdvd' hsum (not_le.mp hfit) hempty' htidy hlo

/-- The list of the largest order after `init` has carved off the pages below
    `offset`: the second push cuts off page `0`. -/
def TopList (L : Nat → List Nat) (offset : Nat) : Prop :=
  (offset = 0 ∧ L MAX_ORDER = []) ∨ (offset = 4096 ∧ L MAX_ORDER = [0]) ∨
    (8192 ≤ offset ∧ (L MAX_ORDER).head? = some (offset - 4096))

/-- The pages that `init` makes unreachable in a region of `total` pages. -/
def initLoss (total : Nat) : Nat := if total < 8192 then 0 else 4096

theorem TopList.push (h : TopList L offset) :
    TopList (linkPush L offset MAX_ORDER) (offset + 4096) ∧
      initLoss offset + lost L MAX_ORDER = initLoss (offset + 4096) := by
  rcases h with ⟨rfl, hL⟩ | ⟨rfl, hL⟩ | ⟨hge, hhead⟩
  · refine ⟨.inr (.inl ⟨rfl, ?_⟩), ?_⟩
    · rw [linkPush_self (by simp [hL]), hL]
    · rw [lost_eq_zero.mpr (by simp [hL])]
      rfl
  · refine ⟨.inr (.inr ⟨le_refl _, ?_⟩), ?_⟩
    · simp [linkPush, hL]
    · simp only [lost, hL]
      rfl
  · have hne : (L MAX_ORDER).head? ≠ some 0 := by
      rw [hhead]
      intro hzero
      have hval := Option.some.inj hzero
      omega
    refine ⟨.inr (.inr ⟨by omega, ?_⟩), ?_⟩
    · rw [linkPush_self hne, head?_cons, Nat.add_sub_cancel]
    · rw [lost_eq_zero.mpr hne]
      unfold initLoss
      rw [if_neg (by omega), if_neg (by omega)]

theorem initLoss_le (total : Nat) : initLoss total ≤ total := by
  unfold initLoss
  split <;> omega

theorem TopList.tidy (h : TopList L offset) (htidy : Tidy L (initLoss offset))
    (hempty : ∀ j < MAX_ORDER, L j = []) :
    Tidy (linkPush L offset MAX_ORDER) (initLoss (offset + 4096)) := by
  have halone : MAX_ORDER < MAX_ORDER → buddy offset MAX_ORDER ∉ L MAX_ORDER :=
    fun hlt => absurd hlt (lt_irrefl _)
  rcases h with ⟨rfl, _⟩ | ⟨rfl, hL⟩ | ⟨hge, _⟩
  · exact htidy.push (le_refl _) (Nat.zero_le _) halone
  · refine ⟨htidy.coalesced.linkPush halone, fun p hp => ?_⟩
    -- only the block that has just been pushed is left
    obtain ⟨b, hb, hpb⟩ := mem_pages.mp hp
    obtain ⟨hsmall, hstart⟩ := mem_pool.mp hb
    have htop : b.order = MAX_ORDER := by
      by_contra hne
      rw [linkPush_of_ne hne, hempty _ (lt_of_le_of_ne hsmall hne)] at hstart
      cases hstart
    rw [htop, linkPush, update_self, hL] at hstart
    simp only [head?_cons, if_true, mem_singleton] at hstart
    have hlow := (Block.mem_pages.mp hpb).1
    rw [hstart] at hlow
    exact hlow
  · have hsame : initLoss (offset + 4096) = initLoss offset := by
      unfold initLoss
      rw [if_neg (by omega), if_neg (by omega)]
    rw [hsame]
    exact htidy.push (le_refl _) (initLoss_le offset) halone

/-- **Initialisation.**  `init` carves the whole region into blocks, and loses the
    first block of the largest order when there is a second one. -/
theorem initLoop_large (h : Carved s L offset (initLoss offset))
    (hdvd : 4096 ∣ offset) (hsum : offset + remaining = s.totalPages)
    (hempty : ∀ j < MAX_ORDER, L j = []) (htop : TopList L offset)
    (htidy : Tidy L (initLoss offset)) :
    ∃ L', Carved (s.initLoop remaining offset MAX_ORDER) L' s.totalPages
        (initLoss s.totalPages) ∧
      Tidy L' (initLoss s.totalPages) ∧
      Keeps s (s.initLoop remaining offset MAX_ORDER) := by
  induction remaining using Nat.strong_induction_on generalizing s L offset with
  | _ remaining ih =>
    have hsize : 2 ^ MAX_ORDER = 4096 := rfl
    by_cases hfit : 4096 ≤ remaining
    · rw [BuddyInner.initLoop.eq_def, hsize, if_pos hfit]
      have hpush := h.push (le_refl MAX_ORDER) (hsize ▸ hdvd) (by omega)
      obtain ⟨htop', hloss⟩ := htop.push
      rw [hsize, hloss] at hpush
      have hempty' : ∀ j < MAX_ORDER, linkPush L offset MAX_ORDER j = [] := by
        intro j hj
        rw [linkPush_of_ne (Nat.ne_of_lt hj)]
        exact hempty j hj
      have hsum' : offset + 4096 + (remaining - 4096) =
          (s.pushFree offset MAX_ORDER).totalPages := by
        show _ = s.totalPages
        omega
      obtain ⟨L', hcarved, hend, hkeep⟩ := ih (remaining - 4096) (by omega) hpush
        (Nat.dvd_add hdvd (dvd_refl _)) hsum' hempty' htop' (htop.tidy htidy hempty)
      exact ⟨L', hcarved, hend, (Keeps.pushFree _ _ _).trans hkeep⟩
    · -- the rest is smaller than the largest block, so `offset` decides the loss
      have hloss : initLoss offset = initLoss s.totalPages := by
        obtain ⟨n, rfl⟩ := hdvd
        unfold initLoss
        by_cases hn : n < 2
        · rw [if_pos (by omega), if_pos (by omega)]
        · rw [if_neg (by omega), if_neg (by omega)]
      have hlo : initLoss s.totalPages ≤ offset := hloss ▸ initLoss_le offset
      rw [hloss] at h htidy
      have hrest := initLoop_small h (le_refl _) hdvd hsum (not_le.mp hfit) hempty htidy hlo
      rwa [hsum] at hrest

end TrainOS.Buddy
