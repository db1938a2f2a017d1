import TrainOS.Sv39

/-!
# User pointer validation (`mem/sv39.rs`)

`is_user_range_valid` checks the pages of a buffer one by one with the kernel's own
walk.  That walk looks at the address bits of the three indices only, knows no
superpages, and takes any valid user entry of the last level for a page; the hardware
walk differs in all three respects.  The main result says exactly when the two agree.
-/

namespace TrainOS.Sv39

open ByteMemory MachineWord

/-! ### The kernel's check -/

def isUserAddrValid (s : Phys) (root va : Nat) : Bool :=
  match (walkProcessPt s root va false).1 with
  | some (l0, i) => (readPte s.mem l0 i).isValid && (readPte s.mem l0 i).isUser
  | none => false

variable {page endPage : Nat}

theorem lt_satAdd (hend : endPage + PAGE_SIZE ≤ WORD)
    (hpage : page ≤ endPage) : page < satAdd page PAGE_SIZE := by
  unfold satAdd
  unfold PAGE_SIZE at *
  omega

/-- The loop over the pages from `page` to `endPage`, which is the start of a page. -/
def rangeLoop (s : Phys) (root endPage : Nat) (hend : endPage + PAGE_SIZE ≤ WORD)
    (page : Nat) : Bool :=
  if page ≤ endPage then
    if !isUserAddrValid s root page then false
    else rangeLoop s root endPage hend (satAdd page PAGE_SIZE)
  else true
termination_by endPage + 1 - page
decreasing_by
  have hlt := lt_satAdd hend ‹page ≤ endPage›
  omega

theorem pageAlignDown_add_le {x : Nat} (hx : x < WORD) : pageAlignDown x + PAGE_SIZE ≤ WORD := by
  unfold pageAlignDown
  unfold WORD PAGE_SIZE at *
  omega

theorem satAdd_pred_lt (a b : Nat) : satAdd a b - 1 < WORD := by
  unfold satAdd WORD
  omega

def isUserRangeValid (s : Phys) (root va len : Nat) : Bool :=
  if len = 0 then true
  else rangeLoop s root (pageAlignDown (satAdd va len - 1))
    (pageAlignDown_add_le (satAdd_pred_lt va len)) (pageAlignDown va)

/-! ### The hardware walk -/

/-- The entry raises a page fault whatever the access: invalid, or writable without
    being readable. -/
def PTE.faults (e : PTE) : Bool := !e.isValid || (!e.isReadable && e.isWritable)

def PTE.ends (e : PTE) : Bool := e.isReadable || e.isExecutable

def canonical (va : Nat) : Bool := va < 2 ^ 38 || (2 ^ 64 - 2 ^ 38 ≤ va && va < 2 ^ 64)

/-- The level and the entry at which the Sv39 hardware walk ends, `none` on a page
    fault.  A superpage has to be aligned, and there is no level below zero. -/
def hardwareWalk (m : Memory) (root va : Nat) : Option (Nat × PTE) :=
  if !canonical va then none
  else
    let e2 := readPte m root (vpn2 va)
    if e2.faults then none
    else if e2.ends then if e2.ppn % 2 ^ 18 = 0 then some (2, e2) else none
    else
      let e1 := readPte m e2.physAddr (vpn1 va)
      if e1.faults then none
      else if e1.ends then if e1.ppn % 2 ^ 9 = 0 then some (1, e1) else none
      else
        let e0 := readPte m e1.physAddr (vpn0 va)
        if !e0.faults && e0.ends then some (0, e0) else none

/-- The hardware finds the address in a user-accessible page of 4 KiB or 2 MiB. -/
def UserMapped (m : Memory) (root va : Nat) : Prop :=
  ∃ level e, hardwareWalk m root va = some (level, e) ∧ level ≤ 1 ∧ e.isUser = true

/-! ### What the table says about an address -/

def secondEntry (m : Memory) (root va : Nat) : Option PTE :=
  let e2 := readPte m root (vpn2 va)
  if e2.isBranch then some (readPte m e2.physAddr (vpn1 va)) else none

def lastEntry (m : Memory) (root va : Nat) : Option PTE :=
  match secondEntry m root va with
  | some e1 => if e1.isBranch then some (readPte m e1.physAddr (vpn0 va)) else none
  | none => none

def SmallPage (m : Memory) (root va : Nat) : Prop :=
  ∃ e, lastEntry m root va = some e ∧ e.isUser = true ∧ e.faults = false ∧ e.ends = true

def LargePage (m : Memory) (root va : Nat) : Prop :=
  ∃ e, secondEntry m root va = some e ∧ e.isUser = true ∧ e.faults = false ∧ e.ends = true ∧
    e.ppn % 2 ^ 9 = 0

/-- A valid user entry of the last level that maps no page. -/
def BadEntry (m : Memory) (root va : Nat) : Prop :=
  ∃ e, lastEntry m root va = some e ∧ e.isUser = true ∧ e.isValid = true ∧
    (e.faults = true ∨ e.ends = false)

variable {s : Phys} {m : Memory} {root va len : Nat}

theorem PTE.isBranch_eq (e : PTE) : e.isBranch = (!e.faults && !e.ends) := by
  unfold PTE.isBranch PTE.faults PTE.ends
  cases e.isValid <;> cases e.isReadable <;> cases e.isWritable <;> cases e.isExecutable <;> rfl

theorem nextTable_false (s : Phys) (table : Nat) (i : Fin 512) : nextTable s table i false =
      (if (readPte s.mem table i).isBranch then some (readPte s.mem table i).physAddr else none,
        s) := by
  have hflags : ∀ e : PTE, e.isBranch = (e.isValid && !e.isLeaf) := by
    intro e
    unfold PTE.isBranch PTE.isLeaf
    cases e.isValid <;> rfl
  simp only [nextTable, hflags]
  by_cases hv : (readPte s.mem table i).isValid = true <;>
    by_cases hl : (readPte s.mem table i).isLeaf = true <;> simp [hv, hl]

theorem isUserAddrValid_eq (s : Phys) (root va : Nat) : isUserAddrValid s root va =
      (lastEntry s.mem root va).elim false fun e => e.isValid && e.isUser := by
  simp only [isUserAddrValid, walkProcessPt, lastEntry, secondEntry, nextTable_false]
  cases h2 : (readPte s.mem root (vpn2 va)).isBranch with
  | false => rfl
  | true =>
    simp only [if_true]
    cases h1 : (readPte s.mem (readPte s.mem root (vpn2 va)).physAddr (vpn1 va)).isBranch <;> rfl

theorem isUserAddrValid_iff :
    isUserAddrValid s root va = true ↔ SmallPage s.mem root va ∨ BadEntry s.mem root va := by
  rw [isUserAddrValid_eq]
  unfold SmallPage BadEntry
  cases lastEntry s.mem root va with
  | none => simp
  | some e =>
    have hvalid : e.faults = false → e.isValid = true := by
      unfold PTE.faults
      cases e.isValid <;> simp
    cases hf : e.faults <;> cases he : e.ends <;> simp_all [and_comm]

/-- A user address is on a small or a large page. -/
theorem userMapped_iff (hva : va < 2 ^ 38) :
    UserMapped m root va ↔ SmallPage m root va ∨ LargePage m root va := by
  have hcanonical : canonical va = true := by
    unfold canonical
    rw [decide_eq_true hva, Bool.true_or]
  unfold UserMapped SmallPage LargePage
  simp only [hardwareWalk, lastEntry, secondEntry, hcanonical, PTE.isBranch_eq, Bool.not_true,
    Bool.false_eq_true, if_false]
  generalize readPte m root (vpn2 va) = e2
  cases hf2 : e2.faults with
  | true => simp
  | false =>
    cases he2 : e2.ends with
    | true => simp
    | false =>
      simp only [Bool.not_false, Bool.and_self, Bool.false_eq_true, if_false, if_true]
      generalize readPte m e2.physAddr (vpn1 va) = e1
      cases hf1 : e1.faults with
      | true => simp [hf1]
      | false =>
        cases he1 : e1.ends with
        | true => simp [hf1, he1, and_comm]
        | false =>
          simp only [Bool.not_false, Bool.and_self, Bool.false_eq_true, if_false, if_true]
          generalize readPte m e1.physAddr (vpn0 va) = e0
          cases hf0 : e0.faults <;> cases he0 : e0.ends <;> simp [hf0, he0, he1]

theorem SmallPage.not_bad (h : SmallPage m root va) : ¬ BadEntry m root va := by
  obtain ⟨e, he, _, hf, hends⟩ := h
  rintro ⟨e', he', _, _, hbad⟩
  cases he.symm.trans he'
  simp [hf, hends] at hbad

theorem LargePage.no_last (h : LargePage m root va) : lastEntry m root va = none := by
  obtain ⟨e, he, _, _, hends, _⟩ := h
  simp [lastEntry, he, PTE.isBranch_eq, hends]

/-! ### The loop -/

theorem isUserAddrValid_page (s : Phys) (root va : Nat) :
    isUserAddrValid s root (pageAlignDown va) = isUserAddrValid s root va := by
  have hvpn : vpn (pageAlignDown va) = vpn va := by
    unfold vpn pageAlignDown PAGE_SIZE
    omega
  obtain ⟨h2, h1, h0⟩ := vpn_eq_iff.mp hvpn
  unfold isUserAddrValid walkProcessPt
  rw [h2, h1, h0]

/-- The loop checks every page up to the last. -/
theorem rangeLoop_iff (hend : endPage + PAGE_SIZE ≤ WORD)
    (haligned : endPage % PAGE_SIZE = 0) (hpage : page % PAGE_SIZE = 0) :
    rangeLoop s root endPage hend page = true ↔
      ∀ p, page ≤ p → p ≤ endPage → p % PAGE_SIZE = 0 → isUserAddrValid s root p = true := by
  fun_induction rangeLoop s root endPage hend page with
  | case1 page hle hinvalid =>
    simp only [Bool.false_eq_true, false_iff]
    intro hall
    rw [hall page le_rfl hle hpage] at hinvalid
    cases hinvalid
  | case2 page hle hvalid ih =>
    have hfirst : isUserAddrValid s root page = true := by simpa using hvalid
    have hsat := lt_satAdd hend hle
    by_cases hlast : page = endPage
    · -- the next page lies behind the range, or the addition saturates
      subst hlast
      rw [rangeLoop, if_neg (not_le.mpr hsat)]
      simp only [true_iff]
      intro p hlo hhi _
      rw [le_antisymm hhi hlo]
      exact hfirst
    · obtain ⟨hnext, hnextAligned⟩ : satAdd page PAGE_SIZE = page + PAGE_SIZE ∧
          (page + PAGE_SIZE) % PAGE_SIZE = 0 := by
        unfold satAdd WORD PAGE_SIZE at *
        omega
      have hskip : ∀ p, page ≤ p → p % PAGE_SIZE = 0 → p = page ∨ page + PAGE_SIZE ≤ p := by
        intro p hlo hp
        unfold PAGE_SIZE at *
        omega
      rw [hnext] at ih ⊢
      rw [ih hnextAligned]
      constructor
      · intro hall p hlo hhi hp
        rcases hskip p hlo hp with rfl | hlo'
        · exact hfirst
        · exact hall p hlo' hhi hp
      · intro hall p hlo hhi hp
        exact hall p ((Nat.le_add_right _ _).trans hlo) hhi hp
  | case3 page hgt =>
    simp only [true_iff]
    intro p hlo hhi
    exact absurd (hlo.trans hhi) hgt

/-- The function accepts a range when it accepts the page of each of its bytes, as far
    as there are addresses. -/
theorem isUserRangeValid_iff (hva : va < WORD) : isUserRangeValid s root va len = true ↔
      ∀ a, va ≤ a → a < va + len → a < WORD → isUserAddrValid s root a = true := by
  unfold isUserRangeValid
  by_cases hlen : len = 0
  · rw [if_pos hlen]
    simp only [true_iff]
    intro a hlo hhi
    omega
  · have haligned : ∀ x, pageAlignDown x % PAGE_SIZE = 0 := by
      intro x
      unfold pageAlignDown PAGE_SIZE
      omega
    rw [if_neg hlen, rangeLoop_iff _ (haligned _) (haligned _)]
    constructor
    · intro hall a hlo hhi ha
      rw [← isUserAddrValid_page]
      apply hall _ _ _ (haligned a)
      · unfold pageAlignDown PAGE_SIZE
        omega
      · unfold pageAlignDown satAdd
        unfold WORD PAGE_SIZE at *
        omega
    · intro hall p hlo hhi hp
      -- a byte of the range on page `p`
      obtain ⟨hge, hlt, hword, hpage⟩ : va ≤ max va p ∧ max va p < va + len ∧
          max va p < WORD ∧ pageAlignDown (max va p) = p := by
        unfold pageAlignDown satAdd at *
        unfold WORD PAGE_SIZE at *
        omega
      rw [← hpage, isUserAddrValid_page]
      exact hall _ hge hlt hword

/-! ### When the check is exact -/

/-- The table is such that the check of `len` bytes from `va` on is right: below
    `2 ^ 38` the range is neither accepted because of a bad entry nor rejected because of
    a large page, and beyond `2 ^ 38` some page of it has no user entry. -/
structure CheckExact (m : Memory) (root va len : Nat) : Prop where
  noBad : va + len ≤ 2 ^ 38 →
    (∀ a, va ≤ a → a < va + len → SmallPage m root a ∨ BadEntry m root a) →
      ∀ a, va ≤ a → a < va + len → ¬ BadEntry m root a
  noLarge : va + len ≤ 2 ^ 38 →
    (∀ a, va ≤ a → a < va + len → SmallPage m root a ∨ LargePage m root a) →
      ∀ a, va ≤ a → a < va + len → ¬ LargePage m root a
  beyond : 2 ^ 38 < va + len →
    ∃ a, va ≤ a ∧ a < va + len ∧ a < 2 ^ 64 ∧ ¬ SmallPage m root a ∧ ¬ BadEntry m root a

/-- **Exactness.**  The answer of `is_user_range_valid` is that of the hardware walk on
    every byte, together with the bound `2 ^ 38`, if and only if `CheckExact` holds. -/
theorem is_user_range_valid_exact_iff (hva : va < 2 ^ 64) : (isUserRangeValid s root va len = true ↔
      va + len ≤ 2 ^ 38 ∧ ∀ a, va ≤ a → a < va + len → UserMapped s.mem root a) ↔
    CheckExact s.mem root va len := by
  rw [isUserRangeValid_iff hva]
  simp only [isUserAddrValid_iff]
  by_cases hbound : va + len ≤ 2 ^ 38
  · have hword : ∀ a, a < va + len → a < WORD := by
      intro a ha
      unfold WORD
      omega
    have hmapped : ∀ a, a < va + len →
        (UserMapped s.mem root a ↔ SmallPage s.mem root a ∨ LargePage s.mem root a) := by
      intro a ha
      exact userMapped_iff (ha.trans_le hbound)
    constructor
    · intro hiff
      refine ⟨?_, ?_, fun hlt => absurd hbound (not_le.mpr hlt)⟩
      · intro _ hall a hlo hhi hbad
        have hspec := hiff.mp fun a hlo hhi _ => hall a hlo hhi
        rcases (hmapped a hhi).mp (hspec.2 a hlo hhi) with hsmall | hlarge
        · exact hsmall.not_bad hbad
        · obtain ⟨e, he, _⟩ := hbad
          rw [hlarge.no_last] at he
          cases he
      · intro _ hall a hlo hhi hlarge
        have haccept := hiff.mpr ⟨hbound, fun a hlo hhi => (hmapped a hhi).mpr (hall a hlo hhi)⟩
        have hlast := hlarge.no_last
        rcases haccept a hlo hhi (hword a hhi) with ⟨e, he, _⟩ | ⟨e, he, _⟩ <;>
          · rw [hlast] at he
            cases he
    · intro hexact
      constructor
      · intro hall
        refine ⟨hbound, fun a hlo hhi => (hmapped a hhi).mpr ?_⟩
        have hnoBad := hexact.noBad hbound fun a hlo hhi => hall a hlo hhi (hword a hhi)
        exact .inl ((hall a hlo hhi (hword a hhi)).resolve_right (hnoBad a hlo hhi))
      · rintro ⟨_, hall⟩ a hlo hhi _
        have hnoLarge := hexact.noLarge hbound fun a hlo hhi => (hmapped a hhi).mp (hall a hlo hhi)
        exact .inl (((hmapped a hhi).mp (hall a hlo hhi)).resolve_right (hnoLarge a hlo hhi))
  · have hbeyond : 2 ^ 38 < va + len := not_le.mp hbound
    constructor
    · intro hiff
      refine ⟨fun h => absurd h hbound, fun h => absurd h hbound, fun _ => ?_⟩
      by_contra hnone
      push Not at hnone
      refine hbound (hiff.mp fun a hlo hhi hword => ?_).1
      exact or_iff_not_imp_left.mpr (hnone a hlo hhi hword)
    · intro hexact
      constructor
      · intro hall
        obtain ⟨a, hlo, hhi, hword, hsmall, hbad⟩ := hexact.beyond hbeyond
        exact absurd (hall a hlo hhi hword) (not_or.mpr ⟨hsmall, hbad⟩)
      · rintro ⟨hle, _⟩
        exact absurd hle hbound

local instance neZero_entries : NeZero 512 := ⟨by decide⟩

/-- Tables at `0x80001000` and the two frames behind it that map the one user page
    `0x1000`. -/
def onePageTables : Memory :=
  writePte (writePte (writePte (fun _ => 0) 0x80001000 0 (.table 0x80002000))
    0x80002000 0 (.table 0x80003000)) 0x80003000 1 (.page 0x80004000 true true false true)

theorem is_user_range_valid_exact_one_page :
    isUserRangeValid ⟨onePageTables, []⟩ 0x80001000 0x1000 1 = true ↔
      0x1000 + 1 ≤ 2 ^ 38 ∧
        ∀ a, 0x1000 ≤ a → a < 0x1000 + 1 → UserMapped onePageTables 0x80001000 a := by
  have hentry : lastEntry onePageTables 0x80001000 0x1000 =
      some (.page 0x80004000 true true false true) := by decide +kernel
  have hsmall : SmallPage onePageTables 0x80001000 0x1000 :=
    ⟨_, hentry, by decide +kernel, by decide +kernel, by decide +kernel⟩
  have honly : ∀ a, 0x1000 ≤ a → a < 0x1000 + 1 → a = 0x1000 := by
    intro a hlo hhi
    omega
  refine (is_user_range_valid_exact_iff (by decide)).mpr ⟨?_, ?_, fun h => absurd h (by decide)⟩
  · intro _ _ a hlo hhi
    rw [honly a hlo hhi]
    exact hsmall.not_bad
  · intro _ _ a hlo hhi hlarge
    rw [honly a hlo hhi] at hlarge
    rw [hlarge.no_last] at hentry
    cases hentry

/-- Address `2 ^ 39 + 0x1000` is not canonical, every access to it faults, and still it
    is accepted, because the walk drops the upper bits. -/
theorem noncanonical_address_accepted :
    isUserRangeValid ⟨onePageTables, []⟩ 0x80001000 (2 ^ 39 + 0x1000) 1 = true ∧
      hardwareWalk onePageTables 0x80001000 (2 ^ 39 + 0x1000) = none ∧
      ¬ (2 ^ 39 + 0x1000 + 1 ≤ 2 ^ 38 ∧ ∀ a, 2 ^ 39 + 0x1000 ≤ a → a < 2 ^ 39 + 0x1000 + 1 →
        UserMapped onePageTables 0x80001000 a) := by
  refine ⟨?_, by decide +kernel, ?_⟩
  · rw [isUserRangeValid_iff (by decide)]
    intro a hlo hhi _
    obtain rfl : a = 2 ^ 39 + 0x1000 := by omega
    decide +kernel
  · rintro ⟨hle, _⟩
    exact absurd hle (by decide)

end TrainOS.Sv39
