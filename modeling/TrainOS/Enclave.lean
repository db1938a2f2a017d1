import TrainOS.BoundedTable
import TrainOS.MachineWord
import TrainOS.Pmp
import TrainOS.Runs

/-!
# Enclaves behind physical memory protection (`security/tee.rs`)

`enter` writes an address and a configuration byte to the entry `12 + id % 4`; `exit` clears the
address.  The address is that of a naturally aligned region, but the byte selects top-of-range
matching (`mode_pmpConfig`), so the region is never matched (`enter_matches`), and enclaves
share entries.  `enclave_protection_iff` says which calls keep the promise.
-/

namespace TrainOS.Tee

open Function List MachineWord Option Pmp Runs

/-! ### The registers -/

/-- `pmpaddr0` to `pmpaddr15`, and `pmpcfg0` to `pmpcfg3` with four entries in each, which is
    the layout that `configure_pmp` writes. -/
structure PmpRegs where
  addr : Nat → Nat
  cfg : Nat → BitVec 64

namespace PmpRegs

def byte (p : PmpRegs) (i : Nat) : BitVec 8 := getByte (p.cfg (i / 4)) (i % 4)

def entry (p : PmpRegs) (i : Nat) : BitVec 8 × Nat := (p.byte i, p.addr i)

/-- Entry `i` matches byte `a`. -/
def Matches (p : PmpRegs) (i a : Nat) : Prop :=
  Pmp.Matches (p.byte i) (if i = 0 then 0 else p.addr (i - 1)) (p.addr i) a

instance (p : PmpRegs) (i a : Nat) : Decidable (p.Matches i a) := by
  unfold Matches
  infer_instance

end PmpRegs

/-- The sixteen arms of `configure_pmp`; other indices are ignored. -/
def configurePmp (pmpIndex pmpaddrVal : Nat) (cfg : BitVec 8) (p : PmpRegs) : PmpRegs :=
  if pmpIndex < 16 then
    { addr := update p.addr pmpIndex pmpaddrVal
      cfg := update p.cfg (pmpIndex / 4)
        (setByte (p.cfg (pmpIndex / 4)) (pmpIndex % 4) cfg) }
  else p

/-! ### Enclaves -/

def MAX_ENCLAVES : Nat := 16

def TEE_PMP_START : Nat := 12

structure Region where
  start : Nat
  stop : Nat

structure TeeEnclave where
  enclaveId : Nat
  ownerPid : Nat
  pmpRegionStart : Nat
  pmpRegionSize : Nat
  pmpConfig : BitVec 8
  code : Region
  data : Region
  stack : Region
  active : Bool

def Enclaves : Type := Table TeeEnclave MAX_ENCLAVES

def create (ownerPid : Nat) (t : Enclaves) : Option Nat × Enclaves :=
  let enclaveId := (t.entries.length + 1) % 2 ^ 32
  match t.push? ⟨enclaveId, ownerPid, 0, 0, 0, ⟨0, 0⟩, ⟨0, 0⟩, ⟨0, 0⟩, true⟩ with
  | none => (none, t)
  | some t => (some enclaveId, t)

namespace TeeEnclave

def configureRegion (e : TeeEnclave) (physStart size : Nat) (code data stack : Region) :
    TeeEnclave :=
  { e with
    pmpRegionStart := physStart
    pmpRegionSize := size
    pmpConfig := 0x80 ||| 0x08 ||| 0x04 ||| 0x01
    code := code
    data := data
    stack := stack }

def pmpIdx (e : TeeEnclave) : Nat := TEE_PMP_START + e.enclaveId % 4

def napotAddr (e : TeeEnclave) : Nat :=
  e.pmpRegionStart >>> 2 ||| wrapSub (e.pmpRegionSize >>> 3) 1

def enter (e : TeeEnclave) (p : PmpRegs) : Except String Unit × PmpRegs :=
  if !e.active then (.error "enclave not active", p)
  else if e.pmpRegionSize = 0 then (.error "enclave PMP region not configured", p)
  else if e.pmpIdx > 15 then (.error "PMP index out of range", p)
  else (.ok (), configurePmp e.pmpIdx e.napotAddr e.pmpConfig p)

def exit (e : TeeEnclave) (p : PmpRegs) : PmpRegs :=
  if e.pmpIdx ≤ 15 then { p with addr := update p.addr e.pmpIdx 0 } else p

end TeeEnclave

/-! ### The system -/

/-- `inside` are the slots of the enclaves that were entered and not yet exited. -/
structure System where
  enclaves : Enclaves
  pmp : PmpRegs
  inside : List Nat

inductive Call where
  | create (ownerPid : Nat)
  | configureRegion (slot physStart size : Nat) (code data stack : Region)
  | enter (slot : Nat)
  | exit (slot : Nat)

def Call.exec (s : System) : Call → Option System
  | .create ownerPid => some { s with enclaves := (Tee.create ownerPid s.enclaves).2 }
  | .configureRegion slot physStart size code data stack =>
      s.enclaves.entries[slot]?.map fun e =>
        { s with enclaves :=
            ⟨s.enclaves.entries.set slot (e.configureRegion physStart size code data stack),
              by simpa using s.enclaves.length_le⟩ }
  | .enter slot =>
      s.enclaves.entries[slot]?.map fun e =>
        match e.enter s.pmp with
        | (.ok (), p) => { s with pmp := p, inside := slot :: s.inside.erase slot }
        | (.error _, p) => { s with pmp := p }
  | .exit slot =>
      s.enclaves.entries[slot]?.map fun e =>
        { s with pmp := e.exit s.pmp, inside := s.inside.erase slot }

def Step (s : System) (c : Call) (t : System) : Prop := c.exec s = some t

def System.boot (pmp : PmpRegs) : System := ⟨.empty, pmp, []⟩

/-- A region that one entry can describe. -/
structure Natural (start size : Nat) : Prop where
  start_lt : start < WORD
  page : 4096 ≤ size
  size_lt : size < WORD
  power : ∃ n, size = 2 ^ n
  aligned : size ∣ start

def Call.Regular (_ : System) : Call → Prop
  | .configureRegion _ physStart size _ _ _ => Natural physStart size
  | _ => True

/-! ### The promise -/

/-- The entries of the other enclaves that are inside stay as they are. -/
def Kept (slot : Nat) (s t : System) : Prop :=
  ∀ j ∈ s.inside, j ≠ slot → ∀ e ∈ s.enclaves.entries[j]?,
    t.pmp.entry e.pmpIdx = s.pmp.entry e.pmpIdx

/-- The entry of an enclave matches exactly its region. -/
def Exact (e : TeeEnclave) (p : PmpRegs) : Prop :=
  ∀ a, p.Matches e.pmpIdx a ↔ e.pmpRegionStart ≤ a ∧ a < e.pmpRegionStart + e.pmpRegionSize

def Protects (s : System) (c : Call) (t : System) : Prop :=
  match c with
  | .enter slot => Kept slot s t ∧
      ∀ e ∈ s.enclaves.entries[slot]?, (e.enter s.pmp).1 = .ok () → Exact e t.pmp
  | .exit slot => Kept slot s t
  | _ => t.pmp = s.pmp

/-- When a call keeps the promise: an enclave without a region is refused, and no other enclave
    inside has the entry of the one that is left, unless the address is zero already. -/
def Harmless (s : System) (c : Call) : Prop :=
  match c with
  | .enter slot => ∀ e ∈ s.enclaves.entries[slot]?, e.pmpRegionSize = 0
  | .exit slot => ∀ e ∈ s.enclaves.entries[slot]?, ∀ j ∈ s.inside, j ≠ slot →
      ∀ e' ∈ s.enclaves.entries[j]?, e'.enclaveId % 4 = e.enclaveId % 4 →
        s.pmp.addr e.pmpIdx = 0
  | _ => True

/-! ### The registers after a call -/

section Registers

variable {p : PmpRegs} {e : TeeEnclave} {i j v : Nat} {cfg : BitVec 8}

theorem TeeEnclave.pmpIdx_lt (e : TeeEnclave) : e.pmpIdx < 16 := by
  unfold TeeEnclave.pmpIdx TEE_PMP_START
  omega

theorem entry_configurePmp_self (hi : i < 16) : (configurePmp i v cfg p).entry i = (cfg, v) := by
  have hbyte : getByte (setByte (p.cfg (i / 4)) (i % 4) cfg) (i % 4) = cfg :=
    getByte_setByte_self _ _ (Nat.mod_lt _ (by decide))
  simp [configurePmp, PmpRegs.entry, PmpRegs.byte, hi, hbyte]

theorem entry_configurePmp_of_ne (hne : j ≠ i) : (configurePmp i v cfg p).entry j = p.entry j := by
  unfold configurePmp
  split
  · apply Prod.ext
    · by_cases hreg : j / 4 = i / 4
      · have hbyte : j % 4 ≠ i % 4 := by omega
        simp only [PmpRegs.entry, PmpRegs.byte, hreg, update_self]
        exact getByte_setByte_of_ne _ _ (Nat.mod_lt _ (by decide)) hbyte
      · simp [PmpRegs.entry, PmpRegs.byte, update_of_ne hreg]
    · exact update_of_ne hne _ _
  · rfl

theorem addr_configurePmp_of_ne (hne : j ≠ i) : (configurePmp i v cfg p).addr j = p.addr j :=
  congrArg Prod.snd (entry_configurePmp_of_ne hne)

theorem TeeEnclave.exit_eq (e : TeeEnclave) (p : PmpRegs) :
    e.exit p = { p with addr := update p.addr e.pmpIdx 0 } :=
  if_pos (Nat.le_of_lt_succ e.pmpIdx_lt)

end Registers

/-! ### What is matched -/

section Matching

variable {p : PmpRegs} {e : TeeEnclave} {a : Nat}

theorem mode_pmpConfig : mode (0x80 ||| 0x08 ||| 0x04 ||| 0x01) = .tor := by decide

theorem Natural.shape {start size : Nat} (h : Natural start size) :
    ∃ k base, size = 2 ^ (k + 3) ∧ start = 2 ^ (k + 3) * base := by
  obtain ⟨n, rfl⟩ := h.power
  obtain ⟨base, hstart⟩ := h.aligned
  have hn : 3 ≤ n := by
    by_contra hlt
    have hsmall : 2 ^ n ≤ 2 ^ 3 := Nat.pow_le_pow_right (by decide) (by omega)
    have hpage := h.page
    omega
  obtain ⟨k, rfl⟩ := Nat.exists_eq_add_of_le' hn
  exact ⟨k, base, rfl, hstart⟩

theorem napotAddr_eq {k base : Nat} (hstart : e.pmpRegionStart = 2 ^ (k + 3) * base)
    (hsize : e.pmpRegionSize = 2 ^ (k + 3)) (hword : e.pmpRegionSize < WORD) :
    e.napotAddr = 2 ^ (k + 1) * base + (2 ^ k - 1) := by
  have hpos : 0 < 2 ^ k := Nat.two_pow_pos k
  have hlow : 2 ^ k - 1 < 2 ^ (k + 1) := by
    omega
  have hshift : e.pmpRegionStart >>> 2 = 2 ^ (k + 1) * base := by
    have hsplit : 2 ^ (k + 3) * base = 2 ^ 2 * (2 ^ (k + 1) * base) := by
      rw [← Nat.mul_assoc, ← Nat.pow_add, Nat.add_comm 2]
    rw [hstart, Nat.shiftRight_eq_div_pow, hsplit]
    exact Nat.mul_div_cancel_left _ (by decide)
  have hones : wrapSub (e.pmpRegionSize >>> 3) 1 = 2 ^ k - 1 := by
    have hdiv : e.pmpRegionSize >>> 3 = 2 ^ k := by
      rw [hsize, Nat.shiftRight_eq_div_pow, Nat.pow_add]
      exact Nat.mul_div_cancel _ (by decide)
    rw [hdiv]
    refine wrapSub_of_le hpos (Nat.lt_of_le_of_lt ?_ hword)
    rw [hsize]
    exact Nat.pow_le_pow_right (by decide) (Nat.le_add_right k 3)
  unfold TeeEnclave.napotAddr
  rw [hshift, hones, Nat.two_pow_add_eq_or_of_lt hlow]

section

variable (hcfg : mode e.pmpConfig = .tor) (h : Natural e.pmpRegionStart e.pmpRegionSize)
include hcfg h

/-- **What `enter` protects.**  The range starts at the address of the entry before and ends
    four bytes below the middle of the region. -/
theorem enter_matches : (configurePmp e.pmpIdx e.napotAddr e.pmpConfig p).Matches e.pmpIdx a ↔
      4 * p.addr (e.pmpIdx - 1) ≤ a ∧ a < e.pmpRegionStart + e.pmpRegionSize / 2 - 4 := by
  obtain ⟨k, base, hsize, hstart⟩ := h.shape
  have hidx : e.pmpIdx ≠ 0 := by simp [TeeEnclave.pmpIdx, TEE_PMP_START]
  have hentry : (configurePmp e.pmpIdx e.napotAddr e.pmpConfig p).entry e.pmpIdx =
      (e.pmpConfig, e.napotAddr) := entry_configurePmp_self e.pmpIdx_lt
  have htop : 4 * e.napotAddr = e.pmpRegionStart + e.pmpRegionSize / 2 - 4 := by
    have hpos : 0 < 2 ^ k := Nat.two_pow_pos k
    have hhalf : 2 ^ (k + 3) / 2 = 4 * 2 ^ k := by
      rw [Nat.pow_add]
      omega
    have hlead : 4 * (2 ^ (k + 1) * base) = 2 ^ (k + 3) * base := by
      rw [← Nat.mul_assoc, Nat.pow_add 2 k 3, Nat.pow_succ]
      congr 1
      omega
    rw [napotAddr_eq hstart hsize h.size_lt, hstart, hsize, hhalf, Nat.mul_add, hlead,
      Nat.mul_sub, Nat.add_sub_assoc (by omega)]
  obtain ⟨hbyte, haddr⟩ := Prod.mk.inj hentry
  unfold PmpRegs.Matches
  rw [hbyte, haddr, if_neg hidx, addr_configurePmp_of_ne (by omega), matches_tor hcfg, htop]

theorem not_exact_of_enter : ¬ Exact e (configurePmp e.pmpIdx e.napotAddr e.pmpConfig p) := by
  intro hexact
  have hpage := h.page
  have hlast := (hexact (e.pmpRegionStart + e.pmpRegionSize - 1)).mpr (by omega)
  have hbelow := ((enter_matches hcfg h).mp hlast).2
  omega

end

end Matching

/-! ### Runs -/

/-- What the table holds: every enclave is active and has either no region or a natural one. -/
structure TableInv (s : System) : Prop where
  active : ∀ e ∈ s.enclaves.entries, e.active = true
  region : ∀ e ∈ s.enclaves.entries, e.pmpRegionSize ≠ 0 →
    Natural e.pmpRegionStart e.pmpRegionSize ∧ mode e.pmpConfig = .tor

variable {s t : System}

theorem TableInv.congr (h : TableInv s) (htable : t.enclaves = s.enclaves) :
    TableInv t :=
  ⟨htable ▸ h.active, htable ▸ h.region⟩

theorem TableInv.step {c : Call} (h : TableInv s)
    (hstep : Guarded Step Call.Regular s c t) : TableInv t := by
  obtain ⟨hregular, hstep⟩ := hstep
  cases c with
  | create ownerPid =>
    cases hstep
    unfold Tee.create
    dsimp only
    split
    · exact h
    · next t' hpush =>
      have hentries := Table.entries_of_push? hpush
      constructor <;> simp only [hentries, forall_mem_append, forall_mem_singleton]
      · exact ⟨h.active, trivial⟩
      · exact ⟨h.region, fun hsize => absurd rfl hsize⟩
  | configureRegion slot physStart size code data stack =>
    obtain ⟨e, he, rfl⟩ := map_eq_some_iff.mp hstep
    have hmem := mem_of_getElem? he
    constructor
    · intro e' he'
      rcases mem_or_eq_of_mem_set he' with he' | rfl
      · exact h.active e' he'
      · exact h.active e hmem
    · intro e' he' hsize
      rcases mem_or_eq_of_mem_set he' with he' | rfl
      · exact h.region e' he' hsize
      · exact ⟨hregular, mode_pmpConfig⟩
  | enter slot =>
    obtain ⟨e, he, rfl⟩ := map_eq_some_iff.mp hstep
    split <;> exact h.congr rfl
  | exit slot =>
    obtain ⟨e, he, rfl⟩ := map_eq_some_iff.mp hstep
    exact h.congr rfl

theorem TableInv.boot (pmp : PmpRegs) : TableInv (.boot pmp) :=
  ⟨fun _ he => absurd he not_mem_nil, fun _ he => absurd he not_mem_nil⟩

variable {slot physStart : Nat}

theorem protects_exit {e : TeeEnclave} (he : s.enclaves.entries[slot]? = some e) :
    Kept slot s { s with pmp := e.exit s.pmp, inside := s.inside.erase slot } ↔
      Harmless s (.exit slot) := by
  unfold Harmless Kept
  simp only [he, mem_def, some.injEq, forall_eq']
  refine forall₂_congr fun j _ => imp_congr_right fun _ => forall₂_congr fun e' _ => ?_
  by_cases hshared : e'.enclaveId % 4 = e.enclaveId % 4
  · have hidx : e'.pmpIdx = e.pmpIdx := congrArg (TEE_PMP_START + ·) hshared
    rw [hidx, imp_iff_right hshared, e.exit_eq]
    simp [PmpRegs.entry, PmpRegs.byte, eq_comm]
  · have hidx : e'.pmpIdx ≠ e.pmpIdx := fun heq => hshared (Nat.add_left_cancel heq)
    rw [e.exit_eq]
    exact iff_of_true (Prod.ext rfl (update_of_ne hidx _ _)) fun heq => absurd heq hshared

/-- **Protection of enclaves.**  In every run of calls with natural regions, a call programs
    exactly the region of the enclave that enters and keeps the entries of the others if and
    only if it is `Harmless`; so no `enter` that succeeds does. -/
theorem enclave_protection_iff {pmp : PmpRegs} {calls : List Call} {c : Call} {s t : System}
    (hrun : Run (Guarded Step Call.Regular) (.boot pmp) calls s)
    (hstep : Guarded Step Call.Regular s c t) : Protects s c t ↔ Harmless s c := by
  have hinv := hrun.invariant (fun _ _ _ h => h.step) (TableInv.boot pmp)
  obtain ⟨-, hstep⟩ := hstep
  cases c with
  | create ownerPid =>
    cases hstep
    exact iff_of_true rfl trivial
  | configureRegion slot physStart size code data stack =>
    obtain ⟨e, he, rfl⟩ := map_eq_some_iff.mp hstep
    exact iff_of_true rfl trivial
  | enter slot =>
    obtain ⟨e, he, rfl⟩ := map_eq_some_iff.mp hstep
    have hmem := mem_of_getElem? he
    have hidx : ¬ e.pmpIdx > 15 := Nat.not_lt.mpr (Nat.le_of_lt_succ e.pmpIdx_lt)
    simp only [Protects, Harmless, he, mem_def, some.injEq, forall_eq', TeeEnclave.enter,
      hinv.active e hmem, Bool.not_true, Bool.false_eq_true, hidx, if_false]
    by_cases hsize : e.pmpRegionSize = 0
    · simp only [hsize, if_true]
      exact iff_of_true ⟨fun _ _ _ _ _ => rfl, fun h => by cases h⟩ trivial
    · simp only [hsize, if_false]
      obtain ⟨hnatural, hcfg⟩ := hinv.region e hmem hsize
      exact iff_of_false (fun h => not_exact_of_enter hcfg hnatural (h.2 trivial)) id
  | exit slot =>
    obtain ⟨e, he, rfl⟩ := map_eq_some_iff.mp hstep
    exact protects_exit he

/-! ### Pages as regions -/

/-- Create `n` enclaves with one page each. -/
def createPages (n : Nat) : List Call :=
  (range n).flatMap fun i =>
    [.create 7, .configureRegion i (0x80000000 + 4096 * i) 4096 ⟨0, 0⟩ ⟨0, 0⟩ ⟨0, 0⟩]

def zeroRegs : PmpRegs := ⟨fun _ => 0, fun _ => 0⟩

theorem regular_createPages {n : Nat} (hn : n ≤ MAX_ENCLAVES) {c : Call} (hc : c ∈ createPages n)
    (s : System) : c.Regular s := by
  obtain ⟨i, hi, hc⟩ := mem_flatMap.mp hc
  have hlt : i < MAX_ENCLAVES := (mem_range.mp hi).trans_le hn
  rcases hc with _ | ⟨_, _ | ⟨_, ⟨⟩⟩⟩
  · trivial
  · refine ⟨?_, le_rfl, by decide, ⟨12, rfl⟩, by omega⟩
    unfold MAX_ENCLAVES at hlt
    unfold WORD
    omega

theorem createPages_run {P : System → Prop} [DecidablePred P] (n : Nat) (calls : List Call)
    (hn : n ≤ MAX_ENCLAVES) (hcalls : ∀ c ∈ calls, ∃ slot, c = .enter slot)
    (h : ((createPages n ++ calls).foldlM Call.exec (.boot zeroRegs)).any P = true) :
    ∃ s, Run (Guarded Step Call.Regular) (.boot zeroRegs) (createPages n ++ calls) s ∧ P s := by
  refine exists_run_of_foldlM _ _ (fun c hc s _ hexec => ⟨?_, hexec⟩) h
  rcases mem_append.mp hc with hc | hc
  · exact regular_createPages hn hc s
  · obtain ⟨slot, rfl⟩ := hcalls c hc
    trivial

instance (s : System) : (c : Call) → Decidable (Harmless s c)
  | .create _ | .configureRegion _ _ _ _ _ _ => .isTrue trivial
  | .enter slot => inferInstanceAs (Decidable (∀ e ∈ s.enclaves.entries[slot]?, _ = 0))
  | .exit slot => inferInstanceAs (Decidable (∀ e ∈ s.enclaves.entries[slot]?, ∀ j ∈ s.inside,
      j ≠ slot → ∀ e' ∈ s.enclaves.entries[j]?, e'.enclaveId % 4 = e.enclaveId % 4 → _ = 0))

/-- Two enclaves are inside and the first one leaves. -/
theorem enclave_protection_two :
    ∃ s t, Run (Guarded Step Call.Regular) (.boot zeroRegs)
        (createPages 2 ++ [.enter 0, .enter 1]) s ∧
      s.inside = [1, 0] ∧ Step s (.exit 0) t ∧ Protects s (.exit 0) t := by
  obtain ⟨s, hrun, hinside, hharmless, t, hexit, -⟩ := createPages_run
    (P := fun s => s.inside = [1, 0] ∧ Harmless s (.exit 0) ∧ ∃ t ∈ (Call.exit 0).exec s, True)
    2 [.enter 0, .enter 1] (by decide) (by simp) (by decide +kernel)
  have hstep : Guarded Step Call.Regular s (.exit 0) t := ⟨trivial, hexit⟩
  exact ⟨s, t, hrun, hinside, hexit, (enclave_protection_iff hrun hstep).mpr hharmless⟩

/-- When the first of five enclaves enters, the last byte of its page is not matched; and when
    the fifth enters, the entry of the first, which is inside, is overwritten. -/
theorem entered_unprotected :
    (∃ s t, Run (Guarded Step Call.Regular) (.boot zeroRegs) (createPages 5) s ∧
      Step s (.enter 0) t ∧ t.inside = [0] ∧ ¬ Protects s (.enter 0) t) ∧
    ∃ s t, Run (Guarded Step Call.Regular) (.boot zeroRegs) (createPages 5 ++ [.enter 0]) s ∧
      Step s (.enter 4) t ∧ t.inside = [4, 0] ∧ ¬ Kept 4 s t := by
  constructor
  · obtain ⟨s, hrun, e, he, t, ht, hinside, hok, hrange, hmatch⟩ := createPages_run
      (P := fun s => ∃ e ∈ s.enclaves.entries[0]?, ∃ t ∈ (Call.enter 0).exec s, t.inside = [0] ∧
        (e.enter s.pmp).1 = .ok () ∧ (e.pmpRegionStart ≤ 0x80000FFF ∧
          0x80000FFF < e.pmpRegionStart + e.pmpRegionSize) ∧ ¬ t.pmp.Matches e.pmpIdx 0x80000FFF)
      5 [] (by decide) (by simp) (by decide +kernel)
    rw [append_nil] at hrun
    refine ⟨s, t, hrun, ht, hinside, fun hprotects => ?_⟩
    exact hmatch ((hprotects.2 e he hok _).mpr hrange)
  · obtain ⟨s, hrun, e, he, t, ht, hinside, hother⟩ := createPages_run
      (P := fun s => ∃ e ∈ s.enclaves.entries[0]?, ∃ t ∈ (Call.enter 4).exec s,
        t.inside = [4, 0] ∧ 0 ∈ s.inside ∧ t.pmp.entry e.pmpIdx ≠ s.pmp.entry e.pmpIdx)
      5 [.enter 0] (by decide) (by simp) (by decide +kernel)
    exact ⟨s, t, hrun, ht, hinside, fun hkept => hother.2 (hkept 0 hother.1 (by decide) e he)⟩

end TrainOS.Tee
