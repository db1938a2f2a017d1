import Mathlib.Algebra.Group.Nat.Defs
import TrainOS.BoundedTable
import TrainOS.MatrixGap
import TrainOS.Runs

/-!
# Isolated zones and who may talk to whom (`security/multizone.rs`)

Up to 16 zones in a compact array and, for each pair of slots, whether the first zone may send
to the second.  When a zone is destroyed the array and the table are closed up.
`can_communicate` answers with the most recent decision about a pair (`zone_matrix`).
-/

namespace TrainOS.Zones

open Function List MatrixGap Runs

/-! ### The zone manager -/

def MAX_ZONES : Nat := 16

def MAX_TRUST_DOMAINS : Nat := 8

inductive EnclaveState where
  | uninitialized
  | loading
  | ready
  | running
  | destroyed
  | attesting
  | terminated
deriving DecidableEq, Repr

def EnclaveState.isActive : EnclaveState → Bool
  | .loading | .ready | .running | .attesting => true
  | _ => false

structure TrustDomain where
  domainId : Nat
  zoneIds : Table Nat MAX_ZONES

/-- A zone that is there already is not added again; a full domain refuses. -/
def TrustDomain.addZone (d : TrustDomain) (zoneId : Nat) : Bool × TrustDomain :=
  if MAX_ZONES ≤ d.zoneIds.entries.length then (false, d)
  else if zoneId ∈ d.zoneIds.entries then (true, d)
  else
    match d.zoneIds.push? zoneId with
    | none => (false, d)
    | some ids => (true, { d with zoneIds := ids })

def TrustDomain.addZones (d : TrustDomain) : List Nat → TrustDomain
  | [] => d
  | z :: zs =>
      match d.addZone z with
      | (false, d) => d
      | (true, d) => d.addZones zs

structure TeeZoneManager where
  zones : Nat → Nat × EnclaveState
  activeZones : Nat
  commsMatrix : Grid Bool
  trustDomains : Table TrustDomain MAX_TRUST_DOMAINS
  nextZoneId : Nat
  nextDomainId : Nat
  active_le : activeZones ≤ MAX_ZONES

namespace TeeZoneManager

def new : TeeZoneManager where
  zones := fun _ => (0, .uninitialized)
  activeZones := 0
  commsMatrix := fun _ _ => false
  trustDomains := .empty
  nextZoneId := 1
  nextDomainId := 1
  active_le := Nat.zero_le _

def findZoneIndex (m : TeeZoneManager) (zoneId : Nat) : Option Nat :=
  (range m.activeZones).find? fun i =>
    (m.zones i).1 == zoneId && ((m.zones i).2.isActive || (m.zones i).2 == .ready)

def clearLine (comms : Grid Bool) (idx : Nat) : Grid Bool :=
  (range MAX_ZONES).foldl (fun c j => setCell (setCell c idx j false) j idx false) comms

def createZone (m : TeeZoneManager) : Option Nat × TeeZoneManager :=
  if h : MAX_ZONES ≤ m.activeZones then (none, m)
  else
    (some m.nextZoneId,
      { m with
        zones := update m.zones m.activeZones (m.nextZoneId, .loading)
        commsMatrix := setCell (clearLine m.commsMatrix m.activeZones) m.activeZones
          m.activeZones true
        activeZones := m.activeZones + 1
        nextZoneId := (m.nextZoneId + 1) % 2 ^ 32
        active_le := Nat.lt_of_not_le h })

/-- The common body of `allow_zone_comm` and `deny_zone_comm`. -/
def setComm (m : TeeZoneManager) (source target : Nat) (allowed : Bool) : TeeZoneManager :=
  match m.findZoneIndex source, m.findZoneIndex target with
  | some fi, some ti => { m with commsMatrix := setCell m.commsMatrix fi ti allowed }
  | _, _ => m

def allowZoneComm (m : TeeZoneManager) (source target : Nat) : TeeZoneManager :=
  m.setComm source target true

def denyZoneComm (m : TeeZoneManager) (source target : Nat) : TeeZoneManager :=
  m.setComm source target false

def canCommunicate (m : TeeZoneManager) (source target : Nat) : Bool :=
  if source = target then true
  else
    match m.findZoneIndex source, m.findZoneIndex target with
    | some fi, some ti => m.commsMatrix fi ti
    | _, _ => false

/-- The loop of `destroy_zone` that closes up the zones; the same loop moves the lines of
    the matrix (`closeGap`). -/
def closeZones (idx last : Nat) (zones : Nat → Nat × EnclaveState) : Nat → Nat × EnclaveState :=
  (range' idx (last - idx)).foldl (fun z i => update z i (z (i + 1))) zones

def destroyZone (m : TeeZoneManager) (zoneId : Nat) : TeeZoneManager :=
  match m.findZoneIndex zoneId with
  | none => m
  | some idx =>
      { m with
        zones := closeZones idx (m.activeZones - 1)
          (update m.zones idx (zoneId, .destroyed))
        commsMatrix := closeGap MAX_ZONES idx (m.activeZones - 1) (clearLine m.commsMatrix idx)
        activeZones := m.activeZones - 1
        active_le := (Nat.sub_le _ _).trans m.active_le }

def storedZones (m : TeeZoneManager) (zones : List Nat) : TrustDomain :=
  TrustDomain.addZones ⟨m.nextDomainId, .empty⟩ zones

def createTrustDomain (m : TeeZoneManager) (zones : List Nat) : Option Nat × TeeZoneManager :=
  match m.trustDomains.push? (m.storedZones zones) with
  | none => (none, m)
  | some domains =>
      let ids := (m.storedZones zones).zoneIds.entries
      let m1 := (ids.product ids).foldl (fun m p => m.setComm p.1 p.2 true) m
      (some m.nextDomainId,
        { m1 with trustDomains := domains, nextDomainId := (m.nextDomainId + 1) % 2 ^ 32 })

end TeeZoneManager

/-! ### Histories -/

inductive ZoneCall where
  | createZone
  | destroyZone (zoneId : Nat)
  | allowZoneComm (source target : Nat)
  | denyZoneComm (source target : Nat)
  | createTrustDomain (zones : List Nat)

/-- What a call has done, as far as zones and their decisions go. -/
inductive Event where
  | created (zoneId : Nat)
  | destroyed (zoneId : Nat)
  | decision (source target : Nat) (allowed : Bool)
  | domain (stored : List Nat)
deriving DecidableEq, Repr

def ZoneCall.exec (m : TeeZoneManager) : ZoneCall → Option Event × TeeZoneManager
  | .createZone => (m.createZone.1.map .created, m.createZone.2)
  | .destroyZone zoneId => (some (.destroyed zoneId), m.destroyZone zoneId)
  | .allowZoneComm source target =>
      (some (.decision source target true), m.allowZoneComm source target)
  | .denyZoneComm source target =>
      (some (.decision source target false), m.denyZoneComm source target)
  | .createTrustDomain zones =>
      ((m.createTrustDomain zones).1.map fun _ => .domain (m.storedZones zones).zoneIds.entries,
        (m.createTrustDomain zones).2)

/-- A call, with the history of events, the most recent one first. -/
def afterCall (a : TeeZoneManager × List Event) (c : ZoneCall) : TeeZoneManager × List Event :=
  ((c.exec a.1).2, (c.exec a.1).1.toList ++ a.2)

def ZoneStep (a : TeeZoneManager × List Event) (c : ZoneCall) (b : TeeZoneManager × List Event) :
    Prop :=
  b = afterCall a c

/-- The most recent decision about a pair since both zones exist. -/
def decided (a b : Nat) : List Event → Option Bool
  | [] => none
  | .created z :: es => if z = a ∨ z = b then none else decided a b es
  | .destroyed _ :: es => decided a b es
  | .decision source target allowed :: es =>
      if source = a ∧ target = b then some allowed else decided a b es
  | .domain stored :: es => if a ∈ stored ∧ b ∈ stored then some true else decided a b es

def alive (z : Nat) : List Event → Bool
  | [] => false
  | .created z' :: es => z' == z || alive z es
  | .destroyed z' :: es => z' != z && alive z es
  | _ :: es => alive z es

def creations : List Event → Nat
  | [] => 0
  | .created _ :: es => creations es + 1
  | _ :: es => creations es

/-! ### The manager and its history -/

variable {m : TeeZoneManager} {es : List Event} {z i j : Nat}

/-- The slots hold the zones that are alive, and off the diagonal the matrix holds the most
    recent decisions. -/
structure Agrees (m : TeeZoneManager) (es : List Event) : Prop where
  next : m.nextZoneId = (creations es + 1) % 2 ^ 32
  old : ∀ i < m.activeZones, (m.zones i).1 ≤ creations es
  loading : ∀ i < m.activeZones, (m.zones i).2 = .loading
  inj : ∀ i < m.activeZones, ∀ j < m.activeZones, (m.zones i).1 = (m.zones j).1 → i = j
  alive : ∀ z, alive z es = true ↔ ∃ i < m.activeZones, (m.zones i).1 = z
  comms : ∀ i < m.activeZones, ∀ j < m.activeZones, i ≠ j →
    (m.commsMatrix i j = true ↔ decided (m.zones i).1 (m.zones j).1 es = some true)

theorem agrees_new : Agrees .new [] where
  next := rfl
  old := fun _ hi => absurd hi (Nat.not_lt_zero _)
  loading := fun _ hi => absurd hi (Nat.not_lt_zero _)
  inj := fun _ hi => absurd hi (Nat.not_lt_zero _)
  alive := fun z => by simp [Zones.alive, TeeZoneManager.new]
  comms := fun _ hi => absurd hi (Nat.not_lt_zero _)

theorem Agrees.find_some (h : Agrees m es) :
    m.findZoneIndex z = some i ↔ i < m.activeZones ∧ (m.zones i).1 = z := by
  have hfor : ∀ j < m.activeZones, ((m.zones j).1 == z &&
      ((m.zones j).2.isActive || (m.zones j).2 == .ready)) = true ↔ (m.zones j).1 = z := by
    intro j hj
    rw [h.loading j hj]
    simp [EnclaveState.isActive]
  constructor
  · intro hfind
    have hlt := mem_range.mp (mem_of_find?_eq_some hfind)
    have hzone := find?_some hfind
    exact ⟨hlt, (hfor i hlt).mp hzone⟩
  · rintro ⟨hlt, hzone⟩
    cases hfind : m.findZoneIndex z with
    | none =>
      have hno := find?_eq_none.mp hfind i (mem_range.mpr hlt)
      exact absurd ((hfor i hlt).mpr hzone) hno
    | some j =>
      have hjlt := mem_range.mp (mem_of_find?_eq_some hfind)
      have hj := find?_some hfind
      rw [h.inj j hjlt i hlt (((hfor j hjlt).mp hj).trans hzone.symm)]

theorem Agrees.find_none (h : Agrees m es) (hfind : m.findZoneIndex z = none) :
    ∀ i < m.activeZones, (m.zones i).1 ≠ z := by
  intro i hi hzone
  rw [h.find_some.mpr ⟨hi, hzone⟩] at hfind
  cases hfind

/-- **Communication.**  What the manager answers. -/
theorem Agrees.canCommunicate {a b : Nat} (h : Agrees m es) (hne : a ≠ b) :
    m.canCommunicate a b = true ↔
      Zones.alive a es = true ∧ Zones.alive b es = true ∧ decided a b es = some true := by
  rw [TeeZoneManager.canCommunicate, if_neg hne, h.alive, h.alive]
  cases ha : m.findZoneIndex a with
  | none =>
    simp only [Bool.false_eq_true, false_iff]
    rintro ⟨⟨i, hi, hzone⟩, -⟩
    exact h.find_none ha i hi hzone
  | some i =>
    obtain ⟨hi, rfl⟩ := h.find_some.mp ha
    cases hb : m.findZoneIndex b with
    | none =>
      simp only [Bool.false_eq_true, false_iff]
      rintro ⟨-, ⟨j, hj, hzone⟩, -⟩
      exact h.find_none hb j hj hzone
    | some j =>
      obtain ⟨hj, rfl⟩ := h.find_some.mp hb
      have hij : i ≠ j := fun heq => hne (congrArg (fun i => (m.zones i).1) heq)
      simp only [h.comms i hi j hj hij]
      exact ⟨fun hd => ⟨⟨i, hi, rfl⟩, ⟨j, hj, rfl⟩, hd⟩, fun hd => hd.2.2⟩

/-! ### Creating a zone -/

variable {idx : Nat}

theorem clearLine_apply {comms : Grid Bool} (hi : i < MAX_ZONES) (hj : j < MAX_ZONES) :
    TeeZoneManager.clearLine comms idx i j = if i = idx ∨ j = idx then false else comms i j := by
  have hloop : ∀ n, (range n).foldl
      (fun c j => setCell (setCell c idx j false) j idx false) comms =
        fun r c => if r = idx ∧ c < n ∨ c = idx ∧ r < n then false else comms r c := by
    intro n
    induction n with
    | zero => simp
    | succ n ih =>
      rw [range_succ, foldl_append, ih]
      funext r c
      simp only [foldl_cons, foldl_nil, setCell_apply]
      grind
  rw [TeeZoneManager.clearLine, hloop]
  grind

theorem createZone_spec (hroom : ¬ MAX_ZONES ≤ m.activeZones) : m.createZone.1 = some m.nextZoneId ∧
      m.createZone.2.activeZones = m.activeZones + 1 ∧
      m.createZone.2.nextZoneId = (m.nextZoneId + 1) % 2 ^ 32 ∧
      m.createZone.2.zones =
        update m.zones m.activeZones (m.nextZoneId, .loading) ∧
      m.createZone.2.commsMatrix = setCell (TeeZoneManager.clearLine m.commsMatrix m.activeZones)
        m.activeZones m.activeZones true := by
  simp [TeeZoneManager.createZone, hroom]

/-- Nothing is decided yet about a new zone. -/
theorem Agrees.create (h : Agrees m es) (hroom : ¬ MAX_ZONES ≤ m.activeZones)
    (hcount : creations es + 1 < 2 ^ 32) : Agrees m.createZone.2 (.created m.nextZoneId :: es) := by
  have hid : m.nextZoneId = creations es + 1 := by rw [h.next, Nat.mod_eq_of_lt hcount]
  obtain ⟨-, hactive, hnext, hzones, hcomms⟩ := createZone_spec hroom
  generalize m.createZone.2 = m' at *
  have hnew : m'.zones m.activeZones = (m.nextZoneId, .loading) := by
    rw [hzones, update_self]
  have hold : ∀ i < m.activeZones, m'.zones i = m.zones i := fun i hi => by
    rw [hzones, update_of_ne (Nat.ne_of_lt hi)]
  have hfresh : ∀ i < m.activeZones, (m.zones i).1 ≠ m.nextZoneId := by
    intro i hi heq
    have hle := h.old i hi
    omega
  have hslot : ∀ i < m'.activeZones, i < m.activeZones ∨ i = m.activeZones :=
    fun i hi => Nat.lt_succ_iff_lt_or_eq.mp (Nat.lt_of_lt_of_eq hi hactive)
  constructor
  case next => rw [hnext, hid, creations]
  case old =>
    intro i hi
    rcases hslot i hi with hi | rfl
    · rw [hold i hi]
      exact (h.old i hi).trans (Nat.le_succ _)
    · rw [hnew]
      exact hid.le
  case loading =>
    intro i hi
    rcases hslot i hi with hi | rfl
    · rw [hold i hi]
      exact h.loading i hi
    · rw [hnew]
  case inj =>
    intro i hi j hj heq
    rcases hslot i hi with hi | rfl <;> rcases hslot j hj with hj | rfl
    · rw [hold i hi, hold j hj] at heq
      exact h.inj i hi j hj heq
    · rw [hold i hi, hnew] at heq
      exact absurd heq (hfresh i hi)
    · rw [hold j hj, hnew] at heq
      exact absurd heq.symm (hfresh j hj)
    · rfl
  case alive =>
    intro z
    simp only [Zones.alive, Bool.or_eq_true, beq_iff_eq, h.alive z]
    constructor
    · rintro (rfl | ⟨i, hi, hzone⟩)
      · exact ⟨m.activeZones, hactive ▸ Nat.lt_succ_self _, by rw [hnew]⟩
      · exact ⟨i, hactive ▸ Nat.lt_succ_of_lt hi, by rw [hold i hi, hzone]⟩
    · rintro ⟨i, hi, hzone⟩
      rcases hslot i hi with hi | rfl
      · exact .inr ⟨i, hi, by rw [← hold i hi, hzone]⟩
      · exact .inl (by rw [← hzone, hnew])
  case comms =>
    intro i hi j hj hne
    have hi16 := Nat.lt_of_lt_of_le hi m'.active_le
    have hj16 := Nat.lt_of_lt_of_le hj m'.active_le
    rw [hcomms, setCell_apply, if_neg fun hdiag => hne (hdiag.1.trans hdiag.2.symm),
      clearLine_apply hi16 hj16]
    rcases hslot i hi with hi | rfl
    · rcases hslot j hj with hj | rfl
      · have hother : ¬ (m.nextZoneId = (m.zones i).1 ∨ m.nextZoneId = (m.zones j).1) := by
          rintro (heq | heq)
          · exact hfresh i hi heq.symm
          · exact hfresh j hj heq.symm
        rw [if_neg (by omega), hold i hi, hold j hj, decided, if_neg hother]
        exact h.comms i hi j hj hne
      · simp [decided, hnew]
    · simp [decided, hnew]

/-! ### Decisions -/

/-- The manager holds the same zones. -/
structure SameZones (m m' : TeeZoneManager) : Prop where
  zones : m'.zones = m.zones
  active : m'.activeZones = m.activeZones
  next : m'.nextZoneId = m.nextZoneId

variable {m' : TeeZoneManager}

theorem SameZones.find (h : SameZones m m') (z : Nat) : m'.findZoneIndex z = m.findZoneIndex z := by
  rw [TeeZoneManager.findZoneIndex, h.zones, h.active]
  rfl

theorem Agrees.of_sameZones {es' : List Event} (h : Agrees m es)
    (hsame : SameZones m m') (hcount : creations es' = creations es)
    (halive : ∀ z, Zones.alive z es' = Zones.alive z es)
    (hcomms : ∀ i < m.activeZones, ∀ j < m.activeZones, i ≠ j →
      (m'.commsMatrix i j = true ↔ decided (m.zones i).1 (m.zones j).1 es' = some true)) :
    Agrees m' es' := by
  constructor
  case next => rw [hsame.next, hcount, h.next]
  case comms => simpa only [hsame.zones, hsame.active] using hcomms
  case alive =>
    intro z
    rw [halive, hsame.zones, hsame.active]
    exact h.alive z
  all_goals rw [hsame.zones, hsame.active]
  case old => exact hcount ▸ h.old
  case loading => exact h.loading
  case inj => exact h.inj

theorem setComm_spec (m : TeeZoneManager) (source target : Nat) (allowed : Bool) :
    SameZones m (m.setComm source target allowed) ∧
      ∀ i j, (m.setComm source target allowed).commsMatrix i j =
        if m.findZoneIndex source = some i ∧ m.findZoneIndex target = some j then allowed
        else m.commsMatrix i j := by
  unfold TeeZoneManager.setComm
  split
  · rename_i fi ti hf ht
    refine ⟨⟨rfl, rfl, rfl⟩, fun i j => ?_⟩
    simp [setCell_apply, hf, ht, Option.some.injEq, eq_comm]
  · rename_i hnone
    refine ⟨⟨rfl, rfl, rfl⟩, fun i j => ?_⟩
    rw [if_neg fun hfound => hnone _ _ hfound.1 hfound.2]

theorem Agrees.decision (h : Agrees m es) (source target : Nat) (allowed : Bool) :
    Agrees (m.setComm source target allowed) (.decision source target allowed :: es) := by
  obtain ⟨hsame, hcomms⟩ := setComm_spec m source target allowed
  refine h.of_sameZones hsame rfl (fun _ => rfl) fun i hi j hj hne => ?_
  simp only [hcomms, decided, h.find_some, hi, hj, true_and]
  simp only [eq_comm (a := source), eq_comm (a := target)]
  split
  · simp
  · exact h.comms i hi j hj hne

/-! ### Trust domains -/

theorem foldl_setComm_spec (m : TeeZoneManager) (ps : List (Nat × Nat)) :
    SameZones m (ps.foldl (fun m p => m.setComm p.1 p.2 true) m) ∧
      ∀ i j, (ps.foldl (fun m p => m.setComm p.1 p.2 true) m).commsMatrix i j = true ↔
        (∃ p ∈ ps, m.findZoneIndex p.1 = some i ∧ m.findZoneIndex p.2 = some j) ∨
          m.commsMatrix i j = true := by
  induction ps generalizing m with
  | nil => exact ⟨⟨rfl, rfl, rfl⟩, by simp⟩
  | cons p ps ih =>
    obtain ⟨hsame, hcomms⟩ := setComm_spec m p.1 p.2 true
    obtain ⟨hsame', hcomms'⟩ := ih (m.setComm p.1 p.2 true)
    refine ⟨⟨hsame'.zones.trans hsame.zones, hsame'.active.trans hsame.active,
      hsame'.next.trans hsame.next⟩, fun i j => ?_⟩
    rw [foldl_cons, hcomms', hcomms]
    simp only [hsame.find, mem_cons, exists_eq_or_imp]
    split
    · rename_i hfound
      simp [hfound]
    · rename_i hfound
      simp [hfound]

theorem Agrees.domain (h : Agrees m es) {ids : List Nat} :
    Agrees ((ids.product ids).foldl (fun m p => m.setComm p.1 p.2 true) m)
      (.domain ids :: es) := by
  obtain ⟨hsame, hcomms⟩ := foldl_setComm_spec m (ids.product ids)
  refine h.of_sameZones hsame rfl (fun _ => rfl) fun i hi j hj hne => ?_
  have hpair : (∃ p ∈ ids.product ids, m.findZoneIndex p.1 = some i ∧
      m.findZoneIndex p.2 = some j) ↔ (m.zones i).1 ∈ ids ∧ (m.zones j).1 ∈ ids := by
    simp only [h.find_some, hi, hj, true_and, Prod.exists, pair_mem_product]
    grind
  rw [hcomms, hpair, decided]
  split
  · rename_i hstored
    simp [hstored]
  · rename_i hstored
    simp only [hstored, false_or]
    exact h.comms i hi j hj hne

/-! ### Destroying a zone -/

theorem closeZones_apply {last : Nat} (zones : Nat → Nat × EnclaveState) (hidx : idx ≤ last)
    (i : Nat) : TeeZoneManager.closeZones idx last zones i = zones (shift idx last i) := by
  have hloop : ∀ d, (range' idx d).foldl (fun z i => update z i (z (i + 1))) zones =
      fun i => zones (shift idx (idx + d) i) := by
    intro d
    induction d with
    | zero =>
      funext i
      exact congrArg zones (if_neg (by omega)).symm
    | succ d ih =>
      rw [range'_concat, foldl_append, ih, Nat.one_mul]
      funext i
      by_cases heq : i = idx + d
      · subst heq
        simp only [foldl_cons, foldl_nil, update_self]
        rw [shift_above (Nat.le_succ _), ← Nat.add_assoc, shift_succ_self (Nat.le_add_right _ _)]
      · simp only [foldl_cons, foldl_nil, update_of_ne heq]
        rw [← Nat.add_assoc, shift_succ_of_ne heq]
  rw [TeeZoneManager.closeZones, hloop, Nat.add_sub_cancel' hidx]

theorem destroyZone_spec (hfind : m.findZoneIndex z = some idx) :
    (m.destroyZone z).activeZones = m.activeZones - 1 ∧
      (m.destroyZone z).nextZoneId = m.nextZoneId ∧
      (m.destroyZone z).zones = TeeZoneManager.closeZones idx (m.activeZones - 1)
        (update m.zones idx (z, .destroyed)) ∧
      (m.destroyZone z).commsMatrix = closeGap MAX_ZONES idx (m.activeZones - 1)
        (TeeZoneManager.clearLine m.commsMatrix idx) := by
  simp [TeeZoneManager.destroyZone, hfind]

/-- The last zone moves down to the place of the destroyed one. -/
theorem Agrees.destroy (h : Agrees m es) (z : Nat) :
    Agrees (m.destroyZone z) (.destroyed z :: es) := by
  cases hfind : m.findZoneIndex z with
  | none =>
    have hgone : Zones.alive z es = false := by
      rw [Bool.eq_false_iff, ne_eq, h.alive]
      rintro ⟨i, hi, hzone⟩
      exact h.find_none hfind i hi hzone
    have hsame : m.destroyZone z = m := by simp [TeeZoneManager.destroyZone, hfind]
    rw [hsame]
    refine h.of_sameZones ⟨rfl, rfl, rfl⟩ rfl (fun z' => ?_) fun i hi j hj hne =>
      h.comms i hi j hj hne
    by_cases heq : z = z'
    · subst heq
      simp [Zones.alive, hgone]
    · simp [Zones.alive, heq]
  | some idx =>
    obtain ⟨hidx, rfl⟩ := h.find_some.mp hfind
    obtain ⟨hactive, hnext, hzones, hcomms⟩ := destroyZone_spec hfind
    generalize m.destroyZone (m.zones idx).1 = m' at *
    obtain ⟨last, hlast⟩ : ∃ last, m.activeZones = last + 1 := ⟨m.activeZones - 1, by omega⟩
    rw [hlast, Nat.add_sub_cancel] at hactive hzones hcomms
    have hle : idx ≤ last := by omega
    have hfrom :
        ∀ i < m'.activeZones, shift idx last i < m.activeZones ∧ shift idx last i ≠ idx := by
      intro i hi
      obtain ⟨hslot, hne⟩ := shift_gap (hactive ▸ hi)
      exact ⟨by omega, hne⟩
    have hmoved : ∀ i < m'.activeZones, m'.zones i = m.zones (shift idx last i) := by
      intro i hi
      rw [hzones, closeZones_apply _ hle, update_of_ne (hfrom i hi).2]
    constructor
    case next => exact hnext.trans h.next
    case old =>
      intro i hi
      rw [hmoved i hi]
      exact h.old _ (hfrom i hi).1
    case loading =>
      intro i hi
      rw [hmoved i hi]
      exact h.loading _ (hfrom i hi).1
    case inj =>
      intro i hi j hj heq
      rw [hmoved i hi, hmoved j hj] at heq
      exact shift_injective (hactive ▸ hi) (hactive ▸ hj)
        (h.inj _ (hfrom i hi).1 _ (hfrom j hj).1 heq)
    case alive =>
      intro z'
      simp only [Zones.alive, Bool.and_eq_true, bne_iff_ne, h.alive]
      constructor
      · rintro ⟨hother, k, hk, rfl⟩
        obtain ⟨i, hi, rfl⟩ := exists_shift hle (y := k) (by omega) fun heq => hother (heq ▸ rfl)
        have hi' : i < m'.activeZones := hactive ▸ hi
        exact ⟨i, hi', congrArg Prod.fst (hmoved i hi')⟩
      · rintro ⟨i, hi, rfl⟩
        rw [hmoved i hi]
        refine ⟨fun heq => (hfrom i hi).2 ?_, _, (hfrom i hi).1, rfl⟩
        exact (h.inj idx hidx _ (hfrom i hi).1 heq).symm
    case comms =>
      intro i hi j hj hne
      have hi16 := Nat.lt_of_lt_of_le hi m'.active_le
      have hj16 := Nat.lt_of_lt_of_le hj m'.active_le
      have hroom : last < MAX_ZONES := Nat.lt_of_lt_of_le (by omega) m.active_le
      rw [hcomms, closeGap_apply _ hroom hle hi16 hj16 hne,
        clearLine_apply (Nat.lt_of_lt_of_le (hfrom i hi).1 m.active_le)
          (Nat.lt_of_lt_of_le (hfrom j hj).1 m.active_le),
        if_neg (by simp [(hfrom i hi).2, (hfrom j hj).2]), hmoved i hi, hmoved j hj]
      refine h.comms _ (hfrom i hi).1 _ (hfrom j hj).1 fun heq => hne ?_
      exact shift_injective (hactive ▸ hi) (hactive ▸ hj) heq

/-! ### Runs -/

theorem Agrees.exec (h : Agrees m es) (c : ZoneCall)
    (hcount : creations ((c.exec m).1.toList ++ es) < 2 ^ 32) :
    Agrees (c.exec m).2 ((c.exec m).1.toList ++ es) := by
  cases c with
  | createZone =>
    by_cases hroom : MAX_ZONES ≤ m.activeZones
    · simpa [ZoneCall.exec, TeeZoneManager.createZone, hroom] using h
    · simp only [ZoneCall.exec, (createZone_spec hroom).1] at hcount ⊢
      exact h.create hroom hcount
  | destroyZone z => exact h.destroy z
  | allowZoneComm source target => exact h.decision source target true
  | denyZoneComm source target => exact h.decision source target false
  | createTrustDomain zones =>
    simp only [ZoneCall.exec, TeeZoneManager.createTrustDomain]
    split
    · exact h
    · exact h.domain.of_sameZones ⟨rfl, rfl, rfl⟩ rfl (fun _ => rfl) h.domain.comms

theorem creations_le_exec (m : TeeZoneManager) (c : ZoneCall) (es : List Event) :
    creations es ≤ creations ((c.exec m).1.toList ++ es) := by
  cases hevent : (c.exec m).1 with
  | none => exact Nat.le_refl _
  | some e =>
    cases e with
    | created z => exact Nat.le_succ _
    | _ => exact Nat.le_refl _

/-- **The communication matrix.**  After any calls, with fewer than `2 ^ 32` zones created,
    two distinct zones may communicate if and only if both are alive and the most recent
    decision about them since both exist was to allow it. -/
theorem zone_matrix {calls : List ZoneCall}
    (hrun : Run ZoneStep (.new, []) calls (m, es)) (hcount : creations es < 2 ^ 32) {a b : Nat}
    (hne : a ≠ b) : m.canCommunicate a b = true ↔
      alive a es = true ∧ alive b es = true ∧ decided a b es = some true := by
  have hend : creations es < 2 ^ 32 → Agrees m es := by
    refine hrun.invariant (P := fun s => creations s.2 < 2 ^ 32 → Agrees s.1 s.2) ?_
      fun _ => agrees_new
    rintro ⟨m1, es1⟩ c _ hagrees rfl hcount1
    exact (hagrees (Nat.lt_of_le_of_lt (creations_le_exec m1 c es1) hcount1)).exec c hcount1
  exact (hend hcount).canCommunicate hne

/-- Zone 1 is created before zones 2 and 3, and destroyed after 2 may talk to 3. -/
def threeZones : List ZoneCall :=
  [.createZone, .createZone, .createZone, .allowZoneComm 2 3, .destroyZone 1]

/-- The decision stays with its zones when they move down. -/
theorem zone_matrix_three : (threeZones.foldl afterCall (.new, [])).1.canCommunicate 2 3 = true ∧
      (threeZones.foldl afterCall (.new, [])).1.canCommunicate 3 2 = false := by
  have hrun := run_foldl afterCall threeZones
    (fun c _ a => show ZoneStep a c (afterCall a c) from rfl) (.new, [])
  constructor
  · exact (zone_matrix hrun (by decide +kernel) (by decide)).mpr (by decide +kernel)
  · refine Bool.eq_false_iff.mpr fun hallowed => ?_
    exact absurd ((zone_matrix hrun (by decide +kernel) (by decide)).mp hallowed)
      (by decide +kernel)

end TrainOS.Zones
