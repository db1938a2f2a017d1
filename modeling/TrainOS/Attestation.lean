import Mathlib.Algebra.GroupWithZero.Nat
import TrainOS.FixedBuffer
import TrainOS.LittleEndian

/-!
# Attestation evidence (`security/attestation.rs`)

Evidence is signed with the device key and verified by signing it again.  Everything but the
signature and the platform information is signed, so only the latter can be replaced
unnoticed (`altered_evidence_iff`).  Evidence that is written to bytes cannot be read again
(`evidence_round_trip_iff`).  SHA-256 is a parameter.
-/

namespace TrainOS.Attestation

open FixedBuffer LittleEndian

/-! ### Evidence -/

inductive TeeType where
  | pmp
  | epmp
  | keystone
deriving DecidableEq, Repr

structure PlatformInfo where
  cpuVendor : Vector UInt8 16
  cpuModel : Vector UInt8 16
  fwVersion : Vector UInt8 16
  teeType : TeeType
deriving DecidableEq

structure AttestationEvidence where
  enclaveMeasurement : Vector UInt8 64
  signerHash : Vector UInt8 32
  tcbVersion : UInt32
  timestamp : UInt64
  nonce : Vector UInt8 16
  signature : Vector UInt8 64
  platformInfo : PlatformInfo
deriving DecidableEq

/-- The fields of an enclave that evidence is made of. -/
structure ApTeeEnclave where
  measurement : Vector UInt8 64
  signerHash : Vector UInt8 32
  tcbVersion : UInt32

structure AttestationService where
  deviceKey : Vector UInt8 32
  deviceCert : Vector UInt8 512
  nonce : Vector UInt8 16
  platformInfo : PlatformInfo

inductive AttestError where
  | invalidNonce
  | measurementMismatch
  | signatureInvalid
  | certificateExpired
  | platformMismatch
  | serializationError
deriving DecidableEq, Repr

/-! ### Platform information -/

def ascii (text : String) : List UInt8 := text.toList.map fun c => UInt8.ofNat c.toNat

/-- `none` where a slice and the literal copied into it differ in length. -/
def PlatformInfo.qemuDefault (teeType : TeeType) : Option PlatformInfo := do
  let zeros := Vector.replicate 16 0
  let cpuVendor ← copySlice zeros 0 12 (ascii "RISC-V Intl" ++ [0])
  let cpuModel ← copySlice zeros 0 6 (ascii "virt" ++ [0])
  let fwVersion ← copySlice zeros 0 8 (ascii "AP-TEEv1" ++ [0])
  return ⟨cpuVendor, cpuModel, fwVersion, teeType⟩

/-! ### Signatures -/

section Service

variable (sha256 : List UInt8 → Vector UInt8 32)

/-- The key of 32 bytes, padded to a block and mixed with `pad`. -/
def paddedKey (key : Vector UInt8 32) (pad : UInt8) : List UInt8 :=
  key.toList.map (· ^^^ pad) ++ List.replicate 32 pad

def hmacSha256Simple (key : Vector UInt8 32) (msg : List UInt8) : Vector UInt8 32 :=
  sha256 (paddedKey key 0x5C ++ (sha256 (paddedKey key 0x36 ++ msg)).toList)

/-- The 128 bytes that are signed; the last four are never written. -/
def evidenceMessage (e : AttestationEvidence) : List UInt8 :=
  e.enclaveMeasurement.toList ++ e.signerHash.toList ++ toLE 4 e.tcbVersion.toNat ++
    toLE 8 e.timestamp.toNat ++ e.nonce.toList ++ [0, 0, 0, 0]

def derivedKey (key : Vector UInt8 32) : Vector UInt8 32 := key.map fun b => b * 0x5C + 0x37

namespace AttestationService

def init (deviceKey : Vector UInt8 32) (teeType : TeeType) (entropy : Vector UInt8 16) :
    Option AttestationService := do
  let platformInfo ← PlatformInfo.qemuDefault teeType
  return ⟨deviceKey, Vector.replicate 512 0, entropy, platformInfo⟩

variable (svc : AttestationService)

def signEvidence (e : AttestationEvidence) : Vector UInt8 64 :=
  hmacSha256Simple sha256 svc.deviceKey (evidenceMessage e) ++
    hmacSha256Simple sha256 (derivedKey svc.deviceKey) (evidenceMessage e)

def sameSignature (a b : Vector UInt8 64) : Bool :=
  (List.finRange 64).foldl (fun diff i => diff ||| (a[i] ^^^ b[i])) 0 == 0

def verifySignature (e : AttestationEvidence) : Bool :=
  sameSignature e.signature (svc.signEvidence sha256 e)

def generateEvidence (enclave : ApTeeEnclave) (nonce : Vector UInt8 16) (tick : UInt64) :
    AttestationEvidence :=
  let unsigned : AttestationEvidence :=
    { enclaveMeasurement := enclave.measurement
      signerHash := enclave.signerHash
      tcbVersion := enclave.tcbVersion
      timestamp := tick
      nonce := nonce
      signature := Vector.replicate 64 0
      platformInfo := svc.platformInfo }
  { unsigned with signature := svc.signEvidence sha256 unsigned }

def verifyEvidence (e : AttestationEvidence) (expectedNonce : Vector UInt8 16) :
    Except AttestError Unit :=
  if e.nonce ≠ expectedNonce then .error .invalidNonce
  else if !svc.verifySignature sha256 e then .error .signatureInvalid
  else .ok ()

end AttestationService

end Service

/-- The model name and the firmware version do not fit their slices: a service is never
    initialised this way. -/
theorem init_panics (deviceKey : Vector UInt8 32) (teeType : TeeType)
    (entropy : Vector UInt8 16) : AttestationService.init deviceKey teeType entropy = none := rfl

/-! ### Alterations -/

inductive Field where
  | measurement
  | signerHash
  | tcbVersion
  | timestamp
  | nonce
  | signature
  | platformInfo
deriving DecidableEq, Repr

def Agree (e e' : AttestationEvidence) : Field → Prop
  | .measurement => e.enclaveMeasurement = e'.enclaveMeasurement
  | .signerHash => e.signerHash = e'.signerHash
  | .tcbVersion => e.tcbVersion = e'.tcbVersion
  | .timestamp => e.timestamp = e'.timestamp
  | .nonce => e.nonce = e'.nonce
  | .signature => e.signature = e'.signature
  | .platformInfo => e.platformInfo = e'.platformInfo

/-- The evidence differs in exactly one field. -/
def DiffersOnlyIn (f : Field) (e e' : AttestationEvidence) : Prop :=
  ∀ g, Agree e e' g ↔ g ≠ f

def Field.isSigned : Field → Bool
  | .signature | .platformInfo => false
  | _ => true

variable {sha256 : List UInt8 → Vector UInt8 32} {svc : AttestationService}
  {e e' : AttestationEvidence}

/-- The message determines the signed fields and no others. -/
theorem evidenceMessage_eq_iff :
    evidenceMessage e = evidenceMessage e' ↔ ∀ f, f.isSigned → Agree e e' f := by
  constructor
  · intro h
    obtain ⟨h, -⟩ := List.append_inj' h rfl
    obtain ⟨h, hnonce⟩ := List.append_inj' h (by simp)
    obtain ⟨h, htimestamp⟩ := List.append_inj' h (by simp)
    obtain ⟨h, htcb⟩ := List.append_inj' h (by simp)
    obtain ⟨hmeasurement, hsigner⟩ := List.append_inj' h (by simp)
    have htcb' := (toLE_inj e.tcbVersion.toNat_lt e'.tcbVersion.toNat_lt).mp htcb
    have htimestamp' := (toLE_inj e.timestamp.toNat_lt e'.timestamp.toNat_lt).mp htimestamp
    intro f hf
    cases f with
    | measurement => exact Vector.toList_inj.mp hmeasurement
    | signerHash => exact Vector.toList_inj.mp hsigner
    | tcbVersion => exact UInt32.toNat_inj.mp htcb'
    | timestamp => exact UInt64.toNat_inj.mp htimestamp'
    | nonce => exact Vector.toList_inj.mp hnonce
    | signature => cases hf
    | platformInfo => cases hf
  · intro h
    have hmeasurement : _ = _ := h .measurement rfl
    have hsigner : _ = _ := h .signerHash rfl
    have htcb : _ = _ := h .tcbVersion rfl
    have htimestamp : _ = _ := h .timestamp rfl
    have hnonce : _ = _ := h .nonce rfl
    unfold evidenceMessage
    rw [hmeasurement, hsigner, htcb, htimestamp, hnonce]

theorem foldl_diff_eq_zero (a b : Vector UInt8 64) (l : List (Fin 64)) (d : UInt8) :
    l.foldl (fun diff i => diff ||| (a[i] ^^^ b[i])) d = 0 ↔ d = 0 ∧ ∀ i ∈ l, a[i] = b[i] := by
  induction l generalizing d with
  | nil => simp
  | cons i l ih =>
    rw [List.foldl_cons, ih]
    simp [and_assoc]

theorem sameSignature_iff {a b : Vector UInt8 64} :
    AttestationService.sameSignature a b = true ↔ a = b := by
  unfold AttestationService.sameSignature
  rw [beq_iff_eq, foldl_diff_eq_zero]
  constructor
  · rintro ⟨-, h⟩
    ext i hi
    exact congrArg UInt8.toNat (h ⟨i, hi⟩ (List.mem_finRange _))
  · rintro rfl
    exact ⟨rfl, fun _ _ => rfl⟩

theorem verifyEvidence_iff {nonce : Vector UInt8 16} : svc.verifyEvidence sha256 e nonce = .ok () ↔
      e.nonce = nonce ∧ e.signature = svc.signEvidence sha256 e := by
  unfold AttestationService.verifyEvidence AttestationService.verifySignature
  rw [← sameSignature_iff]
  split
  · next hne => simp [hne]
  · next heq =>
    rw [not_not] at heq
    cases AttestationService.sameSignature e.signature (svc.signEvidence sha256 e) <;> simp [heq]

theorem signEvidence_congr (h : evidenceMessage e = evidenceMessage e') :
    svc.signEvidence sha256 e = svc.signEvidence sha256 e' := by
  unfold AttestationService.signEvidence
  rw [h]

/-- The keyed hash gives the message of `e` a tag of its own. -/
def UniqueTag (sha256 : List UInt8 → Vector UInt8 32) (key : Vector UInt8 32)
    (e : AttestationEvidence) : Prop :=
  ∀ e', evidenceMessage e' ≠ evidenceMessage e →
    hmacSha256Simple sha256 key (evidenceMessage e') ≠
      hmacSha256Simple sha256 key (evidenceMessage e)

/-- **Altered evidence.**  Genuine evidence is accepted; evidence that differs from it in
    exactly one field is accepted if and only if this field is the platform information. -/
theorem altered_evidence_iff {enclave : ApTeeEnclave} {nonce : Vector UInt8 16} {tick : UInt64}
    (htag : UniqueTag sha256 svc.deviceKey (svc.generateEvidence sha256 enclave nonce tick)) :
    svc.verifyEvidence sha256 (svc.generateEvidence sha256 enclave nonce tick) nonce = .ok () ∧
      ∀ f e', DiffersOnlyIn f (svc.generateEvidence sha256 enclave nonce tick) e' →
        (svc.verifyEvidence sha256 e' nonce = .ok () ↔ f = .platformInfo) := by
  have hgenuine : (svc.generateEvidence sha256 enclave nonce tick).signature =
      svc.signEvidence sha256 (svc.generateEvidence sha256 enclave nonce tick) := rfl
  have hnonce : (svc.generateEvidence sha256 enclave nonce tick).nonce = nonce := rfl
  generalize svc.generateEvidence sha256 enclave nonce tick = e at htag hgenuine hnonce
  refine ⟨verifyEvidence_iff.mpr ⟨hnonce, hgenuine⟩, fun f e' hdiff => ?_⟩
  rw [verifyEvidence_iff]
  by_cases hsigned : f.isSigned
  · -- a signed field: the nonce is compared, the others change the message
    have hplatform : f ≠ .platformInfo := by
      rintro rfl
      cases hsigned
    refine iff_of_false ?_ hplatform
    rintro ⟨-, hsig⟩
    have hmessage : evidenceMessage e' ≠ evidenceMessage e := by
      intro heq
      exact (hdiff f).mp (evidenceMessage_eq_iff.mp heq.symm f hsigned) rfl
    have hsame : e.signature = e'.signature := (hdiff .signature).mpr (by rintro rfl; cases hsigned)
    have hlists := congrArg Vector.toList (hsig.symm.trans (hsame.symm.trans hgenuine))
    unfold AttestationService.signEvidence at hlists
    rw [Vector.toList_append, Vector.toList_append] at hlists
    exact htag e' hmessage (Vector.toList_inj.mp (List.append_inj_left hlists (by simp)))
  · have hmessage : evidenceMessage e = evidenceMessage e' := by
      refine evidenceMessage_eq_iff.mpr fun g hg => (hdiff g).mpr ?_
      rintro rfl
      exact hsigned hg
    have hnonce' : e.nonce = e'.nonce := (hdiff .nonce).mpr (by rintro rfl; exact hsigned rfl)
    rw [← signEvidence_congr hmessage, ← hgenuine, ← hnonce', hnonce]
    constructor
    · rintro ⟨-, hsig⟩
      by_contra hother
      have hfield : f = .signature := by cases f <;> simp_all [Field.isSigned]
      exact (hdiff .signature).mp hsig.symm hfield.symm
    · rintro rfl
      exact ⟨rfl, ((hdiff .signature).mpr (by decide)).symm⟩

/-! ### A service with a hash that knows one message -/

def markHash (message : List UInt8) (x : List UInt8) : Vector UInt8 32 :=
  if x.drop 64 = message ∨ x.drop 64 = List.replicate 32 1 then Vector.replicate 32 1
  else Vector.replicate 32 0

def plainService : AttestationService :=
  ⟨Vector.replicate 32 0, Vector.replicate 512 0, Vector.replicate 16 0,
    ⟨Vector.replicate 16 0, Vector.replicate 16 0, Vector.replicate 16 0, .pmp⟩⟩

def plainEnclave : ApTeeEnclave := ⟨Vector.replicate 64 0, Vector.replicate 32 0, 1⟩

/-- The message of all evidence about the plain enclave at tick 5, whatever its signature. -/
def plainMessage : List UInt8 :=
  evidenceMessage ⟨Vector.replicate 64 0, Vector.replicate 32 0, 1, 5, Vector.replicate 16 0,
    Vector.replicate 64 0, plainService.platformInfo⟩

def plainHash : List UInt8 → Vector UInt8 32 := markHash plainMessage

def plainEvidence : AttestationEvidence :=
  plainService.generateEvidence plainHash plainEnclave (Vector.replicate 16 0) 5

theorem drop_paddedKey (key : Vector UInt8 32) (pad : UInt8) (x : List UInt8) :
    (paddedKey key pad ++ x).drop 64 = x := by
  refine List.drop_left' ?_
  simp [paddedKey]

theorem length_evidenceMessage (e : AttestationEvidence) : (evidenceMessage e).length = 128 := by
  simp [evidenceMessage]

theorem hmac_markHash (key : Vector UInt8 32) :
    hmacSha256Simple (markHash (evidenceMessage e)) key (evidenceMessage e') =
      if evidenceMessage e' = evidenceMessage e then Vector.replicate 32 1
      else Vector.replicate 32 0 := by
  have hmark : evidenceMessage e' ≠ List.replicate 32 1 := by
    intro h
    have hlen := congrArg List.length h
    simp [length_evidenceMessage] at hlen
  have hzeros : ((Vector.replicate 32 0 : Vector UInt8 32).toList) ≠ evidenceMessage e := by
    intro h
    have hlen := congrArg List.length h
    simp [length_evidenceMessage] at hlen
  have hmarked : (Vector.replicate 32 0 : Vector UInt8 32).toList ≠ List.replicate 32 1 := by
    decide
  unfold hmacSha256Simple
  by_cases h : evidenceMessage e' = evidenceMessage e
  · simp [markHash, drop_paddedKey, h]
  · simp only [markHash, drop_paddedKey, h, hmark, or_self, if_false, hzeros, hmarked]

theorem uniqueTag_plain : UniqueTag plainHash plainService.deviceKey plainEvidence := by
  intro e' hne
  have hmessage : plainMessage = evidenceMessage plainEvidence := rfl
  unfold plainHash
  rw [hmessage, hmac_markHash, hmac_markHash, if_neg hne, if_pos rfl]
  decide

/-- Evidence with another time is rejected. -/
theorem altered_timestamp_rejected :
    plainService.verifyEvidence plainHash plainEvidence (Vector.replicate 16 0) = .ok () ∧
      plainService.verifyEvidence plainHash { plainEvidence with timestamp := 6 }
        (Vector.replicate 16 0) ≠ .ok () := by
  have hboth := altered_evidence_iff uniqueTag_plain
  have hdiff : DiffersOnlyIn .timestamp plainEvidence { plainEvidence with timestamp := 6 } := by
    intro g
    cases g <;> simp [Agree, plainEvidence, AttestationService.generateEvidence]
  exact ⟨hboth.1, fun h => absurd ((hboth.2 _ _ hdiff).mp h) (by decide)⟩

/-- Evidence that claims another kind of protection is accepted. -/
theorem altered_platform_accepted : UniqueTag plainHash plainService.deviceKey plainEvidence ∧
      DiffersOnlyIn .platformInfo plainEvidence
        { plainEvidence with
          platformInfo := { plainService.platformInfo with teeType := .keystone } } ∧
      plainService.verifyEvidence plainHash
        { plainEvidence with
          platformInfo := { plainService.platformInfo with teeType := .keystone } }
        (Vector.replicate 16 0) = .ok () := by
  refine ⟨uniqueTag_plain, ?_, verifyEvidence_iff.mpr ⟨rfl, rfl⟩⟩
  intro g
  cases g <;> simp [Agree, plainEvidence, AttestationService.generateEvidence, plainService]

/-! ### Evidence as bytes -/

def TeeType.code : TeeType → Nat
  | pmp => 0
  | epmp => 1
  | keystone => 2

def TeeType.ofCode : Nat → Option TeeType
  | 0 => some pmp
  | 1 => some epmp
  | 2 => some keystone
  | _ => none

/-- `buf[pos..pos + n].copy_from_slice(src); pos += n`; `none` is a panic. -/
def putField (st : Nat × List UInt8) (src : List UInt8) : Option (Nat × List UInt8) :=
  if st.1 + src.length ≤ st.2.length then
    some (st.1 + src.length, st.2.take st.1 ++ src ++ st.2.drop (st.1 + src.length))
  else none

/-- `buf[pos..pos + n]`. -/
def getField (buf : List UInt8) (pos n : Nat) : Option (Vector UInt8 n) :=
  if h : pos + n ≤ buf.length then some ⟨⟨(buf.drop pos).take n⟩, by simp; omega⟩ else none

namespace AttestationEvidence

/-- The fields in the order in which they are written. -/
def fields (e : AttestationEvidence) : List (List UInt8) :=
  [e.enclaveMeasurement.toList, e.signerHash.toList, toLE 4 e.tcbVersion.toNat,
    toLE 8 e.timestamp.toNat, e.nonce.toList, e.signature.toList, e.platformInfo.cpuVendor.toList,
    e.platformInfo.cpuModel.toList, e.platformInfo.fwVersion.toList,
    toLE 4 e.platformInfo.teeType.code]

def serialize (e : AttestationEvidence) (buf : List UInt8) : Option (Nat × List UInt8) :=
  if buf.length < 236 then some (0, buf) else e.fields.foldlM putField (0, buf)

/-- The outer `none` is a panic.  The value that is filled in starts from `qemu_default`. -/
def deserialize (buf : List UInt8) : Option (Option AttestationEvidence) :=
  if buf.length < 236 then some none
  else do
    let _ ← PlatformInfo.qemuDefault .pmp
    let enclaveMeasurement ← getField buf 0 64
    let signerHash ← getField buf 64 32
    let tcbVersion ← getField buf 96 4
    let timestamp ← getField buf 100 8
    let nonce ← getField buf 108 16
    let signature ← getField buf 124 64
    let cpuVendor ← getField buf 188 16
    let cpuModel ← getField buf 204 16
    let fwVersion ← getField buf 220 16
    let teeType ← getField buf 236 4
    return (TeeType.ofCode (ofLE teeType.toList)).map fun teeType =>
      ⟨enclaveMeasurement, signerHash, UInt32.ofNat (ofLE tcbVersion.toList),
        UInt64.ofNat (ofLE timestamp.toList), nonce, signature,
        ⟨cpuVendor, cpuModel, fwVersion, teeType⟩⟩

/-- What is promised for one value and one buffer. -/
def RoundTrips (e : AttestationEvidence) (buf : List UInt8) : Prop :=
  ∃ n out, e.serialize buf = some (n, out) ∧
    (n = 0 ∧ buf.length < 236 ∨ deserialize (out.take n) = some (some e))

theorem foldlM_putField (fields : List (List UInt8)) {pos : Nat} {buf : List UInt8}
    (hpos : pos ≤ buf.length) :
    let stop := pos + (fields.map List.length).sum
    (buf.length < stop ∧ fields.foldlM putField (pos, buf) = none) ∨
      ∃ out, out.length = buf.length ∧ stop ≤ buf.length ∧
        fields.foldlM putField (pos, buf) = some (stop, out) := by
  induction fields generalizing pos buf with
  | nil => exact .inr ⟨buf, rfl, hpos, rfl⟩
  | cons src fields ih =>
    rw [List.foldlM_cons, List.map_cons, List.sum_cons, ← Nat.add_assoc, putField]
    by_cases hfits : pos + src.length ≤ buf.length
    · rw [if_pos hfits]
      have hlen : (buf.take pos ++ src ++ buf.drop (pos + src.length)).length = buf.length := by
        simp
        omega
      have h := ih (Nat.le_trans hfits (Nat.le_of_eq hlen.symm))
      rwa [hlen] at h
    · rw [if_neg hfits]
      exact .inl ⟨by omega, rfl⟩

theorem deserialize_eq_none_iff (buf : List UInt8) :
    deserialize buf = none ↔ 236 ≤ buf.length := by
  unfold deserialize
  split
  · next h => exact iff_of_false (by simp) (Nat.not_le_of_lt h)
  · next h => exact iff_of_true rfl (Nat.le_of_not_lt h)

/-- **Evidence does not survive the round trip.**  The fields have 240 bytes and only 236 are
    checked for: writing panics in a buffer in between, and reading always panics. -/
theorem evidence_round_trip_iff (e : AttestationEvidence) (buf : List UInt8) :
    (e.serialize buf = none ↔ 236 ≤ buf.length ∧ buf.length < 240) ∧
      (deserialize buf = none ↔ 236 ≤ buf.length) ∧ (RoundTrips e buf ↔ buf.length < 236) := by
  have hsum : 0 + (e.fields.map List.length).sum = 240 := by simp [fields]
  have hputs := foldlM_putField e.fields (Nat.zero_le buf.length)
  rw [hsum] at hputs
  unfold RoundTrips serialize
  refine and_left_comm.mp ⟨deserialize_eq_none_iff buf, ?_⟩
  by_cases hshort : buf.length < 236
  · rw [if_pos hshort]
    exact ⟨iff_of_false (by simp) (by omega), iff_of_true ⟨0, buf, rfl, .inl ⟨rfl, hshort⟩⟩ hshort⟩
  rw [if_neg hshort]
  rcases hputs with ⟨hlt, hnone⟩ | ⟨out, hlen, hle, hsome⟩
  · rw [hnone]
    refine ⟨iff_of_true rfl ⟨by omega, hlt⟩, iff_of_false ?_ hshort⟩
    rintro ⟨_, _, hrun, -⟩
    cases hrun
  · rw [hsome]
    refine ⟨iff_of_false (by simp) (by omega), iff_of_false ?_ hshort⟩
    rintro ⟨_, _, hrun, h⟩
    cases hrun
    have hpanic : deserialize (out.take 240) = none := by
      rw [deserialize_eq_none_iff, List.length_take]
      omega
    rw [hpanic] at h
    rcases h with ⟨hzero, -⟩ | hread
    · cases hzero
    · cases hread

/-- All zeros, and long enough for every field. -/
theorem zeros_panic : deserialize (List.replicate 240 0) = none :=
  (deserialize_eq_none_iff _).mpr (by rw [List.length_replicate]; decide)

end AttestationEvidence

end TrainOS.Attestation
