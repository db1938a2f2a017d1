import Mathlib.Data.List.InsertIdx

/-!
# Sealed storage (`security/secure_storage.rs`)

Enclaves seal data under an id and unseal it again.  The id is a position in the table, and
`delete` moves the later blobs down, so an id keeps its blob exactly as long as nothing but the
last blob is deleted (`sealed_storage_iff`).  The block cipher, the tag's hash and SHA-256 are
parameters.
-/

namespace TrainOS.SecureStorage

open Function

def MAX_SEALED_BLOBS : Nat := 64

def SEALED_DATA_SIZE : Nat := 256

/-- The fields of an enclave that storage reads. -/
@[ext] structure ApTeeEnclave where
  enclaveId : UInt32
  measurement : Vector UInt8 64
deriving DecidableEq

/-- `data` holds the first `data_len` bytes of the source's array. -/
structure SealedBlob extends ApTeeEnclave where
  data : List UInt8
  iv : Vector UInt8 16
  tag : Vector UInt8 16
  creationTime : UInt64
  accessCount : UInt64

/-- Functions of the key and of byte strings. -/
structure Crypto where
  sha256 : List UInt8 → Vector UInt8 32
  encryptBlock : List UInt8 → List UInt8 → Vector UInt8 16
  ghashAuthentication : List UInt8 → List UInt8 → List UInt8 → Vector UInt8 16

/-! ### The cipher's mode (`crypto/aes.rs`) -/

section Storage

variable (c : Crypto)

def counterBlock (nonce : List UInt8) (counter : UInt32) : List UInt8 :=
  nonce ++ ([24, 16, 8, 0] : List UInt32).map fun k => (counter >>> k).toUInt8

/-- Block `k` of the text is combined with the key stream of counter `k + 1`. -/
def Crypto.encryptCtr (key text nonce : List UInt8) : List UInt8 :=
  text.mapIdx fun i b =>
    b ^^^ (c.encryptBlock key (counterBlock nonce (.ofNat (i / 16 + 1)))).get
      ⟨i % 16, Nat.mod_lt i (by decide)⟩

def Crypto.finalTag (key ciphertext nonce aad : List UInt8) : Vector UInt8 16 :=
  (c.ghashAuthentication key ciphertext aad).zipWith (· ^^^ ·)
    (c.encryptBlock key (counterBlock nonce 1))

def Crypto.encryptGcm (key plaintext nonce aad : List UInt8) : List UInt8 × Vector UInt8 16 :=
  let ciphertext := c.encryptCtr key plaintext nonce
  (ciphertext, c.finalTag key ciphertext nonce aad)

def Crypto.decryptGcm (key ciphertext nonce aad : List UInt8) (tag : Vector UInt8 16) :
    Option (List UInt8) :=
  if tag = c.finalTag key ciphertext nonce aad then some (c.encryptCtr key ciphertext nonce)
  else none

/-! ### Storage -/

def deriveSealingKey (measurement : Vector UInt8 64) (iv : Vector UInt8 16) : List UInt8 :=
  (c.sha256 (measurement.toList ++ iv.toList ++
    "TEE-SEALING-v1".toList.map fun ch => .ofNat ch.toNat)).toList

/-- Returns the blob's id; `iv` is what the entropy source delivers. -/
def storageSeal (s : List SealedBlob) (enclave : ApTeeEnclave) (data : List UInt8)
    (iv : Vector UInt8 16) (tick : UInt64) : Except String (Nat × List SealedBlob) :=
  if MAX_SEALED_BLOBS ≤ s.length then .error "secure storage full"
  else if data = [] ∨ SEALED_DATA_SIZE < data.length then .error "invalid data length"
  else
    let (ct, tag) := c.encryptGcm ((deriveSealingKey c enclave.measurement iv).take 16) data
      (iv.toList.take 12) enclave.measurement.toList
    .ok (s.length, s ++ [⟨enclave, ct.take SEALED_DATA_SIZE, iv, tag, tick, 0⟩])

def SealedBlob.decrypt (b : SealedBlob) (measurement : Vector UInt8 64) : Option (List UInt8) :=
  c.decryptGcm ((deriveSealingKey c measurement b.iv).take 16) b.data (b.iv.toList.take 12)
    measurement.toList b.tag

def storageUnseal (s : List SealedBlob) (enclave : ApTeeEnclave) (blobId : Nat) :
    Option (List UInt8) × List SealedBlob :=
  match s[blobId]? with
  | none => (none, s)
  | some blob =>
    if blob.measurement ≠ enclave.measurement then (none, s)
    else if blob.enclaveId ≠ enclave.enclaveId then (none, s)
    else
      match blob.decrypt c enclave.measurement with
      | some plaintext =>
        (some (plaintext.take SEALED_DATA_SIZE),
          s.set blobId { blob with accessCount := blob.accessCount + 1 })
      | none => (none, s)

/-- Out of range nothing is deleted. -/
def storageDelete (s : List SealedBlob) (blobId : Nat) : List SealedBlob := s.eraseIdx blobId

/-! ### Runs -/

inductive Call where
  | storageSeal (enclave : ApTeeEnclave) (data : List UInt8) (iv : Vector UInt8 16) (tick : UInt64)
  | storageUnseal (enclave : ApTeeEnclave) (blobId : Nat)
  | storageDelete (blobId : Nat)

/-- The storage, and what was sealed by whom under the ids not deleted since. -/
structure System where
  storage : List SealedBlob
  ledger : Nat → Option (ApTeeEnclave × List UInt8)

def System.new : System := ⟨[], fun _ => none⟩

def Call.exec (sys : System) : Call → System
  | .storageSeal enclave data iv tick =>
    match SecureStorage.storageSeal c sys.storage enclave data iv tick with
    | .ok (id, storage) => ⟨storage, update sys.ledger id (some (enclave, data))⟩
    | .error _ => sys
  | .storageUnseal enclave id =>
    { sys with storage := (SecureStorage.storageUnseal c sys.storage enclave id).2 }
  | .storageDelete id => ⟨SecureStorage.storageDelete sys.storage id, update sys.ledger id none⟩

/-- The owner of an id gets what was sealed, and nobody gets anything else. -/
def Faithful (sys : System) : Prop :=
  ∀ enclave id, (storageUnseal c sys.storage enclave id).1 =
    (sys.ledger id).bind fun (owner, data) => if owner = enclave then some data else none

/-- The call deletes no blob but the last. -/
def Call.DeletesLast (sys : System) : Call → Prop
  | .storageDelete id => sys.storage.length ≤ id + 1
  | _ => True

/-- Each call of the run satisfies `P`. -/
def Along (P : System → Call → Prop) : System → List Call → Prop
  | _, [] => True
  | sys, call :: calls => P sys call ∧ Along P (call.exec c sys) calls

/-! ### One blob -/

variable {c}

theorem encryptCtr_encryptCtr (key text nonce : List UInt8) :
    c.encryptCtr key (c.encryptCtr key text nonce) nonce = text := by
  apply List.ext_getElem
  · simp [Crypto.encryptCtr]
  · intro i h1 h2
    simp only [Crypto.encryptCtr, List.getElem_mapIdx]
    rw [UInt8.xor_assoc, UInt8.xor_self, UInt8.xor_zero]

/-- The owner and the bytes that it gets. -/
def SealedBlob.entry (c : Crypto) (b : SealedBlob) : Option (ApTeeEnclave × List UInt8) :=
  (b.decrypt c b.measurement).map fun plaintext =>
    (b.toApTeeEnclave, plaintext.take SEALED_DATA_SIZE)

theorem storageUnseal_fst (s : List SealedBlob) (enclave : ApTeeEnclave) (id : Nat) :
    (storageUnseal c s enclave id).1 = ((s.map (SealedBlob.entry c))[id]?.join).bind
      fun (owner, data) => if owner = enclave then some data else none := by
  rw [storageUnseal, List.getElem?_map]
  rcases s[id]? with _ | b
  · rfl
  obtain ⟨eid, m⟩ := enclave
  simp only [SealedBlob.entry, Option.map_some, Option.join_some, ApTeeEnclave.ext_iff]
  by_cases hm : b.measurement = m
  · subst hm
    cases b.decrypt c b.measurement <;> by_cases hid : b.enclaveId = eid <;> simp [hid]
  · rw [if_pos hm]
    cases b.decrypt c b.measurement <;> simp [hm]

theorem storageUnseal_snd (s : List SealedBlob) (enclave : ApTeeEnclave) (id : Nat) :
    (storageUnseal c s enclave id).2.map (SealedBlob.entry c) = s.map (SealedBlob.entry c) := by
  rw [storageUnseal]
  split
  · rfl
  rename_i b hb
  split_ifs
  · rfl
  · rfl
  split
  · obtain ⟨hlt, rfl⟩ := List.getElem?_eq_some_iff.mp hb
    calc (s.set id { s[id] with accessCount := s[id].accessCount + 1 }).map (SealedBlob.entry c)
        = (s.set id s[id]).map (SealedBlob.entry c) := by
          rw [List.map_set, List.map_set]
          rfl
      _ = s.map (SealedBlob.entry c) := by rw [List.set_getElem_self]
  · rfl

/-! ### Runs -/

/-- Each blob opens, to what the ledger has under its id. -/
def Inv (c : Crypto) (sys : System) : Prop :=
  ∃ entries : List (ApTeeEnclave × List UInt8),
    sys.storage.map (SealedBlob.entry c) = entries.map some ∧ ∀ id, sys.ledger id = entries[id]?

variable {sys : System}

theorem Inv.faithful (h : Inv c sys) : Faithful c sys := by
  obtain ⟨entries, hopen, hledger⟩ := h
  intro enclave id
  rw [storageUnseal_fst, hopen, hledger, List.getElem?_map]
  cases entries[id]? <;> rfl

/-- The deletion of an earlier blob leaves the next one under the deleted id. -/
theorem Inv.exec (h : Inv c sys) (call : Call) :
    call.DeletesLast sys ∧ Inv c (call.exec c sys) ∨
      ¬ call.DeletesLast sys ∧ ¬ Faithful c (call.exec c sys) := by
  obtain ⟨entries, hopen, hledger⟩ := id h
  have hlen : sys.storage.length = entries.length := by simpa using congrArg List.length hopen
  cases call with
  | storageSeal enclave data iv tick =>
    refine .inl ⟨trivial, ?_⟩
    rw [Call.exec, storageSeal]
    split_ifs with hfull hsize
    · exact h
    · exact h
    have hdata : data.length ≤ SEALED_DATA_SIZE := by omega
    refine ⟨entries ++ [(enclave, data)], ?_, fun id => ?_⟩
    · have hwhole (key nonce) : (c.encryptCtr key data nonce).take SEALED_DATA_SIZE = _ :=
        List.take_of_length_le (by simpa [Crypto.encryptCtr] using hdata)
      simp [hopen, SealedBlob.entry, SealedBlob.decrypt, Crypto.encryptGcm, Crypto.decryptGcm,
        encryptCtr_encryptCtr, hwhole, List.take_of_length_le hdata]
    · grind [update_apply]
  | storageUnseal enclave id =>
    exact .inl ⟨trivial, entries, (storageUnseal_snd ..).trans hopen, hledger⟩
  | storageDelete id =>
    have herase : (storageDelete sys.storage id).map (SealedBlob.entry c) =
        (entries.eraseIdx id).map some := by
      rw [storageDelete, ← List.eraseIdx_map, hopen, List.eraseIdx_map]
    rcases Nat.lt_or_ge (id + 1) entries.length with hinner | hlast
    · refine .inr ⟨by rw [Call.DeletesLast]; omega, fun hkept => ?_⟩
      have hnone := hkept (entries[id + 1]).1 id
      simp only [storageUnseal_fst, Call.exec, herase] at hnone
      simp [List.getElem?_eraseIdx, hinner] at hnone
    · refine .inl ⟨by rwa [Call.DeletesLast, hlen], entries.eraseIdx id, herase, fun j => ?_⟩
      simp only [Call.exec]
      grind [update_apply]

/-- **Sealed storage**: along a run, an id keeps denoting the blob that was sealed under it until
    it is deleted, its owner unseals exactly the bytes that were sealed and everybody else fails,
    exactly if the run deletes no blob but the last. -/
theorem sealed_storage_iff (c : Crypto) (calls : List Call) :
    Along c (fun sys call => Faithful c (call.exec c sys)) System.new calls ↔
      Along c (fun sys call => call.DeletesLast sys) System.new calls := by
  have hnew : Inv c System.new := ⟨[], rfl, fun _ => rfl⟩
  generalize System.new = sys at hnew ⊢
  induction calls generalizing sys with
  | nil => rfl
  | cons call calls ih =>
    rcases hnew.exec call with ⟨hlast, hnext⟩ | ⟨hinner, hbroken⟩
    · exact and_congr (iff_of_true hnext.faithful hlast) (ih _ hnext)
    · exact iff_of_false (fun h => hbroken h.1) (fun h => hinner h.1)

def anyCrypto : Crypto :=
  ⟨fun _ => .replicate 32 0, fun _ _ => .replicate 16 0, fun _ _ _ => .replicate 16 0⟩

/-- Enclave 2 finds its blob under the deleted id 0. -/
theorem sealed_id_moves :
    ¬ Along anyCrypto (fun sys call => Faithful anyCrypto (call.exec anyCrypto sys)) System.new
      [.storageSeal ⟨1, .replicate 64 0⟩ [7] (.replicate 16 0) 0,
        .storageSeal ⟨2, .replicate 64 0⟩ [9] (.replicate 16 0) 0, .storageDelete 0] := by
  rintro ⟨-, -, hkept, -⟩
  exact absurd (hkept ⟨2, .replicate 64 0⟩ 0) (by decide +kernel)

end Storage

end TrainOS.SecureStorage
