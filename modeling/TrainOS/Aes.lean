import Mathlib.Algebra.Group.Nat.Defs
import Mathlib.Data.List.GetD
import Mathlib.Tactic.Common

/-!
# AES keys and Galois counter mode (`crypto/aes.rs`)

The table of the key expansion is indexed with whole words, so that every key panics
(`aes_context_panics`).  The mode itself is studied for an arbitrary block cipher: what was
encrypted is decrypted again (`gcm_opens_sealed`), but the tag is masked with the first block of
the key stream (`cipher_inputs_distinct_iff`).  Arrays of bytes of a fixed size are bit vectors,
the first byte at the highest place.
-/

namespace TrainOS.Aes

open List

abbrev Byte := BitVec 8

abbrev Word := BitVec 32

abbrev Block := BitVec 128

/-! ### Key expansion -/

def SBOX : BitVec 2048 :=
  0x637c777bf26b6fc53001672bfed7ab76ca82c97dfa5947f0add4a2af9ca472c0#256 ++
  0xb7fd9326363ff7cc34a5e5f171d8311504c723c31896059a071280e2eb27b275#256 ++
  0x09832c1a1b6e5aa0523bd6b329e32f8453d100ed20fcb15b6acbbe394a4c58cf#256 ++
  0xd0efaafb434d338545f9027f503c9fa851a3408f929d38f5bcb6da2110fff3d2#256 ++
  0xcd0c13ec5f974417c4a77e3d645d197360814fdc222a908846eeb814de5e0bdb#256 ++
  0xe0323a0a4906245cc2d3ac629195e479e7c8376d8dd54ea96c56f4ea657aae08#256 ++
  0xba78252e1ca6b4c6e8dd741f4bbd8b8a703eb5664803f60e613557b986c11d9e#256 ++
  0xe1f8981169d98e949b1e87e9ce5528df8ca1890dbfe6426841992d0fb054bb16#256

/-- The index is not cut to a byte, and out of bounds it panics. -/
def sbox (i : Word) : Option Byte :=
  if i.toNat < 256 then some (SBOX.extractLsb' (8 * (255 - i.toNat)) 8) else none

def subWord (w : Word) : Option Word := do
  return (← sbox (w >>> 24)) ++ (← sbox (w >>> 16)) ++ (← sbox (w >>> 8)) ++ (← sbox w)

def rotWord (w : Word) : Word := w <<< 8 ||| w >>> 24

def RCON : List Word := [0, 0x01, 0x02, 0x04, 0x08, 0x10, 0x20, 0x40, 0x80, 0x1b, 0x36]

def subRotWord (w : Word) (round : Nat) : Option Word := do
  return (← subWord (rotWord w)) ^^^ (← RCON[round]?)

def temp128 (rk : Nat → Word) (i : Nat) : Option Word :=
  if i % 4 = 0 then subRotWord (rk (i - 1)) (i / 4) else some (rk (i - 1))

def temp256 (rk : Nat → Word) (i : Nat) : Option Word :=
  if i % 8 = 0 then subRotWord (rk (i - 1)) (i / 8)
  else if i % 8 = 4 then subWord (rk (i - 1))
  else some (rk (i - 1))

/-- The loop from word `nk` on.  The array is the part of the function below 60, and `temp` is
    combined with the word of the key before. -/
def expandKey {k : Nat} (temp : (Nat → BitVec k) → Nat → Option (BitVec k)) (nk count : Nat)
    (rk : Nat → BitVec k) : Option (Nat → BitVec k) :=
  (range' nk count).foldlM
    (fun rk i => (temp rk i).map fun t => Function.update rk i (rk (i - nk) ^^^ t)) rk

/-- The round keys; the loop that makes the inverse round keys of them comes after this one. -/
def new128 (key : BitVec 128) : Option (Nat → Word) :=
  expandKey temp128 4 40 (((range 4).map fun i => key.extractLsb' (96 - 32 * i) 32).getD · 0)

def new256 (key : BitVec 256) : Option (Nat → Word) :=
  expandKey temp256 8 52 (((range 8).map fun i => key.extractLsb' (224 - 32 * i) 32).getD · 0)

/-- The lowest bit of a word's third byte. -/
def mark (w : Word) : BitVec 1 := w.extractLsb' 8 1

theorem extract_eq_zero {v : Word} {i : Nat} (h : v.toNat < 2 ^ i) : v.extractLsb' i 1 = 0 := by
  apply BitVec.eq_of_toNat_eq
  rw [BitVec.extractLsb'_toNat, Nat.shiftRight_eq_zero _ _ h]
  rfl

theorem mark_of_rotWord {v : Word} (h : (rotWord v).toNat < 256) : mark v = 0 := by
  have hbit : mark v = (rotWord v).extractLsb' 16 1 := by
    unfold mark rotWord
    grind
  rw [hbit]
  exact extract_eq_zero (Nat.lt_trans h (by decide))

/-- The bytes before the last are looked up at 0, where the table has an odd entry. -/
theorem subWord_spec {v w : Word} (h : subWord v = some w) : v.toNat < 256 ∧ mark w = 1 := by
  simp only [subWord, Option.bind_eq_bind, Option.bind_eq_some_iff] at h
  obtain ⟨a, -, b, -, c, hc, d, hd, heq⟩ := h
  cases heq
  have hv : v.toNat < 256 := by
    by_contra hge
    simp [sbox, hge] at hd
  have hzero : v >>> 8 = 0 := BitVec.eq_of_toNat_eq (Nat.shiftRight_eq_zero _ _ hv)
  have hentry : sbox 0 = some 0x63 := by decide +kernel
  rw [hzero, hentry] at hc
  cases hc
  refine ⟨hv, ?_⟩
  unfold mark
  grind

theorem mark_xor {v w : Word} : mark (v ^^^ w) = mark v ^^^ mark w := BitVec.extractLsb'_xor

theorem subRotWord_spec {v t : Word} {round : Nat} (h : subRotWord v round = some t) :
    mark v = 0 ∧ mark t = 1 := by
  have hrcon : ∀ j (hj : j < RCON.length), mark RCON[j] = 0 := by decide
  simp only [subRotWord, Option.bind_eq_bind, Option.bind_eq_some_iff] at h
  obtain ⟨w, hw, c, hc, heq⟩ := h
  cases heq
  obtain ⟨hj, rfl⟩ := List.getElem?_eq_some_iff.mp hc
  obtain ⟨hsmall, hmark⟩ := subWord_spec hw
  rw [mark_xor, hmark, hrcon round hj]
  exact ⟨mark_of_rotWord hsmall, rfl⟩

/-- What the marks do: before every fourth word stands one that has none, or the expansion
    panics. -/
def tempMark (m : Nat → BitVec 1) (i : Nat) : Option (BitVec 1) :=
  if i % 4 = 0 then if m (i - 1) = 0 then some 1 else none else some (m (i - 1))

section

variable {rk : Nat → Word} {i : Nat} {t : Word}

theorem tempMark_128 (h : temp128 rk i = some t) : tempMark (mark ∘ rk) i = some (mark t) := by
  unfold temp128 at h
  unfold tempMark
  split at h
  · next hi =>
    obtain ⟨hbefore, hmark⟩ := subRotWord_spec h
    rw [if_pos hi, Function.comp_apply, if_pos hbefore, hmark]
  · next hi =>
    cases h
    rw [if_neg hi]
    rfl

theorem tempMark_256 (h : temp256 rk i = some t) : tempMark (mark ∘ rk) i = some (mark t) := by
  unfold temp256 at h
  unfold tempMark
  split at h
  · obtain ⟨hbefore, hmark⟩ := subRotWord_spec h
    rw [if_pos (by omega), Function.comp_apply, if_pos hbefore, hmark]
  split at h
  · obtain ⟨hsmall, hmark⟩ := subWord_spec h
    have hbefore : mark (rk (i - 1)) = 0 := extract_eq_zero (i := 8) hsmall
    rw [if_pos (by omega), Function.comp_apply, if_pos hbefore, hmark]
  · cases h
    rw [if_neg (by omega)]
    rfl

theorem expandKey_mark {temp : (Nat → Word) → Nat → Option Word} {nk count : Nat} {w : Nat → Word}
    (htemp : ∀ rk i t, temp rk i = some t → tempMark (mark ∘ rk) i = some (mark t))
    (h : expandKey temp nk count rk = some w) :
    expandKey tempMark nk count (mark ∘ rk) = some (mark ∘ w) := by
  unfold expandKey at h ⊢
  generalize range' nk count = is at h ⊢
  induction is generalizing rk with
  | nil =>
    cases h
    rfl
  | cons i is ih =>
    simp only [foldlM_cons, Option.bind_eq_bind, Option.bind_eq_some_iff,
      Option.map_eq_some_iff] at h
    obtain ⟨_, ⟨t, ht, rfl⟩, hrest⟩ := h
    rw [foldlM_cons, htemp rk i t ht, ← ih hrest, Function.comp_update, mark_xor]
    rfl

end

/-- **No key can be expanded.** -/
theorem aes_context_panics (key : BitVec 128) (key' : BitVec 256) :
    new128 key = none ∧ new256 key' = none := by
  have hmarks128 : ∀ a b c d : BitVec 1,
      expandKey tempMark 4 40 ([a, b, c, d].getD · 0) = none := by decide +kernel
  have hmarks256 : ∀ a b c d e f g h : BitVec 1,
      expandKey tempMark 8 52 ([a, b, c, d, e, f, g, h].getD · 0) = none := by decide +kernel
  have hgetD (l : List Word) : mark ∘ (l.getD · 0) = ((l.map mark).getD · 0) :=
    funext fun _ => (getD_map _ _ _).symm
  constructor
  all_goals refine Option.eq_none_iff_forall_ne_some.mpr fun w hw => ?_
  · have hrun := expandKey_mark (fun _ _ _ => tempMark_128) hw
    rw [hgetD] at hrun
    cases (hmarks128 _ _ _ _).symm.trans hrun
  · have hrun := expandKey_mark (fun _ _ _ => tempMark_256) hw
    rw [hgetD] at hrun
    cases (hmarks256 _ _ _ _ _ _ _ _).symm.trans hrun

/-- The expansion of these keys ends when the last word of the second key is looked up. -/
theorem zero_key_panics : new128 0 = none ∧ new256 0 = none := by decide +kernel

/-! ### Galois counter mode -/

def toBytes (x : Block) : List Byte := (range 16).map fun j => x.extractLsb' (8 * (15 - j)) 8

def ofBytes (chunk : List Byte) : Block :=
  (range 16).foldl (fun x j => x <<< 8 ||| (chunk.getD j 0).setWidth 128) 0

def gf128Mul (x y : Block) : Block :=
  ((range 128).foldl (fun (z, v) i => (if x.getMsbD i then z ^^^ v else z,
    if v.getLsbD 0 then v >>> 1 ^^^ 0xe1 <<< 120 else v >>> 1)) (0, y)).1

def ghashChunks (h y : Block) (data : List Byte) : Block :=
  (data.toChunks 16).foldl (fun y chunk => gf128Mul (y ^^^ ofBytes chunk) h) y

def ghashAuthentication (h : Block) (ciphertext aad : List Byte) : Block :=
  let y := ghashChunks h (ghashChunks h 0 aad) ciphertext
  gf128Mul (y ^^^ (BitVec.ofNat 64 (aad.length * 8) ++ BitVec.ofNat 64 (ciphertext.length * 8))) h

section Mode

variable {m : Type → Type} [Monad m] (encryptBlock : Block → m Block) (nonce : BitVec 96)

def keystream : Nat → Word → m (List Byte)
  | 0, _ => return []
  | n + 1, counter => do
      let block ← encryptBlock (nonce ++ counter)
      return toBytes block ++ (← keystream n (counter + 1))

/-- A block of the key stream for each block of the text that is begun. -/
def encryptCtr (text : List Byte) : m (List Byte) := do
  return text.zipWith (· ^^^ ·) (← keystream encryptBlock nonce ((text.length + 15) / 16) 1)

variable (h : Block) (aad : List Byte)

/-- `h` are the first four round keys. -/
def encryptGcm (plaintext : List Byte) : m (List Byte × Block) := do
  let ciphertext ← encryptCtr encryptBlock nonce plaintext
  let tagMask ← encryptBlock (nonce ++ 1#32)
  return (ciphertext, ghashAuthentication h ciphertext aad ^^^ tagMask)

def decryptGcm (ciphertext : List Byte) (tag : Block) : m (Option (List Byte)) := do
  let tagMask ← encryptBlock (nonce ++ 1#32)
  let expectedTag := ghashAuthentication h ciphertext aad ^^^ tagMask
  if (toBytes (tag ^^^ expectedTag)).foldl (· ||| ·) 0 ≠ 0 then return none
  return some (← encryptCtr encryptBlock nonce ciphertext)

end Mode

section Opening

variable (encryptBlock : Block → Id Block) (nonce : BitVec 96)

theorem length_keystream (n : Nat) (counter : Word) :
    (keystream encryptBlock nonce n counter).run.length = 16 * n := by
  induction n generalizing counter with
  | zero => rfl
  | succ n ih =>
    have hunfold : (keystream encryptBlock nonce (n + 1) counter).run =
        toBytes (encryptBlock (nonce ++ counter)) ++
          (keystream encryptBlock nonce n (counter + 1)).run := rfl
    rw [hunfold, length_append, ih, toBytes, length_map, length_range]
    omega

theorem encryptCtr_encryptCtr (text : List Byte) :
    (encryptCtr encryptBlock nonce (encryptCtr encryptBlock nonce text).run).run = text := by
  have hunfold (x : List Byte) : (encryptCtr encryptBlock nonce x).run = x.zipWith (· ^^^ ·)
      (keystream encryptBlock nonce ((x.length + 15) / 16) 1).run := rfl
  have hkeys := length_keystream encryptBlock nonce ((text.length + 15) / 16) 1
  have hlen : (encryptCtr encryptBlock nonce text).run.length = text.length := by
    rw [hunfold, length_zipWith, hkeys]
    omega
  rw [hunfold (encryptCtr encryptBlock nonce text).run, hlen, hunfold]
  apply ext_getElem
  · rw [length_zipWith, length_zipWith, hkeys]
    omega
  · intro i _ _
    simp only [getElem_zipWith]
    rw [BitVec.xor_assoc, BitVec.xor_self, BitVec.xor_zero]

theorem foldl_or_eq_zero {l : List Byte} {a : Byte} :
    l.foldl (· ||| ·) a = 0 ↔ a = 0 ∧ ∀ b ∈ l, b = 0 := by
  induction l generalizing a with
  | nil => simp
  | cons b l ih =>
    rw [foldl_cons, ih, forall_mem_cons, ← and_assoc]
    exact and_congr_left' BitVec.or_eq_zero_iff

theorem diff_eq_zero {x : Block} : (toBytes x).foldl (· ||| ·) 0 = 0 ↔ x = 0 := by
  refine ⟨fun h => BitVec.eq_of_getLsbD_eq fun k hk => ?_, fun h => by rw [h]; rfl⟩
  have hmem : x.extractLsb' (8 * (15 - (15 - k / 8))) 8 ∈ toBytes x :=
    mem_map.mpr ⟨15 - k / 8, mem_range.mpr (by omega), rfl⟩
  have hbit := congrArg (·.getLsbD (k % 8)) ((foldl_or_eq_zero.mp h).2 _ hmem)
  have hplace : 8 * (15 - (15 - k / 8)) + k % 8 = k := by omega
  simpa [hplace, Nat.mod_lt] using hbit

/-- **What was sealed is opened**, and nothing else. -/
theorem gcm_opens_sealed (h : Block) (aad : List Byte) :
    (∀ plaintext, decryptGcm encryptBlock nonce h aad
      (encryptGcm encryptBlock nonce h aad plaintext).run.1
      (encryptGcm encryptBlock nonce h aad plaintext).run.2 = some plaintext) ∧
    ∀ ciphertext tag opened, decryptGcm encryptBlock nonce h aad ciphertext tag = some opened ↔
      opened = encryptCtr encryptBlock nonce ciphertext ∧
        tag = (encryptGcm encryptBlock nonce h aad opened).run.2 := by
  -- the bytes of the tags differ in no place exactly if the tags are equal
  have hopen (ciphertext : List Byte) (tag : Block) :
      decryptGcm encryptBlock nonce h aad ciphertext tag =
        if tag = ghashAuthentication h ciphertext aad ^^^ (encryptBlock (nonce ++ 1#32)).run then
          some (encryptCtr encryptBlock nonce ciphertext).run
        else none := by
    exact (ite_not ..).trans (if_congr (diff_eq_zero.trans BitVec.xor_eq_zero_iff) rfl rfl)
  refine ⟨fun plaintext => ?_, fun ciphertext tag opened => ?_⟩
  · refine (hopen _ _).trans ((if_pos rfl).trans ?_)
    exact congrArg some (encryptCtr_encryptCtr encryptBlock nonce plaintext)
  · have htag : (encryptGcm encryptBlock nonce h aad
        (encryptCtr encryptBlock nonce ciphertext).run).run.2 =
          ghashAuthentication h ciphertext aad ^^^ (encryptBlock (nonce ++ 1#32)).run := by
      show ghashAuthentication h (encryptCtr encryptBlock nonce _).run aad ^^^ _ = _
      rw [encryptCtr_encryptCtr]
      rfl
    rw [hopen]
    constructor
    · intro hsome
      split at hsome
      · next hsame =>
        cases hsome
        exact ⟨rfl, hsame.trans htag.symm⟩
      · cases hsome
    · rintro ⟨rfl, rfl⟩
      exact if_pos htag

end Opening

/-- The cipher, with a record of the blocks it was given. -/
def recording (encryptBlock : Block → Block) (block : Block) : StateM (List Block) Block := do
  modify (· ++ [block])
  return encryptBlock block

def cipherInputs (encryptBlock : Block → Block) (nonce : BitVec 96) (h : Block)
    (aad plaintext : List Byte) : List Block :=
  ((encryptGcm (recording encryptBlock) nonce h aad plaintext).run []).2

theorem prefix_keystream (encryptBlock : Block → Block) (nonce : BitVec 96) (n : Nat)
    (counter : Word) (inputs : List Block) :
    inputs <+: ((keystream (recording encryptBlock) nonce n counter).run inputs).2 := by
  induction n generalizing counter inputs with
  | zero => exact prefix_rfl
  | succ n ih =>
    exact (prefix_append inputs _).trans (ih (counter + 1) (inputs ++ [nonce ++ counter]))

/-- **The first counter block masks the tag**, so that the inputs are distinct only if there is
    no counter block. -/
theorem cipher_inputs_distinct_iff (encryptBlock : Block → Block) (nonce : BitVec 96) (h : Block)
    (aad plaintext : List Byte) :
    (cipherInputs encryptBlock nonce h aad plaintext).Nodup ↔ plaintext = [] := by
  constructor
  · intro hnodup
    by_contra hne
    have hblocks : (plaintext.length + 15) / 16 = (plaintext.length - 1) / 16 + 1 := by
      have := length_pos_iff.mpr hne
      omega
    have hinputs : cipherInputs encryptBlock nonce h aad plaintext =
        ((keystream (recording encryptBlock) nonce ((plaintext.length + 15) / 16) 1).run []).2 ++
          [nonce ++ 1#32] := rfl
    rw [hinputs, hblocks] at hnodup
    have hfirst : nonce ++ 1#32 ∈ _ := (prefix_keystream encryptBlock nonce
      ((plaintext.length - 1) / 16) 2 [nonce ++ 1#32]).mem mem_cons_self
    exact (nodup_append.mp hnodup).2.2 _ hfirst _ mem_cons_self rfl
  · rintro rfl
    exact nodup_cons.mpr ⟨not_mem_nil, nodup_nil⟩

/-- One byte is encrypted with the block that masks its tag. -/
theorem mask_block_reused : cipherInputs id 0 0 [] [0] = [1, 1] := by decide +kernel

end TrainOS.Aes
