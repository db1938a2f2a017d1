import Mathlib.Data.List.FinRange

/-!
# The SM4 block cipher (`crypto/sm.rs`)

Decryption runs the rounds of encryption with the keys in the opposite order.  A round on the
reversed words undoes the round before, whatever its key is (`round_reverse`).
-/

namespace TrainOS.Sm4

abbrev Word := BitVec 32

/-- The entries one after the other, the first one at the highest place. -/
def SM4_SBOX : BitVec 2048 :=
  0xd690e9fecce13db716b614c228fb2c052b679a762abe04c3aa44132649860699#256 ++
  0x9c4250f491ef987a33540b43edcfac62e4b31ca9c908e89580df94fa758f3fa6#256 ++
  0x4707a7fcf37317ba83593c19e6854fa8686b81b27164da8bf8eb0f4b70569d35#256 ++
  0x1e240e5e6358d1a225227c3b01217887d40046579fd327524c3602e7a0c4c89e#256 ++
  0xeabf8ad240c738b5a3f7f2cef96115a1e0ae5da49b341a55ad933230f58cb1e3#256 ++
  0x1df6e22e8266ca60c02923ab0d534e6fd5db3745defd8e2f03ff6a726d6c5b51#256 ++
  0x8d1baf92bbddbc7f11d95c411f105ad80ac13188a5cd7bbd2d74d012b8e5b4b0#256 ++
  0x8969974a0c96777e65b9f109c56ec68418f07dec3adc4d2079ee5f3ed7cb3948#256

def SM4_FK : BitVec 128 := 0xa3b1bac656aa3350677d9197b27022dc

def SM4_CK : BitVec 1024 :=
  0x00070e151c232a31383f464d545b626970777e858c939aa1a8afb6bdc4cbd2d9#256 ++
  0xe0e7eef5fc030a11181f262d343b424950575e656c737a81888f969da4abb2b9#256 ++
  0xc0c7ced5dce3eaf1f8ff060d141b222930373e454c535a61686f767d848b9299#256 ++
  0xa0a7aeb5bcc3cad1d8dfe6edf4fb020910171e252c333a41484f565d646b7279#256

def toBeBytes (w : Word) : Vector (BitVec 8) 4 := .ofFn fun i => w.extractLsb' (24 - 8 * i) 8

def fromBeBytes (b : Vector (BitVec 8) 4) : Word := b[0] ++ b[1] ++ b[2] ++ b[3]

def sm4L (b : Word) : Word :=
  b ^^^ b.rotateLeft 2 ^^^ b.rotateLeft 10 ^^^ b.rotateLeft 18 ^^^ b.rotateLeft 24

def sm4Lp (b : Word) : Word := b ^^^ b.rotateLeft 13 ^^^ b.rotateLeft 23

def sbox (inp : Word) : Word :=
  fromBeBytes ((toBeBytes inp).map fun b => SM4_SBOX.extractLsb' (8 * (255 - b.toNat)) 8)

def sm4T (inp : Word) : Word := sm4L (sbox inp)

def sm4Tp (inp : Word) : Word := sm4Lp (sbox inp)

abbrev Block := Vector (BitVec 8) 16

def words (block : Block) : Vector Word 4 :=
  .ofFn fun i => fromBeBytes (.ofFn fun k => block[4 * i.val + k])

/-- The word `k[i]` of `new`. -/
def expanded (key : Block) : Nat → Word
  | i + 4 => expanded key i ^^^ sm4Tp (expanded key (i + 1) ^^^ expanded key (i + 2) ^^^
      expanded key (i + 3) ^^^ SM4_CK.extractLsb' (32 * (31 - i)) 32)
  | i => (words key)[i]?.getD 0 ^^^ SM4_FK.extractLsb' (32 * (3 - i)) 32

def new (key : Block) : Vector Word 32 := .ofFn fun i => expanded key (i + 4)

def round (x : Vector Word 4) (key : Word) : Vector Word 4 :=
  #v[x[1], x[2], x[3], x[0] ^^^ sm4T (x[1] ^^^ x[2] ^^^ x[3] ^^^ key)]

/-- The words in the opposite order. -/
def output (x : Vector Word 4) : Block := .ofFn fun j => (toBeBytes x[3 - j.val / 4])[j.val % 4]

def crypt (key : Fin 32 → Word) (block : Block) : Block :=
  output ((List.finRange 32).foldl (fun x i => round x (key i)) (words block))

def encryptBlock (roundKeys : Vector Word 32) : Block → Block := crypt fun i => roundKeys[i]

def decryptBlock (roundKeys : Vector Word 32) : Block → Block := crypt fun i => roundKeys[i.rev]

theorem fromBeBytes_toBeBytes (w : Word) : fromBeBytes (toBeBytes w) = w := by
  ext k hk
  simp [fromBeBytes, toBeBytes]
  grind

theorem toBeBytes_fromBeBytes (b : Vector (BitVec 8) 4) : toBeBytes (fromBeBytes b) = b := by
  ext i hi k hk
  rcases i with _ | _ | _ | _ | i <;> simp [fromBeBytes, toBeBytes] <;> grind

theorem words_output (x : Vector Word 4) : words (output x) = x.reverse := by
  ext1 i hi
  simp only [words, output, Vector.getElem_ofFn, Vector.getElem_reverse]
  rw [← fromBeBytes_toBeBytes x[4 - 1 - i]]
  congr 1
  ext1 k hk
  have hword : (4 * i + k) / 4 = i := by omega
  simp [hword, Nat.mod_eq_of_lt hk]

theorem output_words (block : Block) : output (words block).reverse = block := by
  ext1 j hj
  simp [words, output, toBeBytes_fromBeBytes]
  congr 1
  omega

theorem round_reverse (x : Vector Word 4) (key : Word) :
    round (round x key).reverse key = x.reverse := by
  ext1 i hi
  rcases i with _ | _ | _ | _ | i
  · simp [round]
  · simp [round]
  · simp [round]
  · have hcomm : x[3] ^^^ x[2] ^^^ x[1] = x[1] ^^^ x[2] ^^^ x[3] := by ac_rfl
    simp [round, hcomm, BitVec.xor_assoc]
  · omega

theorem rounds_reverse {ι : Type} (is : List ι) (key : ι → Word) (x : Vector Word 4) :
    is.reverse.foldl (fun x i => round x (key i))
      (is.foldl (fun x i => round x (key i)) x).reverse = x.reverse := by
  induction is generalizing x with
  | nil => rfl
  | cons i is ih =>
    simp [List.reverse_cons, List.foldl_append, List.foldl_cons, List.foldl_nil, ih, round_reverse]

theorem crypt_rev_crypt (key : Fin 32 → Word) (block : Block) :
    crypt (fun i => key i.rev) (crypt key block) = block := by
  have h := rounds_reverse (List.finRange 32) key (words block)
  rw [List.finRange_reverse, List.foldl_map] at h
  rw [crypt, crypt, words_output, h, output_words]

/-- Each of the two functions undoes the other. -/
def Inverse (roundKeys : Vector Word 32) : Prop :=
  ∀ block, decryptBlock roundKeys (encryptBlock roundKeys block) = block ∧
    encryptBlock roundKeys (decryptBlock roundKeys block) = block

/-- **Decryption inverts encryption**, and the other way round, for the round keys of a key as
    for any others. -/
theorem sm4_inverse : (∀ key, Inverse (new key)) ∧ ∀ roundKeys, Inverse roundKeys := by
  have hall : ∀ roundKeys, Inverse roundKeys := by
    intro roundKeys block
    have h := crypt_rev_crypt (fun i => roundKeys[i.rev]) block
    simp only [Fin.rev_rev] at h
    exact ⟨crypt_rev_crypt (fun i => roundKeys[i]) block, h⟩
  exact ⟨fun key => hall (new key), hall⟩

end TrainOS.Sm4
