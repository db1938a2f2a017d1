import Mathlib.Tactic.Cases

/-!
# Copying into a buffer of fixed size

A loop `for j in 0..count { dst[off + j] = src[j]; }` over an array whose indices are
checked.  An index out of bounds on either side ends the program, which is `none` here.
`copyInto_spec` says what a copy within bounds leaves in the buffer.  `copySlice` is the copy
of a whole slice.
-/

namespace TrainOS.FixedBuffer

variable {α : Type*} {n : Nat}

def copyInto (dst : Vector α n) (src : List α) (off : Nat) : Nat → Option (Vector α n)
  | 0 => some dst
  | count + 1 => do
      let done ← copyInto dst src off count
      let b ← src[count]?
      if h : off + count < n then some (done.set (off + count) b h) else none

variable {src : List α} {off count len : Nat}

/-- Replacing the byte behind a copied prefix extends the prefix by one. -/
private theorem set_behind_copied {base : List α} {b : α}
    (hbase : off + count < base.length) (hb : src[count]? = some b) :
    (base.take off ++ src.take count ++ base.drop (off + count)).set (off + count) b =
      base.take off ++ src.take (count + 1) ++ base.drop (off + (count + 1)) := by
  obtain ⟨hcount, rfl⟩ := List.getElem?_eq_some_iff.mp hb
  have hlen : (base.take off ++ src.take count).length = off + count := by
    rw [List.length_append, List.length_take, List.length_take]
    omega
  have hnext : base.drop (off + count) =
      base[off + count] :: base.drop (off + (count + 1)) := List.drop_eq_getElem_cons hbase
  rw [List.set_append, if_neg (by omega), hlen, Nat.sub_self, hnext, List.set_cons_zero,
    List.take_succ_eq_append_getElem hcount]
  simp only [List.append_assoc, List.cons_append, List.nil_append]

/-- **A copy within bounds** succeeds and replaces exactly the bytes it covers. -/
theorem copyInto_spec (dst : Vector α n) (hsrc : count ≤ src.length) (hdst : off + count ≤ n) :
    ∃ v, copyInto dst src off count = some v ∧
      v.toList = dst.toList.take off ++ src.take count ++ dst.toList.drop (off + count) := by
  induction count with
  | zero =>
    exact ⟨dst, rfl, by simp⟩
  | succ count ih =>
    obtain ⟨v, hv, hlist⟩ := ih (by omega) (by omega)
    have hb : src[count]? = some src[count] := List.getElem?_eq_getElem (by omega)
    have hlt : off + count < n := by omega
    refine ⟨v.set (off + count) src[count] hlt, ?_, ?_⟩
    · simp [copyInto, hv, hb, dif_pos hlt]
    · rw [Vector.toList_set, hlist]
      refine set_behind_copied ?_ hb
      rw [Vector.length_toList]
      exact hlt

/-! ### Slices -/

/-- `dst[off..off + len].copy_from_slice(src)`: the slice has to lie in the array and the
    lengths have to be equal. -/
def copySlice (dst : Vector α n) (off len : Nat) (src : List α) : Option (Vector α n) :=
  if h : off + len ≤ n ∧ src.length = len then
    some ⟨⟨dst.toList.take off ++ src ++ dst.toList.drop (off + len)⟩, by
      have hlen : dst.toList.length = n := Vector.length_toList
      simp [hlen, h.2]
      omega⟩
  else none

theorem copySlice_spec (dst : Vector α n) (hdst : off + len ≤ n)
    (hsrc : src.length = len) : ∃ v, copySlice dst off len src = some v ∧
      v.toList = dst.toList.take off ++ src ++ dst.toList.drop (off + len) :=
  ⟨_, dif_pos ⟨hdst, hsrc⟩, rfl⟩

theorem copySlice_eq_none {dst : Vector α n} (hdst : n < off + len) :
    copySlice dst off len src = none :=
  dif_neg fun h => Nat.not_le_of_lt hdst h.1

end TrainOS.FixedBuffer
