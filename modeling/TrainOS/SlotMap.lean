import Mathlib.Data.Finmap

/-!
# A table of slots as a finite map

`entry` says which key and value a slot holds, and the lookup takes the first slot with the key.
With no key in two slots (`Distinct`) the table is a finite map (`toMap`), storing an entry is an
insertion (`toMap_put`), freeing a slot an erasure (`toMap_free`), and the keys in the order of
the slots enumerate the domain.
-/

namespace TrainOS.SlotMap

open Function List Option

variable {n : Nat} {σ κ β : Type*} (entry : σ → Option (Sigma fun _ : κ => β))

def Holds (s : σ) (k : κ) : Prop := ∃ v, entry s = some ⟨k, v⟩

def Distinct (slots : Fin n → σ) : Prop :=
  ∀ i j k, Holds entry (slots i) k → Holds entry (slots j) k → i = j

def keyList (slots : Fin n → σ) : List κ :=
  (finRange n).filterMap fun i => (entry (slots i)).map Sigma.fst

variable {entry} {slots : Fin n → σ} {k : κ}

theorem mem_keyList : k ∈ keyList entry slots ↔ ∃ i, Holds entry (slots i) k := by
  simp only [keyList, mem_filterMap, mem_finRange, true_and, Holds, map_eq_some_iff]
  constructor
  · rintro ⟨i, ⟨k', v⟩, hentry, rfl⟩
    exact ⟨i, v, hentry⟩
  · rintro ⟨i, v, hentry⟩
    exact ⟨i, ⟨k, v⟩, hentry, rfl⟩

theorem nodup_keyList (hd : Distinct entry slots) : (keyList entry slots).Nodup := by
  refine List.Nodup.filterMap ?_ (nodup_finRange n)
  intro i j k hi hj
  obtain ⟨⟨k', v⟩, hentry, rfl⟩ := map_eq_some_iff.mp hi
  obtain ⟨⟨k'', w⟩, hentry', hk⟩ := map_eq_some_iff.mp hj
  subst hk
  exact hd i j _ ⟨v, hentry⟩ ⟨w, hentry'⟩

/-! ### Storing and freeing -/

/-- The slot `i` may take the key: it is free or has the key, and no other slot has it. -/
structure Available (entry : σ → Option (Sigma fun _ : κ => β)) (slots : Fin n → σ) (i : Fin n)
    (k : κ) : Prop where
  own : ∀ k', Holds entry (slots i) k' → k' = k
  others : ∀ j, j ≠ i → ¬ Holds entry (slots j) k

variable {i : Fin n}

theorem Distinct.available (hd : Distinct entry slots)
    (hi : Holds entry (slots i) k) : Available entry slots i k where
  own := by
    rintro k' ⟨v, hv⟩
    obtain ⟨w, hw⟩ := hi
    rw [hw, some_inj] at hv
    exact (Sigma.mk.inj hv).1.symm
  others := fun j hj hholds => hj (hd j i k hholds hi)

variable {s : σ}

theorem holds_update_of_ne {j : Fin n} (hj : j ≠ i) :
    Holds entry (update slots i s j) k ↔ Holds entry (slots j) k := by
  rw [update_of_ne hj]

variable {v : β}

theorem Distinct.put (hd : Distinct entry slots)
    (hav : Available entry slots i k) (hs : entry s = some ⟨k, v⟩) :
    Distinct entry (update slots i s) := by
  have hnew : ∀ k', Holds entry (update slots i s i) k' → k' = k := by
    rintro k' ⟨w, hw⟩
    rw [update_self, hs, some_inj] at hw
    exact (Sigma.mk.inj hw).1.symm
  intro a b k' ha hb
  rcases eq_or_ne a i with rfl | hai <;> rcases eq_or_ne b a with rfl | hba
  · rfl
  · obtain rfl := hnew k' ha
    exact absurd ((holds_update_of_ne hba).mp hb) (hav.others b hba)
  · rfl
  · rcases eq_or_ne b i with rfl | hbi
    · obtain rfl := hnew k' hb
      exact absurd ((holds_update_of_ne hai).mp ha) (hav.others a hai)
    · exact hd a b k' ((holds_update_of_ne hai).mp ha) ((holds_update_of_ne hbi).mp hb)

theorem Distinct.free (hd : Distinct entry slots) (i : Fin n) (hs : entry s = none) :
    Distinct entry (update slots i s) := by
  have hold : ∀ j k, Holds entry (update slots i s j) k → Holds entry (slots j) k := by
    intro j k hj
    rcases eq_or_ne j i with rfl | hne
    · obtain ⟨v, hv⟩ := hj
      rw [update_self, hs] at hv
      cases hv
    · exact (holds_update_of_ne hne).mp hj
  exact fun a b k ha hb => hd a b k (hold a k ha) (hold b k hb)

/-! ### The map -/

section Map

variable [DecidableEq κ]

variable (entry slots) in
def toMap : Finmap (fun _ : κ => β) :=
  ((finRange n).filterMap fun i => entry (slots i)).toFinmap

theorem mem_toMap : k ∈ toMap entry slots ↔ ∃ i, Holds entry (slots i) k := by
  simp only [toMap, Finmap.mem_list_toFinmap, mem_filterMap, mem_finRange, true_and, Holds]
  constructor
  · rintro ⟨v, i, hentry⟩
    exact ⟨i, v, hentry⟩
  · rintro ⟨i, v, hentry⟩
    exact ⟨v, i, hentry⟩

theorem lookup_toMap_eq_none (h : ∀ i, ¬ Holds entry (slots i) k) :
    (toMap entry slots).lookup k = none := by
  rw [Finmap.lookup_eq_none, mem_toMap]
  exact fun ⟨i, hi⟩ => h i hi

section

variable (hd : Distinct entry slots)
include hd

/-- **What a slot holds is what the map holds** under its key. -/
theorem lookup_toMap
    (hi : entry (slots i) = some ⟨k, v⟩) : (toMap entry slots).lookup k = some v := by
  have hnodup : ((finRange n).filterMap fun i => entry (slots i)).NodupKeys := by
    have h := nodup_keyList hd
    rwa [keyList, ← map_filterMap] at h
  rw [toMap, Finmap.dlookup_list_toFinmap]
  refine (mem_dlookup_iff hnodup).mpr (mem_filterMap.mpr ⟨i, ?_, hi⟩)
  exact mem_finRange i

/-- Two tables whose slots hold the same entries under `k` agree there. -/
theorem lookup_toMap_congr {slots' : Fin n → σ}
    (hd' : Distinct entry slots')
    (h : ∀ i v, entry (slots' i) = some ⟨k, v⟩ ↔ entry (slots i) = some ⟨k, v⟩) :
    (toMap entry slots').lookup k = (toMap entry slots).lookup k := by
  by_cases hk : ∃ i, Holds entry (slots i) k
  · obtain ⟨i, v, hi⟩ := hk
    rw [lookup_toMap hd hi, lookup_toMap hd' ((h i v).mpr hi)]
  · rw [lookup_toMap_eq_none fun i hi => hk ⟨i, hi⟩]
    exact lookup_toMap_eq_none fun i ⟨v, hi⟩ => hk ⟨i, v, (h i v).mp hi⟩

/-- **Storing is inserting.** -/
theorem toMap_put
    (hav : Available entry slots i k) (hs : entry s = some ⟨k, v⟩) :
    toMap entry (update slots i s) = (toMap entry slots).insert k v := by
  have hd' := hd.put hav hs
  refine Finmap.ext_lookup fun k' => ?_
  rcases eq_or_ne k' k with rfl | hk
  · rw [Finmap.lookup_insert]
    exact lookup_toMap hd' (i := i) (by rw [update_self, hs])
  · rw [Finmap.lookup_insert_of_ne _ hk]
    refine lookup_toMap_congr hd hd' fun j w => ?_
    rcases eq_or_ne j i with rfl | hj
    · rw [update_self]
      constructor
      · intro h
        rw [hs, some_inj] at h
        exact absurd (Sigma.mk.inj h).1.symm hk
      · intro h
        exact absurd (hav.own k' ⟨w, h⟩) hk
    · rw [update_of_ne hj]

/-- **Freeing is erasing.** -/
theorem toMap_free
    (hi : Holds entry (slots i) k) (hs : entry s = none) :
    toMap entry (update slots i s) = (toMap entry slots).erase k := by
  have hav := hd.available hi
  refine Finmap.ext_lookup fun k' => ?_
  rcases eq_or_ne k' k with rfl | hk
  · rw [Finmap.lookup_erase]
    refine lookup_toMap_eq_none fun j => ?_
    rcases eq_or_ne j i with rfl | hj
    · rintro ⟨v, hv⟩
      rw [update_self, hs] at hv
      cases hv
    · rw [holds_update_of_ne hj]
      exact hav.others j hj
  · rw [Finmap.lookup_erase_ne hk]
    refine lookup_toMap_congr hd (hd.free i hs) fun j w => ?_
    rcases eq_or_ne j i with rfl | hj
    · rw [update_self, hs]
      constructor
      · intro h
        cases h
      · intro h
        exact absurd (hav.own k' ⟨w, h⟩) hk
    · rw [update_of_ne hj]

end

theorem toMap_erase_absent (h : ∀ i, ¬ Holds entry (slots i) k) :
    (toMap entry slots).erase k = toMap entry slots := by
  refine Finmap.ext_lookup fun k' => ?_
  rcases eq_or_ne k' k with rfl | hk
  · rw [Finmap.lookup_erase, lookup_toMap_eq_none h]
  · rw [Finmap.lookup_erase_ne hk]

end Map

end TrainOS.SlotMap
