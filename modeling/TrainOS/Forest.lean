import Mathlib.Logic.Relation
import Mathlib.Order.Basic

/-!
# Forests as a relation between parent and child

Every node has at most one parent and comes after it in some order.  The subtree of a node is
what the relation reaches from it; the subtrees of two siblings do not meet.
-/

namespace TrainOS.Forest

open Relation

variable {ι : Type*} {Child Child' : ι → ι → Prop} {r a b c d x : ι}

structure IsForest [Preorder ι] (Child : ι → ι → Prop) : Prop where
  lt : ∀ {p c}, Child p c → p < c
  unique : ∀ {p q c}, Child p c → Child q c → p = q

/-- A node comes after the root of every subtree it is in. -/
theorem IsForest.le [Preorder ι] (hf : IsForest Child) (h : ReflTransGen Child a b) : a ≤ b := by
  induction h with
  | refl => exact le_refl a
  | tail _ hchild ih => exact ih.trans (hf.lt hchild).le

theorem IsForest.total [Preorder ι] (hf : IsForest Child) (hc : ReflTransGen Child c x)
    (hd : ReflTransGen Child d x) : ReflTransGen Child d c ∨ ReflTransGen Child c d := by
  have hunique : Relator.RightUnique (Function.swap Child) := fun _ _ _ h h' => hf.unique h h'
  have hboth := ReflTransGen.total_of_right_unique hunique (reflTransGen_swap.mpr hc)
    (reflTransGen_swap.mpr hd)
  simpa [reflTransGen_swap] using hboth

theorem IsForest.sibling_eq [Preorder ι] (hf : IsForest Child) (hc : Child r c) (hd : Child r d)
    (h : ReflTransGen Child c d) : c = d := by
  rcases ReflTransGen.cases_tail h with heq | ⟨p, hcp, hpd⟩
  · exact heq.symm
  · obtain rfl := hf.unique hd hpd
    exact absurd ((hf.lt hc).trans_le (hf.le hcp)) (lt_irrefl _)

theorem IsForest.siblings_disjoint [Preorder ι] (hf : IsForest Child) (hc : Child r c)
    (hd : Child r d) (hne : c ≠ d) (hcx : ReflTransGen Child c x) : ¬ ReflTransGen Child d x := by
  intro hdx
  rcases hf.total hcx hdx with h | h
  · exact hne (hf.sibling_eq hd hc h).symm
  · exact hne (hf.sibling_eq hc hd h)

/-- A subtree depends only on the children of its nodes. -/
theorem subtree_congr (h : ∀ y, ReflTransGen Child a y → ∀ z, Child' y z ↔ Child y z) :
    ReflTransGen Child' a x ↔ ReflTransGen Child a x := by
  constructor
  · intro hx
    induction hx with
    | refl => exact .refl
    | tail _ hchild ih => exact ih.tail ((h _ ih _).mp hchild)
  · intro hx
    induction hx with
    | refl => exact .refl
    | tail hy hchild ih => exact ih.tail ((h _ hy _).mpr hchild)

end TrainOS.Forest
