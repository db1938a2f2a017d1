import Mathlib.Logic.Basic

/-!
# Programs on a state that can stop early

A program changes a state and ends with a value or with a reason to stop; what it did to
the state before it stopped remains.  `Keeps P x` says that `P` survives the program
however it ends.  The rules follow the way a program is written: a sequence keeps what its
parts keep, and a program that first looks at the state is judged at that state.
-/

namespace TrainOS.StateExcept

variable {σ ε α β : Type}

abbrev Prog (σ ε α : Type) := ExceptT ε (StateM σ) α

def run (x : Prog σ ε α) (s : σ) : Except ε α × σ := (ExceptT.run x).run s

theorem run_pure (a : α) (s : σ) : run (pure a : Prog σ ε α) s = (.ok a, s) := rfl

theorem run_throw (e : ε) (s : σ) : run (throw e : Prog σ ε α) s = (.error e, s) := rfl

theorem run_get (s : σ) : run (get : Prog σ ε σ) s = (.ok s, s) := rfl

theorem run_set (s t : σ) : run (set t : Prog σ ε PUnit) s = (.ok ⟨⟩, t) := rfl

theorem run_bind (x : Prog σ ε α) (f : α → Prog σ ε β) (s : σ) : run (x >>= f) s =
      match run x s with
      | (.ok a, s') => run (f a) s'
      | (.error e, s') => (.error e, s') := by
  rcases h : run x s with ⟨_ | a, s'⟩
  · simp only [run, ExceptT.run, StateT.run] at h ⊢
    simp [bind, ExceptT.bind, ExceptT.mk, StateT.bind, h, ExceptT.bindCont]
    rfl
  · simp only [run, ExceptT.run, StateT.run] at h ⊢
    simp [bind, ExceptT.bind, ExceptT.mk, StateT.bind, h, ExceptT.bindCont]

variable {x : Prog σ ε α} {f : α → Prog σ ε β}

/-- A sequence that ends with a value: so did its first part. -/
theorem run_bind_ok {s s' : σ} {b : β} (h : run (x >>= f) s = (.ok b, s')) :
    ∃ a s1, run x s = (.ok a, s1) ∧ run (f a) s1 = (.ok b, s') := by
  rw [run_bind] at h
  rcases hx : run x s with ⟨_ | a, s1⟩
  · rw [hx] at h
    cases h
  · rw [hx] at h
    exact ⟨a, s1, rfl, h⟩

theorem run_get_bind (f : σ → Prog σ ε β) (s : σ) : run (get >>= f) s = run (f s) s := by
  rw [run_bind, run_get]

variable {ι : Type}

theorem run_forM_cons (f : ι → Prog σ ε PUnit) (i : ι) (is : List ι) (s : σ) :
    run (forM (i :: is) f) s =
      match run (f i) s with
      | (.ok _, s') => run (forM is f) s'
      | (.error e, s') => (.error e, s') := by
  rw [List.forM_cons, run_bind]
  rcases run (f i) s with ⟨_ | _, _⟩ <;> rfl

/-- A relation that composes, and that every pass of a loop establishes, relates the states
    before and after the loop. -/
theorem run_forM_relates {f : ι → Prog σ ε PUnit} (R : σ → σ → Prop)
    (hrefl : ∀ s, R s s) (htrans : ∀ s t u, R s t → R t u → R s u)
    (hf : ∀ i s t, run (f i) s = (.ok ⟨⟩, t) → R s t) (is : List ι) {s t : σ}
    (h : run (forM is f) s = (.ok ⟨⟩, t)) : R s t := by
  induction is generalizing s with
  | nil =>
    obtain rfl : s = t := (Prod.mk.inj h).2
    exact hrefl s
  | cons i is ih =>
    rw [run_forM_cons] at h
    rcases hfirst : run (f i) s with ⟨_ | _, s'⟩
    · rw [hfirst] at h
      cases h
    · rw [hfirst] at h
      exact htrans s s' t (hf i s s' hfirst) (ih h)

/-! ### What a program keeps -/

variable {P : σ → Prop}

/-- `P` holds after the program if it held before, also when the program stops early. -/
def Keeps (P : σ → Prop) (x : Prog σ ε α) : Prop := ∀ s, P s → P (run x s).2

theorem Keeps.pure (a : α) : Keeps P (pure a : Prog σ ε α) := fun _ h => h

theorem Keeps.throw (e : ε) : Keeps P (throw e : Prog σ ε α) := fun _ h => h

theorem Keeps.set {t : σ} (h : P t) : Keeps P (set t : Prog σ ε PUnit) := fun _ _ => h

theorem Keeps.modify {f : σ → σ} (h : ∀ s, P s → P (f s)) :
    Keeps P (modify f : Prog σ ε PUnit) := h

theorem Keeps.bind (hx : Keeps P x) (hf : ∀ a, Keeps P (f a)) : Keeps P (x >>= f) := by
  intro s hs
  have hfirst := hx s hs
  rw [run_bind]
  rcases hrun : run x s with ⟨_ | a, s'⟩
  · rw [hrun] at hfirst
    exact hfirst
  · rw [hrun] at hfirst
    exact hf a s' hfirst

/-- A program that starts by reading the state; what it reads satisfies `P`. -/
theorem Keeps.get_bind {f : σ → Prog σ ε β} (h : ∀ s, P s → Keeps P (f s)) :
    Keeps P (get >>= f) := by
  intro s hs
  exact h s hs s hs

theorem Keeps.ite {c : Prop} [Decidable c] {y : Prog σ ε α} (hx : Keeps P x) (hy : Keeps P y) :
    Keeps P (if c then x else y) := by
  split
  · exact hx
  · exact hy

theorem Keeps.forM {f : ι → Prog σ ε PUnit} (hf : ∀ i, Keeps P (f i)) (is : List ι) :
    Keeps P (forM is f) := by
  induction is with
  | nil => exact .pure _
  | cons i is ih => exact .bind (hf i) fun _ => ih

/-! ### Pre- and postconditions -/

section Triples

variable {Q : α → σ → Prop} {R : β → σ → Prop} {E : σ → Prop}

/-- From a state with `P` the program ends with a value and a state in `Q`, or stops in `E`. -/
structure Triple (P : σ → Prop) (x : Prog σ ε α) (Q : α → σ → Prop) (E : σ → Prop) : Prop where
  ends : ∀ s, P s → match run x s with
    | (.ok a, s') => Q a s'
    | (.error _, s') => E s'

theorem Triple.pure {a : α} (h : ∀ s, P s → Q a s) : Triple P (pure a : Prog σ ε α) Q E := ⟨h⟩

theorem Triple.throw {e : ε} (h : ∀ s, P s → E s) : Triple P (throw e : Prog σ ε α) Q E := ⟨h⟩

theorem Triple.modify {f : σ → σ} {Q : PUnit → σ → Prop} (h : ∀ s, P s → Q ⟨⟩ (f s)) :
    Triple P (modify f : Prog σ ε PUnit) Q E := ⟨h⟩

theorem Triple.bind (hx : Triple P x Q E)
    (hf : ∀ a, Triple (Q a) (f a) R E) : Triple P (x >>= f) R E := by
  refine ⟨fun s hs => ?_⟩
  have hfirst := hx.ends s hs
  rw [run_bind]
  rcases hrun : run x s with ⟨_ | a, s'⟩
  · rw [hrun] at hfirst
    exact hfirst
  · rw [hrun] at hfirst
    exact (hf a).ends s' hfirst

theorem Triple.of_imp {P' : σ → Prop} {Q' : α → σ → Prop} (hx : Triple P' x Q' E)
    (hP : ∀ s, P s → P' s) (hQ : ∀ a s, Q' a s → Q a s) : Triple P x Q E := by
  refine ⟨fun s hs => ?_⟩
  have hrun := hx.ends s (hP s hs)
  revert hrun
  rcases run x s with ⟨_ | a, s'⟩
  · exact id
  · exact hQ a s'

theorem Triple.bind_eq {g : ι → α}
    {P' : ι → σ → Prop} (hx : Triple P x (fun a s => ∃ i, a = g i ∧ P' i s) E)
    (hf : ∀ i, Triple (P' i) (f (g i)) R E) : Triple P (x >>= f) R E := by
  refine .bind hx fun a => ⟨?_⟩
  rintro s ⟨i, rfl, hs⟩
  exact (hf i).ends s hs

/-- A loop over the numbers below `n` with an invariant. -/
theorem Triple.forM_range {n : Nat} {f : Nat → Prog σ ε PUnit} (I : Nat → σ → Prop)
    (hf : ∀ i < n, Triple (I i) (f i) (fun _ => I (i + 1)) E) :
    Triple (I 0) (forM (List.range n) f) (fun _ => I n) E := by
  have hloop : ∀ k i, i + k = n → Triple (I i) (forM (List.range' i k) f) (fun _ => I n) E := by
    intro k
    induction k with
    | zero =>
      rintro i rfl
      exact .pure fun _ h => h
    | succ k ih =>
      intro i hi
      exact .bind (hf i (by omega)) fun _ => ih (i + 1) (by omega)
  rw [List.range_eq_range']
  exact hloop n 0 (Nat.zero_add n)

end Triples

end TrainOS.StateExcept
