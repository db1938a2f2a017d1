import Mathlib.Data.List.Basic

/-!
# Runs of a labelled step relation, loops with an early exit

`Run step s as t` says that the calls `as` lead from `s` to `t`.  A property of every reachable
state follows from its initial case and one step (`Run.invariant`); a side condition on the
calls is carried by a run whose steps all satisfy it (`Guarded`).  A `for` loop whose body may
return an error is `forEach`.
-/

namespace TrainOS.Runs

open List Option

variable {State Call : Type*}

/-- The calls `as` lead from one state to another. -/
inductive Run (step : State → Call → State → Prop) : State → List Call → State → Prop
  | nil (s : State) : Run step s [] s
  | cons {s t u : State} {a : Call} {as : List Call} :
      step s a t → Run step t as u → Run step s (a :: as) u

/-- A step relation cut down to the steps that meet a condition on the state
    before the step and the call. -/
def Guarded (step : State → Call → State → Prop) (ok : State → Call → Prop) :
    State → Call → State → Prop :=
  fun s a t => ok s a ∧ step s a t

variable {step : State → Call → State → Prop} {ok : State → Call → Prop}
variable {s s' t u : State} {as : List Call} {P : State → Prop}

theorem Run.invariant (hstep : ∀ s a t, P s → step s a t → P t) (hrun : Run step s as t)
    (hs : P s) : P t := by
  induction hrun with
  | nil s => exact hs
  | cons hfirst _ ih => exact ih (hstep _ _ _ hs hfirst)

theorem Run.append {bs : List Call} (h1 : Run step s as t)
    (h2 : Run step t bs u) : Run step s (as ++ bs) u := by
  induction h1 with
  | nil s => exact h2
  | cons hfirst _ ih => exact .cons hfirst (ih h2)

theorem Run.unguarded (hrun : Run (Guarded step ok) s as t) : Run step s as t := by
  induction hrun with
  | nil s => exact .nil s
  | cons hfirst _ ih => exact .cons hfirst.2 ih

/-- What a step cannot establish holds from the start. -/
theorem Run.backward {Good : State → Prop} (hback : ∀ s a t, step s a t → Good t → Good s)
    (hrun : Run step s as t) (ht : Good t) : Good s := by
  induction hrun with
  | nil s => exact ht
  | cons hfirst _ ih => exact hback _ _ _ hfirst (ih ht)

/-- A run into a good state meets the condition at each step, if every step into a good state
    does and no step leads from a bad state to a good one. -/
theorem Run.guarded (Inv Good : State → Prop)
    (hstep : ∀ s a t, Inv s → step s a t → Good t → ok s a ∧ Inv t)
    (hback : ∀ s a t, step s a t → Good t → Good s)
    (hrun : Run step s as t) (hs : Inv s) (ht : Good t) : Run (Guarded step ok) s as t := by
  induction hrun with
  | nil s => exact .nil s
  | cons hfirst hrest ih =>
    obtain ⟨hok, hnext⟩ := hstep _ _ _ hs hfirst (hrest.backward hback ht)
    exact .cons ⟨hok, hfirst⟩ (ih hnext ht)

section

variable {exec : State → Call → Option State}
  (hexec : ∀ a ∈ as, ∀ s t, exec s a = some t → step s a t)
include hexec

/-- Calls that are executed one after another make a run. -/
theorem run_of_foldlM (hrun : as.foldlM exec s = some t) : Run step s as t := by
  induction as generalizing s with
  | nil =>
    obtain rfl := some.inj hrun
    exact .nil s
  | cons a as ih =>
    rw [foldlM_cons] at hrun
    obtain ⟨s1, hfirst, hrest⟩ := bind_eq_some_iff.mp hrun
    exact .cons (hexec a mem_cons_self s s1 hfirst)
      (ih (fun b hb => hexec b (mem_cons_of_mem a hb)) hrest)

variable (s as) in
/-- A run that ends as asked, by computing it. -/
theorem exists_run_of_foldlM [DecidablePred P]
    (hrun : (as.foldlM exec s).any P = true) : ∃ t, Run step s as t ∧ P t := by
  obtain ⟨t, ht, hend⟩ := (any_eq_true _ _).mp hrun
  exact ⟨t, run_of_foldlM hexec ht, of_decide_eq_true hend⟩

end

theorem run_foldl (exec : State → Call → State) (as : List Call)
    (hexec : ∀ a ∈ as, ∀ s, step s a (exec s a)) (s : State) :
    Run step s as (as.foldl exec s) := by
  induction as generalizing s with
  | nil => exact .nil s
  | cons a as ih =>
    have hrest := ih (fun b hb => hexec b (mem_cons_of_mem a hb)) (exec s a)
    exact .cons (hexec a mem_cons_self s) hrest

/-! ### Loops -/

section Loops

variable {ε ι : Type*}

def forEach (body : ι → State → Except ε Unit × State) : List ι → State → Except ε Unit × State
  | [], s => (.ok (), s)
  | i :: is, s =>
      match body i s with
      | (.ok (), s) => forEach body is s
      | (.error e, s) => (.error e, s)

variable {body : ι → State → Except ε Unit × State} {is : List ι} {res : Except ε Unit}

theorem forEach_cons {i : ι} (h : forEach body (i :: is) s = (res, s')) :
    (∃ s1, body i s = (.ok (), s1) ∧ forEach body is s1 = (res, s')) ∨
      ∃ e, res = .error e ∧ body i s = (.error e, s') := by
  rcases hbody : body i s with ⟨_ | _, s1⟩
  · simp only [forEach, hbody] at h
    cases h
    exact .inr ⟨_, rfl, rfl⟩
  · simp only [forEach, hbody] at h
    exact .inl ⟨s1, rfl, h⟩

theorem forEach_invariant (Inv : State → Prop)
    (hbody : ∀ i ∈ is, ∀ s res s', Inv s → body i s = (res, s') → Inv s') (hs : Inv s)
    (hrun : forEach body is s = (res, s')) : Inv s' := by
  induction is generalizing s with
  | nil =>
    cases hrun
    exact hs
  | cons i is ih =>
    rcases forEach_cons hrun with ⟨s1, hfirst, hrest⟩ | ⟨e, _, hfirst⟩
    · refine ih (fun j hj => hbody j (mem_cons_of_mem i hj)) ?_ hrest
      exact hbody i mem_cons_self s _ s1 hs hfirst
    · exact hbody i mem_cons_self s _ s' hs hfirst

/-- What every pass of a loop that may abort preserves, the loop preserves. -/
theorem foldlM_invariant (Inv : State → Prop) {body : State → ι → Option State}
    (hbody : ∀ i ∈ is, ∀ s s', Inv s → body s i = some s' → Inv s') (hs : Inv s)
    (hrun : is.foldlM body s = some s') : Inv s' := by
  have hsteps : Run (fun s i s' => i ∈ is ∧ body s i = some s') s is s' :=
    run_of_foldlM (fun i hi s s' hpass => ⟨hi, hpass⟩) hrun
  exact hsteps.invariant (fun s i s' hs hpass => hbody i hpass.1 s s' hs hpass.2) hs

theorem foldlM_total (Inv : State → Prop) {body : State → ι → Option State}
    (hbody : ∀ s i, Inv s → ∃ s', body s i = some s' ∧ Inv s') (is : List ι)
    (hs : Inv s) : ∃ s', is.foldlM body s = some s' ∧ Inv s' := by
  induction is generalizing s with
  | nil => exact ⟨s, rfl, hs⟩
  | cons i is ih =>
    obtain ⟨s1, hfirst, h1⟩ := hbody s i hs
    obtain ⟨s', hrest, h'⟩ := ih h1
    exact ⟨s', by rw [foldlM_cons, hfirst, bind_eq_bind, bind_some, hrest], h'⟩

end Loops

/-! ### Calls that may fail -/

section Attempts

variable {α β : Type*}

/-- The call succeeds exactly when `c` holds, and a result of it satisfies `post`. -/
structure Attempt (res : Option α) (c : Prop) (post : α → Prop) : Prop where
  succeeds : res.isSome = true ↔ c
  post : ∀ a, res = some a → post a

variable {res : Option α} {c c' : Prop} {post : α → Prop}

theorem Attempt.some {a : α} (h : post a) : Attempt (some a) True post :=
  ⟨by simp, fun b hb => some.inj hb ▸ h⟩

theorem Attempt.none (h : ¬ c) : Attempt none c post :=
  ⟨by simpa using h, fun a ha => by cases ha⟩

theorem Attempt.mono {post' : α → Prop} (h : Attempt res c post) (hc : c ↔ c')
    (hpost : ∀ a, post a → post' a) : Attempt res c' post' :=
  ⟨h.succeeds.trans hc, fun a ha => hpost a (h.post a ha)⟩

theorem Attempt.bind {f : α → Option β} {post' : β → Prop} (h : Attempt res c post)
    (hf : ∀ a, post a → Attempt (f a) c' post') : Attempt (res.bind f) (c ∧ c') post' := by
  cases hres : res with
  | none =>
    apply Attempt.none
    rintro ⟨hc, _⟩
    have hsome := h.succeeds.mpr hc
    rw [hres] at hsome
    cases hsome
  | some a =>
    have hc : c := h.succeeds.mp (by simp [hres])
    exact (hf a (h.post a hres)).mono (by simp [hc]) fun _ => id

theorem Attempt.elim (h : Attempt res c post) (hc : c) : ∃ a, res = .some a ∧ post a := by
  obtain ⟨a, ha⟩ := isSome_iff_exists.mp (h.succeeds.mpr hc)
  exact ⟨a, ha, h.post a ha⟩

end Attempts

end TrainOS.Runs
