import TrainOS.Scheduling

/-!
# Priority donation (`proxy_start`, `proxy_end` and `recv`)

A thread that blocks on a lock lifts the holder to its own priority; when the holder
releases a lock, or receives a message, it falls back to its base priority.  Beside the
threads a run keeps who waits for whom, and priorities are exact if each thread has the
maximum of its base priority and those of the threads that wait for it.
-/

namespace TrainOS.Sched

open Function

/-! ### Who waits for whom -/

section Waiting

variable {T L : Type} {base eff : T → Nat} {waits waits' : T → Option (T × L)}
  {t b h : T} {l : L}

/-- Every priority is the maximum of the base priority and those of the waiting threads. -/
def Inherited (base eff : T → Nat) (waits : T → Option (T × L)) : Prop :=
  ∀ t, IsGreatest (insert (base t) {p | ∃ b l, waits b = some (t, l) ∧ eff b = p}) (eff t)

theorem inherited_iff : Inherited base eff waits ↔
    ∀ t, base t ≤ eff t ∧ (∀ b l, waits b = some (t, l) → eff b ≤ eff t) ∧
      (eff t = base t ∨ ∃ b l, waits b = some (t, l) ∧ eff b = eff t) := by
  refine forall_congr' fun t => ?_
  constructor
  · rintro ⟨hmem, hupper⟩
    exact ⟨hupper (.inl rfl), fun b l hb => hupper (.inr ⟨b, l, hb, rfl⟩), hmem⟩
  · rintro ⟨hbase, hwaiting, hmem⟩
    refine ⟨hmem, ?_⟩
    rintro p (rfl | ⟨b, l, hb, rfl⟩)
    · exact hbase
    · exact hwaiting b l hb

theorem Inherited.alone (h : Inherited base eff waits) (ht : ∀ b l, waits b ≠ some (t, l)) :
    eff t = base t := by
  rcases (inherited_iff.mp h t).2.2 with heq | ⟨b, l, hb, -⟩
  · exact heq
  · exact absurd hb (ht b l)

variable [DecidableEq T]

/-- A new wait lifts the holder only: the thread the holder waits for has to be as high
    already. -/
theorem Inherited.donate_iff (hs : Inherited base eff waits) (hb : waits b = none) (hne : b ≠ h) :
    Inherited base (update eff h (max (eff h) (eff b)))
        (update waits b (some (h, l))) ↔
      ∀ u k, u ≠ h → waits h = some (u, k) → eff b ≤ eff u := by
  have hold := inherited_iff.mp hs
  constructor
  · intro hnew u k huh hu
    have hle := (inherited_iff.mp hnew u).2.1 h k (by rwa [update_of_ne hne.symm])
    rw [update_self, update_of_ne huh] at hle
    exact (le_max_right _ _).trans hle
  · intro hcond
    rw [inherited_iff]
    intro t
    obtain ⟨hbase, hwaiting, hmem⟩ := hold t
    refine ⟨by grind, by grind, ?_⟩
    by_cases hlift : t = h ∧ eff h < eff b
    · obtain ⟨rfl, hlt⟩ := hlift
      exact .inr ⟨b, l, update_self .., by grind⟩
    · rcases hmem with heq | ⟨x, k, hx, heq⟩
      · exact .inl (by grind)
      · have hxb : x ≠ b := by grind
        exact .inr ⟨x, k, by rwa [update_of_ne hxb], by grind⟩

/-- A thread that falls back to its base priority must not have to be higher. -/
theorem Inherited.restore_iff (hs : Inherited base eff waits) (ht : waits' t = none)
    (hsame : ∀ b u l, u ≠ t → (waits' b = some (u, l) ↔ waits b = some (u, l))) :
    Inherited base (update eff t (base t)) waits' ↔
      ∀ b l, waits' b = some (t, l) → eff b ≤ base t := by
  have hold := inherited_iff.mp hs
  rw [inherited_iff]
  constructor
  · intro hnew b l hb
    grind
  · intro hcond u
    obtain ⟨hbase, hwaiting, hmem⟩ := hold u
    refine ⟨by grind, by grind, ?_⟩
    by_cases hu : u = t
    · exact .inl (by grind)
    · rcases hmem with heq | ⟨x, k, hx, heq⟩
      · exact .inl (by grind)
      · have hx' := (hsame x u k hu).mpr hx
        exact .inr ⟨x, k, hx', by grind⟩

end Waiting

/-! ### Runs -/

/-- The system, and for each blocked thread the holder and the lock it waits for. -/
structure Donation where
  sys : Sys
  waits : ThreadPtr → Option (ThreadPtr × Nat)

inductive DonationCall where
  | block (blocker holder : ThreadPtr) (lock : Nat)
  | release (holder : ThreadPtr) (lock : Nat)
  | receive (t : ThreadPtr) (epId : Nat)

def Sys.base (s : Sys) (t : ThreadPtr) : Nat := (s.thread t).basePriority

def Sys.effective (s : Sys) (t : ThreadPtr) : Nat := (s.thread t).effectivePriority

namespace DonationCall

/-- The threads that wait for a released lock are no longer blocked. -/
def run : DonationCall → Donation → Donation
  | .block blocker holder lock, x =>
      ⟨proxyStart blocker holder x.sys, update x.waits blocker (some (holder, lock))⟩
  | .release holder lock, x =>
      ⟨proxyEnd holder x.sys, fun b => (x.waits b).filter (· ≠ (holder, lock))⟩
  | .receive t epId, x => ⟨(recv epId (setCurrent t x.sys)).2, x.waits⟩

/-- Only a thread that is not blocked acts, and no thread blocks on itself. -/
def Allowed (x : Donation) : DonationCall → Prop
  | .block blocker holder _ => x.waits blocker = none ∧ blocker ≠ holder
  | .release holder _ => x.waits holder = none
  | .receive t _ => x.waits t = none

/-- When a call keeps the priorities exact: nobody but the holder has to be lifted, and
    nobody who still waits is above the base priority a thread falls back to. -/
def Keeps (x : Donation) : DonationCall → Prop
  | .block blocker holder _ => ∀ u k, u ≠ holder → x.waits holder = some (u, k) →
      x.sys.effective blocker ≤ x.sys.effective u
  | .release holder lock => ∀ b k, k ≠ lock → x.waits b = some (holder, k) →
      x.sys.effective b ≤ x.sys.base holder
  | .receive t epId => (∃ msg, (recv epId (setCurrent t x.sys)).1 = .ok msg) →
      ∀ b k, x.waits b = some (t, k) → x.sys.effective b ≤ x.sys.base t

end DonationCall

/-- Each effective priority is the maximum, and the base priority if nobody waits. -/
def Donation.Exact (x : Donation) : Prop :=
  Inherited x.sys.base x.sys.effective x.waits ∧
    ∀ t, (∀ b l, x.waits b ≠ some (t, l)) → x.sys.effective t = x.sys.base t

theorem Donation.exact_iff {x : Donation} :
    x.Exact ↔ Inherited x.sys.base x.sys.effective x.waits :=
  ⟨And.left, fun h => ⟨h, fun _ => h.alone⟩⟩

/-- The condition holds before every call of the list. -/
def During (ok : Donation → DonationCall → Prop) : Donation → List DonationCall → Prop
  | _, [] => True
  | x, c :: cs => ok x c ∧ During ok (c.run x) cs

/-- The priorities are exact after every call of the list. -/
def ExactDuring : Donation → List DonationCall → Prop
  | x, [] => x.Exact
  | x, c :: cs => x.Exact ∧ ExactDuring (c.run x) cs

section Steps

variable {s : Sys} {b h t : ThreadPtr} {f : Thread → Thread}

theorem base_modify (hf : ∀ th, (f th).basePriority = th.basePriority) :
    (s.modify t f).base = s.base := by
  funext u
  by_cases hu : u = t
  · subst hu
    exact (congrArg Thread.basePriority Threads.modify_self).trans (hf _)
  · exact congrArg Thread.basePriority (Threads.modify_of_ne hu)

theorem effective_modify : (s.modify t f).effective =
    update s.effective t (f (s.thread t)).effectivePriority := by
  funext u
  by_cases hu : u = t
  · subst hu
    rw [update_self]
    exact congrArg Thread.effectivePriority Threads.modify_self
  · rw [update_of_ne hu]
    exact congrArg Thread.effectivePriority (Threads.modify_of_ne hu)

theorem effective_modify_same (hf : ∀ th, (f th).effectivePriority = th.effectivePriority) :
    (s.modify t f).effective = s.effective := by
  rw [effective_modify, hf]
  exact update_eq_self t s.effective

theorem base_proxyStart : (proxyStart b h s).base = s.base := by
  unfold proxyStart
  rw [base_modify (by grind), base_modify (by grind), base_modify (by simp), base_modify (by simp)]

theorem effective_proxyStart : (proxyStart b h s).effective =
    update s.effective h (max (s.effective h) (s.effective b)) := by
  have hmarked : ((s.modify b fun th => { th with proxyTarget := some h }).modify h
      fun th => { th with proxyDonor := some b }).effective = s.effective := by
    rw [effective_modify_same (by simp), effective_modify_same (by simp)]
  have hh := congrFun hmarked h
  have hb := congrFun hmarked b
  unfold proxyStart
  rw [effective_modify_same (by grind), effective_modify, hmarked]
  unfold Sys.effective at hh hb ⊢
  congr 1
  grind

theorem proxyEnd_priorities : (proxyEnd h s).base = s.base ∧
    (proxyEnd h s).effective = update s.effective h (s.base h) := by
  unfold proxyEnd
  rw [base_modify (by simp), effective_modify]
  cases (s.thread h).proxyDonor with
  | none => exact ⟨rfl, rfl⟩
  | some donor =>
    have hbase : (s.modify donor fun th => { th with proxyTarget := none }).base = s.base :=
      base_modify (by simp)
    have heff : (s.modify donor fun th => { th with proxyTarget := none }).effective =
        s.effective := effective_modify_same (by simp)
    refine ⟨hbase, ?_⟩
    rw [← hbase, ← heff]
    rfl

/-- A message that is received resets the priority; without one nothing changes. -/
theorem recv_priorities (epId : Nat) (s : Sys) (t : ThreadPtr) :
    (recv epId (setCurrent t s)).2.base = s.base ∧
      (((∃ msg, (recv epId (setCurrent t s)).1 = .ok msg) ∧
          (recv epId (setCurrent t s)).2.effective = update s.effective t (s.base t)) ∨
        (¬ (∃ msg, (recv epId (setCurrent t s)).1 = .ok msg) ∧
          (recv epId (setCurrent t s)).2.effective = s.effective)) := by
  unfold recv
  split
  · exact ⟨rfl, .inr ⟨by simp, rfl⟩⟩
  · split
    · exact ⟨base_modify (by simp), .inl ⟨⟨_, rfl⟩, effective_modify⟩⟩
    · exact ⟨base_modify (by simp [asleep]),
        .inr ⟨by simp [setCurrent], effective_modify_same (by simp [asleep])⟩⟩

end Steps

/-- The calls that keep donations exact. -/
theorem Donation.Exact.step_iff {x : Donation} (hx : x.Exact) {c : DonationCall}
    (hallowed : c.Allowed x) : (c.run x).Exact ↔ c.Keeps x := by
  rw [Donation.exact_iff] at hx ⊢
  cases c with
  | block blocker holder lock =>
    have hiff := hx.donate_iff (l := lock) hallowed.1 hallowed.2
    rwa [← effective_proxyStart, ← base_proxyStart] at hiff
  | release holder lock =>
    obtain ⟨hbase, heff⟩ := proxyEnd_priorities (h := holder) (s := x.sys)
    have hfilter (b u : ThreadPtr) (k : Nat) :
        (x.waits b).filter (· ≠ (holder, lock)) = some (u, k) ↔
          x.waits b = some (u, k) ∧ (u = holder → k ≠ lock) := by
      simp [Option.filter_eq_some_iff, imp_iff_not_or]
    have hnone : (x.waits holder).filter (· ≠ (holder, lock)) = none := by
      rw [show x.waits holder = none from hallowed]
      rfl
    have hiff : Inherited x.sys.base (update x.sys.effective holder (x.sys.base holder))
        (fun b => (x.waits b).filter (· ≠ (holder, lock))) ↔ _ := hx.restore_iff hnone
      fun b u k hu => (hfilter b u k).trans (and_iff_left fun h => absurd h hu)
    rw [← heff, ← hbase] at hiff
    refine hiff.trans (forall₂_congr fun b k => ?_)
    rw [hfilter, hbase]
    exact ⟨fun h hk hb => h ⟨hb, fun _ => hk⟩, fun h hb => h (hb.2 rfl) hb.1⟩
  | receive t epId =>
    obtain ⟨hbase, ⟨hmsg, heff⟩ | ⟨hnone, heff⟩⟩ := recv_priorities epId x.sys t
    · have hiff := hx.restore_iff hallowed (fun _ _ _ _ => .rfl)
      rw [← heff, ← hbase] at hiff
      refine hiff.trans ?_
      rw [hbase]
      exact ⟨fun h _ => h, fun h => h hmsg⟩
    · rw [← heff, ← hbase] at hx
      exact ⟨fun _ hmsg => absurd hmsg hnone, fun _ => hx⟩

/-- **When donation is exact.**  Priorities that start at their base are exact all along a run
    exactly if no call lifts a holder above the thread it waits for, and no thread drops to
    its base priority while a higher one still waits for it. -/
theorem donation_exact_iff {s : Sys} {calls : List DonationCall}
    (hstart : ∀ t, s.effective t = s.base t)
    (hallowed : During DonationCall.Allowed ⟨s, fun _ => none⟩ calls) :
    ExactDuring ⟨s, fun _ => none⟩ calls ↔ During DonationCall.Keeps ⟨s, fun _ => none⟩ calls := by
  have hexact : Donation.Exact ⟨s, fun _ => none⟩ := by
    rw [Donation.exact_iff, inherited_iff]
    exact fun t => ⟨(hstart t).ge, by simp, .inl (hstart t)⟩
  generalize Donation.mk s (fun _ => none) = x at *
  induction calls generalizing x with
  | nil => exact ⟨fun _ => trivial, fun _ => hexact⟩
  | cons c cs ih =>
    have hstep := hexact.step_iff hallowed.1
    constructor
    · rintro ⟨-, hrest⟩
      have hnext : (c.run x).Exact := by
        cases cs <;> first | exact hrest | exact hrest.1
      exact ⟨hstep.mp hnext, (ih _ hallowed.2 hnext).mp hrest⟩
    · rintro ⟨hkeeps, hrest⟩
      exact ⟨hexact, (ih _ hallowed.2 (hstep.mpr hkeeps)).mpr hrest⟩

/-- Every thread has its address as priority. -/
def donors : Donation :=
  ⟨Sys.boot (fun t => Thread.new t.addr 0 t.addr) (fun _ => none) [], fun _ => none⟩

def low : ThreadPtr := ⟨1, by decide, by decide⟩

def middle : ThreadPtr := ⟨5, by decide, by decide⟩

def high : ThreadPtr := ⟨7, by decide, by decide⟩

theorem donation_exact_one_lock : ExactDuring donors [.block high low 0, .release low 0] := by
  have hallowed : During DonationCall.Allowed donors [.block high low 0, .release low 0] :=
    ⟨⟨rfl, by decide⟩, rfl, trivial⟩
  refine (donation_exact_iff (fun _ => rfl) hallowed).mpr ⟨?_, ?_, trivial⟩
  · intro u k _ hu
    cases hu
  · intro b k hk hb
    by_cases hbh : b = high
    · subst hbh
      cases hb
      exact absurd rfl hk
    · have hnone : ((DonationCall.block high low 0).run donors).waits b = none :=
        update_of_ne hbh ..
      cases hnone.symm.trans hb

/-- Two threads wait for two locks of one holder; when it releases one lock it falls back to
    its base priority, below the thread that still waits. -/
theorem release_drops_second_donor : During DonationCall.Allowed donors
        [.block middle low 0, .block high low 1, .release low 1] ∧
      ¬ ExactDuring donors [.block middle low 0, .block high low 1, .release low 1] := by
  refine ⟨⟨⟨rfl, by decide⟩, ⟨rfl, by decide⟩, rfl, trivial⟩, ?_⟩
  rintro ⟨-, -, -, hexact⟩
  have hle := (inherited_iff.mp hexact.1 low).2.1 middle 0 (by decide +kernel)
  exact absurd hle (by decide +kernel)

end TrainOS.Sched
