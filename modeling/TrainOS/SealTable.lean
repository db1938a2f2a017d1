import TrainOS.MemoryCalls

/-!
# The table of sealed ranges (`mem/mseal.rs`)

Beside the table stands the set of the ranges that were sealed and not unsealed since.  The
table lists exactly that set (`SealInv`), so `is_sealed` answers for the set: whether the
range it is asked about shares a byte with a member.
-/

namespace TrainOS.Sv39

open List MachineWord

/-- The entries behind the removed one move up by one slot. -/
def munseal (seals : Table MemSeal MAX_SEALS) (pid start len : Nat) :
    Except String (Table MemSeal MAX_SEALS) :=
  if start % PAGE_SIZE ≠ 0 then .error "munseal: unaligned address"
  else if len = 0 then .error "munseal: zero length"
  else
    let entry : MemSeal := ⟨pid, start, wrapAdd start len⟩
    if entry ∈ seals.entries then
      .ok ⟨seals.entries.erase entry, length_erase_le.trans seals.length_le⟩
    else .error "munseal: no matching seal found"

/-- The arguments are the words that the caller has in its registers. -/
inductive SealCall where
  | mseal (pid : UInt32) (start len : UInt64)
  | munseal (pid : UInt32) (start len : UInt64)

def SealCall.run (seals : Table MemSeal MAX_SEALS) :
    SealCall → Except String (Table MemSeal MAX_SEALS)
  | .mseal pid start len => Sv39.mseal seals pid.toNat start.toNat len.toNat
  | .munseal pid start len => Sv39.munseal seals pid.toNat start.toNat len.toNat

/-- What a call that succeeds does to the set of sealed ranges. -/
def SealCall.apply (live : Set MemSeal) : SealCall → Set MemSeal
  | .mseal pid start len => insert ⟨pid.toNat, start.toNat, start.toNat + len.toNat⟩ live
  | .munseal pid start len => live \ {⟨pid.toNat, start.toNat, start.toNat + len.toNat⟩}

/-- The table, and the ranges that were sealed and not unsealed since. -/
structure SealHistory where
  seals : Table MemSeal MAX_SEALS
  live : Set MemSeal

def SealHistory.start : SealHistory := ⟨.empty, ∅⟩

def SealHistory.step (h : SealHistory) (c : SealCall) : SealHistory :=
  match c.run h.seals with
  | .ok seals => ⟨seals, c.apply h.live⟩
  | .error _ => h

def MemSeal.Apart (a b : MemSeal) : Prop := a.pid = b.pid → a.stop ≤ b.start ∨ b.stop ≤ a.start

structure SealInv (h : SealHistory) : Prop where
  listed : ∀ e, e ∈ h.seals.entries ↔ e ∈ h.live
  range : ∀ e ∈ h.seals.entries, e.start % PAGE_SIZE = 0 ∧ e.start < e.stop
  apart : h.seals.entries.Pairwise MemSeal.Apart

variable {seals seals' : Table MemSeal MAX_SEALS} {pid start len : Nat} {h : SealHistory}

/-! ### Calls that succeed -/

theorem mseal_eq_ok (hcall : mseal seals pid start len = .ok seals') :
    start % PAGE_SIZE = 0 ∧ len ≠ 0 ∧ start ≤ wrapAdd start len ∧
      (∀ e ∈ seals.entries, e.Apart ⟨pid, start, wrapAdd start len⟩) ∧
      seals'.entries = seals.entries ++ [⟨pid, start, wrapAdd start len⟩] := by
  simp only [mseal] at hcall
  split_ifs at hcall with haligned hlen hwrap hoverlap
  split at hcall <;> cases hcall
  next hpush =>
    refine ⟨Decidable.not_not.mp haligned, hlen, not_lt.mp hwrap, fun e he hpid => ?_,
      Table.entries_of_push? hpush⟩
    by_contra hover
    refine hoverlap (any_eq_true.mpr ⟨e, he, ?_⟩)
    simp only [not_or, not_le] at hover
    simp [hpid, hover]

/-- A sum that is not smaller than its first word has not wrapped. -/
theorem wrapAdd_of_le {start len : UInt64} (hle : start.toNat ≤ wrapAdd start.toNat len.toNat) :
    wrapAdd start.toNat len.toNat = start.toNat + len.toNat := by
  have hstart := start.toNat_lt
  have hlt := len.toNat_lt
  unfold wrapAdd WORD at *
  omega

theorem SealInv.nodup (hinv : SealInv h) : h.seals.entries.Nodup := by
  refine hinv.apart.imp_of_mem fun {a b} ha hb hapart heq => ?_
  have hrange := (hinv.range a ha).2
  have := hapart (congrArg MemSeal.pid heq)
  rw [← heq] at this
  omega

theorem SealInv.step (hinv : SealInv h) (c : SealCall) : SealInv (h.step c) := by
  unfold SealHistory.step
  cases hrun : c.run h.seals with
  | error msg => exact hinv
  | ok seals =>
    cases c with
    | mseal pid start len =>
      obtain ⟨haligned, hlen, hle, hapart, hentries⟩ := mseal_eq_ok hrun
      rw [wrapAdd_of_le hle] at hapart hentries
      refine ⟨fun e => ?_, ?_, ?_⟩
      · simp [SealCall.apply, hentries, hinv.listed, or_comm]
      · show ∀ e ∈ seals.entries, _
        rw [hentries]
        exact forall_mem_append.mpr ⟨hinv.range, forall_mem_singleton.mpr
          ⟨haligned, Nat.lt_add_of_pos_right (Nat.pos_of_ne_zero hlen)⟩⟩
      · show seals.entries.Pairwise MemSeal.Apart
        rw [hentries]
        refine pairwise_append.mpr ⟨hinv.apart, pairwise_singleton _ _, fun e he e' he' => ?_⟩
        obtain rfl := mem_singleton.mp he'
        exact hapart e he
    | munseal pid start len =>
      simp only [SealCall.run, munseal] at hrun
      split_ifs at hrun with haligned hlen hmem
      cases hrun
      have hsum := wrapAdd_of_le (hinv.range _ hmem).2.le
      refine ⟨fun e => ?_, fun e he => hinv.range e (mem_of_mem_erase he),
        hinv.apart.sublist erase_sublist⟩
      simp [SealCall.apply, hsum, hinv.nodup.mem_erase_iff, hinv.listed, and_comm]

theorem SealInv.run (calls : List SealCall) : SealInv (calls.foldl SealHistory.step .start) := by
  refine foldlRecOn calls _ ?_ fun _ hinv c _ => hinv.step c
  exact ⟨by simp [SealHistory.start, Table.empty], by simp [SealHistory.start, Table.empty],
    .nil⟩

/-- **The table of sealed ranges.**  After any calls the ranges of a process are page-aligned,
    not empty and disjoint; `is_sealed` is true exactly when the range shares a byte with one
    that was sealed and not unsealed; and a call that fails changes no answer. -/
theorem seal_table_exact (calls : List SealCall) :
    let h := calls.foldl SealHistory.step .start
    (h.seals.entries.Pairwise fun a b => a.pid = b.pid → a.stop ≤ b.start ∨ b.stop ≤ a.start) ∧
      (∀ e ∈ h.seals.entries, e.start % PAGE_SIZE = 0 ∧ e.start < e.stop) ∧
      (∀ pid addr len, 0 < len → addr + len < WORD →
        (isSealed h.seals pid addr len = true ↔ ∃ e ∈ h.live, e.pid = pid ∧
          ∃ b, (addr ≤ b ∧ b < addr + len) ∧ e.start ≤ b ∧ b < e.stop)) ∧
      ∀ c msg, c.run h.seals = .error msg → ∀ pid addr len,
        isSealed (h.step c).seals pid addr len = isSealed h.seals pid addr len := by
  intro h
  have hinv : SealInv h := .run calls
  refine ⟨hinv.apart, hinv.range, fun pid addr len hlen hfits => ?_, fun c msg hfail => ?_⟩
  · have hsat : satAdd addr len = addr + len := Nat.min_eq_left (Nat.le_sub_one_of_lt hfits)
    simp only [isSealed, if_neg hlen.ne', hsat, any_eq_true, hinv.listed]
    refine exists_congr fun e => and_congr_right fun he => ?_
    have hrange := (hinv.range e ((hinv.listed e).mpr he)).2
    simp only [Bool.and_eq_true, beq_iff_eq, decide_eq_true_eq, and_assoc]
    refine and_congr_right fun _ => ?_
    -- two ranges that are not empty overlap when they share a byte
    constructor
    · intro h
      exact ⟨max addr e.start, by omega⟩
    · rintro ⟨b, h⟩
      omega
  · simp [SealHistory.step, hfail]

end TrainOS.Sv39
