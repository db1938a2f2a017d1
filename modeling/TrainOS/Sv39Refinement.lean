import TrainOS.Sv39Walk

/-!
# Process page tables refine a finite map

Abstractly a process table is a map from 27-bit virtual page numbers to a frame with
its permissions.  Every sequence of mapping and unmapping calls on a zeroed root
leaves tables that translate exactly as the map obtained from the successful calls
(`process_tables_refine_map`).
-/

namespace TrainOS.Sv39

open ByteMemory Function RadixTable

/-! ### The abstract map -/

/-- A mapped page. -/
structure Mapping where
  frame : Nat
  r : Bool
  w : Bool
  x : Bool
  u : Bool
deriving DecidableEq, Repr

/-- Virtual page numbers to mapped pages. -/
abbrev PageMap := Nat → Option Mapping

def Mapping.translation (e : Mapping) (va : Nat) : Translation :=
  { pa := e.frame + va % PAGE_SIZE, r := e.r, w := e.w, x := e.x, u := e.u }

/-- The calls on one process table. -/
inductive PtCall where
  | mapPage (va pa : Nat) (r w x u : Bool)
  | mapUserPage (va pa : Nat) (r w : Bool)
  | unmapUserPage (va : Nat)
  | unmapUserPagePhys (va : Nat)

/-- A frame is mapped at a page-aligned address below `2 ^ 56`, with at least one of
    the permissions. -/
def PtCall.Valid : PtCall → Prop
  | .mapPage _ pa r w x _ => pa % PAGE_SIZE = 0 ∧ pa < 2 ^ 56 ∧ (r || w || x) = true
  | .mapUserPage _ pa r w => pa % PAGE_SIZE = 0 ∧ pa < 2 ^ 56 ∧ (r || w) = true
  | .unmapUserPage _ => True
  | .unmapUserPagePhys _ => True

def succeeded : Except String Unit → Bool
  | .ok _ => true
  | .error _ => false

def PtCall.exec (root : Nat) (s : Phys) : PtCall → Bool × Phys
  | .mapPage va pa r w x u =>
      let res := Sv39.mapPage s root va pa r w x u
      (succeeded res.1, res.2)
  | .mapUserPage va pa r w =>
      let res := Sv39.mapUserPage s root va pa r w
      (succeeded res.1, res.2)
  | .unmapUserPage va => (true, Sv39.unmapUserPage s root va)
  | .unmapUserPagePhys va =>
      let res := Sv39.unmapUserPagePhys s root va
      (res.1.isSome, res.2)

def PageMap.apply (A : PageMap) : PtCall → PageMap
  | .mapPage va pa r w x u => Function.update A (vpn va) (some ⟨pa, r, w, x, u⟩)
  | .mapUserPage va pa r w => Function.update A (vpn va) (some ⟨pa, r, w, false, true⟩)
  | .unmapUserPage va => Function.update A (vpn va) none
  | .unmapUserPagePhys va => Function.update A (vpn va) none

def execAll (root : Nat) : Phys → PageMap → List PtCall → Phys × PageMap
  | s, A, [] => (s, A)
  | s, A, c :: calls =>
      let res := c.exec root s
      execAll root res.2 (if res.1 then A.apply c else A) calls

/-! ### The simulation -/

variable {va va' pa : Nat}

theorem path_eq_iff : path va = path va' ↔ vpn va = vpn va' := by
  rw [vpn_eq_iff]
  unfold path
  simp

theorem atPage_path {r : Nat} (h : atPage r va r (path va')) : vpn va' = vpn va := by
  have hpre : path va <+: path va' := h.2
  have heq : path va = path va' := hpre.eq_of_length rfl
  exact (path_eq_iff.mp heq).symm

theorem Effect.lookup_other {ok : PTE → Prop} {s s' : Phys} {own own' : Own} {root : Nat}
    (h : Effect ok (atPage root va) s s' own own') (hroot : own root = some (root, []))
    (hne : vpn va' ≠ vpn va) :
    lookup (tables s'.mem) root (path va') = lookup (tables s.mem) root (path va') :=
  h.same root root [] (path va') hroot (by simp [path]) fun hat => hne (atPage_path hat)

def Mapping.pte (e : Mapping) : PTE := .page e.frame e.r e.w e.x e.u

/-- A mapped page has an aligned frame that fits an entry. -/
def Mapping.Sound (e : Mapping) : Prop := e.frame % PAGE_SIZE = 0 ∧ e.frame < 2 ^ 56

/-- The tables of `root` hold exactly the pages of the map, as last-level leaves. -/
structure Refines (root : Nat) (s : Phys) (own : Own) (A : PageMap) : Prop where
  tree : Tree anyEntry s own
  root_own : own root = some (root, [])
  found : ∀ va, lookup (tables s.mem) root (path va) = (A (vpn va)).map fun e => (e.pte, [])
  sound : ∀ v e, A v = some e → e.Sound

variable {root : Nat} {s s' : Phys} {own own' : Own} {A : PageMap}

theorem translation_page (halign : pa % PAGE_SIZE = 0) (hsmall : pa < 2 ^ 56)
    (r w x u : Bool) (va : Nat) :
    (PTE.page pa r w x u).translation (leafSize 0) va = ⟨pa + va % PAGE_SIZE, r, w, x, u⟩ := by
  obtain ⟨_, hr, hw, hx, hu, _⟩ := PTE.flags_page pa r w x u
  have hpa : (PTE.page pa r w x u).physAddr = pa := by
    rw [physAddr_eq, PTE.ppn_page hsmall, Nat.shiftRight_eq_div_pow]
    exact frame_mul halign
  unfold PTE.translation
  rw [hpa, hr, hw, hx, hu]
  rfl

section

variable (h : Refines root s own A)
include h

theorem Refines.translate (va : Nat) :
    translate s.mem (root * PAGE_SIZE) va = (A (vpn va)).map fun e => e.translation va := by
  rw [translate_eq_lookup, h.found va]
  rcases hA : A (vpn va) with _ | e
  · rfl
  · obtain ⟨halign, hsmall⟩ := h.sound _ e hA
    exact congrArg some (translation_page halign hsmall e.r e.w e.x e.u va)

theorem Refines.update {e : Option Mapping} (heff : Effect anyEntry (atPage root va) s s' own own')
    (hpage : lookup (tables s'.mem) root (path va) = e.map fun e => (e.pte, []))
    (hsound : ∀ e', e = some e' → e'.Sound) : Refines root s' own' (update A (vpn va) e) := by
  constructor
  case tree => exact heff.tree
  case root_own => exact heff.keep _ _ h.root_own
  case found =>
    intro va'
    by_cases hsame : vpn va' = vpn va
    · have hpath : path va' = path va := path_eq_iff.mpr hsame
      rw [hpath, hsame, update_self]
      exact hpage
    · rw [update_of_ne hsame, ← h.found va']
      exact heff.lookup_other h.root_own hsame
  case sound =>
    intro v e' he'
    by_cases hsame : v = vpn va
    · subst hsame
      rw [update_self] at he'
      exact hsound e' he'
    · rw [update_of_ne hsame] at he'
      exact h.sound v e' he'

theorem Refines.unchanged (heff : Effect anyEntry nowhere s s' own own') :
    Refines root s' own' A := by
  refine ⟨heff.tree, heff.keep _ _ h.root_own, ?_, h.sound⟩
  intro va
  rw [← h.found va]
  exact heff.same root root [] (path va) h.root_own (by simp [path]) id

theorem Refines.mapWith {err : String} {r w x u : Bool}
    {res : Except String Unit} (halign : pa % PAGE_SIZE = 0)
    (hsmall : pa < 2 ^ 56) (hrwx : (r || w || x) = true)
    (hrun : mapWith err s (root * PAGE_SIZE) va pa r w x u = (res, s')) :
    ∃ own', Refines root s' own' (if succeeded res then
      Function.update A (vpn va) (some ⟨pa, r, w, x, u⟩) else A) := by
  obtain ⟨own', heff, hfail, hok⟩ := mapWith_effect h.tree h.root_own hrun
  cases res with
  | error e => exact ⟨own', h.unchanged (hfail e rfl)⟩
  | ok v =>
    refine ⟨own', h.update heff ((hok rfl).trans (if_pos hrwx)) ?_⟩
    intro e' he'
    cases he'
    exact ⟨halign, hsmall⟩

theorem Refines.unmap (va : Nat) : Refines root (unmapUserPage s (root * PAGE_SIZE) va) own
      (Function.update A (vpn va) none) := by
  obtain ⟨heff, hcase⟩ := unmapUserPage_effect h.tree h.root_own va
  apply h.update heff
  · rcases hcase with hnone | ⟨hsame, hnone⟩
    · exact hnone
    · -- no entry to remove: the page was not mapped
      rw [hsame]
      rcases hA : A (vpn va) with _ | e
      · rw [h.found va, hA]
      · exact absurd ((h.found va).trans (by rw [hA]; rfl)) (hnone e.pte)
  · intro e' he'
    cases he'

/-- **One call.**  Tables that refine a map still do after any call, with the map
    updated when the call succeeded. -/
theorem Refines.exec {c : PtCall} (hvalid : c.Valid) :
    ∃ own', Refines root (c.exec (root * PAGE_SIZE) s).2 own'
      (if (c.exec (root * PAGE_SIZE) s).1 then A.apply c else A) := by
  cases c with
  | mapPage va pa r w x u =>
    obtain ⟨halign, hsmall, hrwx⟩ := hvalid
    exact h.mapWith halign hsmall hrwx rfl
  | mapUserPage va pa r w =>
    obtain ⟨halign, hsmall, hrw⟩ := hvalid
    have hrwx : (r || w || false) = true := by rw [Bool.or_false, hrw]
    exact h.mapWith halign hsmall hrwx rfl
  | unmapUserPage va => exact ⟨own, h.unmap va⟩
  | unmapUserPagePhys va =>
    rcases unmapUserPagePhys_eq s root va with ⟨e, _, hrun⟩ | ⟨_, hrun⟩
    · refine ⟨own, ?_⟩
      simp only [PtCall.exec, hrun, Option.isSome_some, if_true]
      exact h.unmap va
    · refine ⟨own, ?_⟩
      simp only [PtCall.exec, hrun, Option.isSome_none, Bool.false_eq_true, if_false]
      exact h

theorem Refines.execAll {calls : List PtCall} (hvalid : ∀ c ∈ calls, c.Valid) :
    ∃ own', Refines root (execAll (root * PAGE_SIZE) s A calls).1 own'
      (execAll (root * PAGE_SIZE) s A calls).2 := by
  induction calls generalizing s own A with
  | nil => exact ⟨own, h⟩
  | cons c calls ih =>
    obtain ⟨own', hstep⟩ := h.exec (hvalid c List.mem_cons_self)
    exact ih hstep fun d hd => hvalid d (List.mem_cons_of_mem c hd)

end

theorem Refines.zeroed (hzero : ∀ i, tables s.mem root i = .empty) (hpool : PoolOk s.pool)
    (hfresh : ∀ p ∈ frames s.pool, p / PAGE_SIZE ≠ root) :
    Refines root s (fun f => if f = root then some (root, []) else none) fun _ => none := by
  constructor
  case tree =>
    refine ⟨entryRule_any, fun _ _ _ _ => trivial, ?_, hpool, ?_⟩
    · intro f r p i g hf _ hbranch
      by_cases hroot : f = root
      · rw [hroot, hzero i] at hbranch
        cases hbranch
      · simp [hroot] at hf
    · intro p hp
      simp [hfresh p hp]
  case root_own => simp
  case found =>
    intro va
    exact lookup_cleared hzero (path va)
  case sound =>
    intro v e he
    cases he

theorem tables_zeroed {m : Memory} {f : Nat}
    (hzero : ∀ a, f * PAGE_SIZE ≤ a → a < f * PAGE_SIZE + PAGE_SIZE → m a = 0) (i : Fin 512) :
    tables m f i = .empty := by
  have hsame : tables m f i = tables (fun _ => 0) f i := by
    apply tables_congr
    rintro a rfl
    apply hzero
    · exact Nat.div_mul_le_self a PAGE_SIZE
    · exact Nat.lt_div_mul_add (by decide)
  exact hsame.trans (tables_zero f i)

/-- **Refinement.**  From a zeroed root, with an allocator that hands out fresh
    frames and may fail at any time, every sequence of calls leaves tables that
    translate every address as the map of the successful calls does. -/
theorem process_tables_refine_map {root : Nat} {s : Phys} {calls : List PtCall}
    (hroot : root % PAGE_SIZE = 0) (hzero : ∀ a, root ≤ a → a < root + PAGE_SIZE → s.mem a = 0)
    (hpool : PoolOk s.pool) (hfresh : root ∉ frames s.pool)
    (hvalid : ∀ c ∈ calls, c.Valid) (va : Nat) :
    translate (execAll root s (fun _ => none) calls).1.mem root va =
      ((execAll root s (fun _ => none) calls).2 (vpn va)).map fun e => e.translation va := by
  obtain ⟨f, rfl⟩ : ∃ f, root = f * PAGE_SIZE := ⟨root / PAGE_SIZE, (frame_mul hroot).symm⟩
  have hother : ∀ p ∈ frames s.pool, p / PAGE_SIZE ≠ f := by
    rintro p hp rfl
    rw [frame_mul (hpool.frame p hp).1] at hfresh
    exact hfresh hp
  have hstart := Refines.zeroed (tables_zeroed hzero) hpool hother
  obtain ⟨own, hend⟩ := hstart.execAll hvalid
  exact hend.translate va

/-- Two pages are mapped and one of them unmapped; a fourth call finds no frame for a table. -/
theorem process_tables_refine_map_four_calls :
    let calls : List PtCall :=
      [.mapPage 0x1000 0x80004000 true false true true, .mapUserPage 0x2000 0x80005000 true true,
        .unmapUserPage 0x2000, .mapUserPage 0x40000000 0x80006000 true false]
    let s : Phys := { mem := fun _ => 0, pool := [some 0x80002000, some 0x80003000, none] }
    let m := (execAll 0x80001000 s (fun _ => none) calls).1.mem
    translate m 0x80001000 0x1234 = some ⟨0x80004234, true, false, true, true⟩ ∧
      translate m 0x80001000 0x2000 = none ∧ translate m 0x80001000 0x40000000 = none := by
  intro calls s m
  have hvalid : ∀ c ∈ calls, c.Valid := by simp [calls, PtCall.Valid, PAGE_SIZE]
  have hrefine : ∀ va, translate m 0x80001000 va = _ := process_tables_refine_map (s := s)
    (by decide) (fun _ _ _ => rfl) ⟨by decide, by decide⟩ (by decide) hvalid
  refine ⟨(hrefine 0x1234).trans ?_, (hrefine 0x2000).trans ?_, (hrefine 0x40000000).trans ?_⟩ <;>
    decide +kernel

end TrainOS.Sv39
