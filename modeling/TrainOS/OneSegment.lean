import TrainOS.TableGrowth

/-!
# Programs of one page

A file with a single page to map and nothing to copy: with enough free frames `spawn`
makes a process of it, and the page is mapped as the file asks, unless `force_wxorx`
takes X from it.
-/

namespace TrainOS.Sv39

open ByteMemory RadixTable

variable {s s' : Phys} {own own' : Own} {kr t : Nat} {K : List (Fin 512) → Found}
variable {R : Nat → Prop} {Q : Nat → List (Fin 512) → PTE → Prop} {n va : Nat}

theorem HasFrames.drop {pool : List (Option Nat)} {k : Nat} (hs : HasFrames pool (n + k)) :
    HasFrames (pool.drop k) n := by
  refine ⟨?_, fun hmem => hs.2 (List.mem_of_mem_drop hmem)⟩
  rw [List.length_drop]
  exact Nat.le_sub_of_add_le hs.1

/-- A fresh page is mapped, and no other page changes. -/
theorem TablesInv.mapZeroed {r w x : Bool}
    (h : TablesInv (fun _ _ _ => True) K kr R s own) (ht : R t) (hva : K (path va) = none)
    (hrwx : (r || w || x) = true) (hs : HasFrames s.pool (n + 3)) :
    ∃ pa s1 s2 own', s.allocPage = (some pa, s1) ∧
      Sv39.mapIntoPt { s1 with mem := fill s1.mem pa PAGE_SIZE 0 } (t * PAGE_SIZE) va pa r w x
        true = some s2 ∧
      HasFrames s2.pool n ∧ TablesInv (fun _ _ _ => True) K kr R s2 own' ∧
      lookup (tables s2.mem) t (path va) = some (.page pa r w x true, []) ∧
      ∀ p, p.length = 3 → p ≠ path va →
        lookup (tables s2.mem) t p = lookup (tables s.mem) t p := by
  obtain ⟨pa, rest, hpool, hrest⟩ := HasFrames.cons (n := n + 2) hs
  have halloc : s.allocPage = (some pa, { s with pool := rest }) := by
    simp [Phys.allocPage, hpool]
  obtain ⟨h1, hd⟩ := h.alloc_zeroed halloc
  have hroot := h1.root_own t ht
  -- two frames are enough for the tables that are missing
  obtain ⟨k, hk⟩ := Nat.exists_eq_add_of_le
    ((hasTable (fill s.mem pa PAGE_SIZE 0) t).need_le va)
  rw [hk, Nat.add_comm _ k, ← Nat.add_assoc] at hrest
  obtain ⟨s2, hmap, _, heff, hfound, hgrown⟩ :=
    (mapIntoPt_attempt h1.tree hroot pa r w x true (h1.noSuperpage ht hva)).elim
      (hrest.supplies.mono (Nat.le_add_left _ _))
  obtain ⟨own2, h2⟩ := h1.mapIntoPt ht hva (hd _ _ _ _) (fun _ => trivial) hmap
  refine ⟨pa, _, s2, own2, halloc, hmap, ?_, h2, by rw [hfound, if_pos hrwx], ?_⟩
  · rw [hgrown.pool]
    exact hrest.drop.weaken
  · intro p hp hne
    rw [heff.lookup_root hroot hp.le fun ha => hne (atPage_full hp ha).2]
    have htake := (takeFrame_effect h.tree hpool fun _ => fill_page (h.tree.next_frame hpool).1).1
    exact htake.lookup_root (h.root_own t ht) hp.le id

/-- A file with one page to map and nothing to copy. -/
structure OnePage (elf : Memory) (len : Nat) (ph : Elf64Phdr) (va : Nat) : Prop where
  headers : elfHeaders elf len = some [ph]
  loaded : ph.isLoaded = true
  pages : ph.pages = [va]
  copied : ph.isCopied len = false
  rwx : (ph.r || ph.w || ph.x) = true

variable {ph : Elf64Phdr} {elf : Memory} {len : Nat}

/-- A file with one page is loaded if there are six frames. -/
theorem loadElf_onePage (helf : OnePage elf len ph va)
    (h : TablesInv (fun _ _ _ => True) K kr R s own) (ht : R t)
    (hva : K (path va) = none) (hstack : K (path STACK_BOTTOM) = none)
    (hne : path va ≠ path STACK_BOTTOM) (hs : HasFrames s.pool (n + 6)) :
    ∃ pa entry s', loadElf elf len (t * PAGE_SIZE) s = some (some entry, s') ∧
      HasFrames s'.pool n ∧
      ((ph.w && ph.x) = false ∨ (¬ ∃ i ∈ userEntries, [i] <+: path va) →
        lookup (tables s'.mem) t (path va) = some (.page pa ph.r ph.w ph.x true, [])) := by
  obtain ⟨pa, s1, s2, own2, halloc, hmap, hs2, h2, hfound, _⟩ :=
    h.mapZeroed (n := n + 3) ht hva helf.rwx hs
  obtain ⟨stack, s3, s4, own4, hallocStack, hmapStack, hs4, h4, _, hsame⟩ :=
    h2.mapZeroed (n := n) (r := true) (w := true) (x := false) ht hstack rfl hs2
  have hseg : loadSegment elf len (t * PAGE_SIZE) s ph = some s2 := by
    simp [loadSegment, helf.loaded, helf.pages, helf.copied, loadPage, halloc, hmap]
  have hrun : loadElf elf len (t * PAGE_SIZE) s =
      some (some (readLE elf 24 8, STACK_BOTTOM + PAGE_SIZE - 16),
        { s4 with mem := forceWxorx (t * PAGE_SIZE) s4.mem }) := by
    simp [loadElf, helf.headers, hseg, hallocStack, hmapStack]
  refine ⟨pa, _, _, hrun, hs4, ?_⟩
  have hmapped := (hsame (path va) (path_length va) hne).trans hfound
  obtain ⟨heff, hscrub, _⟩ := forceWxorx_effect h4.tree (h4.root_own t ht)
  generalize forceWxorx (t * PAGE_SIZE) s4.mem = m' at *
  rintro (hsafe | hhigh)
  · rcases hscrub.lookup t (path va) with hkept | ⟨e, rest, hold, hnew⟩
    · exact hkept.trans hmapped
    · cases hold.symm.trans hmapped
      have hno : (PTE.page pa ph.r ph.w ph.x true).isWx = false := by
        rw [PTE.isWx_page, Bool.true_and, hsafe]
      rw [PTE.withoutX_of_not_wx hno] at hnew
      exact hnew
  · exact (heff.lookup_root (h4.root_own t ht) (path_length va).le fun ha => hhigh ha.2).trans
      hmapped

theorem HasFrames.addProcess (hs : HasFrames s.pool (n + 1)) (k : Kernel) (pid root : Nat) :
    ∃ k', addProcess k s pid root = (some pid, k') ∧ HasFrames k'.phys.pool n ∧
      k'.phys.mem = s.mem ∧ k'.processes = k.processes ++ [⟨pid, root⟩] := by
  obtain ⟨kstack, rest, hpool, hrest⟩ := hs.cons
  simp only [Sv39.addProcess, Phys.allocPage, hpool]
  exact ⟨_, rfl, hrest, rfl, rfl⟩

/-- **Spawn.**  With enough frames the file becomes a process with its page mapped. -/
theorem spawn_onePage {k : Kernel} (helf : OnePage elf len ph va)
    (h : TablesInv Q K kr R k.phys own)
    (hva : K (path va) = none) (hstack : K (path STACK_BOTTOM) = none)
    (hne : path va ≠ path STACK_BOTTOM) (hs : HasFrames k.phys.pool (n + 520)) :
    ∃ pa c k', spawn (kr * PAGE_SIZE) elf len k = some (some k.nextPid, k') ∧
      HasFrames k'.phys.pool n ∧ k'.processes = k.processes ++ [⟨k.nextPid, c * PAGE_SIZE⟩] ∧
      ((ph.w && ph.x) = false ∨ (¬ ∃ i ∈ userEntries, [i] <+: path va) →
        lookup (tables k'.phys.mem) c (path va) = some (.page pa ph.r ph.w ph.x true, [])) := by
  obtain ⟨root, rest, hpool, hrest⟩ := HasFrames.cons (n := n + 519) hs
  have halloc : k.phys.allocPage = (some root, { k.phys with pool := rest }) := by
    simp [Phys.allocPage, hpool]
  obtain ⟨s2, hcopy, hs2⟩ := HasFrames.copyLoop (n := n + 7)
    (s := { mem := k.phys.mem, pool := rest }) (kr * PAGE_SIZE) root (List.finRange 512)
    (by simpa using hrest)
  have hcopy' : copyKernelMappings (kr * PAGE_SIZE) root { k.phys with pool := rest } = some s2 :=
    hcopy
  obtain ⟨c, own2, rfl, _, _, h2⟩ := h.newRoot halloc hcopy'
  have hany : TablesInv (fun _ _ _ => True) K kr (fun t => R t ∨ t = c) s2 own2 :=
    h2.mono (fun _ ht => ht) fun _ _ _ _ _ _ _ => trivial
  obtain ⟨pa, entry, s3, hload, hs3, hfound⟩ :=
    loadElf_onePage (n := n + 1) helf hany (.inr rfl) hva hstack hne hs2
  obtain ⟨k', hadd, hs', hmem, hproc⟩ :=
    hs3.addProcess k.takePid k.nextPid (c * PAGE_SIZE)
  refine ⟨pa, c, k', ?_, hs', hproc, ?_⟩
  · simp [spawn, halloc, hcopy', hload, hadd]
  · rw [hmem]
    exact hfound

end TrainOS.Sv39
