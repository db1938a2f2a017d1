import TrainOS.Fork

/-!
# Loading a program (`proc/elf.rs`, `mem/sv39.rs`)

`load_elf` maps the segments of a file, copies the file's bytes, maps the user stack and runs
`force_wxorx`.  Its walk `walk_pt` does not stop at leaves.  Program headers may be read beyond
the length of the file, so the bytes there are arbitrary.  `none` is the panic of `expect`.
-/

namespace TrainOS.Sv39

open ByteMemory MachineWord

/-! ### Walks that follow leaves -/

/-- One level of `walk_pt`: any valid entry is taken for a pointer. -/
def followTable (s : Phys) (table : Nat) (i : Fin 512) (alloc : Bool) : Option Nat × Phys :=
  let e := readPte s.mem table i
  if !e.isValid then
    if alloc then newTable s table i else (none, s)
  else (some e.physAddr, s)

def walkPt (s : Phys) (root va : Nat) (alloc : Bool) : Option (Nat × Fin 512) × Phys :=
  match followTable s root (vpn2 va) alloc with
  | (none, s) => (none, s)
  | (some l1, s) =>
      match followTable s l1 (vpn1 va) alloc with
      | (none, s) => (none, s)
      | (some l0, s) => (some (l0, vpn0 va), s)

def mapIntoPt (s : Phys) (root va pa : Nat) (r w x u : Bool) : Option Phys :=
  match walkPt s root va true with
  | (none, _) => none
  | (some (l0, i), s) => some { s with mem := writePte s.mem l0 i (.page pa r w x u) }

def virtToPhysInPt (s : Phys) (root va : Nat) : Option Nat :=
  match walkPt s root va false with
  | (none, _) => none
  | (some (l0, i), s) =>
      let e := readPte s.mem l0 i
      if e.isValid && e.isLeaf then some (e.physAddr ||| (va &&& (PAGE_SIZE - 1))) else none

/-! ### Clearing X on writable pages -/

def clearX (table : Nat) (m : Memory) (i : Fin 512) : Memory :=
  let e := readPte m table i
  if e.isUser && e.isWritable && e.isExecutable then
    writePte m table i (e.setFlags e.isReadable e.isWritable false e.isUser)
  else m

def wxorxPage (l0 : Nat) (m : Memory) (i : Fin 512) : Memory :=
  if !(readPte m l0 i).isValid then m else clearX l0 m i

def wxorxTable (l1 : Nat) (m : Memory) (i : Fin 512) : Memory :=
  let e := readPte m l1 i
  if !e.isValid then m
  else if e.isLeaf then clearX l1 m i
  else (List.finRange 512).foldl (wxorxPage e.physAddr) m

def wxorxRegion (root : Nat) (m : Memory) (i : Fin 512) : Memory :=
  let e := readPte m root i
  if !e.isValid || e.isLeaf then m
  else (List.finRange 512).foldl (wxorxTable e.physAddr) m

def forceWxorx (root : Nat) (m : Memory) : Memory := userEntries.foldl (wxorxRegion root) m

/-! ### Segments -/

def PT_LOAD : Nat := 1

def PF_X : Nat := 1

def PF_W : Nat := 2

def PF_R : Nat := 4

/-- The fields of a program header that the loader reads. -/
structure Elf64Phdr where
  pType : Nat
  pFlags : Nat
  pOffset : Nat
  pVaddr : Nat
  pFilesz : Nat
  pMemsz : Nat

namespace Elf64Phdr

def read (elf : Memory) (a : Nat) : Elf64Phdr where
  pType := readLE elf a 4
  pFlags := readLE elf (a + 4) 4
  pOffset := readLE elf (a + 8) 8
  pVaddr := readLE elf (a + 16) 8
  pFilesz := readLE elf (a + 32) 8
  pMemsz := readLE elf (a + 40) 8

def r (ph : Elf64Phdr) : Bool := ph.pFlags &&& PF_R != 0

def w (ph : Elf64Phdr) : Bool := ph.pFlags &&& PF_W != 0

def x (ph : Elf64Phdr) : Bool := ph.pFlags &&& PF_X != 0

def isLoaded (ph : Elf64Phdr) : Bool := ph.pType == PT_LOAD && ph.pMemsz != 0

def pages (ph : Elf64Phdr) : List Nat :=
  let segStart := pageAlignDown ph.pVaddr
  let segEnd := pageAlignUp (wrapAdd ph.pVaddr ph.pMemsz)
  (List.range ((segEnd - segStart + (PAGE_SIZE - 1)) / PAGE_SIZE)).map fun k =>
    segStart + k * PAGE_SIZE

def isCopied (len : Nat) (ph : Elf64Phdr) : Bool :=
  decide (0 < ph.pFilesz) && decide (wrapAdd ph.pOffset ph.pFilesz ≤ len)

end Elf64Phdr

def loadPage (root : Nat) (ph : Elf64Phdr) (s : Phys) (pageVa : Nat) : Option Phys :=
  match s.allocPage with
  | (none, _) => none
  | (some phys, s) =>
      mapIntoPt { s with mem := fill s.mem phys PAGE_SIZE 0 } root pageVa phys ph.r ph.w ph.x true

/-- One pass of the copy loop: at most up to the end of the page. -/
def copyChunk (elf : Memory) (root : Nat) (ph : Elf64Phdr) (copyVa chunk : Nat) (s : Phys) :
    Option Phys :=
  match virtToPhysInPt s root copyVa with
  | none => none
  | some phys =>
      let src := wrapAdd ph.pOffset (wrapSub copyVa ph.pVaddr)
      some { s with mem := copyFrom s.mem phys elf src chunk }

def chunkLen (copyVa remaining : Nat) : Nat := min remaining (PAGE_SIZE - copyVa % PAGE_SIZE)

theorem chunkLen_pos {copyVa remaining : Nat} (h : remaining ≠ 0) :
    0 < chunkLen copyVa remaining := by
  have hoff : copyVa % PAGE_SIZE < PAGE_SIZE := Nat.mod_lt _ (by decide)
  exact lt_min (Nat.pos_of_ne_zero h) (Nat.sub_pos_of_lt hoff)

def copySegment (elf : Memory) (root : Nat) (ph : Elf64Phdr) (copyVa remaining : Nat) (s : Phys) :
    Option Phys :=
  if remaining = 0 then some s
  else
    (copyChunk elf root ph copyVa (chunkLen copyVa remaining) s).bind fun s =>
      copySegment elf root ph (wrapAdd copyVa (chunkLen copyVa remaining))
        (remaining - chunkLen copyVa remaining) s
termination_by remaining
decreasing_by exact Nat.sub_lt (Nat.pos_of_ne_zero ‹_›) (chunkLen_pos ‹_›)

def loadSegment (elf : Memory) (len root : Nat) (s : Phys) (ph : Elf64Phdr) : Option Phys :=
  if ph.isLoaded then
    match ph.pages.foldlM (loadPage root ph) s with
    | none => none
    | some s =>
        if ph.isCopied len then copySegment elf root ph ph.pVaddr ph.pFilesz s else some s
  else some s

/-! ### The loader -/

def STACK_BOTTOM : Nat := 0x3FFFFFF000

/-- The checks on the file header; the program headers if they pass. -/
def elfHeaders (elf : Memory) (len : Nat) : Option (List Elf64Phdr) :=
  let phoff := readLE elf 32 8
  let phentsize := readLE elf 54 2
  let phnum := readLE elf 56 2
  if len < 64 then none
  else if readLE elf 0 4 ≠ 0x464C457F then none
  else if readLE elf 18 2 ≠ 243 then none
  else if len < wrapAdd phoff (wrapMul phnum phentsize) then none
  else some ((List.range phnum).map fun i =>
    Elf64Phdr.read elf (wrapAdd phoff (wrapMul i phentsize)))

def loadElf (elf : Memory) (len root : Nat) (s : Phys) : Option (Option (Nat × Nat) × Phys) :=
  match elfHeaders elf len with
  | none => some (none, s)
  | some headers =>
      match headers.foldlM (loadSegment elf len root) s with
      | none => none
      | some s =>
          match s.allocPage with
          | (none, s) => some (none, s)
          | (some stackPhys, s) =>
              match mapIntoPt { s with mem := fill s.mem stackPhys PAGE_SIZE 0 } root
                  STACK_BOTTOM stackPhys true true false true with
              | none => none
              | some s =>
                  some (some (readLE elf 24 8, STACK_BOTTOM + PAGE_SIZE - 16),
                    { s with mem := forceWxorx root s.mem })

end TrainOS.Sv39
