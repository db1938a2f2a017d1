import TrainOS.MachineWord

/-!
# Memory layout (`mem/layout.rs`) and address arithmetic (`mem/sv39.rs`)
-/

namespace TrainOS

open MachineWord

def DRAM_BASE : Nat := 0x80000000

def PAGE_SIZE : Nat := 4096

def KERNEL_VBASE : Nat := 0xFFFFFFC000000000

def CLINT_BASE : Nat := 0x02000000

def vpnField (shift va : Nat) : Fin 512 :=
  ⟨(va >>> shift) &&& 0x1FF, Nat.and_lt_two_pow (n := 9) _ (by decide)⟩

def vpn2 (va : Nat) : Fin 512 := vpnField 30 va

def vpn1 (va : Nat) : Fin 512 := vpnField 21 va

def vpn0 (va : Nat) : Fin 512 := vpnField 12 va

def pageAlignDown (va : Nat) : Nat := va - va % PAGE_SIZE

/-- `(va + PAGE_SIZE - 1) & !(PAGE_SIZE - 1)`; the sum wraps. -/
def pageAlignUp (va : Nat) : Nat := pageAlignDown (wrapAdd va (PAGE_SIZE - 1))

theorem frame_div (f : Nat) : f * PAGE_SIZE / PAGE_SIZE = f := Nat.mul_div_cancel f (by decide)

theorem vpnField_val (shift va : Nat) : (vpnField shift va).val = va / 2 ^ shift % 512 := by
  show (va >>> shift) &&& 0x1FF = _
  have hmask : 0x1FF = 2 ^ 9 - 1 := rfl
  rw [hmask, Nat.and_two_pow_sub_one_eq_mod, Nat.shiftRight_eq_div_pow]

def vpn (va : Nat) : Nat := va / PAGE_SIZE % 2 ^ 27

theorem vpn_eq (va : Nat) :
    vpn va = (vpn2 va).val * 2 ^ 18 + (vpn1 va).val * 2 ^ 9 + (vpn0 va).val := by
  unfold vpn vpn2 vpn1 vpn0 PAGE_SIZE
  rw [vpnField_val, vpnField_val, vpnField_val]
  omega

theorem vpn_eq_iff {va va' : Nat} :
    vpn va = vpn va' ↔ vpn2 va = vpn2 va' ∧ vpn1 va = vpn1 va' ∧ vpn0 va = vpn0 va' := by
  rw [vpn_eq, vpn_eq]
  constructor
  · intro h
    refine ⟨Fin.ext ?_, Fin.ext ?_, Fin.ext ?_⟩ <;> omega
  · rintro ⟨h2, h1, h0⟩
    rw [h2, h1, h0]

end TrainOS
