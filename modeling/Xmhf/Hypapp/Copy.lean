import Xmhf.Hypapp.Quiesce

/-!
# Copying from the guest

`copy_from_gva_to_hva` translates the first address of the range, takes the result for a host address and
copies from there. `gva2gpa` and `memcpy` read through the host's page table, by the translation in force
(`Call.tlb`); the destination is a buffer of the hypervisor apart from the source.

`Call.CopyExact` is for the guest's page tables as they are and whatever else is in memory.
-/

namespace Xmhf.Hypapp

open Xmhf.Memory Xmhf.Word Xmhf.Paging

/-- `gpa2hva`: a host pointer has 32 bits. -/
def gpa2hva (gpa : BitVec 64) : BitVec 32 := gpa.setWidth 32

section
variable {r : Rpb} (c : Call r) (m : Mem)

/-- `memcpy`: the buffer `dst` with the `n` bytes at the host's address `src` in it; `none` is a page
fault. -/
def Call.memcpy (dst : Nat → BitVec 8) (src : Nat) : Nat → Option (Nat → BitVec 8)
  | 0 => some dst
  | n + 1 => do
    let buf ← Call.memcpy dst src n
    let a ← c.tlb (add32 src n)
    return Function.update buf n (m a)

/-- `copy_from_gva_to_hva` -/
def Call.copyFromGvaToHva (vaddr : BitVec 32) (dst : Nat → BitVec 8) (len : BitVec 32) :
    Option (Nat → BitVec 8) := do
  let gpa ← c.gva2gpa m vaddr
  c.memcpy m dst (gpa2hva gpa).toNat len.toNat

/-- Each byte copied is the one at the guest-physical address of the byte. -/
def Call.CopiesGuest (va : BitVec 32) (dst : Nat → BitVec 8) (len : BitVec 32) : Prop :=
  ∃ buf, c.copyFromGvaToHva m va dst len = some buf ∧
    ∀ i < len.toNat, ∃ p, c.gva2gpa m (va + BitVec.ofNat 32 i) = some p ∧ buf i = m p.toNat

/-! ## The guest's page tables -/

/-- Where the directory's entry for an address is read. -/
def Call.pdeAt (va : BitVec 32) : Option Nat :=
  c.tlb ((npaeGetAddr c.guestCr3).toNat + 4 * (va.toNat / 2 ^ 22))

/-- Where the table's entry for an address is read, when the directory's entry is `pde`. -/
def Call.pteAt (pde : BitVec 32) (va : BitVec 32) : Option Nat :=
  c.tlb ((npaeGetAddr pde).toNat + 4 * (va.toNat / 2 ^ 12 % 1024))

/-- The byte at `a` is of an entry by which `va` is translated. -/
def Call.TableByte (va : BitVec 32) (a : Nat) : Prop :=
  ∃ pd, c.pdeAt va = some pd ∧ (pd ≤ a ∧ a < pd + 4 ∨ (load32 m pd).getLsbD 7 = false ∧
    ∃ pt, c.pteAt (load32 m pd) va = some pt ∧ pt ≤ a ∧ a < pt + 4)

/-- The byte at `a` is of an entry by which the start of the range or an address in it is translated. -/
def Call.InTables (va len : BitVec 32) (a : Nat) : Prop :=
  ∃ i, (i = 0 ∨ i < len.toNat) ∧ c.TableByte m (va + BitVec.ofNat 32 i) a

/-- The copy is right with these page tables, whatever else is in memory. -/
def Call.CopyExact (va : BitVec 32) (dst : Nat → BitVec 8) (len : BitVec 32) : Prop :=
  ∀ m', (∀ a, c.InTables m va len a → m' a = m a) → c.CopiesGuest m' va dst len

end

end Xmhf.Hypapp
