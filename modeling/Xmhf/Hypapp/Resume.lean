import Xmhf.Hypapp.Quiesce

/-!
# The resume signal

After the update of the host's page table `xmhf_app_handlehypercall` stores a 1 through the pointer in the
guest's `ECX`, as it is, in the hypervisor's own address space.

The store goes by the table that the call has just rewritten, or by a translation that the processor has
kept from before: nothing flushes the TLB.
-/

namespace Xmhf.Hypapp

open Xmhf.Memory Xmhf.Word Xmhf.Paging

/-- `QUIESCE_HYPERCALL` -/
def quiesceHypercallNumber : BitVec 32 := 0x44550002

section
variable {r : Rpb} (c : Call r)

/-- Where a store to `va` goes when memory is `m`; `cached` are the addresses whose translation at the
start of the call the processor still has. -/
def Call.storeAddr (cached : Nat → Bool) (m : Mem) (va : Nat) : Option Nat :=
  if cached va then c.tlb va else (paeWalk m c.hcr3.toNat va).map PaeGrant.addr

/-- The bytes that a store of the `n` low bytes of `v` at `va` writes, with their physical addresses;
`none` is a page fault. -/
def storeBytes (tr : Nat → Option Nat) (va : Nat) : Nat → Nat → Option (List (Nat × BitVec 8))
  | 0, _ => some []
  | n + 1, v => do
    let a ← tr va
    let rest ← storeBytes tr (add32 va 1) n (v / 256)
    return (a, BitVec.ofNat 8 v) :: rest

/-- Memory with these bytes written. -/
def writeBytes (m : Mem) (ws : List (Nat × BitVec 8)) : Mem :=
  ws.foldl (fun m w => Function.update m w.1 w.2) m

/-- `*slave_resume_signal_p = 1` -/
def Call.resumeSignal (cached : Nat → Bool) (m : Mem) (ecx : BitVec 32) : Option (List (Nat × BitVec 8)) :=
  storeBytes (c.storeAddr cached m) ecx.toNat 4 1

/-- `xmhf_app_handlehypercall` up to `prepare_user_space_context`: memory after it, and `none` if the
hypervisor halts. -/
def Call.handlehypercall (fuel : Nat) (cached : Nat → Bool) (ebx ecx : BitVec 32) : Option Mem :=
  if ebx = quiesceHypercallNumber then
    let s := c.quiesceHypercall fuel
    if s.halted then none else (c.resumeSignal cached s.mem ecx).map (writeBytes s.mem)
  else some c.mem

/-- **The store stays in the guest**: it writes the bytes that the guest's page tables assign to
`ECX..ECX+3`, and none of secure loader and runtime. -/
def StaysInGuest (cached : Nat → Bool) (s : Update) (ecx : BitVec 32) : Prop :=
  ∃ ws, c.resumeSignal cached s.mem ecx = some ws ∧
    ws.map (fun w => some w.1) =
      (List.range 4).map (fun o => npaeWalk c.mem c.guestCr3.toNat (add32 ecx.toNat o)) ∧
    ∀ w ∈ ws, ¬ r.protectedAt w.1

end

end Xmhf.Hypapp
