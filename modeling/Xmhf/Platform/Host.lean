import Xmhf.Platform.Paging

/-!
# The hypervisor's accesses

The runtime runs on the page table that the secure loader sets up (`Rpb.bootMap`): unity mappings up to
its virtual base, its own range, and the two APICs. `Hv` is physical memory with the bytes that the
hypervisor has written, and an access at an address that is not mapped is a page fault, at which it halts
(`none`).

* `Hv.read_isSome_iff`, `Hv.store_isSome_iff`: an access goes through when its bytes are mapped.
* `Hv.mem_written_store`: a store writes where its bytes are mapped.
* `Hv.store_mem`, `Hv.store_mem_of_ne`: the memory after a store. A page's bytes do not share addresses, as
  a mapping keeps the offset in the page (`Rpb.bootMap_offset`).
-/

namespace Xmhf.Paging

open Xmhf.Memory Xmhf.Word

/-- `PAGE_ALIGN_UP2M` -/
def pageAlignUp2M (size : Nat) : Nat := (size + (pageSize2M - 1)) / pageSize2M * pageSize2M

/-- `xmhf_sl_arch_x86_setup_runtime_paging`: where the host's address `va` is. The entries of the two APICs
are written last. -/
def Rpb.bootMap (r : Rpb) (va : Nat) : Option Nat :=
  if 0xFEC00000 ≤ va ∧ va < 0xFF000000 then some va
  else if va < r.runtimeVirtBase then some va
  else if va < r.runtimeVirtBase + pageAlignUp2M r.runtimeSize then
    some (va - r.runtimeVirtBase + r.runtimePhysBase)
  else none

/-- The host's address `va` is one of the memory of secure loader and runtime. -/
def Rpb.AtRuntime (r : Rpb) (va : Nat) : Prop := ∃ pa ∈ r.bootMap va, r.protectedAt pa

instance (r : Rpb) (va : Nat) : Decidable (r.AtRuntime va) :=
  inferInstanceAs (Decidable (∃ pa ∈ r.bootMap va, r.protectedAt pa))

/-- Memory, and the physical addresses of the bytes written so far. -/
structure Hv where
  mem : Mem
  written : List Nat

/-- The `n` bytes at the host's address `va`, least significant first. -/
def Hv.read (r : Rpb) (s : Hv) (va : Nat) : Nat → Option Nat
  | 0 => some 0
  | n + 1 => do
    let pa ← r.bootMap va
    let rest ← Hv.read r s (add32 va 1) n
    return (s.mem pa).toNat + 256 * rest

/-- The `n` low bytes of `v` stored at the host's address `va`. -/
def Hv.store (r : Rpb) (s : Hv) (va : Nat) : Nat → Nat → Option Hv
  | 0, _ => some s
  | n + 1, v => do
    let pa ← r.bootMap va
    Hv.store r ⟨Function.update s.mem pa (BitVec.ofNat 8 v), s.written ++ [pa]⟩ (add32 va 1) n (v / 256)

/-- The addresses of `n` bytes from `va` on are all mapped. -/
def Rpb.Mapped (r : Rpb) (va n : Nat) : Prop := ∀ k < n, (r.bootMap (add32 va k)).isSome

/-! ## Addresses -/

variable {r : Rpb} {s s' : Hv} {va n v : Nat}

/-- A mapping keeps the offset in the page. -/
theorem Rpb.bootMap_offset {pa : Nat} (h : r.bootMap va = some pa) : pa % 4096 = va % 4096 := by
  have hoff : r.runtimePhysBase % 4096 = r.runtimeVirtBase % 4096 := r.offset
  unfold bootMap at h
  split at h
  · cases h
    rfl
  · split at h
    · cases h
      rfl
    · split at h
      · cases h
        omega
      · cases h

theorem Rpb.bootMap_injOn {j k pa : Nat} (hj : j < 4096) (hk : k < 4096)
    (h1 : r.bootMap (add32 va j) = some pa) (h2 : r.bootMap (add32 va k) = some pa) : j = k := by
  have e1 := bootMap_offset h1
  have e2 := bootMap_offset h2
  unfold add32 at e1 e2
  omega

theorem Rpb.mapped_succ_iff (hva : va < 2 ^ 32) :
    r.Mapped va (n + 1) ↔ (r.bootMap va).isSome ∧ r.Mapped (add32 va 1) n := by
  refine ⟨fun h => ⟨add32_zero hva ▸ h 0 (Nat.succ_pos n), fun k hk => ?_⟩, fun ⟨h0, h⟩ k hk => ?_⟩
  · rw [add32_add32, Nat.add_comm]
    exact h (k + 1) (Nat.succ_lt_succ hk)
  · cases k with
    | zero => rwa [add32_zero hva]
    | succ k =>
      rw [Nat.add_comm, ← add32_add32]
      exact h k (Nat.lt_of_succ_lt_succ hk)

theorem Rpb.Mapped.part {k m : Nat} (h : r.Mapped va n) (hk : k + m ≤ n) : r.Mapped (add32 va k) m := by
  intro j hj
  rw [add32_add32]
  exact h (k + j) (by omega)

theorem Rpb.mapped_add_iff (m : Nat) :
    r.Mapped va (n + m) ↔ r.Mapped va n ∧ r.Mapped (add32 va n) m := by
  refine ⟨fun h => ⟨fun k hk => h k (by omega), h.part (Nat.le_refl _)⟩, fun ⟨h1, h2⟩ k hk => ?_⟩
  by_cases hkn : k < n
  · exact h1 k hkn
  · have h := h2 (k - n) (by omega)
    rwa [add32_add32, show n + (k - n) = k by omega] at h

/-- Below the runtime's virtual base all is mapped. -/
theorem Rpb.mapped_low (h : va + n ≤ r.runtimeVirtBase) (hlt : va + n ≤ 2 ^ 32) : r.Mapped va n := by
  intro k hk
  rw [add32_of_lt (by omega), Rpb.bootMap]
  split
  · rfl
  · rw [if_pos (by omega)]
    rfl

/-! ## Reads and stores -/

theorem Hv.read_isSome_iff (hva : va < 2 ^ 32) : (s.read r va n).isSome ↔ r.Mapped va n := by
  induction n generalizing va with
  | zero => exact ⟨fun _ k hk => absurd hk (Nat.not_lt_zero k), fun _ => rfl⟩
  | succ n ih =>
    rw [Rpb.mapped_succ_iff hva, ← ih (add32_lt va 1), read]
    cases r.bootMap va with
    | none => simp
    | some pa =>
      cases s.read r (add32 va 1) n with
      | none => simp
      | some rest => simp

theorem Hv.exists_read (h : r.Mapped va n) (hva : va < 2 ^ 32) : ∃ x, s.read r va n = some x :=
  Option.isSome_iff_exists.1 ((read_isSome_iff hva).2 h)

theorem Hv.store_isSome_iff (hva : va < 2 ^ 32) : (s.store r va n v).isSome ↔ r.Mapped va n := by
  induction n generalizing s va v with
  | zero => exact ⟨fun _ k hk => absurd hk (Nat.not_lt_zero k), fun _ => rfl⟩
  | succ n ih =>
    rw [Rpb.mapped_succ_iff hva, store]
    cases hpa : r.bootMap va with
    | none => simp
    | some pa => simpa using ih (add32_lt va 1)

theorem Hv.store_succ (h : s.store r va (n + 1) v = some s') : ∃ pa, r.bootMap va = some pa ∧
    Hv.store r ⟨Function.update s.mem pa (BitVec.ofNat 8 v), s.written ++ [pa]⟩ (add32 va 1) n (v / 256) =
      some s' :=
  Option.bind_eq_some_iff.1 h

/-- **A store writes where its bytes are mapped.** -/
theorem Hv.mem_written_store (hva : va < 2 ^ 32) (h : s.store r va n v = some s') (pa : Nat) :
    pa ∈ s'.written ↔ pa ∈ s.written ∨ ∃ k < n, r.bootMap (add32 va k) = some pa := by
  induction n generalizing s va v with
  | zero =>
    obtain rfl := Option.some.inj h
    exact ⟨.inl, fun hpa => hpa.resolve_right fun ⟨k, hk, _⟩ => absurd hk (Nat.not_lt_zero k)⟩
  | succ n ih =>
    obtain ⟨p, hp, h⟩ := store_succ h
    rw [ih (add32_lt va 1) h, List.mem_append, List.mem_singleton, or_assoc]
    refine or_congr_right ⟨?_, fun ⟨k, hk, hpa⟩ => ?_⟩
    · rintro (rfl | ⟨k, hk, hpa⟩)
      · exact ⟨0, Nat.succ_pos n, by rwa [add32_zero hva]⟩
      · exact ⟨k + 1, Nat.succ_lt_succ hk, by rwa [Nat.add_comm, ← add32_add32]⟩
    · cases k with
      | zero => exact .inl (Option.some.inj ((add32_zero hva ▸ hpa).symm.trans hp))
      | succ k => exact .inr ⟨k, Nat.lt_of_succ_lt_succ hk, by rwa [add32_add32, Nat.add_comm]⟩

theorem Hv.store_mem_of_ne (hva : va < 2 ^ 32) (h : s.store r va n v = some s') {pa : Nat}
    (hpa : ∀ k < n, r.bootMap (add32 va k) ≠ some pa) : s'.mem pa = s.mem pa := by
  induction n generalizing s va v with
  | zero => exact congrArg (Hv.mem · pa) (Option.some.inj h).symm
  | succ n ih =>
    obtain ⟨p, hp, h⟩ := store_succ h
    have hne : pa ≠ p := fun heq => hpa 0 (Nat.succ_pos n) (by rw [add32_zero hva, hp, heq])
    rw [ih (add32_lt va 1) h fun k hk => ?_]
    · exact Function.update_of_ne hne _ _
    · rw [add32_add32, Nat.add_comm]
      exact hpa (k + 1) (Nat.succ_lt_succ hk)

theorem Hv.store_mem (hva : va < 2 ^ 32) (hn : n ≤ 4096) (h : s.store r va n v = some s') {k pa : Nat}
    (hk : k < n) (hpa : r.bootMap (add32 va k) = some pa) :
    s'.mem pa = BitVec.ofNat 8 (v / 256 ^ k) := by
  induction n generalizing s va v k with
  | zero => exact absurd hk (Nat.not_lt_zero k)
  | succ n ih =>
    obtain ⟨p, hp, h⟩ := store_succ h
    cases k with
    | zero =>
      obtain rfl : pa = p := Option.some.inj ((add32_zero hva ▸ hpa).symm.trans hp)
      rw [store_mem_of_ne (add32_lt va 1) h fun j hj hjp => ?_]
      · simp
      · rw [add32_add32] at hjp
        exact absurd (Rpb.bootMap_injOn (by omega) (by omega) hpa hjp) (by omega)
    | succ k =>
      rw [ih (add32_lt va 1) (by omega) h (Nat.lt_of_succ_lt_succ hk)
        (by rwa [add32_add32, Nat.add_comm]), Nat.div_div_eq_div_mul, Nat.pow_succ']

theorem Hv.read_eq (hva : va < 2 ^ 32)
    (h : ∀ k < n, ∃ pa, r.bootMap (add32 va k) = some pa ∧ s.mem pa = BitVec.ofNat 8 (v / 256 ^ k)) :
    s.read r va n = some (v % 256 ^ n) := by
  induction n generalizing va v with
  | zero => simp [read, Nat.mod_one]
  | succ n ih =>
    obtain ⟨pa, hpa, hbyte⟩ := h 0 (Nat.succ_pos n)
    have hrest : s.read r (add32 va 1) n = some (v / 256 % 256 ^ n) := by
      refine ih (add32_lt va 1) fun k hk => ?_
      obtain ⟨q, hq, hqv⟩ := h (k + 1) (Nat.succ_lt_succ hk)
      exact ⟨q, by rwa [add32_add32, Nat.add_comm], by rw [hqv, Nat.div_div_eq_div_mul, Nat.pow_succ']⟩
    rw [add32_zero hva] at hpa
    rw [read, hpa, hrest]
    simp only [Option.bind_eq_bind, Option.bind_some, hbyte, BitVec.toNat_ofNat, Nat.pow_zero, Nat.div_one]
    have hpow : 256 ^ (n + 1) = 256 * 256 ^ n := Nat.pow_succ'
    exact congrArg some (by rw [hpow, Nat.mod_mul])

end Xmhf.Paging
