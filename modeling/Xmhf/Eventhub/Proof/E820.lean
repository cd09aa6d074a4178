import Mathlib.Data.Option.Basic
import Xmhf.Eventhub.E820

/-!
# Where the E820 service writes

* `mem_written_storeWords`, `mem_storeWords`: the descriptor's bytes.
* `e820Service_cases`: the steps of a call of the service that is not halted.
* `Served.writes`, `e820Hook_cases`: a call that is not halted is one of the service, which writes the
  descriptor and the flags, or it writes nothing.
-/

namespace Xmhf.Eventhub

open Xmhf.Memory Xmhf.Word Xmhf.Paging Xmhf.Boot

variable {r : Rpb} {map : List GrubE820}

/-! ## The descriptor -/

theorem storeWords_cons {s s' : Hv} {va : Nat} {w : BitVec 32} {ws : List (BitVec 32)}
    (h : storeWords r s va (w :: ws) = some s') :
    ∃ s1, s.store r va 4 w.toNat = some s1 ∧ storeWords r s1 (add32 va 4) ws = some s' :=
  Option.bind_eq_some_iff.1 h

theorem storeWords_isSome_iff {s : Hv} {va : Nat} {ws : List (BitVec 32)} (hva : va < 2 ^ 32) :
    (storeWords r s va ws).isSome ↔ r.Mapped va (4 * ws.length) := by
  induction ws generalizing s va with
  | nil => exact ⟨fun _ k hk => absurd hk (Nat.not_lt_zero k), fun _ => rfl⟩
  | cons w ws ih =>
    rw [List.length_cons, Nat.mul_succ, Nat.add_comm, Rpb.mapped_add_iff,
      ← Hv.store_isSome_iff (s := s) (v := w.toNat) hva, storeWords]
    cases hs : s.store r va 4 w.toNat with
    | none => simp
    | some s1 => simpa using ih (add32_lt va 4)

theorem mem_written_storeWords {s s' : Hv} {va : Nat} {ws : List (BitVec 32)} (hva : va < 2 ^ 32)
    (h : storeWords r s va ws = some s') (pa : Nat) :
    pa ∈ s'.written ↔ pa ∈ s.written ∨ ∃ k < 4 * ws.length, r.bootMap (add32 va k) = some pa := by
  induction ws generalizing s va with
  | nil =>
    obtain rfl := Option.some.inj h
    exact ⟨.inl, fun hpa => hpa.resolve_right fun ⟨k, hk, _⟩ => absurd hk (Nat.not_lt_zero k)⟩
  | cons w ws ih =>
    obtain ⟨s1, h1, h⟩ := storeWords_cons h
    rw [ih (add32_lt va 4) h, Hv.mem_written_store hva h1, or_assoc, List.length_cons]
    refine or_congr_right ⟨?_, fun ⟨k, hk, hpa⟩ => ?_⟩
    · rintro (⟨k, hk, hpa⟩ | ⟨k, hk, hpa⟩)
      · exact ⟨k, by omega, hpa⟩
      · exact ⟨4 + k, by omega, by rwa [← add32_add32]⟩
    · by_cases hk4 : k < 4
      · exact .inl ⟨k, hk4, hpa⟩
      · exact .inr ⟨k - 4, by omega, by rwa [add32_add32, show 4 + (k - 4) = k by omega]⟩

/-- Byte `k` of words that are in memory one after the other. -/
def wordByte (ws : List (BitVec 32)) (k : Nat) : BitVec 8 :=
  BitVec.ofNat 8 ((ws.getD (k / 4) 0).toNat / 256 ^ (k % 4))

theorem mem_storeWords {s s' : Hv} {va : Nat} {ws : List (BitVec 32)} (hva : va < 2 ^ 32)
    (hn : 4 * ws.length ≤ 4096) (h : storeWords r s va ws = some s') :
    (∀ k < 4 * ws.length, ∀ pa, r.bootMap (add32 va k) = some pa → s'.mem pa = wordByte ws k) ∧
      ∀ pa, (∀ k < 4 * ws.length, r.bootMap (add32 va k) ≠ some pa) → s'.mem pa = s.mem pa := by
  induction ws generalizing s va with
  | nil =>
    obtain rfl := Option.some.inj h
    exact ⟨fun k hk => absurd hk (Nat.not_lt_zero k), fun _ _ => rfl⟩
  | cons w ws ih =>
    rw [List.length_cons, Nat.mul_succ] at hn ⊢
    obtain ⟨s1, h1, h⟩ := storeWords_cons h
    obtain ⟨hbytes, hrest⟩ := ih (add32_lt va 4) (by omega) h
    refine ⟨fun k hk pa hpa => ?_, fun pa hpa => ?_⟩
    · by_cases hk4 : k < 4
      · -- the later words are at other offsets in the page
        rw [hrest pa fun j hj hjp => ?_, Hv.store_mem hva (by decide) h1 hk4 hpa, wordByte,
          Nat.div_eq_of_lt hk4, Nat.mod_eq_of_lt hk4, List.getD_cons_zero]
        rw [add32_add32] at hjp
        have := Rpb.bootMap_injOn (by omega) (by omega) hpa hjp
        omega
      · obtain ⟨j, rfl⟩ := Nat.exists_eq_add_of_le (Nat.not_lt.1 hk4)
        rw [← add32_add32] at hpa
        rw [hbytes j (by omega) pa hpa, wordByte, wordByte, Nat.add_div_left _ (by decide),
          Nat.add_mod_left, List.getD_cons_succ]
    · rw [hrest pa fun k hk => ?_, Hv.store_mem_of_ne hva h1 fun k hk => hpa k (by omega)]
      rw [add32_add32]
      exact hpa (4 + k) (by omega)

theorem guestBuffer_lt (c : Vcpu) : guestBuffer c < 2 ^ 32 := BitVec.isLt _

theorem copyDescriptor_spec {s : St} {hv : Hv} (h : copyDescriptor r map s = some hv) :
    ∃ e, s.cpu.regs.edx = smap ∧ map[s.cpu.regs.ebx.toNat]? = some e ∧
      guestBuffer s.cpu < r.runtimePhysBase ∧ storeWords r s.hv (guestBuffer s.cpu) e.words = some hv := by
  unfold copyDescriptor at h
  obtain ⟨_, hreq, h⟩ := Option.bind_eq_some_iff.1 h
  obtain ⟨_, hbuf, h⟩ := Option.bind_eq_some_iff.1 h
  obtain ⟨e, he, h⟩ := Option.bind_eq_some_iff.1 h
  exact ⟨e, ((Option.guard_eq_some' _).1 hreq).1, he, (Option.guard_eq_some' _).1 hbuf, h⟩

theorem mem_written_copyDescriptor {s : St} {hv : Hv} (h : copyDescriptor r map s = some hv) (pa : Nat) :
    pa ∈ hv.written ↔ pa ∈ s.hv.written ∨ ∃ k < 20, r.bootMap (add32 (guestBuffer s.cpu) k) = some pa := by
  obtain ⟨e, -, -, -, hst⟩ := copyDescriptor_spec h
  exact mem_written_storeWords (guestBuffer_lt s.cpu) hst pa

/-! ## The service -/

/-- **The steps of a call of the service** that is not halted. -/
theorem e820Service_cases {s s' : St} (h : e820Service r map s = some s') :
    ∃ hv frame flags, copyDescriptor r map s = some hv ∧
      guestAddress r hv s.cpu.vmcs (gueststackregion s.cpu) = some frame ∧
      readFlags r hv frame = some flags ∧
      hv.store r (add32 frame 4) 2 (answerFlags map s.cpu flags).toNat = some s'.hv ∧
      s'.cpu = answer map s.cpu := by
  unfold e820Service at h
  obtain ⟨hv, hcopy, h⟩ := Option.bind_eq_some_iff.1 h
  obtain ⟨frame, hframe, h⟩ := Option.bind_eq_some_iff.1 h
  obtain ⟨flags, hflags, h⟩ := Option.bind_eq_some_iff.1 h
  obtain ⟨hv', hstore, h⟩ := Option.bind_eq_some_iff.1 h
  obtain rfl := Option.some.inj h
  exact ⟨hv, frame, flags, hcopy, hframe, hflags, hstore, rfl⟩

theorem mapped_of_readFlags {s : Hv} {frame : Nat} (hlt : frame < 2 ^ 32) {flags : BitVec 16}
    (h : readFlags r s frame = some flags) : r.Mapped frame 6 := by
  obtain ⟨_, hip, h⟩ := Option.bind_eq_some_iff.1 h
  obtain ⟨_, hcs, h⟩ := Option.bind_eq_some_iff.1 h
  obtain ⟨_, hfl, -⟩ := Option.map_eq_some_iff.1 h
  have hip := (Hv.read_isSome_iff hlt).1 (Option.isSome_of_eq_some hip)
  have hcs := (Hv.read_isSome_iff (add32_lt frame 2)).1 (Option.isSome_of_eq_some hcs)
  have hfl := (Hv.read_isSome_iff (add32_lt frame 4)).1 (Option.isSome_of_eq_some hfl)
  exact (Rpb.mapped_add_iff 2).2 ⟨(Rpb.mapped_add_iff 2).2 ⟨hip, hcs⟩, hfl⟩

theorem exists_readFlags {s : Hv} {frame : Nat} (h : r.Mapped frame 6) (hlt : frame < 2 ^ 32) :
    ∃ flags, readFlags r s frame = some flags := by
  obtain ⟨ip, h0⟩ := Hv.exists_read (s := s) (fun k hk => h k (by omega) : r.Mapped frame 2) hlt
  obtain ⟨cs, h1⟩ := Hv.exists_read (s := s) (h.part (by decide) : r.Mapped (add32 frame 2) 2) (add32_lt _ _)
  obtain ⟨fl, h2⟩ := Hv.exists_read (s := s) (h.part (by decide) : r.Mapped (add32 frame 4) 2) (add32_lt _ _)
  exact ⟨_, by rw [readFlags, h0, h1, h2]; rfl⟩

theorem guestAddress_lt {s : Hv} {v : Vmcs} {vaddr : BitVec 32} {p : Nat}
    (h : guestAddress r s v vaddr = some p) : p < 2 ^ 32 := by
  unfold guestAddress at h
  split at h
  · obtain ⟨a, -, h⟩ := Option.bind_eq_some_iff.1 h
    obtain ⟨_, -, h⟩ := Option.bind_eq_some_iff.1 h
    exact Option.some.inj h ▸ a.isLt
  · exact Option.some.inj h ▸ vaddr.isLt

theorem exists_e820Service {s : St} {hv : Hv} {frame : Nat} {flags : BitVec 16}
    (hcopy : copyDescriptor r map s = some hv)
    (hframe : guestAddress r hv s.cpu.vmcs (gueststackregion s.cpu) = some frame)
    (hflags : readFlags r hv frame = some flags) :
    ∃ s', e820Service r map s = some s' ∧
      hv.store r (add32 frame 4) 2 (answerFlags map s.cpu flags).toNat = some s'.hv := by
  have hmapped : r.Mapped (add32 frame 4) 2 :=
    (mapped_of_readFlags (guestAddress_lt hframe) hflags).part (by decide)
  have hsome := (Hv.store_isSome_iff (s := hv) (v := (answerFlags map s.cpu flags).toNat)
    (add32_lt frame 4)).2 hmapped
  obtain ⟨hv', hstore⟩ := Option.isSome_iff_exists.1 hsome
  exact ⟨⟨answer map s.cpu, hv'⟩, by simp [e820Service, hcopy, hframe, hflags, hstore], hstore⟩

/-! ## The hook -/

/-- The call passes every check, with the descriptor stored in `hv` and the frame of the INT 15h at
`frame`. -/
structure Served (r : Rpb) (map : List GrubE820) (s : St) (hv : Hv) (frame : Nat) : Prop where
  mode : (!s.cpu.vmcs.pe || s.cpu.vmcs.v86) = true
  bda : (guestAddress r s.hv s.cpu.vmcs 0x4AC).isSome = true
  service : s.cpu.regs.eax.setWidth 16 = (0xE820 : BitVec 16)
  descriptor : copyDescriptor r map s = some hv
  stack : guestAddress r hv s.cpu.vmcs (gueststackregion s.cpu) = some frame
  flags : (readFlags r hv frame).isSome = true

theorem Served.writes {s : St} {hv : Hv} {frame : Nat} (h : Served r map s hv frame) :
    ∃ s', e820Hook r map s = some s' ∧ ∀ pa, pa ∈ s'.hv.written ↔ pa ∈ s.hv.written ∨
      (∃ k < 20, r.bootMap (add32 (guestBuffer s.cpu) k) = some pa) ∨
      ∃ k < 2, r.bootMap (add32 frame (4 + k)) = some pa := by
  obtain ⟨bda, hbda⟩ := Option.isSome_iff_exists.1 h.bda
  obtain ⟨flags, hflags⟩ := Option.isSome_iff_exists.1 h.flags
  obtain ⟨s', hs', hstore⟩ := exists_e820Service h.descriptor h.stack hflags
  refine ⟨s', ?_, fun pa => ?_⟩
  · rw [e820Hook, if_pos h.mode, int15Handleintercept, hbda]
    exact (if_pos h.service).trans hs'
  · rw [Hv.mem_written_store (add32_lt frame 4) hstore, mem_written_copyDescriptor h.descriptor, or_assoc]
    simp only [add32_add32]

/-- A call that is not halted is one of the service, or it writes nothing. -/
theorem e820Hook_cases {s s' : St} (h : e820Hook r map s = some s') :
    (∃ hv frame, Served r map s hv frame) ∨ s'.hv = s.hv := by
  unfold e820Hook at h
  split at h
  · rename_i hmode
    obtain ⟨bda, hbda, h⟩ := Option.bind_eq_some_iff.1 h
    split at h
    · rename_i hax
      obtain ⟨hv, frame, flags, hcopy, hframe, hflags, -, -⟩ := e820Service_cases h
      exact .inl ⟨hv, frame, hmode, by rw [hbda]; rfl, hax, hcopy, hframe, by rw [hflags]; rfl⟩
    · obtain ⟨ip, -, h⟩ := Option.bind_eq_some_iff.1 h
      obtain ⟨cs, -, h⟩ := Option.bind_eq_some_iff.1 h
      exact .inr (congrArg St.hv (Option.some.inj h)).symm
  · cases h

/-- A first call in real mode with the buffer at `es` and the stack at `ss`. -/
def firstCall (es ss : BitVec 64) : Vcpu :=
  { (default : Vcpu) with
    regs := { (default : Regs) with eax := 0xE820, edx := smap }
    vmcs := { (default : Vmcs) with guestESBase := es, guestSSBase := ss } }

end Xmhf.Eventhub
