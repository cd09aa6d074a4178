import Xmhf.Memprot.Prot
import Xmhf.Memprot.Proof.Walk

/-!
# setprot and getprot

The two backends are lawful (`Lawful`): what setprot stores reads back as the protection set, is present
exactly when that protection is, and keeps the bits outside the mask. From that, for either backend:

* setprot exposes a page of the hypervisor exactly when a call sets a present protection at an address
  whose low 32 bits are in it (`hidden_iff`): the assertion on the 64-bit address does not see these
  bits, and does not cover the secure loader;
* the interface refines a map from pages to protections (`refinesMap`), the same for both backends.
-/

namespace Xmhf.Memprot

open Xmhf.Memory Xmhf.Paging

/-! ## Laws of the backends -/

/-- The protections setprot is meant for. -/
inductive Prot
  | notPresent
  | present (readWrite execute : Bool)
  deriving DecidableEq, Repr

/-- A protection as `prottype`. -/
def Prot.encode : Prot → BitVec 32
  | notPresent => protNotPresent
  | present w x => protPresent ||| (if w then protReadWrite else protReadOnly) |||
      (if x then protExecute else protNoExecute)

/-- What setprot leaves in an entry. -/
def Backend.update (b : Backend) (e : BitVec 64) (prottype : BitVec 32) : BitVec 64 :=
  (e &&& ~~~b.mask) ||| b.flags prottype

/-- The laws of a backend. -/
structure Lawful (b : Backend) : Prop where
  flags : ∀ p, b.flags p &&& ~~~b.mask = 0#64
  present : ∀ e p, b.present (b.update e p) = has p protPresent
  prottype : ∀ e (p : Prot), b.prottype (b.update e p.encode) = p.encode

theorem Lawful.frame {b : Backend} (h : Lawful b) (e : BitVec 64) (p : BitVec 32) :
    b.update e p &&& ~~~b.mask = e &&& ~~~b.mask := by
  rw [Backend.update, BitVec.and_or_distrib_right, h.flags, BitVec.or_zero, BitVec.and_assoc,
    BitVec.and_self]

theorem vmx_lawful : Lawful vmx where
  flags p := by
    simp only [vmx]
    cases has p protPresent <;> cases has p protReadWrite <;> cases has p protExecute <;> decide
  present e p := by
    simp only [vmx, Backend.update, eptPresent]
    cases has p protPresent <;> simp
  prottype e p := by
    rcases p with _ | ⟨_ | _, _ | _⟩ <;>
      simp [vmx, Backend.update, Prot.encode, has, protNotPresent, protPresent, protReadWrite,
        protReadOnly, protExecute, protNoExecute]

theorem svm_lawful : Lawful svm where
  flags p := by
    simp only [svm]
    cases has p protPresent <;> cases has p protReadWrite <;> cases has p protExecute <;> decide
  present e p := by
    simp only [svm, Backend.update]
    cases has p protPresent <;> cases has p protReadWrite <;> cases has p protExecute <;> simp
  prottype e p := by
    rcases p with _ | ⟨_ | _, _ | _⟩ <;>
      simp [svm, Backend.update, Prot.encode, has, protNotPresent, protPresent, protReadWrite,
        protReadOnly, protExecute, protNoExecute]

/-! ## Leaves after a call -/

section
variable {r : Rpb} {b : Backend} {t : Tables r} {m : Mem}

theorem pfn_lt (gpa : BitVec 64) : pfn gpa < 2 ^ 20 := by
  have h := (gpa.setWidth 32).isLt
  simp only [pfn, pageSize4K]
  omega

/-- Below 4GB, `pfn` is the page number. -/
theorem pfn_of_lt {gpa : BitVec 64} (h : gpa.toNat < 2 ^ 32) : pfn gpa = gpa.toNat / pageSize4K := by
  rw [pfn, BitVec.toNat_setWidth, Nat.mod_eq_of_lt h]

theorem leaf_setprot (gpa : BitVec 64) (p : BitVec 32) {n : Nat} (hn : n < 2 ^ 20) :
    leaf t (b.setprot t m gpa p) n =
      if n = pfn gpa then b.update (leaf t m n) p else leaf t m n := by
  have hp := pfn_lt gpa
  split
  · next h =>
    rw [h, leaf, Backend.setprot, load64_store64, Backend.update]
  · next h =>
    rw [leaf, Backend.setprot, load64_store64_of_disjoint, leaf]
    refine ((t.pts_block.isWord (k := n) ?_).eq_or_apart
      (t.pts_block.isWord (k := pfn gpa) ?_)).resolve_left ?_ <;> omega

/-! ## Exposing the hypervisor -/

/-- Every leaf of secure loader and runtime is not present. -/
def Hidden (b : Backend) (t : Tables r) (m : Mem) : Prop :=
  ∀ n < 2 ^ 20, r.protectedAt (4096 * n) → b.present (leaf t m n) = false

/-- The call makes a page of secure loader or runtime present. -/
def Call.Exposes (r : Rpb) (c : Call) : Prop :=
  has c.prottype protPresent = true ∧ r.protectedAt (4096 * pfn c.gpa)

theorem hidden_setprot_iff (hb : Lawful b) (h : Hidden b t m) (c : Call) :
    Hidden b t (b.setprot t m c.gpa c.prottype) ↔ ¬ c.Exposes r := by
  constructor
  · rintro h' ⟨hpres, hprot⟩
    have hleaf := h' (pfn c.gpa) (pfn_lt _) hprot
    rw [leaf_setprot _ _ (pfn_lt _), if_pos rfl, hb.present, hpres] at hleaf
    cases hleaf
  · intro hc n hn hprot
    rw [leaf_setprot _ _ hn]
    split
    · next heq =>
      rw [hb.present, Bool.eq_false_iff]
      exact fun hpres => hc ⟨hpres, heq ▸ hprot⟩
    · exact h n hn hprot

/-- **Calls keep the hypervisor hidden throughout exactly when none of them exposes it.** -/
theorem hidden_iff (hb : Lawful b) (h : Hidden b t m) (calls : List Call) :
    (∀ k, Hidden b t (Call.runAll (b.setprot t) (calls.take k) m)) ↔
      ∀ c ∈ calls, ¬ c.Exposes r := by
  induction calls generalizing m with
  | nil => simpa [Call.runAll] using h
  | cons c calls ih =>
    rw [List.forall_mem_cons]
    constructor
    · intro hall
      have hstep : Hidden b t (b.setprot t m c.gpa c.prottype) := hall 1
      exact ⟨(hidden_setprot_iff hb h c).1 hstep, (ih hstep).1 fun k => hall (k + 1)⟩
    · rintro ⟨hc, hrest⟩ k
      have hstep := (hidden_setprot_iff hb h c).2 hc
      cases k with
      | zero => exact h
      | succ k => exact (ih hstep).2 hrest k

theorem leaf_vmxSetupEPT (t : EptTables r) (memorytype : Nat → BitVec 32) (m : Mem) {n : Nat}
    (hn : n < 2 ^ 20) :
    leaf t.toTables (vmxSetupEPT r t memorytype m) n = eptLeaf r memorytype (4096 * n) :=
  load_pte (eptLink r) (eptLink r) (eptLeaf r memorytype) t.toTables _ hn

theorem leaf_svmNptInitialize (t : Tables r) (m : Mem) {n : Nat} (hn : n < 2 ^ 20) :
    leaf t (svmNptInitialize r t m) n = nptLeaf r (4096 * n) :=
  load_pte nptPdpe nptPde (nptLeaf r) t m hn

theorem hidden_vmxSetupEPT (t : EptTables r) (memorytype : Nat → BitVec 32) (m : Mem) :
    Hidden vmx t.toTables (vmxSetupEPT r t memorytype m) := by
  intro n hn hprot
  rw [leaf_vmxSetupEPT t memorytype m hn]
  exact eptLeaf_protected hprot

theorem hidden_svmNptInitialize (t : Tables r) (m : Mem) :
    Hidden svm t (svmNptInitialize r t m) := by
  intro n hn hprot
  have hentry := nptLeaf_isEntry (r := r) hn
  rw [if_pos hprot] at hentry
  rw [leaf_svmNptInitialize t m hn]
  exact hentry.getLsbD (by decide)

/-- **setprot from the initial tables**: on either backend, the hypervisor stays hidden after every
call exactly when no call sets a present protection at an address whose low 32 bits are in a page of
secure loader or runtime. -/
theorem setprot_hides_iff (te : EptTables r) (tn : Tables r) (memorytype : Nat → BitVec 32)
    (me mn : Mem) (calls : List Call) :
    ((∀ k, Hidden vmx te.toTables
        (Call.runAll (vmxSetprot te) (calls.take k) (vmxSetupEPT r te memorytype me))) ↔
      ∀ c ∈ calls, ¬ c.Exposes r) ∧
    ((∀ k, Hidden svm tn
        (Call.runAll (svmSetprot tn) (calls.take k) (svmNptInitialize r tn mn))) ↔
      ∀ c ∈ calls, ¬ c.Exposes r) :=
  ⟨hidden_iff vmx_lawful (hidden_vmxSetupEPT te memorytype me) calls,
    hidden_iff svm_lawful (hidden_svmNptInitialize tn mn) calls⟩

end

/-- The runtime's first page by an address above 4GB, to be read, written and executed. -/
def aliasCall : Call := ⟨0x110200000, 0x1A⟩

theorem aliasCall_exposes : legalGpa relocated aliasCall.gpa ∧
    legalProttype aliasCall.prottype = true ∧
    ¬ Hidden vmx relocatedTables.toTables (vmxSetprot relocatedTables
      (vmxSetupEPT relocated relocatedTables (fun _ => 6) fun _ => 0)
      aliasCall.gpa aliasCall.prottype) ∧
    ¬ Hidden svm relocatedTables.toTables (svmSetprot relocatedTables.toTables
      (svmNptInitialize relocated relocatedTables.toTables fun _ => 0)
      aliasCall.gpa aliasCall.prottype) := by
  have hexp : aliasCall.Exposes relocated := by
    unfold Call.Exposes
    decide
  refine ⟨.inr (by decide), by decide, fun h => ?_, fun h => ?_⟩
  · exact (hidden_setprot_iff vmx_lawful (hidden_vmxSetupEPT _ _ _) aliasCall).1 h hexp
  · exact (hidden_setprot_iff svm_lawful (hidden_svmNptInitialize _ _) aliasCall).1 h hexp

/-! ## The interface as a map -/

/-- The protection of each page after the calls: that of the last call on it. -/
def lastProt (init : Nat → BitVec 32) (calls : List Call) : Nat → BitVec 32 :=
  calls.foldl (fun f c => Function.update f (c.gpa.toNat / pageSize4K) c.prottype) init

/-- The protection of each page in the initial tables. -/
def initialProt (r : Rpb) (n : Nat) : BitVec 32 :=
  Prot.encode (if r.protectedAt (4096 * n) then .notPresent else .present true true)

/-- A call below 4GB with not-present, or present with one of read-only and read-write and one of
execute and no-execute. -/
def Call.Plain (c : Call) : Prop := c.gpa.toNat < 2 ^ 32 ∧ ∃ p : Prot, c.prottype = p.encode

/-- After the calls from `m`, getprot is the map, entries the calls do not name are as they were at any
earlier time, and every entry has kept the bits outside the mask. -/
structure RefinesMap {r : Rpb} (b : Backend) (t : Tables r) (m : Mem) (init : Nat → BitVec 32)
    (calls : List Call) : Prop where
  getprot : ∀ gpa : BitVec 64, gpa.toNat < 2 ^ 32 →
    b.getprot t (Call.runAll (b.setprot t) calls m) gpa =
      lastProt init calls (gpa.toNat / pageSize4K)
  others : ∀ pre post, calls = pre ++ post → ∀ n < 2 ^ 20,
    (∀ c ∈ post, c.gpa.toNat / pageSize4K ≠ n) →
    leaf t (Call.runAll (b.setprot t) calls m) n = leaf t (Call.runAll (b.setprot t) pre m) n
  bits : ∀ n < 2 ^ 20, leaf t (Call.runAll (b.setprot t) calls m) n &&& ~~~b.mask =
    leaf t m n &&& ~~~b.mask

section
variable {r : Rpb} {b : Backend} {t : Tables r} {m : Mem}

theorem prottype_runAll (hb : Lawful b) {f : Nat → BitVec 32} {calls : List Call}
    (hf : ∀ n < 2 ^ 20, b.prottype (leaf t m n) = f n) (hc : ∀ c ∈ calls, c.Plain) :
    ∀ n < 2 ^ 20, b.prottype (leaf t (Call.runAll (b.setprot t) calls m) n) = lastProt f calls n := by
  induction calls generalizing m f with
  | nil => exact hf
  | cons c calls ih =>
    obtain ⟨⟨hlt, p, hp⟩, hrest⟩ := List.forall_mem_cons.1 hc
    refine ih (m := b.setprot t m c.gpa c.prottype)
      (f := Function.update f (c.gpa.toNat / pageSize4K) c.prottype) (fun n hn => ?_) hrest
    rw [leaf_setprot _ _ hn, pfn_of_lt hlt, Function.update_apply]
    split
    · rw [hp, hb.prottype]
    · exact hf n hn

theorem leaf_runAll_of_not_named {calls : List Call} {n : Nat} (hn : n < 2 ^ 20)
    (hlt : ∀ c ∈ calls, c.gpa.toNat < 2 ^ 32) (h : ∀ c ∈ calls, c.gpa.toNat / pageSize4K ≠ n) :
    leaf t (Call.runAll (b.setprot t) calls m) n = leaf t m n := by
  induction calls generalizing m with
  | nil => rfl
  | cons c calls ih =>
    obtain ⟨hc, hrest⟩ := List.forall_mem_cons.1 h
    obtain ⟨hclt, hrlt⟩ := List.forall_mem_cons.1 hlt
    refine (ih (m := b.setprot t m c.gpa c.prottype) hrlt hrest).trans ?_
    rw [leaf_setprot _ _ hn, pfn_of_lt hclt, if_neg (Ne.symm hc)]

theorem leaf_runAll_bits (hb : Lawful b) (calls : List Call) {n : Nat} (hn : n < 2 ^ 20) :
    leaf t (Call.runAll (b.setprot t) calls m) n &&& ~~~b.mask = leaf t m n &&& ~~~b.mask := by
  induction calls generalizing m with
  | nil => rfl
  | cons c calls ih =>
    refine (ih (m := b.setprot t m c.gpa c.prottype)).trans ?_
    rw [leaf_setprot _ _ hn]
    split
    · exact hb.frame _ _
    · rfl

/-- A lawful backend refines the map its initial leaves encode. -/
theorem refinesMap (hb : Lawful b) {f : Nat → BitVec 32} {calls : List Call}
    (hf : ∀ n < 2 ^ 20, b.prottype (leaf t m n) = f n) (hc : ∀ c ∈ calls, c.Plain) :
    RefinesMap b t m f calls where
  getprot gpa hlt := by
    rw [Backend.getprot, prottype_runAll hb hf hc _ (pfn_lt _), pfn_of_lt hlt]
  others pre post hcalls n hn hpost := by
    rw [hcalls, Call.runAll, List.foldl_append]
    refine leaf_runAll_of_not_named hn (fun c hmem => (hc c ?_).1) hpost
    rw [hcalls]
    exact List.mem_append_right _ hmem
  bits n hn := leaf_runAll_bits hb calls hn

theorem prottype_vmxSetupEPT (t : EptTables r) (memorytype : Nat → BitVec 32) (m : Mem) {n : Nat}
    (hn : n < 2 ^ 20) :
    vmx.prottype (leaf t.toTables (vmxSetupEPT r t memorytype m) n) = initialProt r n := by
  rw [leaf_vmxSetupEPT t memorytype m hn, initialProt]
  split
  · next h =>
    have hpres : eptPresent (eptLeaf r memorytype (4096 * n)) = false := eptLeaf_protected h
    simp only [eptPresent, Bool.or_eq_false_iff] at hpres
    simp only [vmx, hpres, Bool.false_eq_true, ↓reduceIte, Prot.encode]
  · next h =>
    obtain ⟨c, hc, he⟩ := eptLeaf_open memorytype hn h
    obtain ⟨-, hrights, -⟩ := eptPresent_of_entry he hc
    simp only [eptRights, allRights, Rights.mk.injEq] at hrights
    simp only [vmx, hrights, ↓reduceIte, Prot.encode]

theorem prottype_svmNptInitialize (t : Tables r) (m : Mem) {n : Nat} (hn : n < 2 ^ 20) :
    svm.prottype (leaf t (svmNptInitialize r t m) n) = initialProt r n := by
  have he := nptLeaf_isEntry (r := r) hn
  have h0 := he.getLsbD (i := 0) (by decide)
  have h1 := he.getLsbD (i := 1) (by decide)
  rw [leaf_svmNptInitialize t m hn, initialProt]
  simp only [svm, h0, h1, he.nx]
  split <;> rfl

/-- **The memory protection interface refines a map**: after any calls below 4GB with a plain protection,
getprot returns on both backends the last protection set for the page, or the initial one; nothing else
of the leaves changes. -/
theorem memprot_refines_map (te : EptTables r) (tn : Tables r) (memorytype : Nat → BitVec 32)
    (me mn : Mem) {calls : List Call} (hcalls : ∀ c ∈ calls, c.Plain) :
    RefinesMap vmx te.toTables (vmxSetupEPT r te memorytype me) (initialProt r) calls ∧
    RefinesMap svm tn (svmNptInitialize r tn mn) (initialProt r) calls ∧
    ∀ gpa : BitVec 64, gpa.toNat < 2 ^ 32 →
      vmxGetprot te (Call.runAll (vmxSetprot te) calls (vmxSetupEPT r te memorytype me)) gpa =
        svmGetprot tn (Call.runAll (svmSetprot tn) calls (svmNptInitialize r tn mn)) gpa := by
  have hv := refinesMap vmx_lawful (fun n hn => prottype_vmxSetupEPT te memorytype me hn) hcalls
  have hs := refinesMap svm_lawful (fun n hn => prottype_svmNptInitialize tn mn hn) hcalls
  exact ⟨hv, hs, fun gpa hgpa => (hv.getprot gpa hgpa).trans (hs.getprot gpa hgpa).symm⟩

end

/-- A guest page made read-only and not executable, then hidden. -/
def plainCalls : List Call :=
  [⟨0x5000, (Prot.present false false).encode⟩, ⟨0x5000, Prot.notPresent.encode⟩]

theorem memprot_refines_plainCalls : (∀ c ∈ plainCalls, c.Plain) ∧
    RefinesMap vmx relocatedTables.toTables
      (vmxSetupEPT relocated relocatedTables (fun _ => 6) fun _ => 0) (initialProt relocated)
      plainCalls := by
  have hplain : ∀ c ∈ plainCalls, c.Plain := by
    simp only [plainCalls, List.forall_mem_cons]
    exact ⟨⟨by decide, .present false false, rfl⟩, ⟨by decide, .notPresent, rfl⟩, by simp⟩
  exact ⟨hplain, (memprot_refines_map relocatedTables relocatedTables.toTables (fun _ => 6)
    (fun _ => 0) (fun _ => 0) hplain).1⟩

end Xmhf.Memprot
