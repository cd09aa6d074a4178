import Mathlib.Data.Fin.VecNotation
import Mathlib.Logic.Function.Basic
import Xmhf.Lib.Trans
import Xmhf.Lib.Word

/-!
# Quiescing on VMX

The quiesce protocol of `smpg-x86vmx.c`. `xmhf_smpguest_arch_x86vmx_quiesce` is the same in all trees;
the trees differ in how endquiesce releases the cores one after the other and in which cores the NMI
handler sends to user space through `prepare_context`. A `Variant` holds these differences, and
`coreIsolation`, `nmiStudy` and `secureRouter` are the three trees.

* Cores are numbered so that the handler of core `k` waits on `ck_vmx_quiesce_resume_signal`; `id` is
  the LAPIC id in that case of its switch.
* A step of a core is one access to a shared word. As on SVM, `spin_lock` belongs to the access that
  follows it and `spin_unlock` to the one before, but for `g_vmx_lock_quiesce`, which guards the
  round. The two `g_vmx_quiesce_resume_counter++` of `prepare_context` take no lock.
* `switch_to_user_space` never returns: the core leaves the guest for good, with `quiesced` still 1,
  and the `iret` in it lets NMIs in again.
* NMIs arrive at any time and are held pending while the core is in the handler.
-/

namespace Xmhf.Smp.Vmx

/-! ## The variants -/

/-- One access of endquiesce. -/
inductive Op (n : Nat)
  /-- `g_vmx_quiesce_resume_counter = m` -/
  | setResumeCounter (m : Nat)
  /-- `ck_vmx_quiesce_resume_signal = b` -/
  | setResumeSignal (k : Fin n) (b : Bool)
  /-- `while(g_vmx_quiesce_resume_counter < m)` -/
  | awaitResumeCounter (m : Nat)
  /-- `ck_gdt_signal = 1` -/
  | setGdtSignal (k : Fin n)
  /-- `vcpu->quiesced=0` -/
  | clearQuiesced
  /-- `g_vmx_quiesce=0` -/
  | clearQuiesce
  /-- `spin_unlock(&g_vmx_lock_quiesce)` -/
  | unlockQuiesce
  deriving DecidableEq, Repr

/-- The quiesce lock is still to be released at position `t` of `ops`. -/
def unlocksFrom {n : Nat} (ops : List (Op n)) (t : Nat) : Bool := .unlockQuiesce ∈ ops.drop t

/-- What one tree has of its own: the LAPIC ids, those of them whose case in the handler calls
`prepare_context`, and the accesses of endquiesce in order. `g_vmx_lock_quiesce` is released once, and
every resume signal is raised before that. -/
structure Variant (n : Nat) where
  id : Fin n → Nat
  preparing : List Nat
  endquiesce : List (Op n)
  unlocks : unlocksFrom endquiesce 0
  once : ∀ t : Fin endquiesce.length, endquiesce[t] = .unlockQuiesce →
    unlocksFrom endquiesce (t + 1) = false
  raises : ∀ (t : Fin endquiesce.length) (k : Fin n), endquiesce[t] = .setResumeSignal k true →
    unlocksFrom endquiesce t

/-- The case of core `c` in the handler's switch calls `prepare_context`. -/
def Variant.prepares {n : Nat} (v : Variant n) (c : Fin n) : Bool := v.id c ∈ v.preparing

/-- `prepare_context` waits on a signal of its own for these ids. -/
def Variant.awaitsGdt {n : Nat} (v : Variant n) (c : Fin n) : Bool := v.id c ∈ [0xc, 0xe, 0x1a]

/-- The cores of the trees below are numbered from 0. -/
@[instance] theorem neZeroSix : @NeZero Nat Zero.ofOfNat0 6 := ⟨by decide⟩

@[instance] theorem neZeroFour : @NeZero Nat Zero.ofOfNat0 4 := ⟨by decide⟩

/-- The release sequence of the two six-core trees, which differ in the first core released. -/
def releaseSix (first : Fin 6) : List (Op 6) :=
  [.setResumeCounter 0,
    .setResumeSignal first true, .awaitResumeCounter 1,
    .setResumeSignal 2 true, .awaitResumeCounter 2,
    .setResumeSignal 3 true, .awaitResumeCounter 3,
    .setResumeSignal 4 true, .awaitResumeCounter 4,
    .setResumeSignal 5 true, .awaitResumeCounter 5,
    .setGdtSignal 2, .awaitResumeCounter 6,
    .setResumeCounter 8, .clearQuiesced, .clearQuiesce, .unlockQuiesce]

/-- `xmhf-core-isolation`: `my_xmhf_smpguest_arch_x86vmx_endquiesce`. -/
def coreIsolation : Variant 6 where
  id := ![0xa, 0xc, 0xe, 0x1a, 0x1c, 0x1e]
  preparing := [0xe]
  endquiesce := releaseSix 0
  unlocks := by decide
  once := by decide
  raises := by decide

/-- `xmhf-NMI-study`: after the lock is released the signals and the counter are reset. -/
def nmiStudy : Variant 6 where
  id := ![0xa, 0xc, 0xe, 0x1a, 0x1c, 0x1e]
  preparing := [0xe]
  endquiesce := releaseSix 1 ++
    [.setResumeSignal 0 false, .setResumeSignal 1 false, .setResumeSignal 2 false,
      .setResumeSignal 3 false, .setResumeSignal 4 false, .setResumeSignal 5 false,
      .setResumeCounter 0]
  unlocks := by decide
  once := by decide
  raises := by decide

/-- `xmhf-secure-router`: all other cores go to user space, each released a second time to reload the
GDT. -/
def secureRouter : Variant 4 where
  id := ![0x0, 0xc, 0xe, 0x1a]
  preparing := [0xc, 0xe, 0x1a]
  endquiesce :=
    [.setResumeCounter 0,
      .setResumeSignal 1 true, .awaitResumeCounter 1,
      .setResumeSignal 2 true, .awaitResumeCounter 2,
      .setResumeSignal 3 true, .awaitResumeCounter 3,
      .setGdtSignal 1, .awaitResumeCounter 4,
      .setGdtSignal 2, .awaitResumeCounter 5,
      .setGdtSignal 3, .awaitResumeCounter 6,
      .setResumeCounter 8, .clearQuiesced, .clearQuiesce, .unlockQuiesce]
  unlocks := by decide
  once := by decide
  raises := by decide

/-! ## Cores and shared words -/

/-- Where a core is outside the NMI handler; each point is named after its next access. -/
inductive Main
  /-- In the guest, or in an intercept handler that does not quiesce. -/
  | guest
  /-- `spin_lock(&g_vmx_lock_quiesce)` -/
  | lockQuiesce
  /-- `vcpu->quiesced = 1` -/
  | setQuiesced
  /-- `g_vmx_quiesce_counter=0`, under its lock -/
  | resetCounter
  /-- `g_vmx_quiesce=1` -/
  | setQuiesce
  /-- `_vmx_send_quiesce_signal` -/
  | sendSignal
  /-- `while(g_vmx_quiesce_counter < (g_midtable_numentries-1) )` -/
  | awaitCounter
  /-- Past the wait loop of quiesce, before endquiesce. -/
  | quiescing
  /-- In endquiesce, about to make its access number `t`. -/
  | endquiesce (t : Nat)
  /-- In user space, after `switch_to_user_space`. -/
  | user
  deriving DecidableEq, Repr

/-- Where a core is in the NMI handler. -/
inductive Nmi
  /-- Not in the handler. -/
  | out
  /-- `if(g_vmx_quiesce)` -/
  | testQuiesce
  /-- `if(vcpu->quiesced) return` -/
  | testQuiesced
  /-- `vcpu->quiesced=1` -/
  | setQuiesced
  /-- `g_vmx_quiesce_counter++`, the read (its lock free) -/
  | readCounter
  /-- `g_vmx_quiesce_counter++`, the write of `tmp + 1` (its lock held) -/
  | writeCounter (tmp : Nat)
  /-- `while(!ck_vmx_quiesce_resume_signal)` -/
  | awaitResumeSignal
  /-- `prepare_context`: inside `update_gdt_remote_core` -/
  | updateGdt
  /-- its first `g_vmx_quiesce_resume_counter++`, the read -/
  | readUpdated
  /-- and the write -/
  | writeUpdated (tmp : Nat)
  /-- `while(!ck_gdt_signal)` -/
  | awaitGdtSignal
  /-- inside `reload_gdt_remote_core` and `reload_idt_remote_core` -/
  | reloadGdt
  /-- its second `g_vmx_quiesce_resume_counter++`, the read -/
  | readReloaded
  /-- and the write -/
  | writeReloaded (tmp : Nat)
  /-- `while(g_vmx_quiesce_resume_counter<8)` -/
  | awaitEight
  /-- `switch_to_user_space` -/
  | switchToUserSpace
  /-- `g_vmx_quiesce_resume_counter++` of the handler, the read (its lock free) -/
  | readResumeCounter
  /-- and the write (its lock held) -/
  | writeResumeCounter (tmp : Nat)
  /-- `vcpu->quiesced=0` -/
  | clearQuiesced
  deriving DecidableEq, Repr

/-- What a core owns: its `VCPU.quiesced` and its program points. -/
structure Core where
  quiesced : Bool
  main : Main
  nmi : Nmi
  deriving DecidableEq, Repr

/-- The shared words of `smpg-x86vmx-data.c`. A lock is `true` while it is free. -/
structure Shared (n : Nat) where
  quiesce : Bool
  quiesceCounter : Nat
  resumeCounter : Nat
  resumeSignal : Fin n → Bool
  gdtSignal : Fin n → Bool
  lockQuiesce : Bool
  lockQuiesceCounter : Bool
  lockResumeCounter : Bool

open Xmhf.Word

variable {n : Nat}

/-- One access of endquiesce, on the shared words and the initiator's `quiesced`. -/
def opStep (g : Shared n) (q : Bool) : Op n → Option (Shared n × Bool)
  | .setResumeCounter m => some ({ g with resumeCounter := m }, q)
  | .setResumeSignal k b =>
    some ({ g with resumeSignal := Function.update g.resumeSignal k b }, q)
  | .awaitResumeCounter m => if g.resumeCounter < m then none else some (g, q)
  | .setGdtSignal k => some ({ g with gdtSignal := Function.update g.gdtSignal k true }, q)
  | .clearQuiesced => some (g, false)
  | .clearQuiesce => some ({ g with quiesce := false }, q)
  | .unlockQuiesce => some ({ g with lockQuiesce := true }, q)

/-- One access of quiesce or endquiesce. A core in the guest may start to quiesce at any time; a core
in user space makes no access. -/
def mainStep (v : Variant n) (g : Shared n) (k : Core) : Option (Shared n × Core) :=
  match k.main with
  | .guest => some (g, { k with main := .lockQuiesce })
  | .lockQuiesce =>
    if g.lockQuiesce then some ({ g with lockQuiesce := false }, { k with main := .setQuiesced })
    else none
  | .setQuiesced => some (g, { k with quiesced := true, main := .resetCounter })
  | .resetCounter =>
    if g.lockQuiesceCounter then
      some ({ g with quiesceCounter := 0 }, { k with main := .setQuiesce })
    else none
  | .setQuiesce => some ({ g with quiesce := true }, { k with main := .sendSignal })
  | .sendSignal => some (g, { k with main := .awaitCounter })
  | .awaitCounter =>
    if g.quiesceCounter < n - 1 then none else some (g, { k with main := .quiescing })
  | .quiescing => some (g, { k with main := .endquiesce 0 })
  | .endquiesce t =>
    match v.endquiesce[t]? with
    | some op => (opStep g k.quiesced op).map fun r =>
        (r.1, { k with quiesced := r.2, main := .endquiesce (t + 1) })
    | none => some (g, { k with main := .guest })
  | .user => none

/-- One access of `xmhf_smpguest_arch_x86vmx_eventhandler_nmiexception` on core `c`. Outside a quiesce
the handler injects the NMI into the guest or ignores it, and touches no shared word. -/
def nmiStep (v : Variant n) (c : Fin n) (g : Shared n) (k : Core) : Option (Shared n × Core) :=
  match k.nmi with
  | .out => none
  | .testQuiesce => some (g, { k with nmi := if g.quiesce then .testQuiesced else .out })
  | .testQuiesced => some (g, { k with nmi := if k.quiesced then .out else .setQuiesced })
  | .setQuiesced => some (g, { k with quiesced := true, nmi := .readCounter })
  | .readCounter =>
    if g.lockQuiesceCounter then
      some ({ g with lockQuiesceCounter := false },
        { k with nmi := .writeCounter g.quiesceCounter })
    else none
  | .writeCounter tmp =>
    some ({ g with quiesceCounter := inc32 tmp, lockQuiesceCounter := true },
      { k with nmi := .awaitResumeSignal })
  | .awaitResumeSignal =>
    if g.resumeSignal c then
      some (g, { k with nmi := if v.prepares c then .updateGdt else .readResumeCounter })
    else none
  | .updateGdt => some (g, { k with nmi := .readUpdated })
  | .readUpdated => some (g, { k with nmi := .writeUpdated g.resumeCounter })
  | .writeUpdated tmp =>
    some ({ g with resumeCounter := inc32 tmp }, { k with nmi := .awaitGdtSignal })
  | .awaitGdtSignal =>
    if v.awaitsGdt c ∧ g.gdtSignal c = false then none else some (g, { k with nmi := .reloadGdt })
  | .reloadGdt => some (g, { k with nmi := .readReloaded })
  | .readReloaded => some (g, { k with nmi := .writeReloaded g.resumeCounter })
  | .writeReloaded tmp =>
    some ({ g with resumeCounter := inc32 tmp }, { k with nmi := .awaitEight })
  | .awaitEight =>
    if g.resumeCounter < 8 then none else some (g, { k with nmi := .switchToUserSpace })
  | .switchToUserSpace => some (g, { k with main := .user, nmi := .out })
  | .readResumeCounter =>
    if g.lockResumeCounter then
      some ({ g with lockResumeCounter := false },
        { k with nmi := .writeResumeCounter g.resumeCounter })
    else none
  | .writeResumeCounter tmp =>
    some ({ g with resumeCounter := inc32 tmp, lockResumeCounter := true },
      { k with nmi := .clearQuiesced })
  | .clearQuiesced => some (g, { k with quiesced := false, nmi := .out })

/-- The handler runs on top of the main code: while a core is in it, only the handler moves. -/
def coreStep (v : Variant n) (c : Fin n) (g : Shared n) (k : Core) : Option (Shared n × Core) :=
  if k.nmi = .out then mainStep v g k else nmiStep v c g k

/-! ## The system -/

/-- The cores, the shared words, and the NMIs held pending at each core. -/
structure State (n : Nat) where
  sh : Shared n
  core : Fin n → Core
  pending : Fin n → Bool

/-- `smpg-x86vmx-data.c`: all flags, signals and counters 0, all locks 1; every core in the guest. -/
def init (n : Nat) : State n where
  sh := ⟨false, 0, 0, fun _ => false, fun _ => false, true, true, true⟩
  core := fun _ => ⟨false, .guest, .out⟩
  pending := fun _ => false

/-- What can happen next: a core makes an access, an NMI arrives, a pending NMI is taken. -/
inductive Act (n : Nat)
  | run (c : Fin n)
  | nmi (c : Fin n)
  | take (c : Fin n)
  deriving DecidableEq, Repr

/-- A core at `_vmx_send_quiesce_signal` fires an NMI at every other core; a core that takes an NMI
enters the handler. -/
def step (v : Variant n) (s : State n) : Act n → Option (State n)
  | .run c =>
    (coreStep v c s.sh (s.core c)).map fun r =>
      { sh := r.1
        core := Function.update s.core c r.2
        pending := if (s.core c).nmi = .out ∧ (s.core c).main = .sendSignal then
            fun j => if j = c then s.pending j else true
          else s.pending }
  | .nmi c => some { s with pending := Function.update s.pending c true }
  | .take c =>
    if s.pending c ∧ (s.core c).nmi = .out then
      some { s with
        core := Function.update s.core c { s.core c with nmi := .testQuiesce }
        pending := Function.update s.pending c false }
    else none

end Xmhf.Smp.Vmx
