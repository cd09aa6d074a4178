import Mathlib.Data.Fin.Basic
import Mathlib.Logic.Function.Basic
import Xmhf.Lib.Trans
import Xmhf.Lib.Word

/-!
# Quiescing on SVM

The quiesce protocol of `smpg-x86svm.c` on `n` cores (the entries of `g_midtable`):
`xmhf_smpguest_arch_x86svm_quiesce`, `xmhf_smpguest_arch_x86svm_endquiesce` and the NMI handler
`xmhf_smpguest_arch_x86svm_eventhandler_nmiexception`. A step of a core is one access to a shared
flag or counter; the cores' steps interleave freely.

* `spin_lock` belongs to the access that follows it and `spin_unlock` to the access before it:
  inside a critical section the lock is held, and no other shared word is touched between the lock
  word and the access. A section of one access is one step. `g_svm_lock_quiesce` guards the whole
  round, so its two operations are steps of their own.
* An NMI arrives at a core at any time (`Act.nmi`) and is held pending until the core is out of the
  handler, as the handler's comment says; taking it (`Act.take`) suspends whatever the core runs.
* `quiesced` and the program points are per core (`VCPU.quiesced`).
-/

namespace Xmhf.Smp.Svm

open Xmhf.Word

/-- Where a core is in the code it runs outside the NMI handler; each point is named after the
access it is about to make. -/
inductive Main
  /-- In the guest, or in an intercept handler that does not quiesce. -/
  | guest
  /-- `spin_lock(&g_svm_lock_quiesce)` -/
  | lockQuiesce
  /-- `vcpu->quiesced = 1` -/
  | setQuiesced
  /-- `g_svm_quiesce_counter=0`, under its lock -/
  | resetCounter
  /-- `g_svm_quiesce=1` -/
  | setQuiesce
  /-- `_svm_send_quiesce_signal` -/
  | sendSignal
  /-- `while(g_svm_quiesce_counter < (g_midtable_numentries-1) )` -/
  | awaitCounter
  /-- Past the wait loop of quiesce, before endquiesce. -/
  | quiescing
  /-- `g_svm_quiesce_resume_counter=0` -/
  | resetResumeCounter
  /-- `g_svm_quiesce_resume_signal=1` -/
  | setResumeSignal
  /-- `while(g_svm_quiesce_resume_counter < (g_midtable_numentries-1) )` -/
  | awaitResumeCounter
  /-- `vcpu->quiesced = 0` -/
  | clearQuiesced
  /-- `g_svm_quiesce=0` -/
  | clearQuiesce
  /-- `g_svm_quiesce_resume_signal=0`, under its lock -/
  | resetResumeSignal
  /-- `spin_unlock(&g_svm_lock_quiesce)` -/
  | unlockQuiesce
  deriving DecidableEq, Repr

/-- Where a core is in the NMI handler. -/
inductive Nmi
  /-- Not in the handler. -/
  | out
  /-- `if(g_svm_quiesce)` -/
  | testQuiesce
  /-- `if(vcpu->quiesced) return` -/
  | testQuiesced
  /-- `vcpu->quiesced=1` -/
  | setQuiesced
  /-- `g_svm_quiesce_counter++`, the read (its lock free) -/
  | readCounter
  /-- `g_svm_quiesce_counter++`, the write of `tmp + 1` (its lock held) -/
  | writeCounter (tmp : Nat)
  /-- `while(!g_svm_quiesce_resume_signal)` -/
  | awaitResumeSignal
  /-- `g_svm_quiesce_resume_counter++`, the read -/
  | readResumeCounter
  /-- `g_svm_quiesce_resume_counter++`, the write -/
  | writeResumeCounter (tmp : Nat)
  /-- `vcpu->quiesced=0` -/
  | clearQuiesced
  deriving DecidableEq, Repr

/-- What a core owns: its `VCPU.quiesced` and its program points. -/
structure Core where
  quiesced : Bool
  main : Main
  nmi : Nmi
  deriving DecidableEq, Repr

/-- The shared words of `smpg-x86svm-data.c`. A lock is `true` while it is free. -/
structure Shared where
  quiesce : Bool
  quiesceCounter : Nat
  resumeCounter : Nat
  resumeSignal : Bool
  lockQuiesce : Bool
  lockQuiesceCounter : Bool
  lockResumeCounter : Bool
  deriving DecidableEq, Repr

/-- One access of `xmhf_smpguest_arch_x86svm_quiesce` or `xmhf_smpguest_arch_x86svm_endquiesce`;
`n` is `g_midtable_numentries`. A core in the guest may start to quiesce at any time. -/
def mainStep (n : Nat) (g : Shared) (k : Core) : Option (Shared × Core) :=
  match k.main with
  | .guest => some (g, { k with main := .lockQuiesce })
  | .lockQuiesce =>
    if g.lockQuiesce then some ({ g with lockQuiesce := false }, { k with main := .setQuiesced })
    else none
  | .setQuiesced => some (g, { k with quiesced := true, main := .resetCounter })
  | .resetCounter =>
    if g.lockQuiesceCounter then
      some ({ g with quiesceCounter := 0 }, { k with main := .setQuiesce })
    else none
  | .setQuiesce => some ({ g with quiesce := true }, { k with main := .sendSignal })
  | .sendSignal => some (g, { k with main := .awaitCounter })
  | .awaitCounter =>
    if g.quiesceCounter < n - 1 then none else some (g, { k with main := .quiescing })
  | .quiescing => some (g, { k with main := .resetResumeCounter })
  | .resetResumeCounter => some ({ g with resumeCounter := 0 }, { k with main := .setResumeSignal })
  | .setResumeSignal =>
    some ({ g with resumeSignal := true }, { k with main := .awaitResumeCounter })
  | .awaitResumeCounter =>
    if g.resumeCounter < n - 1 then none else some (g, { k with main := .clearQuiesced })
  | .clearQuiesced => some (g, { k with quiesced := false, main := .clearQuiesce })
  | .clearQuiesce => some ({ g with quiesce := false }, { k with main := .resetResumeSignal })
  | .resetResumeSignal =>
    some ({ g with resumeSignal := false }, { k with main := .unlockQuiesce })
  | .unlockQuiesce => some ({ g with lockQuiesce := true }, { k with main := .guest })

/-- One access of `xmhf_smpguest_arch_x86svm_eventhandler_nmiexception`. Outside a quiesce the
handler injects the NMI into the guest or ignores it, and touches no shared word. -/
def nmiStep (g : Shared) (k : Core) : Option (Shared × Core) :=
  match k.nmi with
  | .out => none
  | .testQuiesce => some (g, { k with nmi := if g.quiesce then .testQuiesced else .out })
  | .testQuiesced => some (g, { k with nmi := if k.quiesced then .out else .setQuiesced })
  | .setQuiesced => some (g, { k with quiesced := true, nmi := .readCounter })
  | .readCounter =>
    if g.lockQuiesceCounter then
      some ({ g with lockQuiesceCounter := false }, { k with nmi := .writeCounter g.quiesceCounter })
    else none
  | .writeCounter tmp =>
    some ({ g with quiesceCounter := inc32 tmp, lockQuiesceCounter := true },
      { k with nmi := .awaitResumeSignal })
  | .awaitResumeSignal => if g.resumeSignal then some (g, { k with nmi := .readResumeCounter }) else none
  | .readResumeCounter =>
    if g.lockResumeCounter then
      some ({ g with lockResumeCounter := false },
        { k with nmi := .writeResumeCounter g.resumeCounter })
    else none
  | .writeResumeCounter tmp =>
    some ({ g with resumeCounter := inc32 tmp, lockResumeCounter := true },
      { k with nmi := .clearQuiesced })
  | .clearQuiesced => some (g, { k with quiesced := false, nmi := .out })

/-- The handler runs on top of the main code: while a core is in it, only the handler moves. -/
def coreStep (n : Nat) (g : Shared) (k : Core) : Option (Shared × Core) :=
  if k.nmi = .out then mainStep n g k else nmiStep g k

/-- `n` cores, the shared words, and the NMIs held pending at each core. -/
structure State (n : Nat) where
  sh : Shared
  core : Fin n → Core
  pending : Fin n → Bool

/-- `smpg-x86svm-data.c`: all flags and counters 0, all locks 1; every core in the guest. -/
def init (n : Nat) : State n where
  sh := ⟨false, 0, 0, false, true, true, true⟩
  core := fun _ => ⟨false, .guest, .out⟩
  pending := fun _ => false

/-- What can happen next: a core makes an access, an NMI arrives, a pending NMI is taken. -/
inductive Act (n : Nat)
  | run (c : Fin n)
  | nmi (c : Fin n)
  | take (c : Fin n)
  deriving DecidableEq, Repr

/-- A core at `_svm_send_quiesce_signal` fires an NMI at every other core (`icr_low` is
all-excluding-self); a core that takes an NMI enters the handler. -/
def step {n : Nat} (s : State n) : Act n → Option (State n)
  | .run c =>
    (coreStep n s.sh (s.core c)).map fun r =>
      { sh := r.1
        core := Function.update s.core c r.2
        pending := if (s.core c).nmi = .out ∧ (s.core c).main = .sendSignal then
            fun j => if j = c then s.pending j else true
          else s.pending }
  | .nmi c => some { s with pending := Function.update s.pending c true }
  | .take c =>
    if s.pending c ∧ (s.core c).nmi = .out then
      some { s with
        core := Function.update s.core c { s.core c with nmi := .testQuiesce }
        pending := Function.update s.pending c false }
    else none

end Xmhf.Smp.Svm
