import Mathlib.Data.BitVec
import Xmhf.Smp.Vmx

/-!
# Kernel stacks

`update_gdt_remote_core` of the secure router: a core that is to go to user space writes the entries of the
shared `x_my_gdt_start`, the shared `user_tss` with its own stack in it, and loads its task register and
`GS`.

* `pstep` is a step of the quiesce protocol with these writes, made where the handler is inside
  `update_gdt_remote_core`. `sgdt` and `lgdt` of the reload leave the task register as it is.
* A privilege change of a core takes the stack from the task state segment at the base that its task
  register was loaded with (`Tables.kernelStack`).
-/

namespace Xmhf.Smp.Tss

open Xmhf.Smp.Vmx

/-- `gdt_entry_t` -/
structure GdtEntry where
  limitLow : BitVec 16
  baseLow : BitVec 16
  baseMiddle : BitVec 8
  access : BitVec 8
  granularity : BitVec 8
  baseHigh : BitVec 8
  deriving DecidableEq, Repr

/-- The base that the processor reads from an entry. -/
def GdtEntry.base (e : GdtEntry) : BitVec 32 := e.baseHigh ++ e.baseMiddle ++ e.baseLow

/-- `tss_entry_t`: the kernel stack; all other fields are 0. -/
structure TssEntry where
  ss0 : BitVec 16
  esp0 : BitVec 32
  deriving DecidableEq, Repr

/-- `sizeof(tss_entry_t)` -/
def sizeofTssEntry : BitVec 16 := 104

/-- A task register: the selector loaded and the base it had. -/
structure TaskRegister where
  selector : BitVec 16
  base : BitVec 32
  deriving DecidableEq, Repr

/-- What the cores' `VCPU` structures give to `update_gdt_remote_core`, and the address of `user_tss`. The
stacks of the cores are apart. -/
structure Vcpus (n : Nat) where
  userTss : BitVec 32
  esp : Fin n → BitVec 32
  guestGsBase : Fin n → BitVec 32
  esp_inj : Function.Injective esp

/-- The descriptor tables, and the registers that cores have loaded from them. -/
structure Tables (n : Nat) where
  /-- `x_my_gdt_start` -/
  gdt : Nat → GdtEntry
  /-- Task state segments, by address. -/
  tss : BitVec 32 → TssEntry
  /-- `none`: the runtime's. -/
  tr : Fin n → Option TaskRegister
  gs : Fin n → BitVec 16

/-- `gdt_set_gate` -/
def gdtSetGate (gdt : Nat → GdtEntry) (num : Nat) (base limit : BitVec 32) (access gran : BitVec 8) :
    Nat → GdtEntry :=
  Function.update gdt num
    { baseLow := (base &&& 0xFFFF).setWidth 16
      baseMiddle := ((base >>> 16) &&& 0xFF).setWidth 8
      baseHigh := ((base >>> 24) &&& 0xFF).setWidth 8
      limitLow := (limit &&& 0xFFFF).setWidth 16
      granularity := ((limit >>> 16) &&& 0x0F).setWidth 8 ||| (gran &&& 0xF0)
      access := access }

variable {n : Nat}

/-- `write_tss` -/
def writeTss (cpus : Vcpus n) (c : Fin n) (t : Tables n) (num : Nat) (access limit : BitVec 8) :
    Tables n :=
  { t with
    gdt := Function.update t.gdt num
      { baseLow := (cpus.userTss &&& 0xFFFF).setWidth 16
        baseMiddle := ((cpus.userTss >>> 16) &&& 0xFF).setWidth 8
        baseHigh := ((cpus.userTss >>> 24) &&& 0xFF).setWidth 8
        limitLow := sizeofTssEntry
        access := access
        granularity := limit }
    -- the whole structure is zeroed first
    tss := Function.update t.tss cpus.userTss ⟨0x10, cpus.esp c⟩ }

/-- The entry for `GS` of each core, and its selector. -/
def gsGate (id : Nat) : Option (Nat × BitVec 16) :=
  if id = 0xC then some (6, 0x33)
  else if id = 0xE then some (7, 0x3B)
  else if id = 0x1A then some (8, 0x43)
  else none

/-- `update_gdt_remote_core` on core `c`, of LAPIC id `id`. -/
def updateGdtRemoteCore (cpus : Vcpus n) (id : Nat) (c : Fin n) (t : Tables n) : Tables n :=
  let gdt := gdtSetGate t.gdt 0 0 0 0 0
  let gdt := gdtSetGate gdt 1 0 0xFFFFFFFF 0x9A 0xCF
  let gdt := gdtSetGate gdt 2 0 0xFFFFFFFF 0x92 0xCF
  let gdt := gdtSetGate gdt 3 0 0xFFFFFFFF 0xFA 0xCF
  let gdt := gdtSetGate gdt 4 0 0xFFFFFFFF 0xF2 0xCF
  let t := writeTss cpus c { t with gdt := gdt } 5 0xE9 0x10
  let gdt := match gsGate id with
    | some (num, _) => gdtSetGate t.gdt num (cpus.guestGsBase c) 0xFFFFFFFF 0xF2 0xDF
    | none => t.gdt
  let gsselector := match gsGate id with
    | some (_, selector) => selector
    | none => 0x33
  -- `ltr` of selector 0x2B, then `GS`
  { t with
    gdt := gdt
    tr := Function.update t.tr c (some ⟨0x2B, (gdt (0x2B / 8)).base⟩)
    gs := Function.update t.gs c gsselector }

/-- The stack of the next privilege change of a core; `none` while it has the runtime's task register. -/
def Tables.kernelStack (t : Tables n) (c : Fin n) : Option (BitVec 32) :=
  (t.tr c).map fun tr => (t.tss tr.base).esp0

/-! ## The system -/

/-- The protocol's state and the tables. -/
structure PState (n : Nat) where
  st : State n
  tables : Tables n
  /-- The core that was last inside `update_gdt_remote_core`. -/
  last : Option (Fin n)

/-- The core that an action takes through `update_gdt_remote_core`. -/
def updating (s : State n) : Act n → Option (Fin n)
  | .run c => if (s.core c).nmi = .updateGdt then some c else none
  | _ => none

/-- A step of the protocol with what it writes to the tables. -/
def pstep (v : Variant n) (cpus : Vcpus n) (s : PState n) (a : Act n) : Option (PState n) :=
  (step v s.st a).map fun st =>
    match updating s.st a with
    | some c => ⟨st, updateGdtRemoteCore cpus (v.id c) c s.tables, some c⟩
    | none => { s with st := st }

/-- Tables of zeros. -/
def pinit (n : Nat) : PState n where
  st := init n
  tables := ⟨fun _ => ⟨0, 0, 0, 0, 0, 0⟩, fun _ => ⟨0, 0⟩, fun _ => none, fun _ => 0⟩
  last := none

/-- A core at `switch_to_user_space` or past it. -/
def EntersUser (s : PState n) (c : Fin n) : Prop :=
  (s.st.core c).nmi = .switchToUserSpace ∨ (s.st.core c).main = .user

instance (s : PState n) (c : Fin n) : Decidable (EntersUser s c) :=
  inferInstanceAs (Decidable (_ ∨ _))

/-- A core's privilege changes are on its own stack. -/
def OwnStack (cpus : Vcpus n) (s : PState n) (c : Fin n) : Prop :=
  s.tables.kernelStack c = some (cpus.esp c)

instance (cpus : Vcpus n) (s : PState n) (c : Fin n) : Decidable (OwnStack cpus s c) :=
  inferInstanceAs (Decidable (_ = _))

end Xmhf.Smp.Tss
