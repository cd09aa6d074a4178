import Xmhf.Lib.Memory

/-!
# Words of 4 bytes in byte memory

`store32` beside `load32`: a word reads back (`load32_store32`), and a store elsewhere does not show
(`load32_store32_of_disjoint`, `store32_apply`). `Agree lo hi m m'` says that two memories are the same on an
interval, which is what a reader of it needs.
-/

namespace Xmhf.Memory

/-- `m` with the word `w` at `a`. -/
def store32 (m : Mem) (a : Nat) (w : BitVec 32) : Mem := writeLE m a 4 w.toNat

variable {m m' m'' : Mem} {a b lo hi lo' hi' x : Nat} {w : BitVec 32}

@[simp] theorem load32_store32 (m : Mem) (a : Nat) (w : BitVec 32) : load32 (store32 m a w) a = w :=
  load32_writeLE m a w

theorem load32_store32_of_disjoint (h : a + 4 ≤ b ∨ b + 4 ≤ a) :
    load32 (store32 m b w) a = load32 m a := by
  rw [load32, store32, readLE_writeLE_of_disjoint h, load32]

theorem store32_apply (h : x < a ∨ a + 4 ≤ x) : store32 m a w x = m x := writeLE_apply_of_disjoint h

/-- The two memories are the same from `lo` to `hi`. -/
def Agree (lo hi : Nat) (m m' : Mem) : Prop := ∀ x, lo ≤ x → x < hi → m' x = m x

namespace Agree

theorem refl (lo hi : Nat) (m : Mem) : Agree lo hi m m := fun _ _ _ => rfl

theorem trans (h : Agree lo hi m m') (h' : Agree lo hi m' m'') : Agree lo hi m m'' :=
  fun x h1 h2 => (h' x h1 h2).trans (h x h1 h2)

theorem mono (h : Agree lo hi m m') (hlo : lo ≤ lo') (hhi : hi' ≤ hi) : Agree lo' hi' m m' :=
  fun x h1 h2 => h x (Nat.le_trans hlo h1) (Nat.lt_of_lt_of_le h2 hhi)

theorem load32 (h : Agree lo hi m m') (hlo : lo ≤ a) (hhi : a + 4 ≤ hi) :
    Memory.load32 m' a = Memory.load32 m a := by
  rw [Memory.load32, Memory.load32, readLE_congr fun x h1 h2 => h x (by omega) (by omega)]

theorem store32 (h : a + 4 ≤ lo ∨ hi ≤ a) : Agree lo hi m (Memory.store32 m a w) :=
  fun _ h1 h2 => store32_apply (by omega)

end Agree

end Xmhf.Memory
