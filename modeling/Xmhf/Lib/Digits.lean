import Mathlib.Algebra.Group.Nat.Defs
import Mathlib.Data.Nat.Basic

/-!
# The digits of a number

A number cut at the weights `c 0`, `c 1`, …, each a multiple of the one before. `digits_eq_iff`: numbers with the
same digits from `l` to `n` are the same between the two weights.
-/

namespace Xmhf.Digits

/-- The digit between the weights `c k` and `c (k + 1)`. -/
def digit (c : Nat → Nat) (k x : Nat) : Nat := x % c (k + 1) / c k

variable {c : Nat → Nat} {l n x y : Nat}

theorem digit_lt (hdvd : c n ∣ c (n + 1)) (hpos' : 0 < c (n + 1)) :
    digit c n x < c (n + 1) / c n := by
  refine Nat.div_lt_of_lt_mul ?_
  rw [Nat.mul_div_cancel' hdvd]
  exact Nat.mod_lt x hpos'

theorem weight_dvd (hdvd : ∀ k, l ≤ k → k < n → c k ∣ c (k + 1)) (h : l ≤ n) : c l ∣ c n := by
  induction n, h using Nat.le_induction with
  | base => exact Nat.dvd_refl _
  | succ n h ih =>
    exact Nat.dvd_trans (ih fun k hk hkn => hdvd k hk (by omega)) (hdvd n h (Nat.lt_succ_self n))

/-- The top digit and what is below it. -/
theorem mod_div_succ (hl : 0 < c l) (hln : c l ∣ c n) (hdvd : c n ∣ c (n + 1)) :
    x % c (n + 1) / c l = c n / c l * digit c n x + x % c n / c l := by
  have hsplit : x % c (n + 1) = c n * digit c n x + x % c n := by
    rw [← Nat.mod_mod_of_dvd x hdvd]
    exact (Nat.div_add_mod _ _).symm
  obtain ⟨q, hq⟩ := hln
  rw [hsplit, hq, Nat.mul_assoc, Nat.mul_add_div hl, Nat.mul_div_cancel_left q hl]

theorem digits_eq_iff (hpos : ∀ k, 0 < c k) (hdvd : ∀ k, l ≤ k → k < n → c k ∣ c (k + 1)) (h : l ≤ n) :
    (∀ k, l ≤ k → k < n → digit c k x = digit c k y) ↔ x % c n / c l = y % c n / c l := by
  induction n, h using Nat.le_induction with
  | base =>
    have hzero : ∀ z, z % c l / c l = 0 := fun z => Nat.div_eq_of_lt (Nat.mod_lt z (hpos l))
    rw [hzero, hzero]
    exact iff_of_true (fun k hlk hkl => absurd hlk (Nat.not_le.2 hkl)) rfl
  | succ n h ih =>
    have hln : c l ∣ c n := weight_dvd (fun k hk hkn => hdvd k hk (by omega)) h
    have htop := hdvd n h (Nat.lt_succ_self n)
    have hlow : ∀ z, z % c n / c l < c n / c l := by
      intro z
      refine Nat.div_lt_of_lt_mul ?_
      rw [Nat.mul_div_cancel' hln]
      exact Nat.mod_lt z (hpos n)
    have hih := ih fun k hk hkn => hdvd k hk (by omega)
    rw [mod_div_succ (hpos l) hln htop, mod_div_succ (hpos l) hln htop]
    constructor
    · intro hall
      rw [hall n h (Nat.lt_succ_self n), hih.1 fun k hk hkn => hall k hk (by omega)]
    · intro heq
      have hdiv := congrArg (· / (c n / c l)) heq
      have hmod := congrArg (· % (c n / c l)) heq
      have hwide : 0 < c n / c l := Nat.lt_of_le_of_lt (Nat.zero_le _) (hlow x)
      simp only [Nat.mul_add_div hwide, Nat.div_eq_of_lt (hlow x), Nat.div_eq_of_lt (hlow y), Nat.add_zero,
        Nat.mul_add_mod, Nat.mod_eq_of_lt (hlow x), Nat.mod_eq_of_lt (hlow y)] at hdiv hmod
      intro k hk hkn
      rcases Nat.lt_or_eq_of_le (Nat.le_of_lt_succ hkn) with hlt | rfl
      · exact hih.2 hmod k hk hlt
      · exact hdiv

end Xmhf.Digits
