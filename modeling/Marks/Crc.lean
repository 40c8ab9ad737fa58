import Mathlib.Algebra.Field.ZMod
import Mathlib.Algebra.Polynomial.Coeff
import Mathlib.Algebra.Polynomial.Div
import Mathlib.Tactic.Ring

/-! # Cyclic redundancy checks

A register of `w` bits is a polynomial over the field of two elements, its lowest bit the highest coefficient. A shift
of the register multiplies by `X` modulo the generator, so what a register holds after a message is a remainder. A
table has the shifts of every symbol. -/

namespace Crc

open Polynomial

/-! ## Registers -/

section
variable {w k : Nat} (poly : BitVec w)

def bitStep (r : BitVec w) : BitVec w := if r.getLsbD 0 then poly ^^^ (r >>> 1) else r >>> 1

def bits : Nat → BitVec w → BitVec w
  | 0, r => r
  | n + 1, r => bits n (bitStep poly r)

def update (r : BitVec w) (symbol : BitVec k) : BitVec w := bits poly k (r ^^^ symbol.setWidth w)

def register (r : BitVec w) (message : List (BitVec k)) : BitVec w := message.foldl (update poly) r

/-! ## Tables -/

theorem bitStep_xor (a b : BitVec w) : bitStep poly (a ^^^ b) = bitStep poly a ^^^ bitStep poly b := by
  unfold bitStep
  rw [BitVec.getLsbD_xor, BitVec.ushiftRight_xor_distrib]
  cases a.getLsbD 0 <;> cases b.getLsbD 0
  · rfl
  · simp only [Bool.false_bne, if_true, Bool.false_eq_true, if_false]
    rw [← BitVec.xor_assoc, BitVec.xor_comm poly, BitVec.xor_assoc]
  · simp only [Bool.bne_false, if_true, Bool.false_eq_true, if_false, BitVec.xor_assoc]
  · simp only [bne_self_eq_false, Bool.false_eq_true, if_false, if_true]
    rw [BitVec.xor_comm poly (a >>> 1), BitVec.xor_assoc, ← BitVec.xor_assoc poly, BitVec.xor_self, BitVec.zero_xor]

theorem bits_xor (n : Nat) (a b : BitVec w) : bits poly n (a ^^^ b) = bits poly n a ^^^ bits poly n b := by
  induction n generalizing a b with
  | zero => rfl
  | succ n ih =>
    show bits poly n (bitStep poly (a ^^^ b)) = _
    rw [bitStep_xor, ih]
    rfl

theorem bits_clear {n : Nat} {r : BitVec w} (h : ∀ i < n, r.getLsbD i = false) : bits poly n r = r >>> n := by
  induction n generalizing r with
  | zero => exact (BitVec.ushiftRight_zero r).symm
  | succ n ih =>
    show bits poly n (bitStep poly r) = _
    have hstep : bitStep poly r = r >>> 1 := by
      unfold bitStep
      rw [h 0 (Nat.succ_pos n), if_neg Bool.false_ne_true]
    rw [hstep, ih, Nat.add_comm n 1, BitVec.shiftRight_add]
    intro i hi
    rw [BitVec.getLsbD_ushiftRight]
    exact h (1 + i) (by omega)

def low (k : Nat) (r : BitVec w) : BitVec w := (r.setWidth k).setWidth w

theorem low_bit (r : BitVec w) (i : Nat) : (low k r).getLsbD i = (decide (i < k) && r.getLsbD i) := by
  unfold low
  rw [BitVec.getLsbD_setWidth, BitVec.getLsbD_setWidth]
  by_cases hi : i < w
  · simp [hi]
  · simp [BitVec.getLsbD_of_ge r i (by omega)]

theorem bits_table (r : BitVec w) : bits poly k r = bits poly k (low k r) ^^^ (r >>> k) := by
  have hsplit : r = low k r ^^^ (r ^^^ low k r) := by
    rw [BitVec.xor_comm r, ← BitVec.xor_assoc, BitVec.xor_self, BitVec.zero_xor]
  have hclear : ∀ i < k, (r ^^^ low k r).getLsbD i = false := by
    intro i hi
    rw [BitVec.getLsbD_xor, low_bit]
    simp [hi]
  have hshift : (r ^^^ low k r) >>> k = r >>> k := by
    apply BitVec.eq_of_getLsbD_eq
    intro i _
    rw [BitVec.getLsbD_ushiftRight, BitVec.getLsbD_ushiftRight, BitVec.getLsbD_xor, low_bit]
    simp
  conv_lhs => rw [hsplit]
  rw [bits_xor, bits_clear poly hclear, hshift]

end

/-! ## Polynomials -/

section
variable {w k : Nat}

noncomputable def toPoly (r : BitVec w) : (ZMod 2)[X] :=
  ∑ i ∈ Finset.range w, if r.getLsbD i then X ^ (w - 1 - i) else 0

/-- A message, the first symbol the highest. -/
noncomputable def messagePoly (message : List (BitVec k)) : (ZMod 2)[X] :=
  message.foldl (fun m symbol => m * X ^ k + toPoly symbol) 0

noncomputable def generator (poly : BitVec w) : (ZMod 2)[X] := X ^ w + toPoly poly

theorem twice_zero (p : (ZMod 2)[X]) : p + p = 0 := by
  rw [← two_mul, show (2 : (ZMod 2)[X]) = 0 from CharP.cast_eq_zero _ 2, zero_mul]

theorem toPoly_xor (a b : BitVec w) : toPoly (a ^^^ b) = toPoly a + toPoly b := by
  unfold toPoly
  rw [← Finset.sum_add_distrib]
  refine Finset.sum_congr rfl fun i _ => ?_
  rw [BitVec.getLsbD_xor]
  cases a.getLsbD i <;> cases b.getLsbD i <;> simp [twice_zero]

theorem toPoly_shift (r : BitVec w) : X * toPoly r = (if r.getLsbD 0 then X ^ w else 0) + toPoly (r >>> 1) := by
  cases w with
  | zero => simp [toPoly]
  | succ w =>
    unfold toPoly
    rw [Finset.mul_sum, Finset.sum_range_succ', Finset.sum_range_succ, add_comm]
    have hlast : (r >>> 1).getLsbD w = false := by
      rw [BitVec.getLsbD_ushiftRight, BitVec.getLsbD_of_ge r _ (by omega)]
    rw [hlast, if_neg Bool.false_ne_true, add_zero]
    congr 1
    · by_cases hlow : r.getLsbD 0 = true
      · rw [if_pos hlow, if_pos hlow, ← pow_succ']
        rfl
      · rw [if_neg hlow, if_neg hlow, mul_zero]
    · refine Finset.sum_congr rfl fun i hi => ?_
      have hi := Finset.mem_range.mp hi
      rw [BitVec.getLsbD_ushiftRight, Nat.add_comm 1 i]
      by_cases hbit : r.getLsbD (i + 1) = true
      · rw [if_pos hbit, if_pos hbit, ← pow_succ']
        congr 1
        omega
      · rw [if_neg hbit, if_neg hbit, mul_zero]

theorem toPoly_setWidth (symbol : BitVec k) (h : k ≤ w) : toPoly (symbol.setWidth w) = X ^ (w - k) * toPoly symbol := by
  unfold toPoly
  rw [Finset.mul_sum, ← Finset.sum_subset (Finset.range_subset_range.mpr h)]
  · refine Finset.sum_congr rfl fun i hi => ?_
    have hi := Finset.mem_range.mp hi
    rw [BitVec.getLsbD_setWidth, decide_eq_true (by omega : i < w), Bool.true_and]
    by_cases hbit : symbol.getLsbD i = true
    · rw [if_pos hbit, if_pos hbit, ← pow_add]
      congr 1
      omega
    · rw [if_neg hbit, if_neg hbit, mul_zero]
  · intro i _ hi
    rw [BitVec.getLsbD_setWidth, BitVec.getLsbD_of_ge symbol i (by simpa using hi), Bool.and_false,
      if_neg Bool.false_ne_true]

theorem degree_toPoly (r : BitVec w) : (toPoly r).degree < w := by
  refine (Polynomial.degree_sum_le _ _).trans_lt ((Finset.sup_lt_iff (WithBot.bot_lt_coe w)).mpr fun i hi => ?_)
  have hi := Finset.mem_range.mp hi
  by_cases hbit : r.getLsbD i = true
  · rw [if_pos hbit]
    exact (Polynomial.degree_X_pow_le _).trans_lt (Nat.cast_lt.mpr (by omega))
  · rw [if_neg hbit, Polynomial.degree_zero]
    exact WithBot.bot_lt_coe w

theorem generator_monic (poly : BitVec w) : (generator poly).Monic :=
  Polynomial.monic_X_pow_add (degree_toPoly poly)

theorem degree_generator (poly : BitVec w) : (generator poly).degree = w := by
  unfold generator
  rw [Polynomial.degree_add_eq_left_of_degree_lt] <;> rw [Polynomial.degree_X_pow]
  exact degree_toPoly poly

end

/-! ## The check -/

section
variable {w k : Nat} (poly : BitVec w)

theorem toPoly_bitStep (r : BitVec w) :
    ∃ q, X * toPoly r = toPoly (bitStep poly r) + generator poly * q := by
  rw [toPoly_shift]
  unfold bitStep
  by_cases hbit : r.getLsbD 0 = true
  · refine ⟨1, ?_⟩
    rw [if_pos hbit, if_pos hbit, toPoly_xor, generator]
    calc X ^ w + toPoly (r >>> 1)
      _ = (toPoly poly + toPoly poly) + toPoly (r >>> 1) + X ^ w := by
        rw [twice_zero, zero_add, add_comm]
      _ = _ := by ring
  · refine ⟨0, ?_⟩
    rw [if_neg hbit, if_neg hbit, mul_zero, zero_add, add_zero]

theorem toPoly_bits (n : Nat) (r : BitVec w) :
    ∃ q, X ^ n * toPoly r = toPoly (bits poly n r) + generator poly * q := by
  induction n generalizing r with
  | zero => exact ⟨0, by rw [pow_zero, one_mul, mul_zero, add_zero]; rfl⟩
  | succ n ih =>
    obtain ⟨q, hq⟩ := toPoly_bitStep poly r
    obtain ⟨p, hp⟩ := ih (bitStep poly r)
    refine ⟨p + X ^ n * q, ?_⟩
    calc X ^ (n + 1) * toPoly r
      _ = X ^ n * (X * toPoly r) := by ring
      _ = X ^ n * toPoly (bitStep poly r) + generator poly * (X ^ n * q) := by rw [hq]; ring
      _ = _ := by rw [hp, add_assoc, ← mul_add]; rfl

theorem toPoly_register (h : k ≤ w) (r : BitVec w) (message : List (BitVec k)) :
    ∃ q, X ^ (k * message.length) * toPoly r + X ^ w * messagePoly message =
      toPoly (register poly r message) + generator poly * q := by
  induction message using List.reverseRecOn with
  | nil => exact ⟨0, by simp [messagePoly, register]⟩
  | append_singleton message symbol ih =>
    obtain ⟨q, hq⟩ := ih
    have hmessage : messagePoly (message ++ [symbol]) = messagePoly message * X ^ k + toPoly symbol := by
      unfold messagePoly
      rw [List.foldl_append]
      rfl
    have hregister : register poly r (message ++ [symbol]) =
        bits poly k (register poly r message ^^^ symbol.setWidth w) := by
      unfold register
      rw [List.foldl_append]
      rfl
    obtain ⟨p, hp⟩ := toPoly_bits poly k (register poly r message ^^^ symbol.setWidth w)
    rw [toPoly_xor, toPoly_setWidth symbol h] at hp
    have hwidth : (X : (ZMod 2)[X]) ^ w = X ^ k * X ^ (w - k) := by rw [← pow_add, Nat.add_sub_cancel' h]
    refine ⟨p + X ^ k * q, ?_⟩
    rw [hmessage, hregister, List.length_append, List.length_singleton, Nat.mul_add_one, pow_add]
    calc X ^ (k * message.length) * X ^ k * toPoly r + X ^ w * (messagePoly message * X ^ k + toPoly symbol)
      _ = X ^ k * (X ^ (k * message.length) * toPoly r + X ^ w * messagePoly message) + X ^ w * toPoly symbol := by ring
      _ = X ^ k * (toPoly (register poly r message) + X ^ (w - k) * toPoly symbol) +
          generator poly * (X ^ k * q) := by rw [hq, hwidth]; ring
      _ = _ := by rw [hp]; ring

theorem register_remainder (h : k ≤ w) (r : BitVec w) (message : List (BitVec k)) :
    toPoly (register poly r message) =
      (X ^ (k * message.length) * toPoly r + X ^ w * messagePoly message) %ₘ generator poly := by
  obtain ⟨q, hq⟩ := toPoly_register poly h r message
  refine ((Polynomial.div_modByMonic_unique q _ (generator_monic poly) ⟨hq.symm, ?_⟩).2).symm
  rw [degree_generator]
  exact degree_toPoly _

end

end Crc
