import Mathlib.Data.Nat.Bitwise

/-! # Blocks of addresses

A block of addresses of `width` bits is given by one of them and by the number of leading bits its members have
in common with it. -/

namespace Prefix

/-- The two numbers of `width` bits have their first `length` bits in common. -/
def Shares (width length m n : Nat) : Prop := m / 2 ^ (width - length) = n / 2 ^ (width - length)

instance (width length m n : Nat) : Decidable (Shares width length m n) := by
  unfold Shares
  infer_instance

variable {width length m n : Nat}

theorem and_mask {k : Nat} (hk : k ≤ width) (hm : m < 2 ^ width) : m &&& (2 ^ width - 2 ^ k) = m / 2 ^ k * 2 ^ k := by
  have hmask : 2 ^ width - 2 ^ k = 2 ^ k * (2 ^ (width - k) - 1) := by
    rw [Nat.mul_sub, Nat.mul_one, ← Nat.pow_add, Nat.add_sub_cancel' hk]
  apply Nat.eq_of_testBit_eq
  intro i
  rw [hmask, Nat.testBit_and, Nat.testBit_two_pow_mul, Nat.testBit_two_pow_sub_one, Nat.testBit_mul_two_pow,
    Nat.testBit_div_two_pow]
  by_cases hi : k ≤ i
  · rw [Nat.sub_add_cancel hi, decide_eq_true hi, Bool.true_and, Bool.true_and]
    by_cases hw : i < width
    · rw [decide_eq_true (by omega), Bool.and_true]
    · have hsmall : m < 2 ^ i := Nat.lt_of_lt_of_le hm (Nat.pow_le_pow_right (by omega) (by omega))
      rw [Nat.testBit_lt_two_pow hsmall, Bool.false_and]
  · rw [decide_eq_false hi, Bool.false_and, Bool.false_and, Bool.and_false]

theorem mask_eq_iff {k base : Nat} (hk : k ≤ width) (hm : m < 2 ^ width) (hbase : 2 ^ k ∣ base) :
    m &&& (2 ^ width - 2 ^ k) = base ↔ m / 2 ^ k = base / 2 ^ k := by
  rw [and_mask hk hm]
  constructor
  · rintro rfl
    rw [Nat.mul_div_cancel _ (Nat.two_pow_pos k)]
  · intro h
    rw [h, Nat.div_mul_cancel hbase]

section
variable {k high high' low low' : Nat}

theorem shares_high (hlength : length ≤ width) (hl : low < 2 ^ k) (hl' : low' < 2 ^ k) :
    Shares (width + k) length (high * 2 ^ k + low) (high' * 2 ^ k + low') ↔ Shares width length high high' := by
  have hpow : 2 ^ (width + k - length) = 2 ^ k * 2 ^ (width - length) := by
    rw [← Nat.pow_add]
    congr 1
    omega
  have hdrop : ∀ h l : Nat, l < 2 ^ k → (h * 2 ^ k + l) / 2 ^ (width + k - length) = h / 2 ^ (width - length) := by
    intro h l hlt
    rw [hpow, ← Nat.div_div_eq_div_mul, Nat.mul_comm h, Nat.mul_add_div (Nat.two_pow_pos k), Nat.div_eq_of_lt hlt,
      Nat.add_zero]
  unfold Shares
  rw [hdrop _ _ hl, hdrop _ _ hl']

theorem shares_low (hlength : width ≤ length) (hle : length ≤ width + k) (hl : low < 2 ^ k) (hl' : low' < 2 ^ k) :
    Shares (width + k) length (high * 2 ^ k + low) (high' * 2 ^ k + low') ↔
      high = high' ∧ Shares k (length - width) low low' := by
  have hexp : width + k - length = k - (length - width) := by omega
  have hpow : 2 ^ k = 2 ^ (k - (length - width)) * 2 ^ (length - width) := by
    rw [← Nat.pow_add]
    congr 1
    omega
  have hdrop : ∀ h l : Nat, (h * 2 ^ k + l) / 2 ^ (k - (length - width)) =
      h * 2 ^ (length - width) + l / 2 ^ (k - (length - width)) := by
    intro h l
    conv_lhs => rw [hpow, ← Nat.mul_assoc, Nat.mul_comm h, Nat.mul_assoc]
    rw [Nat.mul_add_div (Nat.two_pow_pos _)]
  have hsmall : ∀ l : Nat, l < 2 ^ k → l / 2 ^ (k - (length - width)) < 2 ^ (length - width) := by
    intro l hlt
    refine Nat.div_lt_of_lt_mul ?_
    rwa [← hpow]
  unfold Shares
  rw [hexp, hdrop, hdrop]
  constructor
  · intro h
    have hdiv := congrArg (· / 2 ^ (length - width)) h
    have hmod := congrArg (· % 2 ^ (length - width)) h
    simp only [Nat.mul_comm _ (2 ^ (length - width)), Nat.mul_add_div (Nat.two_pow_pos _), Nat.mul_add_mod,
      Nat.div_eq_of_lt (hsmall _ hl), Nat.div_eq_of_lt (hsmall _ hl'), Nat.mod_eq_of_lt (hsmall _ hl),
      Nat.mod_eq_of_lt (hsmall _ hl'), Nat.add_zero] at hdiv hmod
    exact ⟨hdiv, hmod⟩
  · rintro ⟨rfl, h⟩
    rw [h]

end

/-! ## Digits -/

/-- The number with these digits of `k` bits, the leading one first. -/
def number (k : Nat) : List Nat → Nat
  | [] => 0
  | digit :: digits => digit * 2 ^ (k * digits.length) + number k digits

theorem number_lt {k : Nat} {digits : List Nat} (h : ∀ digit ∈ digits, digit < 2 ^ k) :
    number k digits < 2 ^ (k * digits.length) := by
  induction digits with
  | nil => exact Nat.two_pow_pos _
  | cons digit digits ih =>
    have hrest := ih fun d hd => h d (List.mem_cons_of_mem _ hd)
    have hfirst : digit + 1 ≤ 2 ^ k := h digit List.mem_cons_self
    rw [number, List.length_cons, Nat.mul_succ, Nat.add_comm (k * digits.length), Nat.pow_add]
    calc digit * 2 ^ (k * digits.length) + number k digits
        < digit * 2 ^ (k * digits.length) + 2 ^ (k * digits.length) := Nat.add_lt_add_left hrest _
      _ = (digit + 1) * 2 ^ (k * digits.length) := (Nat.succ_mul _ _).symm
      _ ≤ 2 ^ k * 2 ^ (k * digits.length) := Nat.mul_le_mul_right _ hfirst

/-- The first bits, digit by digit. -/
def SharesDigits (k : Nat) : Nat → List Nat → List Nat → Prop
  | length, digit :: digits, other :: others =>
    if length ≤ k then Shares k length digit other else digit = other ∧ SharesDigits k (length - k) digits others
  | _, _, _ => True

theorem shares_number {k : Nat} {digits others : List Nat} (hd : ∀ digit ∈ digits, digit < 2 ^ k)
    (ho : ∀ digit ∈ others, digit < 2 ^ k) (hlen : digits.length = others.length) {length : Nat}
    (hle : length ≤ k * digits.length) :
    Shares (k * digits.length) length (number k digits) (number k others) ↔ SharesDigits k length digits others := by
  induction digits generalizing others length with
  | nil =>
    cases others with
    | nil => exact ⟨fun _ => trivial, fun _ => rfl⟩
    | cons other others => cases hlen
  | cons digit digits ih =>
    cases others with
    | nil => cases hlen
    | cons other others =>
      have hlen' : digits.length = others.length := Nat.succ.inj hlen
      have hd' := fun d hm => hd d (List.mem_cons_of_mem _ hm)
      have ho' := fun d hm => ho d (List.mem_cons_of_mem _ hm)
      have hlow := number_lt hd'
      have hlow' := number_lt ho'
      rw [List.length_cons, Nat.mul_succ] at hle ⊢
      rw [Nat.add_comm, number, number, ← hlen', SharesDigits]
      rw [← hlen'] at hlow'
      split
      · rename_i hk
        exact shares_high hk hlow hlow'
      · rename_i hk
        rw [shares_low (by omega) (by omega) hlow hlow', ih hd' ho' hlen' (by omega)]

end Prefix
