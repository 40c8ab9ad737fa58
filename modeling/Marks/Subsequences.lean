import Mathlib.Data.List.Infix

/-! # Common subsequences

How long a common subsequence of two lists can be, and how many elements two lists have in common at their start. -/

section
variable {α : Type*} [DecidableEq α]

/-- The length of a longest common subsequence. -/
def lcsLength : List α → List α → Nat
  | [], _ => 0
  | _ :: _, [] => 0
  | a :: left, b :: right =>
    if a = b then lcsLength left right + 1 else max (lcsLength left (b :: right)) (lcsLength (a :: left) right)
termination_by left right => left.length + right.length

variable {a b : α} {left right common : List α}

theorem lcsLength_nil_left (right : List α) : lcsLength ([] : List α) right = 0 := by rw [lcsLength]

theorem lcsLength_nil_right (left : List α) : lcsLength left ([] : List α) = 0 := by
  cases left with
  | nil => rw [lcsLength]
  | cons a left => rw [lcsLength]

theorem lcsLength_same (a : α) (left right : List α) : lcsLength (a :: left) (a :: right) = lcsLength left right + 1 := by
  rw [lcsLength, if_pos rfl]

theorem lcsLength_different (h : a ≠ b) (left right : List α) : lcsLength (a :: left) (b :: right) =
    max (lcsLength left (b :: right)) (lcsLength (a :: left) right) := by
  rw [lcsLength, if_neg h]

theorem length_le_lcsLength (hleft : common.Sublist left) (hright : common.Sublist right) :
    common.length ≤ lcsLength left right := by
  induction left, right using lcsLength.induct generalizing common with
  | case1 right =>
    rw [List.eq_nil_of_sublist_nil hleft]
    exact Nat.zero_le _
  | case2 a left =>
    rw [List.eq_nil_of_sublist_nil hright]
    exact Nat.zero_le _
  | case3 left b right ih =>
    rw [lcsLength_same]
    cases common with
    | nil => exact Nat.zero_le _
    | cons c common =>
      have hrest := ih hleft.tail hright.tail
      exact Nat.succ_le_succ hrest
  | case4 a left b right h ihleft ihright =>
    rw [lcsLength_different h]
    rcases List.sublist_cons_iff.mp hleft with hskip | ⟨rest, rfl, hrest⟩
    · exact Nat.le_trans (ihleft hskip hright) (Nat.le_max_left _ _)
    · rcases List.sublist_cons_iff.mp hright with hskip | ⟨other, hother, -⟩
      · exact Nat.le_trans (ihright hleft hskip) (Nat.le_max_right _ _)
      · exact absurd (List.cons.inj hother).1 h

/-! ## Common ends -/

def commonPrefix : List α → List α → Nat
  | a :: left, b :: right => if a = b then commonPrefix left right + 1 else 0
  | _, _ => 0

theorem commonPrefix_le : commonPrefix left right ≤ left.length ∧ commonPrefix left right ≤ right.length := by
  induction left generalizing right with
  | nil => exact ⟨Nat.zero_le _, Nat.zero_le _⟩
  | cons a left ih =>
    cases right with
    | nil => exact ⟨Nat.zero_le _, Nat.zero_le _⟩
    | cons b right =>
      unfold commonPrefix
      by_cases h : a = b
      · rw [if_pos h]
        exact ⟨Nat.succ_le_succ ih.1, Nat.succ_le_succ ih.2⟩
      · rw [if_neg h]
        exact ⟨Nat.zero_le _, Nat.zero_le _⟩

theorem take_commonPrefix : left.take (commonPrefix left right) = right.take (commonPrefix left right) := by
  induction left generalizing right with
  | nil => simp [commonPrefix]
  | cons a left ih =>
    cases right with
    | nil => simp [commonPrefix]
    | cons b right =>
      unfold commonPrefix
      by_cases h : a = b
      · rw [if_pos h, h, List.take_succ_cons, List.take_succ_cons, ih]
      · rw [if_neg h]
        rfl

/-- How many elements two lists have in common at their end, behind the first `from_` of each. -/
def commonSuffix (from_ : Nat) (left right : List α) : Nat :=
  commonPrefix (left.drop from_).reverse (right.drop from_).reverse

theorem commonSuffix_le {from_ : Nat} :
    commonSuffix from_ left right ≤ left.length - from_ ∧ commonSuffix from_ left right ≤ right.length - from_ := by
  have hle := @commonPrefix_le _ _ (left.drop from_).reverse (right.drop from_).reverse
  rw [List.length_reverse, List.length_reverse, List.length_drop, List.length_drop] at hle
  exact hle

theorem drop_commonSuffix {from_ : Nat} (hleft : from_ ≤ left.length) (hright : from_ ≤ right.length) :
    left.drop (left.length - commonSuffix from_ left right) = right.drop (right.length - commonSuffix from_ left right) := by
  have hbehind : ∀ list : List α, from_ ≤ list.length → commonSuffix from_ left right ≤ list.length - from_ →
      list.drop (list.length - commonSuffix from_ left right) =
        ((list.drop from_).reverse.take (commonSuffix from_ left right)).reverse := by
    intro list hfrom hle
    rw [List.take_reverse, List.reverse_reverse, List.length_drop, List.drop_drop]
    congr 1
    omega
  have hle := @commonSuffix_le _ _ left right from_
  have htake := @take_commonPrefix _ _ (left.drop from_).reverse (right.drop from_).reverse
  rw [hbehind left hleft hle.1, hbehind right hright hle.2]
  exact congrArg List.reverse htake

end
