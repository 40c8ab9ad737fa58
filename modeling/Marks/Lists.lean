import Mathlib.Data.List.Nodup

/-! # Lists as tables

Entries found by a key that no two of them share, and an entry at a position with what stands around it. -/

namespace Lists

theorem filter_key {α β : Type} [BEq β] [LawfulBEq β] {f : α → β} {l : List α} {a : α} (hn : (l.map f).Nodup) (hm : a ∈ l) :
    (l.filter fun x => f x == f a) = [a] := by
  induction l with
  | nil => cases hm
  | cons b l ih =>
    rw [List.map_cons, List.nodup_cons] at hn
    rcases List.mem_cons.mp hm with rfl | hm
    · rw [List.filter_cons, if_pos (beq_self_eq_true (f a)), List.filter_eq_nil_iff.mpr]
      intro x hx heq
      exact hn.1 (beq_iff_eq.mp heq ▸ List.mem_map_of_mem hx)
    · rw [List.filter_cons_of_neg, ih hn.2 hm]
      intro heq
      exact hn.1 (beq_iff_eq.mp heq ▸ List.mem_map_of_mem hm)

theorem getElem?_parts {α : Type} {l : List α} {i : Nat} {a : α} (h : l[i]? = some a) :
    ∃ before after, l = before ++ a :: after ∧ l.eraseIdx i = before ++ after ∧
      ∀ b, l.set i b = before ++ b :: after := by
  induction l generalizing i with
  | nil => cases h
  | cons c l ih =>
    cases i with
    | zero =>
      cases h
      exact ⟨[], l, rfl, rfl, fun _ => rfl⟩
    | succ i =>
      obtain ⟨before, after, hl, he, hs⟩ := ih h
      exact ⟨c :: before, after, congrArg (c :: ·) hl, congrArg (c :: ·) he, fun b => congrArg (c :: ·) (hs b)⟩

theorem countP_set {α : Type} {p : α → Bool} {l : List α} {i : Nat} {a : α} (h : l[i]? = some a) (b : α) :
    (l.set i b).countP p + (if p a then 1 else 0) = l.countP p + if p b then 1 else 0 := by
  obtain ⟨before, after, hl, -, hset⟩ := getElem?_parts h
  rw [hset, hl, List.countP_append, List.countP_append, List.countP_cons, List.countP_cons]
  omega

theorem countP_le_one {α : Type} {p : α → Bool} {l : List α} (h : l.Pairwise fun a b => p a = true → p b = false) :
    l.countP p ≤ 1 := by
  induction l with
  | nil => exact Nat.zero_le 1
  | cons a l ih =>
    obtain ⟨ha, hl⟩ := List.pairwise_cons.mp h
    by_cases hp : p a = true
    · have hzero : l.countP p = 0 := by
        rw [List.countP_eq_zero]
        intro b hb
        rw [ha b hb hp]
        exact Bool.false_ne_true
      rewrite [List.countP_cons_of_pos hp, hzero]
      exact Nat.le_refl 1
    · rw [List.countP_cons_of_neg hp]
      exact ih hl

end Lists
