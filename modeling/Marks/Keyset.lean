import Mathlib.Data.List.Sort

/-! # Pages behind a key

Rows are read in the order of a relation, a page at a time; every page asks for the rows past the last one of the page
before. Where the order tells the rows apart and past means strictly later, the pages are the sorted rows cut up. -/

namespace Keyset

open List

variable {α γ : Type*} (r : α → α → Prop) [DecidableRel r]

structure Keys (rows : List α) : Prop where
  nodup : rows.Nodup
  antisymm : ∀ a ∈ rows, ∀ b ∈ rows, r a b → r b a → a = b

def found (past : γ → α → Bool) (rows : List α) (cursor : Option γ) : List α :=
  (rows.filter fun row => cursor.all (past · row)).insertionSort r

/-- Page after page, one row more being read than is given out. -/
def walk (past : γ → α → Bool) (key : α → γ) (size : Nat) (rows : List α) : Nat → Option γ → Option (List (List α))
  | 0, _ => none
  | fuel + 1, cursor =>
    let rest := (found r past rows cursor).take (size + 1)
    if size < rest.length then
      (walk past key size rows fuel ((rest.take size).getLast?.map key)).map (rest.take size :: ·)
    else some [rest.take size]

variable {r} {rows : List α}

omit [DecidableRel r] in
theorem Keys.filter (h : Keys r rows) (p : α → Bool) : Keys r (rows.filter p) where
  nodup := h.nodup.filter p
  antisymm := fun a ha b hb => h.antisymm a (mem_of_mem_filter ha) b (mem_of_mem_filter hb)

variable [Std.Total r] [IsTrans α r]

theorem Keys.filter_sorted (h : Keys r rows) (p : α → Bool) :
    (rows.insertionSort r).filter p = (rows.filter p).insertionSort r := by
  apply List.Perm.eq_of_pairwise
  · intro a b ha hb
    have hsorted := (mem_insertionSort r).mp (mem_of_mem_filter ha)
    exact h.antisymm a hsorted b (mem_of_mem_filter ((mem_insertionSort r).mp hb))
  · exact (pairwise_insertionSort r rows).filter p
  · exact pairwise_insertionSort r _
  · have hleft := (perm_insertionSort r rows).filter p
    exact hleft.trans (perm_insertionSort r _).symm

section
variable {past : γ → α → Bool} {key : α → γ}
  (hkeys : Keys r rows) (hpast : ∀ a ∈ rows, ∀ b ∈ rows, past (key a) b = true ↔ r a b ∧ a ≠ b)
include hkeys hpast

theorem found_drop {i : Nat} {a : α} (ha : (rows.insertionSort r)[i]? = some a) :
    found r past rows (some (key a)) = (rows.insertionSort r).drop (i + 1) := by
  have hmem : ∀ b, b ∈ rows.insertionSort r → b ∈ rows := fun b hb => (mem_insertionSort r).mp hb
  have hsorted := pairwise_insertionSort r rows
  have hnodup : (rows.insertionSort r).Nodup := (perm_insertionSort r rows).nodup_iff.mpr hkeys.nodup
  have hfound : found r past rows (some (key a)) = (rows.insertionSort r).filter (past (key a)) :=
    (hkeys.filter_sorted (past (key a))).symm
  rw [hfound]
  obtain ⟨hlt, hget⟩ := List.getElem?_eq_some_iff.mp ha
  have hsplit : rows.insertionSort r = (rows.insertionSort r).take i ++ a :: (rows.insertionSort r).drop (i + 1) := by
    rw [← hget, ← drop_eq_getElem_cons hlt, take_append_drop]
  generalize (rows.insertionSort r).take i = earlier at hsplit
  generalize (rows.insertionSort r).drop (i + 1) = later at hsplit ⊢
  rw [hsplit] at hmem hsorted hnodup ⊢
  have hpart : ∀ b ∈ earlier ++ a :: later, past (key a) b = true ↔ r a b ∧ a ≠ b := fun b hb =>
    hpast a (hmem a (mem_append_right _ mem_cons_self)) b (hmem b hb)
  have hbehind : ∀ b ∈ later, past (key a) b = true := by
    intro b hb
    apply (hpart b (mem_append_right _ (mem_cons_of_mem a hb))).mpr
    constructor
    · exact rel_of_pairwise_cons (pairwise_append.mp hsorted).2.1 hb
    · rintro rfl
      exact (nodup_cons.mp (nodup_append.mp hnodup).2.1).1 hb
  have hbefore : ∀ b ∈ earlier, ¬ past (key a) b = true := by
    intro b hb hlate
    obtain ⟨hab, hne⟩ := (hpart b (mem_append_left _ hb)).mp hlate
    have hba := (pairwise_append.mp hsorted).2.2 b hb a mem_cons_self
    exact hne (hkeys.antisymm a (hmem a (mem_append_right _ mem_cons_self)) b
      (hmem b (mem_append_left _ hb)) hab hba)
  have hself : ¬ past (key a) a = true := by
    intro hlate
    exact ((hpart a (mem_append_right _ mem_cons_self)).mp hlate).2 rfl
  rw [filter_append, filter_cons_of_neg hself, filter_eq_self.mpr hbehind,
    filter_eq_nil_iff.mpr hbefore, nil_append]

theorem walk_from {size : Nat} (hsize : 0 < size) (fuel : Nat) (cursor : Option γ) (k : Nat)
    (hfound : found r past rows cursor = (rows.insertionSort r).drop k) (hk : k ≤ rows.length)
    (hfuel : rows.length < fuel + k) :
    ∃ pages, walk r past key size rows fuel cursor = some pages ∧ pages.flatten = (rows.insertionSort r).drop k := by
  induction fuel generalizing cursor k with
  | zero => omega
  | succ fuel ih =>
    have hlength := length_insertionSort r rows
    unfold walk
    dsimp only
    rw [hfound, take_take, Nat.min_eq_left (Nat.le_succ size)]
    split
    case isTrue hmore =>
      rw [length_take, length_drop, hlength] at hmore
      have hrest : size < rows.length - k := by omega
      have hlast : (((rows.insertionSort r).drop k).take size).getLast? =
          (rows.insertionSort r)[k + size - 1]? := by
        rw [getLast?_take, if_neg (Nat.ne_of_gt hsize), getElem?_drop]
        have hin : k + (size - 1) < (rows.insertionSort r).length := by omega
        rw [getElem?_eq_getElem hin, Nat.add_sub_assoc hsize, getElem?_eq_getElem hin]
        rfl
      have hin : k + size - 1 < (rows.insertionSort r).length := by omega
      have ha := getElem?_eq_getElem hin
      have hnext := found_drop hkeys hpast ha
      rw [show k + size - 1 + 1 = k + size by omega] at hnext
      obtain ⟨pages, hpages, hflatten⟩ := ih (some (key _)) (k + size) hnext (by omega) (by omega)
      rw [hlast, ha, Option.map_some, hpages]
      refine ⟨_, rfl, ?_⟩
      rw [flatten_cons, hflatten, ← drop_drop, take_append_drop]
    case isFalse hend =>
      rw [length_take, length_drop, hlength] at hend
      refine ⟨_, rfl, ?_⟩
      rw [flatten_singleton, take_of_length_le]
      rw [length_drop, hlength]
      omega

theorem walk_complete {size : Nat} (hsize : 0 < size) {fuel : Nat} (hfuel : rows.length < fuel) :
    ∃ pages, walk r past key size rows fuel none = some pages ∧ pages.flatten = rows.insertionSort r := by
  have hfound : found r past rows none = (rows.insertionSort r).drop 0 := by
    have hall : (rows.filter fun row => (none : Option γ).all (past · row)) = rows :=
      filter_eq_self.mpr fun _ _ => rfl
    rw [found, hall, drop_zero]
  exact walk_from hkeys hpast hsize fuel none 0 hfound (Nat.zero_le _) hfuel

end

end Keyset
