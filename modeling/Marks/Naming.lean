import Mathlib.Data.List.Induction
import Mathlib.Data.List.Nodup
import Mathlib.Data.List.Perm.Subperm

/-! # Names by number

Things are named after stems, in their order. Where a stem has stood before a number is put behind it: one scheme counts
the stem, another takes the first number that no name has. They give the same names when the stems let them. -/

namespace Marks.Naming

open List

section
variable {α : Type} [DecidableEq α]

structure Marking (mark : α → Nat → α) : Prop where
  injective : ∀ s k t l, mark s k = mark t l → s = t ∧ k = l
  fresh : ∀ s k, mark s k ≠ s

variable (mark : α → Nat → α)

/-! ## Counting -/

def countedName (before : List α) (stem : α) : α :=
  if before.count stem = 0 then stem else mark stem (before.count stem + 1)

def countedFrom : List α → List α → List α
  | _, [] => []
  | before, stem :: rest => countedName mark before stem :: countedFrom (before ++ [stem]) rest

def counted (stems : List α) : List α := countedFrom mark [] stems

/-! ## Testing -/

/-- The stem, or the stem with the first number from one on that gives an unused name. -/
def uniqueName (used : List α) (stem : α) : α :=
  if stem ∈ used then
    (((List.range' 1 (used.length + 1)).find? fun k => decide (mark stem k ∉ used)).map (mark stem)).getD stem
  else stem

def uniqueFrom : List α → List α → List α
  | _, [] => []
  | used, stem :: rest => uniqueName mark used stem :: uniqueFrom (used ++ [uniqueName mark used stem]) rest

def unique (stems : List α) : List α := uniqueFrom mark [] stems

/-! ## Where they agree -/

/-- Where a stem stands again, the one numbered one stands before it, and no stem is one of the numbered ones up to
its count. -/
def Agreeable (stems : List α) : Prop :=
  ∀ stem, 2 ≤ stems.count stem →
    (∀ before after, stems = before ++ stem :: after → stem ∈ before → mark stem 1 ∈ before) ∧
    ∀ k, 2 ≤ k → k ≤ stems.count stem → mark stem k ∉ stems

structure Follows (before : List α) (stem : α) : Prop where
  first : stem ∉ before → ∀ t k, 2 ≤ k → k ≤ before.count t → stem ≠ mark t k
  again : stem ∈ before → mark stem 1 ∈ before ∧ mark stem (before.count stem + 1) ∉ before

variable {mark}

theorem countedFrom_snoc (before stems : List α) (stem : α) :
    countedFrom mark before (stems ++ [stem]) = countedFrom mark before stems ++ [countedName mark (before ++ stems) stem] := by
  induction stems generalizing before with
  | nil => rw [append_nil]; rfl
  | cons s stems ih =>
    have h := ih (before ++ [s])
    rw [append_assoc, singleton_append] at h
    exact congrArg (countedName mark before s :: ·) h

theorem counted_snoc (stems : List α) (stem : α) :
    counted mark (stems ++ [stem]) = counted mark stems ++ [countedName mark stems stem] :=
  countedFrom_snoc [] stems stem

theorem uniqueFrom_snoc (used stems : List α) (stem : α) :
    uniqueFrom mark used (stems ++ [stem]) =
      uniqueFrom mark used stems ++ [uniqueName mark (used ++ uniqueFrom mark used stems) stem] := by
  induction stems generalizing used with
  | nil =>
    rw [uniqueFrom, append_nil]
    rfl
  | cons s stems ih =>
    have h := ih (used ++ [uniqueName mark used s])
    rw [append_assoc, singleton_append] at h
    exact congrArg (uniqueName mark used s :: ·) h

theorem unique_snoc (stems : List α) (stem : α) :
    unique mark (stems ++ [stem]) = unique mark stems ++ [uniqueName mark (unique mark stems) stem] :=
  uniqueFrom_snoc [] stems stem

theorem length_counted (stems : List α) : (counted mark stems).length = stems.length := by
  induction stems using List.reverseRecOn with
  | nil => rfl
  | append_singleton stems stem ih => rw [counted_snoc, length_append, length_append, ih]; rfl

theorem length_unique (stems : List α) : (unique mark stems).length = stems.length := by
  induction stems using List.reverseRecOn with
  | nil => rfl
  | append_singleton stems stem ih => rw [unique_snoc, length_append, length_append, ih]; rfl

theorem count_snoc (stems : List α) (stem t : α) :
    (stems ++ [stem]).count t = stems.count t + if t = stem then 1 else 0 := by
  rw [count_append, count_singleton]
  by_cases ht : t = stem
  · rw [if_pos ht, if_pos (beq_iff_eq.mpr ht.symm)]
  · rw [if_neg ht, if_neg (fun h => ht (beq_iff_eq.mp h).symm)]

theorem mem_counted {name : α} (stems : List α) :
    name ∈ counted mark stems ↔ name ∈ stems ∨ ∃ t k, 2 ≤ k ∧ k ≤ stems.count t ∧ name = mark t k := by
  induction stems using List.reverseRecOn with
  | nil =>
    constructor
    · intro h
      cases h
    rintro (h | ⟨t, k, hk, hle, -⟩)
    · cases h
    · rw [count_nil] at hle
      omega
  | append_singleton stems stem ih =>
    have hcount := count_snoc stems stem
    rw [counted_snoc, mem_append, mem_singleton, mem_append, mem_singleton, ih]
    constructor
    · rintro ((h | ⟨t, k, hk, hle, rfl⟩) | rfl)
      · exact Or.inl (Or.inl h)
      · exact Or.inr ⟨t, k, hk, by rw [hcount]; omega, rfl⟩
      unfold countedName
      by_cases hnone : stems.count stem = 0
      · rw [if_pos hnone]
        exact Or.inl (Or.inr rfl)
      · rw [if_neg hnone]
        exact Or.inr ⟨stem, stems.count stem + 1, by omega, by rewrite [hcount, if_pos rfl]; exact Nat.le_refl _, rfl⟩
    · rintro ((h | rfl) | ⟨t, k, hk, hle, rfl⟩)
      · exact Or.inl (Or.inl h)
      · by_cases hmem : name ∈ stems
        · exact Or.inl (Or.inl hmem)
        · refine Or.inr ?_
          rw [countedName, if_pos (count_eq_zero.mpr hmem)]
      · rw [hcount] at hle
        by_cases hold : k ≤ stems.count t
        · exact Or.inl (Or.inr ⟨t, k, hk, hold, rfl⟩)
        have ht : t = stem := by
          by_cases ht : t = stem
          · exact ht
          · rw [if_neg ht] at hle
            omega
        rw [if_pos ht] at hle
        have hlast : k = stems.count stem + 1 := by
          rw [ht] at hle hold
          omega
        refine Or.inr ?_
        rw [countedName, if_neg (by omega), ht, hlast]

section
variable (hmark : Marking mark)
include hmark

theorem exists_unused (used : List α) (stem : α) :
    ∃ k, ((List.range' 1 (used.length + 1)).find? fun k => decide (mark stem k ∉ used)) = some k := by
  by_cases hsome : ((List.range' 1 (used.length + 1)).find? fun k => decide (mark stem k ∉ used)).isSome
  · exact Option.isSome_iff_exists.mp hsome
  have hnone := find?_eq_none.mp (Option.not_isSome_iff_eq_none.mp hsome)
  have hnodup : ((List.range' 1 (used.length + 1)).map (mark stem)).Nodup :=
    (nodup_range' (h := by omega)).map fun a b hab => (hmark.injective _ _ _ _ hab).2
  have hsub : (List.range' 1 (used.length + 1)).map (mark stem) ⊆ used := by
    intro name hname
    obtain ⟨k, hk, rfl⟩ := mem_map.mp hname
    have := hnone k hk
    simpa using this
  have hle := (subperm_of_subset hnodup hsub).length_le
  rw [length_map, length_range'] at hle
  omega

theorem uniqueName_not_mem (used : List α) (stem : α) : uniqueName mark used stem ∉ used := by
  unfold uniqueName
  by_cases hmem : stem ∈ used
  · obtain ⟨k, hk⟩ := exists_unused hmark used stem
    have hfree : mark stem k ∉ used := by
      have h := find?_some hk
      exact of_decide_eq_true h
    rw [if_pos hmem, hk]
    exact hfree
  · rw [if_neg hmem]
    exact hmem

theorem uniqueName_eq_mark {used : List α} {stem : α} (hmem : stem ∈ used) (n : Nat) :
    uniqueName mark used stem = mark stem (n + 1) ↔
      (∀ k, 1 ≤ k → k ≤ n → mark stem k ∈ used) ∧ mark stem (n + 1) ∉ used := by
  obtain ⟨k, hk⟩ := exists_unused hmark used stem
  have hname : uniqueName mark used stem = mark stem k := by
    rw [uniqueName, if_pos hmem, hk]
    rfl
  obtain ⟨hfree, hrange, hbefore⟩ := find?_range'_eq_some.mp hk
  have hfree := of_decide_eq_true hfree
  rw [mem_range'_1] at hrange
  rw [hname]
  constructor
  · intro h
    obtain ⟨-, rfl⟩ := hmark.injective _ _ _ _ h
    refine ⟨fun j hj hle => ?_, hfree⟩
    have hused := hbefore j hj (by omega)
    simpa using hused
  · rintro ⟨hused, hlast⟩
    have hle : n + 1 ≤ k := by
      by_cases hle : n + 1 ≤ k
      · exact hle
      · exact absurd (hused k (by omega) (by omega)) hfree
    have hge : k ≤ n + 1 := by
      by_cases hge : k ≤ n + 1
      · exact hge
      · have hused := hbefore (n + 1) (by omega) (by omega)
        exact absurd hlast (by simpa using hused)
    rw [Nat.le_antisymm hge hle]

theorem countedName_eq_iff (stems : List α) (stem : α) :
    countedName mark stems stem = uniqueName mark (counted mark stems) stem ↔ Follows mark stems stem := by
  by_cases hmem : stem ∈ stems
  · have hpos : 1 ≤ stems.count stem := one_le_count_iff.mpr hmem
    have hused : stem ∈ counted mark stems := (mem_counted stems).mpr (Or.inl hmem)
    have hone : mark stem 1 ∈ counted mark stems ↔ mark stem 1 ∈ stems := by
      rw [mem_counted]
      refine or_iff_left ?_
      rintro ⟨t, k, hk, -, heq⟩
      obtain ⟨-, rfl⟩ := hmark.injective _ _ _ _ heq
      omega
    have hnext : mark stem (stems.count stem + 1) ∈ counted mark stems ↔ mark stem (stems.count stem + 1) ∈ stems := by
      rw [mem_counted]
      refine or_iff_left ?_
      rintro ⟨t, k, -, hle, heq⟩
      obtain ⟨rfl, rfl⟩ := hmark.injective _ _ _ _ heq
      omega
    rw [countedName, if_neg (by omega), eq_comm, uniqueName_eq_mark hmark hused, hnext]
    constructor
    · rintro ⟨hall, hfree⟩
      exact ⟨fun hnot => absurd hmem hnot, fun _ => ⟨hone.mp (hall 1 (Nat.le_refl _) hpos), hfree⟩⟩
    intro h
    obtain ⟨hfirst, hfree⟩ := h.again hmem
    refine ⟨fun k hk hle => ?_, hfree⟩
    by_cases htwo : 2 ≤ k
    · exact (mem_counted stems).mpr (Or.inr ⟨stem, k, htwo, hle, rfl⟩)
    · obtain rfl : k = 1 := by omega
      exact hone.mpr hfirst
  · rw [countedName, if_pos (count_eq_zero.mpr hmem)]
    have hused : stem ∈ counted mark stems ↔ ∃ t k, 2 ≤ k ∧ k ≤ stems.count t ∧ stem = mark t k := by
      rw [mem_counted]
      exact or_iff_right hmem
    constructor
    · intro h
      refine ⟨fun _ t k hk hle heq => ?_, fun hnot => absurd hnot hmem⟩
      have hnot := uniqueName_not_mem hmark (counted mark stems) stem
      rw [← h] at hnot
      exact hnot (hused.mpr ⟨t, k, hk, hle, heq⟩)
    · intro h
      rw [uniqueName, if_neg]
      intro hin
      obtain ⟨t, k, hk, hle, heq⟩ := hused.mp hin
      exact h.first hmem t k hk hle heq

theorem counted_eq_unique_of_follows (stems : List α) :
    counted mark stems = unique mark stems ↔
      ∀ before stem after, stems = before ++ stem :: after → Follows mark before stem := by
  induction stems using List.reverseRecOn with
  | nil =>
    refine ⟨fun _ before stem after h => ?_, fun _ => rfl⟩
    exact absurd h (by simp)
  | append_singleton stems stem ih =>
    rw [counted_snoc, unique_snoc]
    constructor
    · intro h
      obtain ⟨hbefore, hlast⟩ := append_inj' h rfl
      rw [← hbefore, singleton_inj, countedName_eq_iff hmark] at hlast
      intro before s after hsplit
      rcases eq_nil_or_concat' after with rfl | ⟨after, last, rfl⟩
      · obtain ⟨rfl, hs⟩ := append_inj' hsplit rfl
        obtain rfl := singleton_inj.mp hs
        exact hlast
      · rw [← cons_append, ← append_assoc] at hsplit
        exact ih.mp hbefore before s after (append_inj' hsplit rfl).1
    · intro h
      have hbefore := ih.mpr fun before s after hsplit => h before s (after ++ [stem]) (by rw [hsplit]; simp)
      rw [← hbefore, (countedName_eq_iff hmark stems stem).mpr (h stems stem [] rfl)]

omit hmark in
theorem split_count {stem : α} {k : Nat} (stems : List α) (h : k < stems.count stem) :
    ∃ before after, stems = before ++ stem :: after ∧ before.count stem = k := by
  induction stems using List.reverseRecOn with
  | nil => cases h
  | append_singleton stems s ih =>
    by_cases hold : k < stems.count stem
    · obtain ⟨before, after, hsplit, hcount⟩ := ih hold
      exact ⟨before, after ++ [s], by rw [hsplit]; simp, hcount⟩
    rw [count_append, count_singleton] at h
    by_cases hs : s = stem
    · rw [if_pos (beq_iff_eq.mpr hs)] at h
      exact ⟨stems, [], by rw [hs], by omega⟩
    · rw [if_neg (fun heq => hs (beq_iff_eq.mp heq))] at h
      omega

theorem counted_eq_unique_iff (stems : List α) : counted mark stems = unique mark stems ↔ Agreeable mark stems := by
  rw [counted_eq_unique_of_follows hmark]
  constructor
  · intro h stem _
    refine ⟨fun before after hsplit hmem => ((h before stem after hsplit).again hmem).1, ?_⟩
    intro k hk hle hmem
    -- where the stem gets this number the numbered one has not stood, and later it does not stand either
    obtain ⟨before, after, hsplit, hcount⟩ := @split_count _ _ stem (k - 1) stems (by omega)
    have hstem : stem ∈ before := one_le_count_iff.mp (by omega)
    have hnumber : before.count stem + 1 = k := by omega
    have hbefore := ((h before stem after hsplit).again hstem).2
    rw [hnumber] at hbefore
    have hafter : mark stem k ∈ after := by
      rw [hsplit, mem_append, mem_cons] at hmem
      exact (hmem.resolve_left hbefore).resolve_left (hmark.fresh stem k)
    obtain ⟨between, rest, rfl, hfirst⟩ := eq_append_cons_of_mem hafter
    have hnone : mark stem k ∉ before ++ stem :: between := by
      rw [mem_append, mem_cons, not_or, not_or]
      exact ⟨hbefore, hmark.fresh stem k, hfirst⟩
    have hfollows := h (before ++ stem :: between) (mark stem k) rest (by rw [hsplit]; simp)
    refine hfollows.first hnone stem k hk ?_ rfl
    rw [count_append, count_cons_self]
    omega
  · intro h before stem after hsplit
    have hcount : ∀ t, before.count t ≤ stems.count t := by
      intro t
      rw [hsplit, count_append]
      omega
    refine ⟨fun hnot t k hk hle heq => ?_, fun hmem => ?_⟩
    · refine (h t (Nat.le_trans hk (Nat.le_trans hle (hcount t)))).2 k hk (Nat.le_trans hle (hcount t)) ?_
      rw [← heq, hsplit]
      simp
    have hpos : 1 ≤ before.count stem := one_le_count_iff.mpr hmem
    have hlater : before.count stem + 1 ≤ stems.count stem := by
      rw [hsplit, count_append, count_cons_self]
      omega
    obtain ⟨hfirst, hnone⟩ := h stem (by omega)
    refine ⟨hfirst before after hsplit hmem, fun hin => ?_⟩
    refine hnone _ (by omega) hlater ?_
    rw [hsplit]
    exact mem_append_left _ hin

end

end

end Marks.Naming
