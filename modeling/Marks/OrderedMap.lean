import Mathlib.Data.List.Nodup

/-! # Maps in insertion order

To set a key changes the entry in its place, or adds one at the end. -/

namespace OrderedMap

open List

variable {κ α : Type} [DecidableEq κ]

def get : List (κ × α) → κ → Option α
  | [], _ => none
  | entry :: m, k => if entry.1 = k then some entry.2 else get m k

def set : List (κ × α) → κ → α → List (κ × α)
  | [], k, a => [(k, a)]
  | entry :: m, k, a => if entry.1 = k then (k, a) :: m else entry :: set m k a

/-- The keys of the entries that satisfy `p`. -/
def picked (p : α → Bool) (m : List (κ × α)) : List κ := (m.filter fun entry => p entry.2).map (·.1)

variable {m : List (κ × α)} {k k' : κ} {a b : α}

theorem get_cons (entry : κ × α) : get (entry :: m) k = if entry.1 = k then some entry.2 else get m k := rfl

theorem get_set : get (set m k a) k' = if k' = k then some a else get m k' := by
  induction m with
  | nil =>
    unfold set get
    by_cases hk : k' = k
    · rw [if_pos hk.symm, if_pos hk]
    · rw [if_neg (Ne.symm hk), if_neg hk]
      rfl
  | cons entry m ih =>
    unfold set
    by_cases hentry : entry.1 = k
    · rw [if_pos hentry]
      unfold get
      by_cases hk : k' = k
      · rw [if_pos hk.symm, if_pos hk]
      · rw [if_neg (Ne.symm hk), if_neg hk, if_neg fun h => hk (h.symm.trans hentry)]
    · rw [if_neg hentry]
      unfold get
      rw [ih]
      by_cases hk : entry.1 = k'
      · rw [if_pos hk, if_pos hk, if_neg fun h => hentry (hk.trans h)]
      · rw [if_neg hk, if_neg hk]

theorem get_mem (h : get m k = some a) : (k, a) ∈ m := by
  induction m with
  | nil => simp [get] at h
  | cons entry m ih =>
    unfold get at h
    split at h
    · next hk =>
      rw [← Option.some.inj h, ← hk]
      exact mem_cons_self
    · exact mem_cons_of_mem entry (ih h)

theorem mem_get (hn : (m.map (·.1)).Nodup) (h : (k, a) ∈ m) : get m k = some a := by
  induction m with
  | nil => cases h
  | cons entry m ih =>
    rw [map_cons, nodup_cons] at hn
    unfold get
    rcases mem_cons.mp h with rfl | h
    · exact if_pos rfl
    · rw [if_neg, ih hn.2 h]
      intro hk
      exact hn.1 (hk ▸ mem_map_of_mem h)

theorem get_none : get m k = none ↔ k ∉ m.map (·.1) := by
  induction m with
  | nil => simp [get]
  | cons entry m ih =>
    unfold get
    by_cases hk : entry.1 = k
    · simp [hk]
    · rw [if_neg hk, ih, map_cons, mem_cons, not_or]
      exact ⟨fun h => ⟨Ne.symm hk, h⟩, fun h => h.2⟩

theorem set_keys : (set m k a).map (·.1) = if (get m k).isSome then m.map (·.1) else m.map (·.1) ++ [k] := by
  induction m with
  | nil => rfl
  | cons entry m ih =>
    unfold set get
    by_cases hk : entry.1 = k
    · simp [hk]
    · rw [if_neg hk, if_neg hk, map_cons, ih]
      split <;> rfl

theorem set_nodup (h : (m.map (·.1)).Nodup) : ((set m k a).map (·.1)).Nodup := by
  rw [set_keys]
  cases hget : get m k with
  | some b => exact h
  | none =>
    refine nodup_append.mpr ⟨h, nodup_singleton k, ?_⟩
    intro x hx y hy heq
    rw [mem_singleton.mp hy] at heq
    exact get_none.mp hget (heq ▸ hx)

theorem get_filter (hn : (m.map (·.1)).Nodup) (p : κ × α → Bool) :
    get (m.filter p) k = (get m k).filter fun a => p (k, a) := by
  induction m with
  | nil => rfl
  | cons entry m ih =>
    rw [map_cons, nodup_cons] at hn
    by_cases hk : entry.1 = k
    · rw [get_cons, if_pos hk, Option.filter_some, ← hk]
      by_cases hp : p entry = true
      · rw [filter_cons_of_pos hp, if_pos hp, get_cons, if_pos rfl]
      rw [filter_cons_of_neg hp, if_neg hp, get_none]
      intro hmem
      obtain ⟨other, hother, heq⟩ := mem_map.mp hmem
      exact hn.1 (heq ▸ mem_map_of_mem (mem_of_mem_filter hother))
    · rw [get_cons, if_neg hk, ← ih hn.2]
      by_cases hp : p entry = true
      · rw [filter_cons_of_pos hp, get_cons, if_neg hk]
      · rw [filter_cons_of_neg hp]

theorem get_map {β : Type} (f : α → β) : get (m.map fun entry => (entry.1, f entry.2)) k = (get m k).map f := by
  induction m with
  | nil => rfl
  | cons entry m ih =>
    rw [map_cons, get_cons, get_cons, ih]
    split <;> rfl

/-! ## Picked keys -/

variable {p : α → Bool}

theorem mem_picked (hn : (m.map (·.1)).Nodup) : k ∈ picked p m ↔ ∃ a, get m k = some a ∧ p a = true := by
  unfold picked
  constructor
  · intro h
    obtain ⟨entry, hentry, rfl⟩ := mem_map.mp h
    obtain ⟨hmem, hp⟩ := mem_filter.mp hentry
    exact ⟨entry.2, mem_get hn hmem, hp⟩
  · intro h
    obtain ⟨a, hget, hp⟩ := h
    exact mem_map.mpr ⟨(k, a), mem_filter.mpr ⟨get_mem hget, hp⟩, rfl⟩

omit [DecidableEq κ] in
theorem picked_nodup (h : (m.map (·.1)).Nodup) : (picked p m).Nodup :=
  (List.filter_sublist.map _).nodup h

omit [DecidableEq κ] in
theorem picked_length : (picked p m).length ≤ m.length := by
  rw [picked, length_map]
  exact length_filter_le _ m

omit [DecidableEq κ] in
theorem picked_map {f : α → α} (h : ∀ a, p (f a) = p a) :
    picked p (m.map fun entry => (entry.1, f entry.2)) = picked p m := by
  induction m with
  | nil => rfl
  | cons entry m ih =>
    unfold picked at ih ⊢
    rw [map_cons, filter_cons, filter_cons, h]
    split
    · rw [map_cons, map_cons, ih]
    · exact ih

theorem picked_set_same (hsome : ∀ b, get m k = some b → p b = p a) (hnone : get m k = none → p a = false) :
    picked p (set m k a) = picked p m := by
  induction m with
  | nil =>
    have hp := hnone rfl
    simp [picked, set, hp]
  | cons entry m ih =>
    unfold get at hsome hnone
    unfold set
    by_cases hk : entry.1 = k
    · rw [if_pos hk] at hsome ⊢
      have hp := hsome entry.2 rfl
      unfold picked
      rw [filter_cons, filter_cons, hp]
      split
      · rw [map_cons, map_cons, hk]
      · rfl
    · rw [if_neg hk] at hsome hnone ⊢
      have hrest := ih hsome hnone
      unfold picked at hrest ⊢
      rw [filter_cons, filter_cons]
      split
      · rw [map_cons, map_cons, hrest]
      · exact hrest

theorem picked_set_new (hget : get m k = none) (hp : p a = true) : picked p (set m k a) = picked p m ++ [k] := by
  induction m with
  | nil => simp [picked, set, hp]
  | cons entry m ih =>
    unfold get at hget
    unfold set
    by_cases hk : entry.1 = k
    · rw [if_pos hk] at hget
      cases hget
    rw [if_neg hk] at hget ⊢
    have hrest := ih hget
    unfold picked at hrest ⊢
    rw [filter_cons, filter_cons]
    split
    · rw [map_cons, map_cons, hrest, cons_append]
    · exact hrest

end OrderedMap
