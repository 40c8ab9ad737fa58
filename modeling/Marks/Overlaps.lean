import Mathlib.Algebra.Ring.Nat
import Marks.Splices

/-! # Splices that may overlap

Splices that are made together in the coordinates of the old list, whatever their ranges: a member is gone if one of
them removes it, and every insertion stands where its splice starts. -/

namespace Splice

open List

section
variable {α β : Type*}

def removes (p : Nat) (splice : Splice α) : Bool := splice.start ≤ p && p < splice.stop

def mergedAt (text : List α) (splices : List (Splice α)) (p : Nat) : List α :=
  (splices.filter (·.start == p)).flatMap (·.insert) ++ if splices.any (removes p) then [] else text[p]?.toList

def mergedFrom (text : List α) (splices : List (Splice α)) (pos : Nat) : List α :=
  (List.range' pos (text.length + 1 - pos)).flatMap (mergedAt text splices)

def merged (text : List α) (splices : List (Splice α)) : List α := mergedFrom text splices 0

def InOrder : Nat → List (Splice α) → Prop
  | _, [] => True
  | pos, splice :: rest => pos ≤ splice.start ∧ splice.start < splice.stop ∧ InOrder splice.stop rest

variable {text : List α} {splices : List (Splice α)} {pos : Nat}

theorem InOrder.behind (h : InOrder pos splices) : ∀ splice ∈ splices, pos ≤ splice.start ∧ splice.start < splice.stop := by
  induction splices generalizing pos with
  | nil => exact fun _ hm => (by cases hm)
  | cons first splices ih =>
    obtain ⟨hstart, hsome, hrest⟩ := h
    intro splice hm
    rcases mem_cons.mp hm with rfl | hm
    · exact ⟨hstart, hsome⟩
    · exact ⟨by have := ih hrest splice hm; omega, (ih hrest splice hm).2⟩

theorem InOrder.weaken {less : Nat} (hle : less ≤ pos) (h : InOrder pos splices) : InOrder less splices := by
  cases splices with
  | nil => trivial
  | cons splice splices => exact ⟨Nat.le_trans hle h.1, h.2⟩

/-! ## In order -/

theorem flatMap_kept (pos n : Nat) :
    (List.range' pos n).flatMap (fun p => text[p]?.toList) = (text.drop pos).take n := by
  induction n generalizing pos with
  | zero => rfl
  | succ n ih =>
    rw [range'_succ, flatMap_cons, ih]
    by_cases hpos : pos < text.length
    · rw [getElem?_eq_getElem hpos, drop_eq_getElem_cons hpos]
      rfl
    · rw [getElem?_eq_none (by omega), drop_eq_nil_of_le (by omega : text.length ≤ pos),
        drop_eq_nil_of_le (by omega : text.length ≤ pos + 1), take_nil, take_nil]
      rfl

theorem mergedAt_outside {p : Nat} (hstart : ∀ splice ∈ splices, splice.start ≠ p)
    (hremoves : ∀ splice ∈ splices, removes p splice = false) : mergedAt text splices p = text[p]?.toList := by
  unfold mergedAt
  rw [filter_eq_nil_iff.mpr fun splice hm => by simpa using hstart splice hm, flatMap_nil, nil_append,
    if_neg fun hany => ?_]
  obtain ⟨splice, hm, htrue⟩ := any_eq_true.mp hany
  rw [hremoves splice hm] at htrue
  cases htrue

theorem flatMap_removed {splice : Splice α} (h : InOrder pos (splice :: splices)) :
    (List.range' splice.start (splice.stop - splice.start)).flatMap (mergedAt text (splice :: splices)) = splice.insert := by
  obtain ⟨-, hsome, hrest⟩ := h
  have hbehind := hrest.behind
  have hempty : ∀ p, splice.start < p → p < splice.stop → mergedAt text (splice :: splices) p = [] := by
    intro p hlt hgt
    have hnone : ∀ other ∈ splice :: splices, ¬ (other.start == p) = true := by
      intro other hm
      rcases mem_cons.mp hm with rfl | hm
      · simp only [beq_iff_eq]
        omega
      · have := hbehind other hm
        simp only [beq_iff_eq]
        omega
    unfold mergedAt
    rw [filter_eq_nil_iff.mpr hnone, flatMap_nil, nil_append, if_pos]
    simp only [any_cons, removes, Bool.or_eq_true, Bool.and_eq_true, decide_eq_true_eq]
    exact Or.inl ⟨by omega, hgt⟩
  have hfirst : mergedAt text (splice :: splices) splice.start = splice.insert := by
    have hnone : splices.filter (·.start == splice.start) = [] := filter_eq_nil_iff.mpr fun other hm => by
      have := hbehind other hm
      simp only [beq_iff_eq]
      omega
    unfold mergedAt
    rw [filter_cons_of_pos (by simp), hnone, if_pos]
    · simp
    · simp only [any_cons, removes, Bool.or_eq_true, Bool.and_eq_true, decide_eq_true_eq]
      exact Or.inl ⟨Nat.le_refl _, hsome⟩
  obtain ⟨n, hn⟩ : ∃ n, splice.stop - splice.start = n + 1 := ⟨splice.stop - splice.start - 1, by omega⟩
  rw [hn, range'_succ, flatMap_cons, hfirst, flatMap_eq_nil_iff.mpr, append_nil]
  intro p hp
  have hp := mem_range'_1.mp hp
  exact hempty p (by omega) (by omega)

theorem mergedFrom_together (h : InOrder pos splices) (hwithin : ∀ splice ∈ splices, splice.stop ≤ text.length)
    (hpos : pos ≤ text.length) : mergedFrom text splices pos = together text pos splices := by
  unfold mergedFrom
  induction splices generalizing pos with
  | nil =>
    rw [together, ← take_of_length_le (l := text.drop pos) (i := text.length + 1 - pos)]
    · rw [← flatMap_kept]
      exact flatMap_congr fun p _ => mergedAt_outside (by simp) (by simp)
    · rw [length_drop]
      omega
  | cons splice splices ih =>
    have hbehind := h.2.2.behind
    have hstop := hwithin splice mem_cons_self
    obtain ⟨hstart, hsome, hrest⟩ := h
    have hsplit : List.range' pos (text.length + 1 - pos) = List.range' pos (splice.start - pos) ++
        (List.range' splice.start (splice.stop - splice.start) ++
          List.range' splice.stop (text.length + 1 - splice.stop)) := by
      have hfirst := @List.range'_append_1 splice.start (splice.stop - splice.start) (text.length + 1 - splice.stop)
      have hwhole := @List.range'_append_1 pos (splice.start - pos) (text.length + 1 - splice.start)
      rw [show splice.start + (splice.stop - splice.start) = splice.stop by omega,
        show splice.stop - splice.start + (text.length + 1 - splice.stop) = text.length + 1 - splice.start by omega] at hfirst
      rw [show pos + (splice.start - pos) = splice.start by omega,
        show splice.start - pos + (text.length + 1 - splice.start) = text.length + 1 - pos by omega] at hwhole
      rw [hfirst, hwhole]
    have hbefore : (List.range' pos (splice.start - pos)).flatMap (mergedAt text (splice :: splices)) =
        (text.take splice.start).drop pos := by
      rw [List.drop_take, ← flatMap_kept]
      refine flatMap_congr fun p hp => ?_
      have hp := mem_range'_1.mp hp
      refine mergedAt_outside (fun other hm => ?_) fun other hm => ?_
      · rcases mem_cons.mp hm with rfl | hm
        · omega
        · have := hbehind other hm
          omega
      · have hlt : p < other.start := by
          rcases mem_cons.mp hm with rfl | hm
          · omega
          · have := hbehind other hm
            omega
        simp [removes, Nat.not_le.mpr hlt]
    have hafter : (List.range' splice.stop (text.length + 1 - splice.stop)).flatMap (mergedAt text (splice :: splices)) =
        (List.range' splice.stop (text.length + 1 - splice.stop)).flatMap (mergedAt text splices) := by
      refine flatMap_congr fun p hp => ?_
      have hp := mem_range'_1.mp hp
      have hstarts : (splice.start == p) = false := by
        simp only [beq_eq_false_iff_ne]
        omega
      have hremoves : removes p splice = false := by
        unfold removes
        rw [decide_eq_false (by omega : ¬ p < splice.stop), Bool.and_false]
      unfold mergedAt
      rw [filter_cons_of_neg (by simp [hstarts]), any_cons, hremoves, Bool.false_or]
    rw [together, ← ih hrest (fun other hm => hwithin other (mem_cons_of_mem _ hm)) hstop, hsplit, flatMap_append,
      flatMap_append, hbefore, flatMap_removed ⟨hstart, hsome, hrest⟩, hafter, append_assoc]

/-! ## Lengths -/

theorem length_flatMap_append {f g : β → List α} (l : List β) :
    (l.flatMap fun p => f p ++ g p).length = (l.flatMap f).length + (l.flatMap g).length := by
  induction l with
  | nil => rfl
  | cons p l ih =>
    simp only [flatMap_cons, length_append] at ih ⊢
    omega

theorem length_flatMap_le {f g : β → List α} (h : ∀ p, (f p).length ≤ (g p).length) (l : List β) :
    (l.flatMap f).length ≤ (l.flatMap g).length := by
  induction l with
  | nil => exact Nat.le_refl _
  | cons p l ih =>
    have hp := h p
    simp only [flatMap_cons, length_append]
    omega

theorem length_inserted {l : List Nat} (hl : l.Nodup) (splices : List (Splice α)) :
    (l.flatMap fun p => (splices.filter (·.start == p)).flatMap (·.insert)).length ≤
      (splices.flatMap (·.insert)).length := by
  induction splices with
  | nil =>
    have hnil : (l.flatMap fun _ => ([] : List α)) = [] := flatMap_eq_nil_iff.mpr fun _ _ => rfl
    exact Nat.le_of_eq (congrArg List.length hnil)
  | cons splice splices ih =>
    have hsplit : ∀ p, ((splice :: splices).filter (·.start == p)).flatMap (·.insert) =
        (if splice.start == p then splice.insert else []) ++ (splices.filter (·.start == p)).flatMap (·.insert) := by
      intro p
      rw [filter_cons]
      by_cases hp : (splice.start == p) = true
      · rw [if_pos hp, if_pos hp, flatMap_cons]
      · rw [if_neg hp, if_neg hp, nil_append]
    have honce : (l.flatMap fun p => if splice.start == p then splice.insert else []).length ≤ splice.insert.length := by
      clear ih hsplit
      induction l with
      | nil => exact Nat.zero_le _
      | cons p l ih =>
        obtain ⟨hnot, hrest⟩ := nodup_cons.mp hl
        rw [flatMap_cons]
        by_cases hp : splice.start = p
        · have hnone : (l.flatMap fun q => if splice.start == q then splice.insert else []) = [] := by
            refine flatMap_eq_nil_iff.mpr fun q hq => if_neg fun heq => hnot ?_
            rw [← hp, beq_iff_eq.mp heq]
            exact hq
          rewrite [hnone, append_nil, if_pos (beq_iff_eq.mpr hp)]
          exact Nat.le_refl _
        · rw [if_neg (by simpa using hp), nil_append]
          exact ih hrest
    have hcongr := flatMap_congr (l := l) fun p _ => hsplit p
    rw [hcongr, length_flatMap_append, flatMap_cons, length_append]
    omega

def places (splices : List (Splice α)) : Nat := (splices.map fun splice => splice.stop - splice.start).sum

theorem length_erased (h : InOrder pos splices) (hwithin : ∀ splice ∈ splices, splice.stop ≤ text.length)
    (hpos : pos ≤ text.length) (hempty : ∀ splice ∈ splices, splice.insert = []) :
    pos + (together text pos splices).length + places splices = text.length := by
  induction splices generalizing pos with
  | nil =>
    rw [together, length_drop, places, map_nil, sum_nil]
    omega
  | cons splice splices ih =>
    obtain ⟨hstart, hsome, hrest⟩ := h
    have hstop := hwithin splice mem_cons_self
    have hlength := ih hrest (fun other hm => hwithin other (mem_cons_of_mem _ hm)) hstop
      fun other hm => hempty other (mem_cons_of_mem _ hm)
    unfold places at hlength ⊢
    rw [together, hempty splice mem_cons_self, append_nil, length_append, length_drop,
      length_take, map_cons, sum_cons]
    omega

theorem length_merged_le {gone : List (Splice α)} (hgone : InOrder 0 gone) (hempty : ∀ splice ∈ gone, splice.insert = [])
    (hwithin : ∀ splice ∈ gone, splice.stop ≤ text.length)
    (hcover : ∀ p, gone.any (removes p) = true → splices.any (removes p) = true) :
    (merged text splices).length + places gone ≤ text.length + (splices.flatMap (·.insert)).length := by
  have herased := length_erased hgone hwithin (Nat.zero_le _) hempty
  rw [← mergedFrom_together hgone hwithin (Nat.zero_le _)] at herased
  have hkept : ((List.range' 0 (text.length + 1 - 0)).flatMap
      fun p => if splices.any (removes p) then [] else text[p]?.toList).length ≤ (mergedFrom text gone 0).length := by
    refine length_flatMap_le (fun p => ?_) _
    unfold mergedAt
    by_cases hp : gone.any (removes p) = true
    · rw [if_pos (hcover p hp)]
      exact Nat.zero_le _
    rw [if_neg hp, length_append]
    by_cases hq : splices.any (removes p) = true
    · rw [if_pos hq]
      exact Nat.zero_le _
    · rw [if_neg hq]
      exact Nat.le_add_left _ _
  have hinserted := length_inserted (nodup_range' (s := 0) (n := text.length + 1 - 0)) splices
  have hmerged : (merged text splices).length =
      ((List.range' 0 (text.length + 1 - 0)).flatMap fun p => (splices.filter (·.start == p)).flatMap (·.insert)).length +
        ((List.range' 0 (text.length + 1 - 0)).flatMap
          fun p => if splices.any (removes p) then [] else text[p]?.toList).length := length_flatMap_append _
  omega

end

end Splice
