import Mathlib.Data.List.Basic
import Mathlib.Logic.Nontrivial.Defs

/-! # Splices

A splice replaces a range of a list. Several of them, in order and apart from each other, can be made together in the
coordinates of the old list, or in turn without shifting them. The two agree on every list of a length exactly if all
splices but the last leave the length as it is. -/

structure Splice (α : Type*) where
  start : Nat
  stop : Nat
  insert : List α

namespace Splice

open List

/-! ## Together and in turn -/

section
variable {α β : Type*}

def apply (text : List α) (splice : Splice α) : List α :=
  text.take splice.start ++ splice.insert ++ text.drop splice.stop

def together (text : List α) : Nat → List (Splice α) → List α
  | pos, [] => text.drop pos
  | pos, splice :: rest => (text.take splice.start).drop pos ++ splice.insert ++ together text splice.stop rest

def inTurn (text : List α) (splices : List (Splice α)) : List α := splices.foldl apply text

def removed (text : List α) : List (Splice α) → List α
  | [] => []
  | splice :: rest => (text.take splice.stop).drop splice.start ++ removed (apply text splice) rest

/-- The splices stand in order, with something between one and the next, and each does something. -/
def Apart : Nat → List (Splice α) → Prop
  | _, [] => True
  | pos, splice :: rest => pos ≤ splice.start ∧ splice.start ≤ splice.stop ∧
      (splice.start < splice.stop ∨ splice.insert ≠ []) ∧ Apart (splice.stop + 1) rest

def Level : List (Splice α) → Prop
  | [] => True
  | splice :: rest => (rest ≠ [] → splice.insert.length = splice.stop - splice.start) ∧ Level rest

def Within (length : Nat) (splices : List (Splice α)) : Prop := ∀ splice ∈ splices, splice.stop < length

def map (f : α → β) (splice : Splice α) : Splice β := ⟨splice.start, splice.stop, splice.insert.map f⟩

variable {text : List α} {splice : Splice α} {splices : List (Splice α)} {pos : Nat}

theorem apply_map (f : α → β) : apply (text.map f) (splice.map f) = (apply text splice).map f := by
  unfold apply map
  rw [map_append, map_append, map_take, map_drop]

theorem inTurn_map (f : α → β) : inTurn (text.map f) (splices.map (map f)) = (inTurn text splices).map f := by
  unfold inTurn
  induction splices generalizing text with
  | nil => rfl
  | cons splice splices ih =>
    rw [map_cons, foldl_cons, foldl_cons, apply_map]
    exact ih

theorem together_map (f : α → β) :
    together (text.map f) pos (splices.map (map f)) = (together text pos splices).map f := by
  induction splices generalizing pos with
  | nil => rw [map_nil, together, together, map_drop]
  | cons splice splices ih =>
    rw [map_cons, together, together, ih, map_append, map_append, map_drop, map_take]
    rfl

theorem Apart.weaken {less : Nat} (hle : less ≤ pos) (h : Apart pos splices) : Apart less splices := by
  cases splices with
  | nil => trivial
  | cons splice splices => exact ⟨Nat.le_trans hle h.1, h.2⟩

theorem Apart.starts (h : Apart pos splices) : ∀ splice ∈ splices, pos ≤ splice.start ∧ splice.start ≤ splice.stop := by
  induction splices generalizing pos with
  | nil => exact fun _ hm => (by cases hm)
  | cons first splices ih =>
    intro splice hm
    rcases mem_cons.mp hm with rfl | hm
    · exact ⟨h.1, h.2.1⟩
    · have hrest := ih h.2.2.2 splice hm
      exact ⟨by have := h.1; have := h.2.1; omega, hrest.2⟩

theorem inTurn_before {i : Nat} (hi : i < text.length) (h : ∀ splice ∈ splices, i < splice.start) :
    (inTurn text splices)[i]? = text[i]? := by
  unfold inTurn
  induction splices generalizing text with
  | nil => rfl
  | cons splice splices ih =>
    have hstart := h splice mem_cons_self
    have htake : i < (text.take splice.start).length := by
      rw [length_take]
      omega
    have hsame : (apply text splice)[i]? = text[i]? := by
      unfold apply
      rw [append_assoc, getElem?_append_left htake, getElem?_take_of_lt hstart]
    have hlength : i < (apply text splice).length := by
      unfold apply
      rw [length_append, length_append]
      omega
    rw [foldl_cons, ih hlength fun other hm => h other (mem_cons_of_mem _ hm), hsame]

theorem count_inTurn [DecidableEq α] (h : ∀ splice ∈ splices, splice.start ≤ splice.stop) (x : α) :
    (inTurn text splices).count x + (removed text splices).count x =
      text.count x + (splices.flatMap (·.insert)).count x := by
  unfold inTurn
  induction splices generalizing text with
  | nil => rfl
  | cons splice splices ih =>
    have hrest := @ih (apply text splice) fun other hm => h other (mem_cons_of_mem _ hm)
    have hsplit : text.take splice.start ++ (text.take splice.stop).drop splice.start ++ text.drop splice.stop = text := by
      have hstart : text.take splice.start = (text.take splice.stop).take splice.start := by
        rw [take_take, Nat.min_eq_left (h splice mem_cons_self)]
      rw [hstart, take_append_drop, take_append_drop]
    have hcount := congrArg (List.count x) hsplit
    simp only [count_append] at hcount
    rw [foldl_cons, removed, flatMap_cons, count_append, count_append]
    have happly : (apply text splice).count x =
        (text.take splice.start).count x + splice.insert.count x + (text.drop splice.stop).count x := by
      unfold apply
      rw [count_append, count_append]
    omega

def rank [DecidableEq α] (p : α → Bool) (x : α) (text : List α) : Nat := ((text.takeWhile (· ≠ x)).filter p).length

theorem takeWhile_without [DecidableEq α] {x : α} {rest : List α} (h : x ∉ text) :
    (text ++ rest).takeWhile (· ≠ x) = text ++ rest.takeWhile (· ≠ x) :=
  takeWhile_append_of_pos fun _ hy => decide_eq_true fun heq => h (heq ▸ hy)

theorem takeWhile_until [DecidableEq α] {x : α} {rest : List α} (h : x ∉ text) :
    (text ++ x :: rest).takeWhile (· ≠ x) = text := by
  rw [takeWhile_without h, takeWhile_cons_of_neg (by simp), append_nil]

theorem rank_at [DecidableEq α] {p : α → Bool} {x : α} {rest : List α} (hp : ∀ y ∈ text, p y = true) (h : x ∉ text) :
    rank p x (text ++ x :: rest) = text.length := by
  unfold rank
  rw [takeWhile_until h, filter_eq_self.mpr hp]

theorem rank_apply [DecidableEq α] {p : α → Bool} {x : α} (horder : splice.start ≤ splice.stop) (hx : x ∈ text)
    (hpx : p x = true) (hnew : x ∉ splice.insert) (h : ∀ y ∈ (text.take splice.stop).drop splice.start, p y = false) :
    rank p x text ≤ rank p x (apply text splice) ∧ x ∈ apply text splice := by
  have hsplit : text = text.take splice.start ++ ((text.take splice.stop).drop splice.start ++ text.drop splice.stop) := by
    have hstart : text.take splice.start = (text.take splice.stop).take splice.start := by
      rw [take_take, Nat.min_eq_left horder]
    rw [← append_assoc, hstart, take_append_drop, take_append_drop]
  unfold apply
  rw [append_assoc]
  generalize text.take splice.start = front at hsplit ⊢
  generalize (text.take splice.stop).drop splice.start = middle at hsplit h
  generalize text.drop splice.stop = back at hsplit ⊢
  subst hsplit
  by_cases hfront : x ∈ front
  · obtain ⟨before, after, rfl, hbefore⟩ := eq_append_cons_of_mem hfront
    refine ⟨Nat.le_of_eq ?_, mem_append_left _ hfront⟩
    unfold rank
    rw [append_assoc, append_assoc, cons_append, cons_append, takeWhile_until hbefore,
      takeWhile_until hbefore]
  · have hmiddle : x ∉ middle := by
      intro hm
      have hfalse := h x hm
      rw [hpx] at hfalse
      cases hfalse
    have hback : x ∈ back := by
      rcases mem_append.mp hx with hm | hm
      · exact absurd hm hfront
      · rcases mem_append.mp hm with hm | hm
        · exact absurd hm hmiddle
        · exact hm
    refine ⟨?_, mem_append_right _ (mem_append_right _ hback)⟩
    have hgone : middle.filter p = [] := filter_eq_nil_iff.mpr fun y hy => by
      rw [h y hy]
      exact Bool.false_ne_true
    unfold rank
    rw [takeWhile_without hfront, takeWhile_without hmiddle, takeWhile_without hfront, takeWhile_without hnew]
    simp only [filter_append, hgone, length_append, length_nil]
    omega

theorem rank_inTurn [DecidableEq α] {p : α → Bool} {x : α} (horder : ∀ splice ∈ splices, splice.start ≤ splice.stop)
    (hx : x ∈ text) (hpx : p x = true) (hnew : ∀ splice ∈ splices, x ∉ splice.insert)
    (h : ∀ y ∈ removed text splices, p y = false) : rank p x text ≤ rank p x (inTurn text splices) := by
  unfold inTurn
  induction splices generalizing text with
  | nil => exact Nat.le_refl _
  | cons splice splices ih =>
    obtain ⟨hle, hmem⟩ := @rank_apply _ text splice _ p x (horder splice mem_cons_self) hx hpx
      (hnew splice mem_cons_self) fun y hy => h y (mem_append_left _ hy)
    refine Nat.le_trans hle ?_
    rw [foldl_cons]
    exact ih (fun other hm => horder other (mem_cons_of_mem _ hm)) hmem
      (fun other hm => hnew other (mem_cons_of_mem _ hm)) fun y hy => h y (mem_append_right _ hy)

end

/-! ## Cells

A list whose members are told apart: each is the one at its place in the old list, or one that was inserted. -/

section
variable {α : Type*} {length pos : Nat} {text before : List (Nat ⊕ α)} {splice : Splice (Nat ⊕ α)}
  {splices : List (Splice (Nat ⊕ α))} {plain : List (Splice α)}

def cells (α : Type*) (length : Nat) : List (Nat ⊕ α) := (List.range length).map .inl

def settled (place : Nat) : Nat ⊕ α → Bool
  | .inl k => k < place
  | .inr _ => true

def value (fill : Nat → α) : Nat ⊕ α → α := Sum.elim fill id

theorem map_value {fill : Nat → α} : (cells α length).map (value fill) = (List.range length).map fill := by
  unfold cells
  rw [map_map]
  rfl

theorem map_value_splices {fill : Nat → α} : (plain.map (map Sum.inr)).map (map (value fill)) = plain := by
  rw [map_map]
  refine (map_congr_left fun splice _ => ?_).trans (map_id _)
  show Splice.map (value fill) (Splice.map Sum.inr splice) = splice
  unfold map
  simp only [map_map]
  congr
  exact map_id _

theorem value_injective [Nontrivial α] {x y : Nat ⊕ α} (h : ∀ fill : Nat → α, value fill x = value fill y) : x = y := by
  classical
  cases x with
  | inl k =>
    cases y with
    | inl l =>
      by_cases hkl : k = l
      · rw [hkl]
      obtain ⟨a, b, hab⟩ := exists_pair_ne α
      have heq := h fun n => if n = k then a else b
      simp only [value, Sum.elim_inl, if_pos, if_neg (Ne.symm hkl)] at heq
      exact absurd heq hab
    | inr c =>
      obtain ⟨d, hd⟩ := exists_ne c
      exact absurd (h fun _ => d) hd
  | inr c =>
    cases y with
    | inl l =>
      obtain ⟨d, hd⟩ := exists_ne c
      exact absurd (h fun _ => d) (Ne.symm hd)
    | inr d => rw [show c = d from h fun _ => c]

theorem map_value_injective [Nontrivial α] {text other : List (Nat ⊕ α)}
    (h : ∀ fill : Nat → α, text.map (value fill) = other.map (value fill)) : text = other := by
  induction text generalizing other with
  | nil =>
    obtain ⟨a, _, _⟩ := exists_pair_ne α
    exact (map_eq_nil_iff.mp (h fun _ => a).symm).symm
  | cons x text ih =>
    cases other with
    | nil =>
      obtain ⟨a, _, _⟩ := exists_pair_ne α
      cases h fun _ => a
    | cons y other =>
      have hhead : x = y := value_injective fun fill => (List.cons.inj (h fill)).1
      have htail : text = other := ih fun fill => (List.cons.inj (h fill)).2
      rw [hhead, htail]

theorem mem_cells_drop {x : Nat ⊕ α} (h : x ∈ (cells α length).drop pos) : ∃ k, x = .inl k ∧ pos ≤ k := by
  unfold cells at h
  rw [← map_drop] at h
  obtain ⟨k, hk, rfl⟩ := mem_map.mp h
  refine ⟨k, rfl, ?_⟩
  obtain ⟨i, hi, rfl⟩ := mem_iff_getElem.mp hk
  rw [getElem_drop, getElem_range]
  omega

theorem cells_drop (h : pos < length) : (cells α length).drop pos = .inl pos :: (cells α length).drop (pos + 1) := by
  unfold cells
  have hlt : pos < ((List.range length).map (Sum.inl : Nat → Nat ⊕ α)).length := by
    rw [length_map, length_range]
    exact h
  rw [drop_eq_getElem_cons hlt, getElem_map, getElem_range]

theorem cells_length : (cells α length).length = length := by
  unfold cells
  rw [length_map, length_range]

theorem mem_cells_slice {start stop : Nat} {x : Nat ⊕ α} (h : x ∈ ((cells α length).take stop).drop start) :
    ∃ k, x = .inl k ∧ start ≤ k ∧ k < stop := by
  unfold cells at h
  rw [← map_take, ← map_drop] at h
  obtain ⟨k, hk, rfl⟩ := mem_map.mp h
  refine ⟨k, rfl, ?_⟩
  obtain ⟨i, hi, rfl⟩ := mem_iff_getElem.mp hk
  rw [length_drop, length_take, length_range] at hi
  rw [getElem_drop, getElem_take, getElem_range]
  omega

theorem count_together [DecidableEq (Nat ⊕ α)] {place : Nat} (hpos : place ≤ pos) (happart : Apart pos splices) {x : Nat ⊕ α}
    (hx : settled place x = true) :
    (together (cells α length) pos splices).count x = (splices.flatMap (·.insert)).count x := by
  have hnone : ∀ {rest : List (Nat ⊕ α)}, (∀ y ∈ rest, ∃ k, y = .inl k ∧ place ≤ k) → rest.count x = 0 := by
    intro rest hrest
    rw [count_eq_zero]
    intro hm
    obtain ⟨k, rfl, hk⟩ := hrest x hm
    have hlt := of_decide_eq_true hx
    omega
  induction splices generalizing pos with
  | nil =>
    rw [together, flatMap_nil, count_nil]
    refine hnone fun y hy => ?_
    obtain ⟨k, rfl, hk⟩ := mem_cells_drop hy
    exact ⟨k, rfl, Nat.le_trans hpos hk⟩
  | cons splice splices ih =>
    obtain ⟨hstart, horder, _, hrest⟩ := happart
    rw [together, flatMap_cons, count_append, count_append, count_append,
      ih (by omega) (hrest.weaken (Nat.le_succ _)), hnone, Nat.zero_add]
    intro y hy
    obtain ⟨k, rfl, hk, _⟩ := mem_cells_slice hy
    exact ⟨k, rfl, Nat.le_trans hpos hk⟩

theorem misplaced [DecidableEq (Nat ⊕ α)] (hbefore : ∀ x ∈ before, settled pos x = true) (hshift : before.length ≠ pos)
    (hapart : Apart (pos + 1) (splice :: splices)) (hwithin : Within length (splice :: splices))
    (hnew : ∀ other ∈ splice :: splices, ∀ x ∈ other.insert, ∃ c, x = .inr c) :
    inTurn (before ++ (cells α length).drop pos) (splice :: splices) ≠
      before ++ together (cells α length) pos (splice :: splices) := by
  intro hsame
  obtain ⟨hstart, horder, hdoes, hrest⟩ := hapart
  have hstop : splice.stop < length := hwithin splice mem_cons_self
  have hgap : (cells α length).drop pos =
      ((cells α length).take splice.start).drop pos ++ (cells α length).drop splice.start := by
    have hadd : pos + (splice.start - pos) = splice.start := by omega
    have hsplit := take_append_drop (splice.start - pos) ((cells α length).drop pos)
    rw [drop_drop, hadd] at hsplit
    rw [List.drop_take, hsplit]
  have hgaplength : (((cells α length).take splice.start).drop pos).length = splice.start - pos := by
    rw [length_drop, length_take, cells_length]
    omega
  rw [together, ← append_assoc, ← append_assoc] at hsame
  rcases Nat.lt_or_gt_of_ne hshift with hless | hmore
  · -- The cell at the place of the splice is left of it, and stays where the splice was to be.
    have hplace : (before ++ ((cells α length).take splice.start).drop pos).length < splice.start := by
      rw [length_append, hgaplength]
      omega
    have hleft := @inTurn_before _ (before ++ (cells α length).drop pos) (splice :: splices)
      (before ++ ((cells α length).take splice.start).drop pos).length
      (by
        rw [hgap]
        simp only [length_append, length_drop, length_take, cells_length]
        omega)
      (fun other hm => by
        rcases mem_cons.mp hm with rfl | hm
        · exact hplace
        · have hlater := (hrest.starts other hm).1
          omega)
    rw [hsame, append_assoc, getElem?_append_right (Nat.le_refl _), Nat.sub_self, hgap, ← append_assoc,
      getElem?_append_right (Nat.le_refl _), Nat.sub_self, cells_drop (by omega)] at hleft
    cases hinsert : splice.insert with
    | cons x insert =>
      obtain ⟨c, rfl⟩ := hnew splice mem_cons_self x (hinsert ▸ mem_cons_self)
      rw [hinsert] at hleft
      cases hleft
    | nil =>
      have hremoves : splice.start < splice.stop := by
        rcases hdoes with hlt | hne
        · exact hlt
        · exact absurd hinsert hne
      have hhead : (together (cells α length) splice.stop splices)[0]? = some (.inl splice.stop) := by
        cases splices with
        | nil =>
          rw [together, cells_drop hstop]
          rfl
        | cons next splices =>
          have hnext := hrest.1
          have hone : splice.stop < next.start := by omega
          rw [together, append_assoc, List.drop_take, cells_drop hstop,
            show next.start - splice.stop = next.start - splice.stop - 1 + 1 by omega, take_succ_cons]
          rfl
      rw [hinsert, nil_append, hhead] at hleft
      have hplaces := Sum.inl.inj (Option.some.inj hleft)
      omega
  · -- Nothing settled can be removed, or it would be missing in the end.
    obtain ⟨k, hk⟩ : ∃ k, splice.start = k + 1 := ⟨splice.start - 1, by omega⟩
    have hslice : ((cells α length).take splice.start).drop pos = ((cells α length).take k).drop pos ++ [.inl k] := by
      have hcell : (cells α length)[k]? = some (.inl k) := by
        unfold cells
        rw [getElem?_map, getElem?_range (by omega)]
        rfl
      rw [hk, take_add_one, hcell, drop_append_of_le_length (by rw [length_take, cells_length]; omega)]
      rfl
    have hfront : ∀ y ∈ before ++ ((cells α length).take splice.start).drop pos, settled splice.start y = true := by
      intro y hy
      rcases mem_append.mp hy with hy | hy
      · have hold := hbefore y hy
        cases y with
        | inl i => exact decide_eq_true (Nat.lt_of_lt_of_le (of_decide_eq_true hold) (by omega))
        | inr c => rfl
      · obtain ⟨i, rfl, _, hi⟩ := mem_cells_slice hy
        exact decide_eq_true hi
    have hremoved : ∀ y ∈ removed (before ++ (cells α length).drop pos) (splice :: splices),
        settled splice.start y = false := by
      intro y hy
      cases hold : settled splice.start y with
      | false => rfl
      | true =>
        have hcount := @count_inTurn _ (before ++ (cells α length).drop pos) (splice :: splices) _
          (fun other hm => by
            rcases mem_cons.mp hm with rfl | hm
            · exact horder
            · exact (hrest.starts other hm).2) y
        have hbehind : ((cells α length).drop splice.start).count y = 0 := by
          rw [count_eq_zero]
          intro hm
          obtain ⟨i, rfl, hi⟩ := mem_cells_drop hm
          exact absurd (of_decide_eq_true hold) (by omega)
        have hpositive := count_pos_iff.mpr hy
        rw [hsame, hgap, ← append_assoc, flatMap_cons] at hcount
        simp only [count_append] at hcount
        rw [count_together (by omega) (hrest.weaken (Nat.le_succ _)) hold, hbehind] at hcount
        rw [hgap, ← append_assoc] at hpositive
        omega
    have hlength : (before ++ ((cells α length).take splice.start).drop pos).length =
        (before ++ ((cells α length).take k).drop pos).length + 1 := by
      rw [hslice, ← append_assoc, length_append, length_singleton]
    have hplace : splice.start < (before ++ ((cells α length).take splice.start).drop pos).length := by
      rw [length_append, hgaplength]
      omega
    rcases Nat.lt_or_ge splice.start splice.stop with hremoves | hnone
    · obtain ⟨y, hy⟩ : ∃ y, (before ++ ((cells α length).take splice.start).drop pos)[splice.start]? = some y :=
        ⟨_, getElem?_eq_getElem hplace⟩
      have hfirst : y ∈ removed (before ++ (cells α length).drop pos) (splice :: splices) := by
        refine mem_append_left _ (mem_of_getElem? (i := 0) ?_)
        rw [getElem?_drop, Nat.add_zero, getElem?_take_of_lt hremoves, hgap, ← append_assoc,
          getElem?_append_left hplace, hy]
      have hold := hfront y (mem_of_getElem? hy)
      rw [hremoved y hfirst] at hold
      cases hold
    · -- The last cell before the splice is moved to the right, and nothing brings it back.
      have hsome : splice.insert ≠ [] := by
        rcases hdoes with hlt | hne
        · omega
        · exact hne
      have hnot : (.inl k : Nat ⊕ α) ∉ before ++ ((cells α length).take k).drop pos := by
        intro hm
        rcases mem_append.mp hm with hm | hm
        · have hlt := of_decide_eq_true (hbefore _ hm)
          omega
        · obtain ⟨i, hi, _, hlt⟩ := mem_cells_slice hm
          cases hi
          omega
      have hinsert : (.inl k : Nat ⊕ α) ∉ splice.insert := by
        intro hm
        obtain ⟨c, hc⟩ := hnew splice mem_cons_self _ hm
        cases hc
      have hkept : ∀ y ∈ before ++ ((cells α length).take k).drop pos, settled splice.start y = true := by
        intro y hy
        refine hfront y ?_
        rw [hslice, ← append_assoc]
        exact mem_append_left _ hy
      have hwhole : before ++ (cells α length).drop pos =
          before ++ ((cells α length).take k).drop pos ++ .inl k :: (cells α length).drop splice.start := by
        rw [hgap, hslice]
        simp only [append_assoc, singleton_append]
      have happlied : apply (before ++ (cells α length).drop pos) splice =
          (before ++ ((cells α length).take k).drop pos).take splice.start ++ splice.insert ++
            (before ++ ((cells α length).take k).drop pos).drop splice.stop ++
            .inl k :: (cells α length).drop splice.start := by
        unfold apply
        rw [hwhole, take_append_of_le_length (by omega), drop_append_of_le_length (by omega)]
        simp only [append_assoc]
      have hright : rank (settled splice.start) (.inl k) (apply (before ++ (cells α length).drop pos) splice) =
          (before ++ ((cells α length).take k).drop pos).length + splice.insert.length := by
        rw [happlied, rank_at]
        · have hsum : splice.stop = splice.start := by omega
          have htotal := congrArg List.length
            (take_append_drop splice.start (before ++ ((cells α length).take k).drop pos))
          rw [length_append] at htotal
          rw [length_append, length_append, hsum]
          omega
        · intro y hy
          rcases mem_append.mp hy with hy | hy
          · rcases mem_append.mp hy with hy | hy
            · exact hkept y (mem_of_mem_take hy)
            · obtain ⟨c, rfl⟩ := hnew splice mem_cons_self y hy
              rfl
          · exact hkept y (mem_of_mem_drop hy)
        · intro hm
          rcases mem_append.mp hm with hm | hm
          · rcases mem_append.mp hm with hm | hm
            · exact hnot (mem_of_mem_take hm)
            · exact hinsert hm
          · exact hnot (mem_of_mem_drop hm)
      have hleft : rank (settled splice.start) (.inl k) (inTurn (before ++ (cells α length).drop pos) (splice :: splices)) =
          (before ++ ((cells α length).take k).drop pos).length := by
        rw [hsame, hslice]
        simp only [← append_assoc]
        rw [append_assoc, append_assoc, append_assoc, ← append_assoc before, singleton_append,
          rank_at hkept hnot]
      have hrank := @rank_inTurn _ (apply (before ++ (cells α length).drop pos) splice) splices _
        (settled splice.start) (.inl k) (fun other hm => (hrest.starts other hm).2)
        (by
          rw [happlied]
          exact mem_append_right _ mem_cons_self)
        (decide_eq_true (by omega))
        (fun other hm hx => by
          obtain ⟨c, hc⟩ := hnew other (mem_cons_of_mem _ hm) _ hx
          cases hc)
        fun y hy => hremoved y (mem_append_right _ hy)
      have hpositive := length_pos_iff.mpr hsome
      rw [hright] at hrank
      rw [inTurn, foldl_cons] at hleft
      rw [inTurn, hleft] at hrank
      omega

theorem apply_settled (hlength : before.length = pos) (hstart : pos ≤ splice.start) (horder : splice.start ≤ splice.stop) :
    apply (before ++ (cells α length).drop pos) splice =
      before ++ ((cells α length).take splice.start).drop pos ++ splice.insert ++ (cells α length).drop splice.stop := by
  have hplace : splice.start = before.length + (splice.start - pos) := by omega
  have hend : splice.stop = before.length + (splice.stop - pos) := by omega
  have hrest : pos + (splice.stop - pos) = splice.stop := by omega
  unfold apply
  rw [hplace, hend, take_length_add_append, drop_length_add_append, drop_drop, ← hplace, ← hend, hrest,
    List.drop_take]

theorem level_of_cells [DecidableEq (Nat ⊕ α)] (hbefore : ∀ x ∈ before, settled pos x = true) (hlength : before.length = pos)
    (hapart : Apart pos splices) (hwithin : Within length splices)
    (hnew : ∀ splice ∈ splices, ∀ x ∈ splice.insert, ∃ c, x = .inr c)
    (h : inTurn (before ++ (cells α length).drop pos) splices = before ++ together (cells α length) pos splices) :
    Level splices := by
  induction splices generalizing before pos with
  | nil => trivial
  | cons splice splices ih =>
    obtain ⟨hstart, horder, _, hrest⟩ := hapart
    cases splices with
    | nil => exact ⟨fun hmore => absurd rfl hmore, trivial⟩
    | cons next splices =>
      have hstop : splice.stop < length := hwithin splice mem_cons_self
      have hsettled : ∀ x ∈ before ++ ((cells α length).take splice.start).drop pos ++ splice.insert,
          settled splice.stop x = true := by
        intro x hx
        rcases mem_append.mp hx with hx | hx
        · rcases mem_append.mp hx with hx | hx
          · have hold := hbefore x hx
            cases x with
            | inl k => exact decide_eq_true (Nat.lt_of_lt_of_le (of_decide_eq_true hold) (by omega))
            | inr c => rfl
          · obtain ⟨k, rfl, _, hk⟩ := mem_cells_slice hx
            exact decide_eq_true (by omega)
        · obtain ⟨c, rfl⟩ := hnew splice mem_cons_self x hx
          rfl
      have hsame : inTurn (before ++ ((cells α length).take splice.start).drop pos ++ splice.insert ++
            (cells α length).drop splice.stop) (next :: splices) =
          before ++ ((cells α length).take splice.start).drop pos ++ splice.insert ++
            together (cells α length) splice.stop (next :: splices) := by
        rw [← apply_settled hlength hstart horder]
        refine Eq.trans h ?_
        rw [together]
        simp only [append_assoc]
      have hwithin : Within length (next :: splices) := fun other hm => hwithin other (mem_cons_of_mem _ hm)
      have hnew : ∀ other ∈ next :: splices, ∀ x ∈ other.insert, ∃ c, x = .inr c :=
        fun other hm => hnew other (mem_cons_of_mem _ hm)
      by_cases hshift : (before ++ ((cells α length).take splice.start).drop pos ++ splice.insert).length = splice.stop
      · refine ⟨fun _ => ?_, ih hsettled hshift (hrest.weaken (Nat.le_succ _)) hwithin hnew hsame⟩
        rw [length_append, length_append, length_drop, length_take, cells_length] at hshift
        omega
      · exact absurd hsame (misplaced hsettled hshift hrest hwithin hnew)

theorem Apart.mapped {β : Type*} {f : α → β} (h : Apart pos plain) : Apart pos (plain.map (map f)) := by
  induction plain generalizing pos with
  | nil => trivial
  | cons splice plain ih =>
    refine ⟨h.1, h.2.1, h.2.2.1.imp id fun hsome hnone => hsome ?_, ih h.2.2.2⟩
    exact map_eq_nil_iff.mp hnone

theorem Level.of_map {β : Type*} {f : α → β} (h : Level (plain.map (map f))) : Level plain := by
  induction plain with
  | nil => trivial
  | cons splice plain ih =>
    refine ⟨fun hmore => ?_, ih h.2⟩
    have hlevel := h.1 fun hnone => hmore (map_eq_nil_iff.mp hnone)
    rwa [map, length_map] at hlevel

theorem level_of_same [Nontrivial α] (hapart : Apart 0 plain) (hwithin : Within length plain)
    (h : ∀ text : List α, text.length = length → inTurn text plain = together text 0 plain) : Level plain := by
  classical
  refine @Level.of_map _ plain _ (Sum.inr : α → Nat ⊕ α) (@level_of_cells _ length 0 [] _ _ ?_ rfl hapart.mapped ?_ ?_ ?_)
  · exact fun x hx => (by cases hx)
  · intro splice hm
    obtain ⟨old, hold, rfl⟩ := mem_map.mp hm
    exact hwithin old hold
  · intro splice hm x hx
    obtain ⟨old, _, rfl⟩ := mem_map.mp hm
    obtain ⟨c, _, rfl⟩ := mem_map.mp hx
    exact ⟨c, rfl⟩
  · rw [drop_zero, nil_append, nil_append]
    refine map_value_injective fun fill => ?_
    rw [← inTurn_map, ← together_map, map_value, map_value_splices]
    exact h _ (by rw [length_map, length_range])

end

end Splice
