import Mathlib.Data.List.Basic
import Mathlib.Logic.Function.Basic

/-! # Prefix-free encodings

An encoding gives values words over an alphabet, and may refuse a value. Where no word starts another, a word is told
from whatever follows it; so messages written part after part have the same parts if they are the same. -/

namespace Encoding

variable {α β A : Type*}

def message : List (Option (List A)) → Option (List A)
  | [] => some []
  | part :: rest => part.bind fun word => (message rest).map (word ++ ·)

def PrefixFree (put : α → Option (List A)) : Prop :=
  ∀ ⦃a b : α⦄ ⦃p q r s : List A⦄, put a = some p → put b = some q → p ++ r = q ++ s → a = b ∧ r = s

theorem message_cons {part : Option (List A)} {rest : List (Option (List A))} {bytes : List A} :
    message (part :: rest) = some bytes ↔
      ∃ word tail, part = some word ∧ message rest = some tail ∧ bytes = word ++ tail := by
  have hunfold : message (part :: rest) = part.bind fun word => (message rest).map (word ++ ·) := rfl
  rw [hunfold]
  constructor
  · intro h
    obtain ⟨word, hword, h⟩ := Option.bind_eq_some_iff.mp h
    obtain ⟨tail, htail, h⟩ := Option.map_eq_some_iff.mp h
    exact ⟨word, tail, hword, htail, h.symm⟩
  · rintro ⟨word, tail, rfl, htail, rfl⟩
    rw [Option.bind_some, htail, Option.map_some]

/-! ## Which encodings are prefix-free -/

theorem PrefixFree.comap {put : α → Option (List A)} (h : PrefixFree put) {f : β → α} (hf : f.Injective) :
    PrefixFree fun b => put (f b) := by
  intro a b p q r s ha hb heq
  obtain ⟨hab, hrest⟩ := h ha hb heq
  exact ⟨hf hab, hrest⟩

theorem PrefixFree.of_width {put : α → List A} (width : Nat) (hwidth : ∀ a, (put a).length = width)
    (hput : put.Injective) : PrefixFree fun a => some (put a) := by
  intro a b p q r s ha hb heq
  rw [← Option.some.inj ha, ← Option.some.inj hb] at heq
  obtain ⟨hword, hrest⟩ := List.append_inj heq ((hwidth a).trans (hwidth b).symm)
  exact ⟨hput hword, hrest⟩

theorem PrefixFree.of_terminator {put : α → List A} {last : A} (hlast : ∀ a, last ∉ put a) (hput : put.Injective) :
    PrefixFree fun a => some (put a ++ [last]) := by
  have hsplit : ∀ u v r s : List A, last ∉ u → last ∉ v → u ++ last :: r = v ++ last :: s → u = v ∧ r = s := by
    intro u
    induction u with
    | nil =>
      intro v r s _ hv h
      cases v with
      | nil => exact ⟨rfl, (List.cons.inj h).2⟩
      | cons b v =>
        have hb : last = b := (List.cons.inj h).1
        exact absurd (hb ▸ List.mem_cons_self) hv
    | cons a u ih =>
      intro v r s hu hv h
      cases v with
      | nil =>
        have ha : a = last := (List.cons.inj h).1
        exact absurd (ha ▸ List.mem_cons_self) hu
      | cons b v =>
        obtain ⟨hab, htail⟩ := List.cons.inj h
        obtain ⟨huv, hrest⟩ := ih v r s (fun hm => hu (List.mem_cons_of_mem a hm))
          (fun hm => hv (List.mem_cons_of_mem b hm)) htail
        exact ⟨by rw [hab, huv], hrest⟩
  intro a b p q r s ha hb heq
  rw [← Option.some.inj ha, ← Option.some.inj hb, List.append_assoc, List.append_assoc] at heq
  obtain ⟨hword, hrest⟩ := hsplit _ _ _ _ (hlast a) (hlast b) heq
  exact ⟨hput hword, hrest⟩

theorem PrefixFree.framed {size : Nat → Option (List A)} (h : PrefixFree size) :
    PrefixFree fun value : List A => (size value.length).map (· ++ value) := by
  intro a b p q r s ha hb heq
  obtain ⟨m, hm, rfl⟩ := Option.map_eq_some_iff.mp ha
  obtain ⟨n, hn, rfl⟩ := Option.map_eq_some_iff.mp hb
  rw [List.append_assoc, List.append_assoc] at heq
  obtain ⟨hlength, htail⟩ := h hm hn heq
  exact List.append_inj htail hlength

/-! ## Messages -/

theorem PrefixFree.head {put : α → Option (List A)} (h : PrefixFree put) {a b : α} {xs ys : List (Option (List A))}
    {bytes : List A} (ha : message (put a :: xs) = some bytes) (hb : message (put b :: ys) = some bytes) :
    a = b ∧ ∃ rest, message xs = some rest ∧ message ys = some rest := by
  obtain ⟨p, r, hp, hr, hleft⟩ := message_cons.mp ha
  obtain ⟨q, s, hq, hs, hright⟩ := message_cons.mp hb
  obtain ⟨hab, hrs⟩ := h hp hq (hleft.symm.trans hright)
  exact ⟨hab, r, hr, hrs ▸ hs⟩

end Encoding
