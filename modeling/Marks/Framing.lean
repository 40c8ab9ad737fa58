import Mathlib.Data.List.Basic
import Marks.Results

/-! # Frames of a stream

A reader that gets a stream in chunks buffers what it has, and takes the frames off the buffer as their separators
come. Where a boundary does not move when more is read, and no frame outgrows the buffer, the cuts between the
chunks do not matter. -/

namespace Framing

variable {α σ ε : Type}

/-- Where the first frame of a buffer ends, and how long its separator is, do not depend on what is behind it. -/
structure Lawful (boundary : List α → Option (Nat × Nat)) : Prop where
  separated : ∀ {buffer stop size}, boundary buffer = some (stop, size) → 0 < size
  cut : ∀ {buffer stop size} (more : List α), boundary buffer = some (stop, size) ↔
    boundary (buffer ++ more) = some (stop, size) ∧ stop + size ≤ buffer.length

section
variable (boundary : List α → Option (Nat × Nat)) (process : σ → List α → Except ε σ)

/-- Every frame of the buffer is processed; each takes some of it away, so as many rounds as it is long are enough. -/
def drain : Nat → σ → List α → Except ε (σ × List α)
  | 0, s, buffer => .ok (s, buffer)
  | rounds + 1, s, buffer =>
    match boundary buffer with
    | none => .ok (s, buffer)
    | some (stop, size) => process s (buffer.take stop) >>= fun s => drain rounds s (buffer.drop (stop + size))

def drained (s : σ) (buffer : List α) : Except ε (σ × List α) := drain boundary process buffer.length s buffer

/-- A chunk is read, unless the buffer grows too long without a boundary. -/
def receive (longest : Nat) (overlong : σ → ε) (state : σ × List α) (chunk : List α) : Except ε (σ × List α) :=
  let buffer := state.2 ++ chunk
  if longest < buffer.length ∧ (boundary buffer).isNone then .error (overlong state.1)
  else drained boundary process state.1 buffer

/-- No frame, with its separator up to the last element of it, is longer than the buffer may be. -/
inductive Short (longest : Nat) : List α → Prop
  | rest {stream : List α} (hnone : boundary stream = none) (hshort : stream.length ≤ longest) : Short longest stream
  | frame {stream : List α} {stop size : Nat} (hcut : boundary stream = some (stop, size))
      (hshort : stop + size ≤ longest + 1) (hrest : Short longest (stream.drop (stop + size))) : Short longest stream

end

variable {boundary : List α → Option (Nat × Nat)} {process : σ → List α → Except ε σ} {s : σ}
  {buffer more : List α} {rounds : Nat}

theorem drained_none (hnone : boundary buffer = none) : drained boundary process s buffer = .ok (s, buffer) := by
  unfold drained
  cases buffer.length with
  | zero => rfl
  | succ n =>
    unfold drain
    rw [hnone]

section
variable (h : Lawful boundary)
include h

theorem Lawful.shorter {stop size : Nat} (hcut : boundary buffer = some (stop, size)) :
    (buffer.drop (stop + size)).length < buffer.length := by
  have hpos := h.separated hcut
  have hinside := ((h.cut []).mp hcut).2
  rw [List.length_drop]
  omega

theorem drain_rounds {other : Nat} (hrounds : buffer.length ≤ rounds) (hother : buffer.length ≤ other) :
    drain boundary process rounds s buffer = drain boundary process other s buffer := by
  induction rounds generalizing s buffer other with
  | zero =>
    cases hcut : boundary buffer with
    | some cut => exact absurd (h.shorter hcut) (by omega)
    | none => cases other <;> simp only [drain, hcut]
  | succ rounds ih =>
    cases hcut : boundary buffer with
    | none => cases other <;> simp only [drain, hcut]
    | some cut =>
      have hshorter := h.shorter hcut
      cases other with
      | zero => omega
      | succ other =>
        simp only [drain, hcut]
        congr 1
        funext s
        exact ih (by omega) (by omega)

theorem drained_cut {stop size : Nat} (hcut : boundary buffer = some (stop, size)) :
    drained boundary process s buffer =
      process s (buffer.take stop) >>= fun s => drained boundary process s (buffer.drop (stop + size)) := by
  have hshorter := h.shorter hcut
  obtain ⟨n, hn⟩ : ∃ n, buffer.length = n + 1 := ⟨buffer.length - 1, by omega⟩
  unfold drained
  rw [hn]
  simp only [drain, hcut]
  congr 1
  funext s
  exact drain_rounds h (by omega) (Nat.le_refl _)

/-- What is behind a buffer can wait until its frames are taken off. -/
theorem drained_append : drained boundary process s (buffer ++ more) =
    drained boundary process s buffer >>= fun state => drained boundary process state.1 (state.2 ++ more) := by
  induction hn : buffer.length using Nat.strongRecOn generalizing s buffer with
  | ind n ih =>
    cases hcut : boundary buffer with
    | none =>
      rw [drained_none hcut]
      rfl
    | some cut =>
      obtain ⟨stop, size⟩ := cut
      obtain ⟨hmore, hinside⟩ := (h.cut more).mp hcut
      rw [drained_cut h hmore, drained_cut h hcut, bind_assoc, List.take_append_of_le_length (by omega),
        List.drop_append_of_le_length hinside]
      congr 1
      funext s
      exact ih _ (hn ▸ h.shorter hcut) rfl

variable {longest : Nat}

theorem Short.fits (hshort : Short boundary longest (buffer ++ more)) (hnone : boundary buffer = none) :
    buffer.length ≤ longest := by
  cases hshort with
  | rest _ hlength =>
    rw [List.length_append] at hlength
    omega
  | @frame _ stop size hcut hlength =>
    by_contra hlong
    rw [(h.cut more).mpr ⟨hcut, by omega⟩] at hnone
    cases hnone

theorem Short.drained {s' : σ} {rest : List α} (hshort : Short boundary longest (buffer ++ more))
    (hdrained : drained boundary process s buffer = .ok (s', rest)) :
    boundary rest = none ∧ Short boundary longest (rest ++ more) := by
  induction hn : buffer.length using Nat.strongRecOn generalizing s buffer with
  | ind n ih =>
    cases hcut : boundary buffer with
    | none =>
      rw [drained_none hcut] at hdrained
      cases hdrained
      exact ⟨hcut, hshort⟩
    | some cut =>
      obtain ⟨stop, size⟩ := cut
      obtain ⟨hmore, hinside⟩ := (h.cut more).mp hcut
      rw [drained_cut h hcut] at hdrained
      obtain ⟨s₁, -, hrest⟩ := Marks.bind_ok hdrained
      refine ih _ (hn ▸ h.shorter hcut) ?_ hrest rfl
      cases hshort with
      | rest hnone =>
        rw [hmore] at hnone
        cases hnone
      | frame hother _ hshort =>
        cases hmore.symm.trans hother
        rwa [List.drop_append_of_le_length hinside] at hshort

/-- However a stream is cut into chunks, what is left after the last one is what is left of it as a whole. -/
theorem receive_all {overlong : σ → ε} {chunks : List (List α)} (hnone : boundary buffer = none)
    (hshort : Short boundary longest (buffer ++ chunks.flatten)) :
    chunks.foldlM (receive boundary process longest overlong) (s, buffer) =
      Framing.drained boundary process s (buffer ++ chunks.flatten) := by
  induction chunks generalizing s buffer with
  | nil => rw [List.flatten_nil, List.append_nil, drained_none hnone, List.foldlM_nil]; rfl
  | cons chunk chunks ih =>
    rw [List.flatten_cons, ← List.append_assoc] at hshort ⊢
    have hfits : ¬ (longest < (buffer ++ chunk).length ∧ (boundary (buffer ++ chunk)).isNone) := by
      rintro ⟨hlong, hnone⟩
      exact absurd (hshort.fits h (Option.isNone_iff_eq_none.mp hnone)) (by omega)
    rw [List.foldlM_cons, drained_append h]
    unfold receive
    rw [if_neg hfits]
    cases hdrained : Framing.drained boundary process s (buffer ++ chunk) with
    | error _ => rfl
    | ok state =>
      obtain ⟨hrest, hleft⟩ := hshort.drained h hdrained
      exact ih hrest hleft

end

end Framing
