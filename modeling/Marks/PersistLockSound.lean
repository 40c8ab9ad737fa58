import Marks.PersistLock

/-! # Exclusion under the persist lock

Whoever has come to its turn in the chain has only settled requests before it. Work is called at its turn or under
the Web Lock after it, and settles before the request does; so no two works run at once, and they are called in the
order of their requests. -/

namespace Marks

open List

namespace PersistPhase

def entered : PersistPhase → Bool
  | .called => false
  | .lapsed => false
  | _ => true

def turned (phase : PersistPhase) : Bool := phase.entered && phase != .queued

def begun : PersistPhase → Bool
  | .running _ => true
  | .releasing => true
  | .settled => true
  | _ => false

end PersistPhase

namespace PersistLane

variable {lane : PersistLane}

def Is (lane : PersistLane) (p : PersistPhase → Bool) (i : Nat) : Prop :=
  ∃ phase, lane.phase i = some phase ∧ p phase = true

variable {i : Nat}

theorem Is.of {p : PersistPhase → Bool} {phase : PersistPhase} (h : lane.phase i = some phase)
    (hp : p phase = true) : lane.Is p i := ⟨phase, h, hp⟩

theorem Is.phase {p : PersistPhase → Bool} (h : lane.Is p i) {phase : PersistPhase}
    (hphase : lane.phase i = some phase) : p phase = true := by
  obtain ⟨other, hother, hp⟩ := h
  rw [hphase] at hother
  rw [Option.some.inj hother]
  exact hp

theorem turned_entered {phase : PersistPhase} (h : phase.turned = true) : phase.entered = true := by
  unfold PersistPhase.turned at h
  rw [Bool.and_eq_true] at h
  exact h.1

theorem begun_turned {phase : PersistPhase} (h : phase.begun = true) : phase.turned = true := by
  cases phase <;> first | rfl | cases h

/-! ## What a change of one request leaves -/

variable {old : PersistPhase}

theorem phase_setPhase (h : lane.phase i = some old) (phase : PersistPhase) (j : Nat) :
    (lane.setPhase i phase).phase j = if j = i then some phase else lane.phase j := by
  unfold PersistLane.phase setPhase at *
  rw [getElem?_modify]
  by_cases hj : i = j
  · rw [if_pos hj.symm]
    rw [← hj]
    obtain ⟨request, hrequest, -⟩ := Option.map_eq_some_iff.mp h
    rw [hrequest]
    simp
  · rw [if_neg (Ne.symm hj)]
    simp [hj]

theorem prev_setPhase (i : Nat) (phase : PersistPhase) (j : Nat) : (lane.setPhase i phase).prev j = lane.prev j := by
  unfold PersistLane.prev setPhase
  rw [getElem?_modify]
  by_cases hj : i = j
  · rw [hj]
    cases lane.requests[j]? <;> simp
  · simp [hj]

theorem phase_join (h : lane.phase i = some old) (j : Nat) :
    (lane.join i).phase j = if j = i then some .queued else lane.phase j := by
  unfold PersistLane.phase join at *
  obtain ⟨request, hrequest, -⟩ := Option.map_eq_some_iff.mp h
  rw [getElem?_modify]
  by_cases hj : j = i
  · simp [hj, hrequest]
  · simp [hj, Ne.symm hj]

theorem prev_join (h : lane.phase i = some old) (j : Nat) :
    (lane.join i).prev j = if j = i then lane.tail else lane.prev j := by
  unfold PersistLane.phase at h
  unfold PersistLane.prev join
  obtain ⟨request, hrequest, -⟩ := Option.map_eq_some_iff.mp h
  rw [getElem?_modify]
  by_cases hj : j = i
  · simp [hj, hrequest]
  · simp [hj, Ne.symm hj]

theorem phase_abort (i j : Nat) : (lane.abort i).phase j = lane.phase j := by
  unfold PersistLane.phase abort
  rw [getElem?_modify]
  by_cases hj : i = j <;> cases lane.requests[j]? <;> simp [hj]

theorem prev_abort (i j : Nat) : (lane.abort i).prev j = lane.prev j := by
  unfold PersistLane.prev abort
  rw [getElem?_modify]
  by_cases hj : i = j <;> cases lane.requests[j]? <;> simp [hj]

/-! ## The chain -/

structure Chain (lane : PersistLane) : Prop where
  fifo : ∀ i j, i < j → lane.Is (·.entered) j → lane.phase i ≠ some .called
  before : ∀ i j, i < j → lane.Is (·.turned) j → lane.Is (·.entered) i → lane.phase i = some .settled
  link : ∀ i j, i < j → lane.Is (·.entered) j → lane.Is (·.entered) i →
    lane.phase i = some .settled ∨ ∃ p, lane.prev j = some p ∧ i ≤ p
  prev : ∀ j p, lane.prev j = some p → lane.Is (·.entered) p
  tail : ∀ i, lane.Is (·.entered) i → lane.phase i = some .settled ∨ ∃ p, lane.tail = some p ∧ i ≤ p
  known : ∀ p, lane.tail = some p → lane.Is (·.entered) p
  started : ∀ i ∈ lane.started, lane.Is (·.begun) i
  sorted : lane.started.Pairwise (· < ·)

theorem empty_chain : Chain empty where
  fifo := fun _ _ _ h => by
    obtain ⟨_, hphase, -⟩ := h
    cases hphase
  before := fun _ _ _ h => by
    obtain ⟨_, hphase, -⟩ := h
    cases hphase
  link := fun _ _ _ h => by
    obtain ⟨_, hphase, -⟩ := h
    cases hphase
  prev := fun _ _ h => by cases h
  tail := fun _ h => by
    obtain ⟨_, hphase, -⟩ := h
    cases hphase
  known := fun _ h => by cases h
  started := fun _ h => by cases h
  sorted := List.Pairwise.nil

variable {j : Nat}

theorem Chain.at_turn (h : Chain lane) (hqueued : lane.phase j = some .queued)
    (hprev : (lane.prev j).all (fun p => lane.phase p == some .settled) = true) :
    ∀ i, i < j → lane.Is (·.entered) i → lane.phase i = some .settled := by
  intro i hi hentered
  rcases h.link i j hi (.of hqueued rfl) hentered with hsettled | ⟨p, hp, hle⟩
  · exact hsettled
  rw [hp, Option.all_some, beq_iff_eq] at hprev
  rcases Nat.lt_or_eq_of_le hle with hlt | heq
  · exact h.before i p hlt (.of hprev rfl) hentered
  · rw [heq]
    exact hprev

theorem Chain.move (h : Chain lane) {phase : PersistPhase} (hold : lane.phase j = some old)
    (hentered : old.entered = true) (hunsettled : old ≠ .settled) (hturned : phase.turned = true)
    (hbegun : old.begun = true → phase.begun = true)
    (hbefore : ∀ i, i < j → lane.Is (·.entered) i → lane.phase i = some .settled) :
    Chain (lane.setPhase j phase) := by
  have hphase := phase_setPhase hold phase
  have hprev : ∀ i, (lane.setPhase j phase).prev i = lane.prev i := prev_setPhase j phase
  -- whoever has entered had entered, and whoever has settled stays so
  have hback : ∀ i, (lane.setPhase j phase).Is (·.entered) i → lane.Is (·.entered) i := by
    intro i hi
    obtain ⟨found, hfound, hin⟩ := hi
    rw [hphase] at hfound
    split at hfound
    · next heq => exact heq ▸ .of hold hentered
    · exact .of hfound hin
  have hforth : ∀ i, lane.Is (·.entered) i → (lane.setPhase j phase).Is (·.entered) i := by
    intro i hi
    obtain ⟨found, hfound, hin⟩ := hi
    by_cases heq : i = j
    · exact .of ((hphase i).trans (if_pos heq)) (turned_entered hturned)
    · exact .of ((hphase i).trans ((if_neg heq).trans hfound)) hin
  have hkept : ∀ i, lane.phase i = some .settled → (lane.setPhase j phase).phase i = some .settled := by
    intro i hi
    rw [hphase, if_neg]
    · exact hi
    · intro heq
      rw [heq, hold] at hi
      exact hunsettled (Option.some.inj hi)
  refine ⟨fun i k hik hk => ?_, fun i k hik hk hi => ?_, fun i k hik hk hi => ?_, fun k p hp => ?_, fun i hi => ?_,
    fun p hp => hforth p (h.known p hp), fun i hi => ?_, h.sorted⟩
  · intro hcalled
    rw [hphase] at hcalled
    split at hcalled
    · rw [Option.some.inj hcalled] at hturned
      cases hturned
    · exact h.fifo i k hik (hback k hk) hcalled
  · by_cases hkj : k = j
    · exact hkept i (hbefore i (hkj ▸ hik) (hback i hi))
    · obtain ⟨found, hfound, hin⟩ := hk
      rw [hphase, if_neg hkj] at hfound
      exact hkept i (h.before i k hik (.of hfound hin) (hback i hi))
  · rcases h.link i k hik (hback k hk) (hback i hi) with hsettled | ⟨p, hp, hle⟩
    · exact Or.inl (hkept i hsettled)
    · exact Or.inr ⟨p, (hprev k).trans hp, hle⟩
  · exact hforth p (h.prev k p ((hprev k).symm.trans hp))
  · rcases h.tail i (hback i hi) with hsettled | htail
    · exact Or.inl (hkept i hsettled)
    · exact Or.inr htail
  · obtain ⟨found, hfound, hin⟩ := h.started i hi
    by_cases heq : i = j
    · rw [heq, hold] at hfound
      rw [← Option.some.inj hfound] at hin
      exact .of ((hphase i).trans (if_pos heq)) (hbegun hin)
    · exact .of ((hphase i).trans ((if_neg heq).trans hfound)) hin

theorem Chain.start (h : Chain lane) (hold : lane.phase j = some old)
    (hentered : old.entered = true) (hnot : old.begun = false)
    (hbefore : ∀ i, i < j → lane.Is (·.entered) i → lane.phase i = some .settled) (locked : Bool) :
    Chain (lane.start j locked) := by
  have hunsettled : old ≠ .settled := by
    intro heq
    rw [heq] at hnot
    cases hnot
  have hfalse : old.begun = true → False := by
    intro hbegun
    rw [hnot] at hbegun
    cases hbegun
  unfold PersistLane.start
  split
  · exact h.move hold hentered hunsettled rfl (fun hbegun => (hfalse hbegun).elim) hbefore
  have hmoved : Chain (lane.setPhase j (.running locked)) :=
    h.move hold hentered hunsettled rfl (fun hbegun => (hfalse hbegun).elim) hbefore
  have hrunning : (lane.setPhase j (.running locked)).phase j = some (.running locked) := by
    rw [phase_setPhase hold, if_pos rfl]
  refine ⟨hmoved.fifo, hmoved.before, hmoved.link, hmoved.prev, hmoved.tail, hmoved.known, fun i hi => ?_, ?_⟩
  · rcases mem_append.mp hi with hi | hi
    · exact hmoved.started i hi
    · rw [mem_singleton.mp hi]
      exact .of hrunning rfl
  · refine pairwise_append.mpr ⟨h.sorted, pairwise_singleton _ _, fun k hk last hlast => ?_⟩
    rw [mem_singleton.mp hlast]
    obtain ⟨found, hfound, hbegun⟩ := h.started k hk
    rcases Nat.lt_trichotomy k j with hlt | heq | hgt
    · exact hlt
    · rw [heq, hold] at hfound
      rw [← Option.some.inj hfound] at hbegun
      exact (hfalse hbegun).elim
    · have hsettled := h.before j k hgt (.of hfound (begun_turned hbegun)) (.of hold hentered)
      rw [hold] at hsettled
      exact absurd (Option.some.inj hsettled) hunsettled

theorem Chain.congr (h : Chain lane) {other : PersistLane} (hphase : ∀ i, other.phase i = lane.phase i)
    (hprev : ∀ i, other.prev i = lane.prev i) (htail : other.tail = lane.tail)
    (hstarted : other.started = lane.started) : Chain other := by
  have his : ∀ p i, other.Is p i ↔ lane.Is p i := by
    intro p i
    unfold Is
    rw [hphase]
  refine ⟨fun i j hij hj => ?_, fun i j hij hj hi => ?_, fun i j hij hj hi => ?_, fun j p hp => ?_, fun i hi => ?_,
    fun p hp => ?_, fun i hi => ?_, ?_⟩
  · rw [hphase]
    exact h.fifo i j hij ((his _ j).mp hj)
  · rw [hphase]
    exact h.before i j hij ((his _ j).mp hj) ((his _ i).mp hi)
  · rw [hphase, hprev]
    exact h.link i j hij ((his _ j).mp hj) ((his _ i).mp hi)
  · rw [hprev] at hp
    exact (his _ p).mpr (h.prev j p hp)
  · rw [hphase, htail]
    exact h.tail i ((his _ i).mp hi)
  · rw [htail] at hp
    exact (his _ p).mpr (h.known p hp)
  · rw [hstarted] at hi
    exact (his _ i).mpr (h.started i hi)
  · rw [hstarted]
    exact h.sorted

/-! ## Every event keeps the chain -/

theorem phase_append (r : PersistRequest) (i : Nat) (found : PersistPhase)
    (h : ({ lane with requests := lane.requests ++ [r] } : PersistLane).phase i = some found) :
    lane.phase i = some found ∨ i = lane.requests.length ∧ found = r.phase := by
  unfold PersistLane.phase at *
  rcases Nat.lt_trichotomy i lane.requests.length with hlt | heq | hgt
  · rw [getElem?_append_left hlt] at h
    exact Or.inl h
  · subst heq
    rw [getElem?_concat_length, Option.map_some] at h
    exact Or.inr ⟨rfl, (Option.some.inj h).symm⟩
  · rw [getElem?_eq_none (by simp; omega)] at h
    cases h

theorem phase_lt {found : PersistPhase} (h : lane.phase i = some found) : i < lane.requests.length := by
  obtain ⟨r, hr, -⟩ := Option.map_eq_some_iff.mp h
  exact (List.getElem?_eq_some_iff.mp hr).1

section

variable (h : Chain lane)
include h

theorem Chain.call (lapsed : Bool) : Chain (lane.call lapsed) := by
  unfold PersistLane.call
  split
  · exact h
  have hback : ∀ p : PersistPhase → Bool, p .called = false → p .lapsed = false → ∀ i,
      PersistLane.Is { lane with requests := lane.requests ++ [⟨if lapsed then .lapsed else .called, none, false⟩] } p i →
        lane.Is p i := by
    intro p hcalled hlapsed i hi
    obtain ⟨found, hfound, hp⟩ := hi
    rcases phase_append _ i found hfound with hold | ⟨-, hnew⟩
    · exact .of hold hp
    rw [hnew] at hp
    cases lapsed
    · cases hcalled.symm.trans hp
    · cases hlapsed.symm.trans hp
  have hforth : ∀ i found, lane.phase i = some found →
      PersistLane.phase { lane with requests := lane.requests ++ [⟨if lapsed then .lapsed else .called, none, false⟩] } i =
        some found := by
    intro i found hi
    have hlt := phase_lt hi
    unfold PersistLane.phase at *
    rw [getElem?_append_left hlt]
    exact hi
  have hentered := hback (·.entered) rfl rfl
  refine ⟨fun i j hij hj => ?_, fun i j hij hj hi => ?_, fun i j hij hj hi => ?_, fun j p hp => ?_, fun i hi => ?_,
    fun p hp => ?_, fun i hi => ?_, h.sorted⟩
  · intro hi
    have hold := hentered j hj
    obtain ⟨_, hphase, -⟩ := id hold
    have hlt := phase_lt hphase
    rcases phase_append _ i _ hi with hphase | ⟨heq, -⟩
    · exact h.fifo i j hij hold hphase
    · omega
  · exact hforth i _ (h.before i j hij (hback (·.turned) rfl rfl j hj) (hentered i hi))
  · have hlinked := h.link i j hij (hentered j hj) (hentered i hi)
    obtain ⟨_, hphase, -⟩ := hentered j hj
    have hlt := phase_lt hphase
    unfold PersistLane.prev at *
    rw [getElem?_append_left hlt]
    rcases hlinked with hsettled | hprev
    · exact Or.inl (hforth i _ hsettled)
    · exact Or.inr hprev
  · have hold : lane.prev j = some p := by
      unfold PersistLane.prev at *
      rcases Nat.lt_trichotomy j lane.requests.length with hlt | heq | hgt
      · rw [getElem?_append_left hlt] at hp
        exact hp
      · subst heq
        rw [getElem?_concat_length] at hp
        cases hp
      · rw [getElem?_eq_none (by simp; omega)] at hp
        cases hp
    obtain ⟨found, hfound, hin⟩ := h.prev j p hold
    exact .of (hforth p found hfound) hin
  · rcases h.tail i (hentered i hi) with hsettled | htail
    · exact Or.inl (hforth i _ hsettled)
    · exact Or.inr htail
  · obtain ⟨found, hfound, hin⟩ := h.known p hp
    exact .of (hforth p found hfound) hin
  · obtain ⟨found, hfound, hin⟩ := h.started i hi
    exact .of (hforth i found hfound) hin

theorem Chain.enter (j : Nat) : Chain (lane.enter j) := by
  unfold PersistLane.enter
  split
  case isFalse => exact h
  case isTrue hguard =>
    obtain ⟨hcalled, hfirst⟩ := hguard
    have hearlier : ∀ i, i < j → lane.phase i ≠ some .called := by
      intro i hi
      exact bne_iff_ne.mp (all_eq_true.mp hfirst i (mem_range.mpr hi))
    have hlater : ∀ i, lane.Is (·.entered) i → i < j := by
      intro i hi
      rcases Nat.lt_trichotomy i j with hlt | heq | hgt
      · exact hlt
      · rw [heq] at hi
        cases hi.phase hcalled
      · exact absurd hcalled (h.fifo j i hgt hi)
    have hphase := phase_join hcalled
    have hprev := prev_join hcalled
    have hback : ∀ i, i ≠ j → ∀ p, (lane.join j).Is p i → lane.Is p i := by
      intro i hij p hi
      obtain ⟨found, hfound, hp⟩ := hi
      exact .of ((if_neg hij).symm.trans ((hphase i).symm.trans hfound)) hp
    have hforth : ∀ i, i ≠ j → ∀ p, lane.Is p i → (lane.join j).Is p i := by
      intro i hij p hi
      obtain ⟨found, hfound, hp⟩ := hi
      exact .of ((hphase i).trans ((if_neg hij).trans hfound)) hp
    have hkept : ∀ i, lane.phase i = some .settled → (lane.join j).phase i = some .settled := by
      intro i hi
      rw [hphase, if_neg]
      · exact hi
      · intro heq
        rw [heq, hcalled] at hi
        cases hi
    have hqueued : (lane.join j).phase j = some .queued := (hphase j).trans (if_pos rfl)
    have hbound : ∀ i, (lane.join j).Is (·.entered) i → i ≤ j := by
      intro i hi
      by_cases hij : i = j
      · exact Nat.le_of_eq hij
      · exact Nat.le_of_lt (hlater i (hback i hij _ hi))
    refine ⟨fun i k hik hk => ?_, fun i k hik hk hi => ?_, fun i k hik hk hi => ?_, fun k p hp => ?_, fun i hi => ?_,
      fun p hp => ?_, fun i hi => ?_, h.sorted⟩
    · have hle := hbound k hk
      rw [hphase, if_neg (by omega)]
      exact hearlier i (by omega)
    · by_cases hkj : k = j
      · rw [hkj] at hk
        cases hk.phase hqueued
      have hold := hback k hkj _ hk
      have hle := hlater k (by
        obtain ⟨found, hfound, hin⟩ := hold
        exact .of hfound (turned_entered hin))
      exact hkept i (h.before i k hik hold (hback i (by omega) _ hi))
    · have hle := hbound k hk
      have hentered := hback i (by omega) _ hi
      rw [hprev]
      by_cases hkj : k = j
      · rw [if_pos hkj]
        rcases h.tail i hentered with hsettled | htail
        · exact Or.inl (hkept i hsettled)
        · exact Or.inr htail
      · rw [if_neg hkj]
        rcases h.link i k hik (hback k hkj _ hk) hentered with hsettled | hlink
        · exact Or.inl (hkept i hsettled)
        · exact Or.inr hlink
    · have hentered : lane.Is (·.entered) p := by
        rw [hprev] at hp
        split at hp
        · exact h.known p hp
        · exact h.prev k p hp
      exact hforth p (Nat.ne_of_lt (hlater p hentered)) _ hentered
    · exact Or.inr ⟨j, rfl, hbound i hi⟩
    · cases hp
      exact .of hqueued rfl
    · have hbegun := h.started i hi
      refine hforth i (fun heq => ?_) _ hbegun
      rw [heq] at hbegun
      cases hbegun.phase hcalled

theorem Chain.cleanup (j : Nat) : Chain (lane.cleanup j) := by
  unfold PersistLane.cleanup
  split
  case isFalse => exact h
  case isTrue hguard =>
    obtain ⟨htail, hsettled⟩ := hguard
    refine ⟨h.fifo, h.before, h.link, h.prev, fun i hi => Or.inl ?_, fun p hp => (by cases hp), h.started, h.sorted⟩
    have hentered : lane.Is (·.entered) i := hi
    show lane.phase i = some .settled
    rcases h.tail i hentered with hdone | ⟨p, hp, hle⟩
    · exact hdone
    rw [htail] at hp
    rw [← Option.some.inj hp] at hle
    rcases Nat.lt_or_eq_of_le hle with hlt | heq
    · exact h.before i j hlt (.of hsettled rfl) hentered
    · rw [heq]
      exact hsettled

theorem Chain.turn (j : Nat) (webLocks : Bool) : Chain (lane.turn j webLocks) := by
  unfold PersistLane.turn
  split
  case isFalse => exact h
  case isTrue hguard =>
    obtain ⟨hqueued, hprev⟩ := hguard
    have hbefore := h.at_turn hqueued hprev
    have hnot : PersistPhase.queued ≠ .settled := by
      intro heq
      cases heq
    split
    · split
      · exact h.move hqueued rfl hnot rfl (fun hbegun => by cases hbegun) hbefore
      · exact h.move hqueued rfl hnot rfl (fun hbegun => by cases hbegun) hbefore
    · exact h.start hqueued rfl rfl hbefore false

theorem Chain.advance {j : Nat} {old phase : PersistPhase} (hold : lane.phase j = some old)
    (hturned : old.turned = true) (hunsettled : old ≠ .settled) (hnext : phase.turned = true)
    (hbegun : old.begun = true → phase.begun = true) : Chain (lane.setPhase j phase) :=
  h.move hold (turned_entered hturned) hunsettled hnext hbegun fun i hi => h.before i j hi (.of hold hturned)

theorem Chain.grant (j : Nat) : Chain (lane.grant j) := by
  unfold PersistLane.grant
  split
  case isFalse => exact h
  case isTrue hlocking => exact h.start hlocking rfl rfl (fun i hi => h.before i j hi (.of hlocking rfl)) true

theorem Chain.refuse (j : Nat) : Chain (lane.refuse j) := by
  unfold PersistLane.refuse
  split
  case isFalse => exact h
  case isTrue hlocking =>
    exact h.advance hlocking rfl (fun heq => by cases heq) rfl fun hbegun => by cases hbegun

theorem Chain.settle (j : Nat) : Chain (lane.settle j) := by
  unfold PersistLane.settle
  split
  case h_1 hrunning => exact h.advance hrunning rfl (fun heq => by cases heq) rfl fun _ => rfl
  case h_2 hrunning => exact h.advance hrunning rfl (fun heq => by cases heq) rfl fun _ => rfl
  case h_3 => exact h

theorem Chain.release (j : Nat) : Chain (lane.release j) := by
  unfold PersistLane.release
  split
  case isFalse => exact h
  case isTrue hreleasing => exact h.advance hreleasing rfl (fun heq => by cases heq) rfl fun _ => rfl

theorem Chain.expire (j : Nat) : Chain (lane.expire j) := by
  unfold PersistLane.expire
  split
  · exact h
  · exact h
  · exact h
  · exact h.congr (phase_abort j) (prev_abort j) rfl rfl

theorem Chain.poison (j : Nat) : Chain (lane.poison j) := by
  unfold PersistLane.poison
  split
  · exact h.congr (fun _ => rfl) (fun _ => rfl) rfl rfl
  · exact h

theorem Chain.step (e : PersistEvent) : Chain (lane.step e) := by
  cases e with
  | call lapsed => exact h.call lapsed
  | poison request => exact h.poison request
  | enter request => exact h.enter request
  | cleanup request => exact h.cleanup request
  | turn request webLocks => exact h.turn request webLocks
  | grant request => exact h.grant request
  | refuse request => exact h.refuse request
  | settle request => exact h.settle request
  | release request => exact h.release request
  | expire request => exact h.expire request

theorem Chain.exclusive (hi : lane.Running i) (hj : lane.Running j) : i = j := by
  obtain ⟨li, hi⟩ := hi
  obtain ⟨lj, hj⟩ := hj
  rcases Nat.lt_trichotomy i j with hlt | heq | hgt
  · have hsettled := h.before i j hlt (.of hj rfl) (.of hi rfl)
    rw [hi] at hsettled
    cases hsettled
  · exact heq
  · have hsettled := h.before j i hgt (.of hi rfl) (.of hj rfl)
    rw [hj] at hsettled
    cases hsettled

end

/-! ## A poisoned name -/

theorem start_poisoned (h : lane.poisoned = true) (i : Nat) (locked : Bool) :
    (lane.start i locked).poisoned = true ∧ (lane.start i locked).started = lane.started := by
  unfold PersistLane.start
  rw [if_pos (Or.inl h)]
  exact ⟨h, rfl⟩

theorem step_poisoned (h : lane.poisoned = true) (e : PersistEvent) :
    (lane.step e).poisoned = true ∧ (lane.step e).started = lane.started := by
  cases e with
  | call lapsed =>
    show (lane.call lapsed).poisoned = true ∧ (lane.call lapsed).started = lane.started
    unfold PersistLane.call
    rw [if_pos h]
    exact ⟨h, rfl⟩
  | poison request =>
    show (lane.poison request).poisoned = true ∧ (lane.poison request).started = lane.started
    unfold PersistLane.poison
    split <;> exact ⟨by simp [h], rfl⟩
  | enter request =>
    show (lane.enter request).poisoned = true ∧ (lane.enter request).started = lane.started
    unfold PersistLane.enter
    split <;> exact ⟨h, rfl⟩
  | cleanup request =>
    show (lane.cleanup request).poisoned = true ∧ (lane.cleanup request).started = lane.started
    unfold PersistLane.cleanup
    split <;> exact ⟨h, rfl⟩
  | turn request webLocks =>
    show (lane.turn request webLocks).poisoned = true ∧ (lane.turn request webLocks).started = lane.started
    unfold PersistLane.turn
    split
    · split
      · rw [if_pos (Or.inl h)]
        exact ⟨h, rfl⟩
      · exact start_poisoned h request false
    · exact ⟨h, rfl⟩
  | grant request =>
    show (lane.grant request).poisoned = true ∧ (lane.grant request).started = lane.started
    unfold PersistLane.grant
    split
    · exact start_poisoned h request true
    · exact ⟨h, rfl⟩
  | refuse request =>
    show (lane.refuse request).poisoned = true ∧ (lane.refuse request).started = lane.started
    unfold PersistLane.refuse
    split <;> exact ⟨h, rfl⟩
  | settle request =>
    show (lane.settle request).poisoned = true ∧ (lane.settle request).started = lane.started
    unfold PersistLane.settle
    split <;> exact ⟨h, rfl⟩
  | release request =>
    show (lane.release request).poisoned = true ∧ (lane.release request).started = lane.started
    unfold PersistLane.release
    split <;> exact ⟨h, rfl⟩
  | expire request =>
    show (lane.expire request).poisoned = true ∧ (lane.expire request).started = lane.started
    unfold PersistLane.expire
    split
    · exact ⟨h, rfl⟩
    · exact ⟨h, rfl⟩
    · exact ⟨h, rfl⟩
    · exact ⟨rfl, rfl⟩

theorem expire_running (h : lane.Running i) :
    (lane.expire i).poisoned = true ∧ (lane.expire i).started = lane.started := by
  obtain ⟨locked, hphase⟩ := h
  unfold PersistLane.expire
  rw [hphase]
  exact ⟨rfl, rfl⟩

end PersistLane

/-! ## Runs over all names -/

namespace PersistLocks

variable {Name : Type} [DecidableEq Name]

theorem step_at (locks : PersistLocks Name) (e : Name × PersistEvent) (name : Name) :
    locks.step e name = if e.1 = name then (locks name).step e.2 else locks name := by
  unfold PersistLocks.step
  by_cases h : e.1 = name
  · rw [if_pos h, ← h, Function.update_self]
  · rw [if_neg h, Function.update_of_ne (Ne.symm h)]

theorem after_chain (events : List (Name × PersistEvent)) (name : Name) :
    PersistLane.Chain (after events name) := by
  have hkept : Transition.Kept (@step Name _) (fun _ _ => True) (fun locks => (locks name).Chain) := by
    intro locks e h _
    show (locks.step e name).Chain
    rw [step_at]
    split
    · exact h.step e.2
    · exact h
  exact Transition.run_inv hkept PersistLane.empty_chain (Transition.along_of fun _ _ => trivial)

theorem run_poisoned (locks : PersistLocks Name) (events : List (Name × PersistEvent)) (name : Name)
    (h : (locks name).poisoned = true) :
    (Transition.run step locks events name).started = (locks name).started := by
  have hkept : Transition.Kept (@step Name _) (fun _ _ => True) fun other =>
      (other name).poisoned = true ∧ (other name).started = (locks name).started := by
    intro other e hother _
    show (other.step e name).poisoned = true ∧ (other.step e name).started = (locks name).started
    rw [step_at]
    split
    · have hstep := PersistLane.step_poisoned hother.1 e.2
      exact ⟨hstep.1, hstep.2.trans hother.2⟩
    · exact hother
  exact (Transition.run_inv hkept ⟨h, rfl⟩ (Transition.along_of fun _ _ => trivial)).2

/-- One work of a name runs at a time, works are called in the order of their requests, and none is called after the
time of a running one is up. -/
theorem persist_lock_exclusive (events : List (Name × PersistEvent)) (name : Name) :
    (∀ i j, (after events name).Running i → (after events name).Running j → i = j) ∧
      (after events name).started.Pairwise (· < ·) ∧
      ∀ before later i, events = before ++ (name, .expire i) :: later → (after before name).Running i →
        (after events name).started = (after before name).started := by
  refine ⟨fun i j => (after_chain events name).exclusive, (after_chain events name).sorted,
    fun before later i hevents hrunning => ?_⟩
  obtain ⟨hpoisoned, hstarted⟩ := PersistLane.expire_running hrunning
  have hstep : (after before).step (name, .expire i) name = ((after before) name).expire i := by
    rw [step_at, if_pos rfl]
    rfl
  rw [hevents]
  unfold after at *
  rw [Transition.run_append]
  refine (run_poisoned _ later name ?_).trans ?_
  · rw [hstep]
    exact hpoisoned
  · rw [hstep]
    exact hstarted

end PersistLocks

end Marks
