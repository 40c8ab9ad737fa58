import Marks.Rotation

/-! # The overlap of a rotation

The row keeps one secret besides the current one, so a rotation that starts before another has ended drops a
secret that is still within its overlap. Where rotations of a session do not run side by side, and none
takes longer than the overlap, no secret is dropped early. -/

namespace Marks

open List

def SessionGet.pendingSince : SessionGet → Option Millis
  | .rotating now => some now
  | .rotated _ now => some now
  | _ => none

namespace Rotation

section
variable (hash : Bytes → Bytes) (s : Rotation) (sessionTtlMs : Millis)

def idle : Bool := s.requests.all fun request => request.pendingSince.isNone

def oneAtATime : RotationEvent → Bool
  | .tick now => s.requests.all fun request =>
      match request.pendingSince with
      | some since => max s.clock now < since + rotationOverlapMs
      | none => true
  | .decide request =>
    match s.requests[request]? with
    | some (.admitted now) =>
      !s.rotationDue sessionTtlMs now || (s.idle && decide (s.clock < now + rotationOverlapMs))
    | _ => true
  | _ => true

def usable : Bool := (Marks.cookieSession s.auth s.sessionId s.clock).isSome

/-- While the session is usable, a superseded secret is accepted within its overlap, and the secret last
returned is accepted. -/
def OverlapKept : Prop :=
  s.usable = true →
    (∀ entry ∈ s.superseded, s.clock < entry.2 + rotationOverlapMs →
      (s.cookieSession hash entry.1 s.clock).isSome = true) ∧
      (s.cookieSession hash s.returned s.clock).isSome = true

instance : Decidable (OverlapKept hash s) := inferInstanceAs (Decidable (_ → _))

end

/-! ## The invariant -/

variable {hash : Bytes → Bytes} {s : Rotation} {sessionTtlMs : Millis}

inductive Pending (hash : Bytes → Bytes) (s : Rotation) : SessionGet → Prop
  | rotating {now} (hr : ∀ at_, s.secrets.rotatedAtMs = some at_ → at_ + sessionRotateAfterMs ≤ now)
    (hc : s.returned = s.current) : Pending hash s (.rotating now)
  | rotated {now} (hr : s.secrets.rotatedAtMs = some now)
    (hp : s.secrets.prevSecretHash = some (hash s.returned)) : Pending hash s (.rotated s.current now)

structure Serial (hash : Bytes → Bytes) (s : Rotation) : Prop where
  current : s.secrets.secretHash = hash s.current
  rotated : ∀ at_, s.secrets.rotatedAtMs = some at_ → at_ ≤ s.clock
  latest : ∀ entry ∈ s.superseded, ∃ at_, s.secrets.rotatedAtMs = some at_ ∧ entry.2 ≤ at_
  kept : ∀ entry ∈ s.superseded, s.clock < entry.2 + rotationOverlapMs →
    s.secrets.prevSecretHash = some (hash entry.1) ∧ s.secrets.rotatedAtMs = some entry.2
  stamped : ∀ now, SessionGet.admitted now ∈ s.requests → now ≤ s.clock
  prompt : ∀ request ∈ s.requests, ∀ since, request.pendingSince = some since →
    since ≤ s.clock ∧ s.clock < since + rotationOverlapMs
  single : ∀ (i j : Nat) request request', s.requests[i]? = some request → s.requests[j]? = some request' →
    request.pendingSince.isSome = true → request'.pendingSince.isSome = true → i = j
  pending : ∀ request ∈ s.requests, request.pendingSince.isSome = true → Pending hash s request
  idle : s.idle = true → s.returned = s.current

def Serialized (hash : Bytes → Bytes) (s : Rotation) : Prop := s.unrevoked = true → Serial hash s

theorem usable_unrevoked (h : s.usable = true) : s.unrevoked = true := by
  unfold usable Marks.cookieSession at h
  unfold unrevoked
  split at h
  · simp at h
  next row hrow =>
  rw [hrow]
  split at h
  · split at h
    · next hlive => simp [hlive.2.1]
    · simp at h
  · simp at h

variable {secret : Bytes}

theorem cookieSession_current (hu : s.usable = true) (h : s.secrets.secretHash = hash secret) :
    (s.cookieSession hash secret s.clock).isSome = true := by
  unfold cookieSession
  rw [if_pos h.symm]
  exact hu

theorem cookieSession_previous {at_ : Millis} (hu : s.usable = true)
    (hp : s.secrets.prevSecretHash = some (hash secret)) (hr : s.secrets.rotatedAtMs = some at_)
    (ht : s.clock < at_ + rotationOverlapMs) : (s.cookieSession hash secret s.clock).isSome = true := by
  unfold cookieSession
  split
  · exact hu
  rw [hp, hr]
  simp only []
  rw [if_neg (by simpa using ht)]
  exact hu

theorem overlap_of_serial (h : Serial hash s) (hu : s.usable = true) :
    (∀ entry ∈ s.superseded, s.clock < entry.2 + rotationOverlapMs →
      (s.cookieSession hash entry.1 s.clock).isSome = true) ∧
      (s.cookieSession hash s.returned s.clock).isSome = true := by
  refine ⟨fun entry he ht => ?_, ?_⟩
  · obtain ⟨hp, hr⟩ := h.kept entry he ht
    exact cookieSession_previous hu hp hr ht
  by_cases hidle : s.idle = true
  · exact cookieSession_current hu ((h.idle hidle).symm ▸ h.current)
  simp only [idle, all_eq_true, not_forall] at hidle
  obtain ⟨request, hmem, hsome⟩ := hidle
  have hsome : request.pendingSince.isSome = true := by simpa [Option.isSome_iff_ne_none] using hsome
  cases h.pending request hmem hsome with
  | rotating _ hc => exact cookieSession_current hu (hc ▸ h.current)
  | rotated hr hp =>
    exact cookieSession_previous hu hp hr (h.prompt _ hmem _ rfl).2

/-! ## Steps -/

theorem loadSession_map {auth : AuthorityTables} {f : SessionRecord → SessionRecord}
    (hf : ∀ row, (f row).id = row.id) (id : SessionId) :
    ({ auth with sessions := auth.sessions.map f } : AuthorityTables).loadSession id =
      (auth.loadSession id).map f := by
  simp only [AuthorityTables.loadSession, find?_map]
  congr 2
  funext row
  simp only [Function.comp, hf]

theorem sessionDelete_revoked (now : Millis) :
    ({ s with auth := sessionDelete s.auth s.sessionId now } : Rotation).unrevoked = false := by
  have hload := @loadSession_map s.auth (fun row =>
    if row.id = s.sessionId ∧ row.revokedAtMs = none then { row with revokedAtMs := some now } else row)
    (fun row => by split <;> rfl) s.sessionId
  unfold unrevoked
  show Option.any _ ((sessionDelete s.auth s.sessionId now).loadSession s.sessionId) = false
  unfold sessionDelete
  rw [hload]
  cases hrow : s.auth.loadSession s.sessionId with
  | none => rfl
  | some row =>
    have hid : row.id = s.sessionId := by simpa using find?_some hrow
    cases hrevoked : row.revokedAtMs with
    | none => simp [hid, hrevoked]
    | some at_ => simp [hrevoked]

theorem Pending.of_eq {t : Rotation} {request : SessionGet} (h : Pending hash s request)
    (hs : t.secrets = s.secrets) (hr : t.returned = s.returned) (hc : t.current = s.current) :
    Pending hash t request := by
  cases h with
  | rotating hlater hcur => exact Pending.rotating (hs ▸ hlater) (by rw [hr, hc, hcur])
  | rotated hrot hprev =>
    rw [← hc]
    exact Pending.rotated (hs ▸ hrot) (by rw [hs, hr, hprev])

theorem tick_serial (h : Serial hash s) {now : Millis} (hc : oneAtATime s sessionTtlMs (.tick now) = true) :
    Serial hash { s with clock := max s.clock now } := by
  have hlater : s.clock ≤ max s.clock now := Nat.le_max_left _ _
  exact {
    current := h.current
    rotated := fun at_ hat => Nat.le_trans (h.rotated at_ hat) hlater
    latest := h.latest
    kept := fun entry he ht => h.kept entry he (Nat.lt_of_le_of_lt hlater ht)
    stamped := fun at_ hat => Nat.le_trans (h.stamped at_ hat) hlater
    prompt := by
      intro request hmem since hsince
      have hin := all_eq_true.mp hc request hmem
      simp only [hsince, decide_eq_true_eq] at hin
      exact ⟨Nat.le_trans (h.prompt request hmem since hsince).1 hlater, hin⟩
    single := h.single
    pending := fun request hmem hp => (h.pending request hmem hp).of_eq rfl rfl rfl
    idle := h.idle }

theorem request_serial (h : Serial hash s) :
    Serial hash { s with requests := s.requests ++ [.admitted s.clock] } := by
  have hold : ∀ request, request ∈ s.requests ++ [SessionGet.admitted s.clock] →
      request.pendingSince.isSome = true → request ∈ s.requests := by
    intro request hmem hp
    rcases mem_append.mp hmem with hmem | hmem
    · exact hmem
    · rw [mem_singleton.mp hmem] at hp
      exact absurd hp (by simp [SessionGet.pendingSince])
  have hget : ∀ (i : Nat) request, (s.requests ++ [SessionGet.admitted s.clock])[i]? = some request →
      request.pendingSince.isSome = true → s.requests[i]? = some request := by
    intro i request hi hp
    rw [getElem?_append] at hi
    split at hi
    · exact hi
    · have hmem := mem_of_getElem? hi
      rw [mem_singleton.mp hmem] at hp
      exact absurd hp (by simp [SessionGet.pendingSince])
  exact {
    current := h.current
    rotated := h.rotated
    latest := h.latest
    kept := h.kept
    stamped := by
      intro now hmem
      rcases mem_append.mp hmem with hmem | hmem
      · exact h.stamped now hmem
      · exact Nat.le_of_eq (SessionGet.admitted.inj (mem_singleton.mp hmem))
    prompt := fun request hmem since hs =>
      h.prompt request (hold request hmem (by rw [hs]; rfl)) since hs
    single := fun i j request request' hi hj hp hp' =>
      h.single i j request request' (hget i request hi hp) (hget j request' hj hp') hp hp'
    pending := fun request hmem hp => (h.pending request (hold request hmem hp) hp).of_eq rfl rfl rfl
    idle := fun hidle => h.idle (by
      simp only [Rotation.idle, all_append, Bool.and_eq_true] at hidle
      exact hidle.1) }

variable {state : SessionGet}

variable {request : Nat}

theorem setRequest_serial (h : Serial hash s)
    (hs : state.pendingSince = none) (ha : ∀ now, state ≠ .admitted now)
    (hold : ∀ q, s.requests[request]? = some q → q.pendingSince = none) :
    Serial hash (s.setRequest request state) := by
  have hmem : ∀ q, q ∈ s.requests.set request state → q.pendingSince.isSome = true → q ∈ s.requests := by
    intro q hq hp
    rcases mem_or_eq_of_mem_set hq with hq | rfl
    · exact hq
    · rw [hs] at hp
      cases hp
  have hget : ∀ (i : Nat) q, (s.requests.set request state)[i]? = some q → q.pendingSince.isSome = true →
      s.requests[i]? = some q := by
    intro i q hi hp
    rw [getElem?_set] at hi
    split at hi
    · split at hi
      · rw [← Option.some.inj hi, hs] at hp
        cases hp
      · simp at hi
    · exact hi
  exact {
    current := h.current
    rotated := h.rotated
    latest := h.latest
    kept := h.kept
    stamped := by
      intro now hq
      rcases mem_or_eq_of_mem_set hq with hq | heq
      · exact h.stamped now hq
      · exact absurd heq.symm (ha now)
    prompt := fun q hq since hsince => h.prompt q (hmem q hq (by rw [hsince]; rfl)) since hsince
    single := fun i j q q' hi hj hp hp' => h.single i j q q' (hget i q hi hp) (hget j q' hj hp') hp hp'
    pending := fun q hq hp => (h.pending q (hmem q hq hp) hp).of_eq rfl rfl rfl
    idle := by
      intro hidle
      refine h.idle ?_
      simp only [Rotation.idle, all_eq_true] at hidle ⊢
      intro q hq
      obtain ⟨i, hi⟩ := getElem?_of_mem hq
      by_cases heq : i = request
      · rw [hold q (heq ▸ hi)]
        rfl
      refine hidle q (mem_of_getElem? (i := i) ?_)
      show (s.requests.set request state)[i]? = some q
      rw [getElem?_set_ne (Ne.symm heq)]
      exact hi }

theorem idle_none (h : s.idle = true) {q : SessionGet} (hq : q ∈ s.requests) : q.pendingSince = none := by
  simpa using all_eq_true.mp h q hq

theorem getElem?_set_cases {requests : List SessionGet} {i : Nat} {q : SessionGet}
    (h : (requests.set request state)[i]? = some q) :
    (i = request ∧ q = state) ∨ (i ≠ request ∧ requests[i]? = some q) := by
  rw [getElem?_set] at h
  by_cases heq : request = i
  · rw [if_pos heq] at h
    split at h
    · exact Or.inl ⟨heq.symm, (Option.some.inj h).symm⟩
    · simp at h
  · rw [if_neg heq] at h
    exact Or.inr ⟨Ne.symm heq, h⟩

theorem single_serial (h : Serial hash s) {t : Rotation}
    (hrequests : t.requests = s.requests.set request state) (hclock : t.clock = s.clock)
    (hothers : ∀ i q, i ≠ request → s.requests[i]? = some q → q.pendingSince = none)
    (hcurrent : t.secrets.secretHash = hash t.current)
    (hrotated : ∀ at_, t.secrets.rotatedAtMs = some at_ → at_ ≤ s.clock)
    (hlatest : ∀ entry ∈ t.superseded, ∃ at_, t.secrets.rotatedAtMs = some at_ ∧ entry.2 ≤ at_)
    (hkept : ∀ entry ∈ t.superseded, s.clock < entry.2 + rotationOverlapMs →
      t.secrets.prevSecretHash = some (hash entry.1) ∧ t.secrets.rotatedAtMs = some entry.2)
    (hstate : ∀ now, state ≠ .admitted now)
    (hprompt : ∀ since, state.pendingSince = some since →
      since ≤ s.clock ∧ s.clock < since + rotationOverlapMs)
    (hpending : state.pendingSince.isSome = true → Pending hash t state)
    (hidle : t.idle = true → t.returned = t.current) : Serial hash t := by
  have hcases : ∀ q ∈ t.requests, q = state ∨ (q ∈ s.requests ∧ q.pendingSince = none) := by
    intro q hq
    rw [hrequests] at hq
    obtain ⟨i, hi⟩ := getElem?_of_mem hq
    rcases getElem?_set_cases hi with ⟨-, heq⟩ | ⟨hne, hi⟩
    · exact Or.inl heq
    · exact Or.inr ⟨mem_of_getElem? hi, hothers i q hne hi⟩
  have hat : ∀ (i : Nat) q, t.requests[i]? = some q → q.pendingSince.isSome = true → i = request := by
    intro i q hi hp
    rw [hrequests] at hi
    rcases getElem?_set_cases hi with ⟨heq, -⟩ | ⟨hne, hi⟩
    · exact heq
    · rw [hothers i q hne hi] at hp
      cases hp
  exact {
    current := hcurrent
    rotated := fun at_ hr => hclock ▸ hrotated at_ hr
    latest := hlatest
    kept := fun entry he ht => hkept entry he (hclock ▸ ht)
    stamped := by
      intro now hq
      rcases hcases _ hq with heq | ⟨hq, -⟩
      · exact absurd heq.symm (hstate now)
      · exact hclock ▸ h.stamped now hq
    prompt := by
      intro q hq since hsince
      rcases hcases q hq with heq | ⟨-, hnone⟩
      · exact hclock ▸ hprompt since (heq ▸ hsince)
      · rw [hnone] at hsince
        cases hsince
    single := fun i j q q' hi hj hp hp' => (hat i q hi hp).trans (hat j q' hj hp').symm
    pending := by
      intro q hq hp
      rcases hcases q hq with heq | ⟨-, hnone⟩
      · rw [heq] at hp ⊢
        exact hpending hp
      · rw [hnone] at hp
        cases hp
    idle := hidle }

theorem checkDue_serial (h : Serial hash s)
    (hc : oneAtATime s sessionTtlMs (.decide request) = true) :
    Serial hash (s.checkDue sessionTtlMs request) := by
  unfold checkDue
  split
  · next now hat =>
    simp only [oneAtATime, hat, Bool.or_eq_true, Bool.not_eq_true', Bool.and_eq_true, decide_eq_true_eq] at hc
    split
    · next hdue =>
      obtain ⟨hidle, hsoon⟩ := hc.resolve_left (by simp [hdue])
      have hreturned := h.idle hidle
      refine single_serial h rfl rfl ?_ h.current h.rotated h.latest h.kept (by simp) ?_ ?_ fun _ => hreturned
      · exact fun i q _ hi => idle_none hidle (mem_of_getElem? hi)
      · intro since hsince
        cases hsince
        exact ⟨h.stamped now (mem_of_getElem? hat), hsoon⟩
      refine fun _ => Pending.rotating (fun at_ hrotated => ?_) hreturned
      have hrotated : s.secrets.rotatedAtMs = some at_ := hrotated
      unfold rotationDue at hdue
      split at hdue
      · have hlater : sessionRotateAfterMs ≤ now - at_ := by simpa [hrotated] using hdue
        have hpos : 0 < sessionRotateAfterMs := by decide
        unfold Millis at *
        omega
      · simp at hdue
    · refine setRequest_serial h rfl (by simp) fun q hq => ?_
      rw [hat] at hq
      cases hq
      rfl
  · exact h

theorem others_none (h : Serial hash s)
    (hat : s.requests[request]? = some state) (hp : state.pendingSince.isSome = true) (i : Nat) (q : SessionGet)
    (hne : i ≠ request) (hi : s.requests[i]? = some q) : q.pendingSince = none := by
  by_contra hsome
  exact hne (h.single i request q state hi hat (by simpa [Option.isSome_iff_ne_none] using hsome) hp)

theorem commit_serialized (h : Serialized hash s) :
    Serialized hash (s.commit hash sessionTtlMs request secret) := by
  unfold commit
  split
  · next now hat =>
    simp only []
    split
    · next hlive =>
      intro _
      have h := h hlive
      have hmem := mem_of_getElem? hat
      obtain ⟨hle, hsoon⟩ := h.prompt _ hmem now rfl
      have hpending := h.pending _ hmem rfl
      cases hpending with
      | rotating hlater hreturned =>
        have hbefore : ∀ entry ∈ s.superseded, entry.2 + rotationOverlapMs ≤ now := by
          intro entry he
          obtain ⟨at_, hr, hle⟩ := h.latest entry he
          have hfar := hlater at_ hr
          have hconst : rotationOverlapMs ≤ sessionRotateAfterMs := by decide
          unfold Millis at *
          omega
        refine single_serial h rfl rfl (others_none h hat rfl) rfl ?_ ?_ ?_ (by simp) ?_ ?_ ?_
        · exact fun at_ hr => Option.some.inj hr ▸ hle
        · intro entry he
          refine ⟨now, rfl, ?_⟩
          rcases mem_append.mp he with he | he
          · exact Nat.le_trans (Nat.le_add_right _ _) (hbefore entry he)
          · exact Nat.le_of_eq (congrArg Prod.snd (mem_singleton.mp he))
        · intro entry he ht
          rcases mem_append.mp he with he | he
          · exact absurd ht (Nat.not_lt.mpr (Nat.le_trans (hbefore entry he) hle))
          · rw [mem_singleton.mp he]
            exact ⟨congrArg some h.current, rfl⟩
        · intro since hsince
          cases hsince
          exact ⟨hle, hsoon⟩
        · refine fun _ => Pending.rotated rfl ?_
          show some s.secrets.secretHash = some (hash s.returned)
          rw [h.current, hreturned]
        · intro hidle
          have hin : SessionGet.rotated secret now ∈ s.requests.set request (.rotated secret now) :=
            mem_set (List.getElem?_eq_some_iff.mp hat).1 _
          exact absurd (idle_none hidle hin) (by simp [SessionGet.pendingSince])
    · next hdead =>
      intro hlive
      exact absurd hlive hdead
  · exact h

theorem respond_serial (h : Serial hash s) : Serial hash (s.respond request) := by
  unfold respond
  split
  · next secret now hat =>
    have hmem := mem_of_getElem? hat
    have hpending := h.pending _ hmem rfl
    cases hpending with
    | rotated hr hp =>
      refine single_serial h rfl rfl (others_none h hat rfl) h.current h.rotated h.latest h.kept (by simp) ?_ ?_
        fun _ => rfl
      · exact fun since hsince => absurd hsince (by simp [SessionGet.pendingSince])
      · exact fun hp => absurd hp (by simp [SessionGet.pendingSince])
  · exact h

theorem step_serialized {e : RotationEvent} (h : Serialized hash s)
    (hc : oneAtATime s sessionTtlMs e = true) : Serialized hash (s.step hash sessionTtlMs e) := by
  cases e with
  | tick now => exact fun hlive => tick_serial (h hlive) hc
  | request secret =>
    simp only [step]
    split
    · exact fun hlive => request_serial (h hlive)
    · exact h
  | decide request =>
    intro hlive
    refine checkDue_serial (h ?_) hc
    rw [← hlive]
    simp only [step, checkDue]
    split
    · rfl
    · rfl
  | commit request secret => exact commit_serialized h
  | respond request =>
    intro hlive
    refine respond_serial (h ?_)
    rw [← hlive]
    simp only [step, respond]
    split
    · rfl
    · rfl
  | revoke =>
    intro hlive
    have hdead := sessionDelete_revoked (s := s) s.clock
    cases hdead.symm.trans hlive
  | tables auth =>
    intro hlive
    have h := h hlive
    exact ⟨h.current, h.rotated, h.latest, h.kept, h.stamped, h.prompt, h.single,
      fun q hq hp => (h.pending q hq hp).of_eq rfl rfl rfl, h.idle⟩

theorem init_serial (sessionId : SessionId) (auth : AuthorityTables) (secret : Bytes) (clock : Millis) :
    Serial hash (init hash sessionId auth secret clock) where
  current := rfl
  rotated := fun _ hr => by cases hr
  latest := fun _ he => by cases he
  kept := fun _ he => by cases he
  stamped := fun _ hq => by cases hq
  prompt := fun _ hq => by cases hq
  single := fun _ _ _ _ hi => by cases hi
  pending := fun _ hq => by cases hq
  idle := fun _ => rfl

/-- The rotations of a run are one at a time. -/
def RotatesInTurn (sessionTtlMs : Millis) (hash : Bytes → Bytes) (s : Rotation) (events : List RotationEvent) :
    Prop :=
  Transition.Along (fun s e => step hash s sessionTtlMs e) (fun s e => oneAtATime s sessionTtlMs e = true) s
    events

instance (hash : Bytes → Bytes) (s : Rotation) (events : List RotationEvent) :
    Decidable (RotatesInTurn sessionTtlMs hash s events) :=
  Transition.decidableAlong _ _

/-- **Overlap.** -/
theorem overlap_kept (hash : Bytes → Bytes) (sessionTtlMs : Millis) (sessionId : SessionId)
    (auth : AuthorityTables) (secret : Bytes) (clock : Millis) (events : List RotationEvent)
    (h : RotatesInTurn sessionTtlMs hash (init hash sessionId auth secret clock) events) :
    OverlapKept hash ((init hash sessionId auth secret clock).after hash sessionTtlMs events) := by
  intro husable
  have hserial := Transition.run_inv (I := Serialized hash) (fun _ _ hs he => step_serialized hs he)
    (fun _ => init_serial sessionId auth secret clock) h
  exact overlap_of_serial (hserial (usable_unrevoked husable)) husable

def deviceTables : AuthorityTables :=
  ⟨[⟨1, none⟩], [⟨1, 1, true, none⟩], [⟨1, 1, 1, 2592000000, none⟩], [], ⟨⟨.principal 1, 1, none⟩, false⟩,
    [], [], [], []⟩

def thirtyDays : Millis := 2592000000

def opened : Rotation := init id 1 deviceTables [0] 0

def inTurn : List RotationEvent :=
  [.tick 86400000, .request [0], .decide 0, .commit 0 [1], .respond 0, .tick 86430000, .request [0], .decide 1]

theorem inTurn_overlap_kept : OverlapKept id (opened.after id thirtyDays inTurn) :=
  overlap_kept id thirtyDays 1 deviceTables [0] 0 inTurn (by decide +kernel)

def sideBySide : List RotationEvent :=
  [.tick 86400000, .request [0], .request [0], .decide 0, .decide 1, .commit 0 [1], .commit 1 [2],
    .respond 0, .respond 1]

theorem sideBySide_not_kept : ¬ OverlapKept id (opened.after id thirtyDays sideBySide) := by
  decide +kernel

/-! ## Which secrets are accepted -/

/-- The row holds the digest of the current secret, and of the one superseded last. -/
def Stamped (hash : Bytes → Bytes) (s : Rotation) : Prop :=
  s.secrets =
    ⟨hash s.current, s.superseded.getLast?.map fun entry => hash entry.1,
      s.superseded.getLast?.map fun entry => entry.2⟩

theorem step_keeps (s : Rotation) (e : RotationEvent) :
    (Stamped hash s → Stamped hash (s.step hash sessionTtlMs e)) ∧
      (s.unrevoked = false → (s.step hash sessionTtlMs e).unrevoked = false) := by
  cases e with
  | tick now => exact ⟨id, id⟩
  | request | decide | respond =>
    simp only [step, checkDue, respond]
    split
    · exact ⟨id, id⟩
    · exact ⟨id, id⟩
  | commit request secret =>
    simp only [step, commit]
    split
    · split
      · rename_i hlive
        refine ⟨fun h => ?_, fun hrevoked => absurd hlive (Bool.not_eq_true _ ▸ hrevoked)⟩
        show SessionSecrets.mk (hash secret) (some s.secrets.secretHash) _ = _
        rw [h]
        simp [setRequest]
      · exact ⟨id, id⟩
    · exact ⟨id, id⟩
  | revoke => exact ⟨id, fun _ => sessionDelete_revoked s.clock⟩
  | tables auth => exact ⟨id, id⟩

theorem cookieSession_stamped (h : Stamped hash s) (secret : Bytes) (now : Millis) :
    (s.cookieSession hash secret now).isSome = true ↔
      (hash secret = hash s.current ∨ ∃ entry, s.superseded.getLast? = some entry ∧ hash secret = hash entry.1 ∧
        now < entry.2 + rotationOverlapMs) ∧ (Marks.cookieSession s.auth s.sessionId now).isSome = true := by
  unfold cookieSession
  rw [h]
  by_cases hcurrent : hash secret = hash s.current
  · simp [hcurrent]
  rw [if_neg hcurrent]
  cases hlast : s.superseded.getLast? with
  | none => simp [hcurrent]
  | some entry =>
    simp only [Option.map_some]
    by_cases hprevious : entry.2 + rotationOverlapMs ≤ now ∨ hash entry.1 ≠ hash secret
    · grind
    · rw [if_neg hprevious]
      rw [not_or, Nat.not_le, not_not] at hprevious
      simp [hprevious.1, hprevious.2]

/-- However the requests of a session overlap, a secret is accepted only if it is the current one, or the one
superseded last and still within its overlap, and none is after the session was revoked. -/
theorem accepted_secrets (hash : Bytes → Bytes) (sessionTtlMs : Millis) (sessionId : SessionId)
    (auth : AuthorityTables) (initial : Bytes) (clock : Millis) (events : List RotationEvent) (secret : Bytes)
    (now : Millis) :
    let s := (init hash sessionId auth initial clock).after hash sessionTtlMs events
    ((s.cookieSession hash secret now).isSome = true ↔
      (hash secret = hash s.current ∨ ∃ entry, s.superseded.getLast? = some entry ∧ hash secret = hash entry.1 ∧
        now < entry.2 + rotationOverlapMs) ∧ (Marks.cookieSession s.auth s.sessionId now).isSome = true) ∧
    (RotationEvent.revoke ∈ events → s.cookieSession hash secret now = none) := by
  intro s
  have hstamped : Stamped hash s := Transition.run_inv (C := fun _ _ => True) (I := Stamped hash)
    (fun s e hs _ => (step_keeps s e).1 hs) rfl (Transition.along_of fun _ _ => trivial)
  have haccepted := cookieSession_stamped hstamped secret now
  refine ⟨haccepted, fun hrevoke => ?_⟩
  obtain ⟨before, later, rfl⟩ := append_of_mem hrevoke
  have hrevoked : s.unrevoked = false := by
    show unrevoked (Transition.run _ _ (before ++ RotationEvent.revoke :: later)) = false
    rw [Transition.run_append, Transition.run_cons]
    exact Transition.run_inv (C := fun _ _ => True) (I := fun s : Rotation => s.unrevoked = false)
      (fun s e hs _ => (step_keeps s e).2 hs) (sessionDelete_revoked _) (Transition.along_of fun _ _ => trivial)
  by_contra hsome
  have hlive : usable { s with clock := now } = true :=
    (haccepted.mp (Option.isSome_iff_ne_none.mpr hsome)).2
  have hunrevoked := usable_unrevoked hlive
  cases hrevoked.symm.trans hunrevoked

end Rotation

end Marks
