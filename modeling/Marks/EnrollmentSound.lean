import Mathlib.Data.List.Induction
import Marks.Lists
import Marks.EnrollmentRoutes

/-! # Enrollment is sound

Rows are never taken away, a claim and a consumption stay, and a device keeps its key, its principal and its
capabilities. So a commit finds what the commits before it left, and each device and each challenge goes back to the
commit that made its row. -/

namespace Marks.Enrollment

open List

/-! ## What is to be kept -/

def DeviceRecord.enrolled (device : DeviceRecord) : DeviceRecord := { device with revokedAtMs := none }

def DeviceChallengeRecord.issued (challenge : DeviceChallengeRecord) : DeviceChallengeRecord :=
  { challenge with consumedAtMs := none }

def Tables.Live (db : Tables) : Prop :=
  ∀ session ∈ db.sessions, session.revokedAtMs = none → ∃ device ∈ db.devices,
    device.id = session.deviceId ∧ device.principalId = session.principalId ∧ device.revokedAtMs = none

structure Tables.Controls (db : Tables) (principalId : PrincipalId) (device : DeviceRecord) : Prop where
  enrolled : device ∈ db.devices
  controller : ∃ row ∈ db.controllers, row.deviceId = device.id ∧ row.principalId = principalId ∧
    row.revokedAtMs = none
  authorizes : device.capabilities.contains DeviceCapabilities.authorizeDevices = true

namespace Commit

def creates (commit : Commit) (id : PrincipalId) : Bool :=
  (commit.before.loadPrincipal id).isNone && (commit.after.loadPrincipal id).isSome

def promotes (commit : Commit) (id : PairingId) : Bool :=
  match commit.work with
  | .pairingBootstrap pairingId .. => pairingId == id
  | .pairingApprove _ pairingId .. => pairingId == id
  | _ => false

def redeems (commit : Commit) (id : ChallengeId) : Bool :=
  match commit.work with
  | .deviceRedeem proof .. => proof.challengeId == id
  | _ => false

def enrolls (commit : Commit) (device : DeviceRecord) : Prop :=
  commit.before.loadDevice device.id = none ∧ commit.after.loadDevice device.id = some device.enrolled

/-- The commit is an approve whose grant names the device, its principal, key and capabilities, and verifies under
the key of a controller. -/
def approves (crypto : Crypto) (commit : Commit) (device : DeviceRecord) : Prop :=
  ∃ session pairingId presented grant signature now key,
    commit.work = .pairingApprove session pairingId presented grant signature now ∧
    grant.pendingDeviceId = device.id ∧ grant.principalId = device.principalId ∧
    grant.pendingDevicePublicKeyHash = crypto.publicKeyHash device.publicKeySec1 ∧
    grant.capabilities = device.capabilities ∧ commit.before.Controls device.principalId key ∧
    grant.signingBytes.any (crypto.verify key.publicKeySec1 · signature) = true

def issues (commit : Commit) (challenge : DeviceChallengeRecord) : Prop :=
  ∃ now device, commit.work = .deviceChallenge challenge.deviceId now ∧
    commit.before.loadDevice challenge.deviceId = some device ∧ device.revokedAtMs = none ∧
    challenge.keyEpoch = device.keyEpoch ∧ commit.before.loadDeviceChallenge challenge.id = none ∧
    commit.after.loadDeviceChallenge challenge.id = some challenge.issued

def mints (commit : Commit) (challenge : DeviceChallengeRecord) : Prop :=
  ∃ session device, commit.after.sessions = commit.before.sessions ++ [session] ∧
    commit.before.loadDevice challenge.deviceId = some device ∧ device.keyEpoch = challenge.keyEpoch ∧
    session.deviceId = challenge.deviceId ∧ session.principalId = device.principalId

end Commit

structure Server.Sound (crypto : Crypto) (server : Server) : Prop where
  principals : ∀ id, server.log.countP (·.creates id) ≤ 1
  pairings : ∀ id, server.log.countP (·.promotes id) ≤ 1
  scratches : ∀ t ∈ server.log, ∀ t' ∈ server.log, ∀ id row row' p p', t.after.loadScratch id = some row →
    t'.after.loadScratch id = some row' → row.claimedBy = some p → row'.claimedBy = some p' → p = p'
  devices : ∀ device ∈ server.db.devices, ∃ t ∈ server.log, t.enrolls device ∧
    (t.creates device.principalId = true ∨ t.approves crypto device)
  sessions : server.db.Live
  challenges : ∀ id, server.log.countP (·.redeems id) ≤ 1
  redeemed : ∀ t ∈ server.log, ∀ id, t.redeems id = true →
    ∃ issue ∈ server.log, ∃ challenge, challenge.id = id ∧ issue.issues challenge ∧ t.mints challenge

/-! ## What stays -/

structure Tables.Later (db db' : Tables) : Prop where
  principals : Rows.Later PrincipalRecord.id (fun _ _ => True) db.principals db'.principals
  scratches : Rows.Later ScratchRecord.id
    (fun row row' => row.claimedBy.isSome → row'.claimedBy = row.claimedBy) db.scratches db'.scratches
  devices : Rows.Later DeviceRecord.id (fun row row' => row'.enrolled = row.enrolled) db.devices db'.devices
  pairings : Rows.Later PairingRecord.id
    (fun row row' => row.consumedAtMs.isSome → row'.consumedAtMs.isSome) db.pairings db'.pairings
  challenges : Rows.Later DeviceChallengeRecord.id
    (fun row row' => row'.issued = row.issued ∧ (row.consumedAtMs.isSome → row'.consumedAtMs.isSome))
    db.challenges db'.challenges

theorem Tables.Later.refl (db : Tables) : db.Later db where
  principals := Rows.Later.refl fun _ => trivial
  scratches := Rows.Later.refl fun _ _ => rfl
  devices := Rows.Later.refl fun _ => rfl
  pairings := Rows.Later.refl fun _ h => h
  challenges := Rows.Later.refl fun _ => ⟨rfl, fun h => h⟩

theorem Tables.Later.trans {db db' db'' : Tables} (h : db.Later db') (h' : db'.Later db'') : db.Later db'' where
  principals := Rows.Later.trans (fun _ _ => trivial) h.principals h'.principals
  scratches := Rows.Later.trans (fun hab hbc ha => by rw [hbc (by rwa [hab ha]), hab ha]) h.scratches h'.scratches
  devices := Rows.Later.trans (fun hab hbc => hbc.trans hab) h.devices h'.devices
  pairings := Rows.Later.trans (fun hab hbc ha => hbc (hab ha)) h.pairings h'.pairings
  challenges := Rows.Later.trans (fun hab hbc => ⟨hbc.1.trans hab.1, fun ha => hbc.2 (hab.2 ha)⟩) h.challenges
    h'.challenges

/-! ## The parts of a transaction -/

variable {principalId : PrincipalId} {deviceId : DeviceId} {scratchId : ScratchId}

section
variable {crypto : Crypto} {config : Config} {supply : Supply} {db db' : Tables}

theorem insertRow_ok {α : Type} {key : α → OpaqueId} {rows rows' : List α} {row : α}
    (h : insertRow key rows row = .ok rows') :
    rows' = rows ++ [row] ∧ Rows.load key rows (key row) = none ∧ Rows.load key rows' (key row) = some row :=
  Rows.insert_some (found_ok h)

theorem insertPrincipal_ok {id : PrincipalId} (h : insertPrincipal db id = .ok db') :
    db' = { db with principals := db.principals ++ [⟨id, none⟩] } ∧ db.loadPrincipal id = none ∧
      (db'.loadPrincipal id).isSome = true := by
  unfold insertPrincipal at h
  obtain ⟨principals, hi, h⟩ := bind_ok h
  obtain ⟨rfl, hfree, hthere⟩ := insertRow_ok hi
  cases h
  exact ⟨rfl, hfree, Option.isSome_of_eq_some hthere⟩

theorem insertDevice_ok {id : DeviceId} {publicKey : Bytes}
    {capabilities : DeviceCapabilities} (h : insertDevice db id principalId publicKey capabilities = .ok db') :
    db' = { db with devices := db.devices ++ [⟨id, principalId, publicKey, 1, capabilities, none⟩] } ∧
      db.loadDevice id = none ∧
      db'.loadDevice id = some ⟨id, principalId, publicKey, 1, capabilities, none⟩ := by
  unfold insertDevice at h
  obtain ⟨devices, hi, h⟩ := bind_ok h
  obtain ⟨rfl, hfree, hthere⟩ := insertRow_ok hi
  cases h
  exact ⟨rfl, hfree, hthere⟩

theorem insertController_ok {id : ControllerId}
    (h : insertController db id principalId deviceId = .ok db') : ∃ controllers, db' = { db with controllers } := by
  unfold insertController at h
  obtain ⟨_, h⟩ := require_bind h
  obtain ⟨controllers, _, h⟩ := bind_ok h
  cases h
  exact ⟨controllers, rfl⟩

theorem insertSession_ok {now : Millis}
    (h : insertSession crypto config db supply principalId deviceId now = .ok db') :
    ∃ session : StoredSession, db' = { db with sessions := db.sessions ++ [session] } ∧
      session.principalId = principalId ∧ session.deviceId = deviceId := by
  unfold insertSession at h
  obtain ⟨sessions, hi, h⟩ := bind_ok h
  obtain ⟨rfl, -, -⟩ := insertRow_ok hi
  cases h
  exact ⟨_, rfl, rfl, rfl⟩

theorem persistScratchClaim_ok {now : Millis}
    (h : persistScratchClaim db scratchId principalId now = .ok db') :
    ∃ scratches, db' = { db with scratches } ∧ Rows.Later ScratchRecord.id
      (fun row row' => row.claimedBy.isSome → row'.claimedBy = row.claimedBy) db.scratches scratches := by
  unfold persistScratchClaim at h
  obtain ⟨scratch, _, h⟩ := found_bind h
  obtain ⟨claim, _, h⟩ := found_bind h
  cases claim with
  | alreadyClaimedByCaller =>
    cases h
    exact ⟨db.scratches, rfl, (Tables.Later.refl db).scratches⟩
  | claimNow =>
    obtain ⟨claimed, _, h⟩ := found_bind h
    obtain ⟨_, h⟩ := require_bind h
    cases h
    refine ⟨_, rfl, Rows.Later.update (fun _ _ => rfl) (fun _ => rfl) fun row hp hc => ?_⟩
    -- only rows without a claim are picked
    simp only [Bool.and_eq_true, Option.isNone_iff_eq_none] at hp
    rw [hp.2] at hc
    cases hc

theorem consumePairing_ok {pairing : PairingRecord} {now : Millis}
    (h : consumePairing db pairing principalId now = .ok db') (hl : db.loadPairing pairing.id = some pairing) :
    ∃ pairings, db' = { db with pairings } ∧ pairing.consumedAtMs = none ∧
      (∃ row, db'.loadPairing pairing.id = some row ∧ row.consumedAtMs.isSome = true) ∧
      Rows.Later PairingRecord.id (fun row row' => row.consumedAtMs.isSome → row'.consumedAtMs.isSome) db.pairings
        pairings := by
  unfold consumePairing at h
  obtain ⟨consumed, hc, h⟩ := found_bind h
  obtain ⟨_, h⟩ := require_bind h
  cases h
  unfold markPairingConsumed at hc
  split at hc
  · cases hc
  rename_i hfree
  have hnone : pairing.consumedAtMs = none := by simpa using (not_or.mp hfree).1
  cases hc
  refine ⟨_, rfl, hnone, ⟨{ pairing with consumedAtMs := some now, approvedPrincipalId := some principalId }, ?_, rfl⟩,
    Rows.Later.update (fun _ h => h) (fun _ => rfl) fun _ _ _ => rfl⟩
  unfold Tables.loadPairing at hl ⊢
  rw [Rows.load_update, hl]
  · simp [hnone]
  · exact fun _ => rfl

end

/-! ## One transaction -/

/-- What a transaction that commits has met and done. -/
structure Commit.Lawful (crypto : Crypto) (commit : Commit) : Prop where
  later : commit.before.Later commit.after
  devices : ∀ device ∈ commit.after.devices, (∃ old ∈ commit.before.devices, old.enrolled = device.enrolled) ∨
    (commit.enrolls device ∧ (commit.creates device.principalId = true ∨ commit.approves crypto device))
  live : commit.before.Live → commit.after.Live
  challenges : ∀ challenge ∈ commit.after.challenges,
    (∃ old ∈ commit.before.challenges, old.issued = challenge.issued) ∨ commit.issues challenge
  promotes : ∀ id, commit.promotes id = true →
    (∃ row, commit.before.loadPairing id = some row ∧ row.consumedAtMs = none) ∧
      ∃ row, commit.after.loadPairing id = some row ∧ row.consumedAtMs.isSome = true
  redeems : ∀ id, commit.redeems id = true → ∃ challenge,
    commit.before.loadDeviceChallenge id = some challenge ∧ challenge.consumedAtMs = none ∧
      (∃ row, commit.after.loadDeviceChallenge id = some row ∧ row.consumedAtMs.isSome = true) ∧
      commit.mints challenge

variable {work : Work}

section
variable {crypto : Crypto} {config : Config} {supply : Supply} {db db' : Tables} {now : Millis}

theorem Tables.Live.grow (h : db.Live) (hd : ∀ device ∈ db.devices, device ∈ db'.devices)
    (hs : ∀ session ∈ db'.sessions, session ∈ db.sessions ∨ ∃ device ∈ db'.devices, device.id = session.deviceId ∧
      device.principalId = session.principalId ∧ device.revokedAtMs = none) : db'.Live := by
  intro session hm hr
  rcases hs session hm with hold | hnew
  · obtain ⟨device, hdm, hdevice⟩ := h session hold hr
    exact ⟨device, hd device hdm, hdevice⟩
  · exact hnew

theorem Tables.Live.mint (h : db.Live) {session : StoredSession} {device : DeviceRecord}
    (hs : db'.sessions = db.sessions ++ [session]) (hd : ∀ device ∈ db.devices, device ∈ db'.devices)
    (hm : device ∈ db'.devices) (hid : device.id = session.deviceId) (hp : device.principalId = session.principalId)
    (hr : device.revokedAtMs = none) : db'.Live := by
  refine h.grow hd fun other ho => ?_
  rw [hs] at ho
  rcases mem_append.mp ho with hold | hnew
  · exact .inl hold
  · cases mem_singleton.mp hnew
    exact .inr ⟨device, hm, hid, hp, hr⟩

theorem Commit.Lawful.quiet (hlater : db.Later db') (hd : db'.devices = db.devices)
    (hlive : db.Live → db'.Live) (hc : db'.challenges = db.challenges)
    (hp : ∀ id, Commit.promotes ⟨work, db, db'⟩ id = false) (hr : ∀ id, Commit.redeems ⟨work, db, db'⟩ id = false) :
    Commit.Lawful crypto ⟨work, db, db'⟩ where
  later := hlater
  devices := fun device hm => .inl ⟨device, hd ▸ hm, rfl⟩
  live := hlive
  challenges := fun challenge hm => .inl ⟨challenge, hc ▸ hm, rfl⟩
  promotes := fun id h => by rw [hp id] at h; cases h
  redeems := fun id h => by rw [hr id] at h; cases h

theorem scratchCreate_lawful (h : scratchCreate crypto config supply db now = .ok db') :
    Commit.Lawful crypto ⟨.scratchCreate now, db, db'⟩ := by
  unfold scratchCreate at h
  obtain ⟨scratches, hi, h⟩ := bind_ok h
  obtain ⟨rfl, -, -⟩ := insertRow_ok hi
  cases h
  refine .quiet { Tables.Later.refl db with scratches := ?_ } rfl id rfl (fun _ => rfl) fun _ => rfl
  exact Rows.Later.append fun _ _ => rfl

theorem scratchBindDevice_lawful {pending : PendingDeviceRecord} (h : scratchBindDevice db pending = .ok db') :
    Commit.Lawful crypto ⟨.scratchBindDevice pending, db, db'⟩ := by
  have hdb : ∃ pendingDevices, db' = { db with pendingDevices } := by
    unfold scratchBindDevice at h
    obtain ⟨_, h⟩ := require_bind h
    split at h
    · obtain ⟨_, h⟩ := require_bind h
      cases h
      exact ⟨_, rfl⟩
    · cases h
      exact ⟨_, rfl⟩
  obtain ⟨pendingDevices, rfl⟩ := hdb
  exact .quiet { Tables.Later.refl db with } rfl id rfl (fun _ => rfl) fun _ => rfl

theorem pairingCreate_lawful (h : pairingCreate crypto config supply db scratchId now = .ok db') :
    Commit.Lawful crypto ⟨.pairingCreate scratchId now, db, db'⟩ := by
  unfold pairingCreate at h
  obtain ⟨pending, _, h⟩ := found_bind h
  obtain ⟨_, h⟩ := require_bind h
  obtain ⟨_, h⟩ := require_bind h
  obtain ⟨pairings, hi, h⟩ := bind_ok h
  obtain ⟨rfl, -, -⟩ := insertRow_ok hi
  cases h
  refine .quiet { Tables.Later.refl db with pairings := ?_ } rfl id rfl (fun _ => rfl) fun _ => rfl
  exact Rows.Later.append fun _ h => h

variable {pairingId : PairingId}

theorem pairingFinalize_lawful {capability : Hash}
    (h : pairingFinalize crypto config supply db pairingId scratchId capability now = .ok db') :
    Commit.Lawful crypto ⟨.pairingFinalize pairingId scratchId capability now, db, db'⟩ := by
  unfold pairingFinalize at h
  obtain ⟨scratch, _, h⟩ := found_bind h
  obtain ⟨claimed, _, h⟩ := found_bind h
  obtain ⟨pairing, _, h⟩ := found_bind h
  obtain ⟨pending, _, h⟩ := found_bind h
  obtain ⟨_, h⟩ := require_bind h
  obtain ⟨device, hd, h⟩ := found_bind h
  obtain ⟨hlive, h⟩ := require_bind h
  obtain ⟨session, rfl, hp, hid⟩ := insertSession_ok h
  simp only [Bool.and_eq_true, beq_iff_eq, Option.isNone_iff_eq_none] at hlive
  refine .quiet { Tables.Later.refl db with } rfl (fun hl => ?_) rfl (fun _ => rfl) fun _ => rfl
  exact hl.mint rfl (fun _ hm => hm) (Rows.load_some hd).1 hid.symm (hlive.1.trans hp.symm) hlive.2

theorem deviceChallenge_lawful (h : deviceChallenge crypto config supply db deviceId now = .ok db') :
    Commit.Lawful crypto ⟨.deviceChallenge deviceId now, db, db'⟩ := by
  unfold deviceChallenge at h
  split at h
  · cases h
    exact .quiet (.refl db) rfl id rfl (fun _ => rfl) fun _ => rfl
  rename_i device hd
  split at h
  · cases h
    exact .quiet (.refl db) rfl id rfl (fun _ => rfl) fun _ => rfl
  rename_i hr
  obtain ⟨challenges, hi, h⟩ := bind_ok h
  obtain ⟨rfl, hfree, hthere⟩ := insertRow_ok hi
  cases h
  refine
    { later := { Tables.Later.refl db with challenges := Rows.Later.append fun _ => ⟨rfl, id⟩ }
      devices := fun device hm => .inl ⟨device, hm, rfl⟩
      live := id
      challenges := fun challenge hm => ?_
      promotes := fun _ h => by cases h
      redeems := fun _ h => by cases h }
  rcases mem_append.mp hm with hold | hnew
  · exact .inl ⟨challenge, hold, rfl⟩
  · cases mem_singleton.mp hnew
    exact .inr ⟨now, device, rfl, hd, by simpa using hr, rfl, hfree, hthere⟩

variable {signature : Bytes}

theorem deviceRedeem_lawful {proof : DeviceSessionProof}
    (h : deviceRedeem crypto config supply db proof signature now = .ok db') :
    Commit.Lawful crypto ⟨.deviceRedeem proof signature now, db, db'⟩ := by
  unfold deviceRedeem at h
  obtain ⟨record, hl, h⟩ := found_bind h
  obtain ⟨device, hd, h⟩ := found_bind h
  obtain ⟨principal, _, h⟩ := found_bind h
  obtain ⟨_, h⟩ := require_bind h
  obtain ⟨ha, h⟩ := require_bind h
  obtain ⟨_, h⟩ := require_bind h
  obtain ⟨session, rfl, hp, hid⟩ := insertSession_ok h
  unfold authorizeDeviceSession at ha
  simp only [Bool.and_eq_true, beq_iff_eq, Option.isNone_iff_eq_none] at ha
  obtain ⟨⟨⟨⟨⟨⟨⟨⟨⟨⟨-, hfree⟩, -⟩, -⟩, -⟩, -⟩, -⟩, ⟨⟨⟨⟨hcid, hcd⟩, hdd⟩, hde⟩, hce⟩, -⟩, hrevoked⟩, -⟩, -⟩ := ha
  exact
    { later :=
        { Tables.Later.refl db with
          challenges := Rows.Later.update (fun _ => ⟨rfl, id⟩) (fun _ => rfl) fun _ _ => ⟨rfl, fun _ => rfl⟩ }
      devices := fun device hm => .inl ⟨device, hm, rfl⟩
      live := fun hl => hl.mint rfl (fun _ hm => hm) (Rows.load_some hd).1 hid.symm hp.symm hrevoked
      challenges := fun challenge hm => by
        obtain ⟨old, ho, rfl⟩ := Rows.mem_update hm
        refine .inl ⟨old, ho, ?_⟩
        split
        · rfl
        · rfl
      promotes := fun _ h => by cases h
      redeems := fun id h => by
        cases beq_iff_eq.mp h
        refine ⟨record, hl, hfree, ⟨{ record with consumedAtMs := some now }, ?_, rfl⟩,
          session, device, rfl, hd, by rw [← hde, hce], by rw [hid, ← hdd, hcd], hp⟩
        unfold Tables.loadDeviceChallenge at hl ⊢
        rw [Rows.load_update, hl]
        · simp [hfree]
        · exact fun _ => rfl }

theorem Tables.Live.update (h : db.Live) {picks : StoredSession → Bool} {change : StoredSession → StoredSession}
    (hs : db'.sessions = Rows.update picks change db.sessions) (hd : db'.devices = db.devices)
    (hkeeps : ∀ row, (change row).deviceId = row.deviceId ∧ (change row).principalId = row.principalId ∧
      ((change row).revokedAtMs = none → row.revokedAtMs = none)) : db'.Live := by
  intro session hm hr
  rw [hs] at hm
  obtain ⟨old, ho, rfl⟩ := Rows.mem_update hm
  rw [hd]
  by_cases hp : picks old = true
  · rw [if_pos hp] at hr ⊢
    obtain ⟨hdevice, hprincipal, hrevoked⟩ := hkeeps old
    rw [hdevice, hprincipal]
    exact h old ho (hrevoked hr)
  · rw [if_neg hp] at hr ⊢
    exact h old ho hr

variable {session : AuthenticatedSession}

theorem sessionRotate_lawful :
    Commit.Lawful crypto ⟨.sessionRotate session now, db, sessionRotate crypto config supply db session now⟩ :=
  .quiet { Tables.Later.refl db with } rfl (fun hl => hl.update rfl rfl fun _ => ⟨rfl, rfl, id⟩) rfl (fun _ => rfl)
    fun _ => rfl

theorem sessionDelete_lawful :
    Commit.Lawful crypto ⟨.sessionDelete session, db, sessionDelete supply db session⟩ :=
  .quiet { Tables.Later.refl db with } rfl (fun hl => hl.update rfl rfl fun _ => ⟨rfl, rfl, fun hr => by cases hr⟩) rfl
    (fun _ => rfl) fun _ => rfl

variable {target : DeviceId}

theorem deviceRevoke_live
    (h : deviceRevoke supply db session target = .ok db') (hl : db.Live) : db'.Live := by
  unfold deviceRevoke at h
  obtain ⟨actor, _, h⟩ := found_bind h
  obtain ⟨device, _, h⟩ := found_bind h
  obtain ⟨_, h⟩ := require_bind h
  cases h
  intro row hm hr
  obtain ⟨old, ho, rfl⟩ := Rows.mem_update hm
  by_cases hp : (old.deviceId == device.id && old.revokedAtMs.isNone) = true
  · rw [if_pos hp] at hr
    cases hr
  rw [if_neg hp] at hr ⊢
  obtain ⟨other, hom, hid, hpr, hor⟩ := hl old ho hr
  have hne : ¬ (other.id == device.id && other.revokedAtMs.isNone) = true := by
    rw [hid, hor, ← hr]
    exact hp
  refine ⟨other, mem_map.mpr ⟨other, hom, ?_⟩, hid, hpr, hor⟩
  exact if_neg hne

theorem deviceRevoke_lawful
    (h : deviceRevoke supply db session target = .ok db') :
    Commit.Lawful crypto ⟨.deviceRevoke session target, db, db'⟩ := by
  have hlive := deviceRevoke_live h
  unfold deviceRevoke at h
  obtain ⟨actor, _, h⟩ := found_bind h
  obtain ⟨device, _, h⟩ := found_bind h
  obtain ⟨_, h⟩ := require_bind h
  cases h
  exact
    { later :=
        { Tables.Later.refl db with
          devices := by
            apply Rows.Later.update
            · exact fun _ => rfl
            · exact fun _ => rfl
            · exact fun _ _ => rfl }
      devices := fun row hm => by
        obtain ⟨old, ho, rfl⟩ := Rows.mem_update hm
        refine .inl ⟨old, ho, ?_⟩
        split
        · rfl
        · rfl
      live := hlive
      challenges := fun challenge hm => .inl ⟨challenge, hm, rfl⟩
      promotes := fun _ h => by cases h
      redeems := fun _ h => by cases h }

theorem scratchSelfBootstrap_lawful {statement : SelfBootstrap}
    (h : scratchSelfBootstrap crypto config supply db scratchId statement signature now = .ok db') :
    Commit.Lawful crypto ⟨.scratchSelfBootstrap scratchId statement signature now, db, db'⟩ := by
  unfold scratchSelfBootstrap at h
  obtain ⟨pending, _, h⟩ := found_bind h
  obtain ⟨_, h⟩ := require_bind h
  obtain ⟨db₁, hi, h⟩ := bind_ok h
  obtain ⟨rfl, hnone, hcreated⟩ := insertPrincipal_ok hi
  obtain ⟨db₂, hi, h⟩ := bind_ok h
  obtain ⟨rfl, hfree, hthere⟩ := insertDevice_ok hi
  obtain ⟨db₃, hi, h⟩ := bind_ok h
  obtain ⟨controllers, rfl⟩ := insertController_ok hi
  obtain ⟨_, h⟩ := require_bind h
  obtain ⟨db₄, hi, h⟩ := bind_ok h
  obtain ⟨scratches, rfl, hscratches⟩ := persistScratchClaim_ok hi
  obtain ⟨session, rfl, hp, hid⟩ := insertSession_ok h
  exact
    { later :=
        { Tables.Later.refl db with
          principals := Rows.Later.append fun _ => trivial
          scratches := hscratches
          devices := Rows.Later.append fun _ => rfl }
      devices := fun device hm => by
        rcases mem_append.mp hm with hold | hnew
        · exact .inl ⟨device, hold, rfl⟩
        · cases mem_singleton.mp hnew
          refine .inr ⟨⟨hfree, hthere⟩, .inl ?_⟩
          exact Bool.and_eq_true_iff.mpr ⟨Option.isNone_iff_eq_none.mpr hnone, hcreated⟩
      live := fun hl => hl.mint rfl (fun _ hm => mem_append_left _ hm)
        (mem_append_right _ (mem_singleton.mpr rfl)) hid.symm hp.symm rfl
      challenges := fun challenge hm => .inl ⟨challenge, hm, rfl⟩
      promotes := fun _ h => by cases h
      redeems := fun _ h => by cases h }

variable {presented : PairingPresented}

theorem pairingBootstrap_lawful {bootstrap : ControllerBootstrap}
    {controllerPublicKey : Bytes} (h : pairingBootstrap crypto config supply db pairingId presented bootstrap
      controllerPublicKey signature now = .ok db') :
    Commit.Lawful crypto
      ⟨.pairingBootstrap pairingId presented bootstrap controllerPublicKey signature now, db, db'⟩ := by
  unfold pairingBootstrap at h
  obtain ⟨pairing, hl, h⟩ := found_bind h
  have hpid : pairing.id = pairingId := (Rows.load_some hl).2
  obtain ⟨pending, _, h⟩ := found_bind h
  obtain ⟨_, h⟩ := require_bind h
  obtain ⟨_, h⟩ := require_bind h
  obtain ⟨_, h⟩ := require_bind h
  obtain ⟨db₁, hi, h⟩ := bind_ok h
  obtain ⟨h₁, hnone, hcreated⟩ := insertPrincipal_ok hi
  obtain ⟨db₂, hi, h⟩ := bind_ok h
  obtain ⟨h₂, hfree, hthere⟩ := insertDevice_ok hi
  obtain ⟨db₃, hi, h⟩ := bind_ok h
  obtain ⟨controllers, h₃⟩ := insertController_ok hi
  obtain ⟨db₄, hi, h⟩ := bind_ok h
  obtain ⟨h₄, hfree', hthere'⟩ := insertDevice_ok hi
  obtain ⟨_, h⟩ := require_bind h
  obtain ⟨db₅, hi, h⟩ := bind_ok h
  obtain ⟨scratches, h₅, hscratches⟩ := persistScratchClaim_ok hi
  obtain ⟨db₆, hi, h⟩ := bind_ok h
  have hl₅ : db₅.loadPairing pairing.id = some pairing := by
    rw [hpid]
    simpa only [Tables.loadPairing, h₅, h₄, h₃, h₂, h₁] using hl
  obtain ⟨pairings, h₆, hunconsumed, ⟨row, hrow, hconsumed⟩, hpairings⟩ := consumePairing_ok hi hl₅
  obtain ⟨session, h₇, hp, hid⟩ := insertSession_ok h
  have hdevices : db'.devices = db₂.devices ++ [⟨bootstrap.pendingDeviceId, supply.id, pending.publicKeySec1, 1, .member,
      none⟩] := by simp only [h₇, h₆, h₅, h₄, h₃]
  have hsessions : db'.sessions = db.sessions ++ [session] := by simp only [h₇, h₆, h₅, h₄, h₃, h₂, h₁]
  have hchallenges : db'.challenges = db.challenges := by simp only [h₇, h₆, h₅, h₄, h₃, h₂, h₁]
  have hcontroller : db₂.devices = db.devices ++ [⟨bootstrap.controllerDeviceId, supply.id, controllerPublicKey, 1,
      .controller, none⟩] := by simp only [h₂, h₁]
  have hcreates : Commit.creates
      ⟨.pairingBootstrap pairingId presented bootstrap controllerPublicKey signature now, db, db'⟩ supply.id = true := by
    have hsame : db'.loadPrincipal supply.id = db₁.loadPrincipal supply.id := by
      simp only [Tables.loadPrincipal, h₇, h₆, h₅, h₄, h₃, h₂]
    unfold Commit.creates
    rw [hnone, hsame, hcreated]
    rfl
  exact
    { later :=
        { principals := by
            simp only [h₇, h₆, h₅, h₄, h₃, h₂, h₁]
            exact Rows.Later.append fun _ => trivial
          scratches := by simpa only [h₇, h₆, h₅, h₄, h₃, h₂, h₁] using hscratches
          devices := by
            simp only [hdevices, hcontroller, append_assoc]
            exact Rows.Later.append fun _ => rfl
          pairings := by simpa only [h₇, h₆, h₅, h₄, h₃, h₂, h₁] using hpairings
          challenges := hchallenges ▸ (Tables.Later.refl db).challenges }
      devices := fun device hm => by
        simp only [hdevices, hcontroller, mem_append, mem_singleton] at hm
        rcases hm with (hold | rfl) | rfl
        · exact .inl ⟨device, hold, rfl⟩
        · refine .inr ⟨⟨?_, ?_⟩, .inl hcreates⟩
          · simpa only [Tables.loadDevice, h₁] using hfree
          · unfold Tables.loadDevice at hthere ⊢
            rw [hdevices]
            exact Rows.load_append hthere
        · refine .inr ⟨⟨?_, ?_⟩, .inl hcreates⟩
          · unfold Tables.loadDevice at hfree' ⊢
            simp only [h₃, hcontroller] at hfree'
            exact Rows.load_append_none hfree'
          · unfold Tables.loadDevice at hthere' ⊢
            simp only [h₇, h₆, h₅]
            exact hthere'
      live := fun hl => by
        have hkept : ∀ device ∈ db₂.devices, device ∈ db'.devices := fun device hm =>
          hdevices ▸ mem_append_left _ hm
        have hmem : ⟨bootstrap.controllerDeviceId, supply.id, controllerPublicKey, 1, .controller, none⟩ ∈ db₂.devices :=
          hcontroller ▸ mem_append_right _ (mem_singleton.mpr rfl)
        exact hl.mint hsessions (fun device hm => hkept device (hcontroller ▸ mem_append_left _ hm))
          (hkept _ hmem) hid.symm hp.symm rfl
      challenges := fun challenge hm => .inl ⟨challenge, hchallenges ▸ hm, rfl⟩
      promotes := fun id h => by
        cases beq_iff_eq.mp h
        refine ⟨⟨pairing, hl, hunconsumed⟩, row, ?_, hconsumed⟩
        rw [← hpid, ← hrow]
        simp only [Tables.loadPairing, h₇]
      redeems := fun _ h => by cases h }

theorem loadControllerForDevice_some {controller : ControllerRecord}
    (h : db.loadControllerForDevice principalId deviceId = some controller) :
    ∃ row ∈ db.controllers, ∃ device ∈ db.devices, row.deviceId = device.id ∧
      row.principalId = controller.principalId ∧ row.revokedAtMs = controller.revokedAtMs ∧
      device.publicKeySec1 = controller.publicKeySec1 ∧ device.capabilities = controller.capabilities := by
  unfold Tables.loadControllerForDevice at h
  split at h
  · rename_i row hrow
    obtain ⟨device, hd, rfl⟩ := Option.map_eq_some_iff.mp h
    obtain ⟨hm, hid⟩ := Rows.load_some hd
    exact ⟨row, mem_of_find?_eq_some hrow, device, hm, hid.symm, rfl, rfl, rfl, rfl⟩
  · cases h

theorem pairingApprove_lawful
    {grant : DeviceGrant}
    (h : pairingApprove crypto supply db session pairingId presented grant signature now = .ok db') :
    Commit.Lawful crypto ⟨.pairingApprove session pairingId presented grant signature now, db, db'⟩ := by
  unfold pairingApprove at h
  obtain ⟨pairing, hl, h⟩ := found_bind h
  have hpid : pairing.id = pairingId := (Rows.load_some hl).2
  obtain ⟨pending, _, h⟩ := found_bind h
  obtain ⟨hmatches, h⟩ := require_bind h
  obtain ⟨hpending, h⟩ := require_bind h
  obtain ⟨controller, hcontroller, h⟩ := found_bind h
  obtain ⟨_, h⟩ := require_bind h
  obtain ⟨ha, h⟩ := require_bind h
  obtain ⟨db₁, hi, h⟩ := bind_ok h
  obtain ⟨rfl, hfree, hthere⟩ := insertDevice_ok hi
  obtain ⟨_, h⟩ := require_bind h
  obtain ⟨db₂, hi, h⟩ := bind_ok h
  obtain ⟨scratches, rfl, hscratches⟩ := persistScratchClaim_ok hi
  obtain ⟨pairings, rfl, hunconsumed, hconsumed, hpairings⟩ := consumePairing_ok h (hpid ▸ hl)
  rw [hpid] at hconsumed
  unfold pairingMatchesPending at hmatches
  unfold requireLivePendingDevice at hpending
  unfold authorizePairing finishAuthorizePairing at ha
  simp only [Bool.and_eq_true, beq_iff_eq, Option.isNone_iff_eq_none] at hmatches hpending ha
  obtain ⟨-, ⟨⟨⟨hrevoked, hauthorizes⟩, hgrant⟩, -⟩, hverify⟩ := ha
  obtain ⟨⟨⟨⟨⟨⟨hprincipal, -⟩, -⟩, -⟩, -⟩, -⟩, hhash⟩ := hgrant
  obtain ⟨row, hrow, key, hkey, hdevice, hrp, hrr, hpublic, hcapabilities⟩ := loadControllerForDevice_some hcontroller
  exact
    { later :=
        { Tables.Later.refl db with
          scratches := hscratches
          devices := Rows.Later.append fun _ => rfl
          pairings := hpairings }
      devices := fun device hm => by
        rcases mem_append.mp hm with hold | hnew
        · exact .inl ⟨device, hold, rfl⟩
        cases mem_singleton.mp hnew
        refine .inr ⟨⟨hfree, hthere⟩, .inr ⟨session, _, presented, grant, signature, now, key, rfl, rfl, rfl, ?_, rfl,
          ⟨hkey, ⟨row, hrow, hdevice, hrp.trans hprincipal.symm, hrr.trans hrevoked⟩, hcapabilities ▸ hauthorizes⟩,
          hpublic ▸ hverify⟩⟩
        -- the grant names the pairing's key hash, and that is the pending key's
        rw [hhash, hmatches.2, hpending.1.1.1]
      live := fun hl => hl.grow (fun _ hm => mem_append_left _ hm) fun _ hs => .inl hs
      challenges := fun challenge hm => .inl ⟨challenge, hm, rfl⟩
      promotes := fun id h => by
        cases beq_iff_eq.mp h
        exact ⟨⟨pairing, hl, hunconsumed⟩, hconsumed⟩
      redeems := fun _ h => by cases h }

theorem transact_lawful (h : transact crypto config supply db work = .ok db') :
    Commit.Lawful crypto ⟨work, db, db'⟩ := by
  cases work with
  | scratchCreate => exact scratchCreate_lawful h
  | scratchBindDevice => exact scratchBindDevice_lawful h
  | scratchSelfBootstrap => exact scratchSelfBootstrap_lawful h
  | pairingCreate => exact pairingCreate_lawful h
  | pairingBootstrap => exact pairingBootstrap_lawful h
  | pairingApprove => exact pairingApprove_lawful h
  | pairingFinalize => exact pairingFinalize_lawful h
  | deviceChallenge => exact deviceChallenge_lawful h
  | deviceRedeem => exact deviceRedeem_lawful h
  | sessionRotate =>
    cases h
    exact sessionRotate_lawful
  | sessionDelete =>
    cases h
    exact sessionDelete_lawful
  | deviceRevoke => exact deviceRevoke_lawful h

end

/-! ## Runs -/

def Commit.Origin (crypto : Crypto) (commit : Commit) (device : DeviceRecord) : Prop :=
  commit.enrolls device ∧ (commit.creates device.principalId = true ∨ commit.approves crypto device)

structure Server.Ordered (crypto : Crypto) (server : Server) : Prop where
  lawful : ∀ t ∈ server.log, t.Lawful crypto
  chain : server.log.Pairwise fun t t' => t.after.Later t'.before
  later : ∀ t ∈ server.log, t.after.Later server.db
  devices : ∀ device ∈ server.db.devices, ∃ t ∈ server.log, t.Origin crypto device
  live : server.db.Live
  challenges : ∀ challenge ∈ server.db.challenges, ∃ t ∈ server.log, t.issues challenge

section
variable {crypto : Crypto} {server : Server}

theorem Server.Ordered.init : Server.Ordered crypto .init where
  lawful := fun _ h => by cases h
  chain := List.Pairwise.nil
  later := fun _ h => by cases h
  devices := fun _ h => by cases h
  live := fun _ h => by cases h
  challenges := fun _ h => by cases h

theorem Server.Ordered.withRequests (h : server.Ordered crypto) (requests : List InFlight) :
    Server.Ordered crypto { server with requests } where
  lawful := h.lawful
  chain := h.chain
  later := h.later
  devices := h.devices
  live := h.live
  challenges := h.challenges

theorem Server.Ordered.commit (h : server.Ordered crypto) {db : Tables}
    (hl : Commit.Lawful crypto ⟨work, server.db, db⟩) (requests : List InFlight) :
    Server.Ordered crypto ⟨db, requests, server.log ++ [⟨work, server.db, db⟩]⟩ where
  lawful := by
    intro t ht
    rcases mem_append.mp ht with hold | hnew
    · exact h.lawful t hold
    · rw [mem_singleton.mp hnew]
      exact hl
  chain := by
    refine pairwise_append.mpr ⟨h.chain, pairwise_singleton _ _, fun t ht t' ht' => ?_⟩
    rw [mem_singleton.mp ht']
    exact h.later t ht
  later := by
    intro t ht
    rcases mem_append.mp ht with hold | hnew
    · exact (h.later t hold).trans hl.later
    · rw [mem_singleton.mp hnew]
      exact .refl db
  devices := by
    intro device hm
    rcases hl.devices device hm with ⟨old, ho, heq⟩ | hnew
    · obtain ⟨t, ht, horigin⟩ := h.devices old ho
      have hsame : t.Origin crypto device.enrolled := heq ▸ (show t.Origin crypto old.enrolled from horigin)
      exact ⟨t, mem_append_left _ ht, hsame⟩
    · exact ⟨_, mem_append_right _ (mem_singleton.mpr rfl), hnew⟩
  live := hl.live h.live
  challenges := by
    intro challenge hm
    rcases hl.challenges challenge hm with ⟨old, ho, heq⟩ | hnew
    · obtain ⟨t, ht, hissues⟩ := h.challenges old ho
      have hsame : t.issues challenge.issued := heq ▸ (show t.issues old.issued from hissues)
      exact ⟨t, mem_append_left _ ht, hsame⟩
    · exact ⟨_, mem_append_right _ (mem_singleton.mpr rfl), hnew⟩

theorem Server.Ordered.step {config : Config} (h : server.Ordered crypto) (e : Event) :
    (server.step crypto config e).Ordered crypto := by
  cases e with
  | receive request headers now =>
    simp only [Server.step]
    split
    · exact h.withRequests _
    · exact h
  | advance i supply =>
    simp only [Server.step]
    split
    · exact h
    · split
      · exact h.withRequests _
      · exact h.withRequests _
    split
    · rename_i db hdb
      exact h.commit (transact_lawful hdb) _
    · exact h.withRequests _

theorem Server.after_ordered {config : Config} {events : List Event} :
    (Server.after crypto config events).Ordered crypto :=
  Transition.run_inv (C := fun _ _ => True) (I := Server.Ordered crypto) (fun _ e h _ => h.step e) .init
    (Transition.along_of fun _ _ => trivial)

/-! ## Soundness -/

theorem Server.Ordered.promotes_once (h : server.Ordered crypto) (id : PairingId) :
    server.log.countP (·.promotes id) ≤ 1 := by
  refine Lists.countP_le_one (h.chain.imp_of_mem fun {t t'} ht ht' hlater hp => ?_)
  obtain ⟨-, row, hrow, hconsumed⟩ := (h.lawful t ht).promotes id hp
  by_contra hp'
  obtain ⟨⟨row', hrow', hnone⟩, -⟩ := (h.lawful t' ht').promotes id (Bool.not_eq_false _ ▸ hp')
  obtain ⟨kept, hkept, hstays⟩ := hlater.pairings id row hrow
  cases hrow'.symm.trans hkept
  have := hstays hconsumed
  rw [hnone] at this
  cases this

theorem Server.Ordered.redeems_once (h : server.Ordered crypto) (id : ChallengeId) :
    server.log.countP (·.redeems id) ≤ 1 := by
  refine Lists.countP_le_one (h.chain.imp_of_mem fun {t t'} ht ht' hlater hp => ?_)
  obtain ⟨_, -, -, ⟨row, hrow, hconsumed⟩, -⟩ := (h.lawful t ht).redeems id hp
  by_contra hp'
  obtain ⟨row', hrow', hnone, -⟩ := (h.lawful t' ht').redeems id (Bool.not_eq_false _ ▸ hp')
  obtain ⟨kept, hkept, -, hstays⟩ := hlater.challenges id row hrow
  cases hrow'.symm.trans hkept
  have := hstays hconsumed
  rw [hnone] at this
  cases this

theorem Server.Ordered.creates_once (h : server.Ordered crypto) (id : PrincipalId) :
    server.log.countP (·.creates id) ≤ 1 := by
  refine Lists.countP_le_one (h.chain.imp_of_mem fun {t t'} ht ht' hlater hp => ?_)
  unfold Commit.creates at hp ⊢
  obtain ⟨row, hrow⟩ := Option.isSome_iff_exists.mp (Bool.and_eq_true_iff.mp hp).2
  obtain ⟨kept, hkept, -⟩ := hlater.principals id row hrow
  have hthere : t'.before.loadPrincipal id = some kept := hkept
  rw [hthere]
  rfl

variable {t : Commit}

theorem Server.Ordered.claims_once (h : server.Ordered crypto) {t' : Commit} (ht : t ∈ server.log)
    (ht' : t' ∈ server.log) {id : ScratchId} {row row' : ScratchRecord} {p p' : PrincipalId}
    (hrow : t.after.loadScratch id = some row) (hrow' : t'.after.loadScratch id = some row')
    (hp : row.claimedBy = some p) (hp' : row'.claimedBy = some p') : p = p' := by
  obtain ⟨kept, hkept, hstays⟩ := (h.later t ht).scratches id row hrow
  obtain ⟨kept', hkept', hstays'⟩ := (h.later t' ht').scratches id row' hrow'
  cases hkept.symm.trans hkept'
  have hclaimed := hstays (Option.isSome_of_eq_some hp)
  rw [hstays' (Option.isSome_of_eq_some hp'), hp, hp'] at hclaimed
  exact (Option.some.inj hclaimed).symm

theorem Server.Ordered.redeemed (h : server.Ordered crypto) (ht : t ∈ server.log) {id : ChallengeId}
    (hr : t.redeems id = true) :
    ∃ issue ∈ server.log, ∃ challenge, challenge.id = id ∧ issue.issues challenge ∧ t.mints challenge := by
  obtain ⟨challenge, hload, -, -, hmints⟩ := (h.lawful t ht).redeems id hr
  obtain ⟨kept, hkept, heq, -⟩ := ((h.lawful t ht).later.trans (h.later t ht)).challenges id challenge hload
  obtain ⟨issue, hi, hissues⟩ := h.challenges kept (Rows.load_some hkept).1
  have hsame : issue.issues challenge.issued := heq ▸ (show issue.issues kept.issued from hissues)
  exact ⟨issue, hi, challenge, (Rows.load_some hload).2, hsame, hmints⟩

/-- **Enrollment.** Whatever requests arrive, and however their transactions interleave. -/
theorem enrollment_sound (crypto : Crypto) (config : Config) (events : List Event) :
    (Server.after crypto config events).Sound crypto := by
  have h : (Server.after crypto config events).Ordered crypto := Server.after_ordered
  exact
    { principals := h.creates_once
      pairings := h.promotes_once
      scratches := fun _ ht _ ht' _ _ _ _ _ => h.claims_once ht ht'
      devices := h.devices
      sessions := h.live
      challenges := h.redeems_once
      redeemed := fun _ ht _ => h.redeemed ht }

end

end Marks.Enrollment
