import Prism.Verification.Sync.Equations
import Prism.Model.Webhook

/-! What receiving and executing a delivery do when they commit. -/

namespace Prism

namespace Webhook

theorem byDelivery_eq_some {db : Db} {deliveryId : String} {did : UUID} {row : WebhookDelivery}
    (h : byDelivery db deliveryId = some (did, row)) :
    db.deliveries.get did = some row ∧ row.deliveryId = deliveryId := by
  obtain ⟨hget, hp⟩ := Table.find_spec h
  exact ⟨hget, by simpa using hp⟩

theorem byDelivery_eq_none {db : Db} {deliveryId : String} :
    byDelivery db deliveryId = none ↔
      ∀ did row, db.deliveries.get did = some row → row.deliveryId ≠ deliveryId := by
  simp [byDelivery, Table.find_eq_none_iff]

theorem duplicate_eq_ok {event : Event} {stored : WebhookDelivery} {db db' : Db} {status : ℕ}
    (h : duplicate event stored db = .ok (status, db')) :
    status = 200 ∧ db' = db ∧ stored.bodyDigest = event.digest ∧ stored.event = event.event := by
  unfold duplicate at h
  split at h
  · contradiction
  · rename_i hsame
    simp only [not_or, not_not] at hsame
    obtain ⟨rfl, rfl⟩ := Prod.mk.inj (Except.ok.inj h)
    exact ⟨rfl, rfl, hsame⟩

/-- A pull-request event is mapped to a live connection. -/
theorem target_eq_some {db : Db} {event : Event} {repo : Option RepositorySnapshot}
    (h : target db event = .ok (some repo)) :
    (event.event ≠ .pullRequest ∧ repo = none) ∨
      event.event = .pullRequest ∧ ∃ r, repo = some r ∧
        requireEvent db r.workspaceId r.id r.connectionGeneration = .ok r := by
  unfold target at h
  split at h
  · rename_i hpr
    obtain ⟨gid, -, h⟩ := (Tx.bind_eq_ok ..).mp h
    split at h
    · split at h <;> simp at h
    · simp at h
    · rename_i r hr
      simp only [Except.ok.injEq, Option.some.injEq] at h
      exact .inr ⟨hpr, r, h.symm, mapped_eq_some hr⟩
  · rename_i hpr
    simp only [Except.ok.injEq, Option.some.injEq] at h
    exact .inl ⟨hpr, h.symm⟩

/-- A committed call either stores the delivery with its job and answers 202, or
changes nothing and answers otherwise. -/
theorem receive_cases {db db' : Db} {event : Event} {stale : Bool} {did jid : UUID} {status : ℕ}
    (h : receive db event stale did jid = .ok (status, db')) :
    (status ≠ 202 ∧ db' = db) ∨ status = 202 ∧ byDelivery db event.deliveryId = none ∧
      ∃ repo jobs, target db event = .ok (some repo) ∧ db.deliveries.get did = none ∧
        Jobs.enqueue db.jobs db.now jid .processWebhook did (repo.map (·.workspaceId)) = .ok jobs ∧
        db' = { db with
          deliveries := db.deliveries.put did (newDelivery db.now event repo)
          jobs := jobs } := by
  unfold receive at h
  split at h
  · obtain ⟨rfl, rfl, -⟩ := duplicate_eq_ok h
    exact .inl ⟨by decide, rfl⟩
  · obtain ⟨mapped, htarget, h⟩ := (Tx.bind_eq_ok ..).mp h
    split at h
    · obtain ⟨rfl, rfl⟩ := Prod.mk.inj (Except.ok.inj h)
      exact .inl ⟨by decide, rfl⟩
    · rename_i repo
      split at h
      · obtain ⟨rfl, rfl, -⟩ := duplicate_eq_ok h
        exact .inl ⟨by decide, rfl⟩
      · rename_i hnew
        simp only [Tx.bind_eq_ok, insertRow_eq_ok] at h
        obtain ⟨_, ⟨hfree, rfl⟩, jobs, hjobs, h⟩ := h
        obtain ⟨rfl, rfl⟩ := Prod.mk.inj (Except.ok.inj h)
        exact .inr ⟨rfl, hnew, repo, jobs, htarget, hfree, hjobs, rfl⟩

end Webhook

namespace WebhookWorker

/-- The code of the first check is `CONNECTION_CHANGED` or absent; it is absent
for a pull-request event only while its connection is live. -/
theorem prepare_cases {db : Db} {row : WebhookDelivery} {code : Option Code} {targets : List UUID}
    (h : prepare db row = .ok (code, targets)) :
    (code = some .connectionChanged ∧ row.event = .pullRequest) ∨
      code = none ∧ (row.event = .pullRequest → ∃ wid rid generation,
        row.workspaceId = some wid ∧ row.repositoryConnectionId = some rid ∧
        row.connectionGeneration = some generation ∧ Live db rid generation) := by
  unfold prepare at h
  split at h
  · rename_i hpr
    simp only [Tx.bind_eq_ok, assertSome_eq_ok] at h
    obtain ⟨wid, hwid, rid, hrid, generation, hgen, h⟩ := h
    split at h
    · rename_i repo hrepo
      obtain ⟨rfl, rfl⟩ := Prod.mk.inj (Except.ok.inj h)
      exact .inr ⟨rfl, fun _ => ⟨wid, rid, generation, hwid, hrid, hgen, requireEvent_live hrepo⟩⟩
    · split at h
      · obtain ⟨rfl, rfl⟩ := Prod.mk.inj (Except.ok.inj h)
        exact .inl ⟨rfl, hpr⟩
      · contradiction
  · rename_i hev
    obtain ⟨rfl, -⟩ := Prod.mk.inj (Except.ok.inj h)
    exact .inr ⟨rfl, fun hpr => by simp [hev] at hpr⟩
  · rename_i hev
    obtain ⟨rfl, -⟩ := Prod.mk.inj (Except.ok.inj h)
    exact .inr ⟨rfl, fun hpr => by simp [hev] at hpr⟩

/-- The effects of a delivery, with the code its job is finished with. -/
inductive Applied (db : Db) (row : WebhookDelivery) (targets : List UUID) (expired : Bool)
    (sid jid : UUID) : Option Code → Db → Prop where
  | recovered : expired = true → Applied db row targets expired sid jid (some .leaseExpired) db
  | busy {rid generation number} : expired = false → row.event = .pullRequest →
      row.repositoryConnectionId = some rid → row.connectionGeneration = some generation →
      row.prNumber = some number → Sync.active db rid ≠ none →
      Applied db row targets expired sid jid (some .syncInProgress) db
  | requested {wid rid generation number jobs} : expired = false → row.event = .pullRequest →
      row.workspaceId = some wid → row.repositoryConnectionId = some rid →
      row.connectionGeneration = some generation → row.prNumber = some number →
      Live db rid generation → Sync.active db rid = none → db.syncRuns.get sid = none →
      Jobs.enqueue db.jobs db.now jid .syncPullRequests sid (some wid) = .ok jobs →
      Applied db row targets expired sid jid none { db with
        syncRuns := db.syncRuns.put sid
          (Sync.pendingRun db.now wid rid generation none .single none (some number) none)
        jobs := jobs }
  | suspended : expired = false → row.event ≠ .pullRequest →
      Applied db row targets expired sid jid none
        { db with connections := suspendLocked db.connections targets }

theorem apply_applied {db db' : Db} {row : WebhookDelivery} {targets : List UUID}
    {expired : Bool} {sid jid : UUID} {code : Option Code}
    (h : apply db row targets expired sid jid = .ok (code, db')) :
    Applied db row targets expired sid jid code db' := by
  unfold apply at h
  split at h
  · rename_i hexp
    obtain ⟨rfl, rfl⟩ := Prod.mk.inj (Except.ok.inj h)
    exact .recovered hexp
  · rename_i hexp
    rw [Bool.not_eq_true] at hexp
    split at h
    · rename_i hpr
      simp only [Tx.bind_eq_ok, assertSome_eq_ok] at h
      obtain ⟨wid, hwid, rid, hrid, generation, hgen, number, hnumber, ⟨made, db₁⟩, hreq, h⟩ := h
      obtain ⟨rfl, rfl⟩ := Prod.mk.inj (Except.ok.inj h)
      obtain ⟨hlive, ⟨hbusy, rfl, rfl⟩ | ⟨hidle, rfl, hinsert⟩⟩ :=
        Sync.requestEventSync_cases hreq
      · exact .busy hexp hpr hrid hgen hnumber hbusy
      · obtain ⟨hnone, jobs, hjobs, rfl⟩ := Sync.insertRun_eq_ok.mp hinsert
        exact .requested hexp hpr hwid hrid hgen hnumber hlive hidle hnone hjobs
    · rename_i hpr
      obtain ⟨rfl, rfl⟩ := Prod.mk.inj (Except.ok.inj h)
      exact .suspended hexp hpr

/-- The retry delay of a delivery. -/
def delayOf (code : Option Code) : ℕ :=
  if code = some .syncInProgress then 30 else 5

/-- An execution that holds no lease of a stored delivery changes nothing. -/
theorem execute_cases {db db' : Db} {c : Claim} {expired : Bool} {sid jid : UUID}
    (h : execute db c expired sid jid = .ok db') :
    (db' = db ∧ ∀ row, db.deliveries.get c.aggregateId = some row →
        Jobs.fence db.jobs db.now c expired = none) ∨ ∃ row code targets job job',
      db.deliveries.get c.aggregateId = some row ∧ prepare db row = .ok (code, targets) ∧
      Jobs.fence db.jobs db.now c expired = some job ∧
      ((code.isSome = true ∧ Jobs.finish db.now job code false 5 = .ok job' ∧
          db' = { db with
            jobs := db.jobs.put c.id (canceledJob job')
            deliveries := db.deliveries.put c.aggregateId (canceled db.now row code) }) ∨
        code = none ∧ ∃ code' db₁, apply db row targets expired sid jid = .ok (code', db₁) ∧
          Jobs.finish db.now job code' code'.isSome (delayOf code') = .ok job' ∧
          db' = { db₁ with
            jobs := db₁.jobs.put c.id job'
            deliveries := db₁.deliveries.put c.aggregateId (closed db.now row job' code') }) := by
  unfold execute at h
  split at h
  · rename_i hrow
    exact .inl ⟨(Except.ok.inj h).symm, fun row hrow' => by simp [hrow] at hrow'⟩
  · rename_i row hrow
    obtain ⟨⟨code, targets⟩, hprepare, h⟩ := (Tx.bind_eq_ok ..).mp h
    simp only at h
    split at h
    · rename_i hjob
      exact .inl ⟨(Except.ok.inj h).symm, fun _ _ => hjob⟩
    · rename_i job hjob
      split at h
      · rename_i hcode
        obtain ⟨job', hfinish, h⟩ := (Tx.bind_eq_ok ..).mp h
        exact .inr ⟨row, code, targets, job, job', hrow, hprepare, hjob,
          .inl ⟨hcode, hfinish, (Except.ok.inj h).symm⟩⟩
      · rename_i hcode
        simp only [Tx.bind_eq_ok] at h
        obtain ⟨⟨code', db₁⟩, happly, job', hfinish, h⟩ := h
        have hnow : db₁.now = db.now := by cases apply_applied happly <;> rfl
        rw [hnow] at hfinish
        refine .inr ⟨row, code, targets, job, job', hrow, hprepare, hjob,
          .inr ⟨by simpa using hcode, code', db₁, happly, hfinish, ?_⟩⟩
        rw [← hnow]
        exact (Except.ok.inj h).symm

/-! ## The effect of a delivery -/

/-- The repositories an installation event lists. -/
def listed (row : WebhookDelivery) : Option (List ℕ) :=
  if row.event = .installationRepositories then some row.affectedRepositoryIds else none

/-- The effect of a delivery, between two databases: a pull-request event adds the pending
system run for its pull request and the job of the run, an installation event suspends the
connections it affects and no others. -/
inductive Effect (row : WebhookDelivery) (sid jid : UUID) (db db' : Db) : Prop where
  | requested {wid rid generation number} : row.event = .pullRequest →
      row.workspaceId = some wid → row.repositoryConnectionId = some rid →
      row.connectionGeneration = some generation → row.prNumber = some number →
      db.syncRuns.get sid = none →
      db'.syncRuns = db.syncRuns.put sid
        (Sync.pendingRun db.now wid rid generation none .single none (some number) none) →
      db.jobs.get jid = none →
      db'.jobs.get jid = some (Jobs.queued db.now .syncPullRequests sid (some wid)) →
      db'.connections = db.connections → Effect row sid jid db db'
  | suspended : row.event ≠ .pullRequest →
      (∀ rid r, db.connections.get rid = some r →
        Affected row.installationId (listed row) row.receivedAt r →
        db'.connections.get rid = some { r with status := .suspended }) →
      (∀ rid, (∀ r, db.connections.get rid = some r →
          ¬Affected row.installationId (listed row) row.receivedAt r) →
        db'.connections.get rid = db.connections.get rid) →
      db'.syncRuns = db.syncRuns → Effect row sid jid db db'

/-- The effect is not in a database that kept the runs of a pull-request event. -/
theorem Effect.not_kept {row : WebhookDelivery} {sid jid : UUID} {db db' : Db}
    (h : Effect row sid jid db db') (hpr : row.event = .pullRequest) :
    db'.syncRuns ≠ db.syncRuns := by
  cases h with
  | requested _ _ _ _ _ hnone hruns =>
      intro hsame
      rw [hsame] at hruns
      rw [hruns, Table.get_put_self] at hnone
      contradiction
  | suspended hne => exact absurd hpr hne

/-- The connections an installation event locks are those it affects. -/
theorem mem_targets {db : Db} {row : WebhookDelivery} {targets : List UUID}
    (h : prepare db row = .ok (none, targets)) (hne : row.event ≠ .pullRequest) {rid : UUID} :
    rid ∈ targets ↔ ∃ r, db.connections.get rid = some r ∧
      Affected row.installationId (listed row) row.receivedAt r := by
  unfold prepare at h
  split at h
  · rename_i hpr
    exact absurd hpr hne
  · rename_i hev
    obtain ⟨-, rfl⟩ := Prod.mk.inj (Except.ok.inj h)
    rw [mem_lockAffected, listed, if_neg (by simp [hev])]
  · rename_i hev
    obtain ⟨-, rfl⟩ := Prod.mk.inj (Except.ok.inj h)
    rw [mem_lockAffected, listed, if_pos hev]

/-- A delivery applied without a code leaves its effect behind. -/
theorem applied_effect {db db₁ db' : Db} {row : WebhookDelivery} {targets : List UUID}
    {expired : Bool} {sid jid cid : UUID} {job : Job} {deliveries : Table UUID WebhookDelivery}
    (hprepare : prepare db row = .ok (none, targets)) (hcid : db.jobs.get cid ≠ none)
    (happly : apply db row targets expired sid jid = .ok (none, db₁))
    (hdb : db' = { db₁ with jobs := db₁.jobs.put cid job, deliveries := deliveries }) :
    expired = false ∧ Effect row sid jid db db' := by
  subst hdb
  cases apply_applied happly with
  | requested hexp hpr hwid hrid hgen hnumber _ _ hnone henqueue =>
      obtain ⟨hfree, -, rfl⟩ := Jobs.enqueue_eq_ok.mp henqueue
      refine ⟨hexp, .requested hpr hwid hrid hgen hnumber hnone rfl hfree ?_ rfl⟩
      have hne : jid ≠ cid := by
        rintro rfl
        exact hcid hfree
      simp [Table.get_put_of_ne _ _ hne]
  | suspended hexp hne =>
      refine ⟨hexp, .suspended hne ?_ ?_ rfl⟩
      · intro rid r hget haffected
        have hmem : rid ∈ targets := (mem_targets hprepare hne).mpr ⟨r, hget, haffected⟩
        simp [get_suspendLocked, hget, hmem, haffected.active]
      · intro rid hspared
        have hmem : rid ∉ targets := by
          intro hmem
          obtain ⟨r, hget, haffected⟩ := (mem_targets hprepare hne).mp hmem
          exact hspared r hget haffected
        simp [get_suspendLocked, hmem]

end WebhookWorker

end Prism
