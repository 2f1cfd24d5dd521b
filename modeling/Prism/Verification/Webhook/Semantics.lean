import Prism.Verification.System.Equations

/-! How a delivery can change in one step. -/

namespace Prism.WebhookWorker

open World

/-- The columns of a delivery that are written once. -/
structure SameDelivery (row row' : WebhookDelivery) : Prop where
  deliveryId : row'.deliveryId = row.deliveryId
  event : row'.event = row.event
  digest : row'.bodyDigest = row.bodyDigest
  workspace : row'.workspaceId = row.workspaceId
  repository : row'.repositoryConnectionId = row.repositoryConnectionId
  generation : row'.connectionGeneration = row.connectionGeneration
  number : row'.prNumber = row.prNumber
  received : row'.receivedAt = row.receivedAt

theorem SameDelivery.refl (row : WebhookDelivery) : SameDelivery row row :=
  ⟨rfl, rfl, rfl, rfl, rfl, rfl, rfl, rfl⟩

/-- How the delivery under an identifier can change in one step. -/
inductive Change (w : World) (a : Action) (did : UUID) :
    Option WebhookDelivery → WebhookDelivery → Prop where
  | received (event : Event) (stale : Bool) (jid : UUID) (repo : Option RepositorySnapshot) :
      a = .receive event stale did jid → (step a w).1 = .answered 202 →
      Webhook.byDelivery w.db event.deliveryId = none →
      Webhook.target w.db event = .ok (some repo) →
      Change w a did none (Webhook.newDelivery w.db.now event repo)
  | canceled (c : Claim) (expired : Bool) (sid jid : UUID) (row : WebhookDelivery) (job : Job)
      (targets : List UUID) :
      a = .webhookExecute c expired sid jid → c.aggregateId = did →
      Jobs.fence w.db.jobs w.db.now c expired = some job →
      prepare w.db row = .ok (some .connectionChanged, targets) →
      Change w a did (some row) (canceled w.db.now row (some .connectionChanged))
  | finished (c : Claim) (expired : Bool) (sid jid : UUID) (row : WebhookDelivery)
      (job job' : Job) (targets : List UUID) (code : Option Code) (db₁ : Db) :
      a = .webhookExecute c expired sid jid → c.aggregateId = did →
      Jobs.fence w.db.jobs w.db.now c expired = some job →
      prepare w.db row = .ok (none, targets) →
      apply w.db row targets expired sid jid = .ok (code, db₁) →
      Jobs.finish w.db.now job code code.isSome (delayOf code) = .ok job' →
      (step a w).1 = .committed →
      (step a w).2.db = { db₁ with
        jobs := db₁.jobs.put c.id job'
        deliveries := db₁.deliveries.put did (closed w.db.now row job' code) } →
      Change w a did (some row) (closed w.db.now row job' code)

/-- One delivery changed as described, the others not at all. -/
def Changes (w : World) (a : Action) : Prop :=
  ∀ did, (step a w).2.db.deliveries.get did = w.db.deliveries.get did ∨
    ∃ row, (step a w).2.db.deliveries.get did = some row ∧
      Change w a did (w.db.deliveries.get did) row

private theorem changes_put {w : World} {a : Action} {did : UUID} {row : WebhookDelivery}
    (hput : (step a w).2.db.deliveries = w.db.deliveries.put did row)
    (h : Change w a did (w.db.deliveries.get did) row) : Changes w a := by
  intro did'
  rw [hput]
  by_cases hid : did' = did
  · subst did'
    exact .inr ⟨row, Table.get_put_self .., h⟩
  · exact .inl (Table.get_put_of_ne _ _ hid)

private theorem changes_same {w : World} {a : Action}
    (h : (step a w).2.db.deliveries = w.db.deliveries) : Changes w a :=
  fun _ => .inl (by rw [h])

/-- What an accepted call changes, and what it answers. -/
theorem receive_step (w : World) (event : Event) (stale : Bool) (did jid : UUID) :
    (step (.receive event stale did jid) w).1 ≠ .answered 202 ∧
        (step (.receive event stale did jid) w).2 = w ∨
      (step (.receive event stale did jid) w).1 = .answered 202 ∧
        Webhook.byDelivery w.db event.deliveryId = none ∧ w.db.deliveries.get did = none ∧
        ∃ repo, Webhook.target w.db event = .ok (some repo) ∧
          (step (.receive event stale did jid) w).2.db.deliveries =
            w.db.deliveries.put did (Webhook.newDelivery w.db.now event repo) := by
  simp only [step, answer]
  split
  · rename_i status db' h
    rcases Webhook.receive_cases h with
      ⟨hne, rfl⟩ | ⟨rfl, hnew, repo, jobs, htarget, hnone, -, rfl⟩
    · exact .inl ⟨by simpa using hne, rfl⟩
    · exact .inr ⟨rfl, hnew, hnone, repo, htarget, rfl⟩
  · exact .inl ⟨by simp, rfl⟩

/-- Deliveries change only as described. -/
theorem step_changes (a : Action) (w : World) : Changes w a := by
  by_cases hquiet : Area.deliveries ∉ touches a
  · exact changes_same ((step_frame a w).deliveries hquiet)
  cases a with
  | receive event stale did jid =>
      rcases receive_step w event stale did jid with
        ⟨-, hsame⟩ | ⟨hout, hnew, hnone, repo, htarget, hput⟩
      · exact changes_same (by rw [hsame])
      · refine changes_put hput ?_
        rw [hnone]
        exact .received event stale jid repo rfl hout hnew htarget
  | webhookExecute c expired sid jid =>
      cases hbody : execute w.db c expired sid jid with
      | error f => exact changes_same (by simp only [step, World.commit, hbody])
      | ok db' =>
          have hstep : step (.webhookExecute c expired sid jid) w =
              (.committed, { w with db := db' }) := by
            simp only [step, World.commit, hbody]
          rcases execute_cases hbody with
            ⟨rfl, -⟩ | ⟨row, code, targets, job, job', hrow, hprepare, hjob, hend⟩
          · exact changes_same (by rw [hstep])
          rcases hend with ⟨hcode, -, rfl⟩ | ⟨rfl, code', db₁, happly, hfinish, rfl⟩
          · rcases prepare_cases hprepare with ⟨rfl, -⟩ | ⟨rfl, -⟩
            · refine changes_put (by rw [hstep]) ?_
              rw [hrow]
              exact .canceled c expired sid jid row job targets rfl rfl hjob hprepare
            · contradiction
          · have hsame : db₁.deliveries = w.db.deliveries := by
              cases apply_applied happly <;> rfl
            refine changes_put (by rw [hstep, ← hsame]) ?_
            rw [hrow]
            exact .finished c expired sid jid row job job' targets code' db₁ rfl rfl hjob hprepare
              happly hfinish (by rw [hstep]) (by rw [hstep])
  | _ => exact absurd (by simp [touches]) hquiet

/-- A stored delivery keeps the columns that are written once. -/
theorem change_same {w : World} {a : Action} {did : UUID} {row row' : WebhookDelivery}
    (h : Change w a did (some row) row') : SameDelivery row row' := by
  cases h with
  | canceled => exact ⟨rfl, rfl, rfl, rfl, rfl, rfl, rfl, rfl⟩
  | finished => exact ⟨rfl, rfl, rfl, rfl, rfl, rfl, rfl, rfl⟩

/-- No step removes a delivery or turns it into another one. -/
theorem step_kept {a : Action} {w : World} {did : UUID} {row : WebhookDelivery}
    (hget : w.db.deliveries.get did = some row) :
    ∃ row', (step a w).2.db.deliveries.get did = some row' ∧ SameDelivery row row' := by
  rcases step_changes a w did with hsame | ⟨row', hget', hchange⟩
  · exact ⟨row, hsame.trans hget, .refl row⟩
  · rw [hget] at hchange
    exact ⟨row', hget', change_same hchange⟩

end Prism.WebhookWorker
