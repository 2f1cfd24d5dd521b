import Prism.Verification.Review.Equations
import Prism.Verification.Webhook.Equations
import Prism.Model.System

/-! Which tables an action can write. Every other table is the same afterwards,
so a property of one table only has to look at the actions that touch it. -/

namespace Prism.World

inductive Area where
  | connections | pullRequests | syncRuns | analysisRuns | results | reviewRuns | deliveries
  deriving DecidableEq, Repr

def touches : Action → List Area
  | .connect _ _ _ _ _ _ _ => [.connections, .syncRuns]
  | .disconnect _ _ _ => [.connections]
  | .sync _ _ _ _ _ _ _ | .syncBegin _ => [.syncRuns]
  | .syncComplete _ _ _ _ => [.connections, .pullRequests, .syncRuns]
  | .analysisStart _ _ _ _ _ _ _ | .analysisCancel _ _ _ | .analysisBegin _ _ => [.analysisRuns]
  | .analysisComplete _ _ _ _ _ _ _ _ => [.analysisRuns, .results]
  | .reviewStart _ _ _ _ _ _ _ _ _ _ | .reviewCancel _ _ _ | .reviewBegin _ _ _
  | .reviewReserve _ _ _ | .reviewComplete _ _ _ _ _ _ => [.reviewRuns]
  | .receive _ _ _ _ => [.deliveries]
  | .webhookExecute _ _ _ _ => [.connections, .syncRuns, .deliveries]
  | _ => []

/-- The tables that are not touched, and what holds of all steps: time does not go
back and no workspace is changed. -/
structure Frame (touched : List Area) (db db' : Db) : Prop where
  now : db.now ≤ db'.now
  workspaces : ∀ wid s, db.workspaces.get wid = some s → db'.workspaces.get wid = some s
  connections : .connections ∉ touched → db'.connections = db.connections
  pullRequests : .pullRequests ∉ touched → db'.pullRequests = db.pullRequests
  syncRuns : .syncRuns ∉ touched → db'.syncRuns = db.syncRuns
  analysisRuns : .analysisRuns ∉ touched → db'.analysisRuns = db.analysisRuns
  results : .results ∉ touched → db'.fileResults = db.fileResults ∧ db'.findings = db.findings
  reviewRuns : .reviewRuns ∉ touched → db'.reviewRuns = db.reviewRuns
  deliveries : .deliveries ∉ touched → db'.deliveries = db.deliveries

theorem Frame.refl (touched : List Area) (db : Db) : Frame touched db db :=
  ⟨le_rfl, fun _ _ h => h, fun _ => rfl, fun _ => rfl, fun _ => rfl, fun _ => rfl,
    fun _ => ⟨rfl, rfl⟩, fun _ => rfl, fun _ => rfl⟩

private theorem frame_commit {touched : List Area} {w : World} {body : Tx Db}
    (h : ∀ db', body = .ok db' → Frame touched w.db db') :
    Frame touched w.db (w.commit body).2.db := by
  unfold World.commit
  split
  · exact h _ rfl
  · exact .refl touched w.db

private theorem insertRun_frame {db db' : Db} {sid jid : UUID} {run : PullRequestSyncRun}
    (h : Sync.insertRun db sid jid run = .ok db') : Frame [.syncRuns] db db' := by
  obtain ⟨-, jobs, -, rfl⟩ := Sync.insertRun_eq_ok.mp h
  constructor <;> simp

private theorem sync_frame {db db' : Db} {uid wid rid sid jid id : UUID} {page : ℕ}
    {number : Option ℕ} (h : Sync.enqueue db uid wid rid page number sid jid = .ok (id, db')) :
    Frame [.syncRuns] db db' := by
  rcases Sync.enqueue_cases h with rfl | ⟨-, _, _, _, -, hinsert⟩
  · exact .refl ..
  · exact insertRun_frame hinsert

/-- A first connection and its first synchronization leave the database of the one
to the other. -/
theorem connectOne_cases {db db' : Db} {uid wid rid cid sid jid : UUID}
    {verified : VerifiedRepository}
    (h : connectOne db uid wid verified rid cid sid jid = .ok db') :
    ∃ id db₁ run, connect db uid wid verified rid cid = .ok (id, db₁) ∧
      Sync.enqueue db₁ uid wid id 1 none sid jid = .ok (run, db') := by
  simp only [connectOne, Tx.bind_eq_ok] at h
  obtain ⟨⟨id, db₁⟩, hconnect, ⟨run, db₂⟩, hsync, h⟩ := h
  obtain rfl := Except.ok.inj h
  exact ⟨id, db₁, run, hconnect, hsync⟩

private theorem connectOne_frame {db db' : Db} {uid wid rid cid sid jid : UUID}
    {verified : VerifiedRepository}
    (h : connectOne db uid wid verified rid cid sid jid = .ok db') :
    Frame [.connections, .syncRuns] db db' := by
  obtain ⟨id, db₁, run, hconnect, hsync⟩ := connectOne_cases h
  have hframe := sync_frame hsync
  have hfirst : db₁.now = db.now ∧ db₁.workspaces = db.workspaces ∧
      db₁.pullRequests = db.pullRequests ∧
      db₁.analysisRuns = db.analysisRuns ∧ db₁.fileResults = db.fileResults ∧
      db₁.findings = db.findings ∧ db₁.reviewRuns = db.reviewRuns ∧
      db₁.deliveries = db.deliveries := by
    rcases connect_cases hconnect with ⟨row, -, -, rfl⟩ | ⟨-, -, configs, rfl⟩ <;> simp
  obtain ⟨hnow, hworkspaces, hpulls, hanalysis, hfiles, hfindings, hreviews, hdeliveries⟩ := hfirst
  refine
    { now := hnow ▸ hframe.now
      workspaces := hworkspaces ▸ hframe.workspaces
      connections := by simp
      pullRequests := fun _ => (hframe.pullRequests (by simp)).trans hpulls
      syncRuns := by simp
      analysisRuns := fun _ => (hframe.analysisRuns (by simp)).trans hanalysis
      results := fun _ => ?_
      reviewRuns := fun _ => (hframe.reviewRuns (by simp)).trans hreviews
      deliveries := fun _ => (hframe.deliveries (by simp)).trans hdeliveries }
  obtain ⟨hf, hg⟩ := hframe.results (by simp)
  exact ⟨hf.trans hfiles, hg.trans hfindings⟩

private theorem webhook_frame {db db' : Db} {c : Claim} {expired : Bool} {sid jid : UUID}
    (h : WebhookWorker.execute db c expired sid jid = .ok db') :
    Frame [.connections, .syncRuns, .deliveries] db db' := by
  rcases WebhookWorker.execute_cases h with ⟨rfl, -⟩ |
    ⟨row, code, targets, job, job', -, -, -, hend⟩
  · exact .refl ..
  rcases hend with ⟨-, -, rfl⟩ | ⟨-, code', db₁, happly, -, rfl⟩
  · constructor <;> simp
  · cases WebhookWorker.apply_applied happly <;> constructor <;> simp

private theorem review_frame {db : Db} {runs : Table UUID ReviewRun} {jobs : Table UUID Job} :
    Frame [.reviewRuns] db { db with reviewRuns := runs, jobs := jobs } := by
  constructor <;> simp

private theorem analysis_frame {db : Db} {runs : Table UUID AnalysisRun}
    {jobs : Table UUID Job} :
    Frame [.analysisRuns] db { db with analysisRuns := runs, jobs := jobs } := by
  constructor <;> simp

private theorem syncRuns_frame {db : Db} {runs : Table UUID PullRequestSyncRun} :
    Frame [.syncRuns] db { db with syncRuns := runs } := by
  constructor <;> simp

/-- An action leaves the tables it does not touch alone. -/
theorem step_frame (a : Action) (w : World) : Frame (touches a) w.db (step a w).2.db := by
  cases a with
  | tick elapsed =>
      refine frame_commit fun db' h => ?_
      obtain rfl := Except.ok.inj h
      constructor <;> simp
  | setUser uid user =>
      refine frame_commit fun db' h => ?_
      obtain rfl := Except.ok.inj h
      constructor <;> simp
  | setMember wid uid member =>
      refine frame_commit fun db' h => ?_
      obtain rfl := Except.ok.inj h
      constructor <;> simp
  | addWorkspace wid =>
      refine frame_commit fun db' h => ?_
      simp only [addWorkspace, Tx.bind_eq_ok, insertRow_eq_ok] at h
      obtain ⟨_, ⟨hnone, rfl⟩, h⟩ := h
      obtain rfl := Except.ok.inj h
      constructor <;> simp
      -- the new identifier was free
      intro wid' s hs
      have hne : wid' ≠ wid := by
        rintro rfl
        simp [hnone] at hs
      exact (Table.get_put_of_ne _ _ hne).trans hs
  | setStandards rows =>
      refine frame_commit fun db' h => ?_
      obtain rfl := Except.ok.inj h
      constructor <;> simp
  | connect uid wid verified rid cid sid jid => exact frame_commit fun db' h => connectOne_frame h
  | disconnect uid wid rid =>
      refine frame_commit fun db' h => ?_
      obtain ⟨row, -, rfl⟩ := disconnect_cases h
      constructor <;> simp [touches]
  | sync uid wid rid page number sid jid =>
      refine frame_commit fun db' h => ?_
      obtain ⟨⟨id, db₁⟩, hbody, rfl⟩ := (Tx.map_eq_ok ..).mp h
      exact sync_frame hbody
  | analysisStart st uid wid pid rerunOf aid jid =>
      refine frame_commit fun db' h => ?_
      obtain ⟨⟨id, db₁⟩, hbody, rfl⟩ := (Tx.map_eq_ok ..).mp h
      rcases Analysis.start_cases hbody with rfl | ⟨_, jobs, -, -, -, rfl⟩
      · exact .refl ..
      · exact analysis_frame
  | analysisCancel uid wid aid =>
      refine frame_commit fun db' h => ?_
      rcases Analysis.cancel_cases h with rfl | ⟨_, _, _, _, -, -, -, -, -, -, rfl⟩
      · exact .refl ..
      · exact analysis_frame
  | reviewStart st uid wid aid consent rerun purpose waited rid jid =>
      refine frame_commit fun db' h => ?_
      obtain ⟨⟨id, db₁⟩, hbody, rfl⟩ := (Tx.map_eq_ok ..).mp h
      rcases Review.start_cases hbody with rfl | ⟨_, jobs, -, -, -, rfl⟩
      · exact .refl ..
      · exact review_frame
  | reviewCancel uid wid rid =>
      refine frame_commit fun db' h => ?_
      rcases Review.cancel_cases h with rfl | ⟨_, _, _, -, -, -, -, -, rfl⟩
      · exact .refl ..
      · exact review_frame
  | receive event stale did jid =>
      simp only [step, answer]
      split
      · rename_i status db h
        rcases Webhook.receive_cases h with ⟨-, rfl⟩ | ⟨-, -, repo, jobs, -, -, -, rfl⟩
        · exact .refl ..
        · constructor <;> simp [touches]
      · exact .refl ..
  | claim worker kinds locked =>
      simp only [step, claim]
      split <;> constructor <;> simp [issue]
  | expired kinds rows => constructor <;> simp [step, issue]
  | heartbeat c => constructor <;> simp [step, heartbeat]
  | syncBegin c =>
      refine frame_commit fun db' h => ?_
      obtain ⟨⟨plan, db₁⟩, hbody, rfl⟩ := (Tx.map_eq_ok ..).mp h
      rcases SyncWorker.begin_cases hbody with ⟨-, rfl⟩ | ⟨_, _, _, -, -, -, -, -, rfl⟩
      · exact .refl ..
      · exact syncRuns_frame
  | syncComplete c ids o expired =>
      refine frame_commit fun db' h => ?_
      rcases SyncWorker.complete_cases h with rfl | ⟨_, _, _, _, _, _, _, _, -, -, -, -, -, rfl⟩
      · exact .refl ..
      · constructor <;> simp [touches]
  | analysisBegin st c =>
      refine frame_commit fun db' h => ?_
      obtain ⟨⟨plan, db₁⟩, hbody, rfl⟩ := (Tx.map_eq_ok ..).mp h
      rcases AnalysisWorker.begin_cases hbody with ⟨-, rfl⟩ | ⟨_, _, -, -, -, -, rfl⟩
      · exact .refl ..
      · exact analysis_frame
  | analysisCheckpoint c =>
      refine frame_commit fun db' h => ?_
      obtain ⟨-, -, rfl⟩ := (Tx.map_eq_ok ..).mp h
      exact .refl ..
  | analysisComplete c fileIds findingIds result code retry expired delay =>
      refine frame_commit fun db' h => ?_
      rcases AnalysisWorker.complete_cases h with
        rfl | ⟨_, _, _, _, _, _, _, _, _, -, -, -, -, -, -, rfl⟩
      · exact .refl ..
      · constructor <;> simp [touches]
  | reviewBegin st c tid =>
      simp only [step, reviewBegin]
      split
      · exact .refl ..
      · rename_i db hbegin
        rcases ReviewWorker.begin_cases hbegin with ⟨-, rfl⟩ | ⟨_, _, -, -, -, -, -, -, rfl⟩
        · exact .refl ..
        · exact review_frame
      · rename_i plan db hbegin
        split
        · exact .refl ..
        · rcases ReviewWorker.begin_cases hbegin with ⟨-, rfl⟩ | ⟨_, _, -, -, -, -, -, -, rfl⟩
          · exact .refl ..
          · exact review_frame
  | reviewReserve tid incoming outgoing =>
      simp only [step, reviewReserve]
      split
      · exact .refl ..
      · split
        · exact .refl ..
        · split
          · exact .refl ..
          · rename_i db hreserve
            obtain ⟨_, -, ⟨-, rfl⟩ | ⟨_, -, -, -, -, -, -, rfl⟩⟩ :=
              ReviewWorker.reserve_cases hreserve <;> exact review_frame
          · rename_i db hreserve
            obtain ⟨_, -, ⟨-, rfl⟩ | ⟨_, -, -, -, -, -, -, rfl⟩⟩ :=
              ReviewWorker.reserve_cases hreserve <;> exact review_frame
  | reviewCall tid =>
      simp only [step, reviewCall]
      split <;> exact .refl ..
  | reviewStillAuthorized tid =>
      simp only [step, reviewStillAuthorized]
      split
      · split <;> exact .refl ..
      · exact .refl ..
  | reviewComplete c result code expired incoming outgoing =>
      refine frame_commit fun db' h => ?_
      obtain ⟨_, -, rfl | ⟨_, _, _, _, -, -, -, -, rfl⟩⟩ := ReviewWorker.complete_cases h <;>
        exact review_frame
  | webhookExecute c expired sid jid => exact frame_commit fun db' h => webhook_frame h

end Prism.World
