import Prism.Verification.Analysis.Trace

/-! What the attempt history tells about the end of a lease: the outcome of the
newest attempt against the state the job was left in. -/

namespace Prism.Lifecycle

open Prism.Jobs Prism.World

/-! ## Outcomes and states -/

/-- The outcome of an attempt that left its job in a state. -/
def outcomeFor : JobState → Option AttemptOutcome
  | .ready => some .retry
  | .leased => none
  | .succeeded => some .succeeded
  | .dead => some .failed
  | .canceled => some .canceled

def lastOutcome (j : Job) : Option AttemptOutcome :=
  j.attemptHistory.getLast?.bind (·.outcome)

def Truthful (j : Job) : Prop :=
  lastOutcome j = outcomeFor j.state

instance (j : Job) : Decidable (Truthful j) :=
  inferInstanceAs (Decidable (_ = _))

/-- Every lease that ends between two tables is recorded with its outcome. -/
def Audited (jobs jobs' : Table UUID Job) : Prop :=
  ∀ jid job job', jobs.get jid = some job → job.state = .leased →
    jobs'.get jid = some job' → job'.state ≠ .leased → Truthful job'

/-- The check of an analysis ends it: its requester lost access, or it fails with
a code of `cancels` and no attempt is left for it. -/
def Terminates (db : Db) (c : Claim) (row : AnalysisRun) (job : Job) (code : Option Code)
    (retry : Bool) : Prop :=
  ∃ uid, row.requestedBy = some uid ∧
    match Analysis.authorized db uid row.workspaceId c.aggregateId true with
    | .ok _ => AnalysisWorker.cancels code = true ∧ again job code retry = false
    | .error f => f.appCode?.isSome = true

/-- The completions of a leased analysis after which `AnalysisWorker.complete`
overwrites the state `finish` left. -/
def Overrides (w : World) : Action → Prop
  | .analysisComplete c _ _ _ code retry expired _ =>
    ∃ wid row job, c.workspaceId = some wid ∧
      Analysis.findRun w.db wid c.aggregateId = .ok row ∧ row.status.terminal = false ∧
      fence w.db.jobs w.db.now c expired = some job ∧ Terminates w.db c row job code retry
  | _ => False

/-! ## Tables -/

theorem Audited.refl (jobs : Table UUID Job) : Audited jobs jobs := by
  intro jid job job' hjob hs hjob' hs'
  obtain rfl := Option.some.inj (hjob.symm.trans hjob')
  exact absurd hs hs'

/-- Writing one row only ends the lease of that row. -/
theorem audited_put {jobs : Table UUID Job} {id : UUID} {j' : Job}
    (h : ∀ j, jobs.get id = some j → j.state = .leased → j'.state ≠ .leased → Truthful j') :
    Audited jobs (jobs.put id j') := by
  intro jid job job' hjob hs hjob' hs'
  rcases (Table.get_put_eq_some ..).mp hjob' with ⟨rfl, rfl⟩ | ⟨-, hold⟩
  · exact h job hjob hs hs'
  · exact Audited.refl jobs jid job job' hjob hs hold hs'

theorem audited_enqueue {jobs jobs' : Table UUID Job} {now : Instant} {jid aggregate : UUID}
    {kind : Kind} {wid : Option UUID} (h : enqueue jobs now jid kind aggregate wid = .ok jobs') :
    Audited jobs jobs' := by
  obtain ⟨hfree, -, rfl⟩ := enqueue_eq_ok.mp h
  refine audited_put fun j hj => ?_
  simp [hfree] at hj

/-- A new row does not matter for the end of the lease of another one. -/
theorem audited_enqueue_put {jobs jobs' : Table UUID Job} {now : Instant} {jid aggregate : UUID}
    {kind : Kind} {wid : Option UUID} (h : enqueue jobs now jid kind aggregate wid = .ok jobs')
    {id : UUID} {j' : Job} (hj' : Truthful j') : Audited jobs (jobs'.put id j') := by
  intro k job job' hjob hs hjob' hs'
  rcases (Table.get_put_eq_some ..).mp hjob' with ⟨rfl, rfl⟩ | ⟨-, hold⟩
  · exact hj'
  · exact audited_enqueue h k job job' hjob hs hold hs'

/-! ## Closed attempts -/

/-- Closing the newest attempt with an outcome records that outcome. -/
theorem lastOutcome_modifyLast {j : Job} {history : List Attempt} {close : Attempt → Attempt}
    {outcome : AttemptOutcome} (hne : history ≠ [])
    (hj : j.attemptHistory = history.modifyLast close)
    (hclose : ∀ a, (close a).outcome = some outcome) : lastOutcome j = some outcome := by
  obtain ⟨init, a, rfl⟩ := (List.eq_nil_or_concat history).resolve_left hne
  simp only [List.concat_eq_append] at hj
  rw [List.modifyLast_concat] at hj
  simp [lastOutcome, hj, hclose]

/-- `finish` records the outcome of the state it sets. -/
theorem finish_truthful {now : Instant} {j j' : Job} {code : Option Code} {retry : Bool}
    {delay : ℕ} (h : finish now j code retry delay = .ok j') : Truthful j' := by
  obtain ⟨hne, hhistory, hstate, -⟩ := finish_eq_ok h
  have hlast := lastOutcome_modifyLast hne hhistory fun _ => rfl
  unfold Truthful
  rw [hlast, hstate]
  by_cases hagain : again j code retry = true
  · simp [hagain, outcomeFor]
  · cases code <;> simp [hagain, outcomeFor]

/-- Both cancellations of a leased job record them. -/
theorem canceledJob_truthful {now : Instant} {job : Job} (hne : job.attemptHistory ≠ []) :
    Truthful (canceledJob now (userCanceled now job.attemptHistory) job) :=
  lastOutcome_modifyLast hne rfl fun _ => rfl

/-- The webhook worker corrects the outcome together with the state. -/
theorem webhook_canceledJob_truthful {job : Job} (hne : job.attemptHistory ≠ []) :
    Truthful (WebhookWorker.canceledJob job) :=
  lastOutcome_modifyLast hne rfl fun _ => rfl

/-! ## The analysis worker -/

/-- What `complete` goes on with ends the analysis exactly when the check does. -/
theorem verdict_terminates {db : Db} {c : Claim} {row : AnalysisRun} {job : Job}
    {result result' : Option Result} {code code' : Option Code} {retry retry' : Bool}
    (h : AnalysisWorker.verdict db c row result code retry = .ok (result', code', retry')) :
    Terminates db c row job code retry ↔
      AnalysisWorker.cancels code' = true ∧ again job code' retry' = false := by
  simp only [AnalysisWorker.verdict, Tx.bind_eq_ok, assertSome_eq_ok] at h
  obtain ⟨uid, huid, h⟩ := h
  simp only [Terminates, huid, Option.some.injEq, exists_eq_left']
  cases hauth : Analysis.authorized db uid row.workspaceId c.aggregateId true with
  | ok _ =>
      simp only [hauth, Except.ok.injEq, Prod.mk.injEq] at h ⊢
      obtain ⟨-, rfl, rfl⟩ := h
      rfl
  | error f =>
      simp only [hauth] at h ⊢
      cases hf : f.appCode? with
      | none => simp [hf] at h
      | some known =>
          simp only [hf, Except.ok.injEq, Prod.mk.injEq] at h
          obtain ⟨-, rfl, rfl⟩ := h
          simp [AnalysisWorker.cancels, again]

/-- A check that ends the analysis gives `complete` a code to go on with. -/
theorem exists_verdict {db : Db} {c : Claim} {row : AnalysisRun} {job : Job}
    {code : Option Code} {retry : Bool} (h : Terminates db c row job code retry)
    (result : Option Result) :
    ∃ result' code' retry', AnalysisWorker.verdict db c row result code retry =
      .ok (result', code', retry') := by
  obtain ⟨uid, huid, h⟩ := h
  simp only [AnalysisWorker.verdict, Tx.bind_eq_ok, assertSome_eq_ok]
  cases hauth : Analysis.authorized db uid row.workspaceId c.aggregateId true with
  | ok _ => exact ⟨result, code, retry, uid, huid, by simp [hauth]⟩
  | error f =>
      simp only [hauth, Option.isSome_iff_exists] at h
      obtain ⟨known, hknown⟩ := h
      exact ⟨none, some .accessRevoked, false, uid, huid, by simp [hauth, hknown]⟩

/-- A finished job keeps a truthful entry exactly when its state is not overwritten. -/
theorem jobAfter_truthful_iff {now : Instant} {job job' : Job} {code : Option Code} {retry : Bool}
    {delay : ℕ} (h : finish now job code retry delay = .ok job') :
    Truthful (AnalysisWorker.jobAfter job' code) ↔
      ¬(AnalysisWorker.cancels code = true ∧ again job code retry = false) := by
  have htruthful := finish_truthful h
  obtain ⟨-, -, hstate, -⟩ := finish_eq_ok h
  by_cases hagain : again job code retry = true
  · simp [AnalysisWorker.jobAfter, AnalysisWorker.statusAfter, hstate, hagain, htruthful]
  · rw [Bool.not_eq_true] at hagain
    by_cases hcancels : AnalysisWorker.cancels code = true
    · -- the code is present, so the entry says that the attempt failed
      have hsome : code.isSome = true := by
        cases code with
        | none => simp [AnalysisWorker.cancels] at hcancels
        | some known => rfl
      have hdead : job'.state = .dead := by simp [hstate, hagain, hsome]
      have hlast : lastOutcome job' = some .failed := by
        rw [htruthful, hdead]
        rfl
      have hafter : AnalysisWorker.jobAfter job' code = { job' with state := .canceled } := by
        simp [AnalysisWorker.jobAfter, AnalysisWorker.statusAfter, hdead, hcancels]
      rw [hafter]
      simp only [hcancels, hagain, and_self, not_true_eq_false, iff_false]
      intro hcanceled
      have hoverwritten : lastOutcome job' = some .canceled := hcanceled
      simp [hlast] at hoverwritten
    · have hopen : AnalysisWorker.statusAfter job'.state code ≠ .canceled := by
        unfold AnalysisWorker.statusAfter
        rw [if_neg hcancels]
        split <;> [skip; split] <;> simp
      simp [AnalysisWorker.jobAfter, hopen, htruthful, hcancels]

/-- A check that ends the analysis makes `complete` write a job that is canceled
but recorded as failed. -/
theorem overrides_not_audited {w : World} (hsound : Sound (board w)) {a : Action}
    (h : Overrides w a) : ¬Audited w.db.jobs (World.step a w).2.db.jobs := by
  cases a with
  | analysisComplete c fileIds findingIds result code retry expired delay =>
      obtain ⟨wid, row, job, hwid, hrow, hopen, hjob, hends⟩ := h
      obtain ⟨result', code', retry', hverdict⟩ := exists_verdict hends result
      obtain ⟨hget, hs, -⟩ := fence_eq_some.mp hjob
      obtain ⟨job', hfinish⟩ := finish_ok ((hsound.wellFormed _ _ hget).history_ne_nil hs)
        w.db.now code' retry' delay
      have hcancels := (verdict_terminates hverdict).mp hends
      have hcommitted : AnalysisWorker.complete w.db c fileIds findingIds result code retry
          expired delay = .ok { w.db with
            jobs := w.db.jobs.put c.id (AnalysisWorker.jobAfter job' code')
            analysisRuns := w.db.analysisRuns.put c.aggregateId
              (AnalysisWorker.closed w.db.now row job' code') } := by
        simp only [AnalysisWorker.complete, Tx.bind_eq_ok, assertSome_eq_ok]
        refine ⟨wid, hwid, row, hrow, ?_⟩
        rw [if_neg (by simp [hopen])]
        simp only [Tx.bind_eq_ok]
        refine ⟨_, hverdict, ?_⟩
        cases hcode : code' with
        | none => simp [hcode, AnalysisWorker.cancels] at hcancels
        | some known =>
            subst hcode
            simp only [hjob, Tx.bind_eq_ok]
            exact ⟨(row, w.db), rfl, job', hfinish, rfl⟩
      intro haudited
      simp only [World.step, World.commit, hcommitted] at haudited
      refine (jobAfter_truthful_iff hfinish).mp ?_ hcancels
      refine haudited c.id job _ hget hs (Table.get_put_self ..) ?_
      have hsettled := finish_settled hs hfinish
      unfold AnalysisWorker.jobAfter
      split
      · simp
      · exact hsettled.state_ne
  | _ => exact absurd h id

/-! ## Every other end of a lease -/

variable {db db' : Db}

private theorem sync_audited {uid wid rid sid jid id : UUID} {page : ℕ} {number : Option ℕ}
    (h : Sync.enqueue db uid wid rid page number sid jid = .ok (id, db')) :
    Audited db.jobs db'.jobs := by
  rcases Sync.enqueue_cases h with rfl | ⟨-, _, _, _, -, hinsert⟩
  · exact .refl _
  · obtain ⟨-, jobs, hjobs, rfl⟩ := Sync.insertRun_eq_ok.mp hinsert
    exact audited_enqueue hjobs

private theorem connectOne_audited {uid wid rid cid sid jid : UUID}
    {verified : VerifiedRepository}
    (h : World.connectOne db uid wid verified rid cid sid jid = .ok db') :
    Audited db.jobs db'.jobs := by
  obtain ⟨id, db₁, run, hconnect, hsync⟩ := World.connectOne_cases h
  have hsame : db₁.jobs = db.jobs := by
    rcases connect_cases hconnect with ⟨row, -, -, rfl⟩ | ⟨-, -, configs, rfl⟩ <;> rfl
  exact hsame ▸ sync_audited hsync

private theorem analysisCancel_audited {issued : List Claim} (hsound : Sound (boardOf db issued))
    {uid wid aid : UUID} (h : Analysis.cancel db uid wid aid = .ok db') :
    Audited db.jobs db'.jobs := by
  rcases Analysis.cancel_cases h with
    rfl | ⟨row, jid, job, history, -, -, hjob, -, -, hhistory, rfl⟩
  · exact .refl _
  · refine audited_put fun j hj hs _ => ?_
    obtain rfl := Option.some.inj (hjob.symm.trans hj)
    obtain rfl : history = userCanceled db.now job.attemptHistory := by simpa [hs] using hhistory
    exact canceledJob_truthful ((hsound.wellFormed jid job hjob).history_ne_nil hs)

private theorem reviewCancel_audited {issued : List Claim} (hsound : Sound (boardOf db issued))
    {uid wid rid : UUID} (h : Review.cancel db uid wid rid = .ok db') :
    Audited db.jobs db'.jobs := by
  rcases Review.cancel_cases h with rfl | ⟨row, jid, job, -, -, hjob, -, -, rfl⟩
  · exact .refl _
  · refine audited_put fun j hj hs _ => ?_
    obtain rfl := Option.some.inj (hjob.symm.trans hj)
    exact canceledJob_truthful ((hsound.wellFormed jid job hjob).history_ne_nil hs)

private theorem syncComplete_audited {c : Claim} {ids : ℕ → UUID} {o : SyncOutcome}
    {expired : Bool} (h : SyncWorker.complete db c ids o expired = .ok db') :
    Audited db.jobs db'.jobs := by
  rcases SyncWorker.complete_cases h with
    rfl | ⟨run, code, retry, job, job', run', pulls, connections, -, -, -, hfinish, -, rfl⟩
  · exact .refl _
  · exact audited_put fun _ _ _ _ => finish_truthful hfinish

private theorem reviewComplete_audited {c : Claim} {result : Option Json} {code : Option Code}
    {expired : Bool} {incoming outgoing : ℤ}
    (h : ReviewWorker.complete db c result code expired incoming outgoing = .ok db') :
    Audited db.jobs db'.jobs := by
  obtain ⟨row, -, rfl | ⟨result', code', job, job', -, -, -, hfinish, rfl⟩⟩ :=
    ReviewWorker.complete_cases h
  · exact .refl _
  · exact audited_put fun _ _ _ _ => finish_truthful hfinish

private theorem webhook_audited {c : Claim} {expired : Bool} {sid jid : UUID}
    (h : WebhookWorker.execute db c expired sid jid = .ok db') : Audited db.jobs db'.jobs := by
  rcases WebhookWorker.execute_cases h with ⟨rfl, -⟩ |
    ⟨row, code, targets, job, job', -, -, -, hend⟩
  · exact .refl _
  rcases hend with ⟨-, hfinish, rfl⟩ | ⟨-, code', db₁, happly, hfinish, rfl⟩
  · refine audited_put fun _ _ _ _ => webhook_canceledJob_truthful ?_
    obtain ⟨hne, hhistory, -⟩ := finish_eq_ok hfinish
    rw [hhistory, ← List.length_pos_iff, length_modifyLast]
    exact List.length_pos_iff.mpr hne
  · have htruthful := finish_truthful hfinish
    cases WebhookWorker.apply_applied happly with
    | recovered => exact audited_put fun _ _ _ _ => htruthful
    | busy => exact audited_put fun _ _ _ _ => htruthful
    | requested _ _ _ _ _ _ _ _ _ hjobs => exact audited_enqueue_put hjobs htruthful
    | suspended => exact audited_put fun _ _ _ _ => htruthful

private theorem analysisComplete_audited {w : World} {c : Claim} {fileIds findingIds : ℕ → UUID}
    {result : Option Result} {code : Option Code} {retry expired : Bool} {delay : ℕ}
    (hno : ¬Overrides w
      (.analysisComplete c fileIds findingIds result code retry expired delay))
    (h : AnalysisWorker.complete w.db c fileIds findingIds result code retry expired delay =
      .ok db') : Audited w.db.jobs db'.jobs := by
  have hrow : ∃ wid row, c.workspaceId = some wid ∧
      Analysis.findRun w.db wid c.aggregateId = .ok row := by
    simp only [AnalysisWorker.complete, Tx.bind_eq_ok, assertSome_eq_ok] at h
    obtain ⟨wid, hwid, row, hrow, -⟩ := h
    exact ⟨wid, row, hwid, hrow⟩
  obtain ⟨wid, row, hwid, hrow⟩ := hrow
  rcases AnalysisWorker.complete_cases h with
    rfl | ⟨row', result', code', retry', job, job', closed, files, findings, hget, hopen,
      hverdict, hjob, hfinish, -, rfl⟩
  · exact .refl _
  · obtain rfl := Option.some.inj ((Analysis.findRun_eq_ok.mp hrow).1.symm.trans hget)
    refine audited_put fun _ _ _ _ => (jobAfter_truthful_iff hfinish).mpr fun hcancels => hno ?_
    exact ⟨wid, row, job, hwid, hrow, hopen, hjob, (verdict_terminates hverdict).mpr hcancels⟩

/-! ## The queue operations -/

private theorem claim_audited (w : World) (worker : String) (kinds : List Kind)
    (locked : List UUID) : Audited w.db.jobs (w.claim worker kinds locked).2.db.jobs := by
  unfold World.claim
  split
  · exact .refl _
  · rename_i c jobs hclaim
    obtain ⟨id, j, -, -, -, -, -, rfl⟩ := claim_eq_some hclaim
    exact audited_put fun _ _ _ hs => absurd rfl hs

private theorem heartbeat_audited (w : World) (c : Claim) :
    Audited w.db.jobs (w.heartbeat c).2.db.jobs := by
  unfold World.heartbeat
  rcases heartbeat_cases w.db.jobs w.db.now c with h | ⟨j, hfence, h⟩
  · rw [h]
    exact .refl _
  · rw [h]
    exact audited_put fun _ _ _ hs => absurd (fence_eq_some.mp hfence).2.1 hs

private theorem commit_audited (w : World) (body : Tx Db)
    (h : ∀ db', body = .ok db' → Audited w.db.jobs db'.jobs) :
    Audited w.db.jobs (w.commit body).2.db.jobs := by
  unfold World.commit
  split
  · exact h _ rfl
  · exact .refl _

private theorem reviewBegin_audited (w : World) (st : Settings) (c : Claim) (tid : UUID) :
    Audited w.db.jobs (w.reviewBegin st c tid).2.db.jobs := by
  have hkept : ∀ {plan db}, ReviewWorker.begin st w.db c = .ok (plan, db) →
      db.jobs = w.db.jobs := by
    intro plan db hbegin
    rcases ReviewWorker.begin_cases hbegin with ⟨-, rfl⟩ | ⟨row, job, -, -, -, -, -, -, rfl⟩ <;>
      rfl
  unfold World.reviewBegin
  split
  · exact .refl _
  · rename_i db hbegin
    exact hkept hbegin ▸ .refl _
  · rename_i plan db hbegin
    split
    · exact .refl _
    · exact hkept hbegin ▸ .refl _

private theorem reviewReserve_audited (w : World) (tid : UUID) (incoming outgoing : ℤ) :
    Audited w.db.jobs (w.reviewReserve tid incoming outgoing).2.db.jobs := by
  have hkept : ∀ {c expected made db},
      ReviewWorker.reserve w.db c expected incoming outgoing = .ok (made, db) →
      db.jobs = w.db.jobs := by
    intro c expected made db hreserve
    obtain ⟨row, -, ⟨-, rfl⟩ | ⟨job, -, -, -, -, -, -, rfl⟩⟩ :=
      ReviewWorker.reserve_cases hreserve <;> rfl
  unfold World.reviewReserve
  split
  · exact .refl _
  · split
    · exact .refl _
    · split
      · exact .refl _
      · rename_i db hreserve
        exact hkept hreserve ▸ .refl _
      · rename_i db hreserve
        exact hkept hreserve ▸ .refl _

/-- Every step that does not override a finished job records the lease it ends. -/
theorem step_audited {w : World} (hsound : Sound (board w)) {a : Action}
    (hno : ¬Overrides w a) : Audited w.db.jobs (World.step a w).2.db.jobs := by
  cases a with
  | tick elapsed => exact .refl _
  | setUser uid user => exact .refl _
  | setMember wid uid member => exact .refl _
  | addWorkspace wid =>
      refine commit_audited w _ fun db' h => ?_
      simp only [World.addWorkspace, Tx.bind_eq_ok] at h
      obtain ⟨workspaces, -, h⟩ := h
      obtain rfl := Except.ok.inj h
      exact .refl _
  | setStandards rows => exact .refl _
  | connect uid wid verified rid cid sid jid =>
      exact commit_audited w _ fun db' h => connectOne_audited h
  | disconnect uid wid rid =>
      refine commit_audited w _ fun db' h => ?_
      obtain ⟨row, -, rfl⟩ := disconnect_cases h
      exact .refl _
  | sync uid wid rid page number sid jid =>
      refine commit_audited w _ fun db' h => ?_
      obtain ⟨⟨id, db₁⟩, hbody, rfl⟩ := (Tx.map_eq_ok ..).mp h
      exact sync_audited hbody
  | analysisStart st uid wid pid rerunOf aid jid =>
      refine commit_audited w _ fun db' h => ?_
      obtain ⟨⟨id, db₁⟩, hbody, rfl⟩ := (Tx.map_eq_ok ..).mp h
      rcases Analysis.start_cases hbody with rfl | ⟨run, jobs, -, -, hjobs, rfl⟩
      · exact .refl _
      · exact audited_enqueue hjobs
  | analysisCancel uid wid aid =>
      exact commit_audited w _ fun db' h => analysisCancel_audited hsound h
  | reviewStart st uid wid aid consent rerun purpose waited rid jid =>
      refine commit_audited w _ fun db' h => ?_
      obtain ⟨⟨id, db₁⟩, hbody, rfl⟩ := (Tx.map_eq_ok ..).mp h
      rcases Review.start_cases hbody with rfl | ⟨run, jobs, -, -, hjobs, rfl⟩
      · exact .refl _
      · exact audited_enqueue hjobs
  | reviewCancel uid wid rid =>
      exact commit_audited w _ fun db' h => reviewCancel_audited hsound h
  | receive event stale did jid =>
      simp only [World.step, World.answer]
      split
      · rename_i status db h
        rcases Webhook.receive_cases h with ⟨-, rfl⟩ | ⟨-, -, repo, jobs, -, -, hjobs, rfl⟩
        · exact .refl _
        · exact audited_enqueue hjobs
      · exact .refl _
  | claim worker kinds locked => exact claim_audited w worker kinds locked
  | expired kinds rows => exact .refl _
  | heartbeat c => exact heartbeat_audited w c
  | syncBegin c =>
      refine commit_audited w _ fun db' h => ?_
      obtain ⟨⟨plan, db₁⟩, hbody, rfl⟩ := (Tx.map_eq_ok ..).mp h
      rcases SyncWorker.begin_cases hbody with ⟨-, rfl⟩ | ⟨run, repo, job, -, -, -, -, -, rfl⟩ <;>
        exact .refl _
  | syncComplete c ids o expired =>
      exact commit_audited w _ fun db' h => syncComplete_audited h
  | analysisBegin st c =>
      refine commit_audited w _ fun db' h => ?_
      obtain ⟨⟨plan, db₁⟩, hbody, rfl⟩ := (Tx.map_eq_ok ..).mp h
      rcases AnalysisWorker.begin_cases hbody with ⟨-, rfl⟩ | ⟨row, job, -, -, -, -, rfl⟩ <;>
        exact .refl _
  | analysisCheckpoint c =>
      refine commit_audited w _ fun db' h => ?_
      obtain ⟨-, -, rfl⟩ := (Tx.map_eq_ok ..).mp h
      exact .refl _
  | analysisComplete c fileIds findingIds result code retry expired delay =>
      exact commit_audited w _ fun db' h => analysisComplete_audited hno h
  | reviewBegin st c tid => exact reviewBegin_audited w st c tid
  | reviewReserve tid incoming outgoing => exact reviewReserve_audited w tid incoming outgoing
  | reviewCall tid =>
      simp only [World.step, World.reviewCall]
      split <;> exact .refl _
  | reviewStillAuthorized tid =>
      simp only [World.step, World.reviewStillAuthorized]
      split
      · split <;> exact .refl _
      · exact .refl _
  | reviewComplete c result code expired incoming outgoing =>
      exact commit_audited w _ fun db' h => reviewComplete_audited h
  | webhookExecute c expired sid jid =>
      exact commit_audited w _ fun db' h => webhook_audited h

/-! ## The audit -/

/-- An event that ends a lease records the outcome of the state it leaves the job in. -/
def Recorded (e : Transition.Event World Action Outcome) : Prop :=
  Audited e.before.db.jobs (World.step e.action e.before).2.db.jobs

/-- In every execution, each lease that ends is recorded truthfully exactly while
no completion of an analysis overrides its finished job. -/
theorem history_truthful_iff {now : Instant} {trace : World.Trace} {w : World}
    (h : World.Run now trace w) :
    (∀ e ∈ trace, Recorded e) ↔ ∀ e ∈ trace, ¬Overrides e.before e.action := by
  constructor
  · intro hrecorded e he hoverrides
    obtain ⟨⟨earlier, hbefore⟩, -, -⟩ := h.passed he
    exact overrides_not_audited (run_sound hbefore) hoverrides (hrecorded e he)
  · intro hno e he
    obtain ⟨⟨earlier, hbefore⟩, -, -⟩ := h.passed he
    exact step_audited (run_sound hbefore) (hno e he)

/-- The lease that ended without a report is recorded as expired. -/
theorem history_truthful_iff_recovering :
    ∃ e ∈ Transition.events World.step (World.initial 0) recovering,
      e.action = .syncComplete (syncClaim 1 "first") id
        ⟨[], some .leaseExpired, true, 5, none, false⟩ true ∧ Recorded e := by
  have hrecorded : ∀ e ∈ Transition.events World.step (World.initial 0) recovering,
      Recorded e := by
    refine (history_truthful_iff (Transition.exec_run _ recovering (by decide))).mpr ?_
    intro e he hoverrides
    have haction := Transition.mem_events he
    simp only [recovering, syncing, connecting, List.cons_append, List.nil_append, List.mem_cons,
      List.not_mem_nil, or_false] at haction
    rcases haction with h | h | h | h | h | h | h | h | h | h | h <;>
      simp [h, Overrides] at hoverrides
  obtain ⟨e, he, haction⟩ : ∃ e ∈ Transition.events World.step (World.initial 0) recovering,
      e.action = .syncComplete (syncClaim 1 "first") id
        ⟨[], some .leaseExpired, true, 5, none, false⟩ true := by
    rw [← List.mem_map, Transition.map_action_events]
    simp [recovering]
  exact ⟨e, he, haction, hrecorded e he⟩

/-- An analysis is running when its requester leaves the workspace. -/
def leaving : List Action :=
  syncing ++ [
    .syncComplete (syncClaim 1 "first") (fun _ => 7) AnalysisWorker.pulled false,
    .analysisStart AnalysisWorker.settings 2 1 7 none 8 9, .claim "first" [.analyzePr] [],
    .analysisBegin AnalysisWorker.settings AnalysisWorker.analysisClaim,
    .setMember 1 2 ⟨.owner, .left⟩]

/-- The worker reports its result, finds the access revoked and cancels the job,
whose history still says that the attempt failed. -/
def leavingReport : Action :=
  .analysisComplete AnalysisWorker.analysisClaim id id (some AnalysisWorker.analyzed) none false
    false 5

theorem revoked_recorded_failed :
    ¬∀ now trace w, World.Run now trace w → ∀ a, World.allowed a w →
      ∀ jid job job', w.db.jobs.get jid = some job → job.state = .leased →
        (World.step a w).2.db.jobs.get jid = some job' → job'.state ≠ .leased →
        Truthful job' := by
  intro hclaim
  have hbefore : ((reach leaving).db.jobs.get 9).map (·.state) = some .leased := by decide +kernel
  have hafter : ((World.step leavingReport (reach leaving)).2.db.jobs.get 9).map
      (fun j => (j.state, decide (Truthful j))) = some (.canceled, false) := by decide +kernel
  obtain ⟨job, hjob, hs⟩ := Option.map_eq_some_iff.mp hbefore
  obtain ⟨job', hjob', hlie⟩ := Option.map_eq_some_iff.mp hafter
  obtain ⟨hs', hlie⟩ := Prod.mk.inj hlie
  refine of_decide_eq_false hlie ?_
  exact hclaim 0 _ _ (Transition.exec_run _ leaving (by decide +kernel)) leavingReport
    (by decide +kernel) 9 job job' hjob hs hjob' (by simp [hs'])

end Prism.Lifecycle
