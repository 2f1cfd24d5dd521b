import Prism.Verification.Lifecycle.Correctness
import Prism.Verification.Review.Equations
import Prism.Verification.Webhook.Equations

/-! Every step of the system is a sequence of moves of its board. -/

namespace Prism.Lifecycle

open Prism.Jobs

variable {db db' : Db} {issued : List Claim} {c : Claim}

/-! ## Statuses after a write -/

private theorem map_put {ρ : Type} (t : Table UUID ρ) (k id : UUID) (r : ρ) (f : ρ → Status) :
    ((t.put k r).get id).map f = if id = k then some (f r) else (t.get id).map f := by
  rw [Table.get_put]
  split <;> rfl

theorem statusIn_syncRuns {id : UUID} {run : PullRequestSyncRun}
    (hs : db'.syncRuns = db.syncRuns.put id run) (ha : db'.analysisRuns = db.analysisRuns)
    (hr : db'.reviewRuns = db.reviewRuns) (hd : db'.deliveries = db.deliveries) :
    statusIn db' = mark (statusIn db) .syncPullRequests id (ofRun run.status) := by
  funext kind id'
  cases kind <;> simp [statusIn, mark, hs, ha, hr, hd, map_put]

theorem statusIn_analysisRuns {id : UUID} {run : AnalysisRun}
    (hs : db'.syncRuns = db.syncRuns) (ha : db'.analysisRuns = db.analysisRuns.put id run)
    (hr : db'.reviewRuns = db.reviewRuns) (hd : db'.deliveries = db.deliveries) :
    statusIn db' = mark (statusIn db) .analyzePr id (ofRun run.status) := by
  funext kind id'
  cases kind <;> simp [statusIn, mark, hs, ha, hr, hd, map_put]

theorem statusIn_reviewRuns {id : UUID} {run : ReviewRun}
    (hs : db'.syncRuns = db.syncRuns) (ha : db'.analysisRuns = db.analysisRuns)
    (hr : db'.reviewRuns = db.reviewRuns.put id run) (hd : db'.deliveries = db.deliveries) :
    statusIn db' = mark (statusIn db) .explainFindings id (ofRun run.status) := by
  funext kind id'
  cases kind <;> simp [statusIn, mark, hs, ha, hr, hd, map_put]

theorem statusIn_deliveries {id : UUID} {row : WebhookDelivery}
    (hs : db'.syncRuns = db.syncRuns) (ha : db'.analysisRuns = db.analysisRuns)
    (hr : db'.reviewRuns = db.reviewRuns) (hd : db'.deliveries = db.deliveries.put id row) :
    statusIn db' = mark (statusIn db) .processWebhook id (ofDelivery row.status) := by
  funext kind id'
  cases kind <;> simp [statusIn, mark, hs, ha, hr, hd, map_put]

theorem mark_eq_self {status : Kind → UUID → Option Status} {kind : Kind} {id : UUID}
    {st : Status} (h : status kind id = some st) : mark status kind id st = status := by
  funext kind' id'
  unfold mark
  split
  · rename_i heq
    rw [heq.1, heq.2, h]
  · rfl

/-! ## Boards after a write -/

/-- A write of one row of a kind of work is a move that marks its status. -/
private theorem moves_of_mark {jobs : Table UUID Job} {kind : Kind} {id : UUID} {st : Status}
    (hst : statusIn db' = mark (statusIn db) kind id st) (hn : db'.now = db.now)
    (hj : db'.jobs = jobs)
    (hmove : Move (boardOf db issued) { boardOf db issued with
      jobs := jobs, status := mark (statusIn db) kind id st }) :
    Moves (boardOf db issued) (boardOf db' issued) := by
  refine .single ?_
  have heq : boardOf db' issued = { boardOf db issued with
      jobs := jobs, status := mark (statusIn db) kind id st } := by
    simp only [boardOf, hst, hn, hj]
  rwa [heq]

theorem moves_of_eq {b b' : Board} (h : b' = b) : Moves b b' := by
  rw [h]

/-- Rewriting a review run under its status is invisible on the board. -/
theorem board_review_kept {id : UUID} {row run : ReviewRun}
    (hget : db.reviewRuns.get id = some row) (hr : db'.reviewRuns = db.reviewRuns.put id run)
    (hs : db'.syncRuns = db.syncRuns) (ha : db'.analysisRuns = db.analysisRuns)
    (hd : db'.deliveries = db.deliveries) (hn : db'.now = db.now) (hj : db'.jobs = db.jobs)
    (hstatus : run.status = row.status) : boardOf db' issued = boardOf db issued := by
  have hst : statusIn db' = statusIn db := by
    rw [statusIn_reviewRuns hs ha hr hd]
    apply mark_eq_self
    simp [statusIn, hget, hstatus]
  simp only [boardOf, hst, hn, hj]

/-! ## Moves through a fence -/

/-- A claim that passes the fence controls the job of its own work. -/
theorem fence_granted (hsound : Sound (boardOf db issued)) (hc : c ∈ issued) {expired : Bool}
    {job : Job} (hfence : fence db.jobs db.now c expired = some job) :
    db.jobs.get c.id = some job ∧ job.state = .leased ∧ job.kind = c.kind ∧
      job.aggregateId = c.aggregateId := by
  obtain ⟨hget, hs, -⟩ := fence_eq_some.mp hfence
  obtain ⟨job', hget', hgranted⟩ := hsound.granted c hc
  obtain rfl := Option.some.inj (hget.symm.trans hget')
  exact ⟨hget, hs, hgranted.kind.symm, hgranted.aggregate.symm⟩

/-- A new job takes a free identifier, so every fenced row stays fenced. -/
theorem fence_enqueued {jobs jobs' : Table UUID Job} {now : Instant} {jid aggregate : UUID}
    {kind : Kind} {wid : Option UUID} (h : enqueue jobs now jid kind aggregate wid = .ok jobs')
    {expired : Bool} {job : Job} (hfence : fence jobs now c expired = some job) :
    fence jobs' now c expired = some job := by
  obtain ⟨hfree, -, rfl⟩ := enqueue_eq_ok.mp h
  rw [fence_eq_some] at hfence ⊢
  have hid : c.id ≠ jid := by
    intro hid
    simp [hid, hfree] at hfence
  exact ⟨(Table.get_put_of_ne _ _ hid).trans hfence.1, hfence.2⟩

private theorem start_fenced (hsound : Sound (boardOf db issued)) (hc : c ∈ issued) {job : Job}
    (hfence : fence db.jobs db.now c false = some job) :
    Move (boardOf db issued) { boardOf db issued with
      status := mark (statusIn db) c.kind c.aggregateId .running } := by
  obtain ⟨hget, hs, hkind, hagg⟩ := fence_granted hsound hc hfence
  have hmove := Move.start (boardOf db issued) c.id job hget hs
  rwa [hkind, hagg] at hmove

private theorem settle_fenced (hsound : Sound (boardOf db issued)) (hc : c ∈ issued)
    {expired : Bool} {job job' : Job} {st : Status}
    (hfence : fence db.jobs db.now c expired = some job) (hsettled : Settled job job')
    (hterm : st.terminal = job'.state.completed) (hrun : st ≠ .running) :
    Move (boardOf db issued) { boardOf db issued with
      jobs := db.jobs.put c.id job'
      status := mark (statusIn db) c.kind c.aggregateId st } := by
  obtain ⟨hget, hs, hkind, hagg⟩ := fence_granted hsound hc hfence
  have hmove := Move.settle (boardOf db issued) c.id job job' st hget (by rw [hs]; rfl) hsettled
    hterm hrun
  rwa [hkind, hagg] at hmove

/-- The status every worker gives a run whose job it finished. -/
private theorem closed_status {job : Job} (hs : job.state ≠ .leased) (failed : Bool) :
    let st := if job.state = .ready then RunStatus.pending
      else if failed then .failed else .completed
    (ofRun st).terminal = job.state.completed ∧ ofRun st ≠ .running := by
  cases failed <;> cases hstate : job.state <;> simp_all [JobState.completed] <;> decide

/-! ## Requests -/

/-- Jobs are enqueued together with the row of new work. -/
private theorem enqueue_move (issued : List Claim) {jobs : Table UUID Job} {jid aggregate : UUID} {kind : Kind}
    {wid : Option UUID} (h : enqueue db.jobs db.now jid kind aggregate wid = .ok jobs)
    (hnew : statusIn db kind aggregate = none)
    (hw : wid.isSome = true ∨ kind = .processWebhook) :
    Move (boardOf db issued) { boardOf db issued with
      jobs := jobs, status := mark (statusIn db) kind aggregate .pending } := by
  obtain ⟨hfree, hother, rfl⟩ := enqueue_eq_ok.mp h
  exact .enqueue (boardOf db issued) jid kind aggregate wid hfree hother hnew hw

private theorem insertRun_moves {sid jid : UUID} {run : PullRequestSyncRun}
    (hrun : run.status = .pending) (h : Sync.insertRun db sid jid run = .ok db') :
    Moves (boardOf db issued) (boardOf db' issued) := by
  obtain ⟨hnone, jobs, hjobs, rfl⟩ := Sync.insertRun_eq_ok.mp h
  have hmove := enqueue_move issued hjobs (by simp [statusIn, hnone]) (.inl rfl)
  have hst : statusIn { db with syncRuns := db.syncRuns.put sid run, jobs := jobs } =
      mark (statusIn db) .syncPullRequests sid (ofRun run.status) :=
    statusIn_syncRuns rfl rfl rfl rfl
  rw [hrun] at hst
  exact moves_of_mark hst rfl rfl hmove

theorem sync_moves {uid wid rid sid jid id : UUID} {page : ℕ} {number : Option ℕ}
    (h : Sync.enqueue db uid wid rid page number sid jid = .ok (id, db')) :
    Moves (boardOf db issued) (boardOf db' issued) := by
  rcases Sync.enqueue_cases h with rfl | ⟨-, repo, cursor, cached, -, hinsert⟩
  · exact .refl
  · exact insertRun_moves rfl hinsert

theorem connectOne_moves {uid wid rid cid sid jid : UUID} {verified : VerifiedRepository}
    (h : World.connectOne db uid wid verified rid cid sid jid = .ok db') :
    Moves (boardOf db issued) (boardOf db' issued) := by
  simp only [World.connectOne, Tx.bind_eq_ok] at h
  obtain ⟨⟨id, db₁⟩, hconnect, ⟨run, db₂⟩, hsync, h⟩ := h
  obtain rfl := Except.ok.inj h
  have hsame : boardOf db₁ issued = boardOf db issued := by
    rcases connect_cases hconnect with ⟨row, -, -, rfl⟩ | ⟨-, -, configs, rfl⟩ <;> rfl
  exact hsame ▸ sync_moves hsync

theorem disconnect_moves {uid wid rid : UUID} (h : disconnect db uid wid rid = .ok db') :
    Moves (boardOf db issued) (boardOf db' issued) := by
  obtain ⟨row, -, rfl⟩ := disconnect_cases h
  exact .refl

theorem analysisStart_moves {st : Settings} {uid wid pid aid jid id : UUID}
    {rerunOf : Option UUID}
    (h : Analysis.start st db uid wid pid rerunOf aid jid = .ok (id, db')) :
    Moves (boardOf db issued) (boardOf db' issued) := by
  rcases Analysis.start_cases h with rfl | ⟨run, jobs, hadmitted, hnone, hjobs, rfl⟩
  · exact .refl
  · obtain ⟨inputs, generation, rfl⟩ := hadmitted.new
    have hmove := enqueue_move issued hjobs (by simp [statusIn, hnone]) (.inl rfl)
    exact moves_of_mark (statusIn_analysisRuns rfl rfl rfl rfl) rfl rfl hmove

theorem reviewStart_moves {st : Settings} {uid wid aid rid jid id : UUID} {consent : Bool}
    {rerun : Option UUID} {purpose : Purpose} {waited : ℕ}
    (h : Review.start st db uid wid aid consent rerun purpose waited rid jid = .ok (id, db')) :
    Moves (boardOf db issued) (boardOf db' issued) := by
  rcases Review.start_cases h with rfl | ⟨run, jobs, hadmitted, hnone, hjobs, rfl⟩
  · exact .refl
  · obtain ⟨snap, purpose, mode, versions, generation, key, rfl⟩ := hadmitted.new
    have hmove := enqueue_move issued hjobs (by simp [statusIn, hnone]) (.inl rfl)
    exact moves_of_mark (statusIn_reviewRuns rfl rfl rfl rfl) rfl rfl hmove

theorem receive_moves {event : Event} {stale : Bool} {did jid : UUID} {status : ℕ}
    (h : Webhook.receive db event stale did jid = .ok (status, db')) :
    Moves (boardOf db issued) (boardOf db' issued) := by
  rcases Webhook.receive_cases h with
    ⟨-, rfl⟩ | ⟨-, -, repo, jobs, -, hnone, hjobs, rfl⟩
  · exact .refl
  · have hmove := enqueue_move issued hjobs (by simp [statusIn, hnone]) (.inr rfl)
    exact moves_of_mark (statusIn_deliveries rfl rfl rfl rfl) rfl rfl hmove

/-! ## Cancellation -/

private theorem closing_userCanceled (now : Instant) :
    Closing fun a => { a with
      finishedAt := some now, outcome := some .canceled, errorCode := some .userCanceled } :=
  ⟨fun _ => rfl, fun _ => rfl, fun _ => by simp⟩

private theorem canceledJob_settled {now : Instant} {job : Job} {history : List Attempt}
    (hhistory : history = userCanceled now job.attemptHistory ∨
      job.state = .ready ∧ history = job.attemptHistory) :
    Settled job (canceledJob now history job) :=
  { kind := rfl
    aggregate := rfl
    workspace := rfl
    max_attempts := rfl
    attempts := rfl
    generation := rfl
    state_ne := by simp [canceledJob]
    lease_until := rfl
    claimed_by := rfl
    completed_at := rfl
    retried := by simp [canceledJob]
    history := ⟨_, hhistory.imp_left fun h => ⟨closing_userCanceled now, h⟩⟩ }

/-- Canceling open work settles its job, whatever worker holds it. -/
private theorem cancel_move (hsound : Sound (boardOf db issued)) {jid : UUID} {job : Job}
    {history : List Attempt} {st : Status} (hget : db.jobs.get jid = some job)
    (hst : statusIn db job.kind job.aggregateId = some st) (hopen : st.terminal = false)
    (hhistory : history = userCanceled db.now job.attemptHistory ∨
      job.state = .ready ∧ history = job.attemptHistory) :
    Move (boardOf db issued) { boardOf db issued with
      jobs := db.jobs.put jid (canceledJob db.now history job)
      status := mark (statusIn db) job.kind job.aggregateId .canceled } :=
  have hfollows := hsound.follows hget hst
  .settle (boardOf db issued) jid job _ .canceled hget (hfollows.terminal.symm.trans hopen)
    (canceledJob_settled hhistory) rfl (by simp)

theorem analysisCancel_moves (hsound : Sound (boardOf db issued)) {uid wid aid : UUID}
    (h : Analysis.cancel db uid wid aid = .ok db') :
    Moves (boardOf db issued) (boardOf db' issued) := by
  rcases Analysis.cancel_cases h with
    rfl | ⟨row, jid, job, history, hrow, hopen, hjob, hkind, rfl, hhistory, rfl⟩
  · exact .refl
  · have hst : statusIn db job.kind job.aggregateId = some (ofRun row.status) := by
      simp [statusIn, hkind, hrow]
    have hfollows := hsound.follows hjob hst
    have hhistory' : history = userCanceled db.now job.attemptHistory ∨
        job.state = .ready ∧ history = job.attemptHistory := by
      by_cases hs : job.state = .leased
      · exact .inl (by simpa [hs] using hhistory)
      · refine .inr ⟨?_, by simpa [hs] using hhistory⟩
        have hterm := hfollows.terminal
        rw [terminal_ofRun, hopen] at hterm
        cases hstate : job.state with
        | ready => rfl
        | leased => exact absurd hstate hs
        | _ => simp [hstate, JobState.completed] at hterm
    have hmove := cancel_move hsound hjob hst (by simpa using hopen) hhistory'
    rw [hkind] at hmove
    exact moves_of_mark (statusIn_analysisRuns rfl rfl rfl rfl) rfl rfl hmove

theorem reviewCancel_moves (hsound : Sound (boardOf db issued)) {uid wid rid : UUID}
    (h : Review.cancel db uid wid rid = .ok db') :
    Moves (boardOf db issued) (boardOf db' issued) := by
  rcases Review.cancel_cases h with rfl | ⟨row, jid, job, hrow, hopen, hjob, hkind, rfl, rfl⟩
  · exact .refl
  · have hst : statusIn db job.kind job.aggregateId = some (ofRun row.status) := by
      simp [statusIn, hkind, hrow]
    have hmove := cancel_move hsound hjob hst (by simpa using hopen) (.inl rfl)
    rw [hkind] at hmove
    exact moves_of_mark (statusIn_reviewRuns rfl rfl rfl rfl) rfl rfl hmove

/-! ## Workers -/

theorem syncBegin_moves (hsound : Sound (boardOf db issued)) (hc : c ∈ issued)
    (hkind : c.kind = .syncPullRequests) {plan : Option FetchPlan}
    (h : SyncWorker.begin db c = .ok (plan, db')) :
    Moves (boardOf db issued) (boardOf db' issued) := by
  rcases SyncWorker.begin_cases h with ⟨-, rfl⟩ | ⟨run, repo, job, -, -, -, hjob, -, rfl⟩
  · exact .refl
  · have hmove := start_fenced hsound hc hjob
    rw [hkind] at hmove
    exact moves_of_mark (statusIn_syncRuns rfl rfl rfl rfl) rfl rfl hmove

theorem syncComplete_moves (hsound : Sound (boardOf db issued)) (hc : c ∈ issued)
    (hkind : c.kind = .syncPullRequests) {ids : ℕ → UUID} {o : SyncOutcome} {expired : Bool}
    (h : SyncWorker.complete db c ids o expired = .ok db') :
    Moves (boardOf db issued) (boardOf db' issued) := by
  rcases SyncWorker.complete_cases h with
    rfl | ⟨run, code, retry, job, job', run', pulls, connections, -, -, hjob, hfinish, -, rfl⟩
  · exact .refl
  · have hs := (fence_granted hsound hc hjob).2.1
    have hsettled := finish_settled hs hfinish
    obtain ⟨hterm, hrun⟩ := closed_status hsettled.state_ne code.isSome
    have hmove := settle_fenced hsound hc hjob hsettled hterm hrun
    rw [hkind] at hmove
    exact moves_of_mark (statusIn_syncRuns rfl rfl rfl rfl) rfl rfl hmove

theorem analysisBegin_moves (hsound : Sound (boardOf db issued)) (hc : c ∈ issued)
    (hkind : c.kind = .analyzePr) {st : Settings} {plan : Option AnalysisPlan}
    (h : AnalysisWorker.begin st db c = .ok (plan, db')) :
    Moves (boardOf db issued) (boardOf db' issued) := by
  rcases AnalysisWorker.begin_cases h with ⟨-, rfl⟩ | ⟨row, job, -, -, -, hjob, rfl⟩
  · exact .refl
  · have hmove := start_fenced hsound hc hjob
    rw [hkind] at hmove
    exact moves_of_mark (statusIn_analysisRuns rfl rfl rfl rfl) rfl rfl hmove

/-- The job and the run of a completed analysis agree, also when the run overrides
the job with a cancellation. -/
private theorem analysis_settled {now : Instant} {job job' : Job} {code : Option Code}
    {retry : Bool} {delay : ℕ} (hs : job.state = .leased)
    (hfinish : finish now job code retry delay = .ok job') :
    Settled job (AnalysisWorker.jobAfter job' code) ∧
      (ofRun (AnalysisWorker.statusAfter job'.state code)).terminal =
        (AnalysisWorker.jobAfter job' code).state.completed ∧
      ofRun (AnalysisWorker.statusAfter job'.state code) ≠ .running := by
  have hsettled := finish_settled hs hfinish
  have hne := hsettled.state_ne
  have hdone := hsettled.completed_at
  unfold AnalysisWorker.jobAfter AnalysisWorker.statusAfter
  cases hstate : job'.state with
  | ready =>
      exact ⟨by simpa using hsettled, by simp [hstate, JobState.completed, RunStatus.terminal],
        by simp [ofRun]⟩
  | leased => exact absurd hstate hne
  | _ =>
      rw [hstate] at hdone
      have hcanceled := hsettled.canceled hdone.symm
      by_cases hcancel : AnalysisWorker.cancels code = true <;> cases code <;>
        simp_all [JobState.completed, Status.terminal, ofRun]

theorem analysisComplete_moves (hsound : Sound (boardOf db issued)) (hc : c ∈ issued)
    (hkind : c.kind = .analyzePr) {fileIds findingIds : ℕ → UUID} {result : Option Result}
    {code : Option Code} {retry expired : Bool} {delay : ℕ}
    (h : AnalysisWorker.complete db c fileIds findingIds result code retry expired delay =
      .ok db') :
    Moves (boardOf db issued) (boardOf db' issued) := by
  rcases AnalysisWorker.complete_cases h with
    rfl | ⟨row, result', code', retry', job, job', row', files, findings, -, -, -, hjob, hfinish,
      -, rfl⟩
  · exact .refl
  · have hs := (fence_granted hsound hc hjob).2.1
    obtain ⟨hsettled, hterm, hrun⟩ := analysis_settled hs hfinish
    have hmove := settle_fenced hsound hc hjob hsettled hterm hrun
    rw [hkind] at hmove
    exact moves_of_mark (statusIn_analysisRuns rfl rfl rfl rfl) rfl rfl hmove

theorem reviewBegin_moves (hsound : Sound (boardOf db issued)) (hc : c ∈ issued)
    (hkind : c.kind = .explainFindings) {st : Settings} {plan : Option ReviewPlan}
    (h : ReviewWorker.begin st db c = .ok (plan, db')) :
    Moves (boardOf db issued) (boardOf db' issued) := by
  rcases ReviewWorker.begin_cases h with ⟨-, rfl⟩ | ⟨row, job, -, -, -, -, -, hjob, rfl⟩
  · exact .refl
  · have hmove := start_fenced hsound hc hjob
    rw [hkind] at hmove
    exact moves_of_mark (statusIn_reviewRuns rfl rfl rfl rfl) rfl rfl hmove

/-- Reservations are invisible on the board. -/
theorem reserve_board {expected : ℕ} {incoming outgoing : ℤ} {made : Bool}
    (h : ReviewWorker.reserve db c expected incoming outgoing = .ok (made, db')) :
    boardOf db' issued = boardOf db issued := by
  obtain ⟨row, hrow, ⟨-, rfl⟩ | ⟨job, -, -, -, -, -, -, rfl⟩⟩ := ReviewWorker.reserve_cases h
  · exact board_review_kept hrow rfl rfl rfl rfl rfl rfl rfl
  · exact board_review_kept hrow rfl rfl rfl rfl rfl rfl rfl

theorem reviewComplete_moves (hsound : Sound (boardOf db issued)) (hc : c ∈ issued)
    (hkind : c.kind = .explainFindings) {result : Option Json} {code : Option Code}
    {expired : Bool} {incoming outgoing : ℤ}
    (h : ReviewWorker.complete db c result code expired incoming outgoing = .ok db') :
    Moves (boardOf db issued) (boardOf db' issued) := by
  obtain ⟨row, hrow, rfl | ⟨result', code', job, job', -, -, hjob, hfinish, rfl⟩⟩ :=
    ReviewWorker.complete_cases h
  · exact moves_of_eq (board_review_kept hrow rfl rfl rfl rfl rfl rfl rfl)
  · have hs := (fence_granted hsound hc hjob).2.1
    have hsettled := finish_settled hs hfinish
    -- reviews are never retried, so the finished job is not queued again
    have hready : job'.state ≠ .ready := by
      intro hready
      rw [(finish_eq_ok hfinish).2.2.1] at hready
      cases code' <;> simp [again] at hready
    obtain ⟨hterm, hrun⟩ := closed_status hsettled.state_ne code'.isSome
    simp only [hready, if_false] at hterm hrun
    have hmove := settle_fenced hsound hc hjob hsettled hterm hrun
    rw [hkind] at hmove
    exact moves_of_mark (statusIn_reviewRuns rfl rfl rfl rfl) rfl rfl hmove

/-- How the webhook worker closes the attempt of a delivery that lost its connection. -/
private def cancelAttempt (now : Instant) (outcome : AttemptOutcome) (code : Option Code)
    (a : Attempt) : Attempt :=
  { closeAttempt now outcome code a with outcome := some .canceled }

private theorem webhook_canceled {now : Instant} {job job' : Job} {code : Option Code}
    (hs : job.state = .leased) (hfinish : finish now job code false 5 = .ok job') :
    Settled job (WebhookWorker.canceledJob job') := by
  have hsettled := finish_settled hs hfinish
  obtain ⟨-, hhistory, -, hcompleted, -⟩ := finish_eq_ok hfinish
  have hdone : job'.completedAt.isSome = true := by simp [hcompleted, again]
  have hcanceled := hsettled.canceled hdone
  refine
    { kind := hcanceled.kind
      aggregate := hcanceled.aggregate
      workspace := hcanceled.workspace
      max_attempts := hcanceled.max_attempts
      attempts := hcanceled.attempts
      generation := hcanceled.generation
      state_ne := hcanceled.state_ne
      lease_until := hcanceled.lease_until
      claimed_by := hcanceled.claimed_by
      completed_at := hcanceled.completed_at
      retried := hcanceled.retried
      history := ⟨cancelAttempt now
        (if again job code false then .retry else if code.isSome then .failed else .succeeded)
        code, .inl ⟨?_, ?_⟩⟩ }
  · exact ⟨fun _ => rfl, fun _ => rfl, fun _ => by simp [cancelAttempt, closeAttempt]⟩
  · simp only [WebhookWorker.canceledJob, hhistory, modifyLast_modifyLast]
    rfl

private theorem delivery_status {job : Job} (hs : job.state ≠ .leased) (failed : Bool) :
    let st := if job.state = .ready then DeliveryStatus.pending
      else if failed then .failed else .processed
    (ofDelivery st).terminal = job.state.completed ∧ ofDelivery st ≠ .running := by
  cases failed <;> cases hstate : job.state <;> simp_all [JobState.completed] <;> decide

/-- The end of a delivery after its effects, on the database they left. -/
private theorem webhook_closed (hsound : Sound (boardOf db issued)) (hc : c ∈ issued)
    (hkind : c.kind = .processWebhook) {expired : Bool} {job job' : Job} {row : WebhookDelivery}
    {now : Instant} {code : Option Code} {retry : Bool} {delay : ℕ}
    (hjob : fence db.jobs db.now c expired = some job)
    (hfinish : finish now job code retry delay = .ok job') :
    Moves (boardOf db issued) (boardOf { db with
      jobs := db.jobs.put c.id job'
      deliveries := db.deliveries.put c.aggregateId
        (WebhookWorker.closed now row job' code) } issued) := by
  have hs := (fence_granted hsound hc hjob).2.1
  have hsettled := finish_settled hs hfinish
  obtain ⟨hterm, hrun⟩ := delivery_status hsettled.state_ne code.isSome
  have hmove := settle_fenced hsound hc hjob hsettled hterm hrun
  rw [hkind] at hmove
  exact moves_of_mark (statusIn_deliveries rfl rfl rfl rfl) rfl rfl hmove

theorem webhook_moves (hsound : Sound (boardOf db issued)) (hc : c ∈ issued)
    (hkind : c.kind = .processWebhook) {expired : Bool} {sid jid : UUID}
    (h : WebhookWorker.execute db c expired sid jid = .ok db') :
    Moves (boardOf db issued) (boardOf db' issued) := by
  rcases WebhookWorker.execute_cases h with
    ⟨rfl, -⟩ | ⟨row, code, targets, job, job', -, -, hjob, hend⟩
  · exact .refl
  rcases hend with ⟨-, hfinish, rfl⟩ | ⟨-, code', db₁, happly, hfinish, rfl⟩
  · have hs := (fence_granted hsound hc hjob).2.1
    have hmove := settle_fenced hsound hc hjob (webhook_canceled hs hfinish)
      (rfl : Status.canceled.terminal = _) (by simp)
    rw [hkind] at hmove
    exact moves_of_mark (statusIn_deliveries rfl rfl rfl rfl) rfl rfl hmove
  · cases WebhookWorker.apply_applied happly with
    | recovered => exact webhook_closed hsound hc hkind hjob hfinish
    | busy => exact webhook_closed hsound hc hkind hjob hfinish
    | suspended => exact webhook_closed hsound hc hkind hjob hfinish
    | @requested wid rid generation number jobs _ _ _ _ _ _ _ _ hnone hjobs =>
        have hinsert : Moves (boardOf db issued) (boardOf { db with
            syncRuns := db.syncRuns.put sid
              (Sync.pendingRun db.now wid rid generation none .single none (some number) none)
            jobs := jobs } issued) :=
          insertRun_moves rfl (Sync.insertRun_eq_ok.mpr ⟨hnone, jobs, hjobs, rfl⟩)
        have hjob' := fence_enqueued hjobs hjob
        exact hinsert.trans (webhook_closed (hsound.moves hinsert) hc hkind hjob' hfinish)

/-! ## The queue operations -/

theorem claim_moves (w : World) (worker : String) (kinds : List Kind) (locked : List UUID) :
    Moves (board w) (board (w.claim worker kinds locked).2) := by
  unfold World.claim
  split
  · exact .refl
  · rename_i c jobs hclaim
    obtain ⟨id, j, hget, hs, -, -, rfl, rfl⟩ := claim_eq_some hclaim
    exact .single (.lease (board w) id j worker hget hs)

theorem expired_moves (w : World) (kinds : List Kind) (rows : List UUID) :
    Moves (board w)
      (board (w.issue (expired w.db.jobs w.db.now kinds rows) w.db.jobs).2) := by
  have hall : ∀ claims : List Claim,
      (∀ c ∈ claims, ∃ id j, w.db.jobs.get id = some j ∧ j.state = .leased ∧ c = j.claim id) →
      Moves (board w) (boardOf w.db (claims ++ w.issued)) := by
    intro claims hclaims
    induction claims with
    | nil => exact .refl
    | cons c claims ih =>
        obtain ⟨id, j, hget, hs, rfl⟩ := hclaims c (List.mem_cons_self ..)
        refine .tail (ih fun c hc => hclaims c (List.mem_cons_of_mem _ hc)) ?_
        exact .recover (boardOf w.db (claims ++ w.issued)) id j hget hs
  refine hall _ fun c hc => ?_
  obtain ⟨id, j, u, hget, hs, -, -, -, rfl⟩ := mem_expired hc
  exact ⟨id, j, hget, hs, rfl⟩

theorem heartbeat_moves (w : World) (c : Claim) :
    Moves (board w) (board (w.heartbeat c).2) := by
  unfold World.heartbeat
  rcases heartbeat_cases w.db.jobs w.db.now c with h | ⟨j, hfence, h⟩
  · rw [h]
  · rw [h]
    obtain ⟨hget, hs, -, -, u, hu, hlive⟩ := fence_eq_some.mp hfence
    exact .single (.renew (board w) c.id j u hget hs hu
      (Nat.lt_of_not_le (of_decide_eq_false hlive)))

end Prism.Lifecycle
