import Prism.Verification.System.Equations

/-! The steps of the system as the reviews see them: how a run and how an
execution of the worker can change. -/

namespace Prism.ReviewWorker

open World

/-! ## Runs -/

/-- The columns of a run that are written once. -/
structure SameReview (row run : ReviewRun) : Prop where
  workspace : run.workspaceId = row.workspaceId
  repository : run.repositoryConnectionId = row.repositoryConnectionId
  generation : run.connectionGeneration = row.connectionGeneration
  requestedBy : run.requestedBy = row.requestedBy

/-- A reservation is made by the holder of the live lease, for an active owner,
while the connection is live at the generation of the run. -/
structure Authorized (db : Db) (c : Claim) (row : ReviewRun) : Prop where
  running : row.status = .running
  leased : (Jobs.fence db.jobs db.now c false).isSome = true
  owner : ActiveOwner db row.requestedBy row.workspaceId
  live : Live db row.repositoryConnectionId row.connectionGeneration

/-- What a step can write to the run under an identifier. -/
inductive Written (w : World) : Action → Outcome → UUID → Option ReviewRun → ReviewRun → Prop where
  | admitted {st : Settings} {uid wid aid : UUID} {consent : Bool} {rerun : Option UUID}
      {purpose : Purpose} {waited : ℕ} {rid jid : UUID} {run : ReviewRun} :
      Review.Admitted st w.db uid wid waited run →
      Written w (.reviewStart st uid wid aid consent rerun purpose waited rid jid) .committed rid
        none run
  | canceled {uid wid rid : UUID} {row : ReviewRun} : row.status.terminal = false →
      Written w (.reviewCancel uid wid rid) .committed rid (some row)
        (Review.canceled w.db.now row)
  | began {st : Settings} {c : Claim} {tid : UUID} {row : ReviewRun} :
      row.status.terminal = false → row.callAttempts = 0 →
      Written w (.reviewBegin st c tid) .committed c.aggregateId (some row)
        (started w.db.now row)
  | refused {tid : UUID} {incoming outgoing : ℤ} {t : Reviewer} {row : ReviewRun} :
      w.reviewers.get tid = some t →
      Written w (.reviewReserve tid incoming outgoing) .committed t.claim.aggregateId (some row)
        (metered row incoming outgoing)
  | reserved {tid : UUID} {incoming outgoing : ℤ} {t : Reviewer} {second : Bool}
      {row : ReviewRun} :
      w.reviewers.get tid = some t → Authorized w.db t.claim row →
      row.callAttempts = second.toNat →
      Written w (.reviewReserve tid incoming outgoing) (.reserved tid t.claim.aggregateId second)
        t.claim.aggregateId (some row) (reserved (metered row incoming outgoing) second.toNat)
  | recorded {c : Claim} {result : Option Json} {code : Option Code} {expired : Bool}
      {incoming outgoing : ℤ} {row : ReviewRun} :
      Written w (.reviewComplete c result code expired incoming outgoing) .committed c.aggregateId
        (some row) (metered row incoming outgoing)
  | closed {c : Claim} {result result' : Option Json} {code code' : Option Code} {expired : Bool}
      {incoming outgoing : ℤ} {row : ReviewRun} : row.status.terminal = false →
      (result' = result ∧ code' = code ∧
          Live w.db row.repositoryConnectionId row.connectionGeneration ∨
        result' = none ∧ code' = some .accessRevoked) →
      Written w (.reviewComplete c result code expired incoming outgoing) .committed c.aggregateId
        (some row) (closed w.db.now (metered row incoming outgoing) result' code')

/-- One run is written as described, the others are left alone. -/
def Writes (w : World) (a : Action) (o : Outcome) (db' : Db) : Prop :=
  ∀ rid, db'.reviewRuns.get rid = w.db.reviewRuns.get rid ∨
    ∃ run, db'.reviewRuns.get rid = some run ∧
      Written w a o rid (w.db.reviewRuns.get rid) run

private theorem writes_put {w : World} {a : Action} {o : Outcome} {db' : Db} {rid : UUID}
    {run : ReviewRun} (hput : db'.reviewRuns = w.db.reviewRuns.put rid run)
    (h : Written w a o rid (w.db.reviewRuns.get rid) run) : Writes w a o db' := by
  intro rid'
  rw [hput]
  by_cases hid : rid' = rid
  · subst rid'
    exact .inr ⟨run, Table.get_put_self .., h⟩
  · exact .inl (Table.get_put_of_ne _ _ hid)

private theorem writes_same {w : World} {a : Action} {o : Outcome} {db' : Db}
    (h : db'.reviewRuns = w.db.reviewRuns) : Writes w a o db' :=
  fun _ => .inl (by rw [h])

private theorem writes_commit {w : World} {a : Action} {body : Tx Db}
    (h : ∀ db', body = .ok db' → Writes w a .committed db') :
    Writes w a (w.commit body).1 (w.commit body).2.db := by
  unfold World.commit
  split
  · exact h _ rfl
  · exact writes_same rfl

private theorem reviewBegin_writes (st : Settings) (c : Claim) (tid : UUID) (w : World) :
    Writes w (.reviewBegin st c tid) (w.reviewBegin st c tid).1 (w.reviewBegin st c tid).2.db := by
  unfold reviewBegin
  split
  · exact writes_same rfl
  · rename_i db hbegin
    rcases begin_cases hbegin with ⟨-, rfl⟩ | ⟨row, job, hplan, -⟩
    · exact writes_same rfl
    · contradiction
  · rename_i plan db hbegin
    split
    · exact writes_same rfl
    · rcases begin_cases hbegin with ⟨hplan, -⟩ | ⟨row, job, -, hget, hopen, hzero, -, -, rfl⟩
      · contradiction
      · refine writes_put rfl ?_
        rw [hget]
        exact .began hopen hzero

private theorem reviewReserve_writes (tid : UUID) (incoming outgoing : ℤ) (w : World) :
    Writes w (.reviewReserve tid incoming outgoing) (w.reviewReserve tid incoming outgoing).1
      (w.reviewReserve tid incoming outgoing).2.db := by
  unfold reviewReserve
  split
  · exact writes_same rfl
  · rename_i t ht
    split
    · exact writes_same rfl
    · rename_i second hsecond
      split
      · exact writes_same rfl
      · rename_i db hreserve
        obtain ⟨row, hget, ⟨-, rfl⟩ | ⟨job, hmade, -⟩⟩ := reserve_cases hreserve
        · refine writes_put rfl ?_
          rw [hget]
          exact .refused ht
        · contradiction
      · rename_i db hreserve
        obtain ⟨row, hget, ⟨hmade, -⟩ | ⟨job, -, hs, hattempts, hjob, hperm, hlive, rfl⟩⟩ :=
          reserve_cases hreserve
        · contradiction
        · refine writes_put rfl ?_
          rw [hget]
          exact .reserved ht ⟨hs, by simp [hjob], hperm.activeOwner, hlive⟩ hattempts

/-- The run table is only written as described. -/
theorem step_writes (a : Action) (w : World) : Writes w a (step a w).1 (step a w).2.db := by
  by_cases hquiet : Area.reviewRuns ∉ touches a
  · exact writes_same ((step_frame a w).reviewRuns hquiet)
  cases a with
  | reviewStart st uid wid aid consent rerun purpose waited rid jid =>
      refine writes_commit fun db' h => ?_
      obtain ⟨⟨id, db₁⟩, hbody, rfl⟩ := (Tx.map_eq_ok ..).mp h
      rcases Review.start_cases hbody with rfl | ⟨run, jobs, hadmitted, hnone, -, rfl⟩
      · exact writes_same rfl
      · refine writes_put rfl ?_
        rw [hnone]
        exact .admitted hadmitted
  | reviewCancel uid wid rid =>
      refine writes_commit fun db' h => ?_
      rcases Review.cancel_cases h with rfl | ⟨row, jid, job, hget, hopen, -, -, -, rfl⟩
      · exact writes_same rfl
      · refine writes_put rfl ?_
        rw [hget]
        exact .canceled hopen
  | reviewBegin st c tid => exact reviewBegin_writes st c tid w
  | reviewReserve tid incoming outgoing => exact reviewReserve_writes tid incoming outgoing w
  | reviewComplete c result code expired incoming outgoing =>
      refine writes_commit fun db' h => ?_
      obtain ⟨row, hget, rfl | ⟨result', code', job, job', hopen, hverdict, -, -, rfl⟩⟩ :=
        complete_cases h
      · refine writes_put rfl ?_
        rw [hget]
        exact .recorded
      · refine writes_put rfl ?_
        rw [hget]
        refine .closed hopen ?_
        rcases verdict_cases hget hverdict with hkept | hrevoked
        · exact .inl hkept
        · exact .inr hrevoked
  | _ => exact absurd (by simp [touches]) hquiet

/-- The columns a write can change. -/
theorem written_fixed {w : World} {a : Action} {o : Outcome} {rid : UUID} {row run : ReviewRun}
    (h : Written w a o rid (some row) run) :
    ∃ status startedAt finishedAt callAttempts inputTokens outputTokens usageUncertain errorCode
      result, run = { row with
        status := status
        startedAt := startedAt
        finishedAt := finishedAt
        callAttempts := callAttempts
        inputTokens := inputTokens
        outputTokens := outputTokens
        usageUncertain := usageUncertain
        errorCode := errorCode
        result := result } := by
  cases h <;> exact ⟨_, _, _, _, _, _, _, _, _, rfl⟩

/-- A step that inserts a run writes no other. -/
theorem written_only {w : World} {a : Action} {o : Outcome} {rid rid' : UUID}
    {before : Option ReviewRun} {run run' : ReviewRun} (h : Written w a o rid none run)
    (h' : Written w a o rid' before run') : rid' = rid := by
  cases h
  cases h'
  rfl

/-- A run that is open after a step was open before. -/
theorem written_open {w : World} {a : Action} {o : Outcome} {rid : UUID} {row run : ReviewRun}
    (h : Written w a o rid (some row) run) (hopen : run.status.terminal = false) :
    row.status.terminal = false := by
  cases h with
  | canceled hrow => exact hrow
  | began hrow => exact hrow
  | refused => exact hopen
  | reserved => exact hopen
  | recorded => exact hopen
  | closed hrow => exact hrow

/-- How the run under an identifier can change in one step. -/
inductive Change (w : World) (o : Outcome) (db' : Db) (rid : UUID) :
    Option ReviewRun → ReviewRun → Prop where
  | started (run : ReviewRun) : run.callAttempts = 0 → run.result = none →
      Live db' run.repositoryConnectionId run.connectionGeneration → Change w o db' rid none run
  | worked (row run : ReviewRun) : SameReview row run → run.callAttempts = row.callAttempts →
      (run.result = row.result ∨ run.result = none ∨
        Live w.db row.repositoryConnectionId row.connectionGeneration) →
      Change w o db' rid (some row) run
  | reserved (tid : UUID) (second : Bool) (row run : ReviewRun) : o = .reserved tid rid second →
      SameReview row run → row.callAttempts = second.toNat →
      run.callAttempts = second.toNat + 1 → run.result = row.result →
      Change w o db' rid (some row) run

/-- One run changed as described, the others not at all. -/
def Changes (w : World) (o : Outcome) (db' : Db) : Prop :=
  ∀ rid, db'.reviewRuns.get rid = w.db.reviewRuns.get rid ∨
    ∃ run, db'.reviewRuns.get rid = some run ∧ Change w o db' rid (w.db.reviewRuns.get rid) run

/-- An admission leaves the connections alone. -/
private theorem admitted_live {st : Settings} {uid wid aid rid jid : UUID} {consent : Bool}
    {rerun : Option UUID} {purpose : Purpose} {waited : ℕ} {w : World} {connection : UUID}
    {generation : ℕ} (h : Live w.db connection generation) :
    Live (step (.reviewStart st uid wid aid consent rerun purpose waited rid jid) w).2.db connection
      generation := by
  have hsame := (step_frame (.reviewStart st uid wid aid consent rerun purpose waited rid jid)
    w).connections (by simp [touches])
  obtain ⟨r, hget, hr⟩ := h
  exact ⟨r, by rwa [hsame], hr⟩

/-- The run table changes only as described. -/
theorem step_changes (a : Action) (w : World) : Changes w (step a w).1 (step a w).2.db := by
  intro rid
  rcases step_writes a w rid with hsame | ⟨run, hget, hwritten⟩
  · exact .inl hsame
  · refine .inr ⟨run, hget, ?_⟩
    generalize ho : (step a w).1 = o at hwritten
    generalize w.db.reviewRuns.get rid = before at hwritten
    cases hwritten with
    | admitted hadmitted =>
        obtain ⟨snap, purpose, mode, versions, generation, key, rfl⟩ := hadmitted.new
        exact .started _ rfl rfl (admitted_live hadmitted.live)
    | canceled hopen => exact .worked _ _ ⟨rfl, rfl, rfl, rfl⟩ rfl (.inl rfl)
    | began hopen hzero => exact .worked _ _ ⟨rfl, rfl, rfl, rfl⟩ rfl (.inl rfl)
    | refused ht => exact .worked _ _ ⟨rfl, rfl, rfl, rfl⟩ rfl (.inl rfl)
    | reserved ht hauth hattempts =>
        exact .reserved _ _ _ _ rfl ⟨rfl, rfl, rfl, rfl⟩ hattempts rfl rfl
    | recorded => exact .worked _ _ ⟨rfl, rfl, rfl, rfl⟩ rfl (.inl rfl)
    | closed hopen hverdict =>
        refine .worked _ _ ⟨rfl, rfl, rfl, rfl⟩ rfl ?_
        rcases hverdict with ⟨-, -, hlive⟩ | ⟨hresult, -⟩
        · exact .inr (.inr hlive)
        · exact .inr (.inl hresult)

/-! ## Executions -/

/-- Outcomes that are neither a reservation nor a call. -/
def quiet : Outcome → Bool
  | .reserved _ _ _ | .called _ _ _ => false
  | _ => true

/-- How the review executions can change in one step. -/
inductive Moved (w : World) : Outcome → Table UUID Reviewer → Prop where
  | same (o : Outcome) : quiet o = true → Moved w o w.reviewers
  | began (o : Outcome) (tid : UUID) (c : Claim) : quiet o = true → w.reviewers.get tid = none →
      Moved w o (w.reviewers.put tid ⟨c, .reading⟩)
  | left (o : Outcome) (tid : UUID) (t : Reviewer) : quiet o = true →
      w.reviewers.get tid = some t → Moved w o (w.reviewers.put tid { t with stage := .left })
  | reserved (tid : UUID) (t : Reviewer) (second : Bool) (row : ReviewRun) :
      w.reviewers.get tid = some t → reservation t.stage = some second →
      w.db.reviewRuns.get t.claim.aggregateId = some row → row.callAttempts = second.toNat →
      Authorized w.db t.claim row →
      Moved w (.reserved tid t.claim.aggregateId second)
        (w.reviewers.put tid { t with stage := .reserved second })
  | called (tid : UUID) (c : Claim) (second : Bool) (stage : ReviewStage) :
      w.reviewers.get tid = some ⟨c, .reserved second⟩ → (∀ s, stage ≠ .reserved s) →
      Moved w (.called tid c.aggregateId second) (w.reviewers.put tid ⟨c, stage⟩)

private theorem moved_commit (w : World) (body : Tx Db) :
    Moved w (w.commit body).1 (w.commit body).2.reviewers := by
  unfold World.commit
  split <;> exact .same _ rfl

theorem step_moved (a : Action) (w : World) : Moved w (step a w).1 (step a w).2.reviewers := by
  cases a with
  | receive event stale did jid =>
      simp only [step, answer]
      split <;> exact .same _ rfl
  | claim worker kinds locked =>
      simp only [step, claim]
      split <;> exact .same _ rfl
  | expired kinds rows => exact .same _ rfl
  | heartbeat c => exact .same _ rfl
  | reviewBegin st c tid =>
      simp only [step, reviewBegin]
      split
      · exact .same _ rfl
      · exact .same _ rfl
      · split
        · exact .same _ rfl
        · rename_i hfresh
          exact .began _ tid c rfl (by simpa using hfresh)
  | reviewReserve tid incoming outgoing =>
      simp only [step, reviewReserve]
      split
      · exact .same _ rfl
      · rename_i t ht
        split
        · exact .same _ rfl
        · rename_i second hsecond
          split
          · exact .left _ tid t rfl ht
          · exact .left _ tid t rfl ht
          · rename_i db hreserve
            obtain ⟨row, hget, ⟨hmade, -⟩ | ⟨job, -, hs, hattempts, hjob, hperm, hlive, -⟩⟩ :=
              reserve_cases hreserve
            · contradiction
            · exact .reserved tid t second row ht hsecond hget hattempts
                ⟨hs, by simp [hjob], hperm.activeOwner, hlive⟩
  | reviewCall tid =>
      simp only [step, reviewCall]
      split
      · rename_i c ht
        exact .called tid c false .reviewed ht (by simp)
      · rename_i c ht
        exact .called tid c true .left ht (by simp)
      · exact .same _ rfl
  | reviewStillAuthorized tid =>
      simp only [step, reviewStillAuthorized]
      split
      · rename_i c ht
        split
        · exact .same _ rfl
        · exact .left _ tid _ rfl ht
        · exact .left _ tid _ rfl ht
      · exact .same _ rfl
  | _ => exact moved_commit ..

private theorem quiet_commit (w : World) (body : Tx Db) : quiet (w.commit body).1 = true := by
  unfold World.commit
  split <;> rfl

/-- Only `reserve` reports a reservation and only a call reports a call. -/
theorem step_quiet (a : Action) (w : World) : quiet (step a w).1 = true ∨
    (∃ tid incoming outgoing, a = .reviewReserve tid incoming outgoing) ∨
    ∃ tid, a = .reviewCall tid := by
  cases a with
  | reviewReserve tid incoming outgoing => exact .inr (.inl ⟨tid, incoming, outgoing, rfl⟩)
  | reviewCall tid => exact .inr (.inr ⟨tid, rfl⟩)
  | receive event stale did jid =>
      refine .inl ?_
      simp only [step, answer]
      split <;> rfl
  | claim worker kinds locked =>
      refine .inl ?_
      simp only [step, claim]
      split <;> rfl
  | expired kinds rows => exact .inl rfl
  | heartbeat c => exact .inl rfl
  | reviewBegin st c tid =>
      refine .inl ?_
      simp only [step, reviewBegin]
      split
      · rfl
      · rfl
      · split <;> rfl
  | reviewStillAuthorized tid =>
      refine .inl ?_
      simp only [step, reviewStillAuthorized]
      split
      · split <;> rfl
      · rfl
  | _ => exact .inl (quiet_commit ..)

/-- A step that reports a reservation has raised the attempts of its run. -/
theorem reserved_attempts {a : Action} {w : World} {tid rid : UUID} {second : Bool}
    (h : (step a w).1 = .reserved tid rid second) :
    ∃ run, (step a w).2.db.reviewRuns.get rid = some run ∧
      run.callAttempts = second.toNat + 1 := by
  rcases step_quiet a w with hquiet | ⟨tid', incoming, outgoing, rfl⟩ | ⟨tid', rfl⟩
  · simp [h, quiet] at hquiet
  · simp only [step, reviewReserve] at h ⊢
    split at h
    · contradiction
    · rename_i t ht
      split at h
      · contradiction
      · rename_i second' hsecond
        split at h
        · contradiction
        · contradiction
        · rename_i db hreserve
          obtain ⟨-, rfl, rfl⟩ := Outcome.reserved.inj h
          obtain ⟨row, -, ⟨hmade, -⟩ | ⟨job, -, -, -, -, -, -, rfl⟩⟩ := reserve_cases hreserve
          · contradiction
          · exact ⟨_, Table.get_put_self .., rfl⟩
  · simp only [step, reviewCall] at h
    split at h <;> contradiction

end Prism.ReviewWorker
