import Prism.Verification.Analysis.Equations
import Prism.Model.Review

/-! What each review transaction does when it commits. -/

namespace Prism

namespace Review

/-- What a workspace is like where a run is admitted: none of its runs is active or
has the key of the run, and there is room for one more today. -/
structure Room (st : Settings) (db : Db) (wid : UUID) (run : ReviewRun) : Prop where
  fresh : ∀ id row, db.reviewRuns.get id = some row → row.executionKey ≠ run.executionKey
  idle : ∀ id row, db.reviewRuns.get id = some row → row.workspaceId = wid →
    row.status.terminal = true
  quota : used db wid < st.aiDailyLimit

theorem admitRun_cases {st : Settings} {db db' : Db} {wid rid jid id : UUID} {run : ReviewRun}
    (h : admitRun st db wid run rid jid = .ok (id, db')) :
    db' = db ∨ Room st db wid run ∧ db.reviewRuns.get rid = none ∧ ∃ jobs,
      Jobs.enqueue db.jobs db.now jid .explainFindings rid (some wid) = .ok jobs ∧
      db' = { db with reviewRuns := db.reviewRuns.put rid run, jobs := jobs } := by
  unfold admitRun at h
  split at h
  · exact .inl (Prod.mk.inj (Except.ok.inj h)).2.symm
  · rename_i hkey
    split at h
    · contradiction
    · rename_i hidle
      split at h
      · contradiction
      · rename_i hquota
        simp only [Tx.bind_eq_ok, insertRow_eq_ok] at h
        obtain ⟨_, ⟨hnone, rfl⟩, jobs, hjobs, h⟩ := h
        refine .inr ⟨⟨?_, ?_, not_le.mp hquota⟩, hnone, jobs, hjobs,
          (Prod.mk.inj (Except.ok.inj h)).2.symm⟩
        · intro id row hget
          simpa using (Table.find_eq_none_iff ..).mp hkey id row hget
        · intro id row hget hwid
          rw [Bool.not_eq_true, Table.holds_eq_false_iff] at hidle
          simpa [hwid] using hidle id row hget

/-- The run of a start that is admitted. -/
structure Admitted (st : Settings) (db : Db) (uid wid : UUID) (waited : ℕ) (run : ReviewRun) :
    Prop where
  new : ∃ snap purpose mode versions generation key,
    run = newRun st db.now (db.now - waited) uid wid snap purpose mode versions generation key
  key : run.executionKey = st.reviewKey run.workspaceId run.analysisId run.connectionGeneration
    run.model run.promptVersion run.policyVersion run.generation run.purpose run.mode
    run.standardVersions
  live : Live db run.repositoryConnectionId run.connectionGeneration
  room : Room st db wid run

/-- A request is served by an existing run or inserts one for a completed
analysis of a live connection. -/
theorem start_cases {st : Settings} {db db' : Db} {uid wid aid rid jid id : UUID}
    {consent : Bool} {rerun : Option UUID} {purpose : Purpose} {waited : ℕ}
    (h : start st db uid wid aid consent rerun purpose waited rid jid = .ok (id, db')) :
    db' = db ∨ ∃ run jobs, Admitted st db uid wid waited run ∧
      db.reviewRuns.get rid = none ∧
      Jobs.enqueue db.jobs db.now jid .explainFindings rid (some wid) = .ok jobs ∧
      db' = { db with reviewRuns := db.reviewRuns.put rid run, jobs := jobs } := by
  unfold start at h
  split at h
  · contradiction
  · split at h
    · contradiction
    · simp only [Tx.bind_eq_ok] at h
      obtain ⟨-, -, snap, hsnap, user, -, versions, -, generation, -, h⟩ := h
      obtain ⟨row, hrow, -, rfl⟩ := reviewSnapshot_eq_ok hsnap
      rcases admitRun_cases h with rfl | ⟨hroom, hnone, jobs, hjobs, rfl⟩
      · exact .inl rfl
      · refine .inr ⟨_, jobs, ⟨⟨_, _, _, _, _, _, rfl⟩, rfl, ?_, hroom⟩, hnone, hjobs, rfl⟩
        exact Analysis.authorized_live hrow

theorem cancel_cases {db db' : Db} {uid wid rid : UUID} (h : cancel db uid wid rid = .ok db') :
    db' = db ∨ ∃ row jid job,
      db.reviewRuns.get rid = some row ∧ row.status.terminal = false ∧
      db.jobs.get jid = some job ∧ job.kind = .explainFindings ∧ job.aggregateId = rid ∧
      db' = { db with
        reviewRuns := db.reviewRuns.put rid (canceled db.now row)
        jobs := db.jobs.put jid
          (canceledJob db.now (userCanceled db.now job.attemptHistory) job) } := by
  simp only [cancel, Tx.bind_eq_ok] at h
  obtain ⟨row, hrow, h⟩ := h
  have hget := (authorize_run hrow).1
  split at h
  · exact .inl (Except.ok.inj h).symm
  · rename_i hterm
    simp only [Tx.bind_eq_ok, assertSome_eq_ok] at h
    obtain ⟨⟨jid, job⟩, hjob, h⟩ := h
    obtain ⟨hgetj, hkind, hagg⟩ := jobOf_eq_some hjob
    exact .inr ⟨row, jid, job, hget, by simpa using hterm, hgetj, hkind, hagg,
      (Except.ok.inj h).symm⟩

end Review

namespace ReviewWorker

open Review (getRow_eq_ok authorize_run authorize_execute)

theorem begin_cases {st : Settings} {db db' : Db} {c : Claim} {plan : Option ReviewPlan}
    (h : begin st db c = .ok (plan, db')) :
    (plan = none ∧ db' = db) ∨ ∃ row job,
      plan.isSome = true ∧ db.reviewRuns.get c.aggregateId = some row ∧
      row.status.terminal = false ∧ row.callAttempts = 0 ∧
      Live db row.repositoryConnectionId row.connectionGeneration ∧
      Jobs.fence db.jobs db.now c false = some job ∧
      db' = { db with reviewRuns := db.reviewRuns.put c.aggregateId (started db.now row) } := by
  simp only [begin, Tx.bind_eq_ok] at h
  obtain ⟨wid, -, row, hrow, h⟩ := h
  obtain ⟨hget, -⟩ := getRow_eq_ok.mp hrow
  split at h
  · obtain ⟨rfl, rfl⟩ := Prod.mk.inj (Except.ok.inj h)
    exact .inl ⟨rfl, rfl⟩
  · rename_i hopen
    simp only [not_or, Bool.not_eq_true, Option.isNone_eq_false_iff] at hopen
    obtain ⟨job, hjob⟩ := Option.isSome_iff_exists.mp hopen.2
    obtain ⟨row', hauth, h⟩ := (Tx.bind_eq_ok ..).mp h
    obtain rfl := Option.some.inj (hget.symm.trans (authorize_run hauth).1)
    split at h
    · contradiction
    · rename_i hfresh
      simp only [replayed, Bool.or_eq_true, decide_eq_true_eq, not_or, not_not] at hfresh
      have hcommit : plan.isSome = true ∧
          db' = { db with
            reviewRuns := db.reviewRuns.put c.aggregateId (started db.now row) } := by
        simp only [Tx.bind_eq_ok] at h
        obtain ⟨snap, -, repo, -, ⟨_, _, ignored⟩, -, pr, -, h⟩ := h
        simp only at h
        split at h
        · obtain ⟨standards, -, h⟩ := (Tx.bind_eq_ok ..).mp h
          obtain ⟨rfl, rfl⟩ := Prod.mk.inj (Except.ok.inj h)
          exact ⟨rfl, rfl⟩
        · obtain ⟨standards, -, h⟩ := (Tx.bind_eq_ok ..).mp h
          obtain ⟨rfl, rfl⟩ := Prod.mk.inj (Except.ok.inj h)
          exact ⟨rfl, rfl⟩
      exact .inr ⟨row, job, hcommit.1, hget, hopen.1, by simpa using hfresh.1.1.1,
        (authorize_execute hauth).2, hjob, hcommit.2⟩

/-- Every reservation attempt that commits raises the token counts; a successful
one raises the attempts in a state where the call is authorized. -/
theorem reserve_cases {db db' : Db} {c : Claim} {expected : ℕ} {incoming outgoing : ℤ}
    {made : Bool} (h : reserve db c expected incoming outgoing = .ok (made, db')) :
    ∃ row, db.reviewRuns.get c.aggregateId = some row ∧
      ((made = false ∧ db' = { db with
          reviewRuns := db.reviewRuns.put c.aggregateId (metered row incoming outgoing) }) ∨
        ∃ job, made = true ∧ row.status = .running ∧ row.callAttempts = expected ∧
          Jobs.fence db.jobs db.now c false = some job ∧
          Permitted db row.requestedBy row.workspaceId .owner ∧
          Live db row.repositoryConnectionId row.connectionGeneration ∧
          db' = { db with
            reviewRuns := db.reviewRuns.put c.aggregateId
              (reserved (metered row incoming outgoing) expected) }) := by
  simp only [reserve, Tx.bind_eq_ok] at h
  obtain ⟨wid, -, row, hrow, h⟩ := h
  obtain ⟨hget, -⟩ := getRow_eq_ok.mp hrow
  refine ⟨row, hget, ?_⟩
  split at h
  · obtain ⟨rfl, rfl⟩ := Prod.mk.inj (Except.ok.inj h)
    exact .inl ⟨rfl, rfl⟩
  · rename_i hopen
    simp only [ne_eq, not_or, not_not, Bool.not_eq_true, Option.isNone_eq_false_iff] at hopen
    obtain ⟨hs, hattempts, hfence⟩ := hopen
    obtain ⟨job, hjob⟩ := Option.isSome_iff_exists.mp hfence
    obtain ⟨row', hauth, h⟩ := (Tx.bind_eq_ok ..).mp h
    obtain rfl := Option.some.inj (hget.symm.trans (authorize_run hauth).1)
    obtain ⟨rfl, rfl⟩ := Prod.mk.inj (Except.ok.inj h)
    obtain ⟨hperm, hlive⟩ := authorize_execute hauth
    exact .inr ⟨job, rfl, hs, hattempts, hjob, hperm, hlive, rfl⟩

/-- A result survives the check only with the connection at the run's generation. -/
theorem verdict_cases {db : Db} {c : Claim} {row : ReviewRun} {result result' : Option Json}
    {code code' : Option Code} {current : ReviewRun}
    (hget : db.reviewRuns.get c.aggregateId = some current)
    (h : verdict db c row result code = .ok (result', code')) :
    (result' = result ∧ code' = code ∧
      Live db current.repositoryConnectionId current.connectionGeneration) ∨
    result' = none ∧ code' = some .accessRevoked := by
  unfold verdict at h
  split at h
  · rename_i row' hauth
    obtain rfl := Option.some.inj (hget.symm.trans (authorize_run hauth).1)
    obtain ⟨rfl, rfl⟩ := Prod.mk.inj (Except.ok.inj h)
    exact .inl ⟨rfl, rfl, (authorize_execute hauth).2⟩
  · split at h
    · obtain ⟨rfl, rfl⟩ := Prod.mk.inj (Except.ok.inj h)
      exact .inr ⟨rfl, rfl⟩
    · contradiction

theorem complete_cases {db db' : Db} {c : Claim} {result : Option Json} {code : Option Code}
    {expired : Bool} {incoming outgoing : ℤ}
    (h : complete db c result code expired incoming outgoing = .ok db') :
    ∃ row, db.reviewRuns.get c.aggregateId = some row ∧
      (db' = { db with
          reviewRuns := db.reviewRuns.put c.aggregateId (metered row incoming outgoing) } ∨
        ∃ result' code' job job', row.status.terminal = false ∧
          verdict db c (metered row incoming outgoing) result code = .ok (result', code') ∧
          Jobs.fence db.jobs db.now c expired = some job ∧
          Jobs.finish db.now job code' false 5 = .ok job' ∧
          db' = { db with
            jobs := db.jobs.put c.id job'
            reviewRuns := db.reviewRuns.put c.aggregateId
              (closed db.now (metered row incoming outgoing) result' code') }) := by
  simp only [complete, Tx.bind_eq_ok] at h
  obtain ⟨wid, -, row, hrow, h⟩ := h
  refine ⟨row, (getRow_eq_ok.mp hrow).1, ?_⟩
  split at h
  · exact .inl (Except.ok.inj h).symm
  · rename_i hterm
    obtain ⟨⟨result', code'⟩, hverdict, h⟩ := (Tx.bind_eq_ok ..).mp h
    simp only at h
    split at h
    · exact .inl (Except.ok.inj h).symm
    · rename_i job hjob
      obtain ⟨job', hfinish, h⟩ := (Tx.bind_eq_ok ..).mp h
      refine .inr ⟨result', code', job, job', ?_, hverdict, hjob, hfinish, (Except.ok.inj h).symm⟩
      simpa [metered] using hterm

end ReviewWorker

end Prism
