import Prism.Verification.Access.Correctness
import Prism.Verification.Jobs.Equations
import Prism.Model.Analysis

/-! What each analysis transaction does when it commits. -/

namespace Prism

theorem jobOf_eq_some {db : Db} {kind : Kind} {aggregate jid : UUID} {job : Job}
    (h : jobOf db kind aggregate = some (jid, job)) :
    db.jobs.get jid = some job ∧ job.kind = kind ∧ job.aggregateId = aggregate := by
  obtain ⟨hget, hp⟩ := Table.find_spec h
  simp only [Bool.and_eq_true, decide_eq_true_eq] at hp
  exact ⟨hget, hp⟩

namespace Analysis

/-- What a pull request is like where a run is admitted: no run has the key, and none
of the pull request is active. -/
structure Room (db : Db) (wid pid : UUID) (key : String) : Prop where
  fresh : ∀ id row, db.analysisRuns.get id = some row → row.executionKey ≠ key
  idle : ∀ id row, db.analysisRuns.get id = some row → row.prId = pid → row.workspaceId = wid →
    row.status.terminal = true

theorem admitRun_cases {db db' : Db} {uid wid pid aid jid id : UUID} {inputs : AnalysisInputs}
    {generation : ℕ} {key : String}
    (h : admitRun db uid wid pid inputs generation key aid jid = .ok (id, db')) :
    db' = db ∨ Room db wid pid key ∧ db.analysisRuns.get aid = none ∧ ∃ jobs,
      Jobs.enqueue db.jobs db.now jid .analyzePr aid (some wid) = .ok jobs ∧
      db' = { db with
        analysisRuns := db.analysisRuns.put aid (newRun db.now uid inputs generation key)
        jobs := jobs } := by
  unfold admitRun at h
  split at h
  · exact .inl (Prod.mk.inj (Except.ok.inj h)).2.symm
  · rename_i hkey
    split at h
    · contradiction
    · rename_i hidle
      simp only [Tx.bind_eq_ok, insertRow_eq_ok] at h
      obtain ⟨_, ⟨hnone, rfl⟩, jobs, hjobs, h⟩ := h
      refine .inr ⟨⟨?_, ?_⟩, hnone, jobs, hjobs, (Prod.mk.inj (Except.ok.inj h)).2.symm⟩
      · intro id row hget
        simpa using (Table.find_eq_none_iff ..).mp hkey id row hget
      · intro id row hget hpid hwid
        rw [Bool.not_eq_true, Table.holds_eq_false_iff] at hidle
        simpa [hpid, hwid] using hidle id row hget

/-- The run of a start that is admitted. It belongs to the workspace, the pull
request and the connection the start was authorized for. -/
structure Admitted (st : Settings) (db : Db) (uid wid pid : UUID) (run : AnalysisRun) :
    Prop where
  new : ∃ inputs generation,
    run = newRun db.now uid inputs generation (st.analysisKey inputs generation)
  workspace : run.workspaceId = wid
  pull : run.prId = pid
  live : Live db run.repositoryConnectionId run.connectionGeneration
  stored : ∃ pr, db.pullRequests.get pid = some pr ∧
    pr.repositoryConnectionId = run.repositoryConnectionId
  connected : ∃ r, db.connections.get run.repositoryConnectionId = some r ∧ r.workspaceId = wid
  room : Room db wid pid run.executionKey

/-- A request is served by an existing run or inserts one for a live connection. -/
theorem start_cases {st : Settings} {db db' : Db} {uid wid pid aid jid id : UUID}
    {rerunOf : Option UUID} (h : start st db uid wid pid rerunOf aid jid = .ok (id, db')) :
    db' = db ∨ ∃ run jobs, Admitted st db uid wid pid run ∧
      db.analysisRuns.get aid = none ∧
      Jobs.enqueue db.jobs db.now jid .analyzePr aid (some wid) = .ok jobs ∧
      db' = { db with analysisRuns := db.analysisRuns.put aid run, jobs := jobs } := by
  unfold start at h
  split at h
  · contradiction
  · simp only [Tx.bind_eq_ok] at h
    obtain ⟨pr, hpr, repo, hrepo, ⟨config, digest, _⟩, -, ⟨base, head⟩, -, h⟩ := h
    obtain ⟨-, hid, hlive⟩ := requireRepository_live hrepo
    obtain ⟨r, hr, -⟩ := requireRepository_eq_ok hrepo
    obtain ⟨-, hconnection, hwid, -⟩ := access_eq_ok hr
    simp only at h
    split at h
    · split at h
      · contradiction
      · rcases admitRun_cases h with rfl | ⟨hroom, hnone, jobs, hjobs, rfl⟩
        · exact .inl rfl
        · refine .inr ⟨_, jobs, ⟨⟨_, _, rfl⟩, rfl, rfl, ?_, ?_, ?_, hroom⟩, hnone, hjobs, rfl⟩
          · exact hid ▸ hlive
          · exact ⟨pr, analysisSnapshot_eq_ok hpr, hid.symm⟩
          · exact ⟨r, hid ▸ hconnection, hwid⟩
    · contradiction

theorem cancelRun_cases {db db' : Db} {aid : UUID} {row : AnalysisRun}
    (hget : db.analysisRuns.get aid = some row) (h : cancelRun db aid row = .ok db') :
    db' = db ∨ ∃ row jid job history,
      db.analysisRuns.get aid = some row ∧ row.status.terminal = false ∧
      db.jobs.get jid = some job ∧ job.kind = .analyzePr ∧ job.aggregateId = aid ∧
      history = (if job.state = .leased then userCanceled db.now job.attemptHistory
        else job.attemptHistory) ∧
      db' = { db with
        jobs := db.jobs.put jid (canceledJob db.now history job)
        analysisRuns := db.analysisRuns.put aid (canceled db.now row) } := by
  unfold cancelRun at h
  split at h
  · exact .inl (Except.ok.inj h).symm
  · rename_i hterm
    split at h
    · contradiction
    · rename_i jid job hjob
      obtain ⟨hgetj, hkind, hagg⟩ := jobOf_eq_some hjob
      exact .inr ⟨row, jid, job, _, hget, by simpa using hterm, hgetj, hkind, hagg, rfl,
        (Except.ok.inj h).symm⟩

theorem cancel_cases {db db' : Db} {uid wid aid : UUID} (h : cancel db uid wid aid = .ok db') :
    db' = db ∨ ∃ row jid job history,
      db.analysisRuns.get aid = some row ∧ row.status.terminal = false ∧
      db.jobs.get jid = some job ∧ job.kind = .analyzePr ∧ job.aggregateId = aid ∧
      history = (if job.state = .leased then userCanceled db.now job.attemptHistory
        else job.attemptHistory) ∧
      db' = { db with
        jobs := db.jobs.put jid (canceledJob db.now history job)
        analysisRuns := db.analysisRuns.put aid (canceled db.now row) } := by
  simp only [cancel, Tx.bind_eq_ok] at h
  obtain ⟨row, hrow, h⟩ := h
  have hget := (authorized_run hrow).1
  split at h
  · obtain ⟨-, -, h⟩ := (Tx.bind_eq_ok ..).mp h
    exact cancelRun_cases hget h
  · exact cancelRun_cases hget h

end Analysis

namespace AnalysisWorker

theorem begin_cases {st : Settings} {db db' : Db} {c : Claim} {plan : Option AnalysisPlan}
    (h : begin st db c = .ok (plan, db')) :
    (plan = none ∧ db' = db) ∨ ∃ row job,
      db.analysisRuns.get c.aggregateId = some row ∧ row.status.terminal = false ∧
      Live db row.repositoryConnectionId row.connectionGeneration ∧
      Jobs.fence db.jobs db.now c false = some job ∧
      db' = { db with analysisRuns := db.analysisRuns.put c.aggregateId (started db.now row) } := by
  simp only [begin, Tx.bind_eq_ok] at h
  obtain ⟨wid, -, h⟩ := h
  split at h
  · contradiction
  · obtain ⟨row, hrow, h⟩ := (Tx.bind_eq_ok ..).mp h
    obtain ⟨hget, -⟩ := Analysis.findRun_eq_ok.mp hrow
    split at h
    · obtain ⟨rfl, rfl⟩ := Prod.mk.inj (Except.ok.inj h)
      exact .inl ⟨rfl, rfl⟩
    · rename_i hopen
      simp only [not_or, Bool.not_eq_true, Option.isNone_eq_false_iff] at hopen
      obtain ⟨job, hjob⟩ := Option.isSome_iff_exists.mp hopen.2
      simp only [Tx.bind_eq_ok] at h
      obtain ⟨uid, -, row', hauth, repo, -, ⟨configId, configDigest, ignored⟩, -, h⟩ := h
      obtain rfl := Option.some.inj (hget.symm.trans (Analysis.authorized_run hauth).1)
      simp only at h
      split at h
      · contradiction
      · obtain ⟨pr, -, h⟩ := (Tx.bind_eq_ok ..).mp h
        obtain ⟨-, rfl⟩ := Prod.mk.inj (Except.ok.inj h)
        exact .inr ⟨row, job, hget, hopen.1, Analysis.authorized_live hauth, hjob, rfl⟩

/-- A result survives the check only with the connection at the run's generation. -/
theorem verdict_none {db : Db} {c : Claim} {row : AnalysisRun} {result result' : Option Result}
    {code : Option Code} {retry retry' : Bool} (hget : db.analysisRuns.get c.aggregateId = some row)
    (h : verdict db c row result code retry = .ok (result', none, retry')) :
    result' = result ∧ code = none ∧
      Live db row.repositoryConnectionId row.connectionGeneration := by
  simp only [verdict, Tx.bind_eq_ok] at h
  obtain ⟨uid, -, h⟩ := h
  split at h
  · rename_i row' hauth
    obtain rfl := Option.some.inj (hget.symm.trans (Analysis.authorized_run hauth).1)
    simp only [Except.ok.injEq, Prod.mk.injEq] at h
    exact ⟨h.1.symm, h.2.1, Analysis.authorized_live hauth⟩
  · split at h
    · simp at h
    · contradiction

/-- The check never turns a failure into a success without a result. -/
theorem verdict_passed {db : Db} {c : Claim} {row : AnalysisRun} {result result' : Option Result}
    {code code' : Option Code} {retry retry' : Bool} (hpassed : result.isSome ↔ code = none)
    (h : verdict db c row result code retry = .ok (result', code', retry')) :
    result'.isSome ↔ code' = none := by
  simp only [verdict, Tx.bind_eq_ok] at h
  obtain ⟨uid, -, h⟩ := h
  split at h
  · simp only [Except.ok.injEq, Prod.mk.injEq] at h
    obtain ⟨rfl, rfl, -⟩ := h
    exact hpassed
  · split at h
    · simp only [Except.ok.injEq, Prod.mk.injEq] at h
      obtain ⟨rfl, rfl, -⟩ := h
      simp
    · contradiction

/-- What `complete` writes besides the job and the run: the rows of a result, or
nothing. -/
inductive Stored (db : Db) (c : Claim) (row : AnalysisRun) (fileIds findingIds : ℕ → UUID) :
    Option Result → Option Code → AnalysisRun → List AnalysisFileResult → List Finding →
    Prop where
  | saved (result : Result) :
      fileKeysUnique (db.fileResults ++
        fileRows row.workspaceId c.aggregateId fileIds result.files) = true →
      findingKeysUnique (db.findings ++
        findingRows row.workspaceId c.aggregateId findingIds result.findings) = true →
      Stored db c row fileIds findingIds (some result) none (counted row result)
        (db.fileResults ++ fileRows row.workspaceId c.aggregateId fileIds result.files)
        (db.findings ++ findingRows row.workspaceId c.aggregateId findingIds result.findings)
  | nothing (result : Option Result) (code : Option Code) :
      (code = none → result = none) →
      Stored db c row fileIds findingIds result code row db.fileResults db.findings

theorem complete_cases {db db' : Db} {c : Claim} {fileIds findingIds : ℕ → UUID}
    {result : Option Result} {code : Option Code} {retry expired : Bool} {delay : ℕ}
    (h : complete db c fileIds findingIds result code retry expired delay = .ok db') :
    db' = db ∨ ∃ row result' code' retry' job job' row' files findings,
      db.analysisRuns.get c.aggregateId = some row ∧ row.status.terminal = false ∧
      verdict db c row result code retry = .ok (result', code', retry') ∧
      Jobs.fence db.jobs db.now c expired = some job ∧
      Jobs.finish db.now job code' retry' delay = .ok job' ∧
      Stored db c row fileIds findingIds result' code' row' files findings ∧
      db' = { db with
        fileResults := files
        findings := findings
        jobs := db.jobs.put c.id (jobAfter job' code')
        analysisRuns := db.analysisRuns.put c.aggregateId (closed db.now row' job' code') } := by
  simp only [complete, Tx.bind_eq_ok] at h
  obtain ⟨wid, -, row, hrow, h⟩ := h
  obtain ⟨hget, -⟩ := Analysis.findRun_eq_ok.mp hrow
  split at h
  · exact .inl (Except.ok.inj h).symm
  · rename_i hterm
    obtain ⟨⟨result', code', retry'⟩, hverdict, h⟩ := (Tx.bind_eq_ok ..).mp h
    simp only at h
    split at h
    · exact .inl (Except.ok.inj h).symm
    · rename_i job hjob
      have hopen : row.status.terminal = false := by simpa using hterm
      split at h
      · rename_i result₁
        simp only [saveRows, Tx.bind_eq_ok] at h
        obtain ⟨⟨row', db₁⟩, hsave, job', hfinish, h⟩ := h
        split at hsave
        · contradiction
        · rename_i hkeys
          simp only [not_or, Bool.not_eq_false] at hkeys
          obtain ⟨rfl, rfl⟩ := Prod.mk.inj (Except.ok.inj hsave)
          exact .inr ⟨row, some result₁, none, retry', job, job', _, _, _, hget, hopen, hverdict,
            hjob, hfinish, .saved result₁ hkeys.1 hkeys.2, (Except.ok.inj h).symm⟩
      · rename_i hno
        simp only [Tx.bind_eq_ok, Except.ok.injEq] at h
        obtain ⟨_, rfl, job', hfinish, h⟩ := h
        refine .inr ⟨row, result', code', retry', job, job', row, _, _, hget, hopen, hverdict, hjob,
          hfinish, .nothing result' code' fun hcode => ?_, h.symm⟩
        cases result' with
        | none => rfl
        | some r => exact absurd rfl (hno r hcode)

end AnalysisWorker

end Prism
