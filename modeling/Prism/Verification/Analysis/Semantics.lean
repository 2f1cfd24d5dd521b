import Prism.Verification.System.Equations

/-! The steps of the system as one analysis sees them: its run and its rows. -/

namespace Prism.AnalysisWorker

open World

def filesOf (db : Db) (aid : UUID) : List AnalysisFileResult :=
  db.fileResults.filter fun r => r.analysisId = aid

def findingsOf (db : Db) (aid : UUID) : List Finding :=
  db.findings.filter fun r => r.analysisId = aid

/-- The rows of an analysis are the same. -/
def SameRows (db db' : Db) (aid : UUID) : Prop :=
  filesOf db' aid = filesOf db aid ∧ findingsOf db' aid = findingsOf db aid

theorem SameRows.of_eq {db db' : Db} (hf : db'.fileResults = db.fileResults)
    (hg : db'.findings = db.findings) (aid : UUID) : SameRows db db' aid := by
  simp [SameRows, filesOf, findingsOf, hf, hg]

private theorem fileRows_filter (wid aid aid' : UUID) (ids : ℕ → UUID) (files : List FileEntry) :
    (fileRows wid aid ids files).filter (fun r => r.analysisId = aid') =
      if aid' = aid then fileRows wid aid ids files else [] := by
  have hmem : ∀ r ∈ fileRows wid aid ids files, r.analysisId = aid := by
    intro r hr
    obtain ⟨i, hi, rfl⟩ := List.mem_mapIdx.mp hr
    rfl
  split
  · rename_i h
    exact List.filter_eq_self.mpr fun r hr => by simp [h, hmem r hr]
  · rename_i h
    exact List.filter_eq_nil_iff.mpr fun r hr => by simp [hmem r hr, Ne.symm h]

private theorem findingRows_filter (wid aid aid' : UUID) (ids : ℕ → UUID)
    (findings : List FindingEntry) :
    (findingRows wid aid ids findings).filter (fun r => r.analysisId = aid') =
      if aid' = aid then findingRows wid aid ids findings else [] := by
  have hmem : ∀ r ∈ findingRows wid aid ids findings, r.analysisId = aid := by
    intro r hr
    obtain ⟨i, hi, rfl⟩ := List.mem_mapIdx.mp hr
    rfl
  split
  · rename_i h
    exact List.filter_eq_self.mpr fun r hr => by simp [h, hmem r hr]
  · rename_i h
    exact List.filter_eq_nil_iff.mpr fun r hr => by simp [hmem r hr, Ne.symm h]

theorem fileRows_entries (wid aid : UUID) (ids : ℕ → UUID) (files : List FileEntry) :
    (fileRows wid aid ids files).map (·.entry) = files := by
  apply List.ext_getElem?
  intro i
  simp [fileRows, Option.map_map, Function.comp_def]

theorem findingRows_entries (wid aid : UUID) (ids : ℕ → UUID) (findings : List FindingEntry) :
    (findingRows wid aid ids findings).map (·.entry) = findings := by
  apply List.ext_getElem?
  intro i
  simp [findingRows, Option.map_map, Function.comp_def]

/-- The counters of a saved result add up. -/
theorem counted_total (row : AnalysisRun) (result : Result) :
    (counted row result).totalFiles = (counted row result).includedFiles +
      (counted row result).excludedFiles + (counted row result).failedFiles := by
  have hdisjoint : ∀ files : List FileEntry,
      files.countP (fun f => f.status = .included) +
        files.countP (fun f => f.status = .excluded) ≤ files.length := by
    intro files
    induction files with
    | nil => simp
    | cons f files ih =>
        simp only [List.countP_cons, List.length_cons]
        cases f.status <;> simp <;> omega
  have hle := hdisjoint result.files
  simp only [counted]
  omega

/-! ## One step -/

/-- The columns of a run that are written once. -/
structure SameAnalysis (row run : AnalysisRun) : Prop where
  inputs : run.toAnalysisInputs = row.toAnalysisInputs
  number : run.generation = row.generation
  key : run.executionKey = row.executionKey

theorem SameAnalysis.repository {row run : AnalysisRun} (h : SameAnalysis row run) :
    run.repositoryConnectionId = row.repositoryConnectionId :=
  congrArg AnalysisInputs.repositoryConnectionId h.inputs

theorem SameAnalysis.generation {row run : AnalysisRun} (h : SameAnalysis row run) :
    run.connectionGeneration = row.connectionGeneration :=
  congrArg AnalysisInputs.connectionGeneration h.inputs

/-- How an analysis can change in one step: not at all, by a request, by work
that stores nothing, or by the completion that stores its rows. -/
inductive Change (w : World) (a : Action) (db' : Db) (aid : UUID) : Prop where
  | same : db'.analysisRuns.get aid = w.db.analysisRuns.get aid → SameRows w.db db' aid →
      Change w a db' aid
  | started (run : AnalysisRun) : w.db.analysisRuns.get aid = none →
      db'.analysisRuns.get aid = some run → run.status = .pending →
      Live db' run.repositoryConnectionId run.connectionGeneration →
      SameRows w.db db' aid → Change w a db' aid
  | worked (row run : AnalysisRun) : w.db.analysisRuns.get aid = some row →
      row.status.terminal = false → db'.analysisRuns.get aid = some run →
      run.status ≠ .completed → SameAnalysis row run → SameRows w.db db' aid →
      Change w a db' aid
  | saved (c : Claim) (fileIds findingIds : ℕ → UUID) (result : Result) (retry expired : Bool)
      (delay : ℕ) (row run : AnalysisRun) (job : Job) :
      a = .analysisComplete c fileIds findingIds (some result) none retry expired delay →
      c.aggregateId = aid → w.db.analysisRuns.get aid = some row →
      row.status.terminal = false → Jobs.fence w.db.jobs w.db.now c expired = some job →
      Live w.db row.repositoryConnectionId row.connectionGeneration →
      db'.analysisRuns.get aid = some run → run.status = .completed → SameAnalysis row run →
      run.totalFiles = (counted row result).totalFiles →
      run.includedFiles = (counted row result).includedFiles →
      run.excludedFiles = (counted row result).excludedFiles →
      run.failedFiles = (counted row result).failedFiles →
      run.findingCount = (counted row result).findingCount →
      filesOf db' aid = filesOf w.db aid ++ fileRows row.workspaceId aid fileIds result.files →
      findingsOf db' aid =
        findingsOf w.db aid ++ findingRows row.workspaceId aid findingIds result.findings →
      Change w a db' aid

private theorem change_same {w : World} {a : Action} {db' : Db} (aid : UUID)
    (hr : db'.analysisRuns = w.db.analysisRuns) (hf : db'.fileResults = w.db.fileResults)
    (hg : db'.findings = w.db.findings) : Change w a db' aid :=
  .same (by rw [hr]) (.of_eq hf hg aid)

private theorem change_put {w : World} {a : Action} {db' : Db} {aid₀ : UUID} {run : AnalysisRun}
    (hr : db'.analysisRuns = w.db.analysisRuns.put aid₀ run)
    (hrows : ∀ aid, aid ≠ aid₀ → SameRows w.db db' aid) (h : Change w a db' aid₀) (aid : UUID) :
    Change w a db' aid := by
  by_cases hid : aid = aid₀
  · subst aid
    exact h
  · exact .same (by rw [hr, Table.get_put_of_ne _ _ hid]) (hrows aid hid)

private theorem change_run {w : World} {a : Action} {db' : Db} {aid₀ : UUID} {run : AnalysisRun}
    (hr : db'.analysisRuns = w.db.analysisRuns.put aid₀ run)
    (hf : db'.fileResults = w.db.fileResults) (hg : db'.findings = w.db.findings)
    (h : Change w a db' aid₀) {aid : UUID} : Change w a db' aid :=
  change_put hr (fun aid' _ => .of_eq hf hg aid') h aid

private theorem change_commit {w : World} {a : Action} {body : Tx Db} {aid : UUID}
    (h : ∀ db', body = .ok db' → Change w a db' aid) :
    Change w a (w.commit body).2.db aid := by
  unfold World.commit
  split
  · exact h _ rfl
  · exact change_same aid rfl rfl rfl

/-- A finished run with a code is not completed; one without a code is. -/
private theorem statusAfter_code {job job' : Job} {code : Option Code} {retry : Bool} {delay : ℕ}
    {now : Instant} (h : Jobs.finish now job code retry delay = .ok job') :
    statusAfter job'.state code = .completed ↔ code = none := by
  obtain ⟨-, -, hstate, -⟩ := Jobs.finish_eq_ok h
  cases code with
  | none =>
      simp only [Jobs.again, Option.isSome_none, Bool.false_and, Bool.false_eq_true,
        if_false] at hstate
      simp [hstate, statusAfter, cancels]
  | some code =>
      simp only [statusAfter, Option.isSome_some, if_true, reduceCtorEq, iff_false]
      split
      · simp
      · split <;> simp

private theorem complete_change {w : World} {c : Claim} {fileIds findingIds : ℕ → UUID}
    {result : Option Result} {code : Option Code} {retry expired : Bool} {delay : ℕ} {db' : Db}
    (hpassed : result.isSome ↔ code = none)
    (h : complete w.db c fileIds findingIds result code retry expired delay = .ok db')
    (aid : UUID) :
    Change w (.analysisComplete c fileIds findingIds result code retry expired delay) db' aid := by
  rcases complete_cases h with
    rfl | ⟨row, result', code', retry', job, job', row', files, findings, hget, hopen, hverdict,
      hjob, hfinish, hstored, rfl⟩
  · exact change_same aid rfl rfl rfl
  have hcode := statusAfter_code hfinish
  have hpassed' := verdict_passed hpassed hverdict
  cases hstored with
  | saved result₁ hfiles hfindings =>
      obtain ⟨rfl, rfl, hlive⟩ := verdict_none hget hverdict
      refine change_put rfl (fun aid' hne => ?_) ?_ aid
      · simp [SameRows, filesOf, findingsOf, List.filter_append, fileRows_filter,
          findingRows_filter, hne]
      · exact .saved c fileIds findingIds result₁ retry expired delay row _ job rfl rfl hget hopen
          hjob hlive (Table.get_put_self ..) (hcode.mpr rfl) ⟨rfl, rfl, rfl⟩ rfl rfl rfl rfl rfl
          (by simp [filesOf, List.filter_append, fileRows_filter])
          (by simp [findingsOf, List.filter_append, findingRows_filter])
  | nothing _ _ hnothing =>
      have hne : code' ≠ none := by
        intro hnone
        have hsome := hpassed'.mpr hnone
        simp [hnothing hnone] at hsome
      refine change_run (by rfl) (by rfl) (by rfl) ?_
      exact .worked row _ hget hopen (Table.get_put_self ..) (fun hs => hne (hcode.mp hs))
        ⟨rfl, rfl, rfl⟩ (.of_eq rfl rfl _)

/-- Every analysis changes only as described. -/
theorem step_change (a : Action) (w : World) (ha : World.allowed a w) (aid : UUID) :
    Change w a (step a w).2.db aid := by
  have hframe := step_frame a w
  by_cases hquiet : Area.analysisRuns ∉ touches a ∧ Area.results ∉ touches a
  · obtain ⟨hf, hg⟩ := hframe.results hquiet.2
    exact change_same aid (hframe.analysisRuns hquiet.1) hf hg
  cases a with
  | analysisStart st uid wid pid rerunOf aid' jid =>
      refine change_commit fun db' h => ?_
      obtain ⟨⟨id, db₁⟩, hbody, rfl⟩ := (Tx.map_eq_ok ..).mp h
      rcases Analysis.start_cases hbody with rfl | ⟨run, jobs, hadmitted, hnone, -, rfl⟩
      · exact change_same aid rfl rfl rfl
      · obtain ⟨inputs, generation, rfl⟩ := hadmitted.new
        refine change_run (by rfl) (by rfl) (by rfl) ?_
        exact .started _ hnone (Table.get_put_self ..) rfl hadmitted.live (.of_eq rfl rfl _)
  | analysisCancel uid wid aid' =>
      refine change_commit fun db' h => ?_
      rcases Analysis.cancel_cases h with rfl | ⟨row, jid, job, history, hget, hopen, -, -, -, -, rfl⟩
      · exact change_same aid rfl rfl rfl
      · refine change_run (by rfl) (by rfl) (by rfl) ?_
        exact .worked row _ hget hopen (Table.get_put_self ..) (by simp [Analysis.canceled])
          ⟨rfl, rfl, rfl⟩ (.of_eq rfl rfl _)
  | analysisBegin st c =>
      refine change_commit fun db' h => ?_
      obtain ⟨⟨plan, db₁⟩, hbody, rfl⟩ := (Tx.map_eq_ok ..).mp h
      rcases begin_cases hbody with ⟨-, rfl⟩ | ⟨row, job, hget, hopen, -, -, rfl⟩
      · exact change_same aid rfl rfl rfl
      · refine change_run (by rfl) (by rfl) (by rfl) ?_
        exact .worked row _ hget hopen (Table.get_put_self ..) (by simp [started]) ⟨rfl, rfl, rfl⟩
          (.of_eq rfl rfl _)
  | analysisComplete c fileIds findingIds result code retry expired delay =>
      have hpassed : result.isSome ↔ code = none := by
        have hargs := ha.2
        simp only [passed, Bool.and_eq_true, decide_eq_true_eq] at hargs
        rw [hargs.1, Option.isNone_iff_eq_none]
      exact change_commit fun db' h => complete_change hpassed h aid
  | _ => exact absurd (by simp [touches]) hquiet

/-- A run that is new was admitted, and is the only change. -/
theorem step_inserted {a : Action} {w : World} {aid : UUID} {run : AnalysisRun}
    (hnone : w.db.analysisRuns.get aid = none)
    (hget : (step a w).2.db.analysisRuns.get aid = some run) :
    ∃ st uid wid pid rerunOf jid, a = .analysisStart st uid wid pid rerunOf aid jid ∧
      Analysis.Admitted st w.db uid wid pid run ∧
      ∀ aid', aid' ≠ aid →
        (step a w).2.db.analysisRuns.get aid' = w.db.analysisRuns.get aid' := by
  by_cases hquiet : Area.analysisRuns ∉ touches a
  · rw [(step_frame a w).analysisRuns hquiet, hnone] at hget
    contradiction
  have hold : ∀ {aid₀ : UUID} {row run₀ : AnalysisRun}, w.db.analysisRuns.get aid₀ = some row →
      (w.db.analysisRuns.put aid₀ run₀).get aid ≠ some run := by
    intro aid₀ row run₀ hrow h
    rcases (Table.get_put_eq_some ..).mp h with ⟨rfl, -⟩ | ⟨-, h⟩
    · simp [hnone] at hrow
    · simp [hnone] at h
  cases a with
  | analysisStart st uid wid pid rerunOf aid' jid =>
      simp only [step, World.commit] at hget ⊢
      split at hget
      · rename_i db' h
        obtain ⟨⟨id, db₁⟩, hbody, rfl⟩ := (Tx.map_eq_ok ..).mp h
        rcases Analysis.start_cases hbody with rfl | ⟨run', jobs, hadmitted, -, -, rfl⟩
        · simp [hnone] at hget
        · rcases (Table.get_put_eq_some ..).mp hget with ⟨rfl, rfl⟩ | ⟨-, hget⟩
          · exact ⟨st, uid, wid, pid, rerunOf, jid, rfl, hadmitted,
              fun aid' hne => Table.get_put_of_ne _ _ hne⟩
          · simp [hnone] at hget
      · simp [hnone] at hget
  | analysisCancel uid wid aid' =>
      simp only [step, World.commit] at hget
      split at hget
      · rename_i db' h
        rcases Analysis.cancel_cases h with rfl | ⟨row, jid, job, history, hrow, -, -, -, -, -, rfl⟩
        · simp [hnone] at hget
        · exact absurd hget (hold hrow)
      · simp [hnone] at hget
  | analysisBegin st c =>
      simp only [step, World.commit] at hget
      split at hget
      · rename_i db' h
        obtain ⟨⟨plan, db₁⟩, hbody, rfl⟩ := (Tx.map_eq_ok ..).mp h
        rcases begin_cases hbody with ⟨-, rfl⟩ | ⟨row, job, hrow, -, -, -, rfl⟩
        · simp [hnone] at hget
        · exact absurd hget (hold hrow)
      · simp [hnone] at hget
  | analysisComplete c fileIds findingIds result code retry expired delay =>
      simp only [step, World.commit] at hget
      split at hget
      · rename_i db' h
        rcases complete_cases h with
          rfl | ⟨row, result', code', retry', job, job', row', files, findings, hrow, -, -, -, -, -,
            rfl⟩
        · simp [hnone] at hget
        · exact absurd hget (hold hrow)
      · simp [hnone] at hget
  | _ => exact absurd (by simp [touches]) hquiet

/-- Only a completion under the live or the recovery lease adds rows. -/
theorem step_rows (a : Action) (w : World) :
    ((step a w).2.db.fileResults = w.db.fileResults ∧ (step a w).2.db.findings = w.db.findings) ∨
      ∃ c fileIds findingIds result code retry expired delay job,
        a = .analysisComplete c fileIds findingIds result code retry expired delay ∧
        Jobs.fence w.db.jobs w.db.now c expired = some job := by
  by_cases hquiet : Area.results ∉ touches a
  · exact .inl ((step_frame a w).results hquiet)
  cases a with
  | analysisComplete c fileIds findingIds result code retry expired delay =>
      simp only [step, World.commit]
      split
      · rename_i db' h
        rcases complete_cases h with rfl | ⟨_, _, _, _, job, _, _, _, _, -, -, -, hjob, -, -, -⟩
        · exact .inl ⟨rfl, rfl⟩
        · exact .inr ⟨c, fileIds, findingIds, result, code, retry, expired, delay, job, rfl, hjob⟩
      · exact .inl ⟨rfl, rfl⟩
  | _ => exact absurd (by simp [touches]) hquiet

end Prism.AnalysisWorker
