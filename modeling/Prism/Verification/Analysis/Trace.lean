import Prism.Verification.Lifecycle.Trace
import Prism.Verification.Analysis.Semantics

/-! The rows of an analysis along an execution. -/

namespace Prism.AnalysisWorker

open World

/-- A committed completion of the analysis with this result. -/
def Completes (aid : UUID) (result : Result) (e : Transition.Event World Action Outcome) : Prop :=
  ∃ c fileIds findingIds retry expired delay,
    e.action = .analysisComplete c fileIds findingIds (some result) none retry expired delay ∧
      c.aggregateId = aid ∧ e.outcome = .committed

/-- The run and the stored rows are those of one result. -/
structure Holds (db : Db) (aid : UUID) (run : AnalysisRun) (result : Result) : Prop where
  files : (filesOf db aid).map (·.entry) = result.files
  findings : (findingsOf db aid).map (·.entry) = result.findings
  total : run.totalFiles = (filesOf db aid).length
  sum : run.totalFiles = run.includedFiles + run.excludedFiles + run.failedFiles
  finding_count : run.findingCount = (findingsOf db aid).length

def NoRows (db : Db) (aid : UUID) : Prop :=
  filesOf db aid = [] ∧ findingsOf db aid = []

/-- A completed run holds the rows of a result a worker passed to `complete`; any
other analysis has none. -/
structure Saved (trace : Trace) (w : World) : Prop where
  absent : ∀ aid, w.db.analysisRuns.get aid = none → NoRows w.db aid
  unfinished : ∀ aid run, w.db.analysisRuns.get aid = some run → run.status ≠ .completed →
    NoRows w.db aid
  completed : ∀ aid run, w.db.analysisRuns.get aid = some run → run.status = .completed →
    ∃ result, (∃ e ∈ trace, Completes aid result e) ∧ Holds w.db aid run result

private theorem noRows_same {db db' : Db} {aid : UUID} (h : SameRows db db' aid)
    (hno : NoRows db aid) : NoRows db' aid :=
  ⟨h.1.trans hno.1, h.2.trans hno.2⟩

private theorem holds_same {db db' : Db} {aid : UUID} {run : AnalysisRun} {result : Result}
    (h : SameRows db db' aid) (hholds : Holds db aid run result) : Holds db' aid run result := by
  obtain ⟨hfiles, hfindings⟩ := h
  constructor
  · rw [hfiles]; exact hholds.files
  · rw [hfindings]; exact hholds.findings
  · rw [hfiles]; exact hholds.total
  · exact hholds.sum
  · rw [hfindings]; exact hholds.finding_count

/-- A step that changed anything was committed. -/
private theorem committed_of_change {w : World} {body : Tx Db}
    (h : (w.commit body).2.db.analysisRuns ≠ w.db.analysisRuns) :
    (w.commit body).1 = .committed := by
  unfold World.commit at *
  split
  · rfl
  · exact absurd rfl h

private theorem open_not_completed {row : AnalysisRun} (h : row.status.terminal = false) :
    row.status ≠ .completed := by
  intro hs
  simp [hs, RunStatus.terminal] at h

theorem saved_step {trace : Trace} {w : World} (h : Saved trace w) (a : Action)
    (ha : World.allowed a w) :
    Saved (⟨w, a, (step a w).1⟩ :: trace) (step a w).2 := by
  refine ⟨?_, ?_, ?_⟩
  · intro aid hnone
    cases step_change a w ha aid with
    | same hget hrows => exact noRows_same hrows (h.absent aid (hget ▸ hnone))
    | started run _ hget => simp [hget] at hnone
    | worked row run _ _ hget => simp [hget] at hnone
    | saved c fi gi result retry expired delay row run job _ _ _ _ _ _ hget => simp [hget] at hnone
  · intro aid run hrun hne
    cases step_change a w ha aid with
    | same hget hrows => exact noRows_same hrows (h.unfinished aid run (hget ▸ hrun) hne)
    | started run' hnone _ _ _ hrows => exact noRows_same hrows (h.absent aid hnone)
    | worked row run' hget hopen _ _ _ hrows =>
        exact noRows_same hrows (h.unfinished aid row hget (open_not_completed hopen))
    | saved c fi gi result retry expired delay row run' job _ _ _ _ _ _ hget hs =>
        obtain rfl := Option.some.inj (hget.symm.trans hrun)
        exact absurd hs hne
  · intro aid run hrun hdone
    cases step_change a w ha aid with
    | same hget hrows =>
        obtain ⟨result, ⟨e, he, hc⟩, hholds⟩ := h.completed aid run (hget ▸ hrun) hdone
        exact ⟨result, ⟨e, List.mem_cons_of_mem _ he, hc⟩, holds_same hrows hholds⟩
    | started run' _ hget hs =>
        obtain rfl := Option.some.inj (hget.symm.trans hrun)
        simp [hs] at hdone
    | worked row run' _ _ hget hs =>
        obtain rfl := Option.some.inj (hget.symm.trans hrun)
        exact absurd hdone hs
    | saved c fi gi result retry expired delay row run' job hact hagg hrow hopen hjob hlive hget hs
        hsame htotal hincluded hexcluded hfailed hfindings hfiles hgiven =>
        obtain rfl := Option.some.inj (hget.symm.trans hrun)
        obtain ⟨hnofiles, hnofindings⟩ := h.unfinished aid row hrow (open_not_completed hopen)
        rw [hnofiles, List.nil_append] at hfiles
        rw [hnofindings, List.nil_append] at hgiven
        refine ⟨result, ⟨_, List.mem_cons_self .., c, fi, gi, retry, expired, delay, hact, hagg, ?_⟩,
          ?_, ?_, ?_, ?_, ?_⟩
        · subst hact
          refine committed_of_change fun hsame => open_not_completed hopen ?_
          have hrow' : some row = some run' := by
            rw [← hrow, ← hget]
            exact congrArg (·.get aid) hsame.symm
          rw [Option.some.inj hrow']
          exact hs
        · rw [hfiles, fileRows_entries]
        · rw [hgiven, findingRows_entries]
        · rw [htotal, hfiles]
          simp [counted, fileRows]
        · rw [htotal, hincluded, hexcluded, hfailed]
          exact counted_total row result
        · rw [hfindings, hgiven]
          simp [counted, findingRows]

theorem saved_initial (now : Instant) : Saved [] (World.initial now) := by
  constructor <;> simp [NoRows, filesOf, findingsOf, World.initial, Db.empty]

theorem run_saved {now : Instant} {trace : Trace} {w : World} (h : World.Run now trace w) :
    Saved trace w :=
  h.induct Saved (saved_initial now) fun _ _ a hs ha => saved_step hs a ha

/-- A terminal analysis keeps its run and its rows, whatever follows. -/
theorem terminal_kept {w w' : World} {later : Trace} (hexec : World.Path w later w') {aid : UUID}
    {run : AnalysisRun} (hget : w.db.analysisRuns.get aid = some run)
    (hterm : run.status.terminal = true) :
    w'.db.analysisRuns.get aid = some run ∧ SameRows w.db w'.db aid := by
  refine hexec.invariant (fun s => s.db.analysisRuns.get aid = some run ∧
    SameRows w.db s.db aid) ⟨hget, .of_eq rfl rfl aid⟩ ?_
  rintro s a ⟨hs, hrows⟩ ha
  have hopen : ∀ row, s.db.analysisRuns.get aid = some row → row.status.terminal ≠ false := by
    intro row hrow hfalse
    obtain rfl := Option.some.inj (hs.symm.trans hrow)
    simp [hterm] at hfalse
  cases step_change a s ha aid with
  | same hsame hrows' =>
      exact ⟨hsame.trans hs, hrows'.1.trans hrows.1, hrows'.2.trans hrows.2⟩
  | started run' hnone => simp [hs] at hnone
  | worked row run' hrow hfalse => exact absurd hfalse (hopen row hrow)
  | saved c fi gi result retry expired delay row run' job _ _ hrow hfalse =>
      exact absurd hfalse (hopen row hrow)

/-! ## The contract -/

/-- Only completed runs have rows, those of the one result they were completed
with; only the holder of the current lease generation adds rows; and a canceled
run, like any terminal one, never gets more. -/
theorem results_saved_once {now : Instant} {trace : Trace} {w : World}
    (h : World.Run now trace w) :
    (∀ aid run, w.db.analysisRuns.get aid = some run → run.status ≠ .completed →
      NoRows w.db aid) ∧
    (∀ aid run, w.db.analysisRuns.get aid = some run → run.status = .completed →
      ∃ result, (∃ e ∈ trace, Completes aid result e) ∧ Holds w.db aid run result) ∧
    (∀ e ∈ trace,
      (step e.action e.before).2.db.fileResults ≠ e.before.db.fileResults ∨
        (step e.action e.before).2.db.findings ≠ e.before.db.findings →
      ∃ c fileIds findingIds result code retry expired delay job,
        e.action = .analysisComplete c fileIds findingIds result code retry expired delay ∧
        e.before.db.jobs.get c.id = some job ∧ job.state = .leased ∧
        job.leaseGeneration = c.generation ∧ job.aggregateId = c.aggregateId) ∧
    ∀ aid run, w.db.analysisRuns.get aid = some run → run.status = .canceled →
      ∀ later w', World.Path w later w' → w'.db.analysisRuns.get aid = some run ∧
        NoRows w'.db aid := by
  have hsaved := run_saved h
  refine ⟨hsaved.unfinished, hsaved.completed, ?_, ?_⟩
  · intro e he hadded
    obtain ⟨⟨earlier, hbefore⟩, hallowed, -⟩ := h.passed he
    rcases step_rows e.action e.before with ⟨hf, hg⟩ |
      ⟨c, fi, gi, result, code, retry, expired, delay, job, hact, hjob⟩
    · rcases hadded with hadded | hadded <;> contradiction
    · have hc : c ∈ e.before.issued := (hallowed.1 c (by simp [hact, claimOf])).1
      obtain ⟨hget, hs, -, hagg⟩ :=
        Lifecycle.fence_granted (Lifecycle.run_sound hbefore) hc hjob
      exact ⟨c, fi, gi, result, code, retry, expired, delay, job, hact, hget, hs,
        (Jobs.fence_eq_some.mp hjob).2.2.1, hagg⟩
  · intro aid run hget hs later w' hexec
    obtain ⟨hget', hrows⟩ := terminal_kept hexec hget (by simp [hs, RunStatus.terminal])
    exact ⟨hget', noRows_same hrows (hsaved.unfinished aid run hget (by simp [hs]))⟩

/-! ## An execution -/

def commitSha : String := "0123456789abcdef0123456789abcdef01234567"

def settings : Settings where
  analysisEnabled := true
  ruleSet := "rules"
  buildDigest := "build"
  analysisKey := fun inputs generation => s!"{inputs.headSha}:{generation}"
  aiEnabled := true
  deepseekModel := "model"
  promptVersion := "prompt"
  policyVersion := "policy"
  aiDailyLimit := 10
  reviewKey := fun wid aid _ _ _ _ generation _ _ _ => s!"{wid}:{aid}:{generation}"

def pulled : SyncOutcome :=
  ⟨[⟨100, 1, "title", none, .opened, false, ⟨none, some commitSha⟩, ⟨none, some commitSha⟩, 0, 0,
    none, none, none, none, none⟩], none, false, 5, none, false⟩

def analyzed : Result :=
  ⟨[⟨"README.md", "digest", .head, none, none, .excluded, some .removed, false, []⟩], [], .none,
    some .noSupportedFiles⟩

def analysisClaim : Claim := ⟨9, 8, some 1, .analyzePr, 1, "first"⟩

/-- A pull request is stored, and its analysis is saved. -/
def analyzing : List Action :=
  Lifecycle.syncing ++ [
    .syncComplete (Lifecycle.syncClaim 1 "first") (fun _ => 7) pulled false,
    .analysisStart settings 2 1 7 none 8 9, .claim "first" [.analyzePr] [],
    .analysisBegin settings analysisClaim,
    .analysisComplete analysisClaim id id (some analyzed) none false false 5]

theorem results_saved_once_analyzing :
    ∃ run result, (Lifecycle.reach analyzing).db.analysisRuns.get 8 = some run ∧
      Holds (Lifecycle.reach analyzing).db 8 run result := by
  have hrun : (((Lifecycle.reach analyzing).db.analysisRuns.get 8).map (·.status)) =
      some .completed := by decide +kernel
  obtain ⟨run, hget, hs⟩ := Option.map_eq_some_iff.mp hrun
  obtain ⟨result, -, hholds⟩ :=
    (results_saved_once (Transition.exec_run _ analyzing (by decide +kernel))).2.1 8 run hget hs
  exact ⟨run, result, hget, hholds⟩

end Prism.AnalysisWorker
