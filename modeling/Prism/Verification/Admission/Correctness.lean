import Prism.Verification.Connection.Semantics
import Prism.Verification.Review.Trace
import Prism.Verification.Sync.Freshness

/-! Starts admit one active run for each connection, pull request and workspace, and
join a run they would repeat. -/

namespace Prism

/-! ## What a start asks for -/

namespace Analysis

/-- The inputs of a start that repeats no run. -/
def requested (st : Settings) (db : Db) (uid wid pid : UUID) : Tx AnalysisInputs :=
  if st.analysisEnabled = false then .error (error .analysisRunnerDisabled .unavailable)
  else do
    let pr ← analysisSnapshot db uid wid pid
    let repo ← requireRepository db uid wid pr.repositoryConnectionId .sync true
    let (config, configDigest, _) ← analysisConfig db uid wid repo.id none
    match pr.baseSha, pr.headSha with
    | some base, some head =>
      if isCommitSha base = false ∨ isCommitSha head = false then
        .error (error .prSnapshotRequired .conflict)
      else
        .ok
          { workspaceId := wid
            repositoryConnectionId := repo.id
            connectionGeneration := repo.connectionGeneration
            prId := pid
            baseSha := base
            headSha := head
            mergeBaseSha := none
            ruleSetVersion := st.ruleSet
            configVersionId := config
            effectiveConfigDigest := configDigest
            analyzerBuildDigest := st.buildDigest }
    | _, _ => .error (error .prSnapshotRequired .conflict)

theorem start_requested (st : Settings) (db : Db) (uid wid pid aid jid : UUID) :
    start st db uid wid pid none aid jid =
      (requested st db uid wid pid >>= fun inputs =>
        admitRun db uid wid pid inputs 0 (st.analysisKey inputs 0) aid jid) := by
  unfold start requested
  split
  · rfl
  · cases hpr : analysisSnapshot db uid wid pid with
    | error f => rfl
    | ok pr =>
      cases hrepo : requireRepository db uid wid pr.repositoryConnectionId .sync true with
      | error f => simp [bind, Except.bind, hrepo]
      | ok repo =>
        cases hconfig : analysisConfig db uid wid repo.id none with
        | error f => simp [bind, Except.bind, hrepo, hconfig]
        | ok config =>
          obtain ⟨config, digest, ignored⟩ := config
          simp only [bind, Except.bind, hrepo, hconfig, commits]
          cases pr.baseSha with
          | none => rfl
          | some base =>
            cases pr.headSha with
            | none => rfl
            | some head =>
              simp only
              split <;> rfl

/-- The pull request of such a start and its connection are those of the workspace. -/
theorem requested_home {st : Settings} {db : Db} {uid wid pid : UUID} {inputs : AnalysisInputs}
    (h : requested st db uid wid pid = .ok inputs) : ∃ pr r,
      db.pullRequests.get pid = some pr ∧
      db.connections.get pr.repositoryConnectionId = some r ∧ r.workspaceId = wid := by
  unfold requested at h
  split at h
  · contradiction
  · simp only [Tx.bind_eq_ok] at h
    obtain ⟨pr, hpr, repo, hrepo, -⟩ := h
    obtain ⟨r, hr, -⟩ := requireRepository_eq_ok hrepo
    obtain ⟨-, hconnection, hwid, -⟩ := access_eq_ok hr
    exact ⟨pr, r, analysisSnapshot_eq_ok hpr, hconnection, hwid⟩

end Analysis

namespace Review

/-- The snapshot, mode and document versions of a start that repeats no run. -/
def requested (st : Settings) (db : Db) (uid wid aid : UUID) (consent : Bool)
    (purpose : Purpose) : Tx (ReviewSnapshot × ReviewMode × List UUID) :=
  if st.aiEnabled = false then .error (error .aiDisabled .unavailable)
  else if consent = false then .error (error .aiConsentRequired .invalidInput)
  else do
    let _ ← requirePermission db uid wid .owner
    let snap ← reviewSnapshot db uid wid aid
    let user ← getActiveUser db uid
    let versions ← versions db wid snap.repositoryId purpose
    .ok (snap, user.reviewMode, versions)

/-- The row such a start would insert. -/
def requestedRun (st : Settings) (db : Db) (uid wid aid : UUID) (purpose : Purpose)
    (waited : ℕ) (asked : ReviewSnapshot × ReviewMode × List UUID) : ReviewRun :=
  newRun st db.now (db.now - waited) uid wid asked.1 purpose asked.2.1 asked.2.2 0
    (st.reviewKey wid aid asked.1.connectionGeneration st.deepseekModel st.promptVersion
      st.policyVersion 0 purpose asked.2.1 asked.2.2)

theorem start_requested (st : Settings) (db : Db) (uid wid aid : UUID) (consent : Bool)
    (purpose : Purpose) (waited : ℕ) (rid jid : UUID) :
    start st db uid wid aid consent none purpose waited rid jid =
      (requested st db uid wid aid consent purpose >>= fun asked =>
        admitRun st db wid (requestedRun st db uid wid aid purpose waited asked) rid jid) := by
  unfold start requested
  split
  · rfl
  · split
    · rfl
    · cases requirePermission db uid wid .owner with
      | error f => rfl
      | ok member =>
        cases reviewSnapshot db uid wid aid with
        | error f => rfl
        | ok snap =>
          cases getActiveUser db uid with
          | error f => rfl
          | ok user =>
            cases hversions : Review.versions db wid snap.repositoryId purpose with
            | error f => simp [bind, Except.bind, hversions]
            | ok versions =>
              simp [bind, Except.bind, hversions, nextGeneration, requestedRun]

end Review

namespace Admission

open World

/-! ## Slots -/

/-- The connection an active sync run keeps busy. -/
def syncSlot (run : PullRequestSyncRun) : Option UUID :=
  if run.status.terminal then none else some run.repositoryConnectionId

/-- The pull request an active analysis keeps busy. -/
def analysisSlot (run : AnalysisRun) : Option UUID :=
  if run.status.terminal then none else some run.prId

/-- The workspace an active review keeps busy. -/
def reviewSlot (run : ReviewRun) : Option UUID :=
  if run.status.terminal then none else some run.workspaceId

theorem slot_eq_some {status : RunStatus} {owner slot : UUID}
    (h : (if status.terminal then none else some owner) = some slot) :
    status.terminal = false ∧ owner = slot := by
  cases hs : status.terminal <;> simp_all

theorem isActive_iff (run : PullRequestSyncRun) :
    Sync.isActive run = true ↔ run.status.terminal = false := by
  cases hs : run.status <;> simp [Sync.isActive, hs, RunStatus.terminal]

/-- The digests the starts of the system use are those of one program. -/
def Uses (st : Settings) : Action → Prop
  | .analysisStart st' _ _ _ _ _ _ => st'.analysisKey = st.analysisKey
  | .reviewStart st' _ _ _ _ _ _ _ _ _ => st'.reviewKey = st.reviewKey
  | _ => True

def reviewKeyOf (st : Settings) (run : ReviewRun) : String :=
  st.reviewKey run.workspaceId run.analysisId run.connectionGeneration run.model
    run.promptVersion run.policyVersion run.generation run.purpose run.mode run.standardVersions

/-- No slot is taken twice, an analysis belongs to the connection of its pull
request, and keys identify runs and are the digests of their inputs. -/
structure Exclusive (st : Settings) (db : Db) : Prop where
  sync : Table.Exclusive syncSlot db.syncRuns
  analysis : Table.Exclusive analysisSlot db.analysisRuns
  review : Table.Exclusive reviewSlot db.reviewRuns
  homes : ∀ aid run, db.analysisRuns.get aid = some run → ∃ pr r,
    db.pullRequests.get run.prId = some pr ∧
    pr.repositoryConnectionId = run.repositoryConnectionId ∧
    db.connections.get run.repositoryConnectionId = some r ∧ r.workspaceId = run.workspaceId
  analysisKeys : Table.Exclusive (fun run => some run.executionKey) db.analysisRuns
  reviewKeys : Table.Exclusive (fun run => some run.executionKey) db.reviewRuns
  analysisKey : ∀ aid run, db.analysisRuns.get aid = some run →
    run.executionKey = st.analysisKey run.toAnalysisInputs run.generation
  reviewKey : ∀ rid run, db.reviewRuns.get rid = some run →
    run.executionKey = reviewKeyOf st run

theorem exclusive_initial (st : Settings) (now : Instant) : Exclusive st (Db.empty now) where
  sync := Table.exclusive_empty _
  analysis := Table.exclusive_empty _
  review := Table.exclusive_empty _
  homes := fun aid run h => by simp [Db.empty] at h
  analysisKeys := Table.exclusive_empty _
  reviewKeys := Table.exclusive_empty _
  analysisKey := fun aid run h => by simp [Db.empty] at h
  reviewKey := fun rid run h => by simp [Db.empty] at h

/-! ## Steps -/

variable {st : Settings} {w : World} {a : Action}

/-- An active sync run was active before, since settled runs stay as they are. -/
theorem sync_open (hsound : Lifecycle.Sound (Lifecycle.board w)) (ha : World.allowed a w)
    {sid : UUID} {row run : PullRequestSyncRun} (hrow : w.db.syncRuns.get sid = some row)
    (hrun : (step a w).2.db.syncRuns.get sid = some run) (hopen : run.status.terminal = false) :
    row.status.terminal = false := by
  by_contra hterm
  rw [Bool.not_eq_false] at hterm
  have hlater := Lifecycle.exec_later hsound (Transition.Exec.nil.snoc a ha)
  obtain ⟨s, hs, heq⟩ := hlater.status .syncPullRequests sid (Lifecycle.ofRun row.status)
    (by simp [Lifecycle.boardOf, Lifecycle.statusIn, hrow])
  obtain rfl := heq (by simpa using hterm)
  simp only [Lifecycle.boardOf, Lifecycle.statusIn, hrun, Option.map_some,
    Option.some.injEq] at hs
  rw [← Lifecycle.ofRun_injective hs] at hterm
  simp [hopen] at hterm

theorem sync_step (h : Table.Exclusive syncSlot w.db.syncRuns)
    (hsound : Lifecycle.Sound (Lifecycle.board w)) (ha : World.allowed a w) :
    Table.Exclusive syncSlot (step a w).2.db.syncRuns := by
  refine h.step fun sid run slot hrun hslot => ?_
  obtain ⟨hopen, rfl⟩ := slot_eq_some hslot
  cases hrow : w.db.syncRuns.get sid with
  | none =>
      obtain ⟨hidle, honly⟩ := SyncWorker.step_inserts a w sid run hrow hrun
      refine .inr ⟨fun sid₀ row₀ hrow₀ hslot₀ => ?_, honly⟩
      obtain ⟨hopen₀, hrid⟩ := slot_eq_some hslot₀
      have hinactive := Sync.active_eq_none.mp hidle sid₀ row₀ hrow₀ hrid
      rw [(isActive_iff row₀).mpr hopen₀] at hinactive
      contradiction
  | some row =>
      have hopen₀ := sync_open hsound ha hrow hrun hopen
      refine .inl ⟨row, rfl, ?_⟩
      rcases SyncWorker.step_changes a w sid with hsame | ⟨run', hrun', hchange⟩
      · rw [hsame, hrow] at hrun
        obtain rfl := Option.some.inj hrun
        exact hslot
      · obtain rfl := Option.some.inj (hrun.symm.trans hrun')
        rw [hrow] at hchange
        cases hchange with
        | worked _ _ hsame => simp [syncSlot, hopen₀, hsame.repository]

/-- A stored analysis keeps its inputs, and is only written while it is open. -/
theorem analysis_kept (ha : World.allowed a w) {aid : UUID} {row run : AnalysisRun}
    (hrow : w.db.analysisRuns.get aid = some row)
    (hrun : (step a w).2.db.analysisRuns.get aid = some run) :
    run = row ∨ AnalysisWorker.SameAnalysis row run ∧ row.status.terminal = false := by
  cases AnalysisWorker.step_change a w ha aid with
  | same hsame =>
      rw [hsame, hrow] at hrun
      exact .inl (Option.some.inj hrun).symm
  | started _ hnone => simp [hrow] at hnone
  | worked row' run' hrow' hopen hrun' _ hkept =>
      obtain rfl := Option.some.inj (hrow.symm.trans hrow')
      obtain rfl := Option.some.inj (hrun.symm.trans hrun')
      exact .inr ⟨hkept, hopen⟩
  | saved _ _ _ _ _ _ _ row' run' _ _ _ hrow' hopen _ _ hrun' _ hkept =>
      obtain rfl := Option.some.inj (hrow.symm.trans hrow')
      obtain rfl := Option.some.inj (hrun.symm.trans hrun')
      exact .inr ⟨hkept, hopen⟩

theorem analysis_inputs (ha : World.allowed a w) {aid : UUID} {row run : AnalysisRun}
    (hrow : w.db.analysisRuns.get aid = some row)
    (hrun : (step a w).2.db.analysisRuns.get aid = some run) :
    AnalysisWorker.SameAnalysis row run := by
  rcases analysis_kept ha hrow hrun with rfl | ⟨hkept, -⟩
  · exact ⟨rfl, rfl, rfl⟩
  · exact hkept

theorem analysis_step (h : Exclusive st w.db) (ha : World.allowed a w) :
    Table.Exclusive analysisSlot (step a w).2.db.analysisRuns := by
  refine h.analysis.step fun aid run slot hrun hslot => ?_
  obtain ⟨hopen, rfl⟩ := slot_eq_some hslot
  cases hrow : w.db.analysisRuns.get aid with
  | none =>
      obtain ⟨st', uid, wid, pid, rerunOf, jid, -, hadmitted, honly⟩ :=
        AnalysisWorker.step_inserted hrow hrun
      refine .inr ⟨fun aid₀ row₀ hrow₀ hslot₀ => ?_, honly⟩
      obtain ⟨hopen₀, hpid⟩ := slot_eq_some hslot₀
      -- both runs belong to the connection of the pull request, hence to one workspace
      obtain ⟨pr, hpr, hhome⟩ := hadmitted.stored
      obtain ⟨r, hr, hwid⟩ := hadmitted.connected
      obtain ⟨pr₀, r₀, hpr₀, hhome₀, hr₀, hwid₀⟩ := h.homes aid₀ row₀ hrow₀
      rw [hpid, hadmitted.pull] at hpr₀
      obtain rfl := Option.some.inj (hpr.symm.trans hpr₀)
      rw [← hhome₀, hhome] at hr₀
      obtain rfl := Option.some.inj (hr.symm.trans hr₀)
      have hterm := hadmitted.room.idle aid₀ row₀ hrow₀ (hpid.trans hadmitted.pull)
        (hwid₀.symm.trans hwid)
      simp [hopen₀] at hterm
  | some row =>
      refine .inl ⟨row, rfl, ?_⟩
      rcases analysis_kept ha hrow hrun with rfl | ⟨hkept, hopen₀⟩
      · exact hslot
      · have hpid : run.prId = row.prId := congrArg AnalysisInputs.prId hkept.inputs
        simp [analysisSlot, hopen₀, hpid]

theorem analysisKeys_step (h : Exclusive st w.db) (ha : World.allowed a w) :
    Table.Exclusive (fun run => some run.executionKey) (step a w).2.db.analysisRuns := by
  refine h.analysisKeys.step fun aid run key hrun hkey => ?_
  obtain rfl := Option.some.inj hkey
  cases hrow : w.db.analysisRuns.get aid with
  | none =>
      obtain ⟨st', uid, wid, pid, rerunOf, jid, -, hadmitted, honly⟩ :=
        AnalysisWorker.step_inserted hrow hrun
      refine .inr ⟨fun aid₀ row₀ hrow₀ hkey₀ => ?_, honly⟩
      exact hadmitted.room.fresh aid₀ row₀ hrow₀ (Option.some.inj hkey₀)
  | some row => exact .inl ⟨row, rfl, congrArg some (analysis_inputs ha hrow hrun).key.symm⟩

theorem homes_step (h : Exclusive st w.db) (ha : World.allowed a w) {aid : UUID}
    {run : AnalysisRun} (hrun : (step a w).2.db.analysisRuns.get aid = some run) : ∃ pr r,
      (step a w).2.db.pullRequests.get run.prId = some pr ∧
      pr.repositoryConnectionId = run.repositoryConnectionId ∧
      (step a w).2.db.connections.get run.repositoryConnectionId = some r ∧
      r.workspaceId = run.workspaceId := by
  obtain ⟨pr, r, hpr, hhome, hr, hwid⟩ : ∃ pr r, w.db.pullRequests.get run.prId = some pr ∧
      pr.repositoryConnectionId = run.repositoryConnectionId ∧
      w.db.connections.get run.repositoryConnectionId = some r ∧
      r.workspaceId = run.workspaceId := by
    cases hrow : w.db.analysisRuns.get aid with
    | none =>
        obtain ⟨st', uid, wid, pid, rerunOf, jid, -, hadmitted, -⟩ :=
          AnalysisWorker.step_inserted hrow hrun
        obtain ⟨pr, hpr, hhome⟩ := hadmitted.stored
        obtain ⟨r, hr, hwid⟩ := hadmitted.connected
        exact ⟨pr, r, hadmitted.pull ▸ hpr, hhome, hr, hwid.trans hadmitted.workspace.symm⟩
    | some row =>
        obtain ⟨pr, r, hpr, hhome, hr, hwid⟩ := h.homes aid row hrow
        have hinputs := (analysis_inputs ha hrow hrun).inputs
        have hpid : run.prId = row.prId := congrArg AnalysisInputs.prId hinputs
        have hrid : run.repositoryConnectionId = row.repositoryConnectionId :=
          congrArg AnalysisInputs.repositoryConnectionId hinputs
        have hw : run.workspaceId = row.workspaceId := congrArg AnalysisInputs.workspaceId hinputs
        exact ⟨pr, r, hpid ▸ hpr, hhome.trans hrid.symm, hrid ▸ hr, hwid.trans hw.symm⟩
  obtain ⟨pr', hpr', hnewer⟩ := SyncWorker.step_keeps a w run.prId pr hpr
  obtain ⟨r', hr', hlater⟩ := Connections.step_continue a w run.repositoryConnectionId r hr
  exact ⟨pr', r', hpr', hnewer.repository.trans hhome, hr', hlater.workspace.trans hwid⟩

/-- A review that is new was admitted, and is the only change. -/
theorem review_inserted {rid : UUID} {run : ReviewRun} (hnone : w.db.reviewRuns.get rid = none)
    (hrun : (step a w).2.db.reviewRuns.get rid = some run) :
    (∃ st uid wid aid consent rerun purpose waited jid,
      a = .reviewStart st uid wid aid consent rerun purpose waited rid jid ∧
      Review.Admitted st w.db uid wid waited run) ∧
    ∀ rid', rid' ≠ rid → (step a w).2.db.reviewRuns.get rid' = w.db.reviewRuns.get rid' := by
  rcases ReviewWorker.step_writes a w rid with hsame | ⟨run', hrun', hwritten⟩
  · rw [hsame, hnone] at hrun
    contradiction
  obtain rfl := Option.some.inj (hrun.symm.trans hrun')
  rw [hnone] at hwritten
  refine ⟨?_, fun rid' hne => ?_⟩
  · generalize (step a w).1 = o at hwritten
    cases hwritten with
    | admitted hadmitted => exact ⟨_, _, _, _, _, _, _, _, _, rfl, hadmitted⟩
  · rcases ReviewWorker.step_writes a w rid' with hsame | ⟨run', -, hwritten'⟩
    · exact hsame
    · exact absurd (ReviewWorker.written_only hwritten hwritten') hne

theorem review_step (h : Table.Exclusive reviewSlot w.db.reviewRuns) :
    Table.Exclusive reviewSlot (step a w).2.db.reviewRuns := by
  refine h.step fun rid run slot hrun hslot => ?_
  obtain ⟨hopen, rfl⟩ := slot_eq_some hslot
  cases hrow : w.db.reviewRuns.get rid with
  | none =>
      obtain ⟨⟨st, uid, wid, aid, consent, rerun, purpose, waited, jid, -, hadmitted⟩, honly⟩ :=
        review_inserted hrow hrun
      refine .inr ⟨fun rid₀ row₀ hrow₀ hslot₀ => ?_, honly⟩
      obtain ⟨hopen₀, hwid⟩ := slot_eq_some hslot₀
      obtain ⟨snap, purpose, mode, versions, generation, key, rfl⟩ := hadmitted.new
      have hterm := hadmitted.room.idle rid₀ row₀ hrow₀ hwid
      simp [hopen₀] at hterm
  | some row =>
      refine .inl ⟨row, rfl, ?_⟩
      rcases ReviewWorker.step_writes a w rid with hsame | ⟨run', hrun', hwritten⟩
      · rw [hsame, hrow] at hrun
        obtain rfl := Option.some.inj hrun
        exact hslot
      · obtain rfl := Option.some.inj (hrun.symm.trans hrun')
        rw [hrow] at hwritten
        have hopen₀ := ReviewWorker.written_open hwritten hopen
        obtain ⟨_, _, _, _, _, _, _, _, _, rfl⟩ := ReviewWorker.written_fixed hwritten
        simp [reviewSlot, hopen₀]

/-- A stored review keeps its key and its inputs. -/
theorem review_kept {rid : UUID} {row run : ReviewRun} (hrow : w.db.reviewRuns.get rid = some row)
    (hrun : (step a w).2.db.reviewRuns.get rid = some run) :
    run.executionKey = row.executionKey ∧ ∀ st, reviewKeyOf st run = reviewKeyOf st row := by
  rcases ReviewWorker.step_writes a w rid with hsame | ⟨run', hrun', hwritten⟩
  · rw [hsame, hrow] at hrun
    obtain rfl := Option.some.inj hrun
    exact ⟨rfl, fun _ => rfl⟩
  · obtain rfl := Option.some.inj (hrun.symm.trans hrun')
    rw [hrow] at hwritten
    obtain ⟨_, _, _, _, _, _, _, _, _, rfl⟩ := ReviewWorker.written_fixed hwritten
    exact ⟨rfl, fun _ => rfl⟩

theorem reviewKeys_step (h : Exclusive st w.db) :
    Table.Exclusive (fun run => some run.executionKey) (step a w).2.db.reviewRuns := by
  refine h.reviewKeys.step fun rid run key hrun hkey => ?_
  obtain rfl := Option.some.inj hkey
  cases hrow : w.db.reviewRuns.get rid with
  | none =>
      obtain ⟨⟨st, uid, wid, aid, consent, rerun, purpose, waited, jid, -, hadmitted⟩, honly⟩ :=
        review_inserted hrow hrun
      refine .inr ⟨fun rid₀ row₀ hrow₀ hkey₀ => ?_, honly⟩
      exact hadmitted.room.fresh rid₀ row₀ hrow₀ (Option.some.inj hkey₀)
  | some row => exact .inl ⟨row, rfl, congrArg some (review_kept hrow hrun).1.symm⟩

theorem analysisKey_step (h : Exclusive st w.db) (ha : World.allowed a w) (huses : Uses st a)
    {aid : UUID} {run : AnalysisRun} (hrun : (step a w).2.db.analysisRuns.get aid = some run) :
    run.executionKey = st.analysisKey run.toAnalysisInputs run.generation := by
  cases hrow : w.db.analysisRuns.get aid with
  | none =>
      obtain ⟨st', uid, wid, pid, rerunOf, jid, rfl, hadmitted, -⟩ :=
        AnalysisWorker.step_inserted hrow hrun
      obtain ⟨inputs, generation, rfl⟩ := hadmitted.new
      rw [← huses]
      rfl
  | some row =>
      obtain ⟨hinputs, hnumber, hkey⟩ := analysis_inputs ha hrow hrun
      rw [hkey, hinputs, hnumber]
      exact h.analysisKey aid row hrow

theorem reviewKey_step (h : Exclusive st w.db) (huses : Uses st a) {rid : UUID} {run : ReviewRun}
    (hrun : (step a w).2.db.reviewRuns.get rid = some run) :
    run.executionKey = reviewKeyOf st run := by
  cases hrow : w.db.reviewRuns.get rid with
  | none =>
      obtain ⟨⟨st', uid, wid, aid, consent, rerun, purpose, waited, jid, rfl, hadmitted⟩, -⟩ :=
        review_inserted hrow hrun
      rw [hadmitted.key, reviewKeyOf, ← huses]
  | some row =>
      obtain ⟨hkey, hinputs⟩ := review_kept hrow hrun
      rw [hkey, hinputs]
      exact h.reviewKey rid row hrow

theorem exclusive_step (h : Exclusive st w.db) (hsound : Lifecycle.Sound (Lifecycle.board w))
    (ha : World.allowed a w) (huses : Uses st a) : Exclusive st (step a w).2.db where
  sync := sync_step h.sync hsound ha
  analysis := analysis_step h ha
  review := review_step h.review
  homes := fun _ _ hrun => homes_step h ha hrun
  analysisKeys := analysisKeys_step h ha
  reviewKeys := reviewKeys_step h
  analysisKey := fun _ _ hrun => analysisKey_step h ha huses hrun
  reviewKey := fun _ _ hrun => reviewKey_step h huses hrun

theorem run_exclusive {now : Instant} {trace : Trace} (h : World.Run now trace w)
    (huses : ∀ e ∈ trace, Uses st e.action) : Exclusive st w.db := by
  induction h with
  | nil => exact exclusive_initial st now
  | snoc a hexec ha ih =>
      have hbefore := ih fun e he => huses e (List.mem_cons_of_mem _ he)
      exact exclusive_step hbefore (Lifecycle.run_sound hexec) ha (huses _ List.mem_cons_self)

/-! ## Joining -/

/-- The active run of a connection is the one a start finds. -/
theorem active_unique (h : Table.Exclusive syncSlot w.db.syncRuns) {rid sid : UUID}
    {run : PullRequestSyncRun} (hget : w.db.syncRuns.get sid = some run)
    (hactive : Sync.isActive run = true) (hrid : run.repositoryConnectionId = rid) :
    Sync.active w.db rid = some (sid, run) := by
  cases hfound : Sync.active w.db rid with
  | none =>
      rw [Sync.active_eq_none.mp hfound sid run hget hrid] at hactive
      contradiction
  | some found =>
      obtain ⟨sid', run'⟩ := found
      obtain ⟨hget', hrid', hactive'⟩ := Sync.active_eq_some hfound
      have hslot : syncSlot run = some rid := by
        simp [syncSlot, (isActive_iff run).mp hactive, hrid]
      have hslot' : syncSlot run' = some rid := by
        simp [syncSlot, (isActive_iff run').mp hactive', hrid']
      obtain rfl := h sid run sid' run' rid hget hget' hslot hslot'
      obtain rfl := Option.some.inj (hget.symm.trans hget')
      rfl

/-- The synchronization fetches what a request asks for. -/
structure Serves (run : PullRequestSyncRun) (repo : RepositorySnapshot) (page : ℕ)
    (number : Option ℕ) : Prop where
  mode : run.mode = Sync.modeOf page number
  cursor : run.requestCursor = if Sync.modeOf page number = .page then some page else none
  number : run.requestedPrNumber = number
  generation : run.connectionGeneration = repo.connectionGeneration

section Synchronizations

variable {uid wid rid id sid jid : UUID} {page : ℕ} {number : Option ℕ}
  {run : PullRequestSyncRun} {repo : RepositorySnapshot}

/-- A request that repeats the active synchronization joins it. -/
theorem sync_joins (h : Table.Exclusive syncSlot w.db.syncRuns)
    (hget : w.db.syncRuns.get id = some run) (hactive : Sync.isActive run = true)
    (hrid : run.repositoryConnectionId = rid)
    (hrepo : requireRepository w.db uid wid rid .sync true = .ok repo)
    (hserves : Serves run repo page number) :
    Sync.enqueue w.db uid wid rid page number sid jid = .ok (id, w.db) := by
  simp only [Sync.enqueue, hrepo, active_unique h hget hactive hrid, bind, Except.bind]
  rw [if_neg]
  simp [hserves.mode, hserves.cursor, hserves.number, hserves.generation]

/-- Any other request is told that one is in progress. -/
theorem sync_refused (h : Table.Exclusive syncSlot w.db.syncRuns)
    (hget : w.db.syncRuns.get id = some run) (hactive : Sync.isActive run = true)
    (hrid : run.repositoryConnectionId = rid)
    (hrepo : requireRepository w.db uid wid rid .sync true = .ok repo)
    (hother : ¬Serves run repo page number) :
    Sync.enqueue w.db uid wid rid page number sid jid = .error Sync.syncInProgress := by
  simp only [Sync.enqueue, hrepo, active_unique h hget hactive hrid, bind, Except.bind]
  rw [if_pos]
  by_contra hsame
  simp only [not_or, ne_eq, not_not] at hsame
  obtain ⟨hmode, hcursor, hnumber, hgeneration⟩ := hsame
  exact hother ⟨hmode, hcursor, hnumber, hgeneration⟩

end Synchronizations

/-- A start that repeats no run returns the run with the key of its inputs. -/
theorem analysis_joins (h : Exclusive st w.db) {st' : Settings} {uid wid pid id aid jid : UUID}
    {row : AnalysisRun} {inputs : AnalysisInputs}
    (hasked : Analysis.requested st' w.db uid wid pid = .ok inputs)
    (hget : w.db.analysisRuns.get id = some row)
    (hkey : row.executionKey = st'.analysisKey inputs 0) :
    Analysis.start st' w.db uid wid pid none aid jid = .ok (id, w.db) := by
  rw [Analysis.start_requested, hasked]
  simp only [bind, Except.bind, Analysis.admitRun]
  cases hfound : w.db.analysisRuns.find (fun _ row' =>
      row'.executionKey = st'.analysisKey inputs 0) with
  | none =>
      have hmiss := (Table.find_eq_none_iff ..).mp hfound id row hget
      simp [hkey] at hmiss
  | some found =>
      obtain ⟨id', row'⟩ := found
      obtain ⟨hget', hkey'⟩ := Table.find_spec hfound
      have hsame : row.executionKey = row'.executionKey :=
        hkey.trans (of_decide_eq_true hkey').symm
      obtain rfl := h.analysisKeys id row id' row' _ hget hget' rfl (congrArg some hsame.symm)
      rfl

/-- Without such a run, it is told of the active one. -/
theorem analysis_refused (h : Exclusive st w.db) {st' : Settings} {uid wid pid id aid jid : UUID}
    {row : AnalysisRun} {inputs : AnalysisInputs}
    (hasked : Analysis.requested st' w.db uid wid pid = .ok inputs)
    (hget : w.db.analysisRuns.get id = some row) (hopen : row.status.terminal = false)
    (hpid : row.prId = pid)
    (hnew : ∀ id' row', w.db.analysisRuns.get id' = some row' →
      row'.executionKey ≠ st'.analysisKey inputs 0) :
    Analysis.start st' w.db uid wid pid none aid jid =
      .error (Analysis.error .analysisInProgress .conflict) := by
  obtain ⟨pr, r, hpr, hr, hwid⟩ := Analysis.requested_home hasked
  obtain ⟨pr₀, r₀, hpr₀, hhome₀, hr₀, hwid₀⟩ := h.homes id row hget
  rw [hpid] at hpr₀
  obtain rfl := Option.some.inj (hpr.symm.trans hpr₀)
  rw [← hhome₀] at hr₀
  obtain rfl := Option.some.inj (hr.symm.trans hr₀)
  have hmiss : w.db.analysisRuns.find (fun _ row' =>
      row'.executionKey = st'.analysisKey inputs 0) = none :=
    (Table.find_eq_none_iff ..).mpr fun id' row' hget' => decide_eq_false (hnew id' row' hget')
  have hbusy : w.db.analysisRuns.holds (fun _ row' =>
      row'.prId = pid && row'.workspaceId = wid && !row'.status.terminal) = true :=
    (Table.holds_iff ..).mpr ⟨id, row, hget, by simp [hpid, hopen, ← hwid, hwid₀]⟩
  rw [Analysis.start_requested, hasked]
  simp [bind, Except.bind, Analysis.admitRun, hmiss, hbusy]

/-- The run has the inputs of a request. -/
structure Repeats (st : Settings) (wid aid : UUID) (purpose : Purpose)
    (asked : ReviewSnapshot × ReviewMode × List UUID) (row : ReviewRun) : Prop where
  workspace : row.workspaceId = wid
  analysis : row.analysisId = aid
  generation : row.connectionGeneration = asked.1.connectionGeneration
  model : row.model = st.deepseekModel
  prompt : row.promptVersion = st.promptVersion
  policy : row.policyVersion = st.policyVersion
  purpose : row.purpose = purpose
  mode : row.mode = asked.2.1
  versions : row.standardVersions = asked.2.2

/-- A run with the inputs of a request that repeats no run has the key of that. -/
theorem Repeats.key (h : Exclusive st w.db) {st' : Settings} {uid wid aid id : UUID}
    {purpose : Purpose} {waited : ℕ} {row : ReviewRun}
    {asked : ReviewSnapshot × ReviewMode × List UUID} (hst : st'.reviewKey = st.reviewKey)
    (hget : w.db.reviewRuns.get id = some row) (hrow : Repeats st' wid aid purpose asked row)
    (hfirst : row.generation = 0) : row.executionKey =
      (Review.requestedRun st' w.db uid wid aid purpose waited asked).executionKey := by
  rw [h.reviewKey id row hget, reviewKeyOf, ← hst, hrow.workspace, hrow.analysis,
    hrow.generation, hrow.model, hrow.prompt, hrow.policy, hrow.purpose, hrow.mode,
    hrow.versions, hfirst]
  rfl

section Reviews

variable {st' : Settings} {uid wid aid id rid jid : UUID} {consent : Bool} {purpose : Purpose}
  {waited : ℕ} {row : ReviewRun} {asked : ReviewSnapshot × ReviewMode × List UUID}

theorem review_joins (h : Exclusive st w.db)
    (hasked : Review.requested st' w.db uid wid aid consent purpose = .ok asked)
    (hget : w.db.reviewRuns.get id = some row)
    (hkey : row.executionKey =
      (Review.requestedRun st' w.db uid wid aid purpose waited asked).executionKey) :
    Review.start st' w.db uid wid aid consent none purpose waited rid jid = .ok (id, w.db) := by
  rw [Review.start_requested, hasked]
  simp only [bind, Except.bind, Review.admitRun]
  cases hfound : w.db.reviewRuns.find (fun _ row' => row'.executionKey =
      (Review.requestedRun st' w.db uid wid aid purpose waited asked).executionKey) with
  | none =>
      have hmiss := (Table.find_eq_none_iff ..).mp hfound id row hget
      simp [hkey] at hmiss
  | some found =>
      obtain ⟨id', row'⟩ := found
      obtain ⟨hget', hkey'⟩ := Table.find_spec hfound
      have hsame : row.executionKey = row'.executionKey :=
        hkey.trans (of_decide_eq_true hkey').symm
      obtain rfl := h.reviewKeys id row id' row' _ hget hget' rfl (congrArg some hsame.symm)
      rfl

theorem review_refused
    (hasked : Review.requested st' w.db uid wid aid consent purpose = .ok asked)
    (hget : w.db.reviewRuns.get id = some row) (hopen : row.status.terminal = false)
    (hwid : row.workspaceId = wid)
    (hnew : ∀ id' row', w.db.reviewRuns.get id' = some row' → row'.executionKey ≠
      (Review.requestedRun st' w.db uid wid aid purpose waited asked).executionKey) :
    Review.start st' w.db uid wid aid consent none purpose waited rid jid =
      .error (Review.error .reviewInProgress .conflict) := by
  have hmiss : w.db.reviewRuns.find (fun _ row' => row'.executionKey =
      (Review.requestedRun st' w.db uid wid aid purpose waited asked).executionKey) = none :=
    (Table.find_eq_none_iff ..).mpr fun id' row' hget' => decide_eq_false (hnew id' row' hget')
  have hbusy : w.db.reviewRuns.holds (fun _ row' =>
      row'.workspaceId = wid && !row'.status.terminal) = true :=
    (Table.holds_iff ..).mpr ⟨id, row, hget, by simp [hwid, hopen]⟩
  rw [Review.start_requested, hasked]
  simp [bind, Except.bind, Review.admitRun, hmiss, hbusy]

end Reviews

/-- While an analysis of a pull request is active, no start of it inserts another. -/
theorem analysis_waits (h : Exclusive st w.db) {st' : Settings} {uid wid pid id aid jid : UUID}
    {rerunOf : Option UUID} {row : AnalysisRun} {db' : Db} {id' : UUID}
    (hget : w.db.analysisRuns.get id = some row) (hopen : row.status.terminal = false)
    (hpid : row.prId = pid)
    (hstart : Analysis.start st' w.db uid wid pid rerunOf aid jid = .ok (id', db')) :
    db' = w.db := by
  rcases Analysis.start_cases hstart with rfl | ⟨run, jobs, hadmitted, -, -, rfl⟩
  · rfl
  · obtain ⟨pr, hpr, hhome⟩ := hadmitted.stored
    obtain ⟨r, hr, hwid⟩ := hadmitted.connected
    obtain ⟨pr₀, r₀, hpr₀, hhome₀, hr₀, hwid₀⟩ := h.homes id row hget
    rw [hpid] at hpr₀
    obtain rfl := Option.some.inj (hpr.symm.trans hpr₀)
    rw [← hhome₀, hhome] at hr₀
    obtain rfl := Option.some.inj (hr.symm.trans hr₀)
    have hterm := hadmitted.room.idle id row hget hpid (hwid₀.symm.trans hwid)
    simp [hopen] at hterm

/-- While a review of a workspace is active, no start in it inserts another. -/
theorem review_waits {st' : Settings} {uid wid aid id rid jid : UUID} {consent : Bool}
    {rerun : Option UUID} {purpose : Purpose} {waited : ℕ} {row : ReviewRun} {db' : Db} {id' : UUID}
    (hget : w.db.reviewRuns.get id = some row) (hopen : row.status.terminal = false)
    (hwid : row.workspaceId = wid)
    (hstart : Review.start st' w.db uid wid aid consent rerun purpose waited rid jid =
      .ok (id', db')) : db' = w.db := by
  rcases Review.start_cases hstart with rfl | ⟨run, jobs, hadmitted, -, -, rfl⟩
  · rfl
  · have hterm := hadmitted.room.idle id row hget hwid
    simp [hopen] at hterm

/-! ## The contract -/

/-- What starts do while a synchronization of their connection is active. -/
structure SyncBusy (w : World) (id : UUID) (run : PullRequestSyncRun) : Prop where
  joins : ∀ uid wid page number sid jid repo,
    requireRepository w.db uid wid run.repositoryConnectionId .sync true = .ok repo →
    Serves run repo page number →
    Sync.enqueue w.db uid wid run.repositoryConnectionId page number sid jid = .ok (id, w.db)
  refused : ∀ uid wid page number sid jid repo,
    requireRepository w.db uid wid run.repositoryConnectionId .sync true = .ok repo →
    ¬Serves run repo page number →
    Sync.enqueue w.db uid wid run.repositoryConnectionId page number sid jid =
      .error Sync.syncInProgress
  waits : ∀ uid wid page number sid jid id' db',
    Sync.enqueue w.db uid wid run.repositoryConnectionId page number sid jid = .ok (id', db') →
    db' = w.db
  event : ∀ wid generation number sid jid made db',
    Sync.requestEventSync w.db wid run.repositoryConnectionId generation number sid jid =
      .ok (made, db') → made = none ∧ db' = w.db

/-- What starts do while an analysis of their pull request is active: one that repeats no
run gets the run with the first key of its inputs, which is the active one where that is
the first with these inputs, and otherwise an error. -/
structure AnalysisBusy (st : Settings) (w : World) (id : UUID) (run : AnalysisRun) : Prop where
  joins : ∀ st' uid wid aid jid, st'.analysisKey = st.analysisKey → run.generation = 0 →
    Analysis.requested st' w.db uid wid run.prId = .ok run.toAnalysisInputs →
    Analysis.start st' w.db uid wid run.prId none aid jid = .ok (id, w.db)
  answered : ∀ st' uid wid aid jid inputs id' row',
    Analysis.requested st' w.db uid wid run.prId = .ok inputs →
    w.db.analysisRuns.get id' = some row' → row'.executionKey = st'.analysisKey inputs 0 →
    Analysis.start st' w.db uid wid run.prId none aid jid = .ok (id', w.db)
  refused : ∀ st' uid wid aid jid inputs,
    Analysis.requested st' w.db uid wid run.prId = .ok inputs →
    (∀ id' row', w.db.analysisRuns.get id' = some row' →
      row'.executionKey ≠ st'.analysisKey inputs 0) →
    Analysis.start st' w.db uid wid run.prId none aid jid =
      .error (Analysis.error .analysisInProgress .conflict)
  waits : ∀ st' uid wid rerunOf aid jid id' db',
    Analysis.start st' w.db uid wid run.prId rerunOf aid jid = .ok (id', db') → db' = w.db

/-- What starts do while a review of their workspace is active. -/
structure ReviewBusy (st : Settings) (w : World) (id : UUID) (run : ReviewRun) : Prop where
  joins : ∀ st' uid aid consent purpose waited rid jid asked, st'.reviewKey = st.reviewKey →
    run.generation = 0 →
    Review.requested st' w.db uid run.workspaceId aid consent purpose = .ok asked →
    Repeats st' run.workspaceId aid purpose asked run →
    Review.start st' w.db uid run.workspaceId aid consent none purpose waited rid jid =
      .ok (id, w.db)
  answered : ∀ st' uid aid consent purpose waited rid jid asked id' row',
    Review.requested st' w.db uid run.workspaceId aid consent purpose = .ok asked →
    w.db.reviewRuns.get id' = some row' → row'.executionKey =
      (Review.requestedRun st' w.db uid run.workspaceId aid purpose waited asked).executionKey →
    Review.start st' w.db uid run.workspaceId aid consent none purpose waited rid jid =
      .ok (id', w.db)
  refused : ∀ st' uid aid consent purpose waited rid jid asked,
    Review.requested st' w.db uid run.workspaceId aid consent purpose = .ok asked →
    (∀ id' row', w.db.reviewRuns.get id' = some row' → row'.executionKey ≠
      (Review.requestedRun st' w.db uid run.workspaceId aid purpose waited asked).executionKey) →
    Review.start st' w.db uid run.workspaceId aid consent none purpose waited rid jid =
      .error (Review.error .reviewInProgress .conflict)
  waits : ∀ st' uid aid consent rerun purpose waited rid jid id' db',
    Review.start st' w.db uid run.workspaceId aid consent rerun purpose waited rid jid =
      .ok (id', db') → db' = w.db

/-- What holds of the active runs in every reachable state. -/
structure AdmittedOnce (st : Settings) (w : World) : Prop where
  syncs : ∀ id run id' run', w.db.syncRuns.get id = some run →
    w.db.syncRuns.get id' = some run' → run.status.terminal = false →
    run'.status.terminal = false →
    run.repositoryConnectionId = run'.repositoryConnectionId → id = id'
  analyses : ∀ id run id' run', w.db.analysisRuns.get id = some run →
    w.db.analysisRuns.get id' = some run' → run.status.terminal = false →
    run'.status.terminal = false → run.prId = run'.prId → id = id'
  reviews : ∀ id run id' run', w.db.reviewRuns.get id = some run →
    w.db.reviewRuns.get id' = some run' → run.status.terminal = false →
    run'.status.terminal = false → run.workspaceId = run'.workspaceId → id = id'
  syncBusy : ∀ id run, w.db.syncRuns.get id = some run → run.status.terminal = false →
    SyncBusy w id run
  analysisBusy : ∀ id run, w.db.analysisRuns.get id = some run → run.status.terminal = false →
    AnalysisBusy st w id run
  reviewBusy : ∀ id run, w.db.reviewRuns.get id = some run → run.status.terminal = false →
    ReviewBusy st w id run

section Busy

variable {id : UUID}

theorem syncBusy (h : Exclusive st w.db) {run : PullRequestSyncRun}
    (hget : w.db.syncRuns.get id = some run) (hopen : run.status.terminal = false) :
    SyncBusy w id run := by
  have hactive := (isActive_iff run).mpr hopen
  have hbusy : Sync.active w.db run.repositoryConnectionId ≠ none := by
    simp [active_unique h.sync hget hactive rfl]
  constructor
  · intro uid wid page number sid jid repo hrepo hserves
    exact sync_joins h.sync hget hactive rfl hrepo hserves
  · intro uid wid page number sid jid repo hrepo hother
    exact sync_refused h.sync hget hactive rfl hrepo hother
  · intro uid wid page number sid jid id' db' hsync
    rcases Sync.enqueue_cases hsync with rfl | ⟨hidle, -⟩
    · rfl
    · exact absurd hidle hbusy
  · intro wid generation number sid jid made db' hevent
    rcases (Sync.requestEventSync_cases hevent).2 with ⟨-, hmade, hsame⟩ | ⟨hidle, -⟩
    · exact ⟨hmade, hsame⟩
    · exact absurd hidle hbusy

theorem analysisBusy (h : Exclusive st w.db) {run : AnalysisRun}
    (hget : w.db.analysisRuns.get id = some run) (hopen : run.status.terminal = false) :
    AnalysisBusy st w id run := by
  constructor
  · intro st' uid wid aid jid hst hfirst hasked
    have hkey : run.executionKey = st'.analysisKey run.toAnalysisInputs 0 := by
      rw [h.analysisKey id run hget, hst, hfirst]
    exact analysis_joins h hasked hget hkey
  · intro st' uid wid aid jid inputs id' row' hasked hget' hkey
    exact analysis_joins h hasked hget' hkey
  · intro st' uid wid aid jid inputs hasked hnew
    exact analysis_refused h hasked hget hopen rfl hnew
  · intro st' uid wid rerunOf aid jid id' db' hstart
    exact analysis_waits h hget hopen rfl hstart

theorem reviewBusy (h : Exclusive st w.db) {run : ReviewRun}
    (hget : w.db.reviewRuns.get id = some run) (hopen : run.status.terminal = false) :
    ReviewBusy st w id run := by
  constructor
  · intro st' uid aid consent purpose waited rid jid asked hst hfirst hasked hrepeats
    exact review_joins h hasked hget (hrepeats.key h hst hget hfirst)
  · intro st' uid aid consent purpose waited rid jid asked id' row' hasked hget' hkey
    exact review_joins h hasked hget' hkey
  · intro st' uid aid consent purpose waited rid jid asked hasked hnew
    exact review_refused hasked hget hopen rfl hnew
  · intro st' uid aid consent rerun purpose waited rid jid id' db' hstart
    exact review_waits hget hopen rfl hstart

end Busy

/-- At most one sync run of a connection, one analysis of a pull request and one
review of a workspace is active. While one is, no start inserts another; a start that
repeats no run returns the first run with its inputs, active or not, or is refused. -/
theorem admitted_once {now : Instant} {trace : Trace} (hrun : World.Run now trace w)
    (huses : ∀ e ∈ trace, Uses st e.action) : AdmittedOnce st w := by
  have h := run_exclusive hrun huses
  refine
    { syncs := ?_
      analyses := ?_
      reviews := ?_
      syncBusy := fun _ _ => syncBusy h
      analysisBusy := fun _ _ => analysisBusy h
      reviewBusy := fun _ _ => reviewBusy h }
  · intro id run id' run' hget hget' hopen hopen' hrid
    exact h.sync id run id' run' run.repositoryConnectionId hget hget' (by simp [syncSlot, hopen])
      (by simp [syncSlot, hopen', hrid])
  · intro id run id' run' hget hget' hopen hopen' hpid
    exact h.analysis id run id' run' run.prId hget hget' (by simp [analysisSlot, hopen])
      (by simp [analysisSlot, hopen', hpid])
  · intro id run id' run' hget hget' hopen hopen' hwid
    exact h.review id run id' run' run.workspaceId hget hget' (by simp [reviewSlot, hopen])
      (by simp [reviewSlot, hopen', hwid])

/-! ## Executions -/

theorem admitted_once_syncing :
    Sync.enqueue (Lifecycle.reach Lifecycle.syncing).db 2 1 3 1 none 30 31 =
      .ok (5, (Lifecycle.reach Lifecycle.syncing).db) := by
  have hrun : World.Run 0 _ (Lifecycle.reach Lifecycle.syncing) :=
    Transition.exec_run (initial 0) Lifecycle.syncing (by decide +kernel)
  have huses : ∀ e ∈ Transition.events step (initial 0) Lifecycle.syncing,
      Uses AnalysisWorker.settings e.action := by
    intro e he
    have hmem := Transition.mem_events he
    simp only [Lifecycle.syncing, Lifecycle.connecting, List.mem_append, List.mem_cons,
      List.not_mem_nil, or_false] at hmem
    rcases hmem with (h | h | h | h) | h | h <;> rw [h] <;> trivial
  have hactive : ((Lifecycle.reach Lifecycle.syncing).db.syncRuns.get 5).map (fun run =>
      (run.status, run.repositoryConnectionId, run.connectionGeneration)) =
        some (.running, 3, 1) := by decide +kernel
  have hasked : ((Lifecycle.reach Lifecycle.syncing).db.syncRuns.get 5).map (fun run =>
      (run.mode, run.requestCursor, run.requestedPrNumber)) = some (.recent, none, none) := by
    decide +kernel
  obtain ⟨run, hget, hvalues⟩ := Option.map_eq_some_iff.mp hactive
  simp only [Prod.mk.injEq] at hvalues
  obtain ⟨hs, hrid, hgeneration⟩ := hvalues
  simp only [hget, Option.map_some, Option.some.injEq, Prod.mk.injEq] at hasked
  obtain ⟨hmode, hcursor, hnumber⟩ := hasked
  have hrepo : (requireRepository (Lifecycle.reach Lifecycle.syncing).db 2 1 3 .sync true).map
      (·.connectionGeneration) = .ok 1 := by decide +kernel
  obtain ⟨repo, hok, hone⟩ := (Tx.map_eq_ok ..).mp hrepo
  have hjoin := ((admitted_once hrun huses).syncBusy 5 run hget (by rw [hs]; rfl)).joins
    2 1 1 none 30 31 repo
  rw [hrid] at hjoin
  exact hjoin hok ⟨hmode, hcursor, hnumber, hgeneration.trans hone.symm⟩

/-- The analysis of a pull request is repeated. -/
def repeating : List Action :=
  AnalysisWorker.analyzing ++ [.analysisStart AnalysisWorker.settings 2 1 7 (some 8) 20 21]

/-- A start with the inputs of the active repetition returns the finished first run. -/
theorem rerun_not_joined : ∃ trace w, World.Run 0 trace w ∧
    ∃ run, w.db.analysisRuns.get 20 = some run ∧ run.status = .pending ∧
      Analysis.requested AnalysisWorker.settings w.db 2 1 7 = .ok run.toAnalysisInputs ∧
      (Analysis.start AnalysisWorker.settings w.db 2 1 7 none 30 31).map Prod.fst = .ok 8 := by
  have hrun : World.Run 0 _ (Lifecycle.reach repeating) :=
    Transition.exec_run (initial 0) repeating (by decide +kernel)
  have hpending : ((Lifecycle.reach repeating).db.analysisRuns.get 20).map (·.status) =
      some .pending := by decide +kernel
  have hinputs : ((Lifecycle.reach repeating).db.analysisRuns.get 20).map (·.toAnalysisInputs) =
      (Analysis.requested AnalysisWorker.settings (Lifecycle.reach repeating).db 2 1 7).toOption := by
    decide +kernel
  obtain ⟨run, hget, hs⟩ := Option.map_eq_some_iff.mp hpending
  refine ⟨_, _, hrun, run, hget, hs, ?_, by decide +kernel⟩
  rw [hget] at hinputs
  cases hasked : Analysis.requested AnalysisWorker.settings (Lifecycle.reach repeating).db 2 1 7 with
  | error f => simp [hasked, Except.toOption] at hinputs
  | ok inputs =>
      rw [hasked] at hinputs
      exact congrArg Except.ok (Option.some.inj hinputs).symm

end Admission

end Prism
