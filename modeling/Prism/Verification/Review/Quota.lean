import Prism.Verification.Review.Trace

/-! The daily limit of a workspace: which starts respect it, counted by the day the
rows are stamped with. -/

namespace Prism.Review

open World

/-- The UTC day of an instant. -/
def dayOf (t : Instant) : ℕ := t / seconds 86400

/-- The number of runs of a workspace whose `created_at` lies in a day. -/
def createdOn (db : Db) (wid : UUID) (day : ℕ) : ℕ :=
  (db.reviewRuns.select fun _ row =>
    row.workspaceId = wid && decide (dayOf row.createdAt = day)).length

/-- The daily limit a start is configured with. -/
def limitOf : Action → Option ℕ
  | .reviewStart st _ _ _ _ _ _ _ _ _ => some st.aiDailyLimit
  | _ => none

/-- The key of the run a start asks for, where the requester may ask for it. -/
def keyOf (st : Settings) (db : Db) (uid wid aid : UUID) (rerun : Option UUID)
    (purpose : Purpose) : Tx String := do
  let _ ← requirePermission db uid wid .owner
  let snap ← reviewSnapshot db uid wid aid
  let user ← getActiveUser db uid
  let versions ← versions db wid snap.repositoryId purpose
  let generation ← nextGeneration st db wid aid purpose user.reviewMode rerun
  .ok (st.reviewKey wid aid snap.connectionGeneration st.deepseekModel st.promptVersion
    st.policyVersion generation purpose user.reviewMode versions)

/-- Whether a start gets as far as the counting: it may ask for its run, no run has the key
of that, and none of the workspace is active. -/
def counts (st : Settings) (db : Db) (uid wid aid : UUID) (consent : Bool) (rerun : Option UUID)
    (purpose : Purpose) : Bool :=
  st.aiEnabled && consent &&
    match keyOf st db uid wid aid rerun purpose with
    | .error _ => false
    | .ok key => !db.reviewRuns.holds (fun _ row => row.executionKey = key) &&
      !db.reviewRuns.holds (fun _ row => row.workspaceId = wid && !row.status.terminal)

/-- A start that counts on a later day than the one its transaction began on: the later day
has room, the earlier one was already used up. -/
def overdue (limit : ℕ) (w : World) : Action → Bool
  | .reviewStart st uid wid aid consent rerun purpose waited _ _ =>
    counts st w.db uid wid aid consent rerun purpose &&
      decide (createdOn w.db wid (dayOf w.db.now) < limit) &&
      dayOf (w.db.now - waited) ≠ dayOf w.db.now &&
      decide (limit ≤ createdOn w.db wid (dayOf (w.db.now - waited)))
  | _ => false

/-! ## One step -/

theorem startOfDay_le_of_dayOf {now t : Instant} (h : dayOf t = dayOf now) :
    startOfDay now ≤ t := by
  unfold dayOf at h
  unfold startOfDay
  rw [← h]
  exact Nat.div_mul_le_self t _

/-- The rows stamped with the current day are among those a start counts. -/
theorem createdOn_le_used (db : Db) (wid : UUID) :
    createdOn db wid (dayOf db.now) ≤ used db wid := by
  refine Table.length_select_le fun rid row hget hrow => ⟨row, hget, ?_⟩
  simp only [Bool.and_eq_true, decide_eq_true_eq] at hrow ⊢
  exact ⟨hrow.1, startOfDay_le_of_dayOf hrow.2⟩

/-- A start that writes got as far as the counting. -/
theorem start_counts {st : Settings} {db db' : Db} {uid wid aid rid jid id : UUID}
    {consent : Bool} {rerun : Option UUID} {purpose : Purpose} {waited : ℕ}
    (h : start st db uid wid aid consent rerun purpose waited rid jid = .ok (id, db'))
    (hwrites : db'.reviewRuns ≠ db.reviewRuns) :
    counts st db uid wid aid consent rerun purpose = true := by
  unfold start at h
  split at h
  · contradiction
  · rename_i henabled
    split at h
    · contradiction
    · rename_i hconsent
      simp only [Tx.bind_eq_ok] at h
      obtain ⟨member, hmember, snap, hsnap, user, huser, versions, hversions, generation,
        hgeneration, h⟩ := h
      have hkey : keyOf st db uid wid aid rerun purpose = .ok (st.reviewKey wid aid
          snap.connectionGeneration st.deepseekModel st.promptVersion st.policyVersion generation
          purpose user.reviewMode versions) := by
        simp [keyOf, hmember, hsnap, huser, hversions, hgeneration, bind, Except.bind]
      rcases admitRun_cases h with rfl | ⟨hroom, -⟩
      · exact absurd rfl hwrites
      · have hfresh := (Table.holds_eq_false_iff db.reviewRuns (fun _ row => row.executionKey =
            st.reviewKey wid aid snap.connectionGeneration st.deepseekModel st.promptVersion
              st.policyVersion generation purpose user.reviewMode versions)).mpr
          fun rid' row hget => decide_eq_false (hroom.fresh rid' row hget)
        have hidle := (Table.holds_eq_false_iff db.reviewRuns (fun _ row =>
            row.workspaceId = wid && !row.status.terminal)).mpr fun rid' row hget => by
          by_cases hwid : row.workspaceId = wid
          · simp [hroom.idle rid' row hget hwid]
          · simp [hwid]
        rw [Bool.not_eq_false] at henabled hconsent
        simp [counts, hkey, hfresh, hidle, henabled, hconsent]

/-- Every write to a stored run keeps its workspace and its stamp. -/
theorem written_stamp {w : World} {a : Action} {o : Outcome} {rid : UUID} {row run : ReviewRun}
    (h : ReviewWorker.Written w a o rid (some row) run) :
    run.workspaceId = row.workspaceId ∧ run.createdAt = row.createdAt := by
  obtain ⟨_, _, _, _, _, _, _, _, _, rfl⟩ := ReviewWorker.written_fixed h
  exact ⟨rfl, rfl⟩

/-- No step adds a row to a day but a start, which adds one on the day it began. -/
theorem createdOn_step (a : Action) (w : World) (wid : UUID) (day : ℕ) :
    createdOn (step a w).2.db wid day ≤ createdOn w.db wid day ∨
      createdOn (step a w).2.db wid day ≤ createdOn w.db wid day + 1 ∧
        ∃ st uid aid consent rerun purpose waited rid jid,
          a = .reviewStart st uid wid aid consent rerun purpose waited rid jid ∧
          dayOf (w.db.now - waited) = day ∧ used w.db wid < st.aiDailyLimit ∧
          counts st w.db uid wid aid consent rerun purpose = true := by
  by_cases hnew : ∃ rid run, (step a w).2.db.reviewRuns.get rid = some run ∧
      run.workspaceId = wid ∧ dayOf run.createdAt = day ∧ w.db.reviewRuns.get rid = none
  · obtain ⟨rid, run, hget, hwid, hday, hnone⟩ := hnew
    have hkept : createdOn (step a w).2.db wid day ≤ createdOn w.db wid day + 1 := by
      refine Table.length_select_le_succ rid fun rid' run' hget' hrun' hne => ?_
      rcases ReviewWorker.step_writes a w rid' with hsame | ⟨run'', hget'', hwritten⟩
      · exact ⟨run', hsame ▸ hget', hrun'⟩
      · obtain rfl := Option.some.inj (hget'.symm.trans hget'')
        cases hbefore : w.db.reviewRuns.get rid' with
        | some row =>
            rw [hbefore] at hwritten
            obtain ⟨hw, hc⟩ := written_stamp hwritten
            exact ⟨row, rfl, by simpa [hw, hc] using hrun'⟩
        | none =>
            -- a step inserts at most one row
            rcases ReviewWorker.step_writes a w rid with hsame | ⟨run₀, -, hwritten₀⟩
            · rw [hsame, hnone] at hget
              contradiction
            · rw [hbefore] at hwritten
              rw [hnone] at hwritten₀
              exact absurd (ReviewWorker.written_only hwritten₀ hwritten) hne
    refine .inr ⟨hkept, ?_⟩
    rcases ReviewWorker.step_writes a w rid with hsame | ⟨run', hget', hwritten⟩
    · rw [hsame, hnone] at hget
      contradiction
    · obtain rfl := Option.some.inj (hget.symm.trans hget')
      rw [hnone] at hwritten
      have hwrites : (step a w).2.db.reviewRuns ≠ w.db.reviewRuns := by
        intro hsame
        rw [hsame, hnone] at hget
        contradiction
      generalize hout : (step a w).1 = o at hwritten
      cases hwritten with
      | admitted hadmitted =>
          obtain ⟨snap, purpose', mode, versions, generation, key, rfl⟩ := hadmitted.new
          obtain rfl := hwid
          refine ⟨_, _, _, _, _, _, _, _, _, rfl, hday, hadmitted.room.quota, ?_⟩
          simp only [step, World.commit] at hwrites
          split at hwrites
          · rename_i db' hbody
            obtain ⟨⟨id, db''⟩, hstart, rfl⟩ := (Tx.map_eq_ok ..).mp hbody
            exact start_counts hstart hwrites
          · exact absurd rfl hwrites
  · refine .inl (Table.length_select_le fun rid run hget hrun => ?_)
    rcases ReviewWorker.step_writes a w rid with hsame | ⟨run', hget', hwritten⟩
    · exact ⟨run, hsame ▸ hget, hrun⟩
    · obtain rfl := Option.some.inj (hget.symm.trans hget')
      cases hbefore : w.db.reviewRuns.get rid with
      | none =>
          simp only [Bool.and_eq_true, decide_eq_true_eq] at hrun
          exact absurd ⟨rid, run, hget, hrun.1, hrun.2, hbefore⟩ hnew
      | some row =>
          rw [hbefore] at hwritten
          obtain ⟨hw, hc⟩ := written_stamp hwritten
          exact ⟨row, rfl, by simpa [hw, hc] using hrun⟩

/-- A step that is not an overdue start keeps the limit. -/
theorem quota_step {limit : ℕ} {a : Action} {w : World}
    (h : ∀ wid day, createdOn w.db wid day ≤ limit) (hlimit : ∀ n ∈ limitOf a, n = limit)
    (hprompt : overdue limit w a = false) (wid : UUID) (day : ℕ) :
    createdOn (step a w).2.db wid day ≤ limit := by
  rcases createdOn_step a w wid day with
    hle | ⟨hle, st, uid, aid, consent, rerun, purpose, waited, rid, jid, rfl, rfl, hused, hcounts⟩
  · exact hle.trans (h wid day)
  · obtain rfl := hlimit st.aiDailyLimit rfl
    refine hle.trans (Nat.succ_le_of_lt ?_)
    by_cases hsame : dayOf (w.db.now - waited) = dayOf w.db.now
    · calc createdOn w.db wid (dayOf (w.db.now - waited))
          = createdOn w.db wid (dayOf w.db.now) := by rw [hsame]
        _ ≤ used w.db wid := createdOn_le_used w.db wid
        _ < st.aiDailyLimit := hused
    · have hroom : createdOn w.db wid (dayOf w.db.now) < st.aiDailyLimit :=
        (createdOn_le_used w.db wid).trans_lt hused
      simp only [overdue, hcounts, hroom, hsame, ne_eq, not_false_eq_true, decide_true,
        Bool.true_and, decide_eq_false_iff_not, not_le] at hprompt
      exact hprompt

/-! ## Runs -/

/-- In a run with one limit and without overdue starts, no workspace has more rows
on a day than the limit. -/
theorem daily_quota_kept {now : Instant} {trace : Trace} {w : World} {limit : ℕ}
    (h : World.Run now trace w) (hlimit : ∀ e ∈ trace, ∀ n ∈ limitOf e.action, n = limit)
    (hprompt : ∀ e ∈ trace, overdue limit e.before e.action = false) (wid : UUID) (day : ℕ) :
    createdOn w.db wid day ≤ limit := by
  induction h generalizing wid day with
  | nil => exact Nat.zero_le limit
  | snoc a hexec ha ih =>
      have hbefore := ih (fun e he => hlimit e (List.mem_cons_of_mem _ he))
        (fun e he => hprompt e (List.mem_cons_of_mem _ he))
      exact quota_step hbefore (hlimit _ List.mem_cons_self) (hprompt _ List.mem_cons_self) wid day

/-! ## Executions -/

def onceADay : Settings := { AnalysisWorker.settings with aiDailyLimit := 1 }

/-- The only review of the first day is started and canceled. -/
def usedUp : List Action :=
  AnalysisWorker.analyzing ++
    [.reviewStart onceADay 2 1 8 true none .code 0 10 11, .reviewCancel 2 1 10]

/-- A second one begins a moment before midnight and is given the lock after it. -/
def midnight : List Action :=
  usedUp ++ [.tick (seconds 86400), .reviewStart onceADay 2 1 8 true (some 10) .code 1 20 21]

theorem daily_quota_kept_usedUp : createdOn (Lifecycle.reach usedUp).db 1 0 ≤ 1 :=
  daily_quota_kept (Transition.exec_run (initial 0) usedUp (by decide +kernel))
    (by decide +kernel) (by decide +kernel) 1 0

theorem midnight_exceeds : ∃ trace w, World.Run 0 trace w ∧
    (∀ e ∈ trace, ∀ n ∈ limitOf e.action, n = 1) ∧ createdOn w.db 1 0 = 2 :=
  ⟨_, _, Transition.exec_run (initial 0) midnight (by decide +kernel), by decide +kernel,
    by decide +kernel⟩

end Prism.Review
