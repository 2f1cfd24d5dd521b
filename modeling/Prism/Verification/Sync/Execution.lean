import Prism.Verification.GitHub.Equations
import Prism.Verification.Lifecycle.Trace

/-! When an execution of the worker suspends the connection of its run. -/

namespace Prism

/-! ## Codes -/

/-- The body does not raise a loss of access. -/
structure Tx.Spares {α : Type} (x : Tx α) : Prop where
  code_ne : ∀ f, x = .error f → f.appCode? ≠ some .githubAccessUnavailable

namespace Tx

theorem spares_ok {α : Type} (a : α) : Spares (.ok a : Tx α) :=
  ⟨fun f h => by contradiction⟩

theorem spares_error {α : Type} {f : Failure} (h : f.appCode? ≠ some .githubAccessUnavailable) :
    Spares (.error f : Tx α) := by
  refine ⟨fun f' hf => ?_⟩
  rw [← Except.error.inj hf]
  exact h

theorem spares_bind {α β : Type} {x : Tx α} {f : α → Tx β} (hx : Spares x)
    (hf : ∀ a, x = .ok a → Spares (f a)) : Spares (x >>= f) := by
  cases x with
  | error e => exact spares_error (hx.code_ne e rfl)
  | ok a => exact hf a rfl

theorem spares_ite {α : Type} {p : Prop} [Decidable p] {x y : Tx α} (hx : Spares x)
    (hy : Spares y) : Spares (if p then x else y) := by
  split
  · exact hx
  · exact hy

theorem spares_assertSome {α : Type} (x : Option α) : Spares (assertSome x) := by
  cases x with
  | none => exact spares_error (by simp [Failure.appCode?])
  | some a => exact spares_ok a

end Tx

open Tx

theorem requirePermission_spares (db : Db) (uid wid : UUID) (permission : Permission) :
    Spares (requirePermission db uid wid permission) := by
  refine spares_bind ?_ fun user _ => ?_
  · unfold getActiveUser
    split
    · exact spares_ite (spares_ok _) (spares_error (by simp [userUnavailable, Failure.appCode?]))
    · exact spares_error (by simp [userUnavailable, Failure.appCode?])
  · split
    · exact spares_error (by simp [workspaceMissing, Failure.appCode?])
    · refine spares_ite (spares_error (by simp [workspaceMissing, Failure.appCode?])) ?_
      exact spares_ite (spares_error (by simp [permissionDenied, Failure.appCode?])) (spares_ok _)

theorem access_spares (db : Db) (uid wid rid : UUID) (permission : Permission) (active : Bool) :
    Spares (access db uid wid rid permission active) := by
  refine spares_bind (requirePermission_spares db uid wid permission) fun member _ => ?_
  split
  · exact spares_error (by simp [repositoryNotFound, Failure.appCode?])
  · exact spares_ite (spares_error (by simp [repositoryInactive, Failure.appCode?])) (spares_ok _)

theorem requireEvent_spares (db : Db) (wid rid : UUID) (generation : ℕ) :
    Spares (requireEvent db wid rid generation) := by
  unfold requireEvent
  split
  · exact spares_error (by simp [connectionChanged, Failure.appCode?])
  · exact spares_ite (spares_error (by simp [connectionChanged, Failure.appCode?])) (spares_ok _)

theorem upsertAll_spares (now : Instant) (wid rid : UUID) (generation : ℕ) (ids : ℕ → UUID)
    (rows : List RemotePR) (pulls : Table UUID PullRequest) :
    Spares (Sync.upsertAll now wid rid generation ids rows pulls) := by
  have hintegrity : Failure.integrityError.appCode? ≠ some .githubAccessUnavailable := by
    simp [Failure.appCode?]
  induction rows generalizing ids pulls with
  | nil => exact spares_ok _
  | cons pr rows ih =>
      refine spares_bind ?_ fun pulls' _ => ih _ pulls'
      unfold Sync.upsert
      split
      · refine spares_ite (spares_ok _) (spares_ite ?_ (spares_ite ?_ (spares_ok _)))
        · exact spares_error (by simp [Sync.snapshotConflict, Failure.appCode?])
        · exact spares_error hintegrity
      · refine spares_ite (spares_error hintegrity) ?_
        exact spares_ite (spares_error hintegrity) (spares_ok _)

theorem finish_spares (now : Instant) (job : Job) (code : Option Code) (retry : Bool)
    (delay : ℕ) : Spares (Jobs.finish now job code retry delay) :=
  spares_ite (spares_error (by simp [Failure.appCode?])) (spares_ok _)

namespace SyncWorker

theorem access_spares (db : Db) (run : PullRequestSyncRun) : Spares (access db run) := by
  unfold access
  split
  · exact requireEvent_spares ..
  · refine spares_bind (spares_assertSome _) fun uid _ => ?_
    exact spares_bind (Prism.access_spares ..) fun r _ => spares_ok _

theorem begin_spares (db : Db) (c : Claim) : Spares (begin db c) := by
  unfold begin
  split
  · exact spares_ok _
  · refine spares_bind (access_spares ..) fun repo _ => ?_
    split
    · exact spares_ok _
    · exact spares_ite (spares_error (by simp [connectionChanged, Failure.appCode?])) (spares_ok _)

theorem syncSuccess_spares (db : Db) (run : PullRequestSyncRun) : Spares (syncSuccess db run) := by
  unfold syncSuccess
  split
  · refine spares_bind (requireEvent_spares ..) fun repo _ => ?_
    exact spares_bind (spares_assertSome _) fun row _ => spares_ok _
  · refine spares_bind (spares_assertSome _) fun uid _ => ?_
    exact spares_bind (Prism.access_spares ..) fun row _ => spares_ok _

theorem verdict_spares (db : Db) (run : PullRequestSyncRun) (code : Option Code) (retry : Bool) :
    Spares (verdict db run code retry) := by
  unfold verdict
  split
  · exact spares_ite (spares_ok _) (spares_ok _)
  · split
    · exact spares_ok _
    · rename_i f _ hcode
      exact spares_error (by simp [hcode])

/-- A completion never raises a loss of access. -/
theorem complete_spares (db : Db) (c : Claim) (ids : ℕ → UUID) (o : SyncOutcome)
    (expired : Bool) : Spares (complete db c ids o expired) := by
  unfold complete
  split
  · exact spares_ok _
  · rename_i run hrun
    refine spares_bind (verdict_spares ..) fun decided _ => ?_
    simp only
    split
    · exact spares_ok _
    · refine spares_ite (spares_bind ?_ fun stored _ => ?_) (spares_bind (spares_ok _) ?_)
      · refine spares_bind (upsertAll_spares ..) fun pulls _ => ?_
        exact spares_bind (syncSuccess_spares ..) fun connections _ => spares_ok _
      · exact spares_bind (finish_spares ..) fun job _ => spares_ok _
      · exact fun stored _ => spares_bind (finish_spares ..) fun job _ => spares_ok _

/-! ## Suspension -/

/-- An active connection is suspended. -/
def Suspends (db db' : Db) : Prop :=
  ∃ rid r r', db.connections.get rid = some r ∧ r.status = .active ∧
    db'.connections.get rid = some r' ∧ r'.status = .suspended

/-- A completion of the claim passes its checks: the actor still has access to
the connection at the generation of the run, and the lease is live. -/
def Passes (db : Db) (c : Claim) : Prop :=
  ∃ run repo job, db.syncRuns.get c.aggregateId = some run ∧ access db run = .ok repo ∧
    repo.connectionGeneration = run.connectionGeneration ∧
    Jobs.fence db.jobs db.now c false = some job ∧ job.attemptHistory ≠ []

private theorem verdict_access {db : Db} {run : PullRequestSyncRun} {code : Option Code}
    {retry retry' : Bool}
    (h : verdict db run code retry = .ok (some .githubAccessUnavailable, retry')) :
    code = some .githubAccessUnavailable ∧ ∃ repo, access db run = .ok repo ∧
      repo.connectionGeneration = run.connectionGeneration := by
  unfold verdict at h
  split at h
  · rename_i repo hrepo
    split at h
    · simp at h
    · rename_i hgen
      exact ⟨(Prod.mk.inj (Except.ok.inj h)).1, repo, hrepo, not_not.mp hgen⟩
  · rename_i f hf
    split at h
    · rename_i code' hcode
      have hcode' := (Prod.mk.inj (Except.ok.inj h)).1
      exact absurd (hcode.trans hcode') ((access_spares db run).code_ne f hf)
    · contradiction

/-- Only a loss of access suspends, and only through a completion that passes. -/
theorem complete_suspends {db db' : Db} {c : Claim} {ids : ℕ → UUID} {o : SyncOutcome}
    {expired : Bool} (h : complete db c ids o expired = .ok db') (hs : Suspends db db') :
    o.code = some .githubAccessUnavailable ∧ (expired = false → Passes db c) := by
  obtain ⟨rid, r, r', hget, hactive, hget', hsuspended⟩ := hs
  have hstays : ∀ s, db.connections.get rid = some s → s.status ≠ .suspended := by
    intro s hs' hstatus
    obtain rfl := Option.some.inj (hget.symm.trans hs')
    simp [hactive] at hstatus
  rcases complete_cases h with
    rfl | ⟨run, code, retry, job, job', run', pulls, connections, hrun, hverdict, hjob, hfinish,
      hstored, rfl⟩
  · exact absurd hsuspended (hstays r' hget')
  have hhistory := (Jobs.finish_eq_ok hfinish).1
  simp only at hget'
  cases hstored with
  | @page pulls row hpulls hrow =>
      rcases (Table.get_put_eq_some ..).mp hget' with ⟨rfl, rfl⟩ | ⟨-, hold⟩
      · exact absurd hsuspended (hstays row hrow)
      · exact absurd hsuspended (hstays r' hold)
  | refused code =>
      by_cases hcode : code = .githubAccessUnavailable
      · subst hcode
        obtain ⟨hcode, repo, hrepo, hgen⟩ := verdict_access hverdict
        refine ⟨hcode, ?_⟩
        rintro rfl
        exact ⟨run, repo, job, hrun, hrepo, hgen, hjob, hhistory⟩
      · rw [if_neg hcode] at hget'
        exact absurd hsuspended (hstays r' hget')

/-- A completion that passes suspends its connection on a loss of access. -/
theorem passes_suspends {db : Db} {c : Claim} {ids : ℕ → UUID} {o : SyncOutcome}
    (h : Passes db c) (hcode : o.code = some .githubAccessUnavailable) :
    ∃ db', complete db c ids o false = .ok db' ∧ Suspends db db' := by
  obtain ⟨run, repo, job, hrun, hrepo, hgen, hjob, hhistory⟩ := h
  obtain ⟨job', hfinish⟩ := Jobs.finish_ok hhistory db.now (some .githubAccessUnavailable)
    o.retry o.delay
  obtain ⟨r, hget, hactive, -⟩ := access_live hrepo
  have hverdict : verdict db run o.code o.retry =
      .ok (some .githubAccessUnavailable, o.retry) := by
    simp [verdict, hrepo, hgen, hcode]
  refine ⟨{ db with
      connections := suspendLocked db.connections [run.repositoryConnectionId]
      jobs := db.jobs.put c.id job'
      syncRuns := db.syncRuns.put c.aggregateId
        (closed db.now run job' (some .githubAccessUnavailable)) }, ?_,
    run.repositoryConnectionId, r, { r with status := .suspended }, hget, hactive, ?_, rfl⟩
  · simp [complete, hrun, hverdict, hjob, hfinish, bind, Except.bind]
  · simp [get_suspendLocked, hget, hactive]

/-- The refusal of one pull request is taken for the loss of its repository. -/
def Misread (g : GitHubClient) (c : Claim) (expired : Bool) (begun handled : Db) : Prop :=
  expired = false ∧ ∃ plan db token, begin begun c = .ok (some plan, db) ∧
    plan.number.getD 0 ≠ 0 ∧
    (g.installationToken plan.repo.installationId plan.repo.githubRepositoryId).result =
      .ok token ∧
    GitHubClient.deniedReply (g.network (GitHubClient.asked plan)) = true ∧ Passes handled c

/-- Some request of the execution that does not depend on the number was refused. -/
def RepositoryRefused (exchanged : List Exchange) : Prop :=
  ∃ e ∈ exchanged, e.1.ofNumber = false ∧ GitHubClient.refusedReply e.2 = true

private theorem caught_code {f : Failure} {o : SyncOutcome} (h : caught f = some o) :
    o.code = f.appCode? := by
  cases f <;> simp only [caught, reduceCtorEq, Option.some.injEq] at h
  · rw [← h]; rfl
  · rw [← h]; rfl

/-- What a handler passes after a transaction of `execute` never suspends. -/
private theorem caught_kept {α : Type} {x : Tx α} (hx : Spares x) {f : Failure}
    (hf : x = .error f) {o : SyncOutcome} (ho : caught f = some o) {db db' : Db} {c : Claim}
    {ids : ℕ → UUID} (h : complete db c ids o false = .ok db') : ¬Suspends db db' := by
  intro hs
  have hcode := (complete_suspends h hs).1
  rw [caught_code ho] at hcode
  exact hx.code_ne f hf hcode

/-- A failed fetch suspends by a request for the repository, or is misread. -/
private theorem fetch_suspends {g : GitHubClient} {plan : FetchPlan} {e : FetchError}
    (he : (g.fetch plan).result = .error e)
    (hcode : (errorOutcome e).code = some .githubAccessUnavailable) :
    RepositoryRefused (g.fetch plan).exchanged ∨ plan.number.getD 0 ≠ 0 ∧
      (∃ token, (g.installationToken plan.repo.installationId
        plan.repo.githubRepositoryId).result = .ok token) ∧
      GitHubClient.deniedReply (g.network (GitHubClient.asked plan)) = true := by
  have hlost : GitHubClient.LostAccess (g.fetch plan) := by
    cases e with
    | timeout => simp [errorOutcome] at hcode
    | failure f => exact ⟨f, he, by simpa [errorOutcome, failedOutcome] using hcode⟩
  rcases GitHubClient.fetch_cases g plan with
    ⟨-, hcalm | ⟨hexchanged, hdenied⟩⟩ | ⟨htoken, hexchanged, -, hdenied⟩
  · exact absurd hlost hcalm.kept
  · left
    rw [hexchanged]
    exact ⟨_, List.mem_singleton_self _, rfl,
      GitHubClient.denied_refused (hdenied.mp hlost)⟩
  · by_cases hnumber : plan.number.getD 0 ≠ 0
    · exact .inr ⟨hnumber, htoken, hdenied.mp hlost⟩
    · left
      rw [hexchanged]
      refine ⟨_, List.mem_cons_of_mem _ (List.mem_singleton_self _), ?_,
        GitHubClient.denied_refused (hdenied.mp hlost)⟩
      simp only [GitHubClient.asked, if_neg hnumber, Request.ofNumber]

/-- A misread refusal suspends although no request for the repository was refused. -/
private theorem misread_suspends {g : GitHubClient} {c : Claim} {ids : ℕ → UUID} {expired : Bool}
    {begun fetched handled : Db} (h : Misread g c expired begun handled) :
    ∃ db', (execute g c ids expired begun fetched handled).2 = some (handled, .ok db') ∧
      Suspends handled db' ∧
      ¬RepositoryRefused (execute g c ids expired begun fetched handled).1 := by
  obtain ⟨rfl, plan, db, token, hbegin, hnumber, htoken, hdenied, hpasses⟩ := h
  rcases GitHubClient.fetch_cases g plan with
    ⟨hno, -⟩ | ⟨-, hexchanged, hgranted, hlost⟩
  · exact absurd htoken (hno token)
  obtain ⟨f, hresult, hcode⟩ := hlost.mpr hdenied
  obtain ⟨db', hcomplete, hs⟩ := @passes_suspends handled c ids (errorOutcome (.failure f)) hpasses
    (by simpa [errorOutcome, failedOutcome] using hcode)
  refine ⟨db', ?_, hs, ?_⟩
  · simp [execute, hbegin, hresult, hcomplete]
  · have hlog : (execute g c ids false begun fetched handled).1 = (g.fetch plan).exchanged := by
      simp [execute, hbegin]
    rw [hlog, hexchanged]
    rintro ⟨e, he, hfree, hrefused⟩
    rcases List.mem_cons.mp he with rfl | he
    · simp [hgranted] at hrefused
    · obtain rfl := List.mem_singleton.mp he
      simp [GitHubClient.asked, hnumber, Request.ofNumber] at hfree

/-- An execution suspends a connection only if a request that does not depend on
the number was refused, except when it misreads the refusal of one pull request. -/
theorem suspended_by_repository (g : GitHubClient) (c : Claim) (ids : ℕ → UUID) (expired : Bool)
    (begun fetched handled : Db) :
    (∀ db db', (execute g c ids expired begun fetched handled).2 = some (db, .ok db') →
      Suspends db db' →
      RepositoryRefused (execute g c ids expired begun fetched handled).1) ↔
    ¬Misread g c expired begun handled := by
  constructor
  · intro h hmisread
    obtain ⟨db', hlast, hs, hno⟩ := @misread_suspends g c ids expired begun fetched handled hmisread
    exact hno (h handled db' hlast hs)
  intro h db db' hlast hs
  cases expired with
  | true =>
      obtain ⟨rfl, hcomplete⟩ := Prod.mk.inj (Option.some.inj hlast)
      have hcode := (complete_suspends hcomplete hs).1
      simp [recoveredOutcome] at hcode
  | false =>
      simp only [execute, Bool.false_eq_true, if_false] at hlast ⊢
      cases hbegin : begin begun c with
      | error f =>
          simp only [hbegin, Option.map_eq_some_iff] at hlast
          obtain ⟨o, ho, hlast⟩ := hlast
          obtain ⟨rfl, hcomplete⟩ := Prod.mk.inj hlast
          exact absurd hs (caught_kept (begin_spares begun c) hbegin ho hcomplete)
      | ok begun' =>
          obtain ⟨plan, db₁⟩ := begun'
          cases plan with
          | none => simp [hbegin] at hlast
          | some plan =>
              simp only [hbegin] at hlast ⊢
              cases hresult : (g.fetch plan).result with
              | error e =>
                  simp only [hresult] at hlast
                  obtain ⟨rfl, hcomplete⟩ := Prod.mk.inj (Option.some.inj hlast)
                  obtain ⟨hcode, hpasses⟩ := complete_suspends hcomplete hs
                  rcases fetch_suspends hresult hcode with
                    hrefused | ⟨hnumber, ⟨token, htoken⟩, hdenied⟩
                  · exact hrefused
                  · exact absurd ⟨rfl, plan, db₁, token, hbegin, hnumber, htoken, hdenied,
                      hpasses rfl⟩ h
              | ok page =>
                  simp only [hresult] at hlast
                  cases hcomplete : complete fetched c ids (fetchedOutcome page) false with
                  | ok db₂ =>
                      simp only [hcomplete, Option.some.injEq, Prod.mk.injEq,
                        Except.ok.injEq] at hlast
                      obtain ⟨rfl, rfl⟩ := hlast
                      have hcode := (complete_suspends hcomplete hs).1
                      simp [fetchedOutcome] at hcode
                  | error f =>
                      simp only [hcomplete, Option.map_eq_some_iff] at hlast
                      obtain ⟨o, ho, hlast⟩ := hlast
                      obtain ⟨rfl, hcomplete'⟩ := Prod.mk.inj hlast
                      have hspares := complete_spares fetched c ids (fetchedOutcome page) false
                      exact absurd hs (caught_kept hspares hcomplete ho hcomplete')

/-! ## An execution -/

theorem execute_reads {g : GitHubClient} {c : Claim} {ids : ℕ → UUID} {expired : Bool}
    {begun seen db : Db} {x : Tx Db}
    (h : (execute g c ids expired begun seen seen).2 = some (db, x)) : db = seen := by
  unfold execute at h
  split at h
  · exact (Prod.mk.inj (Option.some.inj h)).1.symm
  split at h
  · obtain ⟨o, -, h⟩ := Option.map_eq_some_iff.mp h
    exact (Prod.mk.inj h).1.symm
  · contradiction
  · simp only at h
    split at h
    · exact (Prod.mk.inj (Option.some.inj h)).1.symm
    · split at h
      · exact (Prod.mk.inj (Option.some.inj h)).1.symm
      · obtain ⟨o, -, h⟩ := Option.map_eq_some_iff.mp h
        exact (Prod.mk.inj h).1.symm

/-- After the first synchronization a member asks for pull request 404. -/
def looking : List Action :=
  Lifecycle.syncing ++ [
    .syncComplete (Lifecycle.syncClaim 1 "first") id ⟨[], none, false, 5, none, false⟩ false,
    .sync 2 1 3 1 (some 404) 30 31, .claim "first" [.syncPullRequests] []]

def lookClaim : Claim := ⟨31, 30, some 1, .syncPullRequests, 1, "first"⟩

/-- GitHub grants the token and has no such pull request. -/
def missing : GitHubClient where
  githubAppReady := true
  signs := true
  time := 0
  network
    | .accessTokens _ _ => .response
      ⟨201, none, none, none, none, .content 13 (some (.obj [(['t', 'o', 'k', 'e', 'n'], .str ['t'])]))⟩
    | _ => .response ⟨404, none, none, none, none, .content 0 none⟩
  remotePR _ := none

theorem missing_pull_suspends : ∃ trace w later w', World.Run 0 trace w ∧
    World.Path w later w' ∧ ∃ db',
      (execute missing lookClaim id false w.db w'.db w'.db).2 = some (w'.db, .ok db') ∧
      Suspends w'.db db' ∧
      ¬RepositoryRefused (execute missing lookClaim id false w.db w'.db w'.db).1 := by
  have hrun : World.Run 0 _ (Lifecycle.reach looking) :=
    Transition.exec_run (World.initial 0) looking (by decide +kernel)
  have hpath : World.Path (Lifecycle.reach looking) _ _ :=
    Transition.exec_run _ [.syncBegin lookClaim] (by decide +kernel)
  have hlast : ((execute missing lookClaim id false (Lifecycle.reach looking).db
      (Transition.run World.step (Lifecycle.reach looking) [.syncBegin lookClaim]).db
      (Transition.run World.step (Lifecycle.reach looking) [.syncBegin lookClaim]).db).2.bind
        fun r => r.2.toOption.bind fun db => (db.connections.get 3).map (·.status)) =
      some .suspended := by decide +kernel
  have hactive : ((Transition.run World.step (Lifecycle.reach looking)
      [.syncBegin lookClaim]).db.connections.get 3).map (·.status) = some .active := by
    decide +kernel
  have hlog : (execute missing lookClaim id false (Lifecycle.reach looking).db
      (Transition.run World.step (Lifecycle.reach looking) [.syncBegin lookClaim]).db
      (Transition.run World.step (Lifecycle.reach looking) [.syncBegin lookClaim]).db).1.all
        (fun e => e.1.ofNumber || !GitHubClient.refusedReply e.2) = true := by decide +kernel
  obtain ⟨⟨db, x⟩, hexecute, hx⟩ := Option.bind_eq_some_iff.mp hlast
  obtain ⟨db', hdb', hstatus⟩ := Option.bind_eq_some_iff.mp hx
  obtain ⟨r, hget, hr⟩ := Option.map_eq_some_iff.mp hactive
  obtain ⟨r', hget', hr'⟩ := Option.map_eq_some_iff.mp hstatus
  obtain rfl := execute_reads hexecute
  cases x with
  | error f => simp [Except.toOption] at hdb'
  | ok db₁ =>
      obtain rfl := Option.some.inj hdb'
      refine ⟨_, _, _, _, hrun, hpath, db₁, hexecute, ⟨3, r, r', hget, hr, hget', hr'⟩, ?_⟩
      rintro ⟨e, he, hfree, hrefused⟩
      have hall := List.all_eq_true.mp hlog e he
      simp [hfree, hrefused] at hall

end SyncWorker

end Prism
