import Prism.Verification.Connection.Semantics
import Prism.Verification.GitHub.Equations
import Prism.Verification.Sync.Freshness

/-! What a sync run remembers of an earlier answer: its tag and the page that follows. Both are
copied from a completed run of the same request, and replaced by the answers of a completion. -/

namespace Prism

namespace Sync

/-! ## Copies -/

/-- The requests of two runs are for the same page of a repository at one generation. -/
structure SameRequest (row run : PullRequestSyncRun) : Prop where
  repository : run.repositoryConnectionId = row.repositoryConnectionId
  generation : run.connectionGeneration = row.connectionGeneration
  mode : run.mode = row.mode
  cursor : run.requestCursor = row.requestCursor
  number : run.requestedPrNumber = row.requestedPrNumber

/-- The run remembers what the other one does. -/
structure Remembers (row run : PullRequestSyncRun) : Prop extends SameRequest row run where
  etag : run.etag = row.etag
  next : run.nextCursor = row.nextCursor

theorem Remembers.refl (run : PullRequestSyncRun) : Remembers run run :=
  ⟨⟨rfl, rfl, rfl, rfl, rfl⟩, rfl, rfl⟩

theorem cachedRun_spec {db : Db} {rid : UUID} {mode : SyncMode} {cursor number : Option ℕ}
    {generation : ℕ} {run : PullRequestSyncRun}
    (h : cachedRun db rid mode cursor number generation = some run) :
    ∃ sid, db.syncRuns.get sid = some run ∧ run.repositoryConnectionId = rid ∧
      run.mode = mode ∧ run.requestCursor = cursor ∧ run.requestedPrNumber = number ∧
      run.connectionGeneration = generation ∧ run.status = .completed := by
  obtain ⟨⟨sid, run'⟩, hmax, rfl⟩ := Option.map_eq_some_iff.mp h
  obtain ⟨hget, hp⟩ := (Table.mem_select_iff ..).mp (List.argmax_mem (Option.mem_def.mpr hmax))
  simp only [Bool.and_eq_true, decide_eq_true_eq, and_assoc] at hp
  exact ⟨sid, hget, hp⟩

/-- A run for a page of the list asks for no number. -/
def Listing (run : PullRequestSyncRun) : Prop :=
  run.mode ≠ .single → run.requestedPrNumber.getD 0 = 0

/-- A new run remembers what a stored run of its request does, or nothing. -/
def Copied (db : Db) (run : PullRequestSyncRun) : Prop :=
  Listing run ∧
    (run.etag = none ∨ ∃ sid row, db.syncRuns.get sid = some row ∧ Remembers row run)

theorem pendingRun_copied {db : Db} {now : Instant} {uid wid rid : UUID} {page generation : ℕ}
    {number cursor : Option ℕ} :
    Copied db (pendingRun now wid rid generation (some uid) (modeOf page number) cursor number
      (cachedRun db rid (modeOf page number) cursor number generation)) := by
  constructor
  · intro hmode
    by_contra hnumber
    exact hmode (if_pos hnumber)
  · cases hcached : cachedRun db rid (modeOf page number) cursor number generation with
    | none => exact .inl rfl
    | some row =>
        obtain ⟨sid, hget, hrid, hmode, hcursor, hnumber, hgen, -⟩ := cachedRun_spec hcached
        exact .inr ⟨sid, row, hget, ⟨hrid.symm, hgen.symm, hmode.symm, hcursor.symm,
          hnumber.symm⟩, rfl, rfl⟩

/-- A request joins the active run, or inserts one that copies a stored run. -/
theorem enqueue_copies {db db' : Db} {uid wid rid : UUID} {page : ℕ} {number : Option ℕ}
    {sid jid id : UUID} (h : enqueue db uid wid rid page number sid jid = .ok (id, db')) :
    db' = db ∨ ∃ run jobs, Copied db run ∧ db.syncRuns.get sid = none ∧
      db' = { db with syncRuns := db.syncRuns.put sid run, jobs := jobs } := by
  simp only [enqueue, Tx.bind_eq_ok] at h
  obtain ⟨repo, -, h⟩ := h
  generalize (if modeOf page number = .page then some page else none) = cursor at h
  split at h
  · split at h
    · contradiction
    · exact .inl (Prod.mk.inj (Except.ok.inj h)).2.symm
  · obtain ⟨db₁, hinsert, h⟩ := (Tx.bind_eq_ok ..).mp h
    obtain ⟨-, rfl⟩ := Prod.mk.inj (Except.ok.inj h)
    obtain ⟨hnone, jobs, -, rfl⟩ := insertRun_eq_ok.mp hinsert
    exact .inr ⟨_, jobs, pendingRun_copied, hnone, rfl⟩

/-! ## Rows that are up to date -/

/-- The stored row of a listed pull request is newer, or the same version of it. -/
def Current (pulls : Table UUID PullRequest) (rid : UUID) (pr : RemotePR) : Prop :=
  ∃ id row, pulls.get id = some row ∧ row.repositoryConnectionId = rid ∧
    row.prNumber = pr.number ∧ pr.updatedAt ≤ row.githubUpdatedAt ∧
    (row.githubUpdatedAt = pr.updatedAt → row.headSha = pr.head.sha ∧ row.baseSha = pr.base.sha)

variable {pulls pulls' : Table UUID PullRequest} {now : Instant} {wid rid : UUID}
  {generation : ℕ} {pr : RemotePR} {page : List RemotePR} {ids : ℕ → UUID} {pid : UUID}

theorem Current.keeps (h : Current pulls rid pr) (hkeeps : pulls.Keeps Newer pulls') :
    Current pulls' rid pr := by
  obtain ⟨id, row, hget, hrid, hnumber, hle, hcommits⟩ := h
  obtain ⟨row', hget', hnewer⟩ := hkeeps id row hget
  refine ⟨id, row', hget', hnewer.repository.trans hrid, hnewer.number.trans hnumber,
    hle.trans hnewer.updated, fun htime => ?_⟩
  -- a row of the same time still has the commits
  have hsame : row.githubUpdatedAt = pr.updatedAt :=
    le_antisymm (htime ▸ hnewer.updated) hle
  have hkept : (row'.headSha, row'.baseSha) = (row.headSha, row.baseSha) := by
    by_contra hne
    exact (hnewer.commits hne).ne (hsame.trans htime.symm)
  obtain ⟨hhead, hbase⟩ := Prod.mk.inj hkept
  rw [hhead, hbase]
  exact hcommits hsame

theorem upsert_current (h : upsert pulls now wid rid generation pr pid = .ok pulls') :
    Current pulls' rid pr := by
  rcases upsert_stores h with
    ⟨rfl, id, row, hget, hrid, hnumber, hlt⟩ | ⟨id, row, hget, hnewer, rfl⟩ | ⟨hnone, rfl, -⟩
  · exact ⟨id, row, hget, hrid, hnumber, hlt.le, fun htime => absurd htime hlt.ne'⟩
  · exact ⟨id, _, Table.get_put_self .., rfl, rfl, le_rfl, fun _ => ⟨rfl, rfl⟩⟩
  · exact ⟨pid, _, Table.get_put_self .., rfl, rfl, le_rfl, fun _ => ⟨rfl, rfl⟩⟩

/-- A stored page is up to date. -/
theorem upsertAll_current (h : upsertAll now wid rid generation ids page pulls = .ok pulls') :
    ∀ pr ∈ page, Current pulls' rid pr := by
  induction page generalizing pulls ids with
  | nil => simp
  | cons first page ih =>
      obtain ⟨mid, hmid, hrest⟩ := (Tx.bind_eq_ok ..).mp h
      intro pr hpr
      rcases List.mem_cons.mp hpr with rfl | hpr
      · exact (upsert_current hmid).keeps (upsertAll_keeps hrest)
      · exact ih hrest pr hpr

/-! ## Storing what is up to date -/

/-- What a stored pull request is compared by. -/
def version (row : PullRequest) : UUID × ℕ × Instant × Option String × Option String :=
  (row.repositoryConnectionId, row.prNumber, row.githubUpdatedAt, row.headSha, row.baseSha)

/-- The same pull requests are stored, in the same versions. -/
def SameVersions (pulls pulls' : Table UUID PullRequest) : Prop :=
  ∀ id, (pulls'.get id).map version = (pulls.get id).map version

/-- Storing a pull request that is up to date keeps its version, unless a unique index
refuses it. -/
theorem upsert_again (hnumbered : Numbered pulls) (h : Current pulls rid pr) :
    upsert pulls now wid rid generation pr pid = .error .integrityError ∨
      ∃ pulls', upsert pulls now wid rid generation pr pid = .ok pulls' ∧
        SameVersions pulls pulls' := by
  obtain ⟨id, row, hget, hrid, hnumber, hle, hcommits⟩ := h
  unfold upsert
  split
  · rename_i id' row' hfind
    obtain ⟨hget', hp⟩ := Table.find_spec hfind
    simp only [Bool.and_eq_true, decide_eq_true_eq] at hp
    obtain rfl := hnumbered _ _ _ _ hget hget' (hrid.trans hp.1.symm) (hnumber.trans hp.2.symm)
    obtain rfl := Option.some.inj (hget.symm.trans hget')
    split
    · exact .inr ⟨pulls, rfl, fun _ => rfl⟩
    rename_i hnewer
    have htime : row.githubUpdatedAt = pr.updatedAt := le_antisymm (not_lt.mp hnewer) hle
    obtain ⟨hhead, hbase⟩ := hcommits htime
    rw [if_neg (by simp [hhead, hbase])]
    split
    · exact .inl rfl
    refine .inr ⟨_, rfl, fun id' => ?_⟩
    by_cases hid : id' = id
    · subst id'
      rw [Table.get_put_self, hget, Option.map_some, Option.map_some]
      simp only [version, rowOf, hrid, hnumber, htime, hhead, hbase]
    · rw [Table.get_put_of_ne _ _ hid]
  · rename_i hfind
    have hmiss := (Table.find_eq_none_iff ..).mp hfind id row hget
    simp [hrid, hnumber] at hmiss

/-- Storing a page that is up to date keeps every version, unless a unique index refuses one of
its elements. -/
theorem upsertAll_again (hnumbered : Numbered pulls) (h : ∀ pr ∈ page, Current pulls rid pr) :
    upsertAll now wid rid generation ids page pulls = .error .integrityError ∨
      ∃ pulls', upsertAll now wid rid generation ids page pulls = .ok pulls' ∧
        SameVersions pulls pulls' := by
  induction page generalizing pulls ids with
  | nil => exact .inr ⟨pulls, rfl, fun _ => rfl⟩
  | cons pr page ih =>
      obtain ⟨hpr, hrest⟩ := List.forall_mem_cons.mp h
      rcases upsert_again hnumbered hpr with hrefused | ⟨mid, hmid, hsame⟩
      · left
        rw [upsertAll, hrefused]
        rfl
      have hkept : ∀ pr ∈ page, Current mid rid pr :=
        fun pr hpr => (hrest pr hpr).keeps (upsert_keeps hmid)
      have heq : upsertAll now wid rid generation ids (pr :: page) pulls =
          upsertAll now wid rid generation (fun i => ids (i + 1)) page mid := by
        rw [upsertAll, hmid]
        rfl
      rw [heq]
      rcases ih (upsert_numbered hnumbered hmid) hkept with
        hrefused | ⟨pulls', hpulls', hsame'⟩
      · exact .inl hrefused
      · exact .inr ⟨pulls', hpulls', fun id => (hsame' id).trans (hsame id)⟩

end Sync

namespace SyncWorker

open World

/-! ## One step -/

/-- How what a run remembers can change: it is copied with a new run, it stays, or a completion
that holds the lease stores a page, takes over its tag and finishes the job. -/
inductive Entry (w : World) (a : Action) (db' : Db) (sid : UUID) :
    Option PullRequestSyncRun → PullRequestSyncRun → Prop where
  | copied (run : PullRequestSyncRun) : Sync.Copied w.db run → Entry w a db' sid none run
  | kept (row run : PullRequestSyncRun) : Sync.Remembers row run →
      Entry w a db' sid (some row) run
  | answered (row run : PullRequestSyncRun) (c : Claim) (ids : ℕ → UUID) (o : SyncOutcome)
      (expired : Bool) (job : Job) : a = .syncComplete c ids o expired → c.aggregateId = sid →
      o.code = none → Jobs.fence w.db.jobs w.db.now c expired = some job →
      (∃ job', db'.jobs.get c.id = some job' ∧ job'.state ≠ .leased) →
      Sync.upsertAll w.db.now row.workspaceId row.repositoryConnectionId row.connectionGeneration
        ids o.rows w.db.pullRequests = .ok db'.pullRequests →
      Sync.SameRequest row run → run.etag = o.etag →
      run.nextCursor = (fetched w.db.now row o).nextCursor → Entry w a db' sid (some row) run

/-- What one run remembers changed as described, and nothing else. -/
def Entries (w : World) (a : Action) (db' : Db) : Prop :=
  ∀ sid, db'.syncRuns.get sid = w.db.syncRuns.get sid ∨
    ∃ run, db'.syncRuns.get sid = some run ∧ Entry w a db' sid (w.db.syncRuns.get sid) run

private theorem entries_put {w : World} {a : Action} {db' : Db} {sid : UUID}
    {run : PullRequestSyncRun} (hput : db'.syncRuns = w.db.syncRuns.put sid run)
    (h : Entry w a db' sid (w.db.syncRuns.get sid) run) : Entries w a db' := by
  intro sid'
  rw [hput]
  by_cases hid : sid' = sid
  · subst sid'
    exact .inr ⟨run, Table.get_put_self .., h⟩
  · exact .inl (Table.get_put_of_ne _ _ hid)

private theorem entries_same {w : World} {a : Action} {db' : Db}
    (h : db'.syncRuns = w.db.syncRuns) : Entries w a db' :=
  fun _ => .inl (by rw [h])

private theorem entries_commit {w : World} {a : Action} {body : Tx Db}
    (h : ∀ db', body = .ok db' → Entries w a db') : Entries w a (w.commit body).2.db := by
  unfold World.commit
  split
  · exact h _ rfl
  · exact entries_same rfl

private theorem enqueue_entries {w : World} {a : Action} {db₁ db' : Db}
    {uid wid rid sid jid id : UUID} {page : ℕ} {number : Option ℕ}
    (h : Sync.enqueue db₁ uid wid rid page number sid jid = .ok (id, db'))
    (hruns : db₁.syncRuns = w.db.syncRuns) : Entries w a db' := by
  rcases Sync.enqueue_copies h with rfl | ⟨run, jobs, hcopied, hnone, rfl⟩
  · exact entries_same hruns
  · rw [hruns] at hnone
    refine entries_put (by rw [← hruns]) ?_
    rw [hnone]
    refine .copied run ⟨hcopied.1, ?_⟩
    rw [← hruns]
    exact hcopied.2

theorem step_entries (a : Action) (w : World) : Entries w a (step a w).2.db := by
  by_cases hquiet : Area.syncRuns ∉ touches a
  · exact entries_same ((step_frame a w).syncRuns hquiet)
  cases a with
  | connect uid wid verified rid cid sid jid =>
      refine entries_commit fun db' h => ?_
      obtain ⟨id, db₁, run, hconnect, hsync⟩ := connectOne_cases h
      have hfirst : db₁.syncRuns = w.db.syncRuns := by
        rcases connect_cases hconnect with ⟨row, -, -, rfl⟩ | ⟨-, -, configs, rfl⟩ <;> rfl
      exact enqueue_entries hsync hfirst
  | sync uid wid rid page number sid jid =>
      refine entries_commit fun db' h => ?_
      obtain ⟨⟨id, db₁⟩, hbody, rfl⟩ := (Tx.map_eq_ok ..).mp h
      exact enqueue_entries hbody rfl
  | syncBegin c =>
      refine entries_commit fun db' h => ?_
      obtain ⟨⟨plan, db₁⟩, hbody, rfl⟩ := (Tx.map_eq_ok ..).mp h
      rcases begin_cases hbody with ⟨-, rfl⟩ | ⟨run, repo, job, hget, -, -, -, -, rfl⟩
      · exact entries_same rfl
      · refine entries_put rfl ?_
        rw [hget]
        exact .kept run _ ⟨⟨rfl, rfl, rfl, rfl, rfl⟩, rfl, rfl⟩
  | syncComplete c ids o expired =>
      refine entries_commit fun db' h => ?_
      rcases complete_cases h with
        rfl | ⟨run, code, retry, job, job', run', pulls, connections, hget, hverdict, hfence,
          hfinish, hstored, rfl⟩
      · exact entries_same rfl
      · refine entries_put rfl ?_
        rw [hget]
        cases hstored with
        | page hpulls hrow =>
            obtain ⟨-, -, hstate, -⟩ := Jobs.finish_eq_ok hfinish
            refine .answered run _ c ids o expired job rfl rfl (verdict_none hverdict).1 hfence
              ⟨job', Table.get_put_self .., ?_⟩ hpulls ⟨rfl, rfl, rfl, rfl, rfl⟩ rfl rfl
            simp [hstate, Jobs.again]
        | refused code => exact .kept run _ ⟨⟨rfl, rfl, rfl, rfl, rfl⟩, rfl, rfl⟩
  | webhookExecute c expired sid jid =>
      refine entries_commit fun db' h => ?_
      rcases WebhookWorker.execute_cases h with
        ⟨rfl, -⟩ | ⟨row, code, targets, job, job', hrow, -, -, hend⟩
      · exact entries_same rfl
      rcases hend with ⟨-, -, rfl⟩ | ⟨-, code', db₁, happly, -, rfl⟩
      · exact entries_same rfl
      · cases WebhookWorker.apply_applied happly with
        | requested hexp hpr hwid hrid hgen hnumber hlive hidle hnone hjobs =>
            refine entries_put rfl ?_
            rw [hnone]
            exact .copied _ ⟨fun hmode => absurd rfl hmode, .inl rfl⟩
        | _ => exact entries_same rfl
  | _ => exact absurd (by simp [touches]) hquiet

/-! ## Addresses -/

/-- A connection only moves to another address together with its generation. -/
structure Addressed (r r' : RepositoryConnection) : Prop where
  generation_le : r.connectionGeneration ≤ r'.connectionGeneration
  address : r'.connectionGeneration = r.connectionGeneration →
    r'.ownerLogin = r.ownerLogin ∧ r'.repositoryName = r.repositoryName

theorem Addressed.refl (r : RepositoryConnection) : Addressed r r :=
  ⟨le_rfl, fun _ => ⟨rfl, rfl⟩⟩

private theorem addressed_commit {w : World} {body : Tx Db}
    (h : ∀ db', body = .ok db' → w.db.connections.Keeps Addressed db'.connections) :
    w.db.connections.Keeps Addressed (w.commit body).2.db.connections := by
  unfold World.commit
  split
  · exact h _ rfl
  · exact .refl Addressed.refl _

private theorem addressed_put {t : Table UUID RepositoryConnection} {rid : UUID}
    {r r' : RepositoryConnection} (hget : t.get rid = some r) (h : Addressed r r') :
    t.Keeps Addressed (t.put rid r') := by
  refine Table.keeps_put Addressed.refl fun k hk => ?_
  obtain rfl := Option.some.inj (hget.symm.trans hk)
  exact h

private theorem addressed_suspended (t : Table UUID RepositoryConnection) (ids : List UUID) :
    t.Keeps Addressed (suspendLocked t ids) := by
  intro rid r hr
  rw [get_suspendLocked, hr, Option.map_some]
  refine ⟨_, rfl, ?_⟩
  split
  · exact ⟨le_rfl, fun _ => ⟨rfl, rfl⟩⟩
  · exact .refl r

theorem step_addressed (a : Action) (w : World) :
    w.db.connections.Keeps Addressed (step a w).2.db.connections := by
  by_cases hquiet : Area.connections ∉ touches a
  · rw [(step_frame a w).connections hquiet]
    exact .refl Addressed.refl _
  cases a with
  | connect uid wid verified rid cid sid jid =>
      refine addressed_commit fun db' h => ?_
      obtain ⟨id, db₁, run, hconnect, hsync⟩ := connectOne_cases h
      rw [Connections.sync_connections hsync]
      rcases connect_cases hconnect with ⟨row, hget, -, rfl⟩ | ⟨-, hnone, configs, rfl⟩
      · exact addressed_put hget ⟨Nat.le_succ _, fun h => absurd h (Nat.succ_ne_self _)⟩
      · exact Table.keeps_put Addressed.refl fun k hk => by simp [hnone] at hk
  | disconnect uid wid rid =>
      refine addressed_commit fun db' h => ?_
      obtain ⟨row, hget, rfl⟩ := disconnect_cases h
      exact addressed_put hget ⟨le_rfl, fun _ => ⟨rfl, rfl⟩⟩
  | syncComplete c ids o expired =>
      refine addressed_commit fun db' h => ?_
      rcases complete_cases h with
        rfl | ⟨run, code, retry, job, job', run', pulls, connections, -, -, -, -, hstored, rfl⟩
      · exact .refl Addressed.refl _
      · cases hstored with
        | page hpulls hget => exact addressed_put hget ⟨le_rfl, fun _ => ⟨rfl, rfl⟩⟩
        | refused code =>
            simp only
            split
            · exact addressed_suspended _ _
            · exact .refl Addressed.refl _
  | webhookExecute c expired sid jid =>
      refine addressed_commit fun db' h => ?_
      rcases WebhookWorker.execute_cases h with
        ⟨rfl, -⟩ | ⟨row, code, targets, job, job', -, -, -, hend⟩
      · exact .refl Addressed.refl _
      rcases hend with ⟨-, -, rfl⟩ | ⟨-, code', db₁, happly, -, rfl⟩
      · exact .refl Addressed.refl _
      · cases WebhookWorker.apply_applied happly with
        | suspended _ _ => exact addressed_suspended _ _
        | _ => exact .refl Addressed.refl _
  | _ => exact absurd (by simp [touches]) hquiet

end SyncWorker

end Prism
