import Prism.Verification.Sync.Execution
import Prism.Verification.Sync.Semantics

/-! Stored pull requests only move forward in time, and a page that contradicts a
stored pull request stores nothing. -/

namespace Prism

namespace Sync

/-- The later value of a pull request: its time does not go back, and its commits
change only together with a larger time. -/
structure Newer (row row' : PullRequest) : Prop where
  repository : row'.repositoryConnectionId = row.repositoryConnectionId
  number : row'.prNumber = row.prNumber
  updated : row.githubUpdatedAt ≤ row'.githubUpdatedAt
  commits : (row'.headSha, row'.baseSha) ≠ (row.headSha, row.baseSha) →
    row.githubUpdatedAt < row'.githubUpdatedAt

theorem Newer.refl (row : PullRequest) : Newer row row :=
  ⟨rfl, rfl, le_rfl, fun h => absurd rfl h⟩

theorem Newer.trans (row row' row'' : PullRequest) (h : Newer row row')
    (h' : Newer row' row'') : Newer row row'' where
  repository := h'.repository.trans h.repository
  number := h'.number.trans h.number
  updated := h.updated.trans h'.updated
  commits := by
    intro hne
    by_cases hsame : (row'.headSha, row'.baseSha) = (row.headSha, row.baseSha)
    · exact h.updated.trans_lt (h'.commits (hsame ▸ hne))
    · exact (h.commits hsame).trans_le h'.updated

/-- A connection has one row for each pull-request number. -/
def Numbered (pulls : Table UUID PullRequest) : Prop :=
  ∀ id row id' row', pulls.get id = some row → pulls.get id' = some row' →
    row.repositoryConnectionId = row'.repositoryConnectionId → row.prNumber = row'.prNumber →
    id = id'

/-- The element has the time of the stored row of its pull request, but other commits. -/
def Conflicts (pulls : Table UUID PullRequest) (rid : UUID) (pr : RemotePR) : Prop :=
  ∃ id row, pulls.get id = some row ∧ row.repositoryConnectionId = rid ∧
    row.prNumber = pr.number ∧ row.githubUpdatedAt = pr.updatedAt ∧
    (row.headSha ≠ pr.head.sha ∨ row.baseSha ≠ pr.base.sha)

/-! ## One element -/

variable {pulls pulls' : Table UUID PullRequest} {now : Instant} {wid rid : UUID}
  {generation : ℕ} {pr : RemotePR} {pid : UUID}

/-- An accepted element is older than its row, replaces it by a newer value, or
creates the first row of its number. -/
theorem upsert_stores (h : upsert pulls now wid rid generation pr pid = .ok pulls') :
    (pulls' = pulls ∧ ∃ id row, pulls.get id = some row ∧ row.repositoryConnectionId = rid ∧
        row.prNumber = pr.number ∧ pr.updatedAt < row.githubUpdatedAt) ∨
      (∃ id row, pulls.get id = some row ∧ Newer row (rowOf now wid rid generation pr) ∧
        pulls' = pulls.put id (rowOf now wid rid generation pr)) ∨
      pulls.get pid = none ∧ pulls' = pulls.put pid (rowOf now wid rid generation pr) ∧
        ∀ id row, pulls.get id = some row → row.repositoryConnectionId = rid →
          row.prNumber ≠ pr.number := by
  unfold upsert at h
  split at h
  · rename_i id row hfind
    obtain ⟨hget, hp⟩ := Table.find_spec hfind
    simp only [Bool.and_eq_true, decide_eq_true_eq] at hp
    split at h
    · rename_i holder
      exact .inl ⟨(Except.ok.inj h).symm, id, row, hget, hp.1, hp.2, holder⟩
    split at h
    · contradiction
    rename_i hnewer hsame
    split at h
    · contradiction
    refine .inr (.inl ⟨id, row, hget, ⟨hp.1.symm, hp.2.symm, not_lt.mp hnewer, ?_⟩,
      (Except.ok.inj h).symm⟩)
    intro hne
    refine lt_of_le_of_ne (not_lt.mp hnewer) fun heq => hsame ⟨heq, ?_⟩
    by_contra hshas
    push Not at hshas
    exact hne (Prod.ext hshas.1.symm hshas.2.symm)
  · rename_i hfind
    split at h
    · contradiction
    obtain ⟨hnone, rfl⟩ := (insertRow_eq_ok ..).mp h
    refine .inr (.inr ⟨hnone, rfl, ?_⟩)
    intro id row hget hrid hnumber
    have hmiss := (Table.find_eq_none_iff ..).mp hfind id row hget
    simp [hrid, hnumber] at hmiss

theorem upsert_keeps (h : upsert pulls now wid rid generation pr pid = .ok pulls') :
    pulls.Keeps Newer pulls' := by
  rcases upsert_stores h with
    ⟨rfl, -⟩ | ⟨id, row, hget, hnewer, rfl⟩ | ⟨hnone, rfl, -⟩
  · exact .refl Newer.refl _
  · refine Table.keeps_put Newer.refl fun row' hrow' => ?_
    obtain rfl := Option.some.inj (hget.symm.trans hrow')
    exact hnewer
  · exact Table.keeps_put Newer.refl fun row' hrow' => by simp [hnone] at hrow'

theorem upsert_numbered (hnumbered : Numbered pulls)
    (h : upsert pulls now wid rid generation pr pid = .ok pulls') : Numbered pulls' := by
  rcases upsert_stores h with
    ⟨rfl, -⟩ | ⟨id, row, hget, hnewer, rfl⟩ | ⟨hnone, rfl, hfresh⟩
  · exact hnumbered
  · intro id₁ row₁ id₂ row₂ h₁ h₂ hrid hnumber
    rw [Table.get_put_eq_some] at h₁ h₂
    rcases h₁ with ⟨rfl, rfl⟩ | ⟨hne₁, h₁⟩ <;> rcases h₂ with ⟨rfl, rfl⟩ | ⟨hne₂, h₂⟩
    · rfl
    · exact hnumbered _ _ _ _ hget h₂ (hnewer.repository.symm.trans hrid)
        (hnewer.number.symm.trans hnumber)
    · exact hnumbered _ _ _ _ h₁ hget (hrid.trans hnewer.repository)
        (hnumber.trans hnewer.number)
    · exact hnumbered _ _ _ _ h₁ h₂ hrid hnumber
  · intro id₁ row₁ id₂ row₂ h₁ h₂ hrid hnumber
    rw [Table.get_put_eq_some] at h₁ h₂
    rcases h₁ with ⟨rfl, rfl⟩ | ⟨hne₁, h₁⟩ <;> rcases h₂ with ⟨rfl, rfl⟩ | ⟨hne₂, h₂⟩
    · rfl
    · exact absurd hnumber.symm (hfresh _ _ h₂ hrid.symm)
    · exact absurd hnumber (hfresh _ _ h₁ hrid)
    · exact hnumbered _ _ _ _ h₁ h₂ hrid hnumber

/-- A conflicting element is not accepted. -/
theorem upsert_conflict (hnumbered : Numbered pulls) (hconflict : Conflicts pulls rid pr) :
    upsert pulls now wid rid generation pr pid = .error snapshotConflict := by
  obtain ⟨id, row, hget, hrid, hnumber, htime, hshas⟩ := hconflict
  unfold upsert
  split
  · rename_i id' row' hfind
    obtain ⟨hget', hp⟩ := Table.find_spec hfind
    simp only [Bool.and_eq_true, decide_eq_true_eq] at hp
    obtain rfl := hnumbered _ _ _ _ hget hget' (hrid.trans hp.1.symm) (hnumber.trans hp.2.symm)
    obtain rfl := Option.some.inj (hget.symm.trans hget')
    rw [if_neg (not_lt.mpr htime.le), if_pos ⟨htime, hshas⟩]
  · rename_i hfind
    have hmiss := (Table.find_eq_none_iff ..).mp hfind id row hget
    simp [hrid, hnumber] at hmiss

/-! ## A page -/

variable {ids : ℕ → UUID} {page earlier later : List RemotePR}

theorem upsertAll_keeps (h : upsertAll now wid rid generation ids page pulls = .ok pulls') :
    pulls.Keeps Newer pulls' := by
  induction page generalizing pulls ids with
  | nil =>
      obtain rfl := Except.ok.inj h
      exact .refl Newer.refl _
  | cons pr page ih =>
      obtain ⟨mid, hmid, hrest⟩ := (Tx.bind_eq_ok ..).mp h
      exact (upsert_keeps hmid).trans Newer.trans (ih hrest)

theorem upsertAll_numbered (hnumbered : Numbered pulls)
    (h : upsertAll now wid rid generation ids page pulls = .ok pulls') : Numbered pulls' := by
  induction page generalizing pulls ids with
  | nil =>
      obtain rfl := Except.ok.inj h
      exact hnumbered
  | cons pr page ih =>
      obtain ⟨mid, hmid, hrest⟩ := (Tx.bind_eq_ok ..).mp h
      exact ih (upsert_numbered hnumbered hmid) hrest

/-- A page is stored part by part. -/
theorem upsertAll_append :
    upsertAll now wid rid generation ids (earlier ++ later) pulls = .ok pulls' ↔
      ∃ mid, upsertAll now wid rid generation ids earlier pulls = .ok mid ∧
        upsertAll now wid rid generation (fun i => ids (i + earlier.length)) later mid =
          .ok pulls' := by
  induction earlier generalizing pulls ids with
  | nil => simp [upsertAll]
  | cons pr earlier ih =>
      simp only [List.cons_append, upsertAll, Tx.bind_eq_ok, ih, List.length_cons]
      constructor
      · rintro ⟨first, hfirst, mid, hmid, hrest⟩
        exact ⟨mid, ⟨first, hfirst, hmid⟩, by simpa only [Nat.add_assoc] using hrest⟩
      · rintro ⟨mid, ⟨first, hfirst, hmid⟩, hrest⟩
        exact ⟨first, hfirst, mid, hmid, by simpa only [Nat.add_assoc] using hrest⟩

/-- An element keeps the conflict of another one unless it is a newer element of the
same pull request. -/
theorem upsert_conflicts {pr' : RemotePR} (hconflict : Conflicts pulls rid pr')
    (hnumbered : Numbered pulls) (hstale : pr.number = pr'.number → pr.updatedAt ≤ pr'.updatedAt)
    (h : upsert pulls now wid rid generation pr pid = .ok pulls') : Conflicts pulls' rid pr' := by
  obtain ⟨id, row, hget, hrid, hnumber, htime, hshas⟩ := hconflict
  rcases upsert_stores h with
    ⟨rfl, -⟩ | ⟨id', row', hget', hnewer, rfl⟩ | ⟨hnone, rfl, -⟩
  · exact ⟨id, row, hget, hrid, hnumber, htime, hshas⟩
  · by_cases hid : id = id'
    · -- the element is one of the same pull request, hence of the same time and commits
      subst id'
      obtain rfl := Option.some.inj (hget.symm.trans hget')
      have hpr : pr.number = pr'.number := hnewer.number.trans hnumber
      have heq : row.githubUpdatedAt = pr.updatedAt :=
        le_antisymm hnewer.updated (htime ▸ hstale hpr)
      have hcommits : (pr.head.sha, pr.base.sha) = (row.headSha, row.baseSha) := by
        by_contra hne
        exact (hnewer.commits hne).ne heq
      obtain ⟨hhead, hbase⟩ := Prod.mk.inj hcommits
      refine ⟨id, _, Table.get_put_self .., rfl, hpr, heq.symm.trans htime, ?_⟩
      change pr.head.sha ≠ pr'.head.sha ∨ pr.base.sha ≠ pr'.base.sha
      rwa [hhead, hbase]
    · exact ⟨id, row, (Table.get_put_of_ne _ _ hid).trans hget, hrid, hnumber, htime, hshas⟩
  · have hid : id ≠ pid := by
      rintro rfl
      simp [hget] at hnone
    exact ⟨id, row, (Table.get_put_of_ne _ _ hid).trans hget, hrid, hnumber, htime, hshas⟩

theorem upsertAll_conflicts {pr' : RemotePR} (hconflict : Conflicts pulls rid pr')
    (hnumbered : Numbered pulls)
    (hstale : ∀ pr ∈ page, pr.number = pr'.number → pr.updatedAt ≤ pr'.updatedAt)
    (h : upsertAll now wid rid generation ids page pulls = .ok pulls') :
    Conflicts pulls' rid pr' := by
  induction page generalizing pulls ids with
  | nil =>
      obtain rfl := Except.ok.inj h
      exact hconflict
  | cons pr page ih =>
      obtain ⟨mid, hmid, hrest⟩ := (Tx.bind_eq_ok ..).mp h
      have hfirst := upsert_conflicts hconflict hnumbered (hstale pr (by simp)) hmid
      exact ih hfirst (upsert_numbered hnumbered hmid)
        (fun pr hpr => hstale pr (List.mem_cons_of_mem _ hpr)) hrest

/-- A page is not stored when one of its elements meets a row it conflicts with. -/
theorem upsertAll_conflict (hnumbered : Numbered pulls)
    (hmet : ∀ mid, upsertAll now wid rid generation ids earlier pulls = .ok mid →
      Conflicts mid rid pr) :
    upsertAll now wid rid generation ids (earlier ++ pr :: later) pulls ≠ .ok pulls' := by
  intro h
  obtain ⟨mid, hmid, hrest⟩ := upsertAll_append.mp h
  obtain ⟨next, hnext, -⟩ := (Tx.bind_eq_ok ..).mp hrest
  rw [upsert_conflict (upsertAll_numbered hnumbered hmid) (hmet mid hmid)] at hnext
  contradiction

end Sync

/-! ## Completions -/

namespace SyncWorker

open World

variable {now : Instant} {trace : Trace} {w : World}

/-- A completion stores the page it is given, or leaves every pull request alone. -/
theorem complete_pulls {db db' : Db} {c : Claim} {ids : ℕ → UUID} {o : SyncOutcome}
    {expired : Bool} (h : complete db c ids o expired = .ok db') :
    db'.pullRequests = db.pullRequests ∨ o.code = none ∧
      ∃ run, db.syncRuns.get c.aggregateId = some run ∧
        Sync.upsertAll db.now run.workspaceId run.repositoryConnectionId run.connectionGeneration
          ids o.rows db.pullRequests = .ok db'.pullRequests := by
  rcases complete_cases h with
    rfl | ⟨run, code, retry, job, job', run', pulls, connections, hget, hverdict, -, -, hstored,
      rfl⟩
  · exact .inl rfl
  · cases hstored with
    | page hpulls hrow => exact .inr ⟨(verdict_none hverdict).1, run, hget, hpulls⟩
    | refused code => exact .inl rfl

/-- A step leaves the pull requests alone or stores one page. -/
theorem step_stores (a : Action) (w : World) :
    (step a w).2.db.pullRequests = w.db.pullRequests ∨
      ∃ wid rid generation ids page,
        Sync.upsertAll w.db.now wid rid generation ids page w.db.pullRequests =
          .ok (step a w).2.db.pullRequests := by
  by_cases hquiet : Area.pullRequests ∉ touches a
  · exact .inl ((step_frame a w).pullRequests hquiet)
  cases a with
  | syncComplete c ids o expired =>
      simp only [step, World.commit]
      split
      · rename_i db' h
        rcases complete_pulls h with hsame | ⟨-, run, -, hpulls⟩
        · exact .inl hsame
        · exact .inr ⟨_, _, _, _, _, hpulls⟩
      · exact .inl rfl
  | _ => exact absurd (by simp [touches]) hquiet

theorem step_keeps (a : Action) (w : World) :
    w.db.pullRequests.Keeps Sync.Newer (step a w).2.db.pullRequests := by
  rcases step_stores a w with hsame | ⟨_, _, _, _, _, hpulls⟩
  · rw [hsame]
    exact .refl Sync.Newer.refl _
  · exact Sync.upsertAll_keeps hpulls

theorem run_numbered (h : World.Run now trace w) : Sync.Numbered w.db.pullRequests := by
  refine h.invariant (fun w => Sync.Numbered w.db.pullRequests) ?_ fun w a hnumbered _ => ?_
  · intro id row id' row' hget
    simp [World.initial, Db.empty] at hget
  · rcases step_stores a w with hsame | ⟨_, _, _, _, _, hpulls⟩
    · rwa [hsame]
    · exact Sync.upsertAll_numbered hnumbered hpulls

theorem path_keeps {w' : World} (h : World.Path w trace w') :
    w.db.pullRequests.Keeps Sync.Newer w'.db.pullRequests :=
  h.relates (fun _ => True) (fun w w' => w.db.pullRequests.Keeps Sync.Newer w'.db.pullRequests)
    (fun _ => .refl Sync.Newer.refl _) (fun _ _ _ => .trans Sync.Newer.trans) trivial
    (fun _ _ _ _ => trivial) (fun w a _ _ => step_keeps a w)

/-- The page of a completion conflicts: one of its elements contradicts the row that
the earlier ones left for its pull request. -/
def Contradicted (db : Db) (run : PullRequestSyncRun) (ids : ℕ → UUID) (page : List RemotePR) :
    Prop :=
  ∃ earlier pr later, page = earlier ++ pr :: later ∧
    ∀ mid, Sync.upsertAll db.now run.workspaceId run.repositoryConnectionId
      run.connectionGeneration ids earlier db.pullRequests = .ok mid →
      Sync.Conflicts mid run.repositoryConnectionId pr

/-- A row that is stored before the page and contradicts an element is met by it,
unless an earlier element of the page is a newer one of the same pull request. -/
theorem contradicted_of_stored {run : PullRequestSyncRun} {ids : ℕ → UUID}
    {earlier later : List RemotePR} {pr : RemotePR} (h : World.Run now trace w)
    (hconflict : Sync.Conflicts w.db.pullRequests run.repositoryConnectionId pr)
    (hstale : ∀ pr' ∈ earlier, pr'.number = pr.number → pr'.updatedAt ≤ pr.updatedAt) :
    Contradicted w.db run ids (earlier ++ pr :: later) :=
  ⟨earlier, pr, later, rfl, fun _ hmid =>
    Sync.upsertAll_conflicts hconflict (run_numbered h) hstale hmid⟩

theorem contradicted_unchanged (h : World.Run now trace w) {c : Claim} {ids : ℕ → UUID}
    {o : SyncOutcome} {expired : Bool} {run : PullRequestSyncRun}
    (hrun : w.db.syncRuns.get c.aggregateId = some run) (hpage : Contradicted w.db run ids o.rows) :
    (step (.syncComplete c ids o expired) w).2.db.pullRequests = w.db.pullRequests := by
  obtain ⟨earlier, pr, later, hrows, hmet⟩ := hpage
  simp only [step, World.commit]
  split
  · rename_i db' hbody
    rcases complete_pulls hbody with hsame | ⟨-, run', hrun', hpulls⟩
    · exact hsame
    · obtain rfl := Option.some.inj (hrun.symm.trans hrun')
      rw [hrows] at hpulls
      exact absurd hpulls (Sync.upsertAll_conflict (run_numbered h) hmet)
  · rfl

/-- The rows that are stored in a state stay as fresh as they are. -/
structure StayFresh (w : World) : Prop where
  /-- Time does not go back, and commits change only together with a larger time. -/
  newer : ∀ later w', World.Path w later w' → ∀ pid row, w.db.pullRequests.get pid = some row →
    ∃ row', w'.db.pullRequests.get pid = some row' ∧
      row'.repositoryConnectionId = row.repositoryConnectionId ∧
      row'.prNumber = row.prNumber ∧ row.githubUpdatedAt ≤ row'.githubUpdatedAt ∧
      ((row'.headSha, row'.baseSha) ≠ (row.headSha, row.baseSha) →
        row.githubUpdatedAt < row'.githubUpdatedAt)
  /-- A page that conflicts leaves every row alone. -/
  contradicted : ∀ c ids o expired run, w.db.syncRuns.get c.aggregateId = some run →
    Contradicted w.db run ids o.rows →
    (step (.syncComplete c ids o expired) w).2.db.pullRequests = w.db.pullRequests
  /-- So does one that conflicts with a row from before it. -/
  conflicting : ∀ c ids o expired run earlier pr later,
    w.db.syncRuns.get c.aggregateId = some run → o.rows = earlier ++ pr :: later →
    Sync.Conflicts w.db.pullRequests run.repositoryConnectionId pr →
    (∀ pr' ∈ earlier, pr'.number = pr.number → pr'.updatedAt ≤ pr.updatedAt) →
    (step (.syncComplete c ids o expired) w).2.db.pullRequests = w.db.pullRequests
  /-- And so does a completion that records a failure. -/
  failed : ∀ c ids o expired, o.code ≠ none →
    (step (.syncComplete c ids o expired) w).2.db.pullRequests = w.db.pullRequests

/-- In every reachable state the stored rows stay fresh. -/
theorem rows_stay_fresh (h : World.Run now trace w) : StayFresh w where
  newer later w' hpath pid row hget := by
    obtain ⟨row', hget', hnewer⟩ := path_keeps hpath pid row hget
    exact ⟨row', hget', hnewer.repository, hnewer.number, hnewer.updated, hnewer.commits⟩
  contradicted c ids o expired run hrun hpage := contradicted_unchanged h hrun hpage
  conflicting c ids o expired run earlier pr later hrun hrows hconflict hstale := by
    refine contradicted_unchanged h hrun ?_
    rw [hrows]
    exact contradicted_of_stored h hconflict hstale
  failed c ids o expired hcode := by
    simp only [step, World.commit]
    split
    · rename_i db' hbody
      rcases complete_pulls hbody with hsame | ⟨hnone, -⟩
      · exact hsame
      · exact absurd hnone hcode
    · rfl

/-! ## An execution -/

/-- A pull request as a page lists it. -/
def listed (number : ℕ) (head : Char) (updatedAt : Instant) : RemotePR where
  id := number
  number := number
  title := "title"
  user := none
  state := .opened
  draft := false
  base := ⟨some "main", some "0000000000000000000000000000000000000000"⟩
  head := ⟨some "topic", some (String.ofList (List.replicate 40 head))⟩
  createdAt := 0
  updatedAt := updatedAt
  closedAt := none
  mergedAt := none
  merged := none
  changedFiles := none
  commits := none

def pageOf (rows : List RemotePR) : SyncOutcome := ⟨rows, none, false, 5, none, false⟩

/-- The first synchronization stores pull request 7; the next one is running. -/
def refreshing : List Action :=
  Lifecycle.syncing ++ [
    .syncComplete (Lifecycle.syncClaim 1 "first") id (pageOf [listed 7 'a' 5]) false,
    .sync 2 1 3 1 none 30 31, .claim "first" [.syncPullRequests] [], .syncBegin lookClaim]

/-- A page that lists another pull request first and contradicts number 7 stores neither. -/
theorem rows_stay_fresh_refreshing :
    (step (.syncComplete lookClaim (· + 40) (pageOf [listed 8 'c' 6, listed 7 'b' 5]) false)
      (Lifecycle.reach refreshing)).2.db.pullRequests =
        (Lifecycle.reach refreshing).db.pullRequests := by
  have hrun : World.Run 0 _ (Lifecycle.reach refreshing) :=
    Transition.exec_run (World.initial 0) refreshing (by decide +kernel)
  have hsync : ((Lifecycle.reach refreshing).db.syncRuns.get 30).isSome = true := by
    decide +kernel
  obtain ⟨run, hget⟩ := Option.isSome_iff_exists.mp hsync
  have hconnection : ((Lifecycle.reach refreshing).db.syncRuns.get 30).map
      (·.repositoryConnectionId) = some 3 := by decide +kernel
  rw [hget] at hconnection
  have hpull : ((Lifecycle.reach refreshing).db.pullRequests.get 0).map
      (fun row => (row.repositoryConnectionId, row.prNumber, row.githubUpdatedAt, row.headSha)) =
        some (3, 7, 5, some (String.ofList (List.replicate 40 'a'))) := by decide +kernel
  obtain ⟨row, hrow, hvalues⟩ := Option.map_eq_some_iff.mp hpull
  simp only [Prod.mk.injEq] at hvalues
  obtain ⟨hrid, hnumber, htime, hhead⟩ := hvalues
  refine (rows_stay_fresh hrun).conflicting lookClaim _ _ false run [listed 8 'c' 6]
    (listed 7 'b' 5) [] hget rfl ⟨0, row, hrow, ?_, hnumber, htime, .inl ?_⟩ (by simp [listed])
  · rw [hrid, ← Option.some.inj hconnection]
  · rw [hhead]
    decide

end SyncWorker

end Prism
