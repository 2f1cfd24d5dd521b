import Prism.Verification.Sync.Conditional

/-! Completing a synchronization whose page was not modified leaves the database as storing the
whole page again would. -/

namespace Prism.SyncWorker

open World

/-- The outcome of a fetch that is answered with status 304. -/
def unchanged (tag : String) : SyncOutcome :=
  ⟨[], none, false, 5, some tag, true⟩

/-- The outcome of a fetch that is answered with the rows under a tag. -/
def whole (tag : String) (rows : List RemotePR) : SyncOutcome :=
  ⟨rows, none, false, 5, some tag, false⟩

/-- A run without the number of elements its last page had. -/
def uncounted (run : PullRequestSyncRun) : PullRequestSyncRun :=
  { run with fetchedCount := 0 }

/-- Two databases differ at most in the values that rows of the same version have besides, and in
how many elements a run has fetched. -/
def Alike (db db' : Db) : Prop :=
  (∃ pulls syncRuns, db' = { db with pullRequests := pulls, syncRuns := syncRuns }) ∧
    Sync.SameVersions db.pullRequests db'.pullRequests ∧
    ∀ sid, (db'.syncRuns.get sid).map uncounted = (db.syncRuns.get sid).map uncounted

theorem Alike.refl (db : Db) : Alike db db :=
  ⟨⟨_, _, rfl⟩, fun _ => rfl, fun _ => rfl⟩

private theorem ok_then {α β : Type} (a : α) (f : α → Tx β) : (.ok a : Tx α) >>= f = f a :=
  rfl

private theorem error_then {α β : Type} (e : Failure) (f : α → Tx β) :
    (.error e : Tx α) >>= f = .error e :=
  rfl

section Completion

variable {db db' : Db} {c : Claim} {ids ids' : ℕ → UUID} {run : PullRequestSyncRun}
  {tag : String} {rows : List RemotePR} {expired : Bool}

/-- The run remembers the same, whichever of the two answers it is given. -/
theorem closed_alike (now : Instant) (job : Job) (hmode : run.mode ≠ .single)
    (hnext : run.nextCursor = pageAfter run rows) :
    uncounted (closed now (fetched now run (whole tag rows)) job none) =
      uncounted (closed now (fetched now run (unchanged tag)) job none) := by
  have hwhole : (fetched now run (whole tag rows)).nextCursor =
      (fetched now run (unchanged tag)).nextCursor := by
    simp [fetched, whole, unchanged, hnext, pageAfter, hmode]
  simp only [uncounted, closed, fetched] at hwhole ⊢
  rw [hwhole]
  rfl

theorem verdict_granted {code : Option Code} {retry retry' : Bool}
    (h : verdict db run code retry = .ok (none, retry')) :
    ∃ repo, access db run = .ok repo ∧ repo.connectionGeneration = run.connectionGeneration := by
  unfold verdict at h
  split at h
  · rename_i repo hrepo
    split at h
    · simp at h
    · rename_i hgen
      exact ⟨repo, hrepo, not_not.mp hgen⟩
  · split at h
    · simp at h
    · contradiction

/-- Where what the body lists is stored already, storing it again changes no version. -/
theorem storePage_alike (hnumbered : Sync.Numbered db.pullRequests)
    (hcurrent : ∀ pr ∈ rows, Sync.Current db.pullRequests run.repositoryConnectionId pr)
    (ids' : ℕ → UUID) {answer : PullRequestSyncRun × Db}
    (h : storePage db run ids (unchanged tag) = .ok answer) :
    ∃ connections,
      answer = (fetched db.now run (unchanged tag), { db with connections := connections }) ∧
        (storePage db run ids' (whole tag rows) = .error .integrityError ∨
          ∃ pulls, storePage db run ids' (whole tag rows) =
              .ok (fetched db.now run (whole tag rows),
                { db with pullRequests := pulls, connections := connections }) ∧
            Sync.SameVersions db.pullRequests pulls) := by
  obtain ⟨pulls, hnone, h⟩ := (Tx.bind_eq_ok ..).mp h
  obtain rfl := Except.ok.inj hnone
  obtain ⟨connections, hsuccess, h⟩ := (Tx.bind_eq_ok ..).mp h
  refine ⟨connections, (Except.ok.inj h).symm, ?_⟩
  rcases @Sync.upsertAll_again _ db.now run.workspaceId _ run.connectionGeneration rows ids'
    hnumbered hcurrent with hrefused | ⟨pulls, hpulls, hsame⟩
  · left
    simp [storePage, whole, hrefused, bind, Except.bind]
  · refine .inr ⟨pulls, ?_, hsame⟩
    simp [storePage, whole, hpulls, hsuccess, bind, Except.bind]

/-- Completing with such a body does what completing without modification does. -/
theorem complete_alike (hnumbered : Sync.Numbered db.pullRequests)
    (hrun : db.syncRuns.get c.aggregateId = some run) (hmode : run.mode ≠ .single)
    (hstored : ∀ repo, access db run = .ok repo →
      repo.connectionGeneration = run.connectionGeneration →
      run.nextCursor = pageAfter run rows ∧
        ∀ pr ∈ rows, Sync.Current db.pullRequests run.repositoryConnectionId pr)
    (h : complete db c ids (unchanged tag) expired = .ok db') :
    complete db c ids' (whole tag rows) expired = .error .integrityError ∨
      ∃ db'', complete db c ids' (whole tag rows) expired = .ok db'' ∧ Alike db' db'' := by
  simp only [complete, hrun, unchanged, Tx.bind_eq_ok] at h
  simp only [complete, hrun]
  obtain ⟨⟨code, retry⟩, hverdict, h⟩ := h
  rw [show verdict db run (whole tag rows).code (whole tag rows).retry = .ok (code, retry) from
    hverdict, ok_then]
  simp only at h ⊢
  cases hfence : Jobs.fence db.jobs db.now c expired with
  | none =>
      simp only [hfence] at h
      obtain rfl := Except.ok.inj h
      exact .inr ⟨db, rfl, .refl db⟩
  | some job =>
      simp only [hfence] at h
      cases code with
      | some code => exact .inr ⟨db', h, .refl db'⟩
      | none =>
          obtain ⟨repo, haccess, hgen⟩ := verdict_granted hverdict
          obtain ⟨hnext, hcurrent⟩ := hstored repo haccess hgen
          simp only [if_true] at h ⊢
          obtain ⟨answer, hanswer, h⟩ := (Tx.bind_eq_ok ..).mp h
          obtain ⟨connections, rfl, hwhole⟩ :=
            storePage_alike hnumbered hcurrent ids' hanswer
          obtain ⟨job', hfinish, h⟩ := (Tx.bind_eq_ok ..).mp h
          obtain rfl := Except.ok.inj h
          rcases hwhole with hrefused | ⟨pulls, hpulls, hsame⟩
          · left
            rw [hrefused, error_then]
          · right
            rw [hpulls, ok_then, show Jobs.finish db.now job none retry (whole tag rows).delay =
              .ok job' from hfinish, ok_then]
            refine ⟨_, rfl, ⟨pulls, _, rfl⟩, hsame, fun sid => ?_⟩
            simp only [Table.get_put]
            split
            · exact congrArg some (closed_alike db.now job' hmode hnext)
            · rfl

end Completion

/-! ## Runs -/

variable {u : Upstream} {now : Instant} {trace : Trace} {w : World}

/-- A completion whose page was not modified keeps the tag of its run, or the body it was answered
with is `null`. -/
theorem fetches_unmodified (h : World.Run now trace w) (hserved : Served u trace) {c : Claim}
    {o : SyncOutcome} {run : PullRequestSyncRun} {r : RepositoryConnection}
    (hfetches : Fetches u trace c o) (hheld : Held w.db c)
    (hrun : w.db.syncRuns.get c.aggregateId = some run) (hmode : run.mode ≠ .single)
    (hr : w.db.connections.get run.repositoryConnectionId = some r)
    (hgen : r.connectionGeneration = run.connectionGeneration) (hkept : o.notModified = true) :
    o = fetchedOutcome ⟨[], run.etag, true⟩ ∨
      ∀ tag, o.etag = some tag → tag ≠ "" → u.body (pageAsked r run) tag = .null := by
  obtain ⟨e, he, hact, plan, db, hbegin, g, hserves, page, hpage, rfl⟩ := hfetches
  obtain ⟨run', r', hrun', hr', -, hplan, hpageNo, hnumber, hsent⟩ :=
    run_offered h he hact hbegin hheld
  obtain rfl := Option.some.inj (hrun.symm.trans hrun')
  obtain rfl := Option.some.inj (hr.symm.trans hr')
  have hlist : plan.number.getD 0 = 0 := by
    rw [hnumber]
    exact (run_coherent h hserved _ run hrun).1 hmode
  have hasked : GitHubClient.asked plan = pageAsked r run := by
    rw [GitHubClient.asked, if_neg (by simp [hlist]), pageAsked, (hplan hgen).1, (hplan hgen).2,
      hpageNo]
  rcases Upstream.fetch_answers hserves hlist hpage with rfl | hanswer
  · exact .inl (by rw [hsent])
  · right
    intro tag htag hne
    rcases hanswer tag htag hne with hnull | ⟨-, hmodified⟩
    · exact hasked ▸ hnull
    · exact absurd (hmodified.symm.trans hkept) (by simp)

/-- Along every execution whose pages were fetched from an upstream where a tag determines the
body, each run for a page has what is listed under its tag stored and knows the page that follows.
A completion that is told that nothing was modified is told so about the tag of its run, and does
what storing the body under this tag would do. -/
theorem conditional_sync_refetches (h : World.Run now trace w) (hserved : Served u trace) :
    (∀ sid run tag r, w.db.syncRuns.get sid = some run → run.mode ≠ .single →
      run.etag = some tag → tag ≠ "" →
      w.db.connections.get run.repositoryConnectionId = some r →
      r.connectionGeneration = run.connectionGeneration →
      Reflects u w.db.pullRequests r run tag) ∧
    (∀ c o run r, Fetches u trace c o → Held w.db c →
      w.db.syncRuns.get c.aggregateId = some run → run.mode ≠ .single →
      w.db.connections.get run.repositoryConnectionId = some r →
      r.connectionGeneration = run.connectionGeneration → o.notModified = true →
      o = fetchedOutcome ⟨[], run.etag, true⟩ ∨
        ∀ tag, o.etag = some tag → tag ≠ "" → u.body (pageAsked r run) tag = .null) ∧
    ∀ c ids ids' expired run tag r rows db', w.db.syncRuns.get c.aggregateId = some run →
      run.mode ≠ .single → run.etag = some tag → tag ≠ "" →
      w.db.connections.get run.repositoryConnectionId = some r →
      u.listed (u.body (pageAsked r run) tag) = some rows →
      complete w.db c ids (unchanged tag) expired = .ok db' →
      complete w.db c ids' (whole tag rows) expired = .error .integrityError ∨
        ∃ db'', complete w.db c ids' (whole tag rows) expired = .ok db'' ∧ Alike db' db'' := by
  have hcoherent := run_coherent h hserved
  refine ⟨?_, ?_, ?_⟩
  · intro sid run tag r hrun hmode htag hne hr hgen
    exact (hcoherent sid run hrun).2 tag r hmode htag hne hr hgen
  · intro c o run r hfetches hheld hrun hmode hr hgen hkept
    exact fetches_unmodified h hserved hfetches hheld hrun hmode hr hgen hkept
  · intro c ids ids' expired run tag r rows db' hrun hmode htag hne hr hrows hcomplete
    refine complete_alike (run_numbered h) hrun hmode (fun repo haccess hgen => ?_) hcomplete
    obtain ⟨r', hr', rfl⟩ := access_snapshot haccess
    obtain rfl := Option.some.inj (hr.symm.trans hr')
    rcases (hcoherent _ run hrun).2 tag r hmode htag hne hr hgen with
      hnull | ⟨rows', hlisted, hnext, hcurrent⟩
    · simp [hnull, Upstream.listed] at hrows
    · obtain rfl := Option.some.inj (hrows.symm.trans hlisted)
      exact ⟨hnext, hcurrent⟩

/-! ## An execution -/

/-- The action completes no synchronization with a page. -/
def quiet : Action → Bool
  | .syncComplete _ _ o _ => o.code.isSome
  | _ => true

/-- Actions without pages need no fetch. -/
theorem served_quiet {s : World} {actions : List Action} {earlier : Trace}
    (h : actions.all quiet = true) (hserved : Served u earlier) :
    Served u (Transition.events step s actions ++ earlier) := by
  induction actions generalizing s earlier with
  | nil => exact hserved
  | cons a actions ih =>
      obtain ⟨ha, hrest⟩ := Bool.and_eq_true _ _ ▸ h
      rw [Transition.events, List.append_assoc]
      refine ih hrest ⟨fun c ids o expired hact hcode => ?_, hserved⟩
      obtain rfl : a = .syncComplete c ids o expired := hact
      simp [quiet, hcode] at ha

/-- A pull request as GitHub lists it. -/
def element : Json :=
  let ref (sha : Char) (name : String) : Json :=
    .obj [("ref".toList, .str name.toList), ("sha".toList, .str (List.replicate 40 sha))]
  .obj [("id".toList, .int 7), ("number".toList, .int 7), ("title".toList, .str "title".toList),
    ("user".toList, .null), ("state".toList, .str "open".toList), ("draft".toList, .bool false),
    ("base".toList, ref '0' "main"), ("head".toList, ref 'a' "topic"),
    ("created_at".toList, .str "1970-01-01T00:00:00Z".toList),
    ("updated_at".toList, .str "1970-01-01T00:00:00.000005Z".toList)]

/-- The validator of elements, as far as this one is told from others. -/
def readElement : Json → Option RemotePR
  | .obj ms =>
    match ms.lookup "number".toList with
    | some (.int 7) => some (listed 7 'a' 5)
    | _ => none
  | _ => none

/-- GitHub grants the token and lists pull request 7 under one tag. -/
def listing : GitHubClient where
  githubAppReady := true
  signs := true
  time := 0
  network
    | .accessTokens _ _ => .response
      ⟨201, none, none, none, none,
        .content 13 (some (.obj [(['t', 'o', 'k', 'e', 'n'], .str ['t'])]))⟩
    | _ => .response ⟨200, none, none, none, some "v1", .content 300 (some (.arr [element]))⟩
  remotePR := readElement

def listingUpstream : Upstream where
  body _ _ := .arr [element]
  remotePR := readElement

theorem listing_serves (asked : Request) (hasked : ∀ i r, asked ≠ .accessTokens i r) :
    listingUpstream.Serves listing asked where
  remotePR := rfl
  body := by
    intro r tag size data hreply _ _ _ hbody
    have hr : r =
        ⟨200, none, none, none, some "v1", .content 300 (some (.arr [element]))⟩ := by
      cases asked with
      | accessTokens i r => exact absurd rfl (hasked i r)
      | pulls owner name page => exact (Reply.response.inj hreply).symm
      | pull owner name number => exact (Reply.response.inj hreply).symm
    subst hr
    exact (Option.some.inj (Body.content.inj hbody).2).symm

/-- A worker leases the first synchronization. -/
def leased : List Action :=
  Lifecycle.connecting ++ [.claim "first" [.syncPullRequests] []]

/-- After the first page is stored, the same synchronization is asked for again and begun. -/
def revalidating : List Action :=
  [.sync 2 1 3 1 none 30 31, .claim "first" [.syncPullRequests] [], .syncBegin lookClaim]

def firstPage : Action :=
  .syncComplete (Lifecycle.syncClaim 1 "first") id (whole "v1" [listed 7 'a' 5]) false

/-- The state before the first page, after it, and when the synchronization runs again. -/
def begun : World := (step (.syncBegin (Lifecycle.syncClaim 1 "first")) (Lifecycle.reach leased)).2

def stored : World := (step firstPage begun).2

def rerunning : World := Transition.run step stored revalidating

/-- What the first synchronization fetches by. -/
def firstPlan : FetchPlan :=
  ⟨⟨3, 1, 7, 9, "acme", "shop", .active, 1, none⟩, 1, none, none⟩

theorem rerunning_run : ∃ trace, World.Run 0 trace rerunning ∧ Served listingUpstream trace := by
  have hleased : World.Run 0 _ (Lifecycle.reach leased) :=
    Transition.exec_run (World.initial 0) leased (by decide +kernel)
  have hbegun := hleased.snoc (.syncBegin (Lifecycle.syncClaim 1 "first")) (by decide +kernel)
  have hstored := hbegun.snoc firstPage (by decide +kernel)
  have hrun := hstored.trans (Transition.exec_run _ revalidating (by decide +kernel))
  have hquiet := @served_quiet listingUpstream (World.initial 0) leased [] (by rfl) trivial
  rw [List.append_nil] at hquiet
  refine ⟨_, hrun, served_quiet (by rfl) ⟨fun c ids o expired hact _ => ?_,
    ⟨fun c ids o expired hact => ?_, hquiet⟩⟩⟩
  · obtain ⟨rfl, -, rfl, -⟩ := Action.syncComplete.inj hact
    have hplan : (begin (Lifecycle.reach leased).db (Lifecycle.syncClaim 1 "first")).toOption.bind
        Prod.fst = some firstPlan := by decide +kernel
    obtain ⟨⟨plan, db⟩, hbegin, hfirst⟩ := Option.bind_eq_some_iff.mp hplan
    have hok : begin (Lifecycle.reach leased).db (Lifecycle.syncClaim 1 "first") =
        .ok (some firstPlan, db) := by
      cases hx : begin (Lifecycle.reach leased).db (Lifecycle.syncClaim 1 "first") with
      | error f => simp [hx, Except.toOption] at hbegin
      | ok answer =>
          simp only [hx, Except.toOption, Option.some.injEq] at hbegin
          rw [hbegin, ← hfirst]
    refine ⟨_, List.mem_cons_self, rfl, firstPlan, db, hok, listing,
      listing_serves (.pulls "acme" "shop" 1) (fun i r h => by cases h),
      ⟨[listed 7 'a' 5], some "v1", false⟩, ?_, rfl⟩
    rfl
  · cases hact

/-- The page a second synchronization asks for again under its tag is stored. -/
theorem conditional_sync_refetches_listing : ∃ run r, rerunning.db.syncRuns.get 30 = some run ∧
    run.status = .running ∧ Reflects listingUpstream rerunning.db.pullRequests r run "v1" := by
  obtain ⟨trace, hrun, hserved⟩ := rerunning_run
  have hvalues : (rerunning.db.syncRuns.get 30).map (fun run => (run.status, run.mode, run.etag,
      run.repositoryConnectionId, run.connectionGeneration)) =
        some (.running, .recent, some "v1", 3, 1) := by decide +kernel
  have hconnection : (rerunning.db.connections.get 3).map (·.connectionGeneration) = some 1 := by
    decide +kernel
  obtain ⟨run, hget, hvalues⟩ := Option.map_eq_some_iff.mp hvalues
  obtain ⟨r, hr, hgen⟩ := Option.map_eq_some_iff.mp hconnection
  simp only [Prod.mk.injEq] at hvalues
  obtain ⟨hstatus, hmode, hetag, hrid, hrgen⟩ := hvalues
  exact ⟨run, r, hget, hstatus, (conditional_sync_refetches hrun hserved).1 30 run "v1" r hget
    (by simp [hmode]) hetag (by decide) (hrid ▸ hr) (hgen.trans hrgen.symm)⟩

end Prism.SyncWorker
