import Prism.Verification.Connection.Trace
import Prism.Verification.Lifecycle.Trace
import Prism.Verification.Sync.Cache

/-! A conditional synchronization is as good as fetching again. As long as a tag determines the
body of its URL, a run that remembers a tag has the pull requests of that body stored, and the
page that follows it. -/

namespace Prism

open GitHubClient

/-- What GitHub serves: the body of a URL under a tag, and an element of a list as a worker
reads it. -/
structure Upstream where
  body : Request → String → Json
  remotePR : Json → Option RemotePR

namespace Upstream

variable {u : Upstream} {g : GitHubClient} {plan : FetchPlan}

/-- The pull requests a body lists. -/
def listed (u : Upstream) : Json → Option (List RemotePR)
  | .arr items => if 30 < items.length then none else items.mapM u.remotePR
  | _ => none

/-- The answers of the client to a request are the bodies of their tags. -/
structure Serves (u : Upstream) (g : GitHubClient) (asked : Request) : Prop where
  remotePR : g.remotePR = u.remotePR
  body : ∀ r tag size data, g.network asked = .response r → r.status ≠ 304 →
    r.etag = some tag → tag ≠ "" → r.body = .content size (some data) → data = u.body asked tag

/-! ## Answers -/

theorem bind_result {α β : Type} {x : Http α} {f : α → Http β} {b : β}
    (h : (x >>= f).result = .ok b) : ∃ a, x.result = .ok a ∧ (f a).result = .ok b := by
  cases hx : x.result with
  | error e =>
      rw [Http.bind_error f hx] at h
      contradiction
  | ok a =>
      rw [Http.bind_ok f hx] at h
      exact ⟨a, rfl, h⟩

/-- An accepted answer is the tag that was sent, or a body with its own tag. -/
theorem accept_cases {time : ℤ} {etag tag : Option String} {r : Response} {data : Json}
    (h : GitHub.accept time etag true r = .ok (data, tag)) :
    (data = .null ∧ tag = etag) ∨ r.status ≠ 304 ∧ (∃ size, r.body = .content size (some data)) ∧
      tag = r.etag.filter fun tag => tag.length ≤ 512 := by
  unfold GitHub.accept at h
  split at h
  · split at h
    · obtain ⟨rfl, rfl⟩ := Prod.mk.inj (Except.ok.inj h)
      exact .inl ⟨rfl, rfl⟩
    · contradiction
  rename_i hstatus
  split at h
  · contradiction
  split at h
  · contradiction
  unfold GitHub.received at h
  split at h
  · contradiction
  split at h
  · contradiction
  split at h
  · contradiction
  rename_i size body hbody
  split at h
  · contradiction
  split at h
  · contradiction
  · obtain ⟨rfl, rfl⟩ := Prod.mk.inj (Except.ok.inj h)
    exact .inr ⟨fun h304 => hstatus ⟨h304, rfl⟩, ⟨size, hbody⟩, rfl⟩

/-- A fetch for a page of the list keeps the tag that was sent, or brings the rows of the body
under the new one; the body `null` brings none. -/
theorem fetch_answers {page : Fetched} (hserves : u.Serves g (asked plan))
    (hnumber : plan.number.getD 0 = 0) (h : (g.fetch plan).result = .ok page) :
    page = ⟨[], plan.etag, true⟩ ∨
      ∀ tag, page.etag = some tag → tag ≠ "" →
        (u.body (asked plan) tag = .null ∨
          u.listed (u.body (asked plan) tag) = some page.rows ∧ page.notModified = false) := by
  obtain ⟨token, -, h⟩ := bind_result h
  obtain ⟨⟨data, tag⟩, hrequest, hpage⟩ := bind_result h
  rw [request_eq] at hrequest
  cases hreply : g.network (asked plan) with
  | timeout => simp [hreply] at hrequest
  | httpError => simp [hreply] at hrequest
  | response r =>
      simp only [hreply] at hrequest
      have haccept : GitHub.accept g.time plan.etag true r = .ok (data, tag) := by
        cases hr : GitHub.accept g.time plan.etag true r with
        | error e => simp [hr, Except.mapError] at hrequest
        | ok answer => simpa [hr, Except.mapError] using hrequest
      rcases accept_cases haccept with ⟨rfl, rfl⟩ | ⟨hstatus, ⟨size, hbody⟩, htag⟩
      · left
        exact (Except.ok.inj hpage).symm
      right
      intro tag' htag' hne
      have hheader : tag = some tag' → r.etag = some tag' := by
        intro heq
        exact (Option.filter_eq_some_iff.mp (htag.symm.trans heq)).1
      simp only [pageFrom] at hpage
      split at hpage
      · obtain rfl := Except.ok.inj hpage
        exact .inl (hserves.body r tag' size _ hreply hstatus (hheader htag') hne hbody).symm
      · split at hpage
        · simp [Http.fail] at hpage
        · rename_i hrows
          obtain rfl := Except.ok.inj hpage
          right
          rw [← hserves.body r tag' size _ hreply hstatus (hheader htag') hne hbody]
          refine ⟨?_, rfl⟩
          rw [rowsOf, if_neg (by simp [hnumber])] at hrows
          rw [← hrows, hserves.remotePR]
          rfl

end Upstream

namespace SyncWorker

open World

/-! ## Plans -/

/-- The plan a worker fetches by is the request of its run, and sends the tag the run remembers. -/
def Offered (db : Db) (c : Claim) (plan : FetchPlan) : Prop :=
  ∃ run r, db.syncRuns.get c.aggregateId = some run ∧
    db.connections.get run.repositoryConnectionId = some r ∧
    run.connectionGeneration ≤ r.connectionGeneration ∧
    (r.connectionGeneration = run.connectionGeneration →
      plan.repo.ownerLogin = r.ownerLogin ∧ plan.repo.repositoryName = r.repositoryName) ∧
    plan.page = run.requestCursor.getD 1 ∧ plan.number = run.requestedPrNumber ∧
    plan.etag = run.etag

theorem access_snapshot {db : Db} {run : PullRequestSyncRun} {repo : RepositorySnapshot}
    (h : access db run = .ok repo) : ∃ r, db.connections.get run.repositoryConnectionId = some r ∧
      repo = snapshot run.repositoryConnectionId r := by
  unfold access at h
  split at h
  · obtain ⟨r, hget, -, -, -, hrepo⟩ := requireEvent_eq_ok h
    exact ⟨r, hget, hrepo⟩
  · obtain ⟨uid, -, h⟩ := (Tx.bind_eq_ok ..).mp h
    obtain ⟨r, hr, hrepo⟩ := requireRepository_eq_ok h
    exact ⟨r, (access_eq_ok hr).2.1, hrepo⟩

theorem begin_offered {db db' : Db} {c : Claim} {plan : FetchPlan}
    (h : begin db c = .ok (some plan, db')) : Offered db' c plan := by
  rcases begin_cases h with ⟨hnone, -⟩ | ⟨run, repo, job, hrun, haccess, hgen, -, hplan, rfl⟩
  · contradiction
  obtain rfl := Option.some.inj hplan
  obtain ⟨r, hget, rfl⟩ := access_snapshot haccess
  exact ⟨started db.now run, r, Table.get_put_self .., hget, hgen.ge, fun _ => ⟨rfl, rfl⟩, rfl,
    rfl, rfl⟩

/-- The lease of the claim has not been given up or taken over. -/
def Held (db : Db) (c : Claim) : Prop :=
  ∃ job, db.jobs.get c.id = some job ∧ job.state = .leased ∧ job.leaseGeneration = c.generation

theorem fence_held {db : Db} {c : Claim} {expired : Bool} {job : Job}
    (h : Jobs.fence db.jobs db.now c expired = some job) : Held db c := by
  obtain ⟨hget, hstate, hgen, -⟩ := Jobs.fence_eq_some.mp h
  exact ⟨job, hget, hstate, hgen⟩

variable {now : Instant} {trace : Trace} {w : World} {a : Action}

/-- A lease that is held now was held before. -/
theorem held_before (hsound : Lifecycle.Sound (Lifecycle.board w)) (ha : World.allowed a w)
    {c : Claim} (hc : c ∈ w.issued) (h : Held (step a w).2.db c) : Held w.db c := by
  obtain ⟨job', hget', hstate', hgen'⟩ := h
  obtain ⟨job, hget, hgranted⟩ := hsound.granted c hc
  obtain ⟨job'', hget'', hlater⟩ :=
    (hsound.later_moves (Lifecycle.step_moves w a hsound ha)).jobs c.id job hget
  obtain rfl := Option.some.inj (hget'.symm.trans hget'')
  have hgen : job.leaseGeneration = c.generation :=
    le_antisymm (hgen' ▸ hlater.generation_le) hgranted.generation_le
  refine ⟨job, hget, ?_, hgen⟩
  by_contra hidle
  exact hlater.idle hidle (hgen'.trans hgen.symm) hstate'

/-- Only the completion of the run itself changes what it remembers, and it ends the lease. -/
theorem remembers_while_held (hsound : Lifecycle.Sound (Lifecycle.board w))
    (ha : World.allowed a w) {c : Claim} (hc : c ∈ w.issued) (hkind : c.kind = .syncPullRequests)
    (hheld : Held (step a w).2.db c) {row : PullRequestSyncRun}
    (hget : w.db.syncRuns.get c.aggregateId = some row) :
    ∃ run, (step a w).2.db.syncRuns.get c.aggregateId = some run ∧ Sync.Remembers row run := by
  rcases step_entries a w c.aggregateId with hsame | ⟨run, hget', hentry⟩
  · exact ⟨row, hsame.trans hget, .refl row⟩
  rw [hget] at hentry
  cases hentry with
  | kept _ _ hkept => exact ⟨run, hget', hkept⟩
  | answered _ _ c' ids o expired job hact hid hcode hfence hdone =>
      subst hact
      obtain ⟨hc', hkind'⟩ := ha.1 c' rfl
      obtain ⟨hjob', -, hk', hagg'⟩ := Lifecycle.fence_granted hsound hc' hfence
      obtain ⟨job₀, hjob, hgranted⟩ := hsound.granted c hc
      have hsameJob : c'.id = c.id := by
        refine hsound.unique c'.id c.id job job₀ hjob' hjob ?_ ?_
        · rw [hk', hkind' _ rfl, ← hgranted.kind, hkind]
        · rw [hagg', hid, hgranted.aggregate]
      obtain ⟨done, hdone, hstate⟩ := hdone
      obtain ⟨held, hheld, hleased, -⟩ := hheld
      rw [hsameJob] at hdone
      obtain rfl := Option.some.inj (hdone.symm.trans hheld)
      exact absurd hleased hstate

theorem offered_step (hsound : Lifecycle.Sound (Lifecycle.board w)) (ha : World.allowed a w)
    {c : Claim} (hc : c ∈ w.issued) (hkind : c.kind = .syncPullRequests) {plan : FetchPlan}
    (hheld : Held (step a w).2.db c) (h : Offered w.db c plan) :
    Offered (step a w).2.db c plan := by
  obtain ⟨row, r, hget, hr, hle, haddress, hpage, hnumber, hetag⟩ := h
  obtain ⟨run, hget', hkept⟩ := remembers_while_held hsound ha hc hkind hheld hget
  obtain ⟨r', hr', hmoved⟩ := step_addressed a w _ r hr
  refine ⟨run, r', hget', hkept.repository ▸ hr', ?_, ?_, hpage.trans (by rw [hkept.cursor]),
    hnumber.trans hkept.number.symm, hetag.trans hkept.etag.symm⟩
  · rw [hkept.generation]
    exact hle.trans hmoved.generation_le
  · intro hgen
    rw [hkept.generation] at hgen
    have hsame : r'.connectionGeneration = r.connectionGeneration :=
      le_antisymm (hgen.trans_le hle) hmoved.generation_le
    obtain ⟨howner, hname⟩ := hmoved.address hsame
    rw [howner, hname]
    exact haddress (hsame.symm.trans hgen)

/-- Every plan that was handed out is still the one of its run while the lease is held. -/
theorem run_offered (h : World.Run now trace w) {e : Transition.Event World Action Outcome}
    (he : e ∈ trace) {c : Claim} (hact : e.action = .syncBegin c) {plan : FetchPlan} {db : Db}
    (hbegin : begin e.before.db c = .ok (some plan, db)) (hheld : Held w.db c) :
    Offered w.db c plan := by
  obtain ⟨later, earlier, rfl⟩ := List.append_of_mem he
  obtain ⟨hbefore, hallowed, -, hlater⟩ := h.split
  rw [hact] at hallowed hlater
  obtain ⟨hc, hkind⟩ := hallowed.1 c rfl
  have hrun := hbefore.snoc (.syncBegin c) hallowed
  have hissued : c ∈ (step (.syncBegin c) e.before).2.issued := by
    simp only [step, World.commit, hbegin, Except.map]
    exact hc
  have hfirst : Offered (step (.syncBegin c) e.before).2.db c plan := by
    simp only [step, World.commit, hbegin, Except.map]
    exact begin_offered hbegin
  have hall : Lifecycle.Sound (Lifecycle.board w) ∧ c ∈ w.issued ∧
      (Held w.db c → Offered w.db c plan) := by
    refine hlater.invariant (fun w => Lifecycle.Sound (Lifecycle.board w) ∧ c ∈ w.issued ∧
      (Held w.db c → Offered w.db c plan)) ⟨Lifecycle.run_sound hrun, hissued, fun _ => hfirst⟩ ?_
    rintro w a ⟨hsound, hissued, hoffered⟩ ha
    refine ⟨Lifecycle.step_sound w a hsound ha,
      (hsound.later_moves (Lifecycle.step_moves w a hsound ha)).issued c hissued, fun hheld => ?_⟩
    exact offered_step hsound ha hissued (hkind _ rfl) hheld
      (hoffered (held_before hsound ha hissued hheld))
  exact hall.2.2 hheld

/-! ## Coherence -/

/-- A completion is passed what a fetch returned for the plan of its claim. -/
def Fetches (u : Upstream) (earlier : Trace) (c : Claim) (o : SyncOutcome) : Prop :=
  ∃ e ∈ earlier, e.action = .syncBegin c ∧
    ∃ plan db, begin e.before.db c = .ok (some plan, db) ∧
      ∃ g, u.Serves g (asked plan) ∧
        ∃ page, (g.fetch plan).result = .ok page ∧ o = fetchedOutcome page

/-- Every page of an execution was fetched. -/
def Served (u : Upstream) : Trace → Prop
  | [] => True
  | e :: earlier => (∀ c ids o expired, e.action = .syncComplete c ids o expired →
      o.code = none → Fetches u earlier c o) ∧ Served u earlier

/-- The request of a run for a page of the list. -/
def pageAsked (r : RepositoryConnection) (run : PullRequestSyncRun) : Request :=
  .pulls r.ownerLogin r.repositoryName (run.requestCursor.getD 1)

/-- The page after the one of a run, when it lists these rows. -/
def pageAfter (run : PullRequestSyncRun) (rows : List RemotePR) : Option ℕ :=
  if rows.length = 30 then some (run.requestCursor.getD 1 + 1) else none

/-- What the body lists under the tag is stored, and the run knows the page that follows. -/
def Reflects (u : Upstream) (pulls : Table UUID PullRequest) (r : RepositoryConnection)
    (run : PullRequestSyncRun) (tag : String) : Prop :=
  u.body (pageAsked r run) tag = .null ∨
    ∃ rows, u.listed (u.body (pageAsked r run) tag) = some rows ∧
      run.nextCursor = pageAfter run rows ∧
      ∀ pr ∈ rows, Sync.Current pulls run.repositoryConnectionId pr

/-- Every run for a page reflects the body under the tag it remembers, while its connection has
not been reconnected. -/
def Coherent (u : Upstream) (db : Db) : Prop :=
  ∀ sid run, db.syncRuns.get sid = some run → Sync.Listing run ∧
    ∀ tag r, run.mode ≠ .single → run.etag = some tag → tag ≠ "" →
      db.connections.get run.repositoryConnectionId = some r →
      r.connectionGeneration = run.connectionGeneration → Reflects u db.pullRequests r run tag

variable {u : Upstream}

theorem Reflects.remembers {pulls pulls' : Table UUID PullRequest} {r r' : RepositoryConnection}
    {row run : PullRequestSyncRun} {tag : String} (h : Reflects u pulls r row tag)
    (hpulls : pulls.Keeps Sync.Newer pulls') (hrun : Sync.Remembers row run)
    (haddress : r'.ownerLogin = r.ownerLogin ∧ r'.repositoryName = r.repositoryName) :
    Reflects u pulls' r' run tag := by
  have hasked : pageAsked r' run = pageAsked r row := by
    rw [pageAsked, pageAsked, haddress.1, haddress.2, hrun.cursor]
  rw [Reflects, hasked]
  rcases h with hnull | ⟨rows, hlisted, hnext, hcurrent⟩
  · exact .inl hnull
  · refine .inr ⟨rows, hlisted, ?_, fun pr hpr => ?_⟩
    · rw [hrun.next, hnext, pageAfter, pageAfter, hrun.cursor]
    · rw [hrun.repository]
      exact (hcurrent pr hpr).keeps hpulls

/-- A connection that has the generation of a stored run after a step had it before. -/
theorem connected_before (hbounded : Connections.Bounded w) {sid : UUID}
    {row : PullRequestSyncRun} (hget : w.db.syncRuns.get sid = some row)
    {r' : RepositoryConnection}
    (hr' : (step a w).2.db.connections.get row.repositoryConnectionId = some r')
    (hgen : r'.connectionGeneration = row.connectionGeneration) :
    ∃ r, w.db.connections.get row.repositoryConnectionId = some r ∧
      r.connectionGeneration = row.connectionGeneration ∧
      r'.ownerLogin = r.ownerLogin ∧ r'.repositoryName = r.repositoryName := by
  obtain ⟨r, hr, hle⟩ := hbounded (.sync sid) _ _ (Option.map_eq_some_iff.mpr ⟨row, hget, rfl⟩)
  obtain ⟨r'', hr'', hmoved⟩ := step_addressed a w _ r hr
  obtain rfl := Option.some.inj (hr'.symm.trans hr'')
  have hsame : r.connectionGeneration = row.connectionGeneration :=
    le_antisymm (hgen ▸ hmoved.generation_le) hle
  exact ⟨r, hr, hsame, hmoved.address (hgen.trans hsame.symm)⟩

/-- What a run remembers stays reflected as long as it does not change. -/
theorem reflects_remembered (hbounded : Connections.Bounded w) (h : Coherent u w.db)
    {sid : UUID} {row run : PullRequestSyncRun} (hget : w.db.syncRuns.get sid = some row)
    (hrun : Sync.Remembers row run) :
    Sync.Listing run ∧ ∀ tag r, run.mode ≠ .single → run.etag = some tag → tag ≠ "" →
      (step a w).2.db.connections.get run.repositoryConnectionId = some r →
      r.connectionGeneration = run.connectionGeneration →
      Reflects u (step a w).2.db.pullRequests r run tag := by
  obtain ⟨hlisting, hreflects⟩ := h sid row hget
  refine ⟨fun hmode => ?_, fun tag r' hmode hetag hne hr' hgen => ?_⟩
  · rw [hrun.number]
    exact hlisting (hrun.mode ▸ hmode)
  · rw [hrun.repository] at hr'
    rw [hrun.generation] at hgen
    obtain ⟨r, hr, hsame, haddress⟩ := connected_before hbounded hget hr' hgen
    exact (hreflects tag r (hrun.mode ▸ hmode) (hrun.etag ▸ hetag) hne hr hsame).remembers
      (step_keeps a w) hrun haddress

/-- A page that was fetched for a run is reflected once it is stored. -/
theorem reflects_answered (h : World.Run now trace w) (hcoherent : Coherent u w.db) {sid : UUID}
    {row run : PullRequestSyncRun} {c : Claim} {ids : ℕ → UUID} {o : SyncOutcome}
    (hheld : Held w.db c) (hid : c.aggregateId = sid) (hfetches : Fetches u trace c o)
    (hget : w.db.syncRuns.get sid = some row)
    (hpulls : Sync.upsertAll w.db.now row.workspaceId row.repositoryConnectionId
      row.connectionGeneration ids o.rows w.db.pullRequests = .ok (step a w).2.db.pullRequests)
    (hrun : Sync.SameRequest row run) (hetag : run.etag = o.etag)
    (hnext : run.nextCursor = (fetched w.db.now row o).nextCursor) {tag : String}
    {r' : RepositoryConnection} (hmode : run.mode ≠ .single) (htag : run.etag = some tag)
    (hne : tag ≠ "")
    (hr' : (step a w).2.db.connections.get run.repositoryConnectionId = some r')
    (hgen : r'.connectionGeneration = run.connectionGeneration) :
    Reflects u (step a w).2.db.pullRequests r' run tag := by
  obtain ⟨hlisting, hreflects⟩ := hcoherent sid row hget
  rw [hrun.repository] at hr'
  rw [hrun.generation] at hgen
  obtain ⟨r, hr, hsame, haddress⟩ := connected_before (Connections.run_bounded h) hget hr' hgen
  obtain ⟨e, he, hact, plan, db, hbegin, g, hserves, page, hpage, rfl⟩ := hfetches
  obtain ⟨row', r'', hget', hr'', -, hplan, hpageNo, hnumber, hsent⟩ :=
    run_offered h he hact hbegin hheld
  obtain rfl := Option.some.inj (hget.symm.trans (hid ▸ hget'))
  obtain rfl := Option.some.inj (hr.symm.trans hr'')
  have hlist : plan.number.getD 0 = 0 := by
    rw [hnumber]
    exact hlisting (hrun.mode ▸ hmode)
  have hasked : asked plan = pageAsked r' run := by
    rw [asked, if_neg (by simp [hlist]), pageAsked, (hplan hsame).1, (hplan hsame).2, hpageNo,
      haddress.1, haddress.2, hrun.cursor]
  rcases Upstream.fetch_answers hserves hlist hpage with rfl | hanswer
  · -- nothing was modified: the run keeps what it remembers
    refine (hreflects tag r (hrun.mode ▸ hmode) ?_ hne hr hsame).remembers (step_keeps a w)
      ⟨hrun, ?_, hnext⟩ haddress
    · exact (hsent.symm.trans hetag.symm).trans htag
    · exact hetag.trans hsent
  · rcases hanswer tag (hetag.symm.trans htag) hne with hnull | ⟨hlisted, hmodified⟩
    · exact .inl (hasked ▸ hnull)
    · refine .inr ⟨page.rows, hasked ▸ hlisted, ?_, fun pr hpr => ?_⟩
      · have hlistRun : row.mode ≠ .single := hrun.mode ▸ hmode
        simp [hnext, fetched, fetchedOutcome, hmodified, hlistRun, pageAfter, hrun.cursor]
      · rw [hrun.repository]
        exact Sync.upsertAll_current hpulls pr hpr

theorem coherent_step (h : World.Run now trace w)
    (hfetches : ∀ c ids o expired, a = .syncComplete c ids o expired → o.code = none →
      Fetches u trace c o) (hcoherent : Coherent u w.db) : Coherent u (step a w).2.db := by
  have hbounded := Connections.run_bounded h
  intro sid run hget'
  rcases step_entries a w sid with hsame | ⟨run', hget'', hentry⟩
  · exact reflects_remembered hbounded hcoherent (hsame.symm.trans hget') (.refl run)
  obtain rfl := Option.some.inj (hget'.symm.trans hget'')
  generalize hold : w.db.syncRuns.get sid = old at hentry
  cases hentry with
  | copied _ hcopied =>
      obtain ⟨hlisting, hnone | ⟨source, row, hget, hrun⟩⟩ := hcopied
      · exact ⟨hlisting, fun tag r _ htag => by simp [hnone] at htag⟩
      · exact reflects_remembered hbounded hcoherent hget hrun
  | kept row _ hkept => exact reflects_remembered hbounded hcoherent hold hkept
  | answered row _ c ids o expired job hact hid hcode hfence hdone hpulls hrun hetag hnext =>
      refine ⟨fun hmode => ?_, fun tag r hmode htag hne hr hgen => ?_⟩
      · rw [hrun.number]
        exact (hcoherent sid row hold).1 (hrun.mode ▸ hmode)
      · exact reflects_answered h hcoherent (fence_held hfence) hid
          (hfetches c ids o expired hact hcode) hold hpulls hrun hetag hnext hmode htag hne hr hgen

/-- Along every execution whose pages were fetched the runs are coherent. -/
theorem run_coherent (h : World.Run now trace w) (hserved : Served u trace) :
    Coherent u w.db := by
  have hall : World.Run now trace w ∧ (Served u trace → Coherent u w.db) := by
    refine h.induct (fun trace w => World.Run now trace w ∧ (Served u trace → Coherent u w.db))
      ⟨.nil, ?_⟩ ?_
    · intro _ sid run hget
      simp [World.initial, Db.empty] at hget
    · rintro trace w a ⟨hrun, hcoherent⟩ ha
      exact ⟨hrun.snoc a ha, fun hserved => coherent_step hrun hserved.1 (hcoherent hserved.2)⟩
  exact hall.2 hserved

end SyncWorker

end Prism
