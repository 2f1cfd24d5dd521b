import Prism.Model.Access

/-! What a successful authorization says about the database. -/

namespace Prism

/-- The connection is active at exactly this generation. -/
def Live (db : Db) (rid : UUID) (generation : ℕ) : Prop :=
  ∃ r, db.connections.get rid = some r ∧ r.status = .active ∧
    r.connectionGeneration = generation

/-- The user is active and an active member of the active workspace, in a role
with this permission. -/
def Permitted (db : Db) (uid wid : UUID) (permission : Permission) : Prop :=
  ∃ user member, db.users.get uid = some user ∧ user.status = .active ∧
    db.members.get (wid, uid) = some member ∧ member.status = .active ∧
    db.workspaces.get wid = some .active ∧ allowed member.role permission = true

theorem getActiveUser_eq_ok {db : Db} {uid : UUID} {user : User} :
    getActiveUser db uid = .ok user ↔ db.users.get uid = some user ∧ user.status = .active := by
  unfold getActiveUser
  cases hget : db.users.get uid with
  | none => simp
  | some u =>
      simp only [Option.some.injEq]
      split
      · rename_i hs
        simp only [Except.ok.injEq]
        exact ⟨fun h => ⟨h, h ▸ hs⟩, fun h => h.1⟩
      · rename_i hs
        simp only [reduceCtorEq, false_iff, not_and]
        rintro rfl
        exact hs

theorem requirePermission_permitted {db : Db} {uid wid : UUID} {permission : Permission}
    {member : WorkspaceMember} (h : requirePermission db uid wid permission = .ok member) :
    Permitted db uid wid permission := by
  simp only [requirePermission, Tx.bind_eq_ok] at h
  obtain ⟨user, huser, h⟩ := h
  obtain ⟨hget, hactive⟩ := getActiveUser_eq_ok.mp huser
  split at h
  · contradiction
  · rename_i m hm
    split at h
    · contradiction
    · rename_i hlive
      simp only [ne_eq, not_or, Bool.not_eq_false, not_not] at hlive
      split at h
      · contradiction
      · rename_i hallowed
        obtain rfl := Except.ok.inj h
        exact ⟨user, m, hget, hactive, hm, hlive.2, by simpa [lockSystem] using hlive.1,
          by simpa using hallowed⟩

/-- The row an authorization returns is the membership it checked. -/
theorem requirePermission_member {db : Db} {uid wid : UUID} {permission : Permission}
    {member : WorkspaceMember} (h : requirePermission db uid wid permission = .ok member) :
    db.members.get (wid, uid) = some member ∧ member.status = .active ∧
      allowed member.role permission = true := by
  simp only [requirePermission, Tx.bind_eq_ok] at h
  obtain ⟨user, -, h⟩ := h
  split at h
  · contradiction
  · next m hm =>
      split_ifs at h with hlive hallowed
      obtain rfl := Except.ok.inj h
      simp only [ne_eq, not_or, not_not] at hlive
      exact ⟨hm, hlive.2, by simpa using hallowed⟩

/-- The user is an active owner of the workspace. -/
def ActiveOwner (db : Db) (uid wid : UUID) : Prop :=
  ∃ user member, db.users.get uid = some user ∧ user.status = .active ∧
    db.members.get (wid, uid) = some member ∧ member.status = .active ∧ member.role = .owner

theorem Permitted.activeOwner {db : Db} {uid wid : UUID} (h : Permitted db uid wid .owner) :
    ActiveOwner db uid wid := by
  obtain ⟨user, member, huser, hactive, hmember, hjoined, -, hallowed⟩ := h
  refine ⟨user, member, huser, hactive, hmember, hjoined, ?_⟩
  simpa [allowed] using hallowed

theorem connectionIn_eq_some {db : Db} {wid rid : UUID} {r : RepositoryConnection} :
    connectionIn db wid rid = some r ↔
      db.connections.get rid = some r ∧ r.workspaceId = wid := by
  simp [connectionIn, Option.filter_eq_some_iff]

theorem access_eq_ok {db : Db} {uid wid rid : UUID} {permission : Permission} {active : Bool}
    {r : RepositoryConnection} (h : access db uid wid rid permission active = .ok r) :
    Permitted db uid wid permission ∧ db.connections.get rid = some r ∧ r.workspaceId = wid ∧
      (active = true → r.status = .active) := by
  simp only [access, Tx.bind_eq_ok] at h
  obtain ⟨member, hmember, h⟩ := h
  split at h
  · contradiction
  · rename_i r' hr'
    obtain ⟨hget, hwid⟩ := connectionIn_eq_some.mp hr'
    split at h
    · contradiction
    · rename_i hactive
      obtain rfl := Except.ok.inj h
      refine ⟨requirePermission_permitted hmember, hget, hwid, fun ha => ?_⟩
      by_contra hne
      exact hactive ⟨ha, hne⟩

theorem requireRepository_eq_ok {db : Db} {uid wid rid : UUID} {permission : Permission}
    {active : Bool} {repo : RepositorySnapshot}
    (h : requireRepository db uid wid rid permission active = .ok repo) :
    ∃ r, access db uid wid rid permission active = .ok r ∧ repo = snapshot rid r := by
  simp only [requireRepository, Tx.bind_eq_ok] at h
  obtain ⟨r, hr, h⟩ := h
  exact ⟨r, hr, (Except.ok.inj h).symm⟩

/-- A repository required as active is live at the generation of its snapshot. -/
theorem requireRepository_live {db : Db} {uid wid rid : UUID} {permission : Permission}
    {repo : RepositorySnapshot}
    (h : requireRepository db uid wid rid permission true = .ok repo) :
    Permitted db uid wid permission ∧ repo.id = rid ∧
      Live db rid repo.connectionGeneration := by
  obtain ⟨r, hr, rfl⟩ := requireRepository_eq_ok h
  obtain ⟨hperm, hget, -, hactive⟩ := access_eq_ok hr
  exact ⟨hperm, rfl, r, hget, hactive rfl, rfl⟩

theorem requireEvent_eq_ok {db : Db} {wid rid : UUID} {generation : ℕ}
    {repo : RepositorySnapshot} (h : requireEvent db wid rid generation = .ok repo) :
    ∃ r, db.connections.get rid = some r ∧ r.workspaceId = wid ∧ r.status = .active ∧
      r.connectionGeneration = generation ∧ repo = snapshot rid r := by
  unfold requireEvent at h
  split at h
  · contradiction
  · rename_i r hr
    obtain ⟨hget, hwid⟩ := connectionIn_eq_some.mp hr
    split at h
    · contradiction
    · rename_i hlive
      simp only [ne_eq, not_or, not_not] at hlive
      exact ⟨r, hget, hwid, hlive.2.1, hlive.2.2, (Except.ok.inj h).symm⟩

theorem requireEvent_live {db : Db} {wid rid : UUID} {generation : ℕ}
    {repo : RepositorySnapshot} (h : requireEvent db wid rid generation = .ok repo) :
    Live db rid generation := by
  obtain ⟨r, hget, -, hactive, hgen, -⟩ := requireEvent_eq_ok h
  exact ⟨r, hget, hactive, hgen⟩

theorem analysisSnapshot_eq_ok {db : Db} {uid wid pid : UUID} {pr : PullRequest}
    (h : analysisSnapshot db uid wid pid = .ok pr) : db.pullRequests.get pid = some pr := by
  simp only [analysisSnapshot, Tx.bind_eq_ok] at h
  obtain ⟨-, -, h⟩ := h
  split at h
  · contradiction
  · rename_i row hrow
    obtain ⟨-, -, h⟩ := (Tx.bind_eq_ok ..).mp h
    obtain rfl := Except.ok.inj h
    exact (Option.filter_eq_some_iff.mp hrow).1

namespace Analysis

theorem findRun_eq_ok {db : Db} {wid aid : UUID} {row : AnalysisRun} :
    findRun db wid aid = .ok row ↔ db.analysisRuns.get aid = some row ∧ row.workspaceId = wid := by
  unfold findRun
  cases hget : db.analysisRuns.get aid with
  | none => simp
  | some r =>
      simp only [Option.some.injEq]
      split
      · rename_i hw
        simp only [Except.ok.injEq]
        exact ⟨fun h => ⟨h, h ▸ hw⟩, fun h => h.1⟩
      · rename_i hw
        simp only [reduceCtorEq, false_iff, not_and]
        rintro rfl
        exact hw

theorem authorized_run {db : Db} {uid wid aid : UUID} {active : Bool} {row : AnalysisRun}
    (h : authorized db uid wid aid active = .ok row) :
    db.analysisRuns.get aid = some row ∧ row.workspaceId = wid := by
  simp only [authorized, Tx.bind_eq_ok] at h
  obtain ⟨-, -, row', hrow, repo, -, h⟩ := h
  split at h
  · contradiction
  · obtain rfl := Except.ok.inj h
    exact findRun_eq_ok.mp hrow

/-- An authorization for active work holds the connection at the run's generation. -/
theorem authorized_live {db : Db} {uid wid aid : UUID} {row : AnalysisRun}
    (h : authorized db uid wid aid true = .ok row) :
    Live db row.repositoryConnectionId row.connectionGeneration := by
  simp only [authorized, Tx.bind_eq_ok] at h
  obtain ⟨-, -, row', hrow, repo, hrepo, h⟩ := h
  split at h
  · contradiction
  · rename_i hgen
    obtain rfl := Except.ok.inj h
    simp only [true_and, ne_eq, not_not] at hgen
    exact hgen ▸ (requireRepository_live hrepo).2.2

end Analysis

theorem reviewSnapshot_eq_ok {db : Db} {uid wid aid : UUID} {snap : ReviewSnapshot}
    (h : reviewSnapshot db uid wid aid = .ok snap) :
    ∃ row, Analysis.authorized db uid wid aid true = .ok row ∧ row.status = .completed ∧
      snap = reviewSnapshotOf aid row := by
  simp only [reviewSnapshot, Tx.bind_eq_ok] at h
  obtain ⟨row, hrow, h⟩ := h
  split at h
  · contradiction
  · rename_i hs
    exact ⟨row, hrow, not_not.mp hs, (Except.ok.inj h).symm⟩

namespace Review

theorem getRow_eq_ok {db : Db} {wid rid : UUID} {row : ReviewRun} :
    getRow db wid rid = .ok row ↔ db.reviewRuns.get rid = some row ∧ row.workspaceId = wid := by
  unfold getRow
  cases hget : db.reviewRuns.get rid with
  | none => simp
  | some r =>
      simp only [Option.some.injEq]
      split
      · rename_i hw
        simp only [Except.ok.injEq]
        exact ⟨fun h => ⟨h, h ▸ hw⟩, fun h => h.1⟩
      · rename_i hw
        simp only [reduceCtorEq, false_iff, not_and]
        rintro rfl
        exact hw

theorem authorize_run {db : Db} {uid wid rid : UUID} {execute : Bool} {row : ReviewRun}
    (h : authorize db uid wid rid execute = .ok row) :
    db.reviewRuns.get rid = some row ∧ row.workspaceId = wid := by
  simp only [authorize, Tx.bind_eq_ok] at h
  obtain ⟨-, -, row', hrow, repo, -, h⟩ := h
  split at h
  · contradiction
  · split at h
    · obtain ⟨-, -, h⟩ := (Tx.bind_eq_ok ..).mp h
      obtain rfl := Except.ok.inj h
      exact getRow_eq_ok.mp hrow
    · obtain rfl := Except.ok.inj h
      exact getRow_eq_ok.mp hrow

/-- An authorization to execute needs an active owner and the connection of the run. -/
theorem authorize_execute {db : Db} {uid wid rid : UUID} {row : ReviewRun}
    (h : authorize db uid wid rid true = .ok row) :
    Permitted db uid wid .owner ∧
      Live db row.repositoryConnectionId row.connectionGeneration := by
  simp only [authorize, Tx.bind_eq_ok, ite_true] at h
  obtain ⟨member, hmember, row', hrow, repo, hrepo, h⟩ := h
  have hperm := requirePermission_permitted hmember
  have hlive := (requireRepository_live hrepo).2.2
  split at h
  · contradiction
  · rename_i hgen
    simp only [true_and, ne_eq, not_not] at hgen
    rw [hgen] at hlive
    split at h
    · obtain ⟨-, -, h⟩ := (Tx.bind_eq_ok ..).mp h
      obtain rfl := Except.ok.inj h
      exact ⟨hperm, hlive⟩
    · obtain rfl := Except.ok.inj h
      exact ⟨hperm, hlive⟩

end Review

end Prism
