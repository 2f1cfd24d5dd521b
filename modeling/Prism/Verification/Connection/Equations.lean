import Prism.Verification.Access.Correctness
import Prism.Model.Connection

/-! What connecting, disconnecting and suspending do to the rows. -/

namespace Prism

/-- A connection either reactivates a disconnected row or inserts a new one. -/
theorem connect_cases {db db' : Db} {uid wid rid cid id : UUID} {verified : VerifiedRepository}
    (h : connect db uid wid verified rid cid = .ok (id, db')) :
    (∃ row, db.connections.get id = some row ∧ row.status = .disconnected ∧
      db' = { db with
        connections := db.connections.put id (reconnected db.now uid verified row) }) ∨
    (id = rid ∧ db.connections.get rid = none ∧
      ∃ configs, db' = { db with
        connections := db.connections.put rid (newConnection db.now uid wid cid verified)
        configs := configs }) := by
  simp only [connect, Tx.bind_eq_ok] at h
  obtain ⟨-, -, h⟩ := h
  split at h
  · rename_i id' row hfind
    obtain ⟨hget, -⟩ := Table.find_spec hfind
    split at h
    · contradiction
    · rename_i hs
      split at h
      · contradiction
      · obtain ⟨rfl, rfl⟩ := Prod.mk.inj (Except.ok.inj h)
        exact .inl ⟨row, hget, not_not.mp hs, rfl⟩
  · split at h
    · contradiction
    · simp only [Tx.bind_eq_ok, insertRow_eq_ok] at h
      obtain ⟨-, ⟨hnone, rfl⟩, configs, -, h⟩ := h
      obtain ⟨rfl, rfl⟩ := Prod.mk.inj (Except.ok.inj h)
      exact .inr ⟨rfl, hnone, configs, rfl⟩

theorem disconnect_cases {db db' : Db} {uid wid rid : UUID}
    (h : disconnect db uid wid rid = .ok db') :
    ∃ row, db.connections.get rid = some row ∧
      db' = { db with connections := db.connections.put rid (disconnected db.now row) } := by
  simp only [disconnect, Tx.bind_eq_ok] at h
  obtain ⟨row, hrow, h⟩ := h
  exact ⟨row, (access_eq_ok hrow).2.1, (Except.ok.inj h).symm⟩

theorem mapped_eq_some {db : Db} {installation gid : ℕ} {repo : RepositorySnapshot}
    (h : mapped db installation gid = .ok (some repo)) :
    requireEvent db repo.workspaceId repo.id repo.connectionGeneration = .ok repo := by
  unfold mapped at h
  split at h
  · simp at h
  · obtain ⟨repo', hrepo, h⟩ := (Tx.bind_eq_ok ..).mp h
    obtain rfl := Option.some.inj (Except.ok.inj h)
    obtain ⟨r, hget, hwid, -, hgen, rfl⟩ := requireEvent_eq_ok hrepo
    simpa [snapshot, hwid, hgen] using hrepo

/-! ## Suspension -/

theorem get_suspendOne (connections : Table UUID RepositoryConnection) (rid id : UUID) :
    (suspendOne connections rid).get id = (connections.get id).map fun row =>
      if id = rid ∧ row.status = .active then { row with status := .suspended } else row := by
  unfold suspendOne
  by_cases hid : id = rid
  · subst id
    cases hget : connections.get rid with
    | none => simp [hget]
    | some row =>
        simp only [Option.map_some, true_and]
        split
        · simp
        · simp [hget]
  · cases hget : connections.get rid with
    | none => simp [hid]
    | some row =>
        simp only [hid, false_and, if_false, Option.map_id']
        split
        · exact Table.get_put_of_ne _ _ hid
        · rfl

/-- Suspension changes the status of the active rows it names and nothing else. -/
theorem get_suspendLocked (connections : Table UUID RepositoryConnection) (ids : List UUID)
    (id : UUID) :
    (suspendLocked connections ids).get id = (connections.get id).map fun row =>
      if id ∈ ids ∧ row.status = .active then { row with status := .suspended } else row := by
  induction ids generalizing connections with
  | nil => simp [suspendLocked]
  | cons rid ids ih =>
      have hstep : suspendLocked connections (rid :: ids) =
          suspendLocked (suspendOne connections rid) ids := rfl
      rw [hstep, ih, get_suspendOne, Option.map_map]
      congr 1
      funext row
      by_cases hrid : id = rid <;> by_cases hmem : id ∈ ids <;>
        by_cases hs : row.status = .active <;> simp [hrid, hmem, hs]

/-- The connections an event of an installation affects: active, made before it, and
among the repositories it lists, if it lists any. -/
structure Affected (installation : ℕ) (ids : Option (List ℕ)) (before : Instant)
    (row : RepositoryConnection) : Prop where
  installation : row.installationId = installation
  active : row.status = .active
  connected : row.connectedAt ≤ before
  listed : ∀ gids, ids = some gids → row.githubRepositoryId ∈ gids

theorem mem_lockAffected {db : Db} {installation : ℕ} {ids : Option (List ℕ)} {before : Instant}
    {rid : UUID} :
    rid ∈ lockAffected db installation ids before ↔
      ∃ row, db.connections.get rid = some row ∧ Affected installation ids before row := by
  simp only [lockAffected, List.mem_filterMap, Prod.exists, Table.mem_select_iff,
    Bool.and_eq_true, decide_eq_true_eq]
  constructor
  · rintro ⟨id, row, ⟨hget, ⟨⟨hinst, hactive⟩, hbefore⟩, hlisted⟩, hsome⟩
    have hid : id = rid := by
      split at hsome
      · contradiction
      · split at hsome
        · exact Option.some.inj hsome
        · contradiction
    subst hid
    refine ⟨row, hget, hinst, hactive, hbefore, ?_⟩
    rintro gids rfl
    exact of_decide_eq_true hlisted
  · rintro ⟨row, hget, h⟩
    have hin : connectionIn db row.workspaceId rid = some row :=
      connectionIn_eq_some.mpr ⟨hget, rfl⟩
    refine ⟨rid, row, ⟨hget, ⟨⟨h.installation, h.active⟩, h.connected⟩, ?_⟩, ?_⟩
    · cases ids with
      | none => rfl
      | some gids => exact decide_eq_true (h.listed gids rfl)
    · simp [hin, h.active, h.installation, h.connected]

end Prism
