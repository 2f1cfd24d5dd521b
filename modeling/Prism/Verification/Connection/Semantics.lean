import Prism.Verification.System.Equations

/-! How a repository connection can change in one step. -/

namespace Prism.Connections

open World

/-- How a connection may look later: it is never moved to another workspace, its
generation never falls, and it becomes active again only at a higher one. -/
structure Later (r r' : RepositoryConnection) : Prop where
  workspace : r'.workspaceId = r.workspaceId
  generation_le : r.connectionGeneration ≤ r'.connectionGeneration
  reactivated : r.status ≠ .active → r'.status = .active →
    r.connectionGeneration < r'.connectionGeneration

theorem Later.refl (r : RepositoryConnection) : Later r r :=
  ⟨rfl, le_rfl, fun hne heq => absurd heq hne⟩

theorem Later.trans {r r' r'' : RepositoryConnection} (h : Later r r') (h' : Later r' r'') :
    Later r r'' := by
  refine ⟨h'.workspace.trans h.workspace, h.generation_le.trans h'.generation_le, ?_⟩
  intro hne heq
  by_cases hmid : r'.status = .active
  · exact (h.reactivated hne hmid).trans_le h'.generation_le
  · exact h.generation_le.trans_lt (h'.reactivated hmid heq)

/-- Every connection is still there, and later. -/
def Continue (connections connections' : Table UUID RepositoryConnection) : Prop :=
  ∀ rid r, connections.get rid = some r → ∃ r', connections'.get rid = some r' ∧ Later r r'

theorem Continue.refl (connections : Table UUID RepositoryConnection) :
    Continue connections connections :=
  fun _ r h => ⟨r, h, .refl r⟩

theorem Continue.trans {t t' t'' : Table UUID RepositoryConnection} (h : Continue t t')
    (h' : Continue t' t'') : Continue t t'' := by
  intro rid r hr
  obtain ⟨r', hr', hlater⟩ := h rid r hr
  obtain ⟨r'', hr'', hlater'⟩ := h' rid r' hr'
  exact ⟨r'', hr'', hlater.trans hlater'⟩

private theorem continue_put {t : Table UUID RepositoryConnection} {rid : UUID}
    {r r' : RepositoryConnection} (hget : t.get rid = some r) (h : Later r r') :
    Continue t (t.put rid r') := by
  intro rid' k hk
  by_cases hid : rid' = rid
  · subst rid'
    obtain rfl := Option.some.inj (hget.symm.trans hk)
    exact ⟨r', Table.get_put_self .., h⟩
  · exact ⟨k, (Table.get_put_of_ne _ _ hid).trans hk, .refl k⟩

private theorem continue_insert {t : Table UUID RepositoryConnection} {rid : UUID}
    {r : RepositoryConnection} (hnone : t.get rid = none) : Continue t (t.put rid r) := by
  intro rid' k hk
  have hid : rid' ≠ rid := by
    rintro rfl
    simp [hnone] at hk
  exact ⟨k, (Table.get_put_of_ne _ _ hid).trans hk, .refl k⟩

private theorem continue_suspended (t : Table UUID RepositoryConnection) (ids : List UUID) :
    Continue t (suspendLocked t ids) := by
  intro rid r hr
  rw [get_suspendLocked, hr, Option.map_some]
  refine ⟨_, rfl, ?_⟩
  split
  · exact ⟨rfl, le_rfl, fun _ heq => by simp at heq⟩
  · exact .refl r

private theorem continue_commit {w : World} {body : Tx Db}
    (h : ∀ db', body = .ok db' → Continue w.db.connections db'.connections) :
    Continue w.db.connections (w.commit body).2.db.connections := by
  unfold World.commit
  split
  · exact h _ rfl
  · exact .refl _

theorem connect_continue {db db' : Db} {uid wid rid cid id : UUID}
    {verified : VerifiedRepository} (h : connect db uid wid verified rid cid = .ok (id, db')) :
    Continue db.connections db'.connections := by
  rcases connect_cases h with ⟨row, hget, hs, rfl⟩ | ⟨-, hnone, configs, rfl⟩
  · refine continue_put hget ⟨rfl, Nat.le_succ _, fun _ _ => Nat.lt_succ_self _⟩
  · exact continue_insert hnone

theorem sync_connections {db db' : Db} {uid wid rid sid jid id : UUID} {page : ℕ}
    {number : Option ℕ} (h : Sync.enqueue db uid wid rid page number sid jid = .ok (id, db')) :
    db'.connections = db.connections := by
  rcases Sync.enqueue_cases h with rfl | ⟨-, _, _, _, -, hinsert⟩
  · rfl
  · obtain ⟨-, jobs, -, rfl⟩ := Sync.insertRun_eq_ok.mp hinsert
    rfl

/-- Connections only move on. -/
theorem step_continue (a : Action) (w : World) :
    Continue w.db.connections (step a w).2.db.connections := by
  by_cases hquiet : Area.connections ∉ touches a
  · rw [(step_frame a w).connections hquiet]
    exact .refl _
  cases a with
  | connect uid wid verified rid cid sid jid =>
      refine continue_commit fun db' h => ?_
      obtain ⟨id, db₁, run, hconnect, hsync⟩ := connectOne_cases h
      rw [sync_connections hsync]
      exact connect_continue hconnect
  | disconnect uid wid rid =>
      refine continue_commit fun db' h => ?_
      obtain ⟨row, hget, rfl⟩ := disconnect_cases h
      exact continue_put hget ⟨rfl, le_rfl, fun _ heq => by simp [disconnected] at heq⟩
  | syncComplete c ids o expired =>
      refine continue_commit fun db' h => ?_
      rcases SyncWorker.complete_cases h with
        rfl | ⟨run, code, retry, job, job', run', pulls, connections, -, -, -, -, hstored, rfl⟩
      · exact .refl _
      · cases hstored with
        | page hpulls hget =>
            exact continue_put hget ⟨rfl, le_rfl, fun hne heq => absurd heq hne⟩
        | refused code =>
            simp only
            split
            · exact continue_suspended _ _
            · exact .refl _
  | webhookExecute c expired sid jid =>
      refine continue_commit fun db' h => ?_
      rcases WebhookWorker.execute_cases h with
        ⟨rfl, -⟩ | ⟨row, code, targets, job, job', -, -, -, hend⟩
      · exact .refl _
      rcases hend with ⟨-, -, rfl⟩ | ⟨-, code', db₁, happly, -, rfl⟩
      · exact .refl _
      · cases WebhookWorker.apply_applied happly with
        | suspended _ _ => exact continue_suspended _ _
        | _ => exact .refl _
  | _ => exact absurd (by simp [touches]) hquiet

/-- Along every execution connections only move on. -/
theorem path_continue {w w' : World} {later : Trace}
    (h : World.Path w later w') : Continue w.db.connections w'.db.connections :=
  h.relates (fun _ => True) (fun w w' => Continue w.db.connections w'.db.connections)
    (fun w => .refl w.db.connections) (fun _ _ _ => .trans) trivial (fun _ _ _ _ => trivial)
    fun w a _ _ => step_continue a w

/-- A connection that is live now was live at this generation ever since it had it. -/
theorem live_since {db db' : Db} (h : Continue db.connections db'.connections) {rid : UUID}
    {generation : ℕ} (hlive : Live db' rid generation) {r : RepositoryConnection}
    (hget : db.connections.get rid = some r) (hgen : generation ≤ r.connectionGeneration) :
    Live db rid generation := by
  obtain ⟨r', hget', hactive, rfl⟩ := hlive
  obtain ⟨r'', hget'', hlater⟩ := h rid r hget
  obtain rfl := Option.some.inj (hget'.symm.trans hget'')
  refine ⟨r, hget, ?_, le_antisymm hlater.generation_le hgen⟩
  by_contra hne
  exact absurd (hlater.reactivated hne hactive) (Nat.not_lt.mpr hgen)

end Prism.Connections
