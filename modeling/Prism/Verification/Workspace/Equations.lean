import Prism.Model.Workspace
import Prism.Verification.Access.Correctness

/-! What one step does to the members and invitations of a workspace. -/

namespace Prism.Workspace

/-- The active owner of a workspace. -/
def Owns (db : Db) (wid uid : UUID) : Prop :=
  ∃ m, db.members.get (wid, uid) = some m ∧ m.role = .owner ∧ m.status = .active

theorem owns_of_member {db : Db} {uid wid : UUID} {m : WorkspaceMember}
    (h : requirePermission db uid wid .owner = .ok m) : Owns db wid uid := by
  obtain ⟨hget, hactive, hallowed⟩ := requirePermission_member h
  exact ⟨m, hget, by simpa [Prism.allowed] using hallowed, hactive⟩

theorem owns_of_role {db : Db} {uid wid : UUID} {permission : Permission} {m : WorkspaceMember}
    (h : requirePermission db uid wid permission = .ok m) (hrole : m.role = .owner) :
    Owns db wid uid :=
  ⟨m, (requirePermission_member h).1, hrole, (requirePermission_member h).2.1⟩

theorem activeMember_eq_ok {db : Db} {wid uid : UUID} {m : WorkspaceMember} :
    activeMember db wid uid = .ok m ↔ db.members.get (wid, uid) = some m ∧ m.status = .active := by
  unfold activeMember
  cases hget : db.members.get (wid, uid) with
  | none => simp
  | some r =>
      simp only [Option.some.injEq]
      split
      · next hactive =>
          simp only [Except.ok.injEq]
          exact ⟨fun h => ⟨h, h ▸ hactive⟩, fun h => h.1⟩
      · next hactive =>
          simp only [reduceCtorEq, false_iff, not_and]
          rintro rfl
          exact hactive

theorem writeMember_eq_ok {db db' : Db} {wid uid : UUID} {m : WorkspaceMember}
    (h : writeMember db wid uid m = .ok db') :
    db' = { db with members := db.members.put (wid, uid) m } := by
  unfold writeMember at h
  split_ifs at h
  exact (Except.ok.inj h).symm

theorem insertInvitation_eq_ok {invitations invitations' : Table UUID Invitation} {iid : UUID}
    {i : Invitation} (h : insertInvitation invitations iid i = .ok invitations') :
    invitations.get iid = none ∧
      pending invitations i.workspaceId i.targetGithubUserId = false ∧
      invitations' = invitations.put iid i := by
  unfold insertInvitation at h
  split_ifs at h with hfails
  simp only [Bool.or_eq_true, not_or, Bool.not_eq_true, Option.isSome_eq_false_iff,
    Option.isNone_iff_eq_none] at hfails
  exact ⟨hfails.1.1.1.1, hfails.1.1.2, (Except.ok.inj h).symm⟩

theorem expire_row {invitations : Table UUID Invitation} {wid : UUID} {now : Instant} {iid : UUID}
    {i : Invitation} (h : (expire invitations wid now).get iid = some i) :
    ∃ i₀, invitations.get iid = some i₀ ∧
      (i = i₀ ∨ i₀.status = .pending ∧ i = { i₀ with status := .expired }) := by
  rw [expire, Table.get_mapRows, Option.map_eq_some_iff] at h
  obtain ⟨i₀, hi₀, rfl⟩ := h
  refine ⟨i₀, hi₀, ?_⟩
  split
  · next hexpires => exact .inr ⟨hexpires.2.1, rfl⟩
  · exact .inl rfl

/-- Whether a step accepts an invitation. -/
def accepts (w : State) (a : Action) (reply : Reply) (iid : UUID) : Bool :=
  match a, reply with
  | .join call _, .workspace _ _ => (w.calls.get call).any (·.invitation = iid)
  | _, _ => false

/-- The conditions under which a waiting acceptance goes through. -/
structure Joins (w : State) (c : Acceptance) (found : Invitation) : Prop where
  row : w.invitations.get c.invitation = some found
  addressed : found.targetGithubUserId = c.githubUserId
  waiting : found.status = .pending
  inviter : ∃ m, w.db.members.get (c.workspace, found.invitedBy) = some m ∧ m.status = .active ∧
    Prism.allowed m.role found.role.permission = true
  absent : ∀ m, w.db.members.get (c.workspace, c.uid) = some m → m.status ≠ .active

/-- The tables after a step. -/
inductive Effect (w : State) : Action → Reply → Db → Table UUID Invitation → Prop where
  | idle {a reply} (h : ∀ iid, accepts w a reply iid = false) : Effect w a reply w.db w.invitations
  | user (uid u) : Effect w (.user uid u) .done
      { w.db with users := w.db.users.put uid u } w.invitations
  | activity (wid status) : Effect w (.activity wid status) .done
      { w.db with workspaces := w.db.workspaces.put wid status } w.invitations
  | created {uid wid reply} (hnew : w.db.workspaces.get wid = none) :
      Effect w (.create uid wid) reply
        { w.db with
          workspaces := w.db.workspaces.put wid .active
          members := w.db.members.put (wid, uid) ⟨.owner, .active⟩ } w.invitations
  | invited {uid wid target role iid raw now created reply} (i : Invitation)
      (hknown : (w.db.workspaces.get wid).isSome)
      (hnew : (expire w.invitations wid now).get iid = none)
      (hvacant : pending (expire w.invitations wid now) wid target = false)
      (hworkspace : i.workspaceId = wid) (htarget : i.targetGithubUserId = target)
      (hstatus : i.status = .pending) :
      Effect w (.invite uid wid target role iid raw now created) reply w.db
        ((expire w.invitations wid now).put iid i)
  | listed {uid wid cursor now reply} : Effect w (.list uid wid cursor now) reply w.db
      (expire w.invitations wid now)
  | revoked {uid wid iid now reply} (i : Invitation) (hget : w.invitations.get iid = some i)
      (hworkspace : i.workspaceId = wid) (hstatus : i.status = .pending)
      (hadmin : i.role = .admin → Owns w.db wid uid) :
      Effect w (.revoke uid wid iid now) reply w.db
        (w.invitations.put iid { i with status := .revoked, revokedAt := some now })
  | joined {call now reply} (c : Acceptance) (found : Invitation)
      (hcall : w.calls.get call = some c) (hjoins : Joins w c found) :
      Effect w (.join call now) reply
        { w.db with
          members := w.db.members.put (c.workspace, c.uid) ⟨found.role.role, .active⟩ }
        (w.invitations.put c.invitation
          { found with status := .accepted, acceptedBy := some c.uid, acceptedAt := some now })
  | changed {uid wid target role reply} (m : WorkspaceMember) (howner : Owns w.db wid uid)
      (hget : w.db.members.get (wid, target) = some m) (hactive : m.status = .active)
      (hrole : m.role ≠ .owner) :
      Effect w (.changeRole uid wid target role) reply
        { w.db with members := w.db.members.put (wid, target) { m with role := role.role } }
        w.invitations
  | left {uid wid target reply} (m : WorkspaceMember) (status : MemberStatus)
      (hget : w.db.members.get (wid, target) = some m) (hactive : m.status = .active)
      (hrole : m.role ≠ .owner) (hstatus : status ≠ .active)
      (hadmin : uid ≠ target → m.role = .admin → Owns w.db wid uid) :
      Effect w (.remove uid wid target) reply
        { w.db with members := w.db.members.put (wid, target) { m with status } } w.invitations
  | transferred {uid wid target reply} (m : WorkspaceMember) (howner : Owns w.db wid uid)
      (hget : w.db.members.get (wid, target) = some m) (hactive : m.status = .active)
      (hne : uid ≠ target) :
      Effect w (.transfer uid wid target) reply
        { w.db with
          members := (w.db.members.put (wid, uid) ⟨.admin, .active⟩).put (wid, target)
            ⟨.owner, .active⟩ } w.invitations

section Steps

variable {w : State}

theorem accepts_refused {a : Action} {failure : Failure} (iid : UUID) :
    accepts w a (.refused failure) iid = false := by
  cases a <;> rfl

/-- The acceptance a step leaves waiting found its user and its invitation. -/
def Seeks (w : State) (a : Action) (call : ℕ) (c : Acceptance) : Prop :=
  (∃ raw, a = .accept call c.uid raw) ∧
    (∃ u, w.db.users.get c.uid = some u ∧ u.githubUserId = c.githubUserId) ∧
    ∃ i, w.invitations.get c.invitation = some i ∧ i.workspaceId = c.workspace

/-- A transaction commits with an effect when each of its results has one. -/
theorem commit_spec {a : Action} {tx : Tx (Reply × State)}
    (h : ∀ reply w', tx = .ok (reply, w') →
      Effect w a reply w'.db w'.invitations ∧ w'.calls = w.calls) :
    Effect w a (w.commit tx).1 (w.commit tx).2.db (w.commit tx).2.invitations ∧
      (w.commit tx).2.calls = w.calls := by
  cases tx with
  | error failure => exact ⟨.idle accepts_refused, rfl⟩
  | ok result => exact h result.1 result.2 rfl

theorem create_spec {uid wid : UUID} {reply : Reply} {w' : State}
    (h : create w uid wid = .ok (reply, w')) :
    Effect w (.create uid wid) reply w'.db w'.invitations ∧ w'.calls = w.calls := by
  simp only [create, Tx.bind_eq_ok] at h
  obtain ⟨user, -, workspaces, hinsert, h⟩ := h
  obtain ⟨hnew, rfl⟩ := (insertRow_eq_ok ..).mp hinsert
  split_ifs at h
  obtain ⟨db, hdb, h⟩ := (Tx.bind_eq_ok ..).mp h
  obtain rfl := writeMember_eq_ok hdb
  obtain ⟨rfl, rfl⟩ := Prod.mk.inj (Except.ok.inj h)
  exact ⟨.created hnew, rfl⟩

theorem invite_spec {tokenHash : String → String} {uid wid : UUID} {target : ℕ}
    {role : GivenRole} {iid : UUID} {raw : String} {now created : Instant} {reply : Reply}
    {w' : State} (h : invite tokenHash w uid wid target role iid raw now created = .ok (reply, w')) :
    Effect w (.invite uid wid target role iid raw now created) reply w'.db w'.invitations ∧
      w'.calls = w.calls := by
  simp only [invite, Tx.bind_eq_ok] at h
  obtain ⟨actor, hactor, h⟩ := h
  obtain ⟨-, -, -, -, -, -, hworkspace, -⟩ := requirePermission_permitted hactor
  split_ifs at h
  obtain ⟨invitations, hinsert, h⟩ := (Tx.bind_eq_ok ..).mp h
  obtain ⟨hnew, hvacant, rfl⟩ := insertInvitation_eq_ok hinsert
  obtain ⟨rfl, rfl⟩ := Prod.mk.inj (Except.ok.inj h)
  exact ⟨.invited _ (by simp [hworkspace]) hnew hvacant rfl rfl rfl, rfl⟩

theorem list_spec {uid wid : UUID} {cursor : Option UUID} {now : Instant} {reply : Reply}
    {w' : State} (h : list w uid wid cursor now = .ok (reply, w')) :
    Effect w (.list uid wid cursor now) reply w'.db w'.invitations ∧ w'.calls = w.calls := by
  simp only [list, Tx.bind_eq_ok] at h
  obtain ⟨actor, -, h⟩ := h
  obtain ⟨rfl, rfl⟩ := Prod.mk.inj (Except.ok.inj h)
  exact ⟨.listed, rfl⟩

theorem revoke_spec {uid wid iid : UUID} {now : Instant} {reply : Reply} {w' : State}
    (h : revoke w uid wid iid now = .ok (reply, w')) :
    Effect w (.revoke uid wid iid now) reply w'.db w'.invitations ∧ w'.calls = w.calls := by
  simp only [revoke, Tx.bind_eq_ok] at h
  obtain ⟨actor, hactor, h⟩ := h
  split at h
  · contradiction
  · next i hi =>
      obtain ⟨hget, hwid⟩ := Option.filter_eq_some_iff.mp hi
      split_ifs at h with hdenied hstatus
      obtain ⟨rfl, rfl⟩ := Prod.mk.inj (Except.ok.inj h)
      refine ⟨.revoked i hget (by simpa using hwid) (not_not.mp hstatus) fun hadmin => ?_, rfl⟩
      exact owns_of_role hactor (not_not.mp fun hne => hdenied ⟨hadmin, hne⟩)

theorem accept_spec {tokenHash : String → String} {call : ℕ} {uid : UUID} {raw : String}
    {reply : Reply} {w' : State} (h : accept tokenHash w call uid raw = .ok (reply, w')) :
    w'.db = w.db ∧ w'.invitations = w.invitations ∧
      ∃ c, Seeks w (.accept call uid raw) call c ∧ w'.calls = w.calls.put call c := by
  simp only [accept, Tx.bind_eq_ok] at h
  obtain ⟨user, huser, h⟩ := h
  split at h
  · contradiction
  · next iid found hfind =>
      obtain ⟨rfl, rfl⟩ := Prod.mk.inj (Except.ok.inj h)
      exact ⟨rfl, rfl, _, ⟨⟨raw, rfl⟩, ⟨user, (getActiveUser_eq_ok.mp huser).1, rfl⟩,
        ⟨found, (Table.find_spec hfind).1, rfl⟩⟩, rfl⟩

theorem join_spec {call : ℕ} {c : Acceptance} {now : Instant} {reply : Reply} {w' : State}
    (hcall : w.calls.get call = some c) (h : join w call c now = .ok (reply, w')) :
    Effect w (.join call now) reply w'.db w'.invitations ∧
      w'.calls = w.calls.remove call := by
  unfold join at h
  cases hfound : w.invitations.get c.invitation with
  | none => simp [hfound] at h
  | some found =>
      cases hinviter : w.db.members.get (c.workspace, found.invitedBy) with
      | none =>
          simp only [hfound, hinviter] at h
          split_ifs at h
      | some inviter =>
          simp only [hfound, hinviter] at h
          split_ifs at h with hworkspace htarget hstatus hallowed hmember
          obtain ⟨db, hdb, h⟩ := (Tx.bind_eq_ok ..).mp h
          obtain rfl := writeMember_eq_ok hdb
          obtain ⟨rfl, rfl⟩ := Prod.mk.inj (Except.ok.inj h)
          simp only [ne_eq, not_or, not_not, Bool.not_eq_false] at hstatus hallowed
          refine ⟨.joined c found hcall ⟨hfound, not_not.mp htarget, hstatus.1,
            ⟨inviter, hinviter, hallowed.1, hallowed.2⟩, fun m hm hactive => hmember ?_⟩, rfl⟩
          simp [hm, hactive]

theorem changeRole_spec {uid wid target : UUID} {role : GivenRole} {reply : Reply} {w' : State}
    (h : changeRole w uid wid target role = .ok (reply, w')) :
    Effect w (.changeRole uid wid target role) reply w'.db w'.invitations ∧
      w'.calls = w.calls := by
  simp only [changeRole, Tx.bind_eq_ok] at h
  obtain ⟨actor, hactor, m, hm, h⟩ := h
  obtain ⟨hget, hactive⟩ := activeMember_eq_ok.mp hm
  split_ifs at h with hrole
  simp only [Tx.bind_eq_ok] at h
  obtain ⟨user, -, db, hdb, h⟩ := h
  obtain rfl := writeMember_eq_ok hdb
  obtain ⟨rfl, rfl⟩ := Prod.mk.inj (Except.ok.inj h)
  exact ⟨.changed m (owns_of_member hactor) hget hactive hrole, rfl⟩

theorem remove_spec {uid wid target : UUID} {reply : Reply} {w' : State}
    (h : remove w uid wid target = .ok (reply, w')) :
    Effect w (.remove uid wid target) reply w'.db w'.invitations ∧ w'.calls = w.calls := by
  simp only [remove, Tx.bind_eq_ok] at h
  obtain ⟨actor, hactor, m, hm, h⟩ := h
  obtain ⟨hget, hactive⟩ := activeMember_eq_ok.mp hm
  split at h
  · contradiction
  · next hrole =>
      split at h
      · contradiction
      · next hdenied =>
          obtain ⟨db, hdb, h⟩ := (Tx.bind_eq_ok ..).mp h
          obtain rfl := writeMember_eq_ok hdb
          obtain ⟨rfl, rfl⟩ := Prod.mk.inj (Except.ok.inj h)
          refine ⟨.left m _ hget hactive hrole ?_ fun hne hadmin => ?_, rfl⟩
          · split <;> simp
          · exact owns_of_role hactor (not_not.mp fun howner => hdenied ⟨hne, hadmin, howner⟩)

theorem transfer_spec {uid wid target : UUID} {reply : Reply} {w' : State}
    (h : transfer w uid wid target = .ok (reply, w')) :
    Effect w (.transfer uid wid target) reply w'.db w'.invitations ∧ w'.calls = w.calls := by
  simp only [transfer, Tx.bind_eq_ok] at h
  obtain ⟨⟨role, status⟩, howner, ⟨role', status'⟩, hm, h⟩ := h
  obtain ⟨hget, hactive⟩ := activeMember_eq_ok.mp hm
  obtain rfl : status = .active := (requirePermission_member howner).2.1
  obtain rfl : status' = .active := hactive
  split_ifs at h with hne
  simp only [Tx.bind_eq_ok] at h
  obtain ⟨user, -, first, hfirst, second, hsecond, h⟩ := h
  obtain rfl := writeMember_eq_ok hfirst
  obtain rfl := writeMember_eq_ok hsecond
  obtain ⟨rfl, rfl⟩ := Prod.mk.inj (Except.ok.inj h)
  exact ⟨.transferred _ (owns_of_member howner) hget rfl hne, rfl⟩

variable {tokenHash : String → String}

/-- Every step has one of the effects, and calls only come from acceptances. -/
theorem step_spec (a : Action) :
    Effect w a (step tokenHash a w).1 (step tokenHash a w).2.db
        (step tokenHash a w).2.invitations ∧
      ∀ call c, (step tokenHash a w).2.calls.get call = some c →
        w.calls.get call = some c ∨ Seeks w a call c := by
  have hkeeps : ∀ {calls : Table ℕ Acceptance}, calls = w.calls → ∀ call c,
      calls.get call = some c → w.calls.get call = some c ∨ Seeks w a call c := by
    rintro calls rfl call c h
    exact .inl h
  have hremoves : ∀ {calls : Table ℕ Acceptance} {k : ℕ}, calls = w.calls.remove k → ∀ call c,
      calls.get call = some c → w.calls.get call = some c ∨ Seeks w a call c := by
    rintro calls k rfl call c h
    rw [Table.get_remove] at h
    split_ifs at h
    exact .inl h
  cases a with
  | user uid u => exact ⟨.user uid u, hkeeps rfl⟩
  | activity wid status => exact ⟨.activity wid status, hkeeps rfl⟩
  | create uid wid => exact (commit_spec fun _ _ => create_spec).imp_right hkeeps
  | invite uid wid target role iid raw now created =>
      exact (commit_spec fun _ _ => invite_spec).imp_right hkeeps
  | list uid wid cursor now => exact (commit_spec fun _ _ => list_spec).imp_right hkeeps
  | revoke uid wid iid now => exact (commit_spec fun _ _ => revoke_spec).imp_right hkeeps
  | accept call uid raw =>
      cases haccept : accept tokenHash w call uid raw with
      | error failure =>
          simp only [step, haccept]
          exact ⟨.idle accepts_refused, hkeeps rfl⟩
      | ok result =>
          obtain ⟨hdb, hinvitations, c, hseeks, hcalls⟩ := accept_spec haccept
          simp only [step, haccept, State.commit, hdb, hinvitations, hcalls]
          refine ⟨.idle (fun _ => rfl), fun k c' h => ?_⟩
          rcases (Table.get_put_eq_some ..).mp h with ⟨rfl, rfl⟩ | ⟨-, h⟩
          · exact .inr hseeks
          · exact .inl h
  | join call now =>
      cases hcall : w.calls.get call with
      | none =>
          simp only [step, hcall]
          exact ⟨.idle (fun _ => rfl), hkeeps rfl⟩
      | some c =>
          cases hjoin : join w call c now with
          | error failure =>
              simp only [step, hcall, hjoin]
              exact ⟨.idle accepts_refused, hremoves rfl⟩
          | ok result =>
              simp only [step, hcall, hjoin]
              exact (join_spec hcall hjoin).imp_right hremoves
  | changeRole uid wid target role => exact (commit_spec fun _ _ => changeRole_spec).imp_right hkeeps
  | remove uid wid target => exact (commit_spec fun _ _ => remove_spec).imp_right hkeeps
  | transfer uid wid target => exact (commit_spec fun _ _ => transfer_spec).imp_right hkeeps
  | abort call => exact ⟨.idle (fun _ => rfl), hremoves rfl⟩

end Steps

end Prism.Workspace
