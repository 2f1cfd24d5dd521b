import Prism.Foundation.Transition
import Prism.Model.Access

/-! Members, roles and invitations of workspaces. Every operation takes the lock of its
workspace first, but for an acceptance, which looks its invitation up before it. -/

namespace Prism.Workspace

inductive InvitationStatus where
  | pending | accepted | revoked | expired
  deriving DecidableEq, Repr

/-- The roles a request can name: `Literal["MEMBER", "ADMIN"]`. -/
inductive GivenRole where
  | member | admin
  deriving DecidableEq, Repr

def GivenRole.role : GivenRole → Role
  | member => .member
  | admin => .admin

/-- The permission an inviter needs. -/
def GivenRole.permission : GivenRole → Permission
  | member => .manage
  | admin => .owner

structure Invitation where
  workspaceId : UUID
  targetGithubUserId : ℕ
  invitedBy : UUID
  tokenHash : String
  role : GivenRole
  status : InvitationStatus
  createdAt : Instant
  expiresAt : Instant
  acceptedAt : Option Instant
  revokedAt : Option Instant
  acceptedBy : Option UUID
  deriving DecidableEq, Repr

/-- What an acceptance knows when it waits for the lock. -/
structure Acceptance where
  uid : UUID
  githubUserId : ℕ
  invitation : UUID
  workspace : UUID
  deriving DecidableEq, Repr

structure State where
  db : Db
  invitations : Table UUID Invitation
  calls : Table ℕ Acceptance

def State.empty : State :=
  ⟨.empty 0, ∅, ∅⟩

inductive Reply where
  | done
  | waiting
  | workspace (id : UUID) (role : Role)
  | member (uid : UUID) (role : Role)
  | created (id : UUID) (i : Invitation) (token : String)
  | listed (rows : List (UUID × Invitation))
  | refused (failure : Failure)

/-- `WorkspaceConflict`. -/
def conflict (code : Code) : Failure :=
  .app ⟨code, "현재 상태에서는 요청을 처리할 수 없습니다.", .conflict⟩

section Rows

/-- `store.member` of an active member. -/
def activeMember (db : Db) (wid uid : UUID) : Tx WorkspaceMember :=
  match db.members.get (wid, uid) with
  | none => .error workspaceMissing
  | some m => if m.status = .active then .ok m else .error workspaceMissing

/-- Write a member past `uq_workspace_members_active_owner`. -/
def writeMember (db : Db) (wid uid : UUID) (m : WorkspaceMember) : Tx Db :=
  if m.role = .owner ∧ m.status = .active ∧
      db.members.holds (fun k r => k.1 = wid && k.2 ≠ uid && r.role = .owner && r.status = .active)
    then .error .integrityError
  else .ok { db with members := db.members.put (wid, uid) m }

variable (invitations : Table UUID Invitation)

/-- `store.expire`. -/
def expire (wid : UUID) (now : Instant) : Table UUID Invitation :=
  invitations.mapRows fun _ i =>
    if i.workspaceId = wid ∧ i.status = .pending ∧ i.expiresAt ≤ now then
      { i with status := .expired }
    else i

/-- `store.pending`. -/
def pending (wid : UUID) (target : ℕ) : Bool :=
  invitations.holds fun _ i =>
    i.workspaceId = wid && i.targetGithubUserId = target && i.status = .pending

/-- Insert a pending invitation past the constraints of the table. -/
def insertInvitation (iid : UUID) (i : Invitation) : Tx (Table UUID Invitation) :=
  if (invitations.get iid).isSome || invitations.holds (fun _ j => j.tokenHash = i.tokenHash) ||
      pending invitations i.workspaceId i.targetGithubUserId || i.targetGithubUserId = 0 ||
      i.expiresAt ≤ i.createdAt then .error .integrityError
  else .ok (invitations.put iid i)

/-- `store.invitations`. -/
def page (wid : UUID) (cursor : Option UUID) : List (UUID × Invitation) :=
  let rows := invitations.select fun iid i =>
    i.workspaceId = wid && i.status = .pending && cursor.all (· < iid)
  (rows.mergeSort fun a b => a.1 ≤ b.1).take 51

end Rows

section Operations

variable (tokenHash : String → String) (w : State)

def create (uid wid : UUID) : Tx (Reply × State) := do
  let _ ← getActiveUser w.db uid
  let workspaces ← insertRow w.db.workspaces wid .active
  if (w.db.members.get (wid, uid)).isSome then .error .integrityError
  else do
    let db ← writeMember { w.db with workspaces } wid uid ⟨.owner, .active⟩
    .ok (.workspace wid .owner, { w with db })

def invite (uid wid : UUID) (target : ℕ) (role : GivenRole) (iid : UUID) (raw : String)
    (now created : Instant) : Tx (Reply × State) := do
  let _ ← requirePermission w.db uid wid role.permission
  let invitations := expire w.invitations wid now
  if pending invitations wid target then .error (conflict .invitationExists)
  else do
    let i : Invitation :=
      { workspaceId := wid
        targetGithubUserId := target
        invitedBy := uid
        tokenHash := tokenHash raw
        role := role
        status := .pending
        createdAt := created
        expiresAt := now + seconds 86400
        acceptedAt := none
        revokedAt := none
        acceptedBy := none }
    let invitations ← insertInvitation invitations iid i
    .ok (.created iid i raw, { w with invitations })

/-- `WorkspaceService.invitations`. -/
def list (uid wid : UUID) (cursor : Option UUID) (now : Instant) : Tx (Reply × State) := do
  let _ ← requirePermission w.db uid wid .manage
  let invitations := expire w.invitations wid now
  .ok (.listed (page invitations wid cursor), { w with invitations })

def revoke (uid wid iid : UUID) (now : Instant) : Tx (Reply × State) := do
  let actor ← requirePermission w.db uid wid .manage
  match (w.invitations.get iid).filter (fun i => i.workspaceId = wid) with
  | none => .error workspaceMissing
  | some i =>
    if i.role = .admin ∧ actor.role ≠ .owner then .error permissionDenied
    else if i.status ≠ .pending then .error (conflict .workspaceConflict)
    else .ok (.done, { w with
      invitations := w.invitations.put iid { i with status := .revoked, revokedAt := some now } })

/-- `accept`, up to the lock. -/
def accept (call : ℕ) (uid : UUID) (raw : String) : Tx (Reply × State) := do
  let user ← getActiveUser w.db uid
  match w.invitations.find fun _ i => i.tokenHash = tokenHash raw with
  | none => .error workspaceMissing
  | some (iid, found) =>
    .ok (.waiting, { w with
      calls := w.calls.put call ⟨uid, user.githubUserId, iid, found.workspaceId⟩ })

/-- `accept` under the lock. No invitation is ever deleted, so there is a row to refresh. -/
def join (call : ℕ) (c : Acceptance) (now : Instant) : Tx (Reply × State) :=
  match w.invitations.get c.invitation with
  | none => .error workspaceMissing
  | some found =>
    if lockSystem w.db c.workspace = false then .error workspaceMissing
    else if found.targetGithubUserId ≠ c.githubUserId then .error permissionDenied
    else if found.status ≠ .pending ∨ found.expiresAt ≤ now then
      .error (conflict .invitationUnavailable)
    else match w.db.members.get (c.workspace, found.invitedBy) with
      | none => .error (conflict .inviterUnavailable)
      | some inviter =>
        if inviter.status ≠ .active ∨ Prism.allowed inviter.role found.role.permission = false then
          .error (conflict .inviterUnavailable)
        else if (w.db.members.get (c.workspace, c.uid)).any (·.status = .active) then
          .error (conflict .alreadyMember)
        else do
          let db ← writeMember w.db c.workspace c.uid ⟨found.role.role, .active⟩
          .ok (.workspace c.workspace found.role.role,
            { w with
              db
              invitations := w.invitations.put c.invitation
                { found with
                  status := .accepted, acceptedBy := some c.uid, acceptedAt := some now }
              calls := w.calls.remove call })

def changeRole (uid wid target : UUID) (role : GivenRole) : Tx (Reply × State) := do
  let _ ← requirePermission w.db uid wid .owner
  let m ← activeMember w.db wid target
  if m.role = .owner then .error (conflict .ownerTransferRequired)
  else do
    let _ ← getActiveUser w.db target
    let db ← writeMember w.db wid target { m with role := role.role }
    .ok (.member target role.role, { w with db })

def remove (uid wid target : UUID) : Tx (Reply × State) := do
  let actor ← requirePermission w.db uid wid (if uid = target then .read else .manage)
  let m ← activeMember w.db wid target
  if m.role = .owner then .error (conflict .ownerTransferRequired)
  else if uid ≠ target ∧ m.role = .admin ∧ actor.role ≠ .owner then .error permissionDenied
  else do
    let db ← writeMember w.db wid target
      { m with status := if uid = target then .left else .removed }
    .ok (.done, { w with db })

def transfer (uid wid target : UUID) : Tx (Reply × State) := do
  let owner ← requirePermission w.db uid wid .owner
  let m ← activeMember w.db wid target
  if uid = target then .error (conflict .workspaceConflict)
  else do
    let _ ← getActiveUser w.db target
    let db ← writeMember w.db wid uid { owner with role := .admin }
    let db ← writeMember db wid target { m with role := .owner }
    .ok (.member target .owner, { w with db })

end Operations

/-- What the environment can do next. -/
inductive Action where
  | user (uid : UUID) (user : User)
  | activity (wid : UUID) (status : Activity)
  | create (uid wid : UUID)
  | invite (uid wid : UUID) (target : ℕ) (role : GivenRole) (iid : UUID) (raw : String)
      (now created : Instant)
  | list (uid wid : UUID) (cursor : Option UUID) (now : Instant)
  | revoke (uid wid iid : UUID) (now : Instant)
  | accept (call : ℕ) (uid : UUID) (raw : String)
  | join (call : ℕ) (now : Instant)
  | changeRole (uid wid target : UUID) (role : GivenRole)
  | remove (uid wid target : UUID)
  | transfer (uid wid target : UUID)
  | abort (call : ℕ)
  deriving DecidableEq, Repr

/-- A user keeps the GitHub account he registered with, and calls have numbers of their
own. -/
def enabled (a : Action) (w : State) : Prop :=
  match a with
  | .user uid user => (w.db.users.get uid).all (·.githubUserId = user.githubUserId) = true
  | .activity wid _ => (w.db.workspaces.get wid).isSome = true
  | .accept call _ _ => w.calls.get call = none
  | _ => True

instance (a : Action) (w : State) : Decidable (enabled a w) :=
  match a with
  | .user _ _ | .activity _ _ => inferInstanceAs (Decidable (_ = _))
  | .accept _ _ _ => inferInstanceAs (Decidable (_ = _))
  | .create _ _ | .invite _ _ _ _ _ _ _ _ | .list _ _ _ _ | .revoke _ _ _ _ | .join _ _
  | .changeRole _ _ _ _ | .remove _ _ _ | .transfer _ _ _ | .abort _ =>
    inferInstanceAs (Decidable True)

/-- A transaction that raises is rolled back. -/
def State.commit (w : State) : Tx (Reply × State) → Reply × State
  | .ok result => result
  | .error failure => (.refused failure, w)

def step (tokenHash : String → String) (a : Action) (w : State) : Reply × State :=
  match a with
  | .user uid user => (.done, { w with db := { w.db with users := w.db.users.put uid user } })
  | .activity wid status =>
    (.done, { w with db := { w.db with workspaces := w.db.workspaces.put wid status } })
  | .create uid wid => w.commit (create w uid wid)
  | .invite uid wid target role iid raw now created =>
    w.commit (invite tokenHash w uid wid target role iid raw now created)
  | .list uid wid cursor now => w.commit (list w uid wid cursor now)
  | .revoke uid wid iid now => w.commit (revoke w uid wid iid now)
  | .accept call uid raw => w.commit (accept tokenHash w call uid raw)
  | .join call now =>
    match w.calls.get call with
    | none => (.waiting, w)
    | some c => { w with calls := w.calls.remove call }.commit (join w call c now)
  | .changeRole uid wid target role => w.commit (changeRole w uid wid target role)
  | .remove uid wid target => w.commit (remove w uid wid target)
  | .transfer uid wid target => w.commit (transfer w uid wid target)
  | .abort call => (.done, { w with calls := w.calls.remove call })

/-- A run of the service. -/
abbrev Run (tokenHash : String → String) :=
  Transition.Exec (step tokenHash) enabled State.empty

end Prism.Workspace
