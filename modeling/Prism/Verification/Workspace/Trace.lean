import Prism.Verification.Workspace.Correctness

/-! Ownership and authority along the runs of the service. -/

namespace Prism.Workspace

variable {tokenHash : String → String} {trace : List (Transition.Event State Action Reply)}
  {w : State}

/-! ## The invariant of runs -/

/-- An acceptance that waits is one of a user of that account, for an invitation of that
workspace. -/
structure Known (w : State) (c : Acceptance) : Prop where
  user : ∃ u, w.db.users.get c.uid = some u ∧ u.githubUserId = c.githubUserId
  invitation : ∃ i, w.invitations.get c.invitation = some i ∧ i.workspaceId = c.workspace

structure Sound (w : State) : Prop where
  owned : Owned w.db
  vacant : Table.Exclusive pendingSlot w.invitations
  placed : ∀ iid i, w.invitations.get iid = some i → (w.db.workspaces.get i.workspaceId).isSome
  calls : ∀ call c, w.calls.get call = some c → Known w c

theorem sound_empty : Sound State.empty where
  owned := by
    refine ⟨fun wid uid m h => ?_, fun wid h => ?_, fun wid uid uid' h => ?_⟩
    · simp [State.empty, Db.empty] at h
    · simp [State.empty, Db.empty] at h
    · obtain ⟨m, hm, -⟩ := h
      simp [State.empty, Db.empty] at hm
  vacant := Table.exclusive_empty _
  placed iid i h := by simp [State.empty] at h
  calls call c h := by simp [State.empty] at h

theorem Sound.step (h : Sound w) (a : Action) (henabled : enabled a w) :
    Sound (step tokenHash a w).2 := by
  obtain ⟨heffect, hcalls⟩ := @step_spec w tokenHash a
  obtain ⟨hstays, husers⟩ := heffect.stays henabled
  refine ⟨?_, heffect.exclusive h.vacant, fun iid i hi => ?_, fun call c hc => ?_⟩
  · refine heffect.owned h.owned (fun call c hc => ?_) henabled
    obtain ⟨i, hi, hworkspace⟩ := (h.calls call c hc).invitation
    exact hworkspace ▸ h.placed _ i hi
  · rcases heffect.placed hi with ⟨i₀, hi₀, hsame⟩ | hknown
    · exact hstays _ (hsame ▸ h.placed iid i₀ hi₀)
    · exact hstays _ hknown
  · have hknown : Known w c := by
      rcases hcalls call c hc with hc | ⟨-, huser, hinvitation⟩
      · exact h.calls call c hc
      · exact ⟨huser, hinvitation⟩
    constructor
    · obtain ⟨u, hu, hgithub⟩ := hknown.user
      obtain ⟨u', hu', hsame⟩ := husers _ u hu
      exact ⟨u', hu', hsame.trans hgithub⟩
    · obtain ⟨i, hi, hworkspace⟩ := hknown.invitation
      obtain ⟨i', hi', hsame, -⟩ := heffect.keeps _ i hi
      exact ⟨i', hi', hsame.trans hworkspace⟩

theorem run_sound (h : Run tokenHash trace w) : Sound w :=
  h.invariant Sound sound_empty fun _ a hsound => hsound.step a

/-! ## One owner -/

/-- The number of times an invitation was accepted. -/
def acceptances (trace : List (Transition.Event State Action Reply)) (iid : UUID) : ℕ :=
  trace.countP fun e => accepts e.before e.action e.outcome iid

theorem acceptances_le (h : Run tokenHash trace w) (iid : UUID) :
    acceptances trace iid ≤ if accepted w.invitations iid then 1 else 0 := by
  refine h.induct
    (fun trace w => acceptances trace iid ≤ if accepted w.invitations iid then 1 else 0) ?_ ?_
  · exact Nat.zero_le _
  · intro trace w a ih _
    obtain ⟨hstays, haccepts⟩ := (@step_spec w tokenHash a).1.accepts iid
    rw [acceptances, List.countP_cons, ← acceptances]
    split
    · next hnow =>
        obtain ⟨hbefore, hafter⟩ := haccepts hnow
        simp only [hbefore, Bool.false_eq_true, if_false, Nat.le_zero] at ih
        simp [ih, hafter]
    · next hnow =>
        refine ih.trans ?_
        split
        · next hbefore => simp [hstays hbefore]
        · exact Nat.zero_le _

/-- Every workspace has exactly one active owner, a GitHub user has at most one pending
invitation to it, and no invitation is accepted twice. -/
theorem one_active_owner (h : Run tokenHash trace w) :
    (∀ wid, (w.db.workspaces.get wid).isSome → ∃! uid, Owns w.db wid uid) ∧
      (∀ iid i iid' i', w.invitations.get iid = some i → w.invitations.get iid' = some i' →
        i.status = .pending → i'.status = .pending → i.workspaceId = i'.workspaceId →
        i.targetGithubUserId = i'.targetGithubUserId → iid = iid') ∧
      ∀ iid, acceptances trace iid ≤ 1 := by
  have hsound := run_sound h
  refine ⟨fun wid hwid => ?_, ?_, fun iid => ?_⟩
  · obtain ⟨uid, howner⟩ := hsound.owned.owner wid hwid
    exact ⟨uid, howner, fun uid' howner' => hsound.owned.single wid uid' uid howner' howner⟩
  · intro iid i iid' i' hi hi' hstatus hstatus' hworkspace htarget
    exact hsound.vacant iid i iid' i' _ hi hi' (pendingSlot_eq_some.mpr ⟨hstatus, rfl⟩)
      (pendingSlot_eq_some.mpr ⟨hstatus', by rw [hworkspace, htarget]⟩)
  · refine (acceptances_le h iid).trans ?_
    split <;> simp

/-- Its founder invites an admin, who accepts and is then given the workspace. -/
def founding : List Action :=
  [.user 1 ⟨101, .active, .senior⟩, .user 2 ⟨102, .active, .senior⟩, .create 1 10,
    .invite 1 10 102 .admin 20 "token" 0 0, .accept 7 2 "token", .join 7 1, .transfer 1 10 2]

theorem one_active_owner_founding :
    ∃! uid, Owns (Transition.run (step id) State.empty founding).db 10 uid :=
  (one_active_owner (Transition.exec_run State.empty founding (by decide +kernel))).1 10
    (by decide +kernel)

/-! ## Authority -/

/-- Who performs an action. -/
def actor (w : State) : Action → Option UUID
  | .user _ _ | .activity _ _ | .abort _ => none
  | .create uid _ | .invite uid _ _ _ _ _ _ _ | .list uid _ _ _ | .revoke uid _ _ _
  | .accept _ uid _ | .changeRole uid _ _ _ | .remove uid _ _ | .transfer uid _ _ => some uid
  | .join call _ => (w.calls.get call).map (·.uid)

/-- A user accepts an invitation as an admin that is addressed to him and whose inviter
is the active owner at this time. -/
def Admitted (w : State) (a : Action) (wid uid : UUID) : Prop :=
  ∃ call now c i u, a = .join call now ∧ w.calls.get call = some c ∧ c.uid = uid ∧
    w.invitations.get c.invitation = some i ∧ i.workspaceId = wid ∧ i.role = .admin ∧
    i.status = .pending ∧ w.db.users.get uid = some u ∧
    i.targetGithubUserId = u.githubUserId ∧ Owns w.db wid i.invitedBy

/-- What someone who is not the owner leaves as it is. -/
structure Harmless (w w' : State) (a : Action) (uid wid : UUID) : Prop where
  owner : ∀ target, Owns w.db wid target → Owns w'.db wid target
  admins : ∀ target m, target ≠ uid → w.db.members.get (wid, target) = some m →
    m.role = .admin → m.status = .active → w'.db.members.get (wid, target) = some m
  invitations : ∀ iid i i', w.invitations.get iid = some i → i.workspaceId = wid →
    i.role = .admin → w'.invitations.get iid = some i' → i'.status = .revoked →
    i.status = .revoked
  roles : ∀ target m', w'.db.members.get (wid, target) = some m' → m'.role ≠ .member →
    (∃ m, w.db.members.get (wid, target) = some m ∧ m.role = m'.role ∧
      (m'.status = .active → m.status = .active)) ∨
    target = uid ∧ m'.role = .admin ∧ Admitted w a wid target

/-- How a member becomes an admin. -/
inductive Promotion (w : State) : Action → UUID → UUID → Prop where
  | granted {uid wid target} (howner : Owns w.db wid uid) :
      Promotion w (.changeRole uid wid target .admin) wid target
  | transferred {uid wid target} (howner : Owns w.db wid uid) :
      Promotion w (.transfer uid wid target) wid uid
  | admitted {a wid uid} (h : Admitted w a wid uid) : Promotion w a wid uid

/-- What a step can make of a member. -/
inductive Change (w : State) (a : Action) (wid target : UUID) : Option WorkspaceMember → Prop where
  | same : Change w a wid target (w.db.members.get (wid, target))
  | created (hnew : w.db.workspaces.get wid = none) :
      Change w a wid target (some ⟨.owner, .active⟩)
  | joined {call now} (c : Acceptance) (found : Invitation) (ha : a = .join call now)
      (hcall : w.calls.get call = some c) (hjoins : Joins w c found) (hwid : c.workspace = wid)
      (huid : c.uid = target) : Change w a wid target (some ⟨found.role.role, .active⟩)
  | changed {uid role} (m : WorkspaceMember) (ha : a = .changeRole uid wid target role)
      (howner : Owns w.db wid uid) (hget : w.db.members.get (wid, target) = some m)
      (hrole : m.role ≠ .owner) :
      Change w a wid target (some { m with role := role.role })
  | left {uid} (m : WorkspaceMember) (status : MemberStatus) (ha : a = .remove uid wid target)
      (hget : w.db.members.get (wid, target) = some m) (hrole : m.role ≠ .owner)
      (hstatus : status ≠ .active)
      (hadmin : uid ≠ target → m.role = .admin → Owns w.db wid uid) :
      Change w a wid target (some { m with status })
  | promoted {uid} (ha : a = .transfer uid wid target) (howner : Owns w.db wid uid) :
      Change w a wid target (some ⟨.owner, .active⟩)
  | stepped {target'} (ha : a = .transfer target wid target') (howner : Owns w.db wid target) :
      Change w a wid target (some ⟨.admin, .active⟩)

theorem Effect.change {a : Action} {reply : Reply} {db : Db}
    {invitations : Table UUID Invitation} (heffect : Effect w a reply db invitations)
    (wid target : UUID) : Change w a wid target (db.members.get (wid, target)) := by
  cases heffect with
  | idle | user | activity | invited | listed | revoked => exact .same
  | @created uid wid' _ hnew =>
      simp only [Table.get_put]
      split_ifs with hkey
      · exact .created ((Prod.mk.inj hkey).1 ▸ hnew)
      · exact .same
  | joined c found hcall hjoins =>
      simp only [Table.get_put]
      split_ifs with hkey
      · exact .joined c found rfl hcall hjoins (Prod.mk.inj hkey).1.symm (Prod.mk.inj hkey).2.symm
      · exact .same
  | changed m howner hget hactive hrole =>
      simp only [Table.get_put]
      split_ifs with hkey
      · obtain ⟨rfl, rfl⟩ := Prod.mk.inj hkey
        exact .changed m rfl howner hget hrole
      · exact .same
  | left m status hget hactive hrole hstatus hadmin =>
      simp only [Table.get_put]
      split_ifs with hkey
      · obtain ⟨rfl, rfl⟩ := Prod.mk.inj hkey
        exact .left m status rfl hget hrole hstatus hadmin
      · exact .same
  | transferred m howner hget hactive hne =>
      simp only [Table.get_put]
      split_ifs with hkey hkey'
      · obtain ⟨rfl, rfl⟩ := Prod.mk.inj hkey
        exact .promoted rfl howner
      · obtain ⟨rfl, rfl⟩ := Prod.mk.inj hkey'
        exact .stepped rfl howner
      · exact .same

/-- Only a revocation revokes. -/
theorem Effect.revocation {a : Action} {reply : Reply} {db : Db}
    {invitations : Table UUID Invitation} (heffect : Effect w a reply db invitations) {iid : UUID}
    {i i' : Invitation} (hi : w.invitations.get iid = some i)
    (hi' : invitations.get iid = some i') (hrevoked : i'.status = .revoked) :
    i.status = .revoked ∨ ∃ uid now, a = .revoke uid i.workspaceId iid now ∧
      (i.role = .admin → Owns w.db i.workspaceId uid) := by
  have hsame : w.invitations.get iid = some i' → i.status = .revoked := by
    intro h
    obtain rfl := Option.some.inj (hi.symm.trans h)
    exact hrevoked
  have hrow : ∀ {wid : UUID} {now : Instant}, (expire w.invitations wid now).get iid = some i' →
      i.status = .revoked := by
    intro wid now h
    obtain ⟨i₀, hi₀, rfl | ⟨-, rfl⟩⟩ := expire_row h
    · exact hsame hi₀
    · exact nomatch hrevoked
  cases heffect with
  | idle | user | activity | created | changed | left | transferred => exact .inl (hsame hi')
  | invited j hknown hnew hvacant hworkspace htarget hstatus =>
      rcases (Table.get_put_eq_some ..).mp hi' with ⟨-, rfl⟩ | ⟨-, hi'⟩
      · rw [hstatus] at hrevoked
        contradiction
      · exact .inl (hrow hi')
  | listed => exact .inl (hrow hi')
  | @revoked uid wid iid₀ now _ j hget hworkspace hstatus hadmin =>
      rcases (Table.get_put_eq_some ..).mp hi' with ⟨rfl, rfl⟩ | ⟨-, hi'⟩
      · obtain rfl := Option.some.inj (hget.symm.trans hi)
        subst hworkspace
        exact .inr ⟨uid, now, rfl, hadmin⟩
      · exact .inl (hsame hi')
  | joined =>
      rcases (Table.get_put_eq_some ..).mp hi' with ⟨rfl, rfl⟩ | ⟨-, hi'⟩
      · contradiction
      · exact .inl (hsame hi')

/-- An admin's invitation goes through only under an owner. -/
theorem Joins.admitted {call : ℕ} {now : Instant} {c : Acceptance} {found : Invitation}
    (hjoins : Joins w c found) (hcall : w.calls.get call = some c) (hknown : Known w c)
    (hrole : found.role = .admin) : Admitted w (.join call now) c.workspace c.uid := by
  obtain ⟨u, hu, hgithub⟩ := hknown.user
  obtain ⟨i, hi, hworkspace⟩ := hknown.invitation
  obtain rfl := Option.some.inj (hjoins.row.symm.trans hi)
  obtain ⟨m, hm, hactive, hallowed⟩ := hjoins.inviter
  refine ⟨call, now, c, found, u, rfl, hcall, rfl, hi, hworkspace, hrole, hjoins.waiting, hu,
    hjoins.addressed.trans hgithub.symm, m, hm, ?_, hactive⟩
  simpa [hrole, GivenRole.permission, Prism.allowed] using hallowed

theorem Effect.harmless {a : Action} (h : Sound w) {uid wid : UUID} {w' : State} {reply : Reply}
    (heffect : Effect w a reply w'.db w'.invitations) (hactor : actor w a = some uid)
    (hknown : (w.db.workspaces.get wid).isSome) (hnot : ¬ Owns w.db wid uid) :
    Harmless w w' a uid wid := by
  refine ⟨?_, ?_, ?_, ?_⟩
  · rintro target ⟨m, hm, hrole, hactive⟩
    unfold Owns
    have hchange := heffect.change wid target
    generalize w'.db.members.get (wid, target) = after at hchange ⊢
    cases hchange with
    | same => exact ⟨m, hm, hrole, hactive⟩
    | created => exact ⟨_, rfl, rfl, rfl⟩
    | joined c found ha hcall hjoins hwid huid =>
        subst hwid huid
        exact (hjoins.absent m hm hactive).elim
    | changed r ha howner hget hrole' =>
        obtain rfl := Option.some.inj (hm.symm.trans hget)
        exact (hrole' hrole).elim
    | left r status ha hget hrole' =>
        obtain rfl := Option.some.inj (hm.symm.trans hget)
        exact (hrole' hrole).elim
    | promoted => exact ⟨_, rfl, rfl, rfl⟩
    | stepped ha howner =>
        subst ha
        obtain rfl := Option.some.inj hactor
        exact (hnot howner).elim
  · intro target m hne hm hrole hactive
    have hchange := heffect.change wid target
    generalize w'.db.members.get (wid, target) = after at hchange ⊢
    cases hchange with
    | same => exact hm
    | created hnew => simp [hnew] at hknown
    | joined c found ha hcall hjoins hwid huid =>
        subst hwid huid
        exact (hjoins.absent m hm hactive).elim
    | changed r ha howner =>
        subst ha
        obtain rfl := Option.some.inj hactor
        exact (hnot howner).elim
    | left r status ha hget hrole' hstatus hadmin =>
        subst ha
        obtain rfl := Option.some.inj hactor
        obtain rfl := Option.some.inj (hm.symm.trans hget)
        exact (hnot (hadmin (Ne.symm hne) hrole)).elim
    | promoted ha howner =>
        subst ha
        obtain rfl := Option.some.inj hactor
        exact (hnot howner).elim
    | stepped ha howner =>
        subst ha
        obtain rfl := Option.some.inj hactor
        exact (hnot howner).elim
  · rintro iid i i' hi rfl hrole hi' hrevoked
    rcases heffect.revocation hi hi' hrevoked with hbefore | ⟨uid', now, rfl, hadmin⟩
    · exact hbefore
    · obtain rfl := Option.some.inj hactor
      exact (hnot (hadmin hrole)).elim
  · intro target m' hm' hrole
    have hchange := heffect.change wid target
    generalize w'.db.members.get (wid, target) = after at hm' hchange
    cases hchange with
    | same => exact .inl ⟨m', hm', rfl, id⟩
    | created hnew => simp [hnew] at hknown
    | joined c found ha hcall hjoins hwid huid =>
        subst ha hwid huid
        obtain rfl := Option.some.inj hm'
        have hadmin : found.role = .admin := by
          cases hfound : found.role with
          | member => exact (hrole (by simp [hfound, GivenRole.role])).elim
          | admin => rfl
        refine .inr ⟨?_, by simp [hadmin, GivenRole.role], hjoins.admitted hcall (h.calls _ c hcall)
          hadmin⟩
        simpa [actor, hcall] using hactor
    | changed r ha howner =>
        subst ha
        obtain rfl := Option.some.inj hactor
        exact (hnot howner).elim
    | left r status ha hget hrole' hstatus =>
        obtain rfl := Option.some.inj hm'
        exact .inl ⟨r, hget, rfl, fun hactive => (hstatus hactive).elim⟩
    | promoted ha howner =>
        subst ha
        obtain rfl := Option.some.inj hactor
        exact (hnot howner).elim
    | stepped ha howner =>
        subst ha
        obtain rfl := Option.some.inj hactor
        exact (hnot howner).elim

/-- A member becomes an admin only by a promotion. -/
theorem Effect.promotion {a : Action} (h : Sound w) {wid target : UUID} {w' : State}
    {reply : Reply} (heffect : Effect w a reply w'.db w'.invitations) {m' : WorkspaceMember}
    (hm' : w'.db.members.get (wid, target) = some m') (hrole : m'.role = .admin)
    (hactive : m'.status = .active) :
    (∃ m, w.db.members.get (wid, target) = some m ∧ m.role = .admin ∧ m.status = .active) ∨
      Promotion w a wid target := by
  have hchange := heffect.change wid target
  generalize w'.db.members.get (wid, target) = after at hm' hchange
  cases hchange with
  | same => exact .inl ⟨m', hm', hrole, hactive⟩
  | created =>
      obtain rfl := Option.some.inj hm'
      cases hrole
  | joined c found ha hcall hjoins hwid huid =>
      subst ha hwid huid
      obtain rfl := Option.some.inj hm'
      refine .inr (.admitted (hjoins.admitted hcall (h.calls _ c hcall) ?_))
      cases hfound : found.role with
      | member => simp [hfound, GivenRole.role] at hrole
      | admin => rfl
  | @changed uid role r ha howner =>
      subst ha
      obtain rfl := Option.some.inj hm'
      cases role with
      | member => cases hrole
      | admin => exact .inr (.granted howner)
  | left r status ha hget hrole' hstatus =>
      obtain rfl := Option.some.inj hm'
      exact (hstatus hactive).elim
  | promoted =>
      obtain rfl := Option.some.inj hm'
      cases hrole
  | stepped ha howner =>
      subst ha
      exact .inr (.transferred howner)

/-- Whoever is not the owner does no harm, and every active admin was promoted. -/
theorem no_privilege_escalation (h : Run tokenHash trace w) :
    (∀ e ∈ trace, ∀ uid wid, actor e.before e.action = some uid →
      (e.before.db.workspaces.get wid).isSome → ¬ Owns e.before.db wid uid →
      Harmless e.before (step tokenHash e.action e.before).2 e.action uid wid) ∧
    (∀ e ∈ trace, ∀ wid target m',
      (step tokenHash e.action e.before).2.db.members.get (wid, target) = some m' →
      m'.role = .admin → m'.status = .active →
      (∃ m, e.before.db.members.get (wid, target) = some m ∧ m.role = .admin ∧
        m.status = .active) ∨ Promotion e.before e.action wid target) ∧
    ∀ wid target m, w.db.members.get (wid, target) = some m → m.role = .admin →
      m.status = .active → ∃ e ∈ trace, Promotion e.before e.action wid target := by
  refine ⟨fun e he uid wid => ?_, fun e he wid target m' => ?_, ?_⟩
  · obtain ⟨⟨earlier, hbefore⟩, -, -⟩ := h.passed he
    exact (step_spec e.action).1.harmless (run_sound hbefore)
  · obtain ⟨⟨earlier, hbefore⟩, -, -⟩ := h.passed he
    exact (step_spec e.action).1.promotion (run_sound hbefore)
  · induction h with
    | nil =>
        intro wid target m hm
        simp [State.empty, Db.empty] at hm
    | snoc a hs ha ih =>
        intro wid target m hm hrole hactive
        rcases (step_spec a).1.promotion (run_sound hs) hm hrole hactive with
          ⟨m₀, hm₀, hrole₀, hactive₀⟩ | hpromotion
        · obtain ⟨e, he, hpromotion⟩ := ih wid target m₀ hm₀ hrole₀ hactive₀
          exact ⟨e, List.mem_cons_of_mem _ he, hpromotion⟩
        · exact ⟨_, List.mem_cons_self, hpromotion⟩

theorem no_privilege_escalation_founding :
    ∃ e ∈ Transition.events (step id) State.empty founding,
      Promotion e.before e.action 10 1 :=
  (no_privilege_escalation (Transition.exec_run State.empty founding (by decide +kernel))).2.2
    10 1 ⟨.admin, .active⟩ (by decide +kernel) rfl rfl

end Prism.Workspace
