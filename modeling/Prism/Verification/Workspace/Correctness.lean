import Prism.Verification.Workspace.Equations

/-! Owners and invitations in the reachable states. -/

namespace Prism.Workspace

/-! ## Owners -/

/-- Every workspace has one active owner, and members belong to workspaces. -/
structure Owned (db : Db) : Prop where
  known : ∀ wid uid m, db.members.get (wid, uid) = some m → (db.workspaces.get wid).isSome
  owner : ∀ wid, (db.workspaces.get wid).isSome → ∃ uid, Owns db wid uid
  single : ∀ wid uid uid', Owns db wid uid → Owns db wid uid' → uid = uid'

theorem GivenRole.role_ne_owner (role : GivenRole) : role.role ≠ .owner := by
  cases role <;> simp [GivenRole.role]

theorem owns_put {db : Db} {wid uid wid' uid' : UUID} {m : WorkspaceMember} :
    Owns { db with members := db.members.put (wid, uid) m } wid' uid' ↔
      (wid', uid') = (wid, uid) ∧ m.role = .owner ∧ m.status = .active ∨
        (wid', uid') ≠ (wid, uid) ∧ Owns db wid' uid' := by
  simp only [Owns, Table.get_put_eq_some]
  constructor
  · rintro ⟨r, ⟨hkey, rfl⟩ | ⟨hkey, hr⟩, hrole⟩
    · exact .inl ⟨hkey, hrole⟩
    · exact .inr ⟨hkey, r, hr, hrole⟩
  · rintro (⟨hkey, hrole⟩ | ⟨hkey, r, hr, hrole⟩)
    · exact ⟨m, .inl ⟨hkey, rfl⟩, hrole⟩
    · exact ⟨r, .inr ⟨hkey, hr⟩, hrole⟩

/-- A write to someone who is not the owner, and does not become it, keeps the owner. -/
theorem Owned.put {db : Db} (h : Owned db) {wid uid : UUID} {m : WorkspaceMember}
    (hknown : (db.workspaces.get wid).isSome) (hbefore : ¬ Owns db wid uid)
    (hafter : m.role ≠ .owner ∨ m.status ≠ .active) :
    Owned { db with members := db.members.put (wid, uid) m } ∧
      ∀ wid' uid', Owns { db with members := db.members.put (wid, uid) m } wid' uid' ↔
        Owns db wid' uid' := by
  have howns : ∀ wid' uid', Owns { db with members := db.members.put (wid, uid) m } wid' uid' ↔
      Owns db wid' uid' := by
    intro wid' uid'
    rw [owns_put]
    constructor
    · rintro (⟨-, hrole, hactive⟩ | ⟨-, howns⟩)
      · exact (hafter.elim (· hrole) (· hactive)).elim
      · exact howns
    · refine fun howns => .inr ⟨?_, howns⟩
      rintro hkey
      obtain ⟨rfl, rfl⟩ := Prod.mk.inj hkey
      exact hbefore howns
  refine ⟨⟨?_, ?_, ?_⟩, howns⟩
  · intro wid' uid' r hr
    rcases (Table.get_put_eq_some ..).mp hr with ⟨hkey, -⟩ | ⟨-, hr⟩
    · rw [(Prod.mk.inj hkey).1]
      exact hknown
    · exact h.known wid' uid' r hr
  · intro wid' hwid
    obtain ⟨uid', howner⟩ := h.owner wid' hwid
    exact ⟨uid', (howns wid' uid').mpr howner⟩
  · intro wid' uid₁ uid₂ h₁ h₂
    exact h.single wid' uid₁ uid₂ ((howns wid' uid₁).mp h₁) ((howns wid' uid₂).mp h₂)

theorem Owned.created {db : Db} (h : Owned db) {wid uid : UUID}
    (hnew : db.workspaces.get wid = none) :
    Owned { db with
      workspaces := db.workspaces.put wid .active
      members := db.members.put (wid, uid) ⟨.owner, .active⟩ } := by
  have hnone : ∀ uid', ¬ Owns db wid uid' := by
    rintro uid' ⟨m, hm, -⟩
    have := h.known wid uid' m hm
    simp [hnew] at this
  have howns : ∀ wid' uid', Owns { db with
      workspaces := db.workspaces.put wid .active
      members := db.members.put (wid, uid) ⟨.owner, .active⟩ } wid' uid' ↔
      wid' = wid ∧ uid' = uid ∨ wid' ≠ wid ∧ Owns db wid' uid' := by
    intro wid' uid'
    refine (@owns_put db _ _ _ _ _).trans ?_
    by_cases hwid : wid' = wid
    · subst wid'
      simp [hnone uid']
    · simp [hwid]
  refine ⟨?_, ?_, ?_⟩
  · intro wid' uid' r hr
    rw [Table.get_put]
    split_ifs with hwid
    · rfl
    · rcases (Table.get_put_eq_some ..).mp hr with ⟨hkey, -⟩ | ⟨-, hr⟩
      · exact (hwid (Prod.mk.inj hkey).1).elim
      · exact h.known wid' uid' r hr
  · intro wid' hwid'
    by_cases hwid : wid' = wid
    · exact ⟨uid, (howns wid' uid).mpr (.inl ⟨hwid, rfl⟩)⟩
    · rw [Table.get_put_of_ne _ _ hwid] at hwid'
      obtain ⟨uid', howner⟩ := h.owner wid' hwid'
      exact ⟨uid', (howns wid' uid').mpr (.inr ⟨hwid, howner⟩)⟩
  · intro wid' uid₁ uid₂ h₁ h₂
    rcases (howns wid' uid₁).mp h₁ with ⟨rfl, rfl⟩ | ⟨hwid, h₁⟩
    · rcases (howns _ uid₂).mp h₂ with ⟨-, rfl⟩ | ⟨hwid, -⟩
      · rfl
      · exact (hwid rfl).elim
    · rcases (howns wid' uid₂).mp h₂ with ⟨rfl, -⟩ | ⟨-, h₂⟩
      · exact (hwid rfl).elim
      · exact h.single wid' uid₁ uid₂ h₁ h₂

theorem Owned.transferred {db : Db} (h : Owned db) {wid uid target : UUID}
    (howner : Owns db wid uid) :
    Owned { db with
      members := (db.members.put (wid, uid) ⟨.admin, .active⟩).put (wid, target)
        ⟨.owner, .active⟩ } := by
  have hknown : (db.workspaces.get wid).isSome := by
    obtain ⟨m, hm, -⟩ := howner
    exact h.known wid uid m hm
  have howns : ∀ wid' uid', Owns { db with
      members := (db.members.put (wid, uid) ⟨.admin, .active⟩).put (wid, target)
        ⟨.owner, .active⟩ } wid' uid' ↔
      wid' = wid ∧ uid' = target ∨ wid' ≠ wid ∧ Owns db wid' uid' := by
    intro wid' uid'
    refine (@owns_put { db with members := db.members.put (wid, uid) ⟨.admin, .active⟩ }
      _ _ _ _ _).trans ?_
    rw [owns_put]
    by_cases hwid : wid' = wid
    · subst wid'
      have hsingle : Owns db wid uid' → uid' = uid := fun h' => h.single wid uid' uid h' howner
      simp only [Prod.mk.injEq, true_and, and_true, ne_eq, not_true_eq_false, false_and, or_false,
        reduceCtorEq, and_false, false_or, or_iff_left_iff_imp, and_imp]
      exact fun _ hne howns => (hne (hsingle howns)).elim
    · simp [hwid]
  refine ⟨?_, ?_, ?_⟩
  · intro wid' uid' r hr
    rcases (Table.get_put_eq_some ..).mp hr with ⟨hkey, -⟩ | ⟨-, hr⟩
    · rw [(Prod.mk.inj hkey).1]
      exact hknown
    · rcases (Table.get_put_eq_some ..).mp hr with ⟨hkey, -⟩ | ⟨-, hr⟩
      · rw [(Prod.mk.inj hkey).1]
        exact hknown
      · exact h.known wid' uid' r hr
  · intro wid' hwid'
    by_cases hwid : wid' = wid
    · exact ⟨target, (howns wid' target).mpr (.inl ⟨hwid, rfl⟩)⟩
    · obtain ⟨uid', howner'⟩ := h.owner wid' hwid'
      exact ⟨uid', (howns wid' uid').mpr (.inr ⟨hwid, howner'⟩)⟩
  · intro wid' uid₁ uid₂ h₁ h₂
    rcases (howns wid' uid₁).mp h₁ with ⟨rfl, rfl⟩ | ⟨hwid, h₁⟩
    · rcases (howns _ uid₂).mp h₂ with ⟨-, rfl⟩ | ⟨hwid, -⟩
      · rfl
      · exact (hwid rfl).elim
    · rcases (howns wid' uid₂).mp h₂ with ⟨rfl, -⟩ | ⟨-, h₂⟩
      · exact (hwid rfl).elim
      · exact h.single wid' uid₁ uid₂ h₁ h₂

theorem Effect.owned {w : State} {a : Action} {reply : Reply} {db : Db}
    {invitations : Table UUID Invitation} (heffect : Effect w a reply db invitations)
    (h : Owned w.db) (hcalls : ∀ call c, w.calls.get call = some c →
      (w.db.workspaces.get c.workspace).isSome) (henabled : enabled a w) : Owned db := by
  cases heffect with
  | idle => exact h
  | user uid u => exact ⟨h.known, h.owner, h.single⟩
  | activity wid status =>
      have hsome : ∀ wid', ((w.db.workspaces.put wid status).get wid').isSome =
          (w.db.workspaces.get wid').isSome := by
        intro wid'
        rw [Table.get_put]
        split_ifs with hwid
        · subst hwid
          exact henabled.symm
        · rfl
      refine ⟨fun wid' uid m hm => ?_, fun wid' hwid => ?_, h.single⟩
      · exact (hsome wid').trans (h.known wid' uid m hm)
      · exact h.owner wid' ((hsome wid').symm.trans hwid)
  | created hnew => exact h.created hnew
  | invited => exact h
  | listed => exact h
  | revoked => exact h
  | joined c found hcall hjoins =>
      refine (h.put (hcalls _ c hcall) ?_ ?_).1
      · rintro ⟨m, hm, -, hactive⟩
        exact hjoins.absent m hm hactive
      · exact .inl found.role.role_ne_owner
  | changed m howner hget hactive hrole =>
      refine (h.put (h.known _ _ m hget) ?_ ?_).1
      · rintro ⟨m', hm', hrole', -⟩
        obtain rfl := Option.some.inj (hget.symm.trans hm')
        exact hrole hrole'
      · exact .inl (GivenRole.role_ne_owner _)
  | left m status hget hactive hrole hstatus =>
      refine (h.put (h.known _ _ m hget) ?_ (.inr hstatus)).1
      rintro ⟨m', hm', hrole', -⟩
      obtain rfl := Option.some.inj (hget.symm.trans hm')
      exact hrole hrole'
  | transferred m howner => exact h.transferred howner

/-! ## Invitations -/

section Invitations

variable {w : State} {a : Action} {reply : Reply} {db : Db} {invitations : Table UUID Invitation}

/-- The place a pending invitation takes. -/
def pendingSlot (i : Invitation) : Option (UUID × ℕ) :=
  if i.status = .pending then some (i.workspaceId, i.targetGithubUserId) else none

theorem pendingSlot_eq_some {i : Invitation} {slot : UUID × ℕ} :
    pendingSlot i = some slot ↔
      i.status = .pending ∧ (i.workspaceId, i.targetGithubUserId) = slot := by
  unfold pendingSlot
  split_ifs with h <;> simp [h]

theorem pendingSlot_of_ne {i : Invitation} (h : i.status ≠ .pending) : pendingSlot i = none :=
  if_neg h

/-- A row that is no longer pending leaves its place. -/
theorem exclusive_close {table : Table UUID Invitation} (h : Table.Exclusive pendingSlot table)
    {iid : UUID} {i : Invitation} (hstatus : i.status ≠ .pending) :
    Table.Exclusive pendingSlot (table.put iid i) := by
  refine h.step fun k r slot hr hslot => .inl ?_
  rcases (Table.get_put_eq_some ..).mp hr with ⟨-, rfl⟩ | ⟨-, hr⟩
  · rw [pendingSlot_of_ne hstatus] at hslot
    contradiction
  · exact ⟨r, hr, hslot⟩

theorem exclusive_expire {table : Table UUID Invitation} (h : Table.Exclusive pendingSlot table)
    (wid : UUID) (now : Instant) : Table.Exclusive pendingSlot (expire table wid now) := by
  refine h.step fun k r slot hr hslot => .inl ?_
  obtain ⟨r₀, hr₀, rfl | ⟨-, rfl⟩⟩ := expire_row hr
  · exact ⟨r, hr₀, hslot⟩
  · rw [pendingSlot_of_ne (by simp)] at hslot
    contradiction

theorem Effect.exclusive (heffect : Effect w a reply db invitations)
    (h : Table.Exclusive pendingSlot w.invitations) : Table.Exclusive pendingSlot invitations := by
  cases heffect with
  | idle | user | activity | created | changed | left | transferred => exact h
  | @invited uid wid target role iid raw now created _ i hknown hnew hvacant hworkspace htarget hstatus =>
      refine (exclusive_expire h wid now).step fun k r slot hr hslot => ?_
      rcases (Table.get_put_eq_some ..).mp hr with ⟨rfl, rfl⟩ | ⟨-, hr⟩
      · refine .inr ⟨fun k₀ r₀ hr₀ hslot₀ => ?_, fun k₁ hne => Table.get_put_of_ne _ _ hne⟩
        obtain ⟨-, rfl⟩ := pendingSlot_eq_some.mp hslot
        obtain ⟨hpending, hsame⟩ := pendingSlot_eq_some.mp hslot₀
        obtain ⟨hwid, htgt⟩ := Prod.mk.inj hsame
        have := (Table.holds_eq_false_iff _ _).mp hvacant k₀ r₀ hr₀
        simp [hpending, hwid, htgt, hworkspace, htarget] at this
      · exact .inl ⟨r, hr, hslot⟩
  | listed => exact exclusive_expire h _ _
  | revoked => exact exclusive_close h (by simp)
  | joined => exact exclusive_close h (by simp)

/-- What an invitation keeps: its workspace, its target, and that it was accepted. -/
def Grows (i i' : Invitation) : Prop :=
  i'.workspaceId = i.workspaceId ∧ i'.targetGithubUserId = i.targetGithubUserId ∧
    i'.role = i.role ∧ (i.status ≠ .pending → i'.status = i.status)

theorem Grows.refl (i : Invitation) : Grows i i :=
  ⟨rfl, rfl, rfl, fun _ => rfl⟩

theorem keeps_expire (table : Table UUID Invitation) (wid : UUID) (now : Instant) :
    table.Keeps Grows (expire table wid now) := by
  intro iid i hi
  refine ⟨_, by rw [expire, Table.get_mapRows, hi]; rfl, ?_⟩
  simp only
  split_ifs with hexpires
  · exact ⟨rfl, rfl, rfl, fun hne => (hne hexpires.2.1).elim⟩
  · exact Grows.refl i

theorem Effect.keeps (heffect : Effect w a reply db invitations) :
    w.invitations.Keeps Grows invitations := by
  cases heffect with
  | idle | user | activity | created | changed | left | transferred =>
      exact Table.Keeps.refl Grows.refl _
  | invited i hknown hnew =>
      intro iid' i' hi'
      obtain ⟨i₁, hi₁, hgrows⟩ := keeps_expire w.invitations _ _ iid' i' hi'
      refine ⟨i₁, (Table.get_put_of_ne _ _ ?_).trans hi₁, hgrows⟩
      rintro rfl
      exact nomatch hnew.symm.trans hi₁
  | listed => exact keeps_expire _ _ _
  | revoked i hget hworkspace hstatus =>
      refine Table.keeps_put Grows.refl fun i₀ hi₀ => ?_
      obtain rfl := Option.some.inj (hget.symm.trans hi₀)
      exact ⟨rfl, rfl, rfl, fun hne => (hne hstatus).elim⟩
  | joined c found hcall hjoins =>
      refine Table.keeps_put Grows.refl fun i₀ hi₀ => ?_
      obtain rfl := Option.some.inj (hjoins.row.symm.trans hi₀)
      exact ⟨rfl, rfl, rfl, fun hne => (hne hjoins.waiting).elim⟩

def SameAccount (u u' : User) : Prop :=
  u'.githubUserId = u.githubUserId

theorem SameAccount.refl (u : User) : SameAccount u u :=
  rfl

/-- Workspaces stay, and users keep their GitHub accounts. -/
theorem Effect.stays (heffect : Effect w a reply db invitations) (henabled : enabled a w) :
    (∀ wid, (w.db.workspaces.get wid).isSome → (db.workspaces.get wid).isSome) ∧
      w.db.users.Keeps SameAccount db.users := by
  cases heffect with
  | user uid u =>
      refine ⟨fun _ h => h, Table.keeps_put SameAccount.refl fun u₀ hu₀ => ?_⟩
      simpa [SameAccount, enabled, hu₀, eq_comm] using henabled
  | activity wid status =>
      refine ⟨fun wid' h => ?_, Table.Keeps.refl SameAccount.refl _⟩
      simp only [Table.get_put]
      split_ifs
      · rfl
      · exact h
  | @created uid wid _ hnew =>
      refine ⟨fun wid' h => ?_, Table.Keeps.refl SameAccount.refl _⟩
      simp only [Table.get_put]
      split_ifs
      · rfl
      · exact h
  | _ => exact ⟨fun _ h => h, Table.Keeps.refl SameAccount.refl _⟩

/-- A new invitation is placed in a workspace. -/
theorem Effect.placed (heffect : Effect w a reply db invitations) {iid : UUID} {i : Invitation}
    (hi : invitations.get iid = some i) :
    (∃ i₀, w.invitations.get iid = some i₀ ∧ i₀.workspaceId = i.workspaceId) ∨
      (w.db.workspaces.get i.workspaceId).isSome := by
  have hrow : ∀ {wid : UUID} {now : Instant}, (expire w.invitations wid now).get iid = some i →
      ∃ i₀, w.invitations.get iid = some i₀ ∧ i₀.workspaceId = i.workspaceId := by
    intro wid now h
    obtain ⟨i₀, hi₀, rfl | ⟨-, rfl⟩⟩ := expire_row h
    · exact ⟨i, hi₀, rfl⟩
    · exact ⟨i₀, hi₀, rfl⟩
  cases heffect with
  | idle | user | activity | created | changed | left | transferred => exact .inl ⟨i, hi, rfl⟩
  | invited j hknown hnew hvacant hworkspace =>
      rcases (Table.get_put_eq_some ..).mp hi with ⟨-, rfl⟩ | ⟨-, hi⟩
      · exact .inr (hworkspace ▸ hknown)
      · exact .inl (hrow hi)
  | listed => exact .inl (hrow hi)
  | revoked j hget =>
      rcases (Table.get_put_eq_some ..).mp hi with ⟨rfl, rfl⟩ | ⟨-, hi⟩
      · exact .inl ⟨j, hget, rfl⟩
      · exact .inl ⟨i, hi, rfl⟩
  | joined c found hcall hjoins =>
      rcases (Table.get_put_eq_some ..).mp hi with ⟨rfl, rfl⟩ | ⟨-, hi⟩
      · exact .inl ⟨found, hjoins.row, rfl⟩
      · exact .inl ⟨i, hi, rfl⟩

def accepted (table : Table UUID Invitation) (iid : UUID) : Bool :=
  (table.get iid).any (·.status = .accepted)

theorem accepted_iff {table : Table UUID Invitation} {iid : UUID} :
    accepted table iid = true ↔ ∃ i, table.get iid = some i ∧ i.status = .accepted := by
  simp [accepted, Option.any_eq_true]

/-- An accepted invitation stays accepted, and only one that was not gets accepted. -/
theorem Effect.accepts (heffect : Effect w a reply db invitations) (iid : UUID) :
    (accepted w.invitations iid = true → accepted invitations iid = true) ∧
      (accepts w a reply iid = true →
        accepted w.invitations iid = false ∧ accepted invitations iid = true) := by
  constructor
  · rw [accepted_iff, accepted_iff]
    rintro ⟨i, hi, hstatus⟩
    obtain ⟨i', hi', -, -, -, hsame⟩ := heffect.keeps iid i hi
    exact ⟨i', hi', (hsame (by simp [hstatus])).trans hstatus⟩
  · intro haccepts
    cases heffect with
    | idle h => simp [h iid] at haccepts
    | @joined call now _ c found hcall hjoins =>
        have hiid : c.invitation = iid := by
          cases reply <;> simp [Workspace.accepts, hcall] at haccepts
          exact haccepts
        subst hiid
        refine ⟨?_, accepted_iff.mpr ⟨_, Table.get_put_self .., rfl⟩⟩
        simp [accepted, hjoins.row, hjoins.waiting]
    | _ => simp [Workspace.accepts] at haccepts

end Invitations

end Prism.Workspace
