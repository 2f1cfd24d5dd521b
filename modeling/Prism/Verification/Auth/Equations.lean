import Prism.Model.Auth

/-! What one step of the service does to the sessions. -/

namespace Prism.Auth

theorem sessionOf_eq_some {sessions : Table UUID RefreshSession} {hash : String} {id : UUID}
    {s : RefreshSession} (h : sessionOf sessions hash = some (id, s)) :
    sessions.get id = some s ∧ s.tokenHash = hash := by
  obtain ⟨hget, hhash⟩ := Table.find_spec h
  exact ⟨hget, by simpa using hhash⟩

/-- A session past the constraints of the table. -/
structure Inserted (sessions : Table UUID RefreshSession) (id : UUID) (s : RefreshSession) :
    Prop where
  fresh : sessions.get id = none
  hash : ∀ k t, sessions.get k = some t → t.tokenHash ≠ s.tokenHash

theorem insertSession_eq_some {sessions sessions' : Table UUID RefreshSession} {id : UUID}
    {s : RefreshSession} (h : insertSession sessions id s = some sessions') :
    Inserted sessions id s ∧ sessions' = sessions.put id s := by
  unfold insertSession at h
  split_ifs at h with hfails
  simp only [Bool.or_eq_true, not_or, Bool.not_eq_true, Option.isSome_eq_false_iff,
    Option.isNone_iff_eq_none] at hfails
  refine ⟨⟨hfails.1.1, ?_⟩, (Option.some.inj h).symm⟩
  intro k t ht
  simpa using (Table.holds_eq_false_iff _ _).mp hfails.1.2 k t ht

/-- A session without a successor that was not revoked. -/
def RefreshSession.Current (s : RefreshSession) : Prop :=
  s.rotatedAt = none ∧ s.revokedAt = none

/-- The call refreshes a token whose session is no longer current. -/
def Reuses (w : State) (a : Action) : Prop :=
  ∃ call fresh clock hash family id s, a = .settle call fresh clock ∧
    w.calls.get call = some (.locking .refresh hash family) ∧
    sessionOf w.sessions hash = some (id, s) ∧ ¬ s.Current

def Reply.Issues (reply : Reply) : Prop :=
  ∃ user token expires, reply = .tokens user token expires

/-- The sessions after a step. -/
inductive Effect (w : State) : Action → Reply → Table UUID RefreshSession → Prop where
  | idle {a reply} (hreply : ¬ reply.Issues) (hreuse : ¬ Reuses w a) :
      Effect w a reply w.sessions
  | login {call identity uid family fresh clock reply} (s : RefreshSession)
      (hins : Inserted w.sessions fresh.id s) (hfamily : s.familyId = family)
      (hreplaced : s.replacedById = none) (hcurrent : s.Current) (hissues : reply.Issues) :
      Effect w (.identified call identity uid family fresh clock) reply
        (w.sessions.put fresh.id s)
  | rotated {call fresh clock hash family id reply} (s t : RefreshSession)
      (hcall : w.calls.get call = some (.locking .refresh hash family))
      (hfind : sessionOf w.sessions hash = some (id, s)) (hcurrent : s.Current)
      (hins : Inserted w.sessions fresh.id t) (hfamily : t.familyId = s.familyId)
      (hexpires : t.expiresAt = s.expiresAt) (hreplaced : t.replacedById = none)
      (hnew : t.Current) :
      Effect w (.settle call fresh clock) reply ((w.sessions.put fresh.id t).put id
        { s with rotatedAt := some clock.now, replacedById := some fresh.id })
  | revoked {call fresh clock op hash family id reply} (s : RefreshSession) (reason : RevokeReason)
      (hcall : w.calls.get call = some (.locking op hash family))
      (hfind : sessionOf w.sessions hash = some (id, s)) (hreply : ¬ reply.Issues) :
      Effect w (.settle call fresh clock) reply
        (revokeFamily w.sessions s.familyId clock.now reason)

theorem not_reuses {w : State} {a : Action} (h : ∀ call fresh clock, a ≠ .settle call fresh clock) :
    ¬ Reuses w a := by
  rintro ⟨call, fresh, clock, -, -, -, -, rfl, -⟩
  exact h call fresh clock rfl

theorem not_issues_refused (r : Refusal) : ¬ (Reply.refused r).Issues := by
  rintro ⟨_, _, _, h⟩
  exact nomatch h

theorem not_issues_done : ¬ Reply.done.Issues := by
  rintro ⟨_, _, _, h⟩
  exact nomatch h

theorem not_issues_waiting : ¬ Reply.waiting.Issues := by
  rintro ⟨_, _, _, h⟩
  exact nomatch h

theorem not_issues_missing (op : Operation) : ¬ op.missing.Issues := by
  cases op
  · exact not_issues_refused _
  · exact not_issues_done

section Steps

variable {cfg : Settings} {w : State}

theorem start_effect (returnPath : String) (aid : UUID) (state binding : String) (clock : Clock) :
    Effect w (.start returnPath aid state binding clock)
      (start cfg w returnPath aid state binding clock).1
      (start cfg w returnPath aid state binding clock).2.sessions := by
  have hreuse : ¬ Reuses w (.start returnPath aid state binding clock) :=
    not_reuses fun _ _ _ h => nomatch h
  unfold start
  split
  · exact .idle (not_issues_refused _) hreuse
  · split
    · exact .idle (not_issues_refused _) hreuse
    · simp only
      split
      · exact .idle (not_issues_refused _) hreuse
      · exact .idle not_issues_done hreuse

theorem callback_effect (call : ℕ) (code state binding : String) (now : Instant) :
    Effect w (.callback call code state binding now)
      (callback cfg w call code state binding now).1
      (callback cfg w call code state binding now).2.sessions := by
  have hreuse : ¬ Reuses w (.callback call code state binding now) :=
    not_reuses fun _ _ _ h => nomatch h
  unfold callback
  split
  · exact .idle (not_issues_refused _) hreuse
  · split
    · exact .idle (not_issues_refused _) hreuse
    · split
      · exact .idle (not_issues_refused _) hreuse
      · exact .idle not_issues_waiting hreuse

theorem present_effect (call : ℕ) (op : Operation) (raw : String) :
    Effect w (.present call op raw) (present cfg w call op raw).1
      (present cfg w call op raw).2.sessions := by
  have hreuse : ¬ Reuses w (.present call op raw) := not_reuses fun _ _ _ h => nomatch h
  unfold present
  split
  · exact .idle (not_issues_refused _) hreuse
  · split
    · exact .idle (not_issues_missing op) hreuse
    · split
      · exact .idle (not_issues_missing op) hreuse
      · exact .idle not_issues_waiting hreuse

theorem identified_effect (call : ℕ) (identity : Option ℕ) (uid family : UUID) (fresh : Fresh)
    (clock : Clock) :
    Effect w (.identified call identity uid family fresh clock)
      (identified cfg w call identity uid family fresh clock).1
      (identified cfg w call identity uid family fresh clock).2.sessions := by
  have hreuse : ¬ Reuses w (.identified call identity uid family fresh clock) :=
    not_reuses fun _ _ _ h => nomatch h
  unfold identified
  split
  · split
    · exact .idle (not_issues_refused _) hreuse
    · split
      · exact .idle (not_issues_refused _) hreuse
      · simp only
        split
        · exact .idle (not_issues_refused _) hreuse
        · next sessions hins =>
            obtain ⟨hinserted, rfl⟩ := insertSession_eq_some hins
            exact .login _ hinserted rfl rfl ⟨rfl, rfl⟩ ⟨_, _, _, rfl⟩
  · exact .idle not_issues_waiting hreuse

theorem rotate_eq_some {sessions sessions' : Table UUID RefreshSession} {id : UUID}
    {s : RefreshSession} {hash : String} {fresh : Fresh} {clock : Clock}
    (h : rotate sessions id s hash fresh clock = some sessions') :
    ∃ t : RefreshSession, Inserted sessions fresh.id t ∧ t.familyId = s.familyId ∧
      t.expiresAt = s.expiresAt ∧ t.replacedById = none ∧ t.Current ∧
      sessions' = (sessions.put fresh.id t).put id
        { s with rotatedAt := some clock.now, replacedById := some fresh.id } := by
  simp only [rotate, Option.map_eq_some_iff] at h
  obtain ⟨inserted, hins, rfl⟩ := h
  obtain ⟨hinserted, rfl⟩ := insertSession_eq_some hins
  exact ⟨_, hinserted, rfl, rfl, rfl, ⟨rfl, rfl⟩, rfl⟩

theorem refreshLocked_effect {call : ℕ} {hash : String} {family : UUID} (fresh : Fresh)
    (clock : Clock) (hcall : w.calls.get call = some (.locking .refresh hash family)) :
    Effect w (.settle call fresh clock) (refreshLocked cfg w call hash fresh clock).1
      (refreshLocked cfg w call hash fresh clock).2.sessions := by
  have hidle : ∀ r : Refusal, (∀ id s, sessionOf w.sessions hash = some (id, s) → s.Current) →
      Effect w (.settle call fresh clock) (.refused r) w.sessions := by
    intro r hcurrent
    refine .idle (not_issues_refused r) ?_
    rintro ⟨call', fresh', clock', hash', family', id, s, ha, hcall', hfind, hreused⟩
    obtain ⟨rfl, -, -⟩ := Action.settle.inj ha
    rw [hcall] at hcall'
    obtain ⟨-, rfl, -⟩ := Call.locking.inj (Option.some.inj hcall')
    exact hreused (hcurrent id s hfind)
  unfold refreshLocked
  split
  · next hnone => exact hidle _ fun id s h => nomatch hnone.symm.trans h
  · next id s hfind =>
      have hfound : ¬ (s.rotatedAt.isSome = true ∨ s.revokedAt.isSome = true) →
          ∀ id' s', sessionOf w.sessions hash = some (id', s') → s'.Current := by
        intro hnot id' s' h
        obtain ⟨rfl, rfl⟩ := Prod.mk.inj (Option.some.inj (hfind.symm.trans h))
        simpa [RefreshSession.Current] using hnot
      split
      · exact .revoked s .reuse hcall hfind (not_issues_refused _)
      · next hcurrent =>
          split
          · split
            · exact hidle _ (hfound hcurrent)
            · split
              · exact hidle _ (hfound hcurrent)
              · split
                · exact hidle _ (hfound hcurrent)
                · next sessions hrotate =>
                    obtain ⟨t, hins, hfamily, hexpires, hreplaced, hnew, rfl⟩ :=
                      rotate_eq_some hrotate
                    exact .rotated s t hcall hfind (hfound hcurrent id s hfind) hins hfamily
                      hexpires hreplaced hnew
          · exact hidle _ (hfound hcurrent)

theorem logoutLocked_effect {call : ℕ} {hash : String} {family : UUID} (fresh : Fresh)
    (clock : Clock) (hcall : w.calls.get call = some (.locking .logout hash family)) :
    Effect w (.settle call fresh clock) (logoutLocked w call hash clock).1
      (logoutLocked w call hash clock).2.sessions := by
  unfold logoutLocked
  cases hfind : sessionOf w.sessions hash with
  | none =>
      refine .idle not_issues_done ?_
      rintro ⟨call', fresh', clock', hash', family', id, s, ha, hcall', -⟩
      obtain ⟨rfl, -, -⟩ := Action.settle.inj ha
      exact nomatch hcall.symm.trans hcall'
  | some found => exact .revoked found.2 .logout hcall hfind not_issues_done

/-- Every step has one of the effects. -/
theorem step_effect (a : Action) : Effect w a (step cfg a w).1 (step cfg a w).2.sessions := by
  cases a with
  | setUser uid user => exact .idle not_issues_done (not_reuses (by rintro _ _ _ ⟨⟩))
  | start returnPath aid state binding clock =>
      exact start_effect returnPath aid state binding clock
  | callback call code state binding now => exact callback_effect call code state binding now
  | identified call identity uid family fresh clock =>
      exact identified_effect call identity uid family fresh clock
  | present call op raw => exact present_effect call op raw
  | settle call fresh clock =>
      simp only [step, settle]
      split
      · next hash family hcall => exact refreshLocked_effect fresh clock hcall
      · next hash family hcall => exact logoutLocked_effect fresh clock hcall
      · next hrefresh hlogout =>
          refine .idle not_issues_waiting ?_
          rintro ⟨call', fresh', clock', hash, family, id, s, ha, hcall, -⟩
          obtain ⟨rfl, -, -⟩ := Action.settle.inj ha
          exact hrefresh hash family hcall
  | abort call => exact .idle not_issues_done (not_reuses (by rintro _ _ _ ⟨⟩))

end Steps

end Prism.Auth
