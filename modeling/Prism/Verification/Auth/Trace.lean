import Prism.Verification.Auth.Correctness

/-! Reuse and rotation along the runs of the service. -/

namespace Prism.Auth

section Effects

variable {trace : List (Transition.Event State Action Reply)} {w : State} {a : Action}
  {reply : Reply} {sessions : Table UUID RefreshSession}

theorem Effect.sound (heffect : Effect w a reply sessions) (h : Sound trace w.sessions)
    (hallowed : allowed a w) : Sound (⟨w, a, reply⟩ :: trace) sessions := by
  cases heffect with
  | idle hreply hreuse => exact h.later _
  | @login call identity uid family fresh clock _ s hins hfamily hreplaced hcurrent hissues =>
      subst hfamily
      refine h.login hins hreplaced hcurrent ?_ ⟨call, identity, uid, fresh, clock, rfl, rfl, hissues⟩
      intro k t ht
      simpa using (Table.holds_eq_false_iff _ _).mp hallowed k t ht
  | rotated s t hcall hfind hcurrent hins hfamily hexpires hreplaced hnew =>
      exact (h.rotated (sessionOf_eq_some hfind).1 hcurrent hins hfamily hexpires hreplaced
        hnew).later _
  | revoked s reason hcall hfind hreply => exact (h.revoked _ _ _).later _

/-- A step leaves the families alone that its action does not target. -/
theorem Effect.frame (heffect : Effect w a reply sessions) {id : UUID} {s : RefreshSession}
    (hs : some s.familyId ≠ target w a) :
    sessions.get id = some s ↔ w.sessions.get id = some s := by
  cases heffect with
  | idle hreply hreuse => rfl
  | @login call identity uid family fresh clock _ t hins hfamily =>
      have hne : s ≠ t := by
        rintro rfl
        exact hs (congrArg some hfamily)
      by_cases hid : id = fresh.id
      · subst id
        simp [hins.fresh, hne.symm]
      · rw [Table.get_put_of_ne _ _ hid]
  | @rotated call fresh clock hash family k _ r t hcall hfind hcurrent hins hfamily =>
      rw [target_settle hcall hfind] at hs
      have hfam : s.familyId ≠ r.familyId := fun heq => hs (congrArg some heq)
      have hr := (sessionOf_eq_some hfind).1
      by_cases hid : id = k
      · subst id
        rw [Table.get_put_self, hr]
        constructor
        · intro h
          exact (hfam (congrArg RefreshSession.familyId (Option.some.inj h)).symm).elim
        · intro h
          exact (hfam (congrArg RefreshSession.familyId (Option.some.inj h)).symm).elim
      · rw [Table.get_put_of_ne _ _ hid]
        by_cases hnew : id = fresh.id
        · subst id
          rw [Table.get_put_self, hins.fresh]
          constructor
          · intro h
            exact (hfam ((congrArg RefreshSession.familyId (Option.some.inj h)).symm.trans
              hfamily)).elim
          · intro h
            cases h
        · rw [Table.get_put_of_ne _ _ hnew]
  | revoked r reason hcall hfind hreply =>
      rw [target_settle hcall hfind] at hs
      have hfam : s.familyId ≠ r.familyId := fun heq => hs (congrArg some heq)
      constructor
      · intro h
        obtain ⟨s₀, hs₀, -, -, -, -, -, -, hsame⟩ := revokeFamily_row h
        exact hsame hfam ▸ hs₀
      · intro h
        simp [get_revokeFamily, h, hfam]

/-- A family that is wholly revoked stays so and yields nothing. -/
theorem Effect.dead (heffect : Effect w a reply sessions) (hallowed : allowed a w) {family : UUID}
    (h : Dead w.sessions family) : Dead sessions family ∧ ¬ Yields family ⟨w, a, reply⟩ := by
  by_cases htarget : target w a = some family
  · cases heffect with
    | idle hreply hreuse => exact ⟨h, fun hyields => hreply hyields.1⟩
    | login s hins hfamily =>
        obtain ⟨id, t, ht, hfam⟩ := h.opened
        obtain rfl := Option.some.inj htarget
        have hne := (Table.holds_eq_false_iff _ _).mp hallowed id t ht
        simp [hfam] at hne
    | rotated s t hcall hfind hcurrent =>
        rw [target_settle hcall hfind] at htarget
        have hrevoked := h.revoked _ s (sessionOf_eq_some hfind).1 (Option.some.inj htarget)
        simp [hcurrent.2] at hrevoked
    | revoked s reason hcall hfind hreply =>
        rw [target_settle hcall hfind] at htarget
        obtain rfl := Option.some.inj htarget
        exact ⟨dead_revokeFamily h.opened _ _, fun hyields => hreply hyields.1⟩
  · have hframe : ∀ id s, s.familyId = family →
        (sessions.get id = some s ↔ w.sessions.get id = some s) := by
      rintro id s rfl
      exact heffect.frame fun heq => htarget heq.symm
    refine ⟨⟨?_, ?_⟩, fun hyields => htarget hyields.2⟩
    · obtain ⟨id, s, hs, hfam⟩ := h.opened
      exact ⟨id, s, (hframe id s hfam).mpr hs, hfam⟩
    · exact fun id s hs hfam => h.revoked id s ((hframe id s hfam).mp hs) hfam

/-- A reused token ends its family. -/
theorem Effect.replayed (heffect : Effect w a reply sessions) {family : UUID}
    (h : Replays family ⟨w, a, reply⟩) : Dead sessions family := by
  obtain ⟨hreuse, htarget⟩ := h
  cases heffect with
  | idle hreply hnot => exact (hnot hreuse).elim
  | login s hins =>
      obtain ⟨_, _, _, _, _, _, _, ha, -⟩ := hreuse
      exact nomatch ha
  | rotated s t hcall hfind hcurrent =>
      obtain ⟨call, fresh, clock, hash, family', id, s', ha, hcall', hfind', hnot⟩ := hreuse
      obtain ⟨rfl, -, -⟩ := Action.settle.inj ha
      obtain ⟨-, rfl, -⟩ := Call.locking.inj (Option.some.inj (hcall.symm.trans hcall'))
      obtain ⟨-, rfl⟩ := Prod.mk.inj (Option.some.inj (hfind.symm.trans hfind'))
      exact (hnot hcurrent).elim
  | revoked s reason hcall hfind hreply =>
      rw [target_settle hcall hfind] at htarget
      obtain rfl := Option.some.inj htarget
      exact dead_revokeFamily ⟨_, s, (sessionOf_eq_some hfind).1, rfl⟩ _ _

end Effects

section Runs

variable {cfg : Settings} {trace : List (Transition.Event State Action Reply)} {w : State}

theorem run_sound (h : Run cfg trace w) : Sound trace w.sessions :=
  h.induct (fun trace w => Sound trace w.sessions) sound_empty
    fun _ _ a hsound hallowed => (step_effect a).sound hsound hallowed

/-- Once a family is revoked, the rest of the run gets nothing from it. -/
theorem dead_run {later : List (Transition.Event State Action Reply)} {w' : State}
    {family : UUID} (hdead : Dead w.sessions family)
    (h : Transition.Exec (step cfg) allowed w later w') :
    Dead w'.sessions family ∧ ∀ e ∈ later, ¬ Yields family e := by
  induction h with
  | nil => exact ⟨hdead, fun e he => nomatch he⟩
  | snoc a _ hallowed ih =>
      obtain ⟨hdead', hnone⟩ := (step_effect a).dead hallowed ih.1
      refine ⟨hdead', fun e he => ?_⟩
      rcases List.mem_cons.mp he with rfl | he
      · exact hnone
      · exact ih.2 e he

/-- What the service promises about the families of refresh tokens. -/
structure Families (cfg : Settings) (trace : List (Transition.Event State Action Reply))
    (w : State) : Prop where
  /-- A family has at most one session that was neither rotated nor revoked. -/
  current : ∀ id s id' s', w.sessions.get id = some s → w.sessions.get id' = some s' →
    s.familyId = s'.familyId → s.Current → s'.Current → id = id'
  /-- Its sessions form one line, which starts with a login. -/
  line : ∀ family, (∃ id, Belongs w.sessions family id) → ∃ path last,
    Succession (successor w.sessions) (Belongs w.sessions family) path last ∧
      ∃ first, (path ++ [last]).head? = some first ∧ ∃ e ∈ trace, Opens family first e
  /-- After a reuse it yields nothing. -/
  reuse : ∀ later e earlier family, trace = later ++ e :: earlier → Replays family e →
    ∀ e' ∈ later, ¬ Yields family e'
  /-- Its sessions expire together. -/
  expiry : ∀ id s id' s', w.sessions.get id = some s → w.sessions.get id' = some s' →
    s.familyId = s'.familyId → s.expiresAt = s'.expiresAt
  /-- No step touches the sessions of a family other than the one it is about. -/
  others : ∀ e ∈ trace, ∀ id s, some s.familyId ≠ target e.before e.action →
    ((step cfg e.action e.before).2.sessions.get id = some s ↔ e.before.sessions.get id = some s)

theorem refresh_families (h : Run cfg trace w) : Families cfg trace w where
  current id s id' s' hs hs' hfamily hcurrent hcurrent' := by
    have hsound := run_sound h
    obtain ⟨path, last, hline, -⟩ := hsound.lines s.familyId ⟨id, s, hs, rfl⟩
    have hstops : ∀ k r, w.sessions.get k = some r → r.Current → successor w.sessions k = none :=
      fun k r hr hcur => by simp [successor, hr, (hsound.paired k r hr).mp hcur.1]
    calc id = last := hline.eq_last ⟨s, hs, rfl⟩ (hstops id s hs hcurrent)
      _ = id' := (hline.eq_last ⟨s', hs', hfamily.symm⟩ (hstops id' s' hs' hcurrent')).symm
  line := (run_sound h).lines
  reuse := by
    rintro later ⟨before, action, outcome⟩ earlier family rfl hreplays
    obtain ⟨-, -, hout, hlater⟩ := h.split
    obtain rfl : outcome = (step cfg action before).1 := hout
    exact (dead_run ((step_effect action).replayed hreplays) hlater).2
  expiry := (run_sound h).expiry
  others e he id s hs := (step_effect e.action).frame hs

end Runs

/-! ## A replayed token -/

def ready : Settings where
  ready := true
  tokenHash := id

def letters (c : Char) : String :=
  .ofList (.replicate 43 c)

/-- A login whose token is refreshed once, presented again, and then its successor. -/
def replaying : List Action :=
  [.start "/" 1 (letters 's') (letters 'b') ⟨0, 0⟩,
    .callback 1 "code" (letters 's') (letters 'b') 0, .identified 1 (some 7) 2 3 ⟨4, letters 'x'⟩ ⟨0, 0⟩,
    .present 2 .refresh (letters 'x'), .settle 2 ⟨5, letters 'y'⟩ ⟨1, 1⟩,
    .present 3 .refresh (letters 'x'), .settle 3 ⟨6, letters 'z'⟩ ⟨2, 2⟩,
    .present 4 .refresh (letters 'y'), .settle 4 ⟨7, letters 'w'⟩ ⟨3, 3⟩]

theorem refresh_families_replaying :
    Families ready (Transition.events (step ready) .empty replaying)
        (Transition.run (step ready) .empty replaying) ∧
      (Transition.events (step ready) .empty replaying).map (·.outcome) =
        [.refused .sessionExpired, .waiting, .refused .sessionExpired, .waiting,
          .tokens 2 (letters 'y') (seconds 604800), .waiting,
          .tokens 2 (letters 'x') (seconds 604800), .waiting, .done] :=
  ⟨refresh_families (Transition.exec_run State.empty replaying (by decide +kernel)),
    by decide +kernel⟩

end Prism.Auth
