import Prism.Foundation.Succession
import Prism.Verification.Auth.Equations

/-! The families of refresh tokens over whole runs. -/

namespace Prism.Auth

/-! ## Families -/

section Families

variable (sessions : Table UUID RefreshSession)

def Belongs (family id : UUID) : Prop :=
  ∃ s, sessions.get id = some s ∧ s.familyId = family

def successor (id : UUID) : Option UUID :=
  (sessions.get id).bind (·.replacedById)

/-- All sessions of a family are revoked, and there are some. -/
structure Dead (family : UUID) : Prop where
  opened : ∃ id, Belongs sessions family id
  revoked : ∀ id s, sessions.get id = some s → s.familyId = family → s.revokedAt.isSome

end Families

/-- The family an action can write to. -/
def target (w : State) : Action → Option UUID
  | .identified _ _ _ family _ _ => some family
  | .settle call _ _ =>
    match w.calls.get call with
    | some (.locking _ hash _) => (sessionOf w.sessions hash).map (·.2.familyId)
    | _ => none
  | _ => none

theorem target_settle {w : State} {call : ℕ} {fresh : Fresh} {clock : Clock} {op : Operation}
    {hash : String} {family id : UUID} {s : RefreshSession}
    (hcall : w.calls.get call = some (.locking op hash family))
    (hfind : sessionOf w.sessions hash = some (id, s)) :
    target w (.settle call fresh clock) = some s.familyId := by
  simp [target, hcall, hfind]

/-- The login that opens a family with its first session. -/
def Opens (family id : UUID) (e : Transition.Event State Action Reply) : Prop :=
  ∃ call identity uid fresh clock, e.action = .identified call identity uid family fresh clock ∧
    fresh.id = id ∧ e.outcome.Issues

/-- A token of the family that was rotated or revoked is presented to `refresh`. -/
def Replays (family : UUID) (e : Transition.Event State Action Reply) : Prop :=
  Reuses e.before e.action ∧ target e.before e.action = some family

/-- The family yields tokens. -/
def Yields (family : UUID) (e : Transition.Event State Action Reply) : Prop :=
  e.outcome.Issues ∧ target e.before e.action = some family

/-- What holds of the sessions in every reachable state. -/
structure Sound (trace : List (Transition.Event State Action Reply))
    (sessions : Table UUID RefreshSession) : Prop where
  paired : ∀ id s, sessions.get id = some s → (s.rotatedAt = none ↔ s.replacedById = none)
  hashes : Table.Exclusive (fun s => some s.tokenHash) sessions
  expiry : ∀ id s id' s', sessions.get id = some s → sessions.get id' = some s' →
    s.familyId = s'.familyId → s.expiresAt = s'.expiresAt
  lines : ∀ family, (∃ id, Belongs sessions family id) → ∃ path last,
    Succession (successor sessions) (Belongs sessions family) path last ∧
      ∃ first, (path ++ [last]).head? = some first ∧ ∃ e ∈ trace, Opens family first e

theorem sound_empty : Sound [] ∅ where
  paired id s h := by simp at h
  hashes := Table.exclusive_empty _
  expiry id s id' s' h := by simp at h
  lines family h := by
    obtain ⟨id, s, hs, -⟩ := h
    simp at hs

/-! ## Steps of the sessions -/

section Steps

variable {trace : List (Transition.Event State Action Reply)} {sessions : Table UUID RefreshSession}

theorem Sound.later (h : Sound trace sessions) (e : Transition.Event State Action Reply) :
    Sound (e :: trace) sessions where
  paired := h.paired
  hashes := h.hashes
  expiry := h.expiry
  lines family hopen := by
    obtain ⟨path, last, hline, first, hfirst, e', he', hopens⟩ := h.lines family hopen
    exact ⟨path, last, hline, first, hfirst, e', List.mem_cons_of_mem _ he', hopens⟩

/-- A new session has the hash of no other. -/
theorem Inserted.exclusive {id : UUID} {s : RefreshSession} (hins : Inserted sessions id s)
    (h : Table.Exclusive (fun s => some s.tokenHash) sessions) :
    Table.Exclusive (fun s => some s.tokenHash) (sessions.put id s) := by
  refine h.step fun k r hash hr hhash => ?_
  rcases (Table.get_put_eq_some ..).mp hr with ⟨rfl, rfl⟩ | ⟨-, hr⟩
  · obtain rfl := Option.some.inj hhash
    refine .inr ⟨fun k₀ r₀ hr₀ heq => hins.hash k₀ r₀ hr₀ (Option.some.inj heq), ?_⟩
    intro k₁ hne
    exact Table.get_put_of_ne _ _ hne
  · exact .inl ⟨r, hr, hhash⟩

theorem belongs_put {id k family : UUID} {s : RefreshSession} (hnone : sessions.get id = none) :
    Belongs (sessions.put id s) family k ↔
      Belongs sessions family k ∨ k = id ∧ s.familyId = family := by
  simp only [Belongs, Table.get_put_eq_some]
  constructor
  · rintro ⟨t, ⟨rfl, rfl⟩ | ⟨-, ht⟩, hfamily⟩
    · exact .inr ⟨rfl, hfamily⟩
    · exact .inl ⟨t, ht, hfamily⟩
  · rintro (⟨t, ht, hfamily⟩ | ⟨rfl, hfamily⟩)
    · refine ⟨t, .inr ⟨?_, ht⟩, hfamily⟩
      rintro rfl
      cases hnone.symm.trans ht
    · exact ⟨s, .inl ⟨rfl, rfl⟩, hfamily⟩

theorem ne_of_belongs {id k family : UUID} (hnone : sessions.get id = none)
    (hk : Belongs sessions family k) : k ≠ id := by
  rintro rfl
  obtain ⟨s, hs, -⟩ := hk
  exact nomatch hnone.symm.trans hs

/-- A login opens a family of its own. -/
theorem Sound.login (h : Sound trace sessions) {id : UUID} {s : RefreshSession}
    (hins : Inserted sessions id s) (hreplaced : s.replacedById = none) (hcurrent : s.Current)
    (hnew : ∀ k t, sessions.get k = some t → t.familyId ≠ s.familyId)
    {e : Transition.Event State Action Reply} (hopens : Opens s.familyId id e) :
    Sound (e :: trace) (sessions.put id s) where
  paired k t ht := by
    rcases (Table.get_put_eq_some ..).mp ht with ⟨rfl, rfl⟩ | ⟨-, ht⟩
    · simp [hcurrent.1, hreplaced]
    · exact h.paired k t ht
  hashes := hins.exclusive h.hashes
  expiry k t k' t' ht ht' hfamily := by
    rcases (Table.get_put_eq_some ..).mp ht with ⟨rfl, rfl⟩ | ⟨-, hold⟩
    · rcases (Table.get_put_eq_some ..).mp ht' with ⟨rfl, rfl⟩ | ⟨-, hold'⟩
      · rfl
      · exact (hnew k' t' hold' hfamily.symm).elim
    · rcases (Table.get_put_eq_some ..).mp ht' with ⟨rfl, rfl⟩ | ⟨-, hold'⟩
      · exact (hnew k t hold hfamily).elim
      · exact h.expiry k t k' t' hold hold' hfamily
  lines family hopen := by
    by_cases hfamily : s.familyId = family
    · subst hfamily
      refine ⟨[], id, .single (fun k => ?_) ?_, id, rfl, e, List.mem_cons_self, hopens⟩
      · rw [belongs_put hins.fresh]
        constructor
        · rintro (⟨t, ht, hfamily⟩ | ⟨rfl, -⟩)
          · exact (hnew k t ht hfamily).elim
          · rfl
        · exact fun heq => .inr ⟨heq, rfl⟩
      · simp [successor, hreplaced]
    · have hbelongs : ∀ k, Belongs (sessions.put id s) family k ↔ Belongs sessions family k :=
        fun k => by simp [belongs_put hins.fresh, hfamily]
      obtain ⟨k, hk⟩ := hopen
      obtain ⟨path, last, hline, first, hfirst, e', he', hopens'⟩ :=
        h.lines family ⟨k, (hbelongs k).mp hk⟩
      refine ⟨path, last, hline.congr hbelongs fun k hk => ?_, first, hfirst, e',
        List.mem_cons_of_mem _ he', hopens'⟩
      rw [successor, Table.get_put_of_ne _ _ (ne_of_belongs hins.fresh hk), successor]

/-- A rotation appends a session to the line of its family. -/
theorem Sound.rotated (h : Sound trace sessions) {id new : UUID} {s t : RefreshSession}
    {now : Instant} (hs : sessions.get id = some s) (hcurrent : s.Current)
    (hins : Inserted sessions new t) (hfamily : t.familyId = s.familyId)
    (hexpires : t.expiresAt = s.expiresAt) (hreplaced : t.replacedById = none)
    (hnew : t.Current) :
    Sound trace ((sessions.put new t).put id
      { s with rotatedAt := some now, replacedById := some new }) := by
  have hne : id ≠ new := ne_of_belongs hins.fresh ⟨s, hs, rfl⟩
  -- Besides the new session, each one keeps its family, its hash and its expiry.
  have hold : ∀ k r, ((sessions.put new t).put id
      { s with rotatedAt := some now, replacedById := some new }).get k = some r →
      k = new ∧ r = t ∨ ∃ r₀, sessions.get k = some r₀ ∧ r₀.familyId = r.familyId ∧
        r₀.tokenHash = r.tokenHash ∧ r₀.expiresAt = r.expiresAt ∧
        (k = id ∧ r.rotatedAt ≠ none ∧ r.replacedById ≠ none ∨ r = r₀) := by
    intro k r hr
    rcases (Table.get_put_eq_some ..).mp hr with ⟨rfl, rfl⟩ | ⟨-, hr⟩
    · exact .inr ⟨s, hs, rfl, rfl, rfl, .inl ⟨rfl, by simp, by simp⟩⟩
    · rcases (Table.get_put_eq_some ..).mp hr with ⟨rfl, rfl⟩ | ⟨-, hr⟩
      · exact .inl ⟨rfl, rfl⟩
      · exact .inr ⟨r, hr, rfl, rfl, rfl, .inr rfl⟩
  have hbelongs : ∀ family k, Belongs ((sessions.put new t).put id
      { s with rotatedAt := some now, replacedById := some new }) family k ↔
      Belongs sessions family k ∨ k = new ∧ s.familyId = family := by
    intro family k
    rw [← hfamily, ← belongs_put hins.fresh]
    by_cases hk : k = id
    · subst k
      simp [Belongs, Table.get_put_of_ne _ _ hne, hs, hfamily]
    · simp [Belongs, Table.get_put_of_ne _ _ hk]
  have hkeeps : ∀ k, k ≠ id → k ≠ new → successor ((sessions.put new t).put id
      { s with rotatedAt := some now, replacedById := some new }) k = successor sessions k := by
    intro k hid hk
    simp [successor, Table.get_put_of_ne _ _ hid, Table.get_put_of_ne _ _ hk]
  refine ⟨?_, ?_, ?_, ?_⟩
  · intro k r hr
    rcases hold k r hr with ⟨-, rfl⟩ | ⟨r₀, hr₀, -, -, -, ⟨-, hrotated, hlink⟩ | rfl⟩
    · simp [hnew.1, hreplaced]
    · simp [hrotated, hlink]
    · exact h.paired k r hr₀
  · refine (hins.exclusive h.hashes).step fun k r hash hr hhash => .inl ?_
    rcases (Table.get_put_eq_some ..).mp hr with ⟨rfl, rfl⟩ | ⟨-, hr⟩
    · exact ⟨s, (Table.get_put_of_ne _ _ hne).trans hs, hhash⟩
    · exact ⟨r, hr, hhash⟩
  · -- The expiry of the family is that of the session that was replaced.
    have hrepr : ∀ k r, ((sessions.put new t).put id
        { s with rotatedAt := some now, replacedById := some new }).get k = some r →
        ∃ k₀ r₀, sessions.get k₀ = some r₀ ∧ r₀.familyId = r.familyId ∧
          r₀.expiresAt = r.expiresAt := by
      intro k r hr
      rcases hold k r hr with ⟨-, rfl⟩ | ⟨r₀, hr₀, hfam, -, hexp, -⟩
      · exact ⟨id, s, hs, hfamily.symm, hexpires.symm⟩
      · exact ⟨k, r₀, hr₀, hfam, hexp⟩
    intro k r k' r' hr hr' heq
    obtain ⟨k₀, r₀, hr₀, hfam, hexp⟩ := hrepr k r hr
    obtain ⟨k₀', r₀', hr₀', hfam', hexp'⟩ := hrepr k' r' hr'
    rw [← hexp, ← hexp']
    exact h.expiry k₀ r₀ k₀' r₀' hr₀ hr₀' (by rw [hfam, hfam', heq])
  · intro family hopen
    have hopen₀ : ∃ k, Belongs sessions family k := by
      obtain ⟨k, hk⟩ := hopen
      rcases (hbelongs family k).mp hk with hk | ⟨-, rfl⟩
      · exact ⟨k, hk⟩
      · exact ⟨id, s, hs, rfl⟩
    obtain ⟨path, last, hline, first, hfirst, hevent⟩ := h.lines family hopen₀
    by_cases hfam : s.familyId = family
    · -- The session is current, so it is the last of its line.
      have hstops : successor sessions id = none := by
        simp [successor, hs, (h.paired id s hs).mp hcurrent.1]
      obtain rfl : id = last := hline.eq_last ⟨s, hs, hfam⟩ hstops
      refine ⟨path ++ [id], new, hline.extend ?_ ?_ ?_ ?_ ?_, first, ?_, hevent⟩
      · exact fun hk => ne_of_belongs hins.fresh hk rfl
      · intro k
        rw [hbelongs, and_iff_left hfam]
      · exact fun k hk hid => hkeeps k hid (ne_of_belongs hins.fresh hk)
      · simp [successor]
      · simp [successor, Table.get_put_of_ne _ _ hne.symm, hreplaced]
      · rw [List.head?_append, hfirst]
        rfl
    · refine ⟨path, last, hline.congr (fun k => ?_) (fun k hk => ?_), first, hfirst, hevent⟩
      · rw [hbelongs, or_iff_left fun hk => hfam hk.2]
      · refine hkeeps k ?_ (ne_of_belongs hins.fresh hk)
        rintro rfl
        obtain ⟨r, hr, hr'⟩ := hk
        obtain rfl := Option.some.inj (hs.symm.trans hr)
        exact hfam hr'

theorem get_revokeFamily {family : UUID} {now : Instant} {reason : RevokeReason} {k : UUID} :
    (revokeFamily sessions family now reason).get k =
      (sessions.get k).map fun s => if s.familyId = family then revoked now reason s else s :=
  Table.get_mapRows _ _ k

/-- A revocation changes nothing but the marks of it. -/
theorem revoked_fixed (now : Instant) (reason : RevokeReason) (s : RefreshSession) :
    (revoked now reason s).familyId = s.familyId ∧ (revoked now reason s).tokenHash = s.tokenHash ∧
      (revoked now reason s).expiresAt = s.expiresAt ∧
      (revoked now reason s).rotatedAt = s.rotatedAt ∧
      (revoked now reason s).replacedById = s.replacedById ∧
      (revoked now reason s).revokedAt.isSome := by
  unfold revoked
  split
  · simp
  · next h => simpa [Option.isSome_iff_ne_none] using h

theorem revokeFamily_row {family : UUID} {now : Instant} {reason : RevokeReason} {k : UUID}
    {r : RefreshSession} (h : (revokeFamily sessions family now reason).get k = some r) :
    ∃ r₀, sessions.get k = some r₀ ∧ r₀.familyId = r.familyId ∧ r₀.tokenHash = r.tokenHash ∧
      r₀.expiresAt = r.expiresAt ∧ r₀.rotatedAt = r.rotatedAt ∧
      r₀.replacedById = r.replacedById ∧ (r.familyId = family → r.revokedAt.isSome) ∧
      (r.familyId ≠ family → r = r₀) := by
  rw [get_revokeFamily, Option.map_eq_some_iff] at h
  obtain ⟨r₀, hr₀, rfl⟩ := h
  obtain ⟨hfam, hhash, hexp, hrot, hrep, hrev⟩ := revoked_fixed now reason r₀
  refine ⟨r₀, hr₀, ?_⟩
  split
  · next h => simp [hfam, hhash, hexp, hrot, hrep, hrev, h]
  · next h => simp [h]

theorem belongs_revokeFamily {family family' : UUID} {now : Instant} {reason : RevokeReason}
    {k : UUID} :
    Belongs (revokeFamily sessions family now reason) family' k ↔ Belongs sessions family' k := by
  constructor
  · rintro ⟨r, hr, rfl⟩
    obtain ⟨r₀, hr₀, hfam, -⟩ := revokeFamily_row hr
    exact ⟨r₀, hr₀, hfam⟩
  · rintro ⟨r, hr, hfam⟩
    refine ⟨_, by rw [get_revokeFamily, hr]; rfl, ?_⟩
    simp only
    split
    · exact (revoked_fixed now reason r).1.trans hfam
    · exact hfam

theorem dead_revokeFamily {family : UUID} (hopen : ∃ id, Belongs sessions family id) (now : Instant)
    (reason : RevokeReason) : Dead (revokeFamily sessions family now reason) family where
  opened := by
    obtain ⟨id, hid⟩ := hopen
    exact ⟨id, belongs_revokeFamily.mpr hid⟩
  revoked id r hr hfam := by
    obtain ⟨r₀, -, -, -, -, -, -, hrevoked, -⟩ := revokeFamily_row hr
    exact hrevoked hfam

theorem Sound.revoked (h : Sound trace sessions) (family : UUID) (now : Instant)
    (reason : RevokeReason) : Sound trace (revokeFamily sessions family now reason) where
  paired k r hr := by
    obtain ⟨r₀, hr₀, -, -, -, hrot, hrep, -⟩ := revokeFamily_row hr
    rw [← hrot, ← hrep]
    exact h.paired k r₀ hr₀
  hashes := by
    refine h.hashes.step fun k r hash hr hhash => .inl ?_
    obtain ⟨r₀, hr₀, -, heq, -⟩ := revokeFamily_row hr
    exact ⟨r₀, hr₀, by rw [← hhash, heq]⟩
  expiry k r k' r' hr hr' heq := by
    obtain ⟨r₀, hr₀, hfam, -, hexp, -⟩ := revokeFamily_row hr
    obtain ⟨r₀', hr₀', hfam', -, hexp', -⟩ := revokeFamily_row hr'
    rw [← hexp, ← hexp']
    exact h.expiry k r₀ k' r₀' hr₀ hr₀' (by rw [hfam, hfam', heq])
  lines family' hopen := by
    have hnext : ∀ k, successor (revokeFamily sessions family now reason) k =
        successor sessions k := by
      intro k
      rw [successor, successor, get_revokeFamily]
      cases sessions.get k with
      | none => rfl
      | some r =>
          simp only [Option.map_some, Option.bind_some]
          split
          · exact (revoked_fixed now reason r).2.2.2.2.1
          · rfl
    obtain ⟨k, hk⟩ := hopen
    obtain ⟨path, last, hline, hfirst⟩ := h.lines family' ⟨k, belongs_revokeFamily.mp hk⟩
    exact ⟨path, last, hline.congr (fun _ => belongs_revokeFamily) fun k _ => hnext k, hfirst⟩

end Steps

end Prism.Auth
