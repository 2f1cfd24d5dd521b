import Prism.Verification.Documents.Correctness

/-! No update of a team document is lost. -/

namespace Prism.Standards

section Steps

variable {w : State} {a : Action} {reply : Reply} {documents : Table UUID StandardDocument}
  {versions : Table UUID StandardVersion}

/-- A version counter only grows while its document is not removed. -/
theorem Effect.grows (heffect : Effect w a reply documents versions) {did : UUID}
    {doc : StandardDocument} (hdoc : w.documents.get did = some doc)
    (hkept : removes did a reply = false) :
    ∃ doc', documents.get did = some doc' ∧ doc.currentVersion ≤ doc'.currentVersion := by
  have hput : ∀ {k : UUID} {new : StandardDocument}, (k = did →
      doc.currentVersion ≤ new.currentVersion) → ∃ doc',
      (w.documents.put k new).get did = some doc' ∧ doc.currentVersion ≤ doc'.currentVersion := by
    intro k new hnew
    by_cases hk : did = k
    · exact ⟨new, by rw [hk, Table.get_put_self], hnew hk.symm⟩
    · exact ⟨doc, (Table.get_put_of_ne _ _ hk).trans hdoc, le_rfl⟩
  cases heffect with
  | idle => exact ⟨doc, hdoc, le_rfl⟩
  | created view new v hcount hplace hfresh =>
      refine hput fun heq => ?_
      rw [heq, hdoc] at hfresh
      contradiction
  | extended view old v hget =>
      refine hput fun heq => ?_
      subst heq
      obtain rfl := Option.some.inj (hget.symm.trans hdoc)
      exact Nat.le_succ _
  | activated old hget =>
      refine hput fun heq => ?_
      subst heq
      obtain rfl := Option.some.inj (hget.symm.trans hdoc)
      exact le_rfl
  | removed old hget =>
      refine ⟨doc, ?_, le_rfl⟩
      rw [Table.get_remove, if_neg, hdoc]
      rintro rfl
      simp [removes] at hkept

/-- A save moves the counter from the expected version to the next. -/
theorem Effect.saved (heffect : Effect w a reply documents versions) {did : UUID} {expected : ℤ}
    (hsaves : saves did expected a reply = true) :
    ∃ doc doc', w.documents.get did = some doc ∧ documents.get did = some doc' ∧
      expected = doc.currentVersion ∧ doc'.currentVersion = doc.currentVersion + 1 := by
  cases heffect with
  | idle h => simp [h did expected] at hsaves
  | extended view old v hget hwid hexpected =>
      simp only [saves, Bool.and_eq_true, decide_eq_true_eq] at hsaves
      obtain ⟨rfl, rfl⟩ := hsaves
      exact ⟨old, _, hget, Table.get_put_self .., hexpected, rfl⟩
  | _ => simp [saves] at hsaves

/-- Versions stay as they are until their document is removed. -/
theorem Effect.kept (heffect : Effect w a reply documents versions) {vid : UUID}
    {v : StandardVersion} (hv : w.versions.get vid = some v)
    (hkept : removes v.documentId a reply = false) : versions.get vid = some v := by
  have hput : ∀ {k did n} {new : StandardVersion}, Fits w.versions k did n new →
      (w.versions.put k new).get vid = some v := by
    intro k did n new hnew
    refine (Table.get_put_of_ne _ _ ?_).trans hv
    rintro rfl
    exact nomatch hnew.fresh.symm.trans hv
  cases heffect with
  | idle | activated => exact hv
  | created view new u hcount hplace hfresh hwid hrepo hcurrent hu => exact hput hu
  | extended view old u hget hwid hexpected hlimit hu => exact hput hu
  | removed =>
      refine (Table.get_discard_eq_some ..).mpr ⟨hv, ?_⟩
      simp only [removes, decide_eq_false_iff_not] at hkept
      simp [Ne.symm hkept]

/-- A request that fails changes nothing. -/
theorem step_refused {sha256 : List Char → List Char} {failure : Failure}
    (h : (step sha256 a w).1 = .refused failure) : (step sha256 a w).2 = w := by
  have hcommit : ∀ {α : Type} {tx : Tx α} {f : α → Reply × State},
      (∀ x, (f x).1 ≠ .refused failure) → (w.commit (tx.map f)).1 = .refused failure →
      (w.commit (tx.map f)).2 = w := by
    intro α tx f hf hrefused
    cases tx with
    | error failure => rfl
    | ok x => exact (hf x hrefused).elim
  cases a with
  | user | activity | member | connection => exact nomatch h
  | save => exact hcommit (fun _ hsaved => nomatch hsaved) h
  | activate => exact hcommit (fun _ hdone => nomatch hdone) h
  | remove => exact hcommit (fun _ hdone => nomatch hdone) h

end Steps

section Runs

variable {sha256 : List Char → List Char} {trace : List (Transition.Event State Action Reply)}
  {w w' : State}

theorem run_sound (h : Run sha256 trace w) : Sound w :=
  h.invariant Sound sound_empty fun _ a hsound => hsound.step a

/-- Of the saves of a document that expect one version, one succeeds while it exists. -/
theorem saved_once {did : UUID} {expected : ℤ}
    (h : Transition.Exec (step sha256) enabled w trace w')
    (hkept : ∀ e ∈ trace, removes did e.action e.outcome = false) :
    trace.countP (fun e => saves did expected e.action e.outcome) ≤ 1 ∧
      (1 ≤ trace.countP (fun e => saves did expected e.action e.outcome) →
        ∃ doc, w'.documents.get did = some doc ∧ expected < doc.currentVersion) := by
  induction h with
  | nil => simp
  | @snoc trace s a _ ha ih =>
      obtain ⟨ihcount, ihpast⟩ := ih fun e he => hkept e (List.mem_cons_of_mem _ he)
      have heffect := (@step_spec _ sha256 a ha).1
      have hnot := hkept _ List.mem_cons_self
      rw [List.countP_cons]
      split
      · next hsaves =>
          obtain ⟨doc, doc', hdoc, hdoc', hexpected, hnext⟩ := heffect.saved hsaves
          have hnone : trace.countP (fun e => saves did expected e.action e.outcome) = 0 := by
            by_contra hsome
            obtain ⟨past, hpast, hlt⟩ := ihpast (Nat.one_le_iff_ne_zero.mpr hsome)
            obtain rfl := Option.some.inj (hdoc.symm.trans hpast)
            omega
          exact ⟨by omega, fun _ => ⟨doc', hdoc', by omega⟩⟩
      · refine ⟨ihcount, fun hsome => ?_⟩
        obtain ⟨doc, hdoc, hlt⟩ := ihpast hsome
        obtain ⟨doc', hdoc', hle⟩ := heffect.grows hdoc hnot
        exact ⟨doc', hdoc', by omega⟩

/-- What the service promises about team documents. -/
structure Lossless (sha256 : List Char → List Char)
    (trace : List (Transition.Event State Action Reply)) (w : State) : Prop where
  /-- Versions are numbered from one to the current one, at most twenty. -/
  numbered : ∀ did doc, w.documents.get did = some doc → Numbered w.versions did doc
  /-- Each number is stored once. -/
  distinct : ∀ vid v vid' v', w.versions.get vid = some v → w.versions.get vid' = some v' →
    v.documentId = v'.documentId → v.version = v'.version → vid = vid'
  few : ∀ repo, (w.documents.select fun _ d => d.repositoryConnectionId = repo).length ≤ 8
  /-- While a document exists, one save succeeds for an expected version. -/
  exclusive : ∀ newer period older did expected, trace = newer ++ (period ++ older) →
    (∀ e ∈ period, removes did e.action e.outcome = false) →
    period.countP (fun e => saves did expected e.action e.outcome) ≤ 1
  /-- What was saved stays until its document is removed. -/
  kept : ∀ e ∈ trace, ∀ vid v, e.before.versions.get vid = some v →
    removes v.documentId e.action e.outcome = false →
    (step sha256 e.action e.before).2.versions.get vid = some v
  failed : ∀ e ∈ trace, ∀ failure, e.outcome = .refused failure →
    (step sha256 e.action e.before).2 = e.before

theorem no_lost_update (h : Run sha256 trace w) : Lossless sha256 trace w where
  numbered := (run_sound h).numbered
  distinct vid v vid' v' hv hv' hdoc hversion :=
    (run_sound h).once vid v vid' v' _ hv hv' rfl (by rw [hdoc, hversion])
  few := (run_sound h).few
  exclusive := by
    rintro newer period older did expected rfl hkept
    obtain ⟨late, hlate, -⟩ := h.cut
    obtain ⟨early, -, hperiod⟩ := hlate.cut
    exact (saved_once hperiod hkept).1
  kept e he vid v hv hkept := by
    obtain ⟨-, henabled, hout⟩ := h.passed he
    rw [hout] at hkept
    exact (step_spec e.action henabled).1.kept hv hkept
  failed e he failure hrefused := by
    obtain ⟨-, -, hout⟩ := h.passed he
    exact step_refused (hout.symm.trans hrefused)

end Runs

/-! ## Two editors -/

def draft (expected : ℤ) : DocumentInput :=
  { title := "Style".toList
    kind := .convention
    content := "# Names\nUse nouns.".toList
    expectedVersion := expected }

/-- A document is created, and then saved twice for the same version. -/
def editing : List Action :=
  [.user 1 ⟨101, .active, .senior⟩, .activity 10 .active, .member 10 1 ⟨.owner, .active⟩,
    .connection 5 ⟨10, 7, 8, "o", "r", false, none, .active, 1, 9, 1, 0, none, none⟩,
    .save 1 10 5 (draft 0) none 6 60 0, .save 1 10 5 (draft 1) (some 6) 0 61 1,
    .save 1 10 5 (draft 1) (some 6) 0 62 1]

theorem no_lost_update_editing :
    Lossless id (Transition.events (step id) .empty editing)
        (Transition.run (step id) .empty editing) ∧
      ((Transition.run (step id) .empty editing).documents.get 6).map (·.currentVersion) = some 2 :=
  ⟨no_lost_update (Transition.exec_run State.empty editing (by decide +kernel)),
    by decide +kernel⟩

end Prism.Standards
