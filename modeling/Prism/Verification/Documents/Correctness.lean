import Prism.Verification.Documents.Equations

/-! Versions of documents in the reachable states and along runs. -/

namespace Prism.Standards

/-- A version of this number of a document is stored. -/
def Stored (versions : Table UUID StandardVersion) (did : UUID) (n : ℕ) : Prop :=
  ∃ vid v, versions.get vid = some v ∧ v.documentId = did ∧ v.version = n

/-- The versions of a document are numbered without gaps, up to its current one. -/
structure Numbered (versions : Table UUID StandardVersion) (did : UUID) (doc : StandardDocument) :
    Prop where
  pos : 1 ≤ doc.currentVersion
  limit : doc.currentVersion ≤ 20
  stored : ∀ n, Stored versions did n ↔ 1 ≤ n ∧ n ≤ doc.currentVersion

structure Sound (w : State) : Prop where
  numbered : ∀ did doc, w.documents.get did = some doc → Numbered w.versions did doc
  once : Table.Exclusive (fun v => some (v.documentId, v.version)) w.versions
  owned : ∀ vid v, w.versions.get vid = some v →
    ∃ doc, w.documents.get v.documentId = some doc ∧ doc.workspaceId = v.workspaceId
  placed : ∀ did doc, w.documents.get did = some doc → ∃ r,
    w.db.connections.get doc.repositoryConnectionId = some r ∧ r.workspaceId = doc.workspaceId
  few : ∀ repo, (w.documents.select fun _ d => d.repositoryConnectionId = repo).length ≤ 8

theorem sound_empty : Sound State.empty where
  numbered did doc h := by simp [State.empty] at h
  once := Table.exclusive_empty _
  owned vid v h := by simp [State.empty] at h
  placed did doc h := by simp [State.empty] at h
  few repo := by
    simp [State.empty, Table.select, Table.rows]

/-! ## Versions that are added -/

section Versions

variable {versions : Table UUID StandardVersion} {vid did : UUID} {n : ℕ} {v : StandardVersion}

theorem Fits.stored (hv : Fits versions vid did n v) (did' : UUID) (m : ℕ) :
    Stored (versions.put vid v) did' m ↔ Stored versions did' m ∨ did' = did ∧ m = n := by
  simp only [Stored, Table.get_put_eq_some]
  constructor
  · rintro ⟨k, u, ⟨rfl, rfl⟩ | ⟨-, hu⟩, hdoc, hversion⟩
    · exact .inr ⟨hdoc.symm.trans hv.document, hversion.symm.trans hv.number⟩
    · exact .inl ⟨k, u, hu, hdoc, hversion⟩
  · rintro (⟨k, u, hu, hdoc, hversion⟩ | ⟨rfl, rfl⟩)
    · refine ⟨k, u, .inr ⟨?_, hu⟩, hdoc, hversion⟩
      rintro rfl
      cases hv.fresh.symm.trans hu
    · exact ⟨vid, v, .inl ⟨rfl, rfl⟩, hv.document, hv.number⟩

theorem Fits.exclusive (hv : Fits versions vid did n v)
    (h : Table.Exclusive (fun v => some (v.documentId, v.version)) versions) :
    Table.Exclusive (fun v => some (v.documentId, v.version)) (versions.put vid v) := by
  refine h.step fun k u slot hu hslot => ?_
  rcases (Table.get_put_eq_some ..).mp hu with ⟨rfl, rfl⟩ | ⟨-, hu⟩
  · refine .inr ⟨fun k₀ u₀ hu₀ hsame => ?_, fun k₁ hne => Table.get_put_of_ne _ _ hne⟩
    obtain ⟨hdoc, hversion⟩ :=
      Prod.mk.inj (Option.some.inj (hsame.trans hslot.symm))
    exact hv.unique k₀ u₀ hu₀ (hdoc.trans hv.document) (hversion.trans hv.number)
  · exact .inl ⟨u, hu, hslot⟩

/-- Adding the next version keeps the numbering of its document. -/
theorem Numbered.extend {doc : StandardDocument} (h : Numbered versions did doc)
    (hlimit : doc.currentVersion < 20) (hv : Fits versions vid did (doc.currentVersion + 1) v) :
    Numbered (versions.put vid v) did { doc with currentVersion := doc.currentVersion + 1 } where
  pos := Nat.succ_pos _
  limit := hlimit
  stored m := by
    have hpos := h.pos
    rw [hv.stored, h.stored]
    simp only [true_and]
    omega

/-- It does not touch the others. -/
theorem Numbered.other {doc : StandardDocument} {did' : UUID} (h : Numbered versions did' doc)
    (hv : Fits versions vid did n v) (hne : did' ≠ did) :
    Numbered (versions.put vid v) did' doc where
  pos := h.pos
  limit := h.limit
  stored m := by
    rw [hv.stored, h.stored]
    simp [hne]

end Versions

/-! ## One step -/

section Steps

variable {w : State} {a : Action} {reply : Reply} {documents : Table UUID StandardDocument}
  {versions : Table UUID StandardVersion}

theorem Effect.numbered (heffect : Effect w a reply documents versions) (h : Sound w) {did : UUID}
    {doc : StandardDocument} (hdoc : documents.get did = some doc) :
    Numbered versions did doc := by
  cases heffect with
  | idle => exact h.numbered did doc hdoc
  | created view new v hcount hplace hfresh hwid hrepo hcurrent hv =>
      rcases (Table.get_put_eq_some ..).mp hdoc with ⟨rfl, rfl⟩ | ⟨hne, hdoc⟩
      · refine ⟨by omega, by omega, fun n => ?_⟩
        have hnone : ¬ Stored w.versions did n := by
          rintro ⟨k, u, hu, hid, -⟩
          obtain ⟨old, hold, -⟩ := h.owned k u hu
          rw [hid, hfresh] at hold
          contradiction
        rw [hv.stored]
        simp only [hnone, true_and, false_or]
        omega
      · exact (h.numbered did doc hdoc).other hv hne
  | extended view old v hget hwid hexpected hlimit hv =>
      rcases (Table.get_put_eq_some ..).mp hdoc with ⟨rfl, rfl⟩ | ⟨hne, hdoc⟩
      · exact (h.numbered did old hget).extend hlimit hv
      · exact (h.numbered did doc hdoc).other hv hne
  | activated old hget =>
      rcases (Table.get_put_eq_some ..).mp hdoc with ⟨rfl, rfl⟩ | ⟨-, hdoc⟩
      · exact ⟨(h.numbered did old hget).pos, (h.numbered did old hget).limit,
          (h.numbered did old hget).stored⟩
      · exact h.numbered did doc hdoc
  | removed old hget =>
      rw [Table.get_remove] at hdoc
      split_ifs at hdoc with hne
      have hold := h.numbered did doc hdoc
      refine ⟨hold.pos, hold.limit, fun n => ?_⟩
      rw [← hold.stored]
      constructor
      · rintro ⟨k, u, hu, hid⟩
        exact ⟨k, u, ((Table.get_discard_eq_some ..).mp hu).1, hid⟩
      · rintro ⟨k, u, hu, hid, hversion⟩
        refine ⟨k, u, (Table.get_discard_eq_some ..).mpr ⟨hu, ?_⟩, hid, hversion⟩
        simp [hid, hne]

theorem Effect.once (heffect : Effect w a reply documents versions) (h : Sound w) :
    Table.Exclusive (fun v => some (v.documentId, v.version)) versions := by
  cases heffect with
  | idle | activated => exact h.once
  | created view new v hcount hplace hfresh hwid hrepo hcurrent hv => exact hv.exclusive h.once
  | extended view old v hget hwid hexpected hlimit hv => exact hv.exclusive h.once
  | removed =>
      refine h.once.step fun k u slot hu hslot => .inl ?_
      exact ⟨u, ((Table.get_discard_eq_some ..).mp hu).1, hslot⟩

theorem Effect.owned (heffect : Effect w a reply documents versions) (h : Sound w) {vid : UUID}
    {v : StandardVersion} (hv : versions.get vid = some v) :
    ∃ doc, documents.get v.documentId = some doc ∧ doc.workspaceId = v.workspaceId := by
  -- A document that is written again keeps its workspace.
  have hput : ∀ {did : UUID} {old new : StandardDocument}, w.documents.get did = some old →
      new.workspaceId = old.workspaceId → ∀ {k u}, w.versions.get k = some u →
      ∃ doc, (w.documents.put did new).get u.documentId = some doc ∧
        doc.workspaceId = u.workspaceId := by
    intro did old new hold hsame k u hu
    obtain ⟨doc, hdoc, hwid⟩ := h.owned k u hu
    by_cases hid : u.documentId = did
    · subst hid
      obtain rfl := Option.some.inj (hold.symm.trans hdoc)
      exact ⟨new, Table.get_put_self .., hsame.trans hwid⟩
    · exact ⟨doc, (Table.get_put_of_ne _ _ hid).trans hdoc, hwid⟩
  cases heffect with
  | idle => exact h.owned vid v hv
  | created view new u hcount hplace hfresh hwid hrepo hcurrent hu huwid =>
      rcases (Table.get_put_eq_some ..).mp hv with ⟨-, rfl⟩ | ⟨-, hv⟩
      · exact ⟨new, by rw [hu.document, Table.get_put_self], hwid.trans huwid.symm⟩
      · obtain ⟨doc, hdoc, hsame⟩ := h.owned vid v hv
        refine ⟨doc, (Table.get_put_of_ne _ _ fun heq => ?_).trans hdoc, hsame⟩
        rw [heq, hfresh] at hdoc
        contradiction
  | extended view old u hget hwid hexpected hlimit hu huwid =>
      rcases (Table.get_put_eq_some ..).mp hv with ⟨-, rfl⟩ | ⟨-, hv⟩
      · rw [hu.document, Table.get_put_self]
        exact ⟨_, rfl, hwid.trans huwid.symm⟩
      · refine hput hget ?_ hv
        rfl
  | activated old hget =>
      refine hput hget ?_ hv
      rfl
  | @removed uid wid repo did expected old hget =>
      obtain ⟨hv, hkept⟩ := (Table.get_discard_eq_some ..).mp hv
      obtain ⟨doc, hdoc, hsame⟩ := h.owned vid v hv
      have hne : v.documentId ≠ did := by
        rintro rfl
        obtain rfl := Option.some.inj (hget.symm.trans hdoc)
        simp [hsame] at hkept
      exact ⟨doc, by rw [Table.get_remove, if_neg hne, hdoc], hsame⟩

theorem Effect.placed (heffect : Effect w a reply documents versions) (h : Sound w) {did : UUID}
    {doc : StandardDocument} (hdoc : documents.get did = some doc) : ∃ r,
    w.db.connections.get doc.repositoryConnectionId = some r ∧
      r.workspaceId = doc.workspaceId := by
  cases heffect with
  | idle => exact h.placed did doc hdoc
  | created view new v hcount hplace hfresh hwid hrepo =>
      rcases (Table.get_put_eq_some ..).mp hdoc with ⟨-, rfl⟩ | ⟨-, hdoc⟩
      · rw [hwid, hrepo]
        exact hplace
      · exact h.placed did doc hdoc
  | extended view old v hget =>
      rcases (Table.get_put_eq_some ..).mp hdoc with ⟨-, rfl⟩ | ⟨-, hdoc⟩
      · exact h.placed _ old hget
      · exact h.placed did doc hdoc
  | activated old hget =>
      rcases (Table.get_put_eq_some ..).mp hdoc with ⟨-, rfl⟩ | ⟨-, hdoc⟩
      · exact h.placed _ old hget
      · exact h.placed did doc hdoc
  | removed =>
      rw [Table.get_remove] at hdoc
      split_ifs at hdoc
      exact h.placed did doc hdoc

theorem Effect.few (heffect : Effect w a reply documents versions) (h : Sound w) (repo : UUID) :
    (documents.select fun _ d => d.repositoryConnectionId = repo).length ≤ 8 := by
  have hsame : (∀ did doc, documents.get did = some doc → ∃ old, w.documents.get did = some old ∧
      old.repositoryConnectionId = doc.repositoryConnectionId) →
      (documents.select fun _ d => d.repositoryConnectionId = repo).length ≤ 8 := by
    intro hkeeps
    refine le_trans (Table.length_select_le fun did doc hdoc hrepo => ?_) (h.few repo)
    obtain ⟨old, hold, heq⟩ := hkeeps did doc hdoc
    exact ⟨old, hold, by simpa [heq] using hrepo⟩
  have hput : ∀ {did : UUID} {old new : StandardDocument}, w.documents.get did = some old →
      new.repositoryConnectionId = old.repositoryConnectionId → ∀ k doc,
      (w.documents.put did new).get k = some doc → ∃ old, w.documents.get k = some old ∧
        old.repositoryConnectionId = doc.repositoryConnectionId := by
    intro did old new hold heq k doc hdoc
    rcases (Table.get_put_eq_some ..).mp hdoc with ⟨rfl, rfl⟩ | ⟨-, hdoc⟩
    · exact ⟨old, hold, heq.symm⟩
    · exact ⟨doc, hdoc, rfl⟩
  cases heffect with
  | idle => exact h.few repo
  | @created uid wid repo' body fresh vid now view new v hcount hplace hfresh hwid hrepo =>
      by_cases hrepo' : repo' = repo
      · -- All documents of the connection belong to its workspace, so they were counted.
        have hadd : ((w.documents.put fresh new).select fun _ d =>
            d.repositoryConnectionId = repo).length ≤ count w wid repo' + 1 := by
          refine Table.length_select_le_succ fresh fun did doc hdoc hdrepo hne => ?_
          rw [Table.get_put_of_ne _ _ hne] at hdoc
          simp only [decide_eq_true_eq] at hdrepo
          obtain ⟨r, hr, hrwid⟩ := hplace
          obtain ⟨r', hr', hrwid'⟩ := h.placed did doc hdoc
          rw [hdrepo, ← hrepo'] at hr'
          obtain rfl := Option.some.inj (hr.symm.trans hr')
          exact ⟨doc, hdoc, by simp [← hrwid', hrwid, hdrepo, hrepo']⟩
        omega
      · refine le_trans (Table.length_select_le fun did doc hdoc hdrepo => ?_) (h.few repo)
        simp only [decide_eq_true_eq] at hdrepo
        rcases (Table.get_put_eq_some ..).mp hdoc with ⟨rfl, rfl⟩ | ⟨-, hdoc⟩
        · exact (hrepo' (hrepo.symm.trans hdrepo)).elim
        · exact ⟨doc, hdoc, by simpa using hdrepo⟩
  | extended view old v hget =>
      refine hsame (hput hget ?_)
      rfl
  | activated old hget =>
      refine hsame (hput hget ?_)
      rfl
  | removed =>
      refine hsame fun k doc hdoc => ?_
      rw [Table.get_remove] at hdoc
      split_ifs at hdoc
      exact ⟨doc, hdoc, rfl⟩

theorem Sound.step (h : Sound w) {sha256 : List Char → List Char} (a : Action)
    (henabled : enabled a w) : Sound (step sha256 a w).2 := by
  obtain ⟨heffect, hconnections⟩ := @step_spec _ sha256 a henabled
  refine ⟨fun did doc => heffect.numbered h, heffect.once h, fun vid v => heffect.owned h,
    fun did doc hdoc => ?_, heffect.few h⟩
  obtain ⟨r, hr, hwid⟩ := heffect.placed h hdoc
  obtain ⟨r', hr', hsame⟩ := hconnections _ r hr
  exact ⟨r', hr', hsame.trans hwid⟩

end Steps

end Prism.Standards
