import Prism.Verification.Access.Correctness
import Prism.Verification.Documents.Trace
import Prism.Verification.Listings.Pulls
import Prism.Verification.Tenancy.Equations

/-! # Tenant isolation of reads

What a read answers in a workspace depends on the rows of the workspace only, whatever ids
and cursors it is asked with. -/

namespace Prism

open Keyset

variable {wid uid : UUID} {w w' : Standards.State}

theorem distinct_newest {ρ : Type} (created : ρ → Instant) (t : Table UUID ρ)
    (q : UUID → ρ → Bool) : Distinct (newestKey created) (t.select q) :=
  Table.distinct_select
    (fun _ _ heq => congrArg Prod.snd (toLex_inj.mp (OrderDual.toDual_inj.mp heq))) q

/-! ## Each read -/

theorem Agree.analysisHistory (h : Agree wid w w') (uid pid : UUID) :
    Analysis.history w.db uid wid pid = Analysis.history w'.db uid wid pid := by
  have hrows := h.analysisRuns.ordered_select
    (q := fun _ r => decide (r.workspaceId = wid) && decide (r.prId = pid))
    (fun _ _ hr => Bool.and_elim_left hr) (distinct_newest AnalysisRun.createdAt _ _)
  rw [Analysis.history, Analysis.history, h.analysisSnapshot, hrows]

theorem Agree.reviewHistory (h : Agree wid w w') (uid aid : UUID) (purpose : Purpose) :
    Review.history w.db uid wid aid purpose = Review.history w'.db uid wid aid purpose := by
  have hrows := h.reviewRuns.ordered_select
    (q := fun _ r => decide (r.workspaceId = wid) && decide (r.analysisId = aid) &&
      decide (r.purpose = purpose))
    (fun _ _ hr => Bool.and_elim_left (Bool.and_elim_left hr))
    (distinct_newest ReviewRun.createdAt _ _)
  rw [Review.history, Review.history, h.authorized, hrows]

theorem distinct_findingKey {rows : List Finding} (h : Distinct Finding.id rows) :
    Distinct Analysis.findingKey rows :=
  h.imp fun hne heq => hne (congrArg Prod.snd (toLex_inj.mp heq))

theorem Agree.matching (h : Agree wid w w') (hw : Keyed w) (hw' : Keyed w') (aid : UUID)
    (category : Option Category) : (Analysis.matching w.db wid aid category).Perm
      (Analysis.matching w'.db wid aid category) := by
  refine filter_perm (fun f hf => h.findings f ?_) hw.findings hw'.findings
  exact of_decide_eq_true (Bool.and_elim_left (Bool.and_elim_left hf))

theorem Agree.findingsPage (h : Agree wid w w') (hw : Keyed w) (hw' : Keyed w') (uid aid : UUID)
    (category : Option Category) (cursor : Option UUID) :
    Analysis.findingsPage w.db uid wid aid category cursor =
      Analysis.findingsPage w'.db uid wid aid category cursor := by
  have hrows := h.matching hw hw' aid category
  have hdistinct := distinct_findingKey (hw.findings.filter fun f =>
    f.workspaceId = wid && f.analysisId = aid && category.all fun c => f.entry.category = c)
  have hquery : Analysis.findingsQuery w.db wid aid category cursor =
      Analysis.findingsQuery w'.db wid aid category cursor := by
    unfold Analysis.findingsQuery
    cases cursor with
    | none =>
        dsimp only
        rw [ordered_eq_of_perm hrows hdistinct]
    | some cursor =>
        have hprevious : w.db.findings.find? (fun f => decide (f.workspaceId = wid) &&
              decide (f.analysisId = aid) && decide (f.id = cursor)) =
            w'.db.findings.find? (fun f => decide (f.workspaceId = wid) &&
              decide (f.analysisId = aid) && decide (f.id = cursor)) := by
          refine find?_congr (fun f hf => h.findings f ?_) fun f hf g hg hpf hpg => ?_
          · exact of_decide_eq_true (Bool.and_elim_left (Bool.and_elim_left hf))
          · exact hw.findings.eq_of_key hg hf ((of_decide_eq_true (Bool.and_elim_right hpg)).trans
              (of_decide_eq_true (Bool.and_elim_right hpf)).symm)
        dsimp only
        rw [hprevious]
        split
        · rfl
        · rw [ordered_eq_of_perm (hrows.filter _) (hdistinct.filter _)]
  rw [Analysis.findingsPage, Analysis.findingsPage, h.authorized, hquery]

theorem Agree.filesPage (h : Agree wid w w') (hw : Keyed w) (hw' : Keyed w') (uid aid : UUID)
    (cursor : Option UUID) :
    Analysis.filesPage w.db uid wid aid cursor = Analysis.filesPage w'.db uid wid aid cursor := by
  have hrows : (w.db.fileResults.filter fun r => decide (r.workspaceId = wid) &&
        decide (r.analysisId = aid)).Perm
      (w'.db.fileResults.filter fun r => decide (r.workspaceId = wid) &&
        decide (r.analysisId = aid)) :=
    filter_perm (fun f hf => h.fileResults f (of_decide_eq_true (Bool.and_elim_left hf)))
      hw.fileResults hw'.fileResults
  have hdistinct := hw.fileResults.filter fun r => decide (r.workspaceId = wid) &&
    decide (r.analysisId = aid)
  have hquery : Analysis.filesQuery w.db wid aid cursor =
      Analysis.filesQuery w'.db wid aid cursor := by
    unfold Analysis.filesQuery
    cases cursor with
    | none =>
        dsimp only
        rw [ordered_eq_of_perm hrows hdistinct]
    | some cursor =>
        dsimp only
        rw [ordered_eq_of_perm (hrows.filter _) (hdistinct.filter _)]
  rw [Analysis.filesPage, Analysis.filesPage, h.authorized, hquery]

theorem Agree.pullIn (h : Agree wid w w') (pid : UUID) :
    Sync.pullIn w.db.pullRequests wid pid = Sync.pullIn w'.db.pullRequests wid pid :=
  h.pullRequests.get_filter (fun _ _ => id) pid

theorem Agree.pullsPage (h : Agree wid w w') (uid rid : UUID) (cursor : Option UUID) :
    Sync.pullsPage w.db uid wid rid cursor = Sync.pullsPage w'.db uid wid rid cursor := by
  have hrows : (Sync.pullsOf w.db.pullRequests wid rid).Perm
      (Sync.pullsOf w'.db.pullRequests wid rid) :=
    h.pullRequests.select_perm fun _ _ hr => Bool.and_elim_left hr
  have hdistinct : Distinct Sync.pullKey (Sync.pullsOf w.db.pullRequests wid rid) :=
    Sync.distinct_pullKey wid rid
  have hquery : Sync.listing w.db.pullRequests wid rid cursor =
      Sync.listing w'.db.pullRequests wid rid cursor := by
    unfold Sync.listing
    cases cursor with
    | none =>
        dsimp only
        rw [ordered_eq_of_perm hrows hdistinct]
    | some cursor =>
        dsimp only
        rw [h.pullIn]
        split
        · rfl
        · rw [ordered_eq_of_perm (hrows.filter _) (hdistinct.filter _)]
  rw [Sync.pullsPage, Sync.pullsPage, h.requireRepository, hquery]

theorem Agree.detail (h : Agree wid w w') (uid pid : UUID) :
    Sync.detail w.db uid wid pid = Sync.detail w'.db uid wid pid := by
  rw [Sync.detail, Sync.detail, h.requirePermission, h.pullIn]
  refine bind_congr fun _ => ?_
  split
  · rfl
  · rw [h.requireRepository]

theorem Agree.syncStatus (h : Agree wid w w') (uid rid sid : UUID) :
    Sync.status w.db uid wid rid sid = Sync.status w'.db uid wid rid sid := by
  have hrow := h.syncRuns.get_filter
    (q := fun _ r => decide (r.workspaceId = wid) && decide (r.repositoryConnectionId = rid))
    (fun _ _ hr => Bool.and_elim_left hr) sid
  rw [Sync.status, Sync.status, h.requireRepository, hrow]

theorem Agree.latest (h : Agree wid w w') (uid rid : UUID) :
    Sync.latest w.db uid wid rid = Sync.latest w'.db uid wid rid := by
  rw [Sync.latest, Sync.latest, h.requireRepository]
  refine bind_congr fun repo => ?_
  have hrows := h.syncRuns.ordered_select
    (q := fun _ r => decide (r.workspaceId = wid) && decide (r.repositoryConnectionId = rid) &&
      decide (r.connectionGeneration = repo.connectionGeneration) &&
      decide (r.mode ∈ [SyncMode.recent, SyncMode.page]))
    (fun _ _ hr => Bool.and_elim_left (Bool.and_elim_left (Bool.and_elim_left hr)))
    (distinct_newest PullRequestSyncRun.createdAt _ _)
  rw [hrows]

theorem Agree.document (h : Agree wid w w') (repo did : UUID) :
    Standards.document w wid repo did = Standards.document w' wid repo did := by
  have hrow := h.documents.get_filter
    (q := fun _ d => decide (d.workspaceId = wid) && decide (d.repositoryConnectionId = repo))
    (fun _ _ hr => Bool.and_elim_left hr) did
  rw [Standards.document, Standards.document, hrow]

theorem Agree.versionOf (h : Agree wid w w') (did : UUID) (number : ℕ) :
    Standards.versionOf w wid did number = Standards.versionOf w' wid did number := by
  have hrows := h.versions.ordered_select
    (q := fun _ v => decide (v.workspaceId = wid) && decide (v.documentId = did) &&
      decide (v.version = number))
    (fun _ _ hr => Bool.and_elim_left (Bool.and_elim_left hr))
    (Table.distinct_select (fun _ _ heq => heq) _)
  rw [Standards.versionOf, Standards.versionOf, hrows]

theorem distinct_documentKey (t : Table UUID Standards.StandardDocument)
    (q : UUID → Standards.StandardDocument → Bool) :
    Distinct Standards.documentKey (t.select q) :=
  Table.distinct_select (fun _ _ heq => congrArg Prod.snd (toLex_inj.mp heq)) q

theorem distinct_versionKey (t : Table UUID Standards.StandardVersion)
    (q : UUID → Standards.StandardVersion → Bool) :
    Distinct Standards.versionKey (t.select q) :=
  Table.distinct_select
    (fun _ _ heq => congrArg Prod.snd (toLex_inj.mp (OrderDual.toDual_inj.mp heq))) q

theorem Agree.listDocuments (h : Agree wid w w') (uid repo : UUID) :
    Standards.listDocuments w uid wid repo = Standards.listDocuments w' uid wid repo := by
  have hrows := h.documents.ordered_select
    (q := fun _ d => decide (d.workspaceId = wid) && decide (d.repositoryConnectionId = repo))
    (fun _ _ hr => Bool.and_elim_left hr) (distinct_documentKey _ _)
  rw [Standards.listDocuments, Standards.listDocuments, h.standardsAccess, hrows]
  simp only [h.versionOf]

theorem Agree.documentHistory (h : Agree wid w w') (uid repo did : UUID) :
    Standards.history w uid wid repo did = Standards.history w' uid wid repo did := by
  have hrows := h.versions.ordered_select
    (q := fun _ v => decide (v.workspaceId = wid) && decide (v.documentId = did))
    (fun _ _ hr => Bool.and_elim_left hr) (distinct_versionKey _ _)
  rw [Standards.history, Standards.history, h.standardsAccess, h.document, hrows]

theorem Agree.documentVersion (h : Agree wid w w') (uid repo did : UUID) (number : ℕ) :
    Standards.get w uid wid repo did number = Standards.get w' uid wid repo did number := by
  rw [Standards.get, Standards.get, h.standardsAccess, h.document, h.versionOf]

/-! ## Members only -/

/-- The user is an active member of the workspace. -/
def ActiveMember (db : Db) (uid wid : UUID) : Prop :=
  ∃ m, db.members.get (wid, uid) = some m ∧ m.status = .active

theorem requirePermission_activeMember {db : Db} {permission : Permission} {m : WorkspaceMember}
    (h : requirePermission db uid wid permission = .ok m) : ActiveMember db uid wid :=
  ⟨m, (requirePermission_member h).1, (requirePermission_member h).2.1⟩

theorem requireRepository_activeMember {db : Db} {rid : UUID} {permission : Permission}
    {active : Bool} {repo : RepositorySnapshot}
    (h : requireRepository db uid wid rid permission active = .ok repo) :
    ActiveMember db uid wid := by
  simp only [requireRepository, access, Tx.bind_eq_ok] at h
  obtain ⟨_, ⟨m, hm, -⟩, -⟩ := h
  exact requirePermission_activeMember hm

theorem authorized_activeMember {db : Db} {aid : UUID} {active : Bool} {row : AnalysisRun}
    (h : Analysis.authorized db uid wid aid active = .ok row) : ActiveMember db uid wid := by
  simp only [Analysis.authorized, Tx.bind_eq_ok] at h
  obtain ⟨m, hm, -⟩ := h
  exact requirePermission_activeMember hm

theorem standardsAccess_activeMember {repo : UUID} {write : Bool} {u : Unit}
    (h : Standards.access w uid wid repo write = .ok u) : ActiveMember w.db uid wid := by
  simp only [Standards.access, Tx.bind_eq_ok] at h
  obtain ⟨m, hm, -⟩ := h
  exact requirePermission_activeMember hm

/-- Every read starts with an authorization. -/
theorem read_activeMember {r : Read} {shown : Shown} (h : read w uid wid r = .ok shown) :
    ActiveMember w.db uid wid := by
  cases r with
  | analysis aid =>
      obtain ⟨row, hrow, -⟩ := (Tx.map_eq_ok _ _ _).mp h
      exact authorized_activeMember hrow
  | analyses pid =>
      obtain ⟨rows, hrows, -⟩ := (Tx.map_eq_ok _ _ _).mp h
      simp only [Analysis.history, analysisSnapshot, Tx.bind_eq_ok] at hrows
      obtain ⟨-, ⟨m, hm, -⟩, -⟩ := hrows
      exact requirePermission_activeMember hm
  | findings aid category cursor =>
      obtain ⟨page, hpage, -⟩ := (Tx.map_eq_ok _ _ _).mp h
      simp only [Analysis.findingsPage, Tx.bind_eq_ok] at hpage
      obtain ⟨row, hrow, -⟩ := hpage
      exact authorized_activeMember hrow
  | files aid cursor =>
      obtain ⟨page, hpage, -⟩ := (Tx.map_eq_ok _ _ _).mp h
      simp only [Analysis.filesPage, Tx.bind_eq_ok] at hpage
      obtain ⟨row, hrow, -⟩ := hpage
      exact authorized_activeMember hrow
  | review rid =>
      obtain ⟨row, hrow, -⟩ := (Tx.map_eq_ok _ _ _).mp h
      simp only [Review.get, Review.authorize, Tx.bind_eq_ok] at hrow
      obtain ⟨m, hm, -⟩ := hrow
      exact requirePermission_activeMember hm
  | reviews aid purpose =>
      obtain ⟨rows, hrows, -⟩ := (Tx.map_eq_ok _ _ _).mp h
      simp only [Review.history, Tx.bind_eq_ok] at hrows
      obtain ⟨row, hrow, -⟩ := hrows
      exact authorized_activeMember hrow
  | pulls rid cursor =>
      obtain ⟨page, hpage, -⟩ := (Tx.map_eq_ok _ _ _).mp h
      simp only [Sync.pullsPage, Tx.bind_eq_ok] at hpage
      obtain ⟨repo, hrepo, -⟩ := hpage
      exact requireRepository_activeMember hrepo
  | pull pid =>
      obtain ⟨row, hrow, -⟩ := (Tx.map_eq_ok _ _ _).mp h
      simp only [Sync.detail, Tx.bind_eq_ok] at hrow
      obtain ⟨m, hm, -⟩ := hrow
      exact requirePermission_activeMember hm
  | sync rid sid =>
      obtain ⟨row, hrow, -⟩ := (Tx.map_eq_ok _ _ _).mp h
      simp only [Sync.status, Tx.bind_eq_ok] at hrow
      obtain ⟨repo, hrepo, -⟩ := hrow
      exact requireRepository_activeMember hrepo
  | latestSync rid =>
      obtain ⟨row, hrow, -⟩ := (Tx.map_eq_ok _ _ _).mp h
      simp only [Sync.latest, Tx.bind_eq_ok] at hrow
      obtain ⟨repo, hrepo, -⟩ := hrow
      exact requireRepository_activeMember hrepo
  | documents repo =>
      obtain ⟨views, hviews, -⟩ := (Tx.map_eq_ok _ _ _).mp h
      simp only [Standards.listDocuments, Tx.bind_eq_ok] at hviews
      obtain ⟨u, haccess, -⟩ := hviews
      exact standardsAccess_activeMember haccess
  | versions repo did =>
      obtain ⟨views, hviews, -⟩ := (Tx.map_eq_ok _ _ _).mp h
      simp only [Standards.history, Tx.bind_eq_ok] at hviews
      obtain ⟨u, haccess, -⟩ := hviews
      exact standardsAccess_activeMember haccess
  | document repo did number =>
      obtain ⟨v, hv, -⟩ := (Tx.map_eq_ok _ _ _).mp h
      simp only [Standards.get, Tx.bind_eq_ok] at hv
      obtain ⟨u, haccess, -⟩ := hv
      exact standardsAccess_activeMember haccess

/-! ## All reads -/

theorem Agree.read (h : Agree wid w w') (hw : Keyed w) (hw' : Keyed w') (uid : UUID) (r : Read) :
    read w uid wid r = read w' uid wid r := by
  cases r with
  | analysis aid => simp only [Prism.read, Analysis.get, h.authorized]
  | analyses pid => simp only [Prism.read, h.analysisHistory]
  | findings aid category cursor => simp only [Prism.read, h.findingsPage hw hw']
  | files aid cursor => simp only [Prism.read, h.filesPage hw hw']
  | review rid => simp only [Prism.read, Review.get, h.authorize]
  | reviews aid purpose => simp only [Prism.read, h.reviewHistory]
  | pulls rid cursor => simp only [Prism.read, h.pullsPage]
  | pull pid => simp only [Prism.read, h.detail]
  | sync rid sid => simp only [Prism.read, h.syncStatus]
  | latestSync rid => simp only [Prism.read, h.latest]
  | documents repo => simp only [Prism.read, h.listDocuments]
  | versions repo did => simp only [Prism.read, h.documentHistory]
  | document repo did number => simp only [Prism.read, h.documentVersion]

/-- A read answers the members of a workspace only, and out of the rows of the workspace only. -/
theorem reads_isolated (h : Agree wid w w') (hw : Keyed w) (hw' : Keyed w') (uid : UUID)
    (r : Read) : read w uid wid r = read w' uid wid r ∧
      ∀ shown, read w uid wid r = .ok shown → ActiveMember w.db uid wid :=
  ⟨h.read hw hw' uid r, fun _ => read_activeMember⟩

/-- A document of another workspace, beside the ones that two editors left. -/
def neighbour (w : Standards.State) : Standards.State :=
  { w with documents := w.documents.put 7 ⟨11, 5, 1, 1, true, 0⟩ }

theorem agree_neighbour (h : w.documents.get 7 = none) : Agree 10 w (neighbour w) := by
  have hhidden : Table.AgreeOn (fun _ d => d.workspaceId = 10) (neighbour w).documents
      w.documents := by
    refine Table.agreeOn_put_hidden rfl fun d hd => ?_
    rw [h] at hd
    cases hd
  exact ((Agree.refl 10 w).tables hhidden (.refl _ w.versions)).symm

theorem reads_isolated_neighbour :
    read (Transition.run (Standards.step id) .empty Standards.editing) 1 10 (.documents 5) =
      read (neighbour (Transition.run (Standards.step id) .empty Standards.editing)) 1 10
        (.documents 5) := by
  have hagree := @agree_neighbour (Transition.run (Standards.step id) .empty Standards.editing)
    (by decide +kernel)
  have hkeyed : Keyed (Transition.run (Standards.step id) .empty Standards.editing) :=
    ⟨.nil, .nil⟩
  exact (reads_isolated hagree hkeyed ⟨hkeyed.findings, hkeyed.fileResults⟩ 1 _).1

end Prism
