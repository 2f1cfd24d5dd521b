import Prism.Foundation.Confinement
import Prism.Model.Reads

/-! What a workspace can see of the database, and the authorizations, which see no more. -/

namespace Prism

open Keyset

/-- Two databases hold the same rows of a workspace, and the same users. -/
structure Agree (wid : UUID) (w w' : Standards.State) : Prop where
  users : ∀ uid, w.db.users.get uid = w'.db.users.get uid
  workspace : w.db.workspaces.get wid = w'.db.workspaces.get wid
  members : ∀ uid, w.db.members.get (wid, uid) = w'.db.members.get (wid, uid)
  connections : Table.AgreeOn (fun _ r => r.workspaceId = wid) w.db.connections w'.db.connections
  pullRequests : Table.AgreeOn (fun _ r => r.workspaceId = wid) w.db.pullRequests
    w'.db.pullRequests
  syncRuns : Table.AgreeOn (fun _ r => r.workspaceId = wid) w.db.syncRuns w'.db.syncRuns
  analysisRuns : Table.AgreeOn (fun _ r => r.workspaceId = wid) w.db.analysisRuns
    w'.db.analysisRuns
  fileResults : ∀ f : AnalysisFileResult, f.workspaceId = wid →
    (f ∈ w.db.fileResults ↔ f ∈ w'.db.fileResults)
  findings : ∀ f : Finding, f.workspaceId = wid → (f ∈ w.db.findings ↔ f ∈ w'.db.findings)
  reviewRuns : Table.AgreeOn (fun _ r => r.workspaceId = wid) w.db.reviewRuns w'.db.reviewRuns
  documents : Table.AgreeOn (fun _ d => d.workspaceId = wid) w.documents w'.documents
  versions : Table.AgreeOn (fun _ v => v.workspaceId = wid) w.versions w'.versions

/-- The primary keys of the two tables that are kept as lists. -/
structure Keyed (w : Standards.State) : Prop where
  findings : Distinct Finding.id w.db.findings
  fileResults : Distinct AnalysisFileResult.id w.db.fileResults

variable {wid uid : UUID} {w w' : Standards.State}

theorem Agree.refl (wid : UUID) (w : Standards.State) : Agree wid w w where
  users _ := rfl
  workspace := rfl
  members _ := rfl
  connections := .refl _ _
  pullRequests := .refl _ _
  syncRuns := .refl _ _
  analysisRuns := .refl _ _
  fileResults _ _ := Iff.rfl
  findings _ _ := Iff.rfl
  reviewRuns := .refl _ _
  documents := .refl _ _
  versions := .refl _ _

theorem Agree.symm (h : Agree wid w w') : Agree wid w' w where
  users uid := (h.users uid).symm
  workspace := h.workspace.symm
  members uid := (h.members uid).symm
  connections := h.connections.symm
  pullRequests := h.pullRequests.symm
  syncRuns := h.syncRuns.symm
  analysisRuns := h.analysisRuns.symm
  fileResults f hf := (h.fileResults f hf).symm
  findings f hf := (h.findings f hf).symm
  reviewRuns := h.reviewRuns.symm
  documents := h.documents.symm
  versions := h.versions.symm

theorem Agree.trans {w'' : Standards.State} (h : Agree wid w w') (h' : Agree wid w' w'') :
    Agree wid w w'' where
  users uid := (h.users uid).trans (h'.users uid)
  workspace := h.workspace.trans h'.workspace
  members uid := (h.members uid).trans (h'.members uid)
  connections := h.connections.trans h'.connections
  pullRequests := h.pullRequests.trans h'.pullRequests
  syncRuns := h.syncRuns.trans h'.syncRuns
  analysisRuns := h.analysisRuns.trans h'.analysisRuns
  fileResults f hf := (h.fileResults f hf).trans (h'.fileResults f hf)
  findings f hf := (h.findings f hf).trans (h'.findings f hf)
  reviewRuns := h.reviewRuns.trans h'.reviewRuns
  documents := h.documents.trans h'.documents
  versions := h.versions.trans h'.versions

theorem Agree.equivalence (wid : UUID) : Equivalence (Agree wid) :=
  ⟨.refl wid, .symm, .trans⟩

/-- The documents and their versions are all that is written. -/
theorem Agree.tables (h : Agree wid w w') {documents documents' versions versions'}
    (hdocuments : Table.AgreeOn (fun _ d => d.workspaceId = wid) documents documents')
    (hversions : Table.AgreeOn (fun _ v => v.workspaceId = wid) versions versions') :
    Agree wid { w with documents, versions }
      { w' with documents := documents', versions := versions' } :=
  { h with documents := hdocuments, versions := hversions }

/-! ## Authorizations -/

theorem Agree.getActiveUser (h : Agree wid w w') (uid : UUID) :
    getActiveUser w.db uid = getActiveUser w'.db uid := by
  rw [Prism.getActiveUser, Prism.getActiveUser, h.users]

theorem Agree.requirePermission (h : Agree wid w w') (uid : UUID) (permission : Permission) :
    requirePermission w.db uid wid permission = requirePermission w'.db uid wid permission := by
  rw [Prism.requirePermission, Prism.requirePermission, h.getActiveUser, h.members, lockSystem,
    lockSystem, h.workspace]

theorem Agree.connectionIn (h : Agree wid w w') (rid : UUID) :
    connectionIn w.db wid rid = connectionIn w'.db wid rid :=
  h.connections.get_filter (fun _ _ => id) rid

theorem Agree.requireRepository (h : Agree wid w w') (uid rid : UUID) (permission : Permission)
    (active : Bool) : requireRepository w.db uid wid rid permission active =
      requireRepository w'.db uid wid rid permission active := by
  rw [Prism.requireRepository, Prism.requireRepository, access, access, h.requirePermission,
    h.connectionIn]

theorem Agree.analysisSnapshot (h : Agree wid w w') (uid pid : UUID) :
    analysisSnapshot w.db uid wid pid = analysisSnapshot w'.db uid wid pid := by
  have hrow := h.pullRequests.get_filter (fun _ _ => id) pid
  rw [Prism.analysisSnapshot, Prism.analysisSnapshot, h.requirePermission, hrow]
  refine bind_congr fun _ => ?_
  split
  · rfl
  · rw [h.requireRepository]

/-- `find_run`, as one filtered query. -/
theorem findRun_eq (db : Db) (wid aid : UUID) : Analysis.findRun db wid aid =
    ((db.analysisRuns.get aid).filter fun r => r.workspaceId = wid).elim
      (.error (Analysis.error .analysisNotFound .notFound)) .ok := by
  unfold Analysis.findRun
  cases db.analysisRuns.get aid with
  | none => rfl
  | some row => by_cases hrow : row.workspaceId = wid <;> simp [Option.filter, hrow]

theorem getRow_eq (db : Db) (wid rid : UUID) : Review.getRow db wid rid =
    ((db.reviewRuns.get rid).filter fun r => r.workspaceId = wid).elim
      (.error (Review.error .reviewNotFound .notFound)) .ok := by
  unfold Review.getRow
  cases db.reviewRuns.get rid with
  | none => rfl
  | some row => by_cases hrow : row.workspaceId = wid <;> simp [Option.filter, hrow]

theorem Agree.authorized (h : Agree wid w w') (uid aid : UUID) (active : Bool) :
    Analysis.authorized w.db uid wid aid active = Analysis.authorized w'.db uid wid aid active := by
  have hrow := h.analysisRuns.get_filter (fun _ _ => id) aid
  rw [Analysis.authorized, Analysis.authorized, h.requirePermission, findRun_eq, findRun_eq, hrow]
  refine bind_congr fun _ => bind_congr fun row => ?_
  rw [h.requireRepository]

theorem Agree.authorize (h : Agree wid w w') (uid rid : UUID) :
    Review.authorize w.db uid wid rid false = Review.authorize w'.db uid wid rid false := by
  have hrow := h.reviewRuns.get_filter (fun _ _ => id) rid
  rw [Review.authorize, Review.authorize, h.requirePermission, getRow_eq, getRow_eq, hrow]
  refine bind_congr fun _ => bind_congr fun row => ?_
  rw [h.requireRepository]
  simp

theorem Agree.standardsAccess (h : Agree wid w w') (uid repo : UUID) (write : Bool) :
    Standards.access w uid wid repo write = Standards.access w' uid wid repo write := by
  rw [Standards.access, Standards.access, h.requirePermission, h.requireRepository]

end Prism
