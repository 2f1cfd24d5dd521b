import Prism.Model.Documents
import Prism.Verification.Access.Correctness

/-! What one step does to the documents of a team. -/

namespace Prism.Standards

section Store

variable {w : State}

theorem document_eq_ok {wid repo did : UUID} {doc : StandardDocument} :
    document w wid repo did = .ok doc ↔ w.documents.get did = some doc ∧
      doc.workspaceId = wid ∧ doc.repositoryConnectionId = repo := by
  unfold document
  cases hfound : (w.documents.get did).filter
      fun d => d.workspaceId = wid && d.repositoryConnectionId = repo with
  | none =>
      simp only [Option.filter_eq_none_iff, Bool.and_eq_true, decide_eq_true_eq, not_and] at hfound
      simp only [reduceCtorEq, false_iff, not_and]
      exact fun hget hwid hrepo => hfound doc hget hwid hrepo
  | some found =>
      obtain ⟨hget, hplace⟩ := Option.filter_eq_some_iff.mp hfound
      simp only [Bool.and_eq_true, decide_eq_true_eq] at hplace
      simp only [Except.ok.injEq]
      constructor
      · rintro rfl
        exact ⟨hget, hplace⟩
      · exact fun h => Option.some.inj (hget.symm.trans h.1)

theorem insertVersion_eq_ok {versions versions' : Table UUID StandardVersion} {vid : UUID}
    {v : StandardVersion} (h : insertVersion versions vid v = .ok versions') :
    versions.get vid = none ∧ versions' = versions.put vid v ∧
      ∀ k u, versions.get k = some u → u.documentId = v.documentId → u.version ≠ v.version := by
  unfold insertVersion at h
  split_ifs at h with hheld
  obtain ⟨hnew, rfl⟩ := (insertRow_eq_ok ..).mp h
  refine ⟨hnew, rfl, fun k u hu hdoc hversion => ?_⟩
  exact hheld ((Table.holds_iff _ _).mpr ⟨k, u, hu, by simp [hdoc, hversion]⟩)

/-- A write is authorized for a connection of the workspace. -/
theorem access_connection {uid wid repo : UUID} {u : Unit} (h : access w uid wid repo true = .ok u) :
    ∃ r, w.db.connections.get repo = some r ∧ r.workspaceId = wid := by
  simp only [access, Tx.bind_eq_ok] at h
  obtain ⟨member, -, snapshot, hrepo, -⟩ := h
  obtain ⟨r, hr, -⟩ := requireRepository_eq_ok hrepo
  obtain ⟨-, hget, hwid, -⟩ := access_eq_ok hr
  exact ⟨r, hget, hwid⟩

end Store

def SameWorkspace (r r' : RepositoryConnection) : Prop :=
  r'.workspaceId = r.workspaceId

theorem SameWorkspace.refl (r : RepositoryConnection) : SameWorkspace r r :=
  rfl

/-- Whether a step stores the version that follows the expected one of a document. -/
def saves (did : UUID) (expected : ℤ) (a : Action) (reply : Reply) : Bool :=
  match a, reply with
  | .save _ _ _ body (some d) _ _ _, .saved _ => d = did && body.expectedVersion = expected
  | _, _ => false

/-- Whether a step removes a document. -/
def removes (did : UUID) (a : Action) (reply : Reply) : Bool :=
  match a, reply with
  | .remove _ _ _ d _, .done => d = did
  | _, _ => false

/-- A version that can be added to a table. -/
structure Fits (versions : Table UUID StandardVersion) (vid did : UUID) (n : ℕ)
    (v : StandardVersion) : Prop where
  fresh : versions.get vid = none
  document : v.documentId = did
  number : v.version = n
  unique : ∀ k u, versions.get k = some u → u.documentId = did → u.version ≠ n

/-- The documents and versions after a step. -/
inductive Effect (w : State) :
    Action → Reply → Table UUID StandardDocument → Table UUID StandardVersion → Prop where
  | idle {a reply} (hsaves : ∀ did expected, saves did expected a reply = false)
      (hremoves : ∀ did, removes did a reply = false) :
      Effect w a reply w.documents w.versions
  | created {uid wid repo body fresh vid now} (view : View) (doc : StandardDocument)
      (v : StandardVersion) (hcount : count w wid repo < 8)
      (hplace : ∃ r, w.db.connections.get repo = some r ∧ r.workspaceId = wid)
      (hfresh : w.documents.get fresh = none) (hwid : doc.workspaceId = wid)
      (hrepo : doc.repositoryConnectionId = repo) (hcurrent : doc.currentVersion = 1)
      (hv : Fits w.versions vid fresh 1 v) (hvwid : v.workspaceId = wid) :
      Effect w (.save uid wid repo body none fresh vid now) (.saved view)
        (w.documents.put fresh doc) (w.versions.put vid v)
  | extended {uid wid repo body did fresh vid now} (view : View) (doc : StandardDocument)
      (v : StandardVersion) (hget : w.documents.get did = some doc) (hwid : doc.workspaceId = wid)
      (hexpected : body.expectedVersion = (doc.currentVersion : ℤ)) (hlimit : doc.currentVersion < 20)
      (hv : Fits w.versions vid did (doc.currentVersion + 1) v) (hvwid : v.workspaceId = wid) :
      Effect w (.save uid wid repo body (some did) fresh vid now) (.saved view)
        (w.documents.put did { doc with currentVersion := doc.currentVersion + 1 })
        (w.versions.put vid v)
  | activated {uid wid repo did active expected} (doc : StandardDocument)
      (hget : w.documents.get did = some doc) :
      Effect w (.activate uid wid repo did active expected) .done
        (w.documents.put did { doc with active }) w.versions
  | removed {uid wid repo did expected} (doc : StandardDocument)
      (hget : w.documents.get did = some doc) :
      Effect w (.remove uid wid repo did expected) .done (w.documents.remove did)
        (w.versions.discard fun _ v => v.workspaceId = doc.workspaceId && v.documentId = did)

section Steps

variable {w : State} {sha256 : List Char → List Char}

theorem nextDocument_new {uid wid repo fresh did : UUID} {expected : ℤ} {now : Instant}
    {doc : StandardDocument} {documents : Table UUID StandardDocument}
    (h : nextDocument w uid wid repo expected none fresh now = .ok (did, doc, documents)) :
    did = fresh ∧ count w wid repo < 8 ∧ w.documents.get fresh = none ∧ doc.workspaceId = wid ∧
      doc.repositoryConnectionId = repo ∧ doc.currentVersion = 1 ∧
      documents = w.documents.put fresh doc := by
  simp only [nextDocument] at h
  split_ifs at h with hcount
  obtain ⟨inserted, hinsert, h⟩ := (Tx.bind_eq_ok ..).mp h
  obtain ⟨hfresh, rfl⟩ := (insertRow_eq_ok ..).mp hinsert
  obtain ⟨rfl, hrest⟩ := Prod.mk.inj (Except.ok.inj h)
  obtain ⟨rfl, rfl⟩ := Prod.mk.inj hrest
  exact ⟨rfl, Nat.lt_of_not_le hcount, hfresh, rfl, rfl, rfl, rfl⟩

theorem nextDocument_old {uid wid repo fresh did did' : UUID} {expected : ℤ} {now : Instant}
    {doc' : StandardDocument} {documents : Table UUID StandardDocument}
    (h : nextDocument w uid wid repo expected (some did) fresh now = .ok (did', doc', documents)) :
    did' = did ∧ ∃ doc, w.documents.get did = some doc ∧ doc.workspaceId = wid ∧
      expected = (doc.currentVersion : ℤ) ∧ doc.currentVersion < 20 ∧
      doc' = { doc with currentVersion := doc.currentVersion + 1 } ∧
      documents = w.documents.put did doc' := by
  simp only [nextDocument, Tx.bind_eq_ok] at h
  obtain ⟨doc, hdoc, h⟩ := h
  obtain ⟨hget, hwid, -⟩ := document_eq_ok.mp hdoc
  split_ifs at h with hexpected hlimit
  obtain ⟨rfl, hrest⟩ := Prod.mk.inj (Except.ok.inj h)
  obtain ⟨rfl, rfl⟩ := Prod.mk.inj hrest
  exact ⟨rfl, doc, hget, hwid, not_not.mp hexpected, Nat.lt_of_not_le hlimit, rfl, rfl⟩

theorem save_spec {uid wid repo : UUID} {body : DocumentInput} {did : Option UUID}
    {fresh vid : UUID} {now : Instant} {v : View} {w' : State}
    (h : save w sha256 uid wid repo body did fresh vid now = .ok (v, w')) :
    Effect w (.save uid wid repo body did fresh vid now) (.saved v) w'.documents w'.versions ∧
      w'.db = w.db := by
  simp only [save, Tx.bind_eq_ok] at h
  obtain ⟨_, haccess, ⟨did', doc, documents⟩, hnext, versions, hinsert, h⟩ := h
  obtain ⟨hnew, rfl, hunique⟩ := insertVersion_eq_ok hinsert
  obtain ⟨-, rfl⟩ := Prod.mk.inj (Except.ok.inj h)
  refine ⟨?_, rfl⟩
  cases did with
  | none =>
      obtain ⟨rfl, hcount, hfresh, hwid, hrepo, hcurrent, rfl⟩ := nextDocument_new hnext
      exact .created v doc _ hcount (access_connection haccess) hfresh hwid hrepo hcurrent
        ⟨hnew, rfl, hcurrent, hcurrent ▸ hunique⟩ rfl
  | some did =>
      obtain ⟨rfl, old, hget, hwid, hexpected, hlimit, rfl, rfl⟩ := nextDocument_old hnext
      exact .extended v old _ hget hwid hexpected hlimit ⟨hnew, rfl, rfl, hunique⟩ rfl

theorem activate_spec {uid wid repo did : UUID} {active : Bool} {expected : ℤ} {w' : State}
    (h : activate w uid wid repo did active expected = .ok w') :
    Effect w (.activate uid wid repo did active expected) .done w'.documents w'.versions ∧
      w'.db = w.db := by
  simp only [activate, Tx.bind_eq_ok] at h
  obtain ⟨-, -, doc, hdoc, h⟩ := h
  split_ifs at h
  obtain rfl := Except.ok.inj h
  exact ⟨.activated doc (document_eq_ok.mp hdoc).1, rfl⟩

theorem remove_spec {uid wid repo did : UUID} {expected : ℤ} {w' : State}
    (h : remove w uid wid repo did expected = .ok w') :
    Effect w (.remove uid wid repo did expected) .done w'.documents w'.versions ∧
      w'.db = w.db := by
  simp only [remove, Tx.bind_eq_ok] at h
  obtain ⟨-, -, doc, hdoc, h⟩ := h
  split_ifs at h
  obtain rfl := Except.ok.inj h
  exact ⟨.removed doc (document_eq_ok.mp hdoc).1, rfl⟩

theorem saves_refused {failure : Failure} (did : UUID) (expected : ℤ) (a : Action) :
    saves did expected a (.refused failure) = false := by
  cases a with
  | save uid wid repo body known => cases known <;> rfl
  | _ => rfl

theorem removes_refused {failure : Failure} (did : UUID) (a : Action) :
    removes did a (.refused failure) = false := by
  cases a <;> rfl

/-- A transaction commits with an effect when each of its results has one. -/
theorem commit_spec {a : Action} {tx : Tx (Reply × State)}
    (h : ∀ reply w', tx = .ok (reply, w') →
      Effect w a reply w'.documents w'.versions ∧ w'.db = w.db) :
    Effect w a (w.commit tx).1 (w.commit tx).2.documents (w.commit tx).2.versions ∧
      (w.commit tx).2.db = w.db := by
  cases tx with
  | error failure =>
      exact ⟨.idle (fun did expected => saves_refused did expected a) fun did => removes_refused did a,
        rfl⟩
  | ok result => exact h result.1 result.2 rfl

/-- Every step has one of the effects, and no connection leaves its workspace. -/
theorem step_spec (a : Action) (henabled : enabled a w) :
    Effect w a (step sha256 a w).1 (step sha256 a w).2.documents (step sha256 a w).2.versions ∧
      w.db.connections.Keeps SameWorkspace (step sha256 a w).2.db.connections := by
  have hsame : w.db.connections.Keeps SameWorkspace w.db.connections :=
    Table.Keeps.refl SameWorkspace.refl _
  have hrefl : ∀ {db : Db}, db = w.db →
      w.db.connections.Keeps SameWorkspace db.connections := by
    rintro db rfl
    exact hsame
  cases a with
  | user uid u => exact ⟨.idle (fun _ _ => rfl) (fun _ => rfl), hsame⟩
  | activity wid status => exact ⟨.idle (fun _ _ => rfl) (fun _ => rfl), hsame⟩
  | member wid uid m => exact ⟨.idle (fun _ _ => rfl) (fun _ => rfl), hsame⟩
  | connection rid r =>
      refine ⟨.idle (fun _ _ => rfl) (fun _ => rfl), ?_⟩
      refine Table.keeps_put SameWorkspace.refl fun r₀ hr₀ => ?_
      simpa [SameWorkspace, enabled, hr₀, eq_comm] using henabled
  | save uid wid repo body did fresh vid now =>
      refine (commit_spec fun reply w' h => ?_).imp_right hrefl
      obtain ⟨⟨v, w''⟩, hsave, heq⟩ := (Tx.map_eq_ok ..).mp h
      obtain ⟨rfl, rfl⟩ := Prod.mk.inj heq
      exact save_spec hsave
  | activate uid wid repo did active expected =>
      refine (commit_spec fun reply w' h => ?_).imp_right hrefl
      obtain ⟨w'', hactivate, heq⟩ := (Tx.map_eq_ok ..).mp h
      obtain ⟨rfl, rfl⟩ := Prod.mk.inj heq
      exact activate_spec hactivate
  | remove uid wid repo did expected =>
      refine (commit_spec fun reply w' h => ?_).imp_right hrefl
      obtain ⟨w'', hremove, heq⟩ := (Tx.map_eq_ok ..).mp h
      obtain ⟨rfl, rfl⟩ := Prod.mk.inj heq
      exact remove_spec hremove

end Steps

end Prism.Standards
