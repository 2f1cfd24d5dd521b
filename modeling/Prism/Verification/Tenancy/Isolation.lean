import Prism.Foundation.Unwinding
import Prism.Verification.Documents.Trace
import Prism.Verification.Tenancy.Correctness

/-! # Tenant isolation of the documents service

Requests and changes of other workspaces are not noticed in a workspace, in any interleaving.
The proof is by unwinding. -/

namespace Prism.Standards

/-! ## What is noticed in a workspace -/

/-- Whether an action is about a workspace. Users belong to all of them. -/
def visible (wid : UUID) : Action → Bool
  | .user _ _ => true
  | .activity wid' _ => wid' = wid
  | .member wid' _ _ => wid' = wid
  | .connection _ r => r.workspaceId = wid
  | .save _ wid' _ _ _ _ _ _ => wid' = wid
  | .activate _ wid' _ _ _ _ => wid' = wid
  | .remove _ wid' _ _ _ => wid' = wid

/-- The ids that a save generates are new. -/
def generated : Action → State → Bool
  | .save _ _ _ _ _ fresh vid _, w =>
    (w.documents.get fresh).isNone && (w.versions.get vid).isNone
  | _, _ => true

def allowed (a : Action) (w : State) : Prop :=
  enabled a w ∧ generated a w = true

instance (a : Action) (w : State) : Decidable (allowed a w) :=
  inferInstanceAs (Decidable (_ ∧ _))

/-- Two transactions that both fail alike, or whose results are related. -/
inductive Alike {α : Type} (R : α → α → Prop) : Tx α → Tx α → Prop where
  | refused (failure : Failure) : Alike R (.error failure) (.error failure)
  | answered {a a' : α} (h : R a a') : Alike R (.ok a) (.ok a')

section Transactions

variable {α β : Type} {R : α → α → Prop} {S : β → β → Prop} {tx tx' : Tx α}

theorem Alike.of_eq (h : tx = tx') : Alike Eq tx tx' := by
  subst h
  cases tx with
  | error failure => exact .refused failure
  | ok a => exact .answered rfl

theorem Alike.bind {f f' : α → Tx β} (h : Alike R tx tx')
    (hf : ∀ a a', R a a' → tx = .ok a → tx' = .ok a' → Alike S (f a) (f' a')) :
    Alike S (tx >>= f) (tx' >>= f') := by
  cases h with
  | refused failure => exact .refused failure
  | answered h => exact hf _ _ h rfl rfl

end Transactions

/-! ## Hidden steps -/

section Hidden

variable {w : State} {wid : UUID} {sha256 : List Char → List Char}

theorem agree_commit {tx : Tx (Reply × State)}
    (h : ∀ reply w', tx = .ok (reply, w') → Agree wid w' w) : Agree wid (w.commit tx).2 w := by
  cases tx with
  | error failure => exact .refl wid w
  | ok result => exact h result.1 result.2 rfl

/-- Documents of one workspace are no documents of another one. -/
theorem hidden_of_document {wid' repo did : UUID} {doc : StandardDocument} (hwid : wid' ≠ wid)
    (h : document w wid' repo did = .ok doc) :
    doc.workspaceId ≠ wid ∧
      ∀ d, w.documents.get did = some d → decide (d.workspaceId = wid) = false := by
  obtain ⟨hget, hplace, -⟩ := document_eq_ok.mp h
  have hne : doc.workspaceId ≠ wid := hplace ▸ hwid
  refine ⟨hne, fun d hd => ?_⟩
  obtain rfl := Option.some.inj (hget.symm.trans hd)
  exact decide_eq_false hne

theorem save_hidden {uid wid' repo : UUID} {body : DocumentInput} {did : Option UUID}
    {fresh vid : UUID} {now : Instant} {v : View} {w' : State} (hwid : wid' ≠ wid)
    (h : save w sha256 uid wid' repo body did fresh vid now = .ok (v, w')) : Agree wid w' w := by
  simp only [save, Tx.bind_eq_ok] at h
  obtain ⟨_, -, ⟨did', doc, documents⟩, hnext, versions, hinsert, h⟩ := h
  obtain ⟨hnew, rfl, -⟩ := insertVersion_eq_ok hinsert
  obtain ⟨-, rfl⟩ := Prod.mk.inj (Except.ok.inj h)
  refine (Agree.refl wid w).tables ?_ ?_
  · cases did with
    | none =>
        obtain ⟨rfl, -, hfresh, hplace, -, -, rfl⟩ := nextDocument_new hnext
        refine Table.agreeOn_put_hidden (decide_eq_false (hplace ▸ hwid)) fun d hd => ?_
        cases hfresh.symm.trans hd
    | some did =>
        obtain ⟨rfl, old, hget, hplace, -, -, rfl, rfl⟩ := nextDocument_old hnext
        refine Table.agreeOn_put_hidden (decide_eq_false (hplace ▸ hwid)) fun d hd => ?_
        obtain rfl := Option.some.inj (hget.symm.trans hd)
        exact decide_eq_false (hplace ▸ hwid)
  · refine Table.agreeOn_put_hidden (decide_eq_false hwid) fun u hu => ?_
    cases hnew.symm.trans hu

theorem activate_hidden {uid wid' repo did : UUID} {active : Bool} {expected : ℤ} {w' : State}
    (hwid : wid' ≠ wid) (h : activate w uid wid' repo did active expected = .ok w') :
    Agree wid w' w := by
  simp only [activate, Tx.bind_eq_ok] at h
  obtain ⟨-, -, doc, hdoc, h⟩ := h
  split_ifs at h
  obtain rfl := Except.ok.inj h
  obtain ⟨hne, hold⟩ := hidden_of_document hwid hdoc
  exact (Agree.refl wid w).tables (Table.agreeOn_put_hidden (decide_eq_false hne) hold) (.refl _ _)

theorem remove_hidden {uid wid' repo did : UUID} {expected : ℤ} {w' : State} (hwid : wid' ≠ wid)
    (h : remove w uid wid' repo did expected = .ok w') : Agree wid w' w := by
  simp only [remove, Tx.bind_eq_ok] at h
  obtain ⟨-, -, doc, hdoc, h⟩ := h
  split_ifs at h
  obtain rfl := Except.ok.inj h
  obtain ⟨hne, hold⟩ := hidden_of_document hwid hdoc
  refine (Agree.refl wid w).tables (Table.agreeOn_remove_hidden hold) ?_
  refine Table.agreeOn_discard_hidden fun _ v _ hv => decide_eq_false ?_
  rw [of_decide_eq_true (Bool.and_elim_left hv)]
  exact hne

theorem step_hidden (a : Action) (henabled : enabled a w) (ha : visible wid a = false) :
    Agree wid (step sha256 a w).2 w := by
  cases a with
  | user uid u => cases ha
  | activity wid' status =>
      exact { Agree.refl wid w with
        workspace := Table.get_put_of_ne _ _ (Ne.symm (of_decide_eq_false ha)) }
  | member wid' uid m =>
      refine { Agree.refl wid w with members := fun uid' => Table.get_put_of_ne _ _ fun heq => ?_ }
      exact of_decide_eq_false ha (congrArg Prod.fst heq).symm
  | connection rid r =>
      refine { Agree.refl wid w with connections := Table.agreeOn_put_hidden ha fun r₀ hr₀ => ?_ }
      have hsame : r₀.workspaceId = r.workspaceId := by simpa [enabled, hr₀] using henabled
      rw [hsame]
      exact ha
  | save uid wid' repo body did fresh vid now =>
      refine agree_commit fun reply w' h => ?_
      obtain ⟨⟨v, w''⟩, hsave, heq⟩ := (Tx.map_eq_ok ..).mp h
      obtain ⟨rfl, rfl⟩ := Prod.mk.inj heq
      exact save_hidden (of_decide_eq_false ha) hsave
  | activate uid wid' repo did active expected =>
      refine agree_commit fun reply w' h => ?_
      obtain ⟨w'', hactivate, heq⟩ := (Tx.map_eq_ok ..).mp h
      obtain ⟨rfl, rfl⟩ := Prod.mk.inj heq
      exact activate_hidden (of_decide_eq_false ha) hactivate
  | remove uid wid' repo did expected =>
      refine agree_commit fun reply w' h => ?_
      obtain ⟨w'', hremove, heq⟩ := (Tx.map_eq_ok ..).mp h
      obtain ⟨rfl, rfl⟩ := Prod.mk.inj heq
      exact remove_hidden (of_decide_eq_false ha) hremove

end Hidden

/-! ## Visible steps -/

section Visible

variable {w w' : State} {wid : UUID} {sha256 : List Char → List Char}

/-- What `nextDocument` writes. -/
def SameDocuments (wid : UUID)
    (x x' : UUID × StandardDocument × Table UUID StandardDocument) : Prop :=
  x.1 = x'.1 ∧ x.2.1 = x'.2.1 ∧ Table.AgreeOn (fun _ d => d.workspaceId = wid) x.2.2 x'.2.2

theorem nextDocument_alike (h : Agree wid w w') {uid repo fresh : UUID} {expected : ℤ}
    {did : Option UUID} {now : Instant} (hfresh : w.documents.get fresh = none)
    (hfresh' : w'.documents.get fresh = none) :
    Alike (SameDocuments wid) (nextDocument w uid wid repo expected did fresh now)
      (nextDocument w' uid wid repo expected did fresh now) := by
  cases did with
  | none =>
      have hcount : count w wid repo = count w' wid repo := (h.documents.select_perm
        (q := fun _ (d : StandardDocument) =>
          decide (d.workspaceId = wid) && decide (d.repositoryConnectionId = repo))
        fun _ _ hd => Bool.and_elim_left hd).length_eq
      simp only [nextDocument, hcount, insertRow, hfresh, hfresh', Option.isSome_none,
        Bool.false_eq_true, if_false]
      split_ifs
      · exact .refused _
      · exact .refused _
      · exact .answered ⟨rfl, rfl, h.documents.put fresh _⟩
  | some did =>
      refine Alike.bind (.of_eq (h.document repo did)) fun doc _ heq _ _ => ?_
      subst heq
      split_ifs
      · exact .refused _
      · exact .refused _
      · exact .answered ⟨rfl, rfl, h.documents.put did _⟩

/-- The next version of a document is never stored before. -/
theorem insertVersion_next (hs : Sound w) {uid repo fresh did' vid : UUID} {expected : ℤ}
    {did : Option UUID} {now : Instant} {doc : StandardDocument}
    {documents : Table UUID StandardDocument} {v : StandardVersion}
    (hnext : nextDocument w uid wid repo expected did fresh now = .ok (did', doc, documents))
    (hvid : w.versions.get vid = none) (hdocument : v.documentId = did')
    (hversion : v.version = doc.currentVersion) :
    insertVersion w.versions vid v = .ok (w.versions.put vid v) := by
  have hunique : ∀ k u, w.versions.get k = some u → u.documentId = did' →
      u.version ≠ doc.currentVersion := by
    intro k u hu hdid hnumber
    cases did with
    | none =>
        obtain ⟨rfl, -, hfresh, -⟩ := nextDocument_new hnext
        obtain ⟨old, hold, -⟩ := hs.owned k u hu
        rw [hdid, hfresh] at hold
        cases hold
    | some did =>
        obtain ⟨rfl, old, hget, -, -, -, rfl, -⟩ := nextDocument_old hnext
        have hnext : u.version = old.currentVersion + 1 := hnumber
        have hstored := ((hs.numbered did' old hget).stored _).mp ⟨k, u, hu, hdid, hnumber⟩
        omega
  have hholds : (w.versions.holds fun _ u => u.documentId = v.documentId && u.version = v.version) =
      false := by
    rw [Table.holds_eq_false_iff]
    intro k u hu
    simpa [hdocument, hversion] using hunique k u hu
  simp [insertVersion, hholds, insertRow, hvid]

theorem save_alike (h : Agree wid w w') (hs : Sound w) (hs' : Sound w') {uid repo : UUID}
    {body : DocumentInput} {did : Option UUID} {fresh vid : UUID} {now : Instant}
    (hfresh : w.documents.get fresh = none) (hfresh' : w'.documents.get fresh = none)
    (hvid : w.versions.get vid = none) (hvid' : w'.versions.get vid = none) :
    Alike (fun x x' : View × State => x.1 = x'.1 ∧ Agree wid x.2 x'.2)
      (save w sha256 uid wid repo body did fresh vid now)
      (save w' sha256 uid wid repo body did fresh vid now) := by
  refine Alike.bind (.of_eq (h.standardsAccess uid repo true)) fun _ _ _ _ _ => ?_
  refine Alike.bind (nextDocument_alike h hfresh hfresh') ?_
  rintro ⟨did', doc, documents⟩ ⟨_, _, documents'⟩ ⟨rfl, rfl, hdocuments⟩ hnext hnext'
  refine Alike.bind (R := Table.AgreeOn fun _ v => v.workspaceId = wid) ?_
    fun versions versions' hversions _ _ => .answered ⟨rfl, h.tables hdocuments hversions⟩
  rw [insertVersion_next hs hnext hvid, insertVersion_next hs' hnext' hvid']
  · exact .answered (h.versions.put vid _)
  all_goals rfl

theorem activate_alike (h : Agree wid w w') (uid repo did : UUID) (active : Bool) (expected : ℤ) :
    Alike (Agree wid) (activate w uid wid repo did active expected)
      (activate w' uid wid repo did active expected) := by
  refine Alike.bind (.of_eq (h.standardsAccess uid repo true)) fun _ _ _ _ _ => ?_
  refine Alike.bind (.of_eq (h.document repo did)) fun doc _ heq _ _ => ?_
  subst heq
  split_ifs
  · exact .refused _
  · exact .answered (h.tables (h.documents.put did _) h.versions)

theorem remove_alike (h : Agree wid w w') (uid repo did : UUID) (expected : ℤ) :
    Alike (Agree wid) (remove w uid wid repo did expected)
      (remove w' uid wid repo did expected) := by
  refine Alike.bind (.of_eq (h.standardsAccess uid repo true)) fun _ _ _ _ _ => ?_
  refine Alike.bind (.of_eq (h.document repo did)) fun doc _ heq _ _ => ?_
  subst heq
  split_ifs
  · exact .refused _
  · exact .answered (h.tables (h.documents.remove did) (h.versions.discard _))

/-- Transactions with the same answer commit to states that agree. -/
theorem commit_alike {α : Type} {R : α → α → Prop} {tx tx' : Tx α} {f : α → Reply × State}
    (h : Agree wid w w') (htx : Alike R tx tx')
    (hf : ∀ a a', R a a' → (f a).1 = (f a').1 ∧ Agree wid (f a).2 (f a').2) :
    (w.commit (tx.map f)).1 = (w'.commit (tx'.map f)).1 ∧
      Agree wid (w.commit (tx.map f)).2 (w'.commit (tx'.map f)).2 := by
  cases htx with
  | refused failure => exact ⟨rfl, h⟩
  | answered hR => exact hf _ _ hR

theorem step_respects (h : Agree wid w w') (hs : Sound w) (hs' : Sound w') (a : Action)
    (hgenerated : generated a w = true) (hgenerated' : generated a w' = true)
    (ha : visible wid a = true) :
    (step sha256 a w).1 = (step sha256 a w').1 ∧
      Agree wid (step sha256 a w).2 (step sha256 a w').2 := by
  cases a with
  | user uid u =>
      refine ⟨rfl, { h with users := fun uid' => ?_ }⟩
      simp only [step, Table.get_put, h.users uid']
  | activity wid' status =>
      obtain rfl := of_decide_eq_true ha
      exact ⟨rfl, { h with workspace := by simp only [step, Table.get_put_self] }⟩
  | member wid' uid m =>
      refine ⟨rfl, { h with members := fun uid' => ?_ }⟩
      simp only [step, Table.get_put, h.members uid']
  | connection rid r => exact ⟨rfl, { h with connections := h.connections.put rid r }⟩
  | save uid wid' repo body did fresh vid now =>
      obtain rfl := of_decide_eq_true ha
      simp only [generated, Bool.and_eq_true, Option.isNone_iff_eq_none] at hgenerated hgenerated'
      refine commit_alike h (save_alike h hs hs' hgenerated.1 hgenerated'.1 hgenerated.2
        hgenerated'.2) ?_
      rintro ⟨v, s⟩ ⟨_, s'⟩ ⟨rfl, hagree⟩
      exact ⟨rfl, hagree⟩
  | activate uid wid' repo did active expected =>
      obtain rfl := of_decide_eq_true ha
      exact commit_alike h (activate_alike h uid repo did active expected) fun _ _ hR => ⟨rfl, hR⟩
  | remove uid wid' repo did expected =>
      obtain rfl := of_decide_eq_true ha
      exact commit_alike h (remove_alike h uid repo did expected) fun _ _ hR => ⟨rfl, hR⟩

end Visible

/-! ## Runs -/

section Runs

variable {sha256 : List Char → List Char}

/-- No step of the documents service writes a result of an analysis. -/
theorem step_keyed {w : State} (h : Keyed w) (a : Action) : Keyed (step sha256 a w).2 := by
  have hcommit : ∀ tx : Tx (Reply × State), (∀ reply w', tx = .ok (reply, w') → w'.db = w.db) →
      Keyed (w.commit tx).2 := by
    intro tx hdb
    cases tx with
    | error failure => exact h
    | ok result =>
        have heq := hdb result.1 result.2 rfl
        exact ⟨heq ▸ h.findings, heq ▸ h.fileResults⟩
  cases a with
  | user | activity | member | connection => exact ⟨h.findings, h.fileResults⟩
  | save uid wid repo body did fresh vid now =>
      refine hcommit _ fun reply w' htx => ?_
      obtain ⟨⟨v, w''⟩, hsave, heq⟩ := (Tx.map_eq_ok ..).mp htx
      obtain ⟨rfl, rfl⟩ := Prod.mk.inj heq
      exact (save_spec hsave).2
  | activate uid wid repo did active expected =>
      refine hcommit _ fun reply w' htx => ?_
      obtain ⟨w'', hactivate, heq⟩ := (Tx.map_eq_ok ..).mp htx
      obtain ⟨rfl, rfl⟩ := Prod.mk.inj heq
      exact (activate_spec hactivate).2
  | remove uid wid repo did expected =>
      refine hcommit _ fun reply w' htx => ?_
      obtain ⟨w'', hremove, heq⟩ := (Tx.map_eq_ok ..).mp htx
      obtain ⟨rfl, rfl⟩ := Prod.mk.inj heq
      exact (remove_spec hremove).2

theorem unwinding (sha256 : List Char → List Char) (wid : UUID) :
    Transition.Unwinding (step sha256) allowed (fun w => Sound w ∧ Keyed w) (visible wid)
      (Agree wid) where
  equivalence := Agree.equivalence wid
  invariant hs ha := ⟨hs.1.step _ ha.1, step_keyed hs.2 _⟩
  hidden _ ha hvisible := step_hidden _ ha.1 hvisible
  respects hs ht h ha ha' hvisible := step_respects h hs.1 ht.1 _ ha.2 ha'.2 hvisible

/-- Two runs with the same actions of a workspace answer them alike, and afterwards every read
of the workspace, whatever the other workspaces did in them. -/
theorem documents_isolated {wid : UUID} {w₀ w₀' w w' : State}
    {trace trace' : List (Transition.Event State Action Reply)}
    (hw₀ : Sound w₀ ∧ Keyed w₀) (hw₀' : Sound w₀' ∧ Keyed w₀') (hstart : Agree wid w₀ w₀')
    (h : Transition.Exec (step sha256) allowed w₀ trace w)
    (h' : Transition.Exec (step sha256) allowed w₀' trace' w')
    (hacts : Transition.acts (visible wid) trace = Transition.acts (visible wid) trace') :
    Transition.seen (visible wid) trace = Transition.seen (visible wid) trace' ∧
      ∀ uid r, read w uid wid r = read w' uid wid r := by
  have u := unwinding sha256 wid
  obtain ⟨hseen, hagree⟩ := u.secure hw₀ hw₀' hstart h h' hacts
  have hkeyed := (h.invariant (fun w => Sound w ∧ Keyed w) hw₀ fun _ _ => u.invariant).2
  have hkeyed' := (h'.invariant (fun w => Sound w ∧ Keyed w) hw₀' fun _ _ => u.invariant).2
  exact ⟨hseen, hagree.read hkeyed hkeyed'⟩

end Runs

/-- The same edits, among requests of another workspace. -/
def crowded : List Action :=
  .activity 11 .active ::
    .connection 6 ⟨11, 7, 8, "o", "r", false, none, .active, 1, 9, 1, 0, none, none⟩ ::
    .member 11 2 ⟨.owner, .active⟩ :: editing.take 5 ++
    .save 2 11 6 (draft 0) none 7 70 0 :: .remove 2 11 5 6 1 :: .connection 6
      ⟨11, 7, 8, "o", "r", false, none, .disconnected, 1, 9, 1, 0, none, none⟩ :: editing.drop 5

theorem documents_isolated_crowded :
    read (Transition.run (step id) .empty editing) 1 10 (.versions 5 6) =
      read (Transition.run (step id) .empty crowded) 1 10 (.versions 5 6) ∧
    (Transition.seen (visible 10) (Transition.events (step id) .empty editing)).length = 7 :=
  ⟨(documents_isolated ⟨sound_empty, .nil, .nil⟩ ⟨sound_empty, .nil, .nil⟩ (.refl 10 .empty)
    (Transition.exec_run State.empty editing (by decide +kernel))
    (Transition.exec_run State.empty crowded (by decide +kernel)) (by decide +kernel)).2 _ _,
    by decide +kernel⟩

end Prism.Standards
