import Prism.Verification.Context.Trace
import Prism.Verification.Context.Windows

/-! # Where collecting starts, and that it returns -/

namespace Prism.Policy

open List

/-! ## The start -/

theorem lookup_isSome_iff_mem {α β : Type} [BEq α] [LawfulBEq α] {l : List (α × β)} {k : α} :
    (l.lookup k).isSome = true ↔ k ∈ l.map Prod.fst := by
  rw [lookup_isSome_iff, mem_map]
  constructor
  · rintro ⟨e, he, hk⟩
    exact ⟨e, he, (eq_of_beq hk).symm⟩
  · rintro ⟨e, he, rfl⟩
    exact ⟨e, he, BEq.rfl⟩

theorem lookup_map_snd {α β γ : Type} [BEq α] (g : β → γ) (l : List (α × β)) (k : α) :
    (l.map fun e => (e.1, g e.2)).lookup k = (l.lookup k).map g := by
  induction l with
  | nil => rfl
  | cons e l ih =>
      obtain ⟨k', b⟩ := e
      rw [map_cons, lookup_cons, lookup_cons, ih]
      cases k == k' <;> rfl

section Start

variable {perFile maxInput : ℕ} {changes : List (List Json.Member)} {b : Evidence}

/-- Every prepared file has its anchor. -/
theorem Prepared.names (h : Prepared perFile changes b.payload.files b.anchors) :
    b.anchors.map Prod.fst = b.payload.files.map File.fileId := by
  have hkeys := congrArg (map Prod.fst) h.anchored
  rwa [map_map, map_map] at hkeys

/-- The places of prepared files, by their paths. -/
def startPlaces (b : Evidence) : List (List Char × ℕ) :=
  b.payload.files.zipIdx.reverse.filterMap fun (f, i) =>
    ((b.anchors.map fun a => (a.1, a.2.path)).lookup f.fileId).map fun path => (path, i)

theorem startPlaces_lookup {path : List Char} {i : ℕ}
    (h : (startPlaces b).lookup path = some i) :
    ∃ f a, b.payload.files[i]? = some f ∧ b.anchors.lookup f.fileId = some a ∧ a.path = path := by
  have hmem : (path, i) ∈ startPlaces b := by
    obtain ⟨l₁, l₂, hsplit, -⟩ := lookup_eq_some_iff.mp h
    rw [hsplit]
    exact mem_append_right _ mem_cons_self
  obtain ⟨⟨f, j⟩, hf, heq⟩ := mem_filterMap.mp hmem
  dsimp only at heq
  rw [lookup_map_snd Anchor.path, Option.map_map] at heq
  obtain ⟨a, ha, hpair⟩ := Option.map_eq_some_iff.mp heq
  obtain ⟨rfl, rfl⟩ := Prod.mk.inj hpair
  exact ⟨f, a, mem_zipIdx_iff_getElem?.mp (mem_reverse.mp hf), ha, rfl⟩

/-- A prepared bundle starts intact. -/
theorem Prepared.intact (h : Prepared perFile changes b.payload.files b.anchors)
    (hsize : b.payload.size ≤ maxInput) (sources : List (List Char × Source))
    (notes : List ContextNote) :
    Intact sources b perFile maxInput ⟨b.payload.files, b.anchors, startPlaces b, notes, 0⟩ where
  size := hsize
  fileSize := h.size
  least := le_rfl
  ids := by simp
  related := by
    rw [countP_eq_zero.mpr]
    · exact Nat.zero_le 4
    · intro f hf
      rw [h.role f hf]
      decide
  held i f hf := by
    refine ⟨fun g hg => ?_, fun hnone => ?_, ?_⟩
    · obtain rfl := Option.some.inj (hf.symm.trans hg)
      rfl
    · rw [hf] at hnone
      cases hnone
    · have hmem : f.fileId ∈ b.anchors.map Prod.fst := by
        rw [h.names]
        exact mem_map_of_mem (mem_of_getElem? hf)
      obtain ⟨a, ha⟩ := Option.isSome_iff_exists.mp (lookup_isSome_iff_mem.mpr hmem)
      refine ⟨a, ha, .inl ?_⟩
      rw [startRows, hf]
      rfl
  places path i hi := startPlaces_lookup hi
  names fid hfid := by
    rw [← h.names]
    exact lookup_isSome_iff_mem.mp hfid

end Start

/-! ## The plan -/

section Plan

variable {env : Retrieval} {b : Evidence} {p : Plan}

/-- The sources of changed files are what is read. -/
theorem safeSource_read {paths : List (List Char × List Char)}
    {s t : List (List Char × Source) × List ContextNote} {f : File}
    (h : safeSource env paths s f = .ok t)
    (hs : ∀ e ∈ s.1, env.read e.1 = some e.2) : ∀ e ∈ t.1, env.read e.1 = some e.2 := by
  unfold safeSource at h
  split at h
  · cases h
  · next path _ =>
    split at h
    · cases h
      exact hs
    · next lines hread =>
      cases hany : f.lines.anyM (differs Raised.indexError lines) with
      | error e =>
          rw [hany] at h
          cases h
      | ok differ =>
          rw [hany] at h
          obtain rfl := Except.ok.inj h
          dsimp only
          split_ifs
          · exact hs
          · exact hs
          · intro e he
            rcases mem_append.mp he with he | he
            · exact hs e he
            · obtain rfl := mem_singleton.mp he
              exact hread

theorem relatedSources_read (paths : List (List Char)) :
    ∀ e ∈ (relatedSources env paths).1, env.read e.1 = some e.2 := by
  intro e he
  obtain ⟨path, -, hread⟩ := mem_filterMap.mp he
  obtain ⟨lines, hlines, rfl⟩ := Option.map_eq_some_iff.mp hread
  exact hlines

/-- The plan starts from the bundle, and knows what is read only. -/
theorem plan_spec (h : plan env b = .ok p) : (∃ notes, p.start =
      ⟨b.payload.files, b.anchors, startPlaces b, notes, 0⟩) ∧
    ∀ path lines, p.sources.lookup path = some lines → env.read path = some lines := by
  simp only [plan, bind, Except.bind] at h
  split at h
  · cases h
  · next safe hsafe =>
    split at h
    · cases h
    · next groups hgroups =>
      split at h
      · cases h
      · next orders horders =>
        obtain rfl := Except.ok.inj h
        refine ⟨⟨_, rfl⟩, fun path lines hlookup => ?_⟩
        have hread : ∀ e ∈ safe.1, env.read e.1 = some e.2 :=
          foldlM_invariant (P := fun s => ∀ e ∈ s.1, env.read e.1 = some e.2)
            (fun s f t _ => safeSource_read) hsafe (fun e he => absurd he not_mem_nil)
        obtain ⟨l₁, l₂, hsplit, -⟩ := lookup_eq_some_iff.mp hlookup
        have hmem : (path, lines) ∈ l₁ ++ (path, lines) :: l₂ :=
          mem_append_right _ mem_cons_self
        rw [← hsplit] at hmem
        rcases mem_append.mp hmem with hmem | hmem
        · exact hread _ hmem
        · exact relatedSources_read _ _ hmem

end Plan

/-! ## The anchors -/

theorem anchorFile_eq {anchors anchors' : List (List Char × Anchor)} {f : File}
    (h : anchorFile anchors f = .ok anchors') : ∃ a, anchors.lookup f.fileId = some a ∧
      anchors' = setAnchor anchors f.fileId ⟨a.path, f.lines.map Row.line⟩ := by
  unfold anchorFile at h
  split at h
  · cases h
  · next a ha => exact ⟨a, ha, (Except.ok.inj h).symm⟩

/-- In the end a file is anchored at its lines, under the path that it had. -/
theorem foldlM_anchorFile {files : List File} (hnodup : (files.map File.fileId).Nodup) :
    ∀ {anchors anchors' : List (List Char × Anchor)},
      files.foldlM anchorFile anchors = .ok anchors' →
      (∀ f ∈ files, ∃ a, anchors.lookup f.fileId = some a ∧
        anchors'.lookup f.fileId = some ⟨a.path, f.lines.map Row.line⟩) ∧
      ∀ fid ∉ files.map File.fileId, anchors'.lookup fid = anchors.lookup fid := by
  induction files with
  | nil =>
      intro anchors anchors' h
      obtain rfl := Except.ok.inj h
      exact ⟨fun f hf => absurd hf not_mem_nil, fun _ _ => rfl⟩
  | cons f files ih =>
      intro anchors anchors' h
      rw [map_cons, nodup_cons] at hnodup
      rw [foldlM_cons] at h
      cases hfirst : anchorFile anchors f with
      | error e =>
          rw [hfirst] at h
          cases h
      | ok next =>
          rw [hfirst] at h
          obtain ⟨a, ha, rfl⟩ := anchorFile_eq hfirst
          obtain ⟨hfiles, hothers⟩ := ih hnodup.2 h
          refine ⟨fun g hg => ?_, fun fid hfid => ?_⟩
          · rcases mem_cons.mp hg with rfl | hg
            · refine ⟨a, ha, ?_⟩
              rw [hothers _ hnodup.1, lookup_setAnchor, if_pos rfl]
            · obtain ⟨a', ha', hnew⟩ := hfiles g hg
              rw [lookup_setAnchor, if_neg] at ha'
              · exact ⟨a', ha', hnew⟩
              · intro heq
                exact hnodup.1 (heq ▸ mem_map_of_mem hg)
          · rw [map_cons, mem_cons, not_or] at hfid
            rw [hothers fid hfid.2, lookup_setAnchor, if_neg hfid.1]

/-! ## The result -/

theorem collect_eq {env : Retrieval} {perFile maxInput : ℕ} {b : Evidence} {c : Collected}
    (h : collect env perFile maxInput b = .ok c) : ∃ p anchors,
    plan env b = .ok p ∧
      (p.run perFile maxInput b.payload).files.foldlM anchorFile
        (p.run perFile maxInput b.payload).anchors = .ok anchors ∧
      c.bundle.payload = { b.payload with files := (p.run perFile maxInput b.payload).files } ∧
      c.bundle.anchors = anchors ∧
      c.protectedMissing = (p.run perFile maxInput b.payload).protectedMissing := by
  simp only [collect, bind, Except.bind] at h
  split at h
  · cases h
  · next p hp =>
    split at h
    · cases h
    · next anchors hanchors =>
      obtain rfl := Except.ok.inj h
      exact ⟨p, anchors, hp, hanchors, rfl, rfl, rfl⟩

/-! ## Collecting returns -/

theorem mapM_returns {α β ε : Type} {f : α → Except ε β} {items : List α}
    (h : ∀ a ∈ items, ∃ b, f a = .ok b) : ∃ bs, items.mapM f = .ok bs := by
  induction items with
  | nil => exact ⟨[], rfl⟩
  | cons a items ih =>
      obtain ⟨b, hb⟩ := h a mem_cons_self
      obtain ⟨bs, hbs⟩ := ih fun a' ha' => h a' (mem_cons_of_mem a ha')
      refine ⟨b :: bs, ?_⟩
      rw [mapM_cons, hb]
      change (items.mapM f >>= fun bs => pure (b :: bs)) = _
      rw [hbs]
      rfl

/-- The rows of a patch are numbered from one. -/
theorem headRows_positive {patch : List Char} {rows : List Row} (h : headRows patch = .ok rows) :
    ∀ r ∈ rows, 1 ≤ r.line := by
  have hread : ∀ (lines : List (List Char)) (w : Walk), (∀ r ∈ w.rows, 1 ≤ r.line) →
      ∀ r ∈ (lines.foldl Walk.read w).rows, 1 ≤ r.line := by
    intro lines
    induction lines with
    | nil => exact fun w hw => hw
    | cons line lines ih =>
        intro w hw
        have hshow : ∀ code changed, ∀ r ∈ (w.show code changed).rows, 1 ≤ r.line := by
          intro code changed r hr
          unfold Walk.show at hr
          split_ifs at hr with hzero
          · exact hw r hr
          · rcases mem_append.mp hr with hr | hr
            · exact hw r hr
            · obtain rfl := mem_singleton.mp hr
              dsimp only
              omega
        apply ih
        unfold Walk.read
        split
        · exact hw
        · split
          · exact hshow _ _
          · exact hshow _ _
          · exact hw
  unfold headRows at h
  dsimp only at h
  split_ifs at h
  obtain rfl := Except.ok.inj h
  exact hread _ {} fun r hr => absurd hr not_mem_nil

section Returns

variable (env : Retrieval) {paths : List (List Char × List Char)}

/-- The rows of a file with a source are lines of it. -/
def Covered (files : List File) (paths : List (List Char × List Char))
    (sources : List (List Char × Source)) : Prop :=
  ∀ e ∈ sources, ∃ f ∈ files, paths.lookup f.fileId = some e.1 ∧
    ∀ r ∈ f.lines, r.line ≤ e.2.length

theorem safeSource_returns {files : List File} {f : File} (hf : f ∈ files) {path : List Char}
    (hpath : paths.lookup f.fileId = some path) (hrows : ∀ r ∈ f.lines, 1 ≤ r.line)
    (s : List (List Char × Source) × List ContextNote) :
    ∃ t, safeSource env paths s f = .ok t ∧
      (Covered files paths s.1 → Covered files paths t.1) := by
  unfold safeSource
  rw [hpath]
  dsimp only
  cases hread : env.read path with
  | none => exact ⟨_, rfl, id⟩
  | some lines =>
      dsimp only
      obtain ⟨differ, hdiffer⟩ := anyM_returns fun r hr =>
        differs_returns Raised.indexError lines (hrows r hr)
      rw [hdiffer]
      refine ⟨_, rfl, fun hs => ?_⟩
      dsimp only
      split_ifs with hsame
      · exact hs
      · exact hs
      · intro e he
        rcases mem_append.mp he with he | he
        · exact hs e he
        · obtain rfl := mem_singleton.mp he
          refine ⟨f, hf, hpath, fun r hr => ?_⟩
          rw [Bool.not_eq_true] at hsame
          exact (agrees_of_anyM (hsame ▸ hdiffer) r hr).1

theorem foldlM_safeSource {all files : List File} (hfiles : ∀ f ∈ files, f ∈ all ∧
      (∃ path, paths.lookup f.fileId = some path) ∧ ∀ r ∈ f.lines, 1 ≤ r.line)
    (s : List (List Char × Source) × List ContextNote) (hs : Covered all paths s.1) :
    ∃ t, files.foldlM (safeSource env paths) s = .ok t ∧ Covered all paths t.1 := by
  have hstep : ∀ s : List (List Char × Source) × List ContextNote, Covered all paths s.1 →
      ∀ f ∈ files, ∃ t, safeSource env paths s f = .ok t ∧ Covered all paths t.1 := by
    intro s hs f hf
    obtain ⟨hall, ⟨path, hpath⟩, hrows⟩ := hfiles f hf
    obtain ⟨t, ht, hkeeps⟩ := safeSource_returns env hall hpath hrows s
    exact ⟨t, ht, hkeeps hs⟩
  exact foldlM_returns hstep hs

/-- The lines around a line of a source are not none, or it is in a function. -/
theorem queryOf_returns {sources : List (List Char × Source)} {path : List Char} {lines : Source}
    (known : sources.lookup path = some lines) (info : Info) {n : ℤ} (hone : 1 ≤ n)
    (hlast : n ≤ lines.length) : ∃ q, queryOf path lines known info n = .ok q := by
  cases hshortest : shortest (spansAt info n.toNat) with
  | some s =>
      simp only [queryOf, hshortest]
      exact ⟨_, rfl⟩
  | none =>
      have hmem : n.toNat ∈ around lines n.toNat info := by
        rw [around_none hshortest, mem_numbersTo_iff]
        omega
      have hne : around lines n.toNat info ≠ [] := ne_nil_of_mem hmem
      obtain ⟨least, hleast⟩ := Option.ne_none_iff_exists'.mp (mt min?_eq_none_iff.mp hne)
      obtain ⟨most, hmost⟩ := Option.ne_none_iff_exists'.mp (mt max?_eq_none_iff.mp hne)
      simp only [queryOf, hshortest, hleast, hmost, Option.bind_some, Option.map_some]
      exact ⟨_, rfl⟩

theorem fileQueries_returns {metadata : List (List Char × Info)}
    {sources : List (List Char × Source)} {f : File} {path : List Char}
    (hpath : paths.lookup f.fileId = some path)
    (hrows : ∀ lines, sources.lookup path = some lines →
      ∀ r ∈ f.lines, 1 ≤ r.line ∧ r.line ≤ lines.length) :
    ∃ qs, fileQueries metadata sources paths f = .ok qs := by
  unfold fileQueries
  rw [hpath]
  dsimp only
  split
  · exact ⟨[], rfl⟩
  · next lines known =>
    split_ifs
    · exact ⟨[], rfl⟩
    · have hstep : ∀ groups, True → ∀ r ∈ f.lines,
          ∃ t, groupRow path lines known (infoOf metadata path) groups r = .ok t ∧ True := by
        intro groups _ r hr
        unfold groupRow
        split_ifs
        · exact ⟨groups, rfl, trivial⟩
        · obtain ⟨hone, hlast⟩ := hrows lines known r hr
          obtain ⟨q, hq⟩ := queryOf_returns known (infoOf metadata path) hone hlast
          rw [hq]
          exact ⟨_, rfl, trivial⟩
      obtain ⟨groups, hgroups, -⟩ := foldlM_returns hstep (s := []) trivial
      rw [hgroups]
      exact ⟨_, rfl⟩

theorem foldlM_anchorFile_returns {files : List File} {anchors : List (List Char × Anchor)}
    (h : ∀ f ∈ files, (anchors.lookup f.fileId).isSome = true) :
    ∃ anchors', files.foldlM anchorFile anchors = .ok anchors' := by
  induction files generalizing anchors with
  | nil => exact ⟨anchors, rfl⟩
  | cons f files ih =>
      obtain ⟨a, ha⟩ := Option.isSome_iff_exists.mp (h f mem_cons_self)
      rw [foldlM_cons, anchorFile, ha]
      refine ih fun g hg => ?_
      rw [lookup_setAnchor]
      split_ifs
      · rfl
      · exact h g (mem_cons_of_mem f hg)

end Returns

end Prism.Policy
