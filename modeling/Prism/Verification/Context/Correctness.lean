import Prism.Verification.Context.Plan
import Prism.Verification.Evidence.Correctness

/-! # Collecting context keeps the evidence of a bundle -/

namespace Prism.Policy

open List

/-! ## The bundle -/

/-- What the context makes of one file: lines of its source are added to its rows. -/
structure Extended (read : List Char → Option Source) (path : List Char) (f f' : File) : Prop where
  same : f' = { f with lines := f'.lines }
  rows : f'.lines = f.lines ∨ ∃ lines, read path = some lines ∧ Grown lines f.lines f'.lines

/-- A bundle with context against the one without. -/
structure KeepsEvidence (read : List Char → Option Source) (perFile maxInput : ℕ)
    (b c : Evidence) : Prop where
  size : c.payload.size ≤ maxInput
  fileSize : ∀ f ∈ c.payload.files, encodedSize f.toJson ≤ perFile
  rest : c.payload = { b.payload with files := c.payload.files }
  distinct : (c.payload.files.map File.fileId).Nodup
  kept : ∀ (i : ℕ) (f : File), b.payload.files[i]? = some f →
    ∃ f' a, c.payload.files[i]? = some f' ∧ c.anchors.lookup f'.fileId = some a ∧
      Extended read a.path f f'
  new : ∀ (i : ℕ) (f' : File), b.payload.files[i]? = none → c.payload.files[i]? = some f' →
    f'.role = .related ∧ ∃ a, c.anchors.lookup f'.fileId = some a ∧
      Extended read a.path { f' with lines := [] } f'
  few : (c.payload.files.countP fun f => f.role = .related) ≤ 4
  anchored : ∀ f ∈ c.payload.files, ∃ path,
    c.anchors.lookup f.fileId = some ⟨path, f.lines.map Row.line⟩
  names : ∀ fid, (c.anchors.lookup fid).isSome = true → fid ∈ c.payload.files.map File.fileId

section Collect

variable {env : Retrieval} {perFile maxInput : ℕ} {b : Evidence} {c : Collected}

/-- The anchors of an intact state, when each file is anchored at its lines. -/
theorem Intact.keepsEvidence {sources : List (List Char × Source)} {s : Collecting}
    (hb : b.payload.files.map File.fileId =
      (range b.payload.files.length).map fun i => 'f' :: Nat.toDigits 10 (i + 1))
    (h : Intact sources b perFile maxInput s) {anchors : List (List Char × Anchor)}
    (hanchors : s.files.foldlM anchorFile s.anchors = .ok anchors)
    (hread : ∀ path lines, sources.lookup path = some lines → env.read path = some lines)
    {b' : Evidence} (hpayload : b'.payload = { b.payload with files := s.files })
    (hb' : b'.anchors = anchors) : KeepsEvidence env.read perFile maxInput b b' := by
  obtain ⟨hfiles, hothers⟩ := foldlM_anchorFile (h.nodup hb) hanchors
  have hheld : ∀ (i : ℕ) (f' : File), s.files[i]? = some f' →
      ∃ a, anchors.lookup f'.fileId = some a ∧ (f'.lines = startRows b i ∨
        ∃ lines, env.read a.path = some lines ∧ Grown lines (startRows b i) f'.lines) := by
    intro i f' hf'
    obtain ⟨-, -, a, ha, hrows⟩ := h.held i f' hf'
    obtain ⟨a', ha', hnew⟩ := hfiles f' (mem_of_getElem? hf')
    obtain rfl := Option.some.inj (ha.symm.trans ha')
    refine ⟨_, hnew, hrows.imp_right ?_⟩
    rintro ⟨lines, hlines, hgrown⟩
    exact ⟨lines, hread _ _ hlines, hgrown⟩
  have hs : b'.payload.files = s.files := by rw [hpayload]
  constructor
  · rw [hpayload]
    exact h.size
  · rw [hs]
    exact h.fileSize
  · rw [hs, hpayload]
  · rw [hs]
    exact h.nodup hb
  · intro i f hf
    rw [hs, hb']
    have hi : i < s.files.length :=
      (List.getElem?_eq_some_iff.mp hf).1.trans_le h.least
    obtain ⟨a, ha, hrows⟩ := hheld i _ (getElem?_eq_getElem hi)
    have hstart : startRows b i = f.lines := by
      rw [startRows, hf]
      rfl
    rw [hstart] at hrows
    exact ⟨_, a, getElem?_eq_getElem hi, ha,
      (h.held i _ (getElem?_eq_getElem hi)).same f hf, hrows⟩
  · intro i f' hnone hf'
    rw [hs] at hf'
    rw [hb']
    obtain ⟨a, ha, hrows⟩ := hheld i f' hf'
    have hstart : startRows b i = [] := by
      rw [startRows, hnone]
      rfl
    rw [hstart] at hrows
    exact ⟨(h.held i f' hf').new hnone, a, ha, rfl, hrows⟩
  · rw [hs]
    exact h.related
  · intro f hf
    rw [hs] at hf
    obtain ⟨a, -, hnew⟩ := hfiles f hf
    exact ⟨a.path, hb' ▸ hnew⟩
  · intro fid hfid
    rw [hs]
    rw [hb'] at hfid
    by_contra hnot
    rw [hothers fid hnot] at hfid
    exact hnot (h.names fid hfid)

/-- What collecting makes of a bundle. Of the offered chunks each is added as a whole or not at
all, and the protected ones that are not are counted. -/
def Collects (env : Retrieval) (perFile maxInput : ℕ) (b : Evidence) (c : Collected) : Prop :=
  KeepsEvidence env.read perFile maxInput b c.bundle ∧
    ∃ p, plan env b = .ok p ∧
      let ds := decisions b.payload perFile maxInput p.start p.offers
      ds.map Prod.fst = p.offers ∧
      (∀ path n, ShowsLine c.bundle.payload.files c.bundle.anchors path n ↔
        ShowsLine b.payload.files b.anchors path n ∨ Admitted ds path n) ∧
      c.protectedMissing = ds.countP fun d => d.1.isProtected && !d.2

theorem collect_keeps {findings : List Json} {ignored : List (List Char)}
    {mode : Option ReviewMode} {changes : List (List Json.Member)} {totalFiles : Option ℕ}
    (hb : prepare findings ignored perFile maxInput mode changes totalFiles = .ok b)
    (h : collect env perFile maxInput b = .ok c) :
    Collects env perFile maxInput b c := by
  obtain ⟨hprepared, hsize, -⟩ := prepare_spec hb
  obtain ⟨p, anchors, hp, hanchors, hpayload, hcanchors, hmissing⟩ := collect_eq h
  obtain ⟨⟨notes, hstart⟩, hread⟩ := plan_spec hp
  have hintact := hprepared.intact hsize p.sources notes
  rw [← hstart] at hintact
  obtain ⟨hrun, hshows, hcount⟩ := foldl_append_spec hprepared.ids p.offers hintact
  have hfiles := (foldlM_anchorFile (hrun.nodup hprepared.ids) hanchors).1
  have hrunshows : ∀ path n, ShowsLine c.bundle.payload.files c.bundle.anchors path n ↔
      ShowsLine (p.run perFile maxInput b.payload).files
        (p.run perFile maxInput b.payload).anchors path n := by
    intro path n
    rw [hpayload, hcanchors]
    refine exists_congr fun f => and_congr_right fun hf => ?_
    obtain ⟨a, ha, hnew⟩ := hfiles f hf
    rw [ha, hnew]
    constructor
    · rintro ⟨a', ha', hpath, hn⟩
      obtain rfl := Option.some.inj ha'
      exact ⟨a, rfl, hpath, hn⟩
    · rintro ⟨a', ha', hpath, hn⟩
      obtain rfl := Option.some.inj ha'
      exact ⟨_, rfl, hpath, hn⟩
  refine ⟨hrun.keepsEvidence hprepared.ids hanchors hread hpayload hcanchors, p, hp,
    map_fst_decisions _ _, fun path n => ?_, ?_⟩
  · rw [hrunshows, Plan.run, hshows, hstart]
  · rw [hmissing, Plan.run, hcount, hstart, Nat.zero_add]

/-- Where the paths are distinct, a file with a source has rows of that source only. -/
theorem Prepared.bounded {changes : List (List Json.Member)}
    (h : Prepared perFile changes b.payload.files b.anchors)
    (hpaths : (b.anchors.map fun a => a.2.path).Nodup) {sources : List (List Char × Source)}
    (hsources : Covered b.payload.files (b.anchors.map fun a => (a.1, a.2.path)) sources)
    {f : File} (hf : f ∈ b.payload.files) {path : List Char} {lines : Source}
    (hpath : (b.anchors.map fun a => (a.1, a.2.path)).lookup f.fileId = some path)
    (hlines : sources.lookup path = some lines) : ∀ r ∈ f.lines, r.line ≤ lines.length := by
  have hmem : (path, lines) ∈ sources := by
    obtain ⟨l₁, l₂, hsplit, -⟩ := lookup_eq_some_iff.mp hlines
    rw [hsplit]
    exact mem_append_right _ mem_cons_self
  obtain ⟨g, hg, hgpath, hrows⟩ := hsources _ hmem
  have hentry : ∀ e : File,
      (b.anchors.map fun a => (a.1, a.2.path)).lookup e.fileId = some path →
        ∃ a, (e.fileId, a) ∈ b.anchors ∧ a.path = path := by
    intro e he
    rw [lookup_map_snd Anchor.path] at he
    obtain ⟨a, ha, rfl⟩ := Option.map_eq_some_iff.mp he
    obtain ⟨l₁, l₂, hsplit, -⟩ := lookup_eq_some_iff.mp ha
    refine ⟨a, ?_, rfl⟩
    rw [hsplit]
    exact mem_append_right _ mem_cons_self
  obtain ⟨a, ha, hapath⟩ := hentry f hpath
  obtain ⟨a', ha', hapath'⟩ := hentry g hgpath
  have hkey : f.fileId = g.fileId :=
    congrArg Prod.fst (inj_on_of_nodup_map hpaths ha ha' (hapath.trans hapath'.symm))
  have hids : (b.payload.files.map File.fileId).Nodup := by
    have := ids_nodup h.ids b.payload.files.length 0
    rwa [range'_zero, map_nil, append_nil] at this
  obtain rfl := inj_on_of_nodup_map hids hf hg hkey
  exact hrows

/-- Without a ranker, collecting context for files of different paths raises nothing. -/
theorem collect_returns {findings : List Json} {ignored : List (List Char)}
    {mode : Option ReviewMode} {changes : List (List Json.Member)} {totalFiles : Option ℕ}
    (hb : prepare findings ignored perFile maxInput mode changes totalFiles = .ok b)
    (hpaths : (b.anchors.map fun a => a.2.path).Nodup) (hrank : env.rank = none) :
    ∃ c, collect env perFile maxInput b = .ok c := by
  obtain ⟨hprepared, hsize, -⟩ := prepare_spec hb
  have hpositive : ∀ f ∈ b.payload.files, ∀ r ∈ f.lines, 1 ≤ r.line := by
    intro f hf
    obtain ⟨_, _, _, _, hshown, _⟩ := hprepared.shown f hf
    exact headRows_positive hshown.read
  have hnamed : ∀ f ∈ b.payload.files, ∃ path,
      (b.anchors.map fun a => (a.1, a.2.path)).lookup f.fileId = some path := by
    intro f hf
    have hmem : f.fileId ∈ b.anchors.map Prod.fst := by
      rw [hprepared.names]
      exact mem_map_of_mem hf
    obtain ⟨a, ha⟩ := Option.isSome_iff_exists.mp (lookup_isSome_iff_mem.mpr hmem)
    exact ⟨a.path, by rw [lookup_map_snd Anchor.path, ha, Option.map_some]⟩
  obtain ⟨safe, hsafe, hcovered⟩ := foldlM_safeSource env
    (fun f hf => And.intro hf ⟨hnamed f hf, hpositive f hf⟩) ([], treeNotes env)
    (fun e he => absurd he not_mem_nil)
  have hfile : ∀ f ∈ b.payload.files, ∃ qs, fileQueries (inspectSources env safe.1) safe.1
      (b.anchors.map fun a => (a.1, a.2.path)) f = .ok qs := by
    intro f hf
    obtain ⟨path, hpath⟩ := hnamed f hf
    exact fileQueries_returns hpath fun lines hlines r hr =>
      ⟨hpositive f hf r hr, hprepared.bounded hpaths hcovered hf hpath hlines r hr⟩
  obtain ⟨found, hqueries⟩ := mapM_returns hfile
  have hplan : ∃ p, plan env b = .ok p := by
    simp only [plan, queries, rankedOrders, hrank, hsafe, hqueries, bind, Except.bind, pure,
      Except.pure]
    exact ⟨_, rfl⟩
  obtain ⟨p, hp⟩ := hplan
  obtain ⟨⟨notes, hstart⟩, -⟩ := plan_spec hp
  have hintact := hprepared.intact hsize p.sources notes
  rw [← hstart] at hintact
  obtain ⟨hrun, -⟩ := foldl_append_spec hprepared.ids p.offers hintact
  have hanchored : ∀ f ∈ (p.run perFile maxInput b.payload).files,
      ((p.run perFile maxInput b.payload).anchors.lookup f.fileId).isSome = true := by
    intro f hf
    obtain ⟨i, hi⟩ := mem_iff_getElem?.mp hf
    obtain ⟨-, -, a, ha, -⟩ := hrun.held i f hi
    exact Option.isSome_iff_exists.mpr ⟨a, ha⟩
  obtain ⟨anchors, hanchors⟩ := foldlM_anchorFile_returns hanchored
  simp only [collect, hp, hanchors, bind, Except.bind, pure, Except.pure]
  exact ⟨_, rfl⟩

/-- Collecting context for a prepared bundle changes no evidence in it, and raises nothing when
there is no ranker and the files have different paths. -/
theorem context_keeps_evidence (env : Retrieval) {findings : List Json} {ignored : List (List Char)}
    {mode : Option ReviewMode} {changes : List (List Json.Member)} {totalFiles : Option ℕ}
    (hb : prepare findings ignored perFile maxInput mode changes totalFiles = .ok b) :
    (∀ c, collect env perFile maxInput b = .ok c → Collects env perFile maxInput b c) ∧
      ((b.anchors.map fun a => a.2.path).Nodup → env.rank = none →
        ∃ c, collect env perFile maxInput b = .ok c) :=
  ⟨fun _ hc => collect_keeps hb hc, collect_returns hb⟩

end Collect

/-! ## Executions -/

section Executions

/-- One source of three lines, of which a change shows the first two. -/
def threeLines : Retrieval where
  tree := .complete
  read path := if path = "a.js".toList then some [['a'], ['b'], ['c']] else none
  syntaxOf _ := []
  identifiersIn _ := []
  candidatePaths _ _ _ := []
  rank := none

/-- The file of the change that shows two lines. -/
theorem prepare_appended : ∃ b,
    prepare [] [] maxFile maxInput none [appended ['b']] none = .ok b ∧
      b.anchors.map (fun a => a.2.path) = ["a.js".toList] := by
  have hpaths : (prepare [] [] maxFile maxInput none [appended ['b']] none).toOption.map
      (fun b => b.anchors.map fun a => a.2.path) = some ["a.js".toList] := by
    decide +kernel
  cases hb : prepare [] [] maxFile maxInput none [appended ['b']] none with
  | error e =>
      rw [hb] at hpaths
      exact nomatch hpaths
  | ok b =>
      rw [hb] at hpaths
      exact ⟨b, rfl, Option.some.inj hpaths⟩

theorem context_keeps_evidence_threeLines : ∃ b c,
    prepare [] [] maxFile maxInput none [appended ['b']] none = .ok b ∧
      collect threeLines maxFile maxInput b = .ok c ∧
      Collects threeLines maxFile maxInput b c := by
  obtain ⟨b, hb, hpaths⟩ := prepare_appended
  obtain ⟨hkeeps, hreturns⟩ := context_keeps_evidence threeLines hb
  obtain ⟨c, hc⟩ := hreturns (by rw [hpaths]; exact nodup_singleton _) rfl
  exact ⟨b, c, hb, hc, hkeeps c hc⟩

end Executions

end Prism.Policy
