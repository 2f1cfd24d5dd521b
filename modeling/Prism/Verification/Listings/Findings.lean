import Prism.Model.Listings

/-! # The pages of an analysis's findings -/

namespace Prism.Analysis

open List Keyset
open AnalysisWorker (findingKeysUnique)

variable {db : Db} {uid wid aid : UUID} {category : Option Category}

/-! ## What a cursor stands for -/

theorem mem_matching {f : Finding} : f ∈ matching db wid aid category ↔
    f ∈ db.findings ∧ f.workspaceId = wid ∧ f.analysisId = aid ∧
      ∀ c, category = some c → f.entry.category = c := by
  rw [matching, mem_filter]
  cases category <;> simp [and_assoc]

/-- Rows with distinct identifiers have distinct keys. -/
theorem distinct_findingKey {rows : List Finding} (h : (rows.map Finding.id).Nodup) :
    Distinct findingKey rows := by
  refine (pairwise_map.mp h).imp fun hne heq => hne ?_
  exact congrArg Prod.snd (toLex_inj.mp heq)

theorem nodup_ids (h : findingKeysUnique db.findings = true) :
    (db.findings.map Finding.id).Nodup := by
  rw [findingKeysUnique, Bool.and_eq_true, decide_eq_true_eq] at h
  exact h.1

/-- The cursor of a listed finding is looked up as that finding. -/
theorem find?_cursor {rows : List Finding} (h : (rows.map Finding.id).Nodup) {f : Finding}
    (hf : f ∈ rows) (hwid : f.workspaceId = wid) (haid : f.analysisId = aid) :
    rows.find? (fun g => g.workspaceId = wid && g.analysisId = aid && g.id = f.id) = some f := by
  induction rows with
  | nil => cases hf
  | cons g rows ih =>
      rw [map_cons, nodup_cons] at h
      rcases mem_cons.mp hf with rfl | hf
      · rw [find?_cons_of_pos (by simp [hwid, haid])]
      · have hne : g.id ≠ f.id := fun heq => h.1 (heq ▸ mem_map_of_mem hf)
        rw [find?_cons_of_neg (by simp [hne]), ih h.2 hf]

/-- What is left to list behind a cursor. -/
inductive Left (db : Db) (wid aid : UUID) (category : Option Category) :
    Option UUID → List Finding → Prop where
  | first : Left db wid aid category none (seek findingKey ⊥ (matching db wid aid category))
  | behind (f : Finding) (hf : f ∈ matching db wid aid category) :
      Left db wid aid category (some f.id)
        (seek findingKey (findingKey f) (matching db wid aid category))

theorem findingsQuery_left (hkeys : findingKeysUnique db.findings = true) {cursor : Option UUID}
    {found : List Finding} (h : Left db wid aid category cursor found) :
    findingsQuery db wid aid category cursor = .ok (found.take 101) := by
  cases h with
  | first =>
      rw [findingsQuery, seek, filter_eq_self.mpr (fun f _ => by simp)]
  | behind f hf =>
      obtain ⟨hmem, hwid, haid, -⟩ := mem_matching.mp hf
      rw [findingsQuery]
      dsimp only
      rw [find?_cursor (nodup_ids hkeys) hmem hwid haid, seek]
      dsimp only
      refine congrArg (fun l => Except.ok ((ordered findingKey l).take 101)) ?_
      refine filter_congr fun g _ => ?_
      rw [Bool.eq_iff_iff]
      simp only [findingKey, WithBot.coe_lt_coe, Prod.Lex.toLex_lt_toLex, Bool.or_eq_true,
        Bool.and_eq_true, decide_eq_true_eq]
      exact or_congr_right (and_congr_left fun _ => eq_comm)

/-! ## Following the cursor -/

theorem findingsPage_left {row : AnalysisRun} (hauth : authorized db uid wid aid false = .ok row)
    (hkeys : findingKeysUnique db.findings = true) {cursor : Option UUID} {found : List Finding}
    (h : Left db wid aid category cursor found) :
    findingsPage db uid wid aid category cursor =
      .ok (items 100 found, (next 100 found).map Finding.id) := by
  rw [findingsPage, hauth]
  show (do let rows ← findingsQuery db wid aid category cursor; _) = _
  rw [findingsQuery_left hkeys h]
  show Except.ok (pageOf 100 Finding.id (found.take 101)) = _
  rw [pageOf, items_take, next_take]

/-- A page, and what is left behind the cursor it returns. -/
theorem left_step (hkeys : findingKeysUnique db.findings = true) {cursor : Option UUID}
    {found : List Finding} (h : Left db wid aid category cursor found) {l : Finding}
    (hnext : next 100 found = some l) : ∃ found', Left db wid aid category (some l.id) found' ∧
      found = items 100 found ++ found' ∧ found'.length < found.length := by
  have hdistinct : Distinct findingKey (matching db wid aid category) :=
    (distinct_findingKey (nodup_ids hkeys)).filter _
  obtain ⟨after, rfl⟩ : ∃ after, found = seek findingKey after (matching db wid aid category) := by
    cases h with
    | first => exact ⟨_, rfl⟩
    | behind f _ => exact ⟨_, rfl⟩
  have hl := next_mem (seek_pairwise hdistinct after) hnext (by decide)
  have hsplit := seek_eq_items_append hdistinct hnext (by decide)
  refine ⟨_, .behind l (mem_seek.mp (mem_of_mem_take hl)).1, hsplit, ?_⟩
  have hlength := congrArg length hsplit
  have hpos := length_pos_of_mem hl
  rw [length_append] at hlength
  omega

/-- What the pages are to be together. -/
structure Complete (db : Db) (wid aid : UUID) (category : Option Category) (listed : List Finding) :
    Prop where
  ordered : listed.Pairwise fun f g => severityRank f.entry.severity < severityRank g.entry.severity ∨
    severityRank f.entry.severity = severityRank g.entry.severity ∧ f.id < g.id
  once : listed.Nodup
  mem : ∀ f, f ∈ listed ↔ f ∈ db.findings ∧ f.workspaceId = wid ∧ f.analysisId = aid ∧
    ∀ c, category = some c → f.entry.category = c

/-- Following the cursor comes to an end and lists every finding once. -/
theorem pages_complete (db : Db) (uid wid aid : UUID) (category : Option Category)
    (row : AnalysisRun) (hauth : authorized db uid wid aid false = .ok row)
    (hkeys : findingKeysUnique db.findings = true) :
    ∃ pages, Traversal (findingsPage db uid wid aid category) none pages ∧
      (∀ pages', Traversal (findingsPage db uid wid aid category) none pages' → pages' = pages) ∧
      Complete db wid aid category pages.flatten := by
  have hpage : ∀ cursor found, Left db wid aid category cursor found →
      findingsPage db uid wid aid category cursor = .ok (found, none) ∨
        ∃ items c found', findingsPage db uid wid aid category cursor = .ok (items, some c) ∧
          Left db wid aid category (some c) found' ∧ found = items ++ found' ∧
          found'.length < found.length := by
    intro cursor found hleft
    rw [findingsPage_left hauth hkeys hleft]
    cases hnext : next 100 found with
    | none =>
        rw [items_of_next_none hnext (by decide)]
        exact .inl rfl
    | some l =>
        obtain ⟨found', hleft', hsplit, hlt⟩ := left_step hkeys hleft hnext
        exact .inr ⟨_, l.id, found', rfl, hleft', hsplit, hlt⟩
  obtain ⟨pages, hpages, hflat⟩ := exists_traversal hpage none _ .first
  have hdistinct : Distinct findingKey (matching db wid aid category) :=
    (distinct_findingKey (nodup_ids hkeys)).filter _
  have hpair := seek_pairwise hdistinct ⊥
  refine ⟨pages, hpages, fun pages' h => h.unique hpages, ?_⟩
  rw [hflat]
  have hnodup : (seek findingKey ⊥ (matching db wid aid category)).Nodup :=
    hpair.imp fun hlt heq => absurd (heq ▸ hlt) (lt_irrefl _)
  refine ⟨hpair.imp fun hlt => Prod.Lex.toLex_lt_toLex.mp hlt, hnodup, fun f => ?_⟩
  rw [mem_seek, mem_matching]
  simp

/-! ## A long listing -/

/-- Sixty-four digits, of which the first ten tell the findings apart. -/
def digits (i : ℕ) : String :=
  String.ofList ((List.range 10).map (fun k => if i.testBit k then '1' else '0') ++
    List.replicate 54 '0')

theorem digits_injective {i j : ℕ} (hi : i < 1000) (hj : j < 1000) (h : digits i = digits j) :
    i = j := by
  refine Nat.eq_of_testBit_eq fun k => ?_
  have hlist := (append_inj (String.ofList_injective h) (by simp)).1
  by_cases hk : k < 10
  · have hbit := map_inj_left.mp hlist k (mem_range.mpr hk)
    cases hki : i.testBit k <;> cases hkj : j.testBit k <;> simp [hki, hkj] at hbit ⊢
  · have hpow : 2 ^ 10 ≤ 2 ^ k := Nat.pow_le_pow_right (by decide) (not_lt.mp hk)
    rw [Nat.testBit_lt_two_pow (by omega), Nat.testBit_lt_two_pow (by omega)]

/-- A finding of the analysis `3` of the workspace `1`. -/
def sampleFinding (id : UUID) (ruleId : String) (severity : Severity) (filePath : String)
    (line : ℕ) (fingerprint : String) : Finding where
  id := id
  workspaceId := 1
  analysisId := 3
  entry :=
    { ruleId
      ruleVersion := "1.0.0"
      category := .maintainability
      severity
      confidence := .high
      language := some .javascript
      filePath
      startLine := some line
      endLine := some line
      side := .head
      scopeLocation := .changed
      messageCode := ruleId
      sanitizedMessage := ruleId
      fingerprint }

/-- The `i`-th `var` declaration of files with a hundred of them each. -/
def declaration (i : ℕ) : Finding :=
  sampleFinding i "JS-001" .info (String.ofList [Char.ofNat (97 + i / 100), '.', 'j', 's'])
    (i % 100 + 1) (digits i)

theorem nodup_declarations {β : Type} {key : Finding → β} {n : ℕ}
    (hinj : ∀ i < n, ∀ j < n, key (declaration i) = key (declaration j) → i = j) :
    (((range n).map declaration).map key).Nodup := by
  rw [map_map]
  refine nodup_range.map_on fun i hi j hj heq => ?_
  exact hinj i (mem_range.mp hi) j (mem_range.mp hj) heq

theorem declarations_keys {n : ℕ} (hn : n ≤ 1000) :
    findingKeysUnique ((range n).map declaration) = true := by
  rw [findingKeysUnique, Bool.and_eq_true, decide_eq_true_eq, decide_eq_true_eq]
  constructor
  · exact nodup_declarations fun i _ j _ h => h
  · refine nodup_declarations fun i hi j hj h => ?_
    exact digits_injective (by omega) (by omega) (congrArg Prod.snd h)

/-- A workspace with a member, a repository and a completed analysis with some findings. -/
def sampleDb (findings : List Finding) : Db :=
  { Db.empty 0 with
    users := (∅ : Table UUID User).put 7 ⟨1, .active, .junior⟩
    workspaces := (∅ : Table UUID Activity).put 1 .active
    members := (∅ : Table (UUID × UUID) WorkspaceMember).put (1, 7) ⟨.owner, .active⟩
    connections := (∅ : Table UUID RepositoryConnection).put 2
      { workspaceId := 1
        githubRepositoryId := 1
        installationId := 1
        ownerLogin := "o"
        repositoryName := "r"
        isPrivate := false
        defaultBranch := none
        status := .active
        connectionGeneration := 1
        currentConfigVersionId := 1
        connectedBy := 7
        connectedAt := 0
        disconnectedAt := none
        lastSyncSuccessAt := none }
    analysisRuns := (∅ : Table UUID AnalysisRun).put 3
      { workspaceId := 1
        repositoryConnectionId := 2
        connectionGeneration := 1
        prId := 1
        baseSha := String.ofList (replicate 40 'a')
        headSha := String.ofList (replicate 40 'b')
        mergeBaseSha := none
        ruleSetVersion := "1.0.0"
        configVersionId := 1
        effectiveConfigDigest := String.ofList (replicate 64 'c')
        analyzerBuildDigest := String.ofList (replicate 64 'd')
        generation := 0
        executionKey := String.ofList (replicate 64 'e')
        requestedBy := some 7
        actorType := .user
        status := .completed
        coverageStatus := some .fullScope
        coverageReason := none
        totalFiles := 11
        includedFiles := 11
        excludedFiles := 0
        failedFiles := 0
        notEvaluatedRules := 0
        findingCount := findings.length
        createdAt := 0
        startedAt := some 0
        finishedAt := some 0
        errorCode := none }
    findings := findings }

theorem findingsPage_length {cursor next : Option UUID} {found : List Finding}
    (h : findingsPage db uid wid aid category cursor = .ok (found, next)) :
    found.length ≤ 100 := by
  unfold findingsPage at h
  cases hauth : authorized db uid wid aid false with
  | error e =>
      rw [hauth] at h
      cases h
  | ok row =>
      rw [hauth] at h
      cases hquery : findingsQuery db wid aid category cursor with
      | error e =>
          simp only [hquery, bind, Except.bind] at h
          cases h
      | ok rows =>
          simp only [hquery, bind, Except.bind] at h
          obtain ⟨rfl, -⟩ := Prod.mk.inj (Except.ok.inj h)
          exact length_take_le 100 rows

/-- A hundred and fifty findings of one severity, of which no page has all. -/
theorem pages_complete_sample : ∃ pages,
    Traversal (findingsPage (sampleDb ((range 150).map declaration)) 7 1 3 none) none pages ∧
      Complete (sampleDb ((range 150).map declaration)) 1 3 none pages.flatten ∧
      1 < pages.length := by
  have hkeys : findingKeysUnique ((range 150).map declaration) = true :=
    declarations_keys (by decide)
  obtain ⟨pages, hpages, -, hcomplete⟩ :=
    pages_complete (sampleDb ((range 150).map declaration)) 7 1 3 none _ rfl hkeys
  refine ⟨pages, hpages, hcomplete, ?_⟩
  cases hpages with
  | @last _ found h =>
      have hids : (((range 150).map declaration).map Finding.id).Nodup :=
        nodup_declarations fun i _ j _ h => h
      have hnodup : ((range 150).map declaration).Nodup := hids.of_map Finding.id
      have hmem : ∀ f, f ∈ found ↔ f ∈ (range 150).map declaration := by
        intro f
        have hlisted := hcomplete.mem f
        rw [flatten_singleton] at hlisted
        refine hlisted.trans ⟨fun hf => hf.1, fun hf => ⟨hf, ?_⟩⟩
        obtain ⟨i, -, rfl⟩ := mem_map.mp hf
        exact ⟨rfl, rfl, fun c hc => nomatch hc⟩
      have honce : found.Nodup := flatten_singleton (l := found) ▸ hcomplete.once
      have hlength := ((perm_ext_iff_of_nodup honce hnodup).mpr hmem).length_eq
      have hshort := findingsPage_length h
      rw [length_map, length_range] at hlength
      omega
  | more h rest => cases rest <;> simp

end Prism.Analysis
