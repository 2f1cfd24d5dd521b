import Prism.Verification.Listings.Findings

/-! # Which findings a review is given -/

namespace Prism.Analysis

open List Keyset
open AnalysisWorker (findingKeysUnique)

variable {db : Db} {wid aid : UUID}

/-! ## The first thousand -/

def rankOf (f : Finding) : ℕ :=
  severityRank f.entry.severity

def fingerprintOf (f : Finding) : String :=
  f.entry.fingerprint

/-- Findings that may be told to a review. -/
def Told (f : Finding) : Prop :=
  f.entry.category ≠ .security

instance (f : Finding) : Decidable (Told f) :=
  inferInstanceAs (Decidable (_ ≠ _))

/-- Fewer than a thousand findings of the analysis have a smaller fingerprint. -/
def Early (db : Db) (wid aid : UUID) (f : Finding) : Prop :=
  (findingsOf db wid aid).countP (fun g => decide (fingerprintOf g < fingerprintOf f)) < 1000

instance (f : Finding) : Decidable (Early db wid aid f) :=
  inferInstanceAs (Decidable (_ < _))

theorem distinct_fingerprint (h : findingKeysUnique db.findings = true) :
    Distinct fingerprintOf (findingsOf db wid aid) := by
  rw [findingKeysUnique, Bool.and_eq_true, decide_eq_true_eq, decide_eq_true_eq] at h
  refine Pairwise.imp_of_mem ?_ ((pairwise_map.mp h.2).sublist filter_sublist)
  intro f g hf hg hne heq
  have haid (f : Finding) (hf : f ∈ findingsOf db wid aid) : f.analysisId = aid := by
    have := (mem_filter.mp hf).2
    simp only [Bool.and_eq_true, decide_eq_true_eq] at this
    exact this.2
  exact hne (Prod.ext ((haid f hf).trans (haid g hg).symm) heq)

/-- In a list in the order of its keys, what stands among the first `n` has less than `n` keys
before its own. -/
theorem mem_take_iff_countP {α κ : Type} [LinearOrder κ] {key : α → κ} {l : List α}
    (h : l.Pairwise fun a b => key a < key b) {n : ℕ} {a : α} :
    a ∈ l.take n ↔ a ∈ l ∧ l.countP (fun b => decide (key b < key a)) < n := by
  induction l generalizing n with
  | nil => simp
  | cons b l ih =>
      obtain ⟨hb, hl⟩ := pairwise_cons.mp h
      cases n with
      | zero => simp
      | succ n =>
          rw [take_succ_cons, mem_cons, mem_cons, ih hl, countP_cons]
          constructor
          · rintro (rfl | ⟨ha, hcount⟩)
            · have hzero : l.countP (fun b => decide (key b < key a)) = 0 := by
                rw [countP_eq_zero]
                intro c hc
                simpa using (hb c hc).le
              simp [hzero]
            · refine ⟨.inr ha, ?_⟩
              split <;> omega
          · rintro ⟨rfl | ha, hcount⟩
            · exact .inl rfl
            · rw [if_pos (by simpa using hb a ha)] at hcount
              exact .inr ⟨ha, by omega⟩

theorem mem_thousand (h : findingKeysUnique db.findings = true) {f : Finding} :
    f ∈ (ordered fingerprintOf (findingsOf db wid aid)).take 1000 ↔
      f ∈ findingsOf db wid aid ∧ Early db wid aid f := by
  rw [mem_take_iff_countP (ordered_pairwise (distinct_fingerprint h)), mem_ordered, Early,
    (ordered_perm (findingsOf db wid aid)).countP_eq]

/-! ## The most severe of them -/

/-- The told findings of the first thousand, by their severity. -/
def ranked (db : Db) (wid aid : UUID) : List Finding :=
  (((ordered fingerprintOf (findingsOf db wid aid)).take 1000).mergeSort fun f g =>
    decide (rankOf f ≤ rankOf g)).filter fun f => f.entry.category ≠ .security

theorem mem_ranked (h : findingKeysUnique db.findings = true) {f : Finding} :
    f ∈ ranked db wid aid ↔ f ∈ findingsOf db wid aid ∧ Early db wid aid f ∧ Told f := by
  rw [ranked, mem_filter, mem_mergeSort, mem_thousand h, and_assoc, decide_eq_true_eq, Told]

theorem ranked_pairwise : (ranked db wid aid).Pairwise fun f g => rankOf f ≤ rankOf g := by
  have hsorted : (((ordered fingerprintOf (findingsOf db wid aid)).take 1000).mergeSort fun f g =>
      decide (rankOf f ≤ rankOf g)).Pairwise fun f g => decide (rankOf f ≤ rankOf g) = true :=
    pairwise_mergeSort (fun a b c hab hbc => by simp only [decide_eq_true_eq] at *; omega)
      (fun a b => by simpa using le_total (rankOf a) (rankOf b)) _
  exact (hsorted.sublist filter_sublist).imp of_decide_eq_true

/-- A cut of a sorted list reaches beyond a rank when there are too few up to it. -/
theorem exists_take_iff {l : List Finding} (h : l.Pairwise fun f g => rankOf f ≤ rankOf g)
    (r : ℕ) {n : ℕ} : (∃ g ∈ l.take n, r < rankOf g) ↔
      l.countP (fun g => decide (rankOf g ≤ r)) < n ∧ ∃ g ∈ l, r < rankOf g := by
  induction l generalizing n with
  | nil => simp
  | cons b l ih =>
      obtain ⟨hb, hl⟩ := pairwise_cons.mp h
      cases n with
      | zero => simp
      | succ n =>
          rw [take_succ_cons, countP_cons]
          by_cases hr : r < rankOf b
          · have hzero : l.countP (fun g => decide (rankOf g ≤ r)) = 0 := by
              rw [countP_eq_zero]
              intro c hc
              have := hb c hc
              simp only [decide_eq_true_eq]
              omega
            simp only [hzero, decide_eq_true_eq, not_le.mpr hr, if_false]
            exact ⟨fun _ => ⟨by omega, b, mem_cons_self, hr⟩, fun _ => ⟨b, mem_cons_self, hr⟩⟩
          · have hle : rankOf b ≤ r := not_lt.mp hr
            simp only [exists_mem_cons_iff, hr, false_or, ih hl, hle, decide_true, if_true,
              Nat.add_lt_add_iff_right]

/-- What is counted among the told findings of the first thousand. -/
theorem countP_ranked (h : findingKeysUnique db.findings = true) (r : ℕ) :
    (ranked db wid aid).countP (fun g => decide (rankOf g ≤ r)) =
      (findingsOf db wid aid).countP fun g =>
        decide (Early db wid aid g ∧ Told g ∧ rankOf g ≤ r) := by
  have hnodup : (findingsOf db wid aid).Nodup :=
    (distinct_fingerprint h).imp fun hne heq => hne (congrArg fingerprintOf heq)
  have hperm : (ranked db wid aid).Perm
      ((findingsOf db wid aid).filter fun g => decide (Early db wid aid g ∧ Told g)) := by
    refine (perm_ext_iff_of_nodup ?_ (hnodup.filter _)).mpr fun g => ?_
    · refine Nodup.filter _ ((mergeSort_perm _ _).nodup_iff.mpr ?_)
      exact ((ordered_perm _).nodup_iff.mpr hnodup).sublist (take_sublist _ _)
    · rw [mem_ranked h, mem_filter, decide_eq_true_eq]
  rw [hperm.countP_eq, countP_filter]
  refine countP_congr fun g _ => ?_
  simp only [Bool.and_eq_true, decide_eq_true_eq]
  tauto

/-! ## Whether the most severe are kept -/

/-- No told finding is left out while a less severe one is given. -/
def KeepsMostSevere (db : Db) (wid aid : UUID) : Prop :=
  ∀ f ∈ findingsOf db wid aid, Told f → f ∉ selected db wid aid →
    ∀ g ∈ selected db wid aid, ¬ rankOf f < rankOf g

/-- A told finding behind the first thousand is missed by nothing: ten findings at least as
severe are before it, or no less severe one is. -/
def NoneCutOff (db : Db) (wid aid : UUID) : Prop :=
  ∀ f ∈ findingsOf db wid aid, Told f → ¬ Early db wid aid f →
    10 ≤ (findingsOf db wid aid).countP
        (fun g => decide (Early db wid aid g ∧ Told g ∧ rankOf g ≤ rankOf f)) ∨
      ∀ g ∈ findingsOf db wid aid, Early db wid aid g → Told g → rankOf g ≤ rankOf f

/-- What the cut at ten leaves out of the first thousand is not more severe. -/
theorem early_not_cut (h : findingKeysUnique db.findings = true) {f g : Finding}
    (hf : f ∈ findingsOf db wid aid) (htold : Told f) (hearly : Early db wid aid f)
    (hcut : f ∉ selected db wid aid) (hg : g ∈ selected db wid aid) : rankOf g ≤ rankOf f := by
  have hmem : f ∈ (ranked db wid aid).take 10 ++ (ranked db wid aid).drop 10 := by
    rw [take_append_drop]
    exact (mem_ranked h).mpr ⟨hf, hearly, htold⟩
  have hdrop := (mem_append.mp hmem).resolve_left hcut
  have hpair := @ranked_pairwise db wid aid
  rw [← take_append_drop 10 (ranked db wid aid)] at hpair
  exact (pairwise_append.mp hpair).2.2 g hg f hdrop

theorem keeps_iff (hkeys : findingKeysUnique db.findings = true) :
    KeepsMostSevere db wid aid ↔ NoneCutOff db wid aid := by
  constructor
  · intro hkeeps f hf htold hlate
    have hcut : f ∉ selected db wid aid := by
      intro hmem
      exact hlate ((mem_ranked hkeys).mp (mem_of_mem_take hmem)).2.1
    by_contra hneither
    rw [not_or, not_le, ← countP_ranked hkeys] at hneither
    obtain ⟨hfew, hless⟩ := hneither
    push Not at hless
    obtain ⟨g, hg, hearly, hgtold, hlt⟩ := hless
    obtain ⟨g', hg', hlt'⟩ := (exists_take_iff ranked_pairwise (rankOf f)).mpr
      ⟨hfew, g, (mem_ranked hkeys).mpr ⟨hg, hearly, hgtold⟩, hlt⟩
    exact hkeeps f hf htold hcut g' hg' hlt'
  · intro hnone f hf htold hcut g hg hlt
    by_cases hearly : Early db wid aid f
    · have := early_not_cut hkeys hf htold hearly hcut hg
      omega
    · obtain ⟨hmany, g', hg', hlt'⟩ := (exists_take_iff ranked_pairwise (rankOf f)).mp ⟨g, hg, hlt⟩
      rw [countP_ranked hkeys] at hmany
      obtain ⟨hfind, hgearly, hgtold⟩ := (mem_ranked hkeys).mp hg'
      rcases hnone f hf htold hearly with hten | hall
      · omega
      · have := hall g' hfind hgearly hgtold
        omega

/-- What a review is given are the selected findings. -/
theorem reviewSnapshotFindings_given {uid : UUID} {snapshot : ReviewSnapshot}
    {given : List SnapshotFinding}
    (h : reviewSnapshotFindings db uid wid aid = .ok (snapshot, given)) :
    given = (selected db wid aid).map snapshotFinding := by
  unfold reviewSnapshotFindings at h
  cases hrow : reviewSnapshot db uid wid aid with
  | error e =>
      rw [hrow] at h
      cases h
  | ok row =>
      rw [hrow] at h
      exact (congrArg Prod.snd (Except.ok.inj h)).symm

/-- The findings a review is given keep the most severe of an analysis exactly when none that
the first cut leaves out is missed. -/
theorem keeps_most_severe_iff (db : Db) (wid aid : UUID)
    (hkeys : findingKeysUnique db.findings = true) :
    (KeepsMostSevere db wid aid ↔ NoneCutOff db wid aid) ∧
      ∀ uid snapshot given, reviewSnapshotFindings db uid wid aid = .ok (snapshot, given) →
        given = (selected db wid aid).map snapshotFinding :=
  ⟨keeps_iff hkeys, fun _ _ _ h => reviewSnapshotFindings_given h⟩

/-! ## A crowded analysis -/

/-- A `debugger` statement in another file. -/
def breakpoint : Finding :=
  sampleFinding 1000 "JS-003" .warning "k.js" 1 (String.ofList (List.replicate 64 'f'))

/-- Ten files with a hundred declarations each, and this statement. -/
def crowded : Db :=
  sampleDb ((List.range 1000).map declaration ++ [breakpoint])

theorem declaration_lt_breakpoint (i : ℕ) :
    fingerprintOf (declaration i) < fingerprintOf breakpoint := by
  have hhead : (if i.testBit 0 then '1' else '0') < 'f' := by
    split <;> decide
  show String.ofList _ < String.ofList _
  rw [String.lt_iff_toList_lt, String.toList_ofList, String.toList_ofList]
  exact Lex.rel hhead

theorem nodup_crowded {β : Type} {key : Finding → β}
    (hinj : ∀ i < 1000, ∀ j < 1000, key (declaration i) = key (declaration j) → i = j)
    (hnew : ∀ i < 1000, key (declaration i) ≠ key breakpoint) :
    (crowded.findings.map key).Nodup := by
  show (((range 1000).map declaration ++ [breakpoint]).map key).Nodup
  rw [map_append]
  refine Nodup.append (nodup_declarations hinj) (nodup_singleton _) fun k hk hk' => ?_
  rw [map_map] at hk
  obtain ⟨i, hi, rfl⟩ := mem_map.mp hk
  exact hnew i (mem_range.mp hi) (by simpa using hk')

theorem crowded_keys : findingKeysUnique crowded.findings = true := by
  rw [findingKeysUnique, Bool.and_eq_true, decide_eq_true_eq, decide_eq_true_eq]
  constructor
  · refine nodup_crowded (fun i _ j _ h => h) fun i hi => ?_
    show i ≠ 1000
    omega
  · refine nodup_crowded (fun i hi j hj h => digits_injective hi hj (congrArg Prod.snd h))
      fun i _ h => ?_
    have hlt := declaration_lt_breakpoint i
    rw [show fingerprintOf (declaration i) = fingerprintOf breakpoint from congrArg Prod.snd h] at hlt
    exact lt_irrefl _ hlt

theorem findingsOf_crowded :
    findingsOf crowded 1 3 = (range 1000).map declaration ++ [breakpoint] := by
  refine filter_eq_self.mpr fun f hf => ?_
  rcases mem_append.mp hf with hf | hf
  · obtain ⟨i, _, rfl⟩ := mem_map.mp hf
    rfl
  · rw [mem_singleton.mp hf]
    rfl

/-- A thousand findings have smaller fingerprints than the `debugger` statement. -/
theorem breakpoint_late : ¬ Early crowded 1 3 breakpoint := by
  rw [Early, findingsOf_crowded, countP_append, countP_map, not_lt]
  have hall : (range 1000).countP ((fun g => decide (fingerprintOf g < fingerprintOf breakpoint)) ∘
      declaration) = (range 1000).length := by
    rw [countP_eq_length]
    intro i _
    exact decide_eq_true (declaration_lt_breakpoint i)
  rw [hall, length_range]
  omega

theorem declaration_early : Early crowded 1 3 (declaration 0) := by
  rw [Early, findingsOf_crowded, countP_append, countP_map]
  have hfirst : ¬ (range 1000).countP ((fun g => decide (fingerprintOf g <
      fingerprintOf (declaration 0))) ∘ declaration) = (range 1000).length := by
    rw [countP_eq_length]
    intro hall
    have hself : fingerprintOf (declaration 0) < fingerprintOf (declaration 0) :=
      of_decide_eq_true (hall 0 (mem_range.mpr (by decide)))
    exact lt_irrefl _ hself
  have hle := countP_le_length (l := range 1000) (p := (fun g => decide (fingerprintOf g <
      fingerprintOf (declaration 0))) ∘ declaration)
  have hlast : [breakpoint].countP (fun g => decide (fingerprintOf g <
      fingerprintOf (declaration 0))) = 0 := by
    rw [countP_eq_zero]
    intro g hg
    rw [mem_singleton.mp hg, decide_eq_true_eq]
    exact not_lt.mpr (declaration_lt_breakpoint 0).le
  rw [length_range] at hfirst hle
  omega

theorem keeps_most_severe_crowded : KeepsMostSevere crowded 1 3 ↔ NoneCutOff crowded 1 3 :=
  (keeps_most_severe_iff crowded 1 3 crowded_keys).1

/-- Of a thousand findings that are no more than notes and one warning, the warning is left out. -/
theorem warning_cut_off : findingKeysUnique crowded.findings = true ∧
    crowded.findings.length = 1001 ∧ (∃ snapshot, reviewSnapshotFindings crowded 7 1 3 =
      .ok (snapshot, (selected crowded 1 3).map snapshotFinding)) ∧
    ¬ KeepsMostSevere crowded 1 3 := by
  refine ⟨crowded_keys, by simp [crowded, sampleDb], ⟨_, rfl⟩, fun hkeeps => ?_⟩
  have hmem (f : Finding) (hf : f ∈ (range 1000).map declaration ++ [breakpoint]) :
      f ∈ findingsOf crowded 1 3 := findingsOf_crowded ▸ hf
  rcases (keeps_iff crowded_keys).mp hkeeps breakpoint
    (hmem _ (by simp)) (by decide) breakpoint_late with hten | hall
  · have hzero : (findingsOf crowded 1 3).countP (fun g => decide
        (Early crowded 1 3 g ∧ Told g ∧ rankOf g ≤ rankOf breakpoint)) = 0 := by
      rw [countP_eq_zero, findingsOf_crowded]
      intro g hg
      rw [decide_eq_true_eq]
      rintro ⟨hearly, -, hrank⟩
      rcases mem_append.mp hg with hg | hg
      · obtain ⟨i, _, rfl⟩ := mem_map.mp hg
        exact absurd hrank (by decide : ¬ (3 : ℕ) ≤ 2)
      · rw [mem_singleton.mp hg] at hearly
        exact breakpoint_late hearly
    omega
  · have hrank := hall (declaration 0)
      (hmem _ (mem_append_left _ (mem_map_of_mem (mem_range.mpr (by decide)))))
      declaration_early (by decide)
    exact absurd hrank (by decide : ¬ (3 : ℕ) ≤ 2)

end Prism.Analysis
