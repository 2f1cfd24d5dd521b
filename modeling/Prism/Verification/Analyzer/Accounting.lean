import Mathlib.Data.List.Perm.Subperm
import Prism.Verification.Analyzer.Nesting

/-! The accounting of one file: which rules are said to be evaluated, and which of
their reports are kept. -/

namespace Prism.Analyzer

open Pipeline

/-! ## The collector -/

/-- What the collector is told: every distinct report in order, the first hundred of
them kept, and whether there were more. -/
structure Collected (told : List Observed) (out : Collector) : Prop where
  mem_seen : ∀ o, o ∈ out.seen ↔ o ∈ told
  nodup : out.seen.Nodup
  findings : out.findings = out.seen.take 100
  limit : out.limit = true ↔ 100 < out.seen.length

theorem Collected.empty : Collected [] Collector.empty :=
  ⟨by simp [Collector.empty], by simp [Collector.empty], rfl, by simp [Collector.empty]⟩

theorem Collected.add {told : List Observed} {out out' : Collector} {o : Observed}
    (h : Collected told out) (hadd : out.add o = some out') : Collected (told ++ [o]) out' := by
  obtain ⟨hmem, hnodup, hfindings, hlimit⟩ := h
  have hlength := congrArg List.length hfindings
  rw [List.length_take] at hlength
  unfold Collector.add at hadd
  split at hadd
  · rename_i hseen
    obtain rfl := Option.some.inj hadd
    refine ⟨fun p => ?_, hnodup, hfindings, hlimit⟩
    rw [List.mem_append, List.mem_singleton, hmem]
    constructor
    · exact .inl
    · rintro (hp | rfl)
      · exact hp
      · exact (hmem p).mp hseen
  · rename_i hnew
    have hmem' : ∀ p, p ∈ out.seen ++ [o] ↔ p ∈ told ++ [o] := by simp [hmem]
    have hnodup' : (out.seen ++ [o]).Nodup := by
      rw [← List.concat_eq_append]
      exact hnodup.concat hnew
    split at hadd
    · rename_i hfull
      obtain rfl := Option.some.inj hadd
      have hlong : 100 ≤ out.seen.length := by omega
      refine ⟨hmem', hnodup', ?_, ?_⟩
      · rw [List.take_append_of_le_length hlong]
        exact hfindings
      · simp only [List.length_append, List.length_singleton, true_iff]
        omega
    · rename_i hroom
      split at hadd
      · obtain rfl := Option.some.inj hadd
        have hshort : out.seen.length < 100 := by omega
        refine ⟨hmem', hnodup', ?_, ?_⟩
        · rw [List.take_of_length_le hshort.le] at hfindings
          rw [List.take_of_length_le (by simp; omega), hfindings]
        · rw [hlimit]
          simp only [List.length_append, List.length_singleton]
          omega
      · contradiction

/-- The collector takes every report that has lines. -/
theorem exists_collected {list told : List Observed} {out : Collector} (h : Collected told out)
    (hlines : ∀ o ∈ list, 1 ≤ o.startLine ∧ 1 ≤ o.endLine) :
    ∃ out', list.foldlM Collector.add out = some out' ∧ Collected (told ++ list) out' := by
  induction list generalizing told out with
  | nil => exact ⟨out, rfl, by simpa using h⟩
  | cons o list ih =>
      have hsome : ∃ mid, out.add o = some mid := by
        unfold Collector.add
        rw [if_pos (hlines o (List.mem_cons_self ..))]
        split
        · exact ⟨_, rfl⟩
        · split <;> exact ⟨_, rfl⟩
      obtain ⟨mid, hmid⟩ := hsome
      obtain ⟨out', hfold, hcollected⟩ :=
        ih (h.add hmid) fun p hp => hlines p (List.mem_cons_of_mem _ hp)
      refine ⟨out', ?_, by simpa using hcollected⟩
      simp [hmid, hfold]

/-- The limit is reached exactly when a report is not kept. -/
theorem Collected.limit_iff {told : List Observed} {out : Collector} (h : Collected told out) :
    out.limit = true ↔ ∃ o ∈ told, o ∉ out.findings := by
  rw [h.limit, h.findings]
  constructor
  · intro hlong
    have hdropped : out.seen[100] ∈ out.seen.drop 100 :=
      List.mem_drop_iff_getElem.mpr ⟨0, by omega, rfl⟩
    refine ⟨out.seen[100], (h.mem_seen _).mp (List.getElem_mem hlong), fun hkept => ?_⟩
    exact (List.disjoint_take_drop h.nodup le_rfl) hkept hdropped
  · rintro ⟨o, ho, hlost⟩
    by_contra hshort
    refine hlost ?_
    rw [List.take_of_length_le (by omega)]
    exact (h.mem_seen o).mpr ho

/-- No report is dropped before a hundred are kept. -/
theorem Collected.full {told : List Observed} {out : Collector} (h : Collected told out)
    (hlimit : out.limit = true) : out.findings.length = 100 := by
  rw [h.findings, List.length_take]
  exact min_eq_left (h.limit.mp hlimit).le

/-! ## What is reported -/

theorem finditer_lines {matchAt : Option Char → List Char → Option ℕ} {before : Option Char}
    {line skip : ℕ} {s : List Char} {r : ℕ × ℕ} (h : r ∈ finditer matchAt before line skip s) :
    line ≤ r.1 ∧ r.1 ≤ r.2 := by
  induction s generalizing before line skip with
  | nil => simp [finditer] at h
  | cons c s ih =>
      have hline : ∀ {next}, next = (if c = '\n' then line + 1 else line) → line ≤ next := by
        rintro _ rfl
        split <;> omega
      simp only [finditer] at h
      split at h
      · rcases List.mem_cons.mp h with rfl | h
        · exact ⟨le_rfl, Nat.le_add_right ..⟩
        · exact ⟨(hline rfl).trans (ih h).1, (ih h).2⟩
      · exact ⟨(hline rfl).trans (ih h).1, (ih h).2⟩
      · exact ⟨(hline rfl).trans (ih h).1, (ih h).2⟩

/-- Both rules for secrets report lines of the file. -/
theorem secrets_spec {isWord : Char → Bool} {content : List Char} {o : Observed}
    (h : o ∈ secrets isWord content) :
    o.ruleId ∈ ["COM-009", "COM-010"] ∧ 1 ≤ o.startLine ∧ 1 ≤ o.endLine := by
  rcases List.mem_append.mp h with h | h
  · obtain ⟨r, hr, rfl⟩ := List.mem_map.mp h
    obtain ⟨hfirst, hlast⟩ := finditer_lines hr
    exact ⟨by simp, hfirst, hfirst.trans hlast⟩
  · obtain ⟨line, hline, rfl⟩ := List.mem_map.mp h
    obtain ⟨r, hr, rfl⟩ := List.mem_map.mp (List.mem_filter.mp hline).1
    obtain ⟨hfirst, -⟩ := finditer_lines hr
    exact ⟨by simp, hfirst, hfirst⟩

theorem lengthRule_spec {content : List Char} {o : Observed} (h : o ∈ lengthRule content) :
    o.ruleId = "COM-001" ∧ 1 ≤ o.startLine ∧ 1 ≤ o.endLine := by
  simp only [lengthRule] at h
  split at h
  · obtain rfl := List.mem_singleton.mp h
    simp only [le_refl, true_and]
    omega
  · contradiction

section Loop

variable {isWord : Char → Bool} {language : Language} {c : Cursor} {r : String}

theorem inner_of_mem {types : List String} (h : c.type ∈ types)
    (hinner : ∀ t ∈ types, t ∉ ["module", "program"]) : Inner c :=
  hinner _ h

theorem inner_of_eq {type : String} (h : c.type = type) (hinner : type ∉ ["module", "program"]) :
    Inner c := by
  unfold Inner
  rw [h]
  exact hinner

theorem inner_of_looseEquality (h : looseEquality c = true) : Inner c := by
  simp only [looseEquality, Bool.and_eq_true, decide_eq_true_eq] at h
  exact inner_of_eq h.1 (by decide)

theorem declarationRules_spec (h : r ∈ declarationRules language c) :
    r ∈ ["COM-002", "COM-004"] ∧ Inner c := by
  simp only [declarationRules] at h
  split at h
  · contradiction
  · rename_i htype
    refine ⟨?_, inner_of_mem (not_not.mp htype) (by decide)⟩
    simp only [List.mem_append, List.mem_ite_nil_right, List.mem_singleton] at h
    rcases h with ⟨-, rfl⟩ | ⟨-, rfl⟩ <;> simp

theorem javaRules_spec (h : r ∈ javaRules c) :
    r ∈ ["JAVA-004", "JAVA-005", "JAVA-006", "JAVA-007", "JAVA-008"] ∧ Inner c := by
  simp only [javaRules, List.mem_append, List.mem_ite_nil_right, List.mem_singleton] at h
  rcases h with (((⟨⟨ht, -⟩, rfl⟩ | ⟨⟨ht, -⟩, rfl⟩) | ⟨⟨ht, -⟩, rfl⟩) | ⟨⟨ht, -⟩, rfl⟩) | ⟨⟨ht, -⟩, rfl⟩
  · exact ⟨by simp, inner_of_eq ht (by decide)⟩
  · exact ⟨by simp, inner_of_eq ht (by decide)⟩
  · exact ⟨by simp, inner_of_mem ht (by decide)⟩
  · exact ⟨by simp, inner_of_eq ht (by decide)⟩
  · exact ⟨by simp, inner_of_looseEquality ht⟩

theorem exceptRules_subset (h : r ∈ exceptRules c) : r ∈ ["PY-002", "PY-003"] := by
  unfold exceptRules at h
  split at h
  · simp_all
  · split at h <;> simp_all

theorem pythonRules_spec (h : r ∈ pythonRules c) :
    r ∈ ["PY-001", "PY-002", "PY-003", "PY-006"] ∧ Inner c := by
  simp only [pythonRules, List.mem_append, List.mem_ite_nil_right, List.mem_singleton] at h
  rcases h with (⟨⟨ht, -⟩, rfl⟩ | ⟨ht, h⟩) | ⟨⟨ht, -⟩, rfl⟩
  · exact ⟨by simp, inner_of_mem ht (by decide)⟩
  · have hsubset : ∀ x ∈ ["PY-002", "PY-003"], x ∈ ["PY-001", "PY-002", "PY-003", "PY-006"] := by
      decide
    exact ⟨hsubset r (exceptRules_subset h), inner_of_eq ht (by decide)⟩
  · exact ⟨by simp, inner_of_eq ht (by decide)⟩

theorem javascriptRules_spec (h : r ∈ javascriptRules c) :
    r ∈ ["JS-001", "JS-002", "JS-003", "JS-004"] ∧ Inner c := by
  simp only [javascriptRules, List.mem_append, List.mem_ite_nil_right, List.mem_singleton] at h
  rcases h with ((⟨ht, rfl⟩ | ⟨ht, rfl⟩) | ⟨⟨ht, -⟩, rfl⟩) | ⟨⟨ht, -⟩, rfl⟩
  · exact ⟨by simp, inner_of_eq ht (by decide)⟩
  · exact ⟨by simp, inner_of_eq ht (by decide)⟩
  · exact ⟨by simp, inner_of_eq ht (by decide)⟩
  · exact ⟨by simp, inner_of_looseEquality ht⟩

theorem typescriptRules_spec (h : r ∈ typescriptRules isWord c) :
    r ∈ ["TS-001", "TS-002", "TS-003", "TS-004", "TS-005"] ∧ Inner c := by
  simp only [typescriptRules, List.mem_append, List.mem_ite_nil_right, List.mem_singleton] at h
  rcases h with ((⟨⟨ht, -⟩, rfl⟩ | ⟨ht, h⟩) | ⟨ht, rfl⟩) | ⟨ht, rfl⟩
  · exact ⟨by simp, inner_of_eq ht (by decide)⟩
  · obtain ⟨d, hd, rfl⟩ := List.mem_map.mp h
    have hrules : ∀ d ∈ [("ignore", "TS-002"), ("nocheck", "TS-003")],
        d.2 ∈ ["TS-001", "TS-002", "TS-003", "TS-004", "TS-005"] := by decide
    exact ⟨hrules d (List.mem_filter.mp hd).1, inner_of_eq ht (by decide)⟩
  · exact ⟨by simp, inner_of_eq ht (by decide)⟩
  · simp only [doubleAssertion, Bool.and_eq_true, decide_eq_true_eq] at ht
    exact ⟨by simp, inner_of_eq ht.1 (by decide)⟩

/-- The second loop reports rules of the language that no check withdraws, and never
at the root of a file. -/
theorem rulesAt_spec (h : r ∈ rulesAt isWord language c) :
    r ∈ structuralRules language ∧ r ∉ settledRules language ∧ Inner c := by
  have hlisted : ∀ {list : List String}, (∀ x ∈ list, x ∈ structuralRules language ∧
      x ∉ settledRules language) → r ∈ list ∧ Inner c →
      r ∈ structuralRules language ∧ r ∉ settledRules language ∧ Inner c :=
    fun hlist hr => ⟨(hlist r hr.1).1, (hlist r hr.1).2, hr.2⟩
  rcases List.mem_append.mp h with h | h
  · exact hlisted (by cases language <;> decide +kernel) (declarationRules_spec h)
  · cases language with
    | java => exact hlisted (by decide +kernel) (javaRules_spec h)
    | python => exact hlisted (by decide +kernel) (pythonRules_spec h)
    | javascript => exact hlisted (by decide +kernel) (javascriptRules_spec h)
    | typescript =>
        rcases List.mem_append.mp h with h | h
        · exact hlisted (by decide +kernel) (javascriptRules_spec h)
        · exact hlisted (by decide +kernel) (typescriptRules_spec h)

end Loop

/-! ## Totality -/

/-- The checks of distinct evaluated rules never raise. -/
theorem foldlM_checkTarget_isSome {language : Language} {nodes : List Cursor}
    {list : List (String × String)} {out : Additional} (hnodup : (list.map Prod.snd).Nodup)
    (hrules : ∀ t ∈ list, t.2 ∈ out.evaluated) :
    (list.foldlM (checkTarget language nodes) out).isSome = true := by
  induction list generalizing out with
  | nil => rfl
  | cons target list ih =>
      obtain ⟨hfresh, hnodup⟩ := List.nodup_cons.mp hnodup
      have hsome : (checkTarget language nodes out target).isSome = true :=
        checkTarget_isSome (hrules target (List.mem_cons_self ..))
      obtain ⟨mid, hmid⟩ := Option.isSome_iff_exists.mp hsome
      have hsettled : Settled nodes [target.2] out mid :=
        .cons (checkTarget_settles hmid) (.nil mid)
      rw [List.foldlM_cons, hmid]
      refine ih hnodup fun t ht => hsettled.kept ?_ (hrules t (List.mem_cons_of_mem _ ht))
      rw [List.mem_singleton]
      exact fun heq => hfresh (heq ▸ List.mem_map_of_mem ht)

theorem mapM_isSome {f : Cursor → Option Bool} {l : List Cursor}
    (h : ∀ c ∈ l, (f c).isSome = true) :
    (l.mapM fun c => (f c).map fun b => (c, b)).isSome = true := by
  induction l with
  | nil => rfl
  | cons c l ih =>
      obtain ⟨b, hb⟩ := Option.isSome_iff_exists.mp (h c (List.mem_cons_self ..))
      obtain ⟨rest, hrest⟩ := Option.isSome_iff_exists.mp
        (ih fun d hd => h d (List.mem_cons_of_mem _ hd))
      simp [hb, hrest]

/-- `evaluate_additional` ends on every error-free tree, when the rules it settles are
evaluated before. -/
theorem exists_evaluateAdditional {language : Language} {tree : SyntaxTree}
    (htree : tree.hasError = false) {evaluated notEvaluated : List String}
    (hrules : ∀ r ∈ settledRules language, r ∈ evaluated) :
    ∃ out, evaluateAdditional language tree.root evaluated notEvaluated = some out := by
  have hnodup : ((targets language).map Prod.snd).Nodup := by cases language <;> decide
  have htargets : ∀ t ∈ targets language, t.2 ∈ evaluated := fun t ht =>
    hrules t.2 (List.mem_append_left _ (List.mem_map_of_mem ht))
  have hsome : ((targets language).foldlM
      (checkTarget language ((visited tree.root).map Prod.fst))
      ⟨evaluated, notEvaluated, nesting tree.root⟩).isSome = true :=
    foldlM_checkTarget_isSome hnodup htargets
  obtain ⟨mid, hmid⟩ := Option.isSome_iff_exists.mp hsome
  simp only [evaluateAdditional, Option.bind_eq_bind, hmid, Option.bind_some]
  split
  · rename_i hpython
    have hfresh : "PY-008" ∉ (targets language).map Prod.snd := by
      subst hpython
      decide
    have hexcept : "PY-008" ∈ evaluated := hrules _ (by simp [settledRules, hpython])
    unfold checkExcept
    split
    · have hall : ∀ c ∈ (visited tree.root).map Prod.fst, (catchesAll c).isSome = true := by
        intro c hc
        rw [visited_fst] at hc
        exact catchesAll_isSome fun value hvalue =>
          tree.aliases htree c hc value (List.mem_of_find?_eq_some hvalue)
      obtain ⟨broad, hbroad⟩ := Option.isSome_iff_exists.mp (mapM_isSome hall)
      simp [hbroad]
    · have hkept := (foldlM_checkTarget_settled hmid).kept hfresh hexcept
      exact ⟨_, withdraw_eq_some.mpr ⟨hkept, rfl⟩⟩
  · exact ⟨mid, rfl⟩

/-! ## The accounting -/

/-- The rules `evaluate` starts with. -/
theorem rules_perm (language : Language) :
    (["COM-009", "COM-010"] ++ structuralRules language).Perm (applicable (some language)) := by
  cases language <;> decide +kernel

theorem applicable_nodup (language : Language) : (applicable (some language)).Nodup := by
  cases language <;> decide +kernel

/-- Every report is of an evaluated rule and has lines. -/
theorem reports_spec {isWord : Char → Bool} {language : Language} {content : List Char}
    {tree : SyntaxTree} (htree : tree.hasError = false) {out : Additional}
    (h : evaluateAdditional language tree.root
      (["COM-009", "COM-010"] ++ structuralRules language) [] = some out) {o : Observed}
    (ho : o ∈ reports isWord language content tree.root out) :
    o.ruleId ∈ out.evaluated ∧ 1 ≤ o.startLine ∧ 1 ≤ o.endLine := by
  have hsettled := evaluateAdditional_settled h
  rw [visited_fst] at hsettled
  have hkept : ∀ {r}, r ∉ settledRules language →
      r ∈ ["COM-009", "COM-010"] ++ structuralRules language → r ∈ out.evaluated :=
    fun hr hmem => hsettled.kept hr hmem
  have hnode : ∀ {e : String × Cursor}, e.2 ∈ (Cursor.root tree.root).nodes → Inner e.2 →
      1 ≤ (nodeAdd e).startLine ∧ 1 ≤ (nodeAdd e).endLine := by
    intro e he hinner
    refine ⟨Nat.le_add_left .., Nat.one_le_iff_ne_zero.mpr fun hend => hinner ?_⟩
    exact tree.ends htree e.2 he hend
  rcases List.mem_append.mp ho with ho | ho
  · rcases List.mem_append.mp ho with ho | ho
    · obtain ⟨hrule, hlines⟩ := secrets_spec ho
      refine ⟨hkept ?_ (List.mem_append_left _ hrule), hlines⟩
      have hscanned : ∀ r ∈ ["COM-009", "COM-010"], r ∉ settledRules language := by
        cases language <;> decide
      exact hscanned _ hrule
    · obtain ⟨hrule, hlines⟩ := lengthRule_spec ho
      refine ⟨?_, hlines⟩
      rw [hrule]
      exact hkept (by cases language <;> decide) (by cases language <;> decide +kernel)
  · obtain ⟨e, he, rfl⟩ := List.mem_map.mp ho
    rcases List.mem_append.mp he with he | he
    · have hnodup : (settledRules language).Nodup := by cases language <;> decide
      have hrules : ∀ r ∈ settledRules language,
          r ∈ ["COM-009", "COM-010"] ++ structuralRules language := by
        cases language <;> decide +kernel
      rcases hsettled.emitted hnodup hrules he with hold | ⟨hmem, hplace, hinner⟩
      · obtain ⟨entry, hentry, rfl⟩ := List.mem_map.mp hold
        obtain ⟨hplace, hcontrol, -, -⟩ :=
          mem_nesting.mp (List.mem_map_of_mem (f := Prod.snd) hold)
        have hfree : "COM-003" ∉ settledRules language := by cases language <;> decide
        have hrule : "COM-003" ∈ ["COM-009", "COM-010"] ++ structuralRules language := by
          cases language <;> decide +kernel
        refine ⟨hkept hfree hrule, ?_⟩
        exact hnode (Cursor.mem_nodes.mpr hplace) (inner_of_mem hcontrol (by decide))
      · exact ⟨hmem, hnode hplace hinner⟩
    · obtain ⟨c, hc, he⟩ := List.mem_flatMap.mp he
      obtain ⟨r, hr, rfl⟩ := List.mem_map.mp he
      obtain ⟨hrule, hfree, hinner⟩ := rulesAt_spec hr
      exact ⟨hkept hfree (List.mem_append_right _ hrule), hnode hc hinner⟩

/-- The files whose tree is looked at. -/
structure Analyzed (path : List Char) (source : List UInt8) (language : Language)
    (content : List Char) : Prop where
  language : languageFor path = some language
  size : source.length ≤ maxFile
  decoded : decode source = some content
  readable : isBinary content = false
  implemented : isDeclaration path = false
  written : isGenerated path content = false

theorem evaluate_analyzed {isWord : Char → Bool} {parserFor : ParserFor} {path content : List Char}
    {source : List UInt8} {language : Language} (h : Analyzed path source language content) :
    evaluate isWord parserFor path source false = evaluateTree isWord language content
      (parserFor language (endsWith path [".tsx"]) source) := by
  have hsize := Nat.not_lt.mpr h.size
  simp [evaluate, hsize, h.language, h.decoded, h.readable, h.implemented, h.written]

/-- What the evaluation of an error-free tree accounts for. -/
structure Accounts (isWord : Char → Bool) (language : Language) (content : List Char)
    (tree : SyntaxTree) (out : Evaluation) (more : Additional) : Prop where
  additional : evaluateAdditional language tree.root
    (["COM-009", "COM-010"] ++ structuralRules language) [] = some more
  stated : out.language = some language
  status : out.status = .included
  rules : (out.evaluated ++ out.notEvaluated).Perm (applicable (some language))
  evaluated : ∀ f ∈ out.findings, f.ruleId ∈ out.evaluated
  distinct : out.findings.Nodup
  few : out.findings.length ≤ 100
  reported : ∀ f ∈ out.findings, f ∈ reports isWord language content tree.root more
  limit : out.limit = true ↔
    ∃ o ∈ reports isWord language content tree.root more, o ∉ out.findings
  full : out.limit = true → out.findings.length = 100

theorem exists_accounts (isWord : Char → Bool) (language : Language) (content : List Char)
    {tree : SyntaxTree} (htree : tree.hasError = false) : ∃ out more,
      evaluateTree isWord language content tree = some out ∧
        Accounts isWord language content tree out more := by
  have hrules : ∀ r ∈ settledRules language,
      r ∈ ["COM-009", "COM-010"] ++ structuralRules language := by
    cases language <;> decide +kernel
  obtain ⟨more, hmore⟩ : ∃ more, evaluateAdditional language tree.root
      (["COM-009", "COM-010"] ++ structuralRules language) [] = some more :=
    exists_evaluateAdditional htree hrules
  have hspec : ∀ o ∈ reports isWord language content tree.root more,
      1 ≤ o.startLine ∧ 1 ≤ o.endLine := fun o ho => (reports_spec htree hmore ho).2
  obtain ⟨out, hfold, hcollected⟩ := exists_collected .empty hspec
  rw [List.nil_append] at hcollected
  have hreport : ∀ f ∈ out.findings, f ∈ reports isWord language content tree.root more := by
    intro f hf
    rw [hcollected.findings] at hf
    exact (hcollected.mem_seen f).mp (List.mem_of_mem_take hf)
  refine ⟨⟨some language, .included,
    if more.notEvaluated.isEmpty then none else some .bindingUnresolved, out.findings,
    more.evaluated, more.notEvaluated, out.limit⟩, more, ?_, hmore, rfl, rfl, ?_,
    fun f hf => (reports_spec htree hmore (hreport f hf)).1, ?_, ?_, hreport,
    hcollected.limit_iff, hcollected.full⟩
  · simp only [evaluateTree, htree, Bool.false_eq_true, if_false, hmore, Option.bind_eq_bind,
      Option.bind_some, hfold]
    rfl
  · have hsettled := (evaluateAdditional_settled hmore).perm
    rw [List.append_nil] at hsettled
    exact hsettled.trans (rules_perm language)
  · dsimp only
    rw [hcollected.findings]
    exact hcollected.nodup.sublist (List.take_sublist ..)
  · dsimp only
    rw [hcollected.findings]
    exact List.length_take_le ..

/-- An error-free tree is evaluated, and in its result every rule of the language is
either evaluated or not, each once; the findings are distinct reports of evaluated
rules, at most a hundred; and the limit is set exactly when a further report is not
among them, which are a hundred then. -/
theorem rules_accounted (isWord : Char → Bool) (parserFor : ParserFor) {path content : List Char}
    {source : List UInt8} {language : Language} (h : Analyzed path source language content)
    (htree : (parserFor language (endsWith path [".tsx"]) source).hasError = false) :
    ∃ out more, evaluate isWord parserFor path source false = some out ∧
      evaluateAdditional language (parserFor language (endsWith path [".tsx"]) source).root
        (["COM-009", "COM-010"] ++ structuralRules language) [] = some more ∧
      (out.evaluated ++ out.notEvaluated).Nodup ∧
      (∀ r, r ∈ out.evaluated ++ out.notEvaluated ↔ r ∈ applicable (some language)) ∧
      (∀ f ∈ out.findings, f.ruleId ∈ out.evaluated) ∧
      out.findings.Nodup ∧ out.findings.length ≤ 100 ∧
      (∀ f ∈ out.findings, f ∈ reports isWord language content
        (parserFor language (endsWith path [".tsx"]) source).root more) ∧
      (out.limit = true ↔ ∃ o ∈ reports isWord language content
        (parserFor language (endsWith path [".tsx"]) source).root more, o ∉ out.findings) ∧
      (out.limit = true → out.findings.length = 100) := by
  obtain ⟨out, more, hout, haccounts⟩ := exists_accounts isWord language content htree
  refine ⟨out, more, (evaluate_analyzed h).trans hout, haccounts.additional,
    haccounts.rules.nodup_iff.mpr (applicable_nodup language), fun r => haccounts.rules.mem_iff,
    haccounts.evaluated, haccounts.distinct, haccounts.few, haccounts.reported, haccounts.limit,
    haccounts.full⟩

/-! ## A file -/

def evalContent : List Char := "eval(x)\n".toList

/-- The tree of a module that calls `eval`. -/
def evalTree : SyntaxTree where
  root := .named ⟨"module", [], 0, 1, 0, evalContent⟩
    [.named ⟨"expression_statement", [], 0, 0, 7, "eval(x)".toList⟩
      [.named ⟨"call", [], 0, 0, 7, "eval(x)".toList⟩
        [.named ⟨"identifier", ["function"], 0, 0, 4, "eval".toList⟩ [],
          .named ⟨"argument_list", ["arguments"], 0, 0, 7, "(x)".toList⟩
            [.token ⟨"(", [], 0, 0, 5, "(".toList⟩,
              .named ⟨"identifier", [], 0, 0, 6, "x".toList⟩ [],
              .token ⟨")", [], 0, 0, 7, ")".toList⟩]]]]
  hasError := false
  aliases := by decide +kernel
  ends := by decide +kernel

theorem evalContent_analyzed :
    Analyzed "a.py".toList evalContent.utf8Encode.data.toList .python evalContent where
  language := by decide +kernel
  size := by decide +kernel
  decoded := by
    have hbytes : decode evalContent.utf8Encode.data.toList =
        evalContent.utf8Encode.utf8Decode?.map Array.toList := by
      rw [decode, Array.toArray_toList]
    rw [hbytes, List.utf8Decode?_utf8Encode, Option.map_some]
  readable := by decide +kernel
  implemented := by decide +kernel
  written := by decide +kernel

theorem rules_accounted_eval :
    ∃ out, evaluate Char.isAlphanum (fun _ _ _ => evalTree) "a.py".toList
        evalContent.utf8Encode.data.toList false = some out ∧
      (out.evaluated ++ out.notEvaluated).Nodup ∧
      ∀ f ∈ out.findings, f.ruleId ∈ out.evaluated := by
  obtain ⟨out, -, hout, -, hnodup, -, hrules, -⟩ :=
    rules_accounted Char.isAlphanum (fun _ _ _ => evalTree) evalContent_analyzed rfl
  exact ⟨out, hout, hnodup, hrules⟩

end Prism.Analyzer
