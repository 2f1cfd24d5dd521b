import Prism.Model.ParserProcess
import Prism.Verification.Analyzer.Accounting
import Prism.Verification.Pipeline.Analysis

/-! A run of `analyze` with full coverage has evaluated every listed file that is in its
scope. -/

namespace Prism.Pipeline

open Analyzer (ParserFor ProcessEnd Accounts decode endsWith evaluate evaluateAdditional
  evaluateTree isBinary isDeclaration isGenerated parseFile reports scanOnly structuralRules
  unevaluated)

/-! ## The evaluation of a file -/

section Evaluation

variable {isWord : Char → Bool} {parserFor : ParserFor}
  {process : List Char → List Char → Bool → ProcessEnd} {path : List Char} {source : List UInt8}
  {ignored : Bool} {result : Evaluation} {language : Language}

theorem limited_scanOnly {content : List Char} {reason : FileReason}
    (hreason : reason ∈ [.secretScanOnly, .ignoredSourceRules, .generatedSecretScanOnly])
    (h : scanOnly isWord (some language) content reason = some result) : limited result = true := by
  obtain ⟨out, -, hresult⟩ := Option.bind_eq_some_iff.mp h
  cases hresult
  simp only [List.mem_cons, List.not_mem_nil, or_false] at hreason
  rcases hreason with rfl | rfl | rfl <;> simp [limited]

/-- What does not keep a run from being complete is no text, or evaluated in full. -/
theorem evaluate_unlimited (h : evaluate isWord parserFor path source ignored = some result)
    (hlimited : limited result = false) (hlanguage : languageFor path = some language) :
    (∀ content, decode source = some content → isBinary content = true) ∨
      ∃ content, decode source = some content ∧
        evaluateTree isWord language content
          (parserFor language (endsWith path [".tsx"]) source) = some result := by
  unfold evaluate at h
  simp only [hlanguage] at h
  split at h
  · cases h
    cases hlimited
  split at h
  · next hdecode =>
    refine .inl fun content hcontent => ?_
    rw [hdecode] at hcontent
    cases hcontent
  next content hdecode =>
  split at h
  · next hbinary =>
    refine .inl fun content' hcontent => ?_
    rw [hdecode] at hcontent
    exact Option.some.inj hcontent ▸ hbinary
  refine .inr ⟨content, hdecode, ?_⟩
  split at h
  · rw [limited_scanOnly (by split <;> simp) h] at hlimited
    cases hlimited
  split at h
  · rw [limited_scanOnly (by simp) h] at hlimited
    cases hlimited
  exact h

theorem parseFile_unlimited (h : parseFile isWord parserFor process path source ignored = some result)
    (hlimited : limited result = false) (hlanguage : languageFor path = some language) :
    (∀ content, decode source = some content → isBinary content = true) ∨
      ∃ content, decode source = some content ∧
        evaluateTree isWord language content
          (parserFor language (endsWith path [".tsx"]) source) = some result := by
  unfold parseFile at h
  simp only at h
  split at h
  · cases h
    cases hlimited
  split at h
  · next hdecode =>
    refine .inl fun content hcontent => ?_
    rw [hdecode] at hcontent
    cases hcontent
  split at h
  · cases h
    cases hlimited
  · cases h
    cases hlimited
  split at h
  · cases h
    cases hlimited
  next heval =>
  split at h
  · cases h
    exact evaluate_unlimited heval hlimited hlanguage
  · cases h

end Evaluation

/-! ## The scope of an analysis -/

section Scope

variable (isWord : Char → Bool) (parserFor : ParserFor) (w : World) (snap : Snapshot) (log : Log)

/-- The bytes that were read for a path. -/
def ReadFor (path : List Char) (source : List UInt8) : Prop :=
  ∃ sha, Named snap log path sha ∧ Fetched w log sha source

/-- A file that an analysis excludes: it is no regular file, or no text. -/
def OutOfScope (path : List Char) : Prop :=
  (∃ item, WalkedTo snap log path item ∧ regular item = .ok false) ∨
    ∃ source, ReadFor w snap log path source ∧
      ∀ content, decode source = some content → isBinary content = true

/-- A listed file that the pull request removes. -/
def Removed (item : Json) : Prop :=
  ∃ status, get item "status" .null = .ok status ∧ text? status = some "removed".toList

/-- A finding tells what was observed in a file. -/
def Tells (path : List Char) (o : Observed) (g : FindingEntry) : Prop :=
  g.filePath = String.ofList path ∧ g.ruleId = o.ruleId ∧ g.startLine = some o.startLine ∧
    g.endLine = some o.endLine

/-- Every rule of the language was evaluated on the bytes of a file, and every report is a
finding. -/
structure Covered (findings : List FindingEntry) (path : List Char) (language : Language)
    (f : FileEntry) : Prop where
  status : f.status = .included
  rules : f.ruleOutcomes.map RuleOutcome.ruleId = applicable (some language)
  evaluated : ∀ o ∈ f.ruleOutcomes, o.evaluated = true
  unlimited : f.findingLimitReached = false
  told : ∃ source content more, ReadFor w snap log path source ∧ decode source = some content ∧
    evaluateAdditional language (parserFor language (endsWith path [".tsx"]) source).root
      (["COM-009", "COM-010"] ++ structuralRules language) [] = some more ∧
    ∀ o ∈ reports isWord language content
      (parserFor language (endsWith path [".tsx"]) source).root more,
      ∃ g ∈ findings, Tells path o g

/-- A listed file is removed, out of scope, or covered. -/
def Accounted (findings : List FindingEntry) (item : Json) (f : FileEntry) : Prop :=
  ∃ path, get item "filename" .null = .ok (.str path) ∧ f.filePath = String.ofList path ∧
    (Removed item ∨ OutOfScope w snap log path ∨ ∀ language, languageFor path = some language →
      Covered isWord parserFor w snap log findings path language f)

end Scope

section Growth

variable {isWord : Char → Bool} {parserFor : ParserFor} {w : World} {snap : Snapshot}
  {log log' : Log}

theorem ReadFor.mono {path : List Char} {source : List UInt8} (h : ReadFor w snap log path source)
    (hlog : log <+: log') : ReadFor w snap log' path source := by
  obtain ⟨sha, hnamed, hfetched⟩ := h
  exact ⟨sha, hnamed.mono hlog, hfetched.mono hlog⟩

theorem Accounted.mono {findings findings' : List FindingEntry} {item : Json} {f : FileEntry}
    (h : Accounted isWord parserFor w snap log findings item f) (hlog : log <+: log')
    (hfindings : findings ⊆ findings') :
    Accounted isWord parserFor w snap log' findings' item f := by
  obtain ⟨path, hname, hpath, h⟩ := h
  refine ⟨path, hname, hpath, ?_⟩
  rcases h with h | (⟨entry, hwalked, hspecial⟩ | ⟨source, hread, hbinary⟩) | h
  · exact .inl h
  · exact .inr (.inl (.inl ⟨entry, hwalked.mono hlog, hspecial⟩))
  · exact .inr (.inl (.inr ⟨source, hread.mono hlog, hbinary⟩))
  · refine .inr (.inr fun language hlanguage => ?_)
    obtain ⟨hstatus, hrules, hevaluated, hunlimited, source, content, more, hread, hdecode, hmore,
      htold⟩ := h language hlanguage
    refine ⟨hstatus, hrules, hevaluated, hunlimited, source, content, more, hread.mono hlog,
      hdecode, hmore, fun o ho => ?_⟩
    obtain ⟨g, hg, htells⟩ := htold o ho
    exact ⟨g, hfindings hg, htells⟩

end Growth

/-! ## One file -/

section File

variable {isWord : Char → Bool} {parserFor : ParserFor}
  {process : List Char → List Char → Bool → ProcessEnd} {w : World} {snap : Snapshot}
  {ignored : List (List Char)} {log : Log} {path : List Char}

theorem rule?_isSome {language : Option Language} {r : String} (h : r ∈ applicable language) :
    (rule? r).isSome = true := by
  obtain ⟨rule, hrule, rfl⟩ := List.mem_map.mp (List.mem_of_mem_filter h)
  exact List.find?_isSome.mpr ⟨rule, hrule, by simp⟩

theorem outcomesOf_rules (result : Evaluation) :
    (outcomesOf result).map RuleOutcome.ruleId = applicable result.language := by
  have hall : ∀ rules : List String, (∀ r ∈ rules, (rule? r).isSome = true) →
      (rules.filterMap fun r => (rule? r).map fun rule =>
        ({ ruleId := r
           ruleVersion := rule.version
           evaluated := r ∈ result.evaluated
           reasonCode := if r ∈ result.evaluated then none else result.reason } :
          RuleOutcome)).map RuleOutcome.ruleId = rules := by
    intro rules
    induction rules with
    | nil => exact fun _ => rfl
    | cons r rules ih =>
        intro h
        obtain ⟨hr, hrules⟩ := List.forall_mem_cons.mp h
        obtain ⟨rule, hrule⟩ := Option.isSome_iff_exists.mp hr
        simp [hrule, ih hrules]
  exact hall _ fun r hr => rule?_isSome hr

theorem outcomesOf_evaluated {result : Evaluation}
    (h : ∀ r ∈ applicable result.language, r ∈ result.evaluated) :
    ∀ o ∈ outcomesOf result, o.evaluated = true := by
  intro o ho
  obtain ⟨r, hr, ho⟩ := List.mem_filterMap.mp ho
  obtain ⟨rule, -, rfl⟩ := Option.map_eq_some_iff.mp ho
  exact decide_eq_true (h r hr)

theorem findingOf_tells {ranges : Option (Finset ℕ)} {language : Option Language} {o : Observed}
    {g : FindingEntry} (h : findingOf w path ranges language o = .ok g) : Tells path o g := by
  unfold findingOf at h
  split at h
  · cases h
  · next rule hrule =>
    cases h
    have hid : rule.id = o.ruleId := by simpa using List.find?_some hrule
    exact ⟨rfl, hid, rfl, rfl⟩

theorem mapM_tells {ranges : Option (Finset ℕ)} {language : Option Language} {os : List Observed}
    {gs : List FindingEntry} (h : os.mapM (findingOf w path ranges language) = .ok gs) :
    ∀ o ∈ os, ∃ g ∈ gs, Tells path o g := by
  induction os generalizing gs with
  | nil => simp
  | cons o os ih =>
      rw [List.mapM_cons] at h
      obtain ⟨g, hg, h⟩ := ok_bind h
      obtain ⟨gs', hgs, h⟩ := ok_bind h
      cases h
      refine List.forall_mem_cons.mpr ⟨⟨g, List.mem_cons_self, findingOf_tells hg⟩, ?_⟩
      intro o' ho'
      obtain ⟨g', hg', htells⟩ := ih hgs o' ho'
      exact ⟨g', List.mem_cons_of_mem _ hg', htells⟩

/-- A file whose tree was evaluated without a limit is covered. -/
theorem covered_of_evaluateTree {language : Language} {sha : List Char} {source : List UInt8}
    {content : List Char} {result : Evaluation} {ranges : Option (Finset ℕ)}
    {findings all : List FindingEntry} (hnamed : Named snap log path sha)
    (hfetched : Fetched w log sha source) (hdecode : decode source = some content)
    (heval : evaluateTree isWord language content
      (parserFor language (endsWith path [".tsx"]) source) = some result)
    (hlimited : limited result = false)
    (hmap : result.findings.mapM (findingOf w path ranges result.language) = .ok findings) :
    Covered isWord parserFor w snap log (all ++ findings) path language
      (fileOf w path false ⟨result, some sha, source.length⟩) := by
  cases htree : (parserFor language (endsWith path [".tsx"]) source).hasError with
  | true =>
      simp only [evaluateTree, htree, if_true] at heval
      obtain ⟨out, -, hresult⟩ := Option.bind_eq_some_iff.mp heval
      cases hresult
      cases hlimited
  | false =>
      obtain ⟨out, more, hout, haccounts⟩ := Analyzer.exists_accounts isWord language content htree
      obtain rfl := Option.some.inj (hout.symm.trans heval)
      simp only [limited, Bool.or_eq_false_iff] at hlimited
      obtain ⟨⟨⟨⟨⟨-, hlimit⟩, hall⟩, -⟩, -⟩, -⟩ := hlimited
      have hnone : out.notEvaluated = [] := by simpa using hall
      have hrules : ∀ r ∈ applicable (some language), r ∈ out.evaluated := by
        intro r hr
        simpa [hnone] using haccounts.rules.mem_iff.mpr hr
      refine ⟨haccounts.status, ?_, ?_, hlimit, ?_⟩
      · exact (outcomesOf_rules out).trans (congrArg applicable haccounts.stated)
      · refine outcomesOf_evaluated fun r hr => hrules r ?_
        rwa [haccounts.stated] at hr
      · refine ⟨source, content, more, ⟨sha, hnamed, hfetched⟩, hdecode, haccounts.additional, ?_⟩
        intro o ho
        have hfound : o ∈ out.findings := by
          by_contra hdropped
          have := haccounts.limit.mpr ⟨o, ho, hdropped⟩
          rw [hlimit] at this
          cases this
        obtain ⟨g, hg, htells⟩ := mapM_tells hmap o hfound
        exact ⟨g, List.mem_append_right _ hg, htells⟩

/-- A turn that does not keep the run from being complete accounts for its file. -/
theorem Turn.accounted {p : Progress} {change : Json} {removed : Bool} {o : Outcome}
    {findings : List FindingEntry} (ht : Turn w snap ignored p change log path removed o findings)
    (hparse : w.parseFile = parseFile isWord parserFor process) (h : limited o.result = false) :
    Accounted isWord parserFor w snap log (p.findings ++ findings) change
      (fileOf w path removed o) := by
  refine ⟨path, ht.filename, rfl, ?_⟩
  obtain ⟨status, hstatus, hremoved⟩ := ht.status
  obtain ⟨ranges, hmap⟩ := ht.findings
  cases ht.handled with
  | removed => exact .inl ⟨status, hstatus, of_decide_eq_true hremoved.symm⟩
  | special walked special => exact .inr (.inl (.inl ⟨_, walked, special⟩))
  | failed failed =>
      rw [failed] at h
      cases h
  | @blob sha source result named fetched small fits parsed =>
      by_cases htext : ∀ content, decode source = some content → isBinary content = true
      · exact .inr (.inl (.inr ⟨source, ⟨sha, named, fetched⟩, htext⟩))
      refine .inr (.inr fun language hlanguage => ?_)
      rw [hparse] at parsed
      obtain ⟨content, hdecode, heval⟩ :=
        (parseFile_unlimited parsed h hlanguage).resolve_left htext
      exact covered_of_evaluateTree named fetched hdecode heval h hmap

end File

/-! ## The run -/

section Run

variable {isWord : Char → Bool} {parserFor : ParserFor}
  {process : List Char → List Char → Bool → ProcessEnd} {w : World} {snap : Snapshot}
  {ignored : List (List Char)} {log : Log}

/-- While nothing keeps the run from being complete, every file is accounted for. -/
structure Tracked (isWord : Char → Bool) (parserFor : ParserFor) (w : World) (snap : Snapshot)
    (count : ℕ) (items : List Json) (p : Progress) (log : Log) : Prop where
  count : p.limited = false → count ≤ maxFiles
  entries : p.limited = false →
    List.Forall₂ (Accounted isWord parserFor w snap log p.findings) items p.files

theorem Tracked.lasting (count : ℕ) (items : List Json) (p : Progress) :
    Lasting (Tracked isWord parserFor w snap count items p) := by
  intro log log' h hlog
  exact ⟨h.count, fun hlimited =>
    (h.entries hlimited).imp fun _ _ h => h.mono hlog (List.Subset.refl _)⟩

theorem Tracked.start (count : ℕ) (log : Log) :
    Tracked isWord parserFor w snap count [] ⟨[], [], 0, maxFiles < count, []⟩ log :=
  ⟨fun h => not_lt.mp (of_decide_eq_false h), fun _ => .nil⟩

theorem Tracked.next (hparse : w.parseFile = parseFile isWord parserFor process) {count : ℕ}
    {items : List Json} {p : Progress} (h : Tracked isWord parserFor w snap count items p log)
    {change : Json} {path : List Char} {removed : Bool} {o : Outcome}
    {findings : List FindingEntry} (ht : Turn w snap ignored p change log path removed o findings) :
    Tracked isWord parserFor w snap count (items ++ [change])
      (p.next w path removed o findings) log := by
  have hboth : (p.next w path removed o findings).limited = false →
      p.limited = false ∧ limited o.result = false := Bool.or_eq_false_iff.mp
  refine ⟨fun hlimited => h.count (hboth hlimited).1, fun hlimited => ?_⟩
  obtain ⟨hbefore, hfile⟩ := hboth hlimited
  refine List.rel_append ?_ (.cons (ht.accounted hparse hfile) .nil)
  exact (h.entries hbefore).imp fun _ _ h =>
    h.mono (List.prefix_refl _) (List.subset_append_left _ _)

/-- With full coverage a pull request has at most a hundred changed files, and each of them is
removed, out of scope, or evaluated for every rule of its language with every report told. -/
theorem full_scope_covers (hparse : w.parseFile = parseFile isWord parserFor process) {r : Result}
    {s : State} (hrun : analyze w snap ignored ⟨[], []⟩ = (.ok r, s))
    (hfull : r.coverage = .fullScope) : ∃ row count items,
      Answered s.log (.pull snap.number) row ∧ countOf snap row = .ok count ∧ count ≤ maxFiles ∧
      Answered s.log (.files snap.number) (.arr items) ∧ items.length = count ∧
      List.Forall₂ (Accounted isWord parserFor w snap s.log r.findings) items r.files := by
  have hreturns : Returns snap (Tracked isWord parserFor w snap) r s.log := by
    have hmeets := (@meets_analyze w snap ignored (Tracked isWord parserFor w snap)
      Tracked.lasting Tracked.start fun h ht => h.next hparse ht).holds ⟨[], []⟩ rfl
    rwa [hrun] at hmeets
  generalize s.log = log at hreturns ⊢
  cases hreturns with
  | @intro count items p log row listed counted length kept reports =>
      have hlimited : p.limited = false := by
        cases hl : p.limited with
        | false => rfl
        | true =>
            simp only [resultOf, hl] at hfull
            split at hfull <;> cases hfull
      have hmore : log <+: log ++ [.answered (.pull snap.number) (.ok row)] :=
        List.prefix_append _ _
      obtain ⟨row', hrow', hcount⟩ := counted
      have hfew := kept.count hlimited
      exact ⟨row', count, items, hrow'.mono hmore, hcount, hfew, listed.2.mono hmore,
        length.trans (min_eq_left hfew), (kept.entries hlimited).imp fun _ _ h =>
          h.mono hmore (List.Subset.refl _)⟩

end Run

/-! ## A link among the changed files -/

/-- The tree of an empty module. -/
def blankTree : Analyzer.SyntaxTree where
  root := .named ⟨"module", [], 0, 0, 3, []⟩ []
  hasError := false
  aliases := by decide +kernel
  ends := by decide +kernel

/-- A world whose pull request changes a Python file and a link with the name of one. -/
def linked : World where
  installationToken := .ok []
  answer _ ask := .ok <| match ask with
    | .pull _ => .obj [("base".toList, .obj [("sha".toList, .str ['b'])]),
        ("head".toList, .obj [("sha".toList, .str ['h'])]), ("changed_files".toList, .int 2)]
    | .files _ => .arr [.obj [("filename".toList, .str "a.py".toList)],
        .obj [("filename".toList, .str "b.py".toList)]]
    | .commit _ => .obj [("tree".toList, .obj [("sha".toList, .str shaOfOne)])]
    | .tree _ => .obj [("tree".toList, .arr [
        .obj [("path".toList, .str "a.py".toList), ("mode".toList, .str "100644".toList),
          ("type".toList, .str "blob".toList), ("size".toList, .int 3),
          ("sha".toList, .str shaOfOne)],
        .obj [("path".toList, .str "b.py".toList), ("mode".toList, .str "120000".toList),
          ("type".toList, .str "blob".toList), ("size".toList, .int 4),
          ("sha".toList, .str shaOfOne)]])]
    | .blob _ => .obj [("encoding".toList, .str "base64".toList),
        ("content".toList, .str "aGkh\n".toList)]
  checkpoint _ := .ok ()
  parseFile := parseFile Char.isAlphanum (fun _ _ _ => blankTree) fun _ _ _ => .written
  sha1 _ := shaOfOne
  digest _ := ""

/-- A file of the head with an outcome that was not evaluated. -/
def hasGap (f : FileEntry) : Bool :=
  f.side = .head && f.language.isSome && f.ruleOutcomes.any fun o => !o.evaluated

theorem linked_full : ∃ r s, analyze linked ⟨1, ['b'], ['h']⟩ [] ⟨[], []⟩ = (.ok r, s) ∧
    r.coverage = .fullScope ∧ ∃ f ∈ r.files, hasGap f = true := by
  have hrun : ((analyze linked ⟨1, ['b'], ['h']⟩ [] ⟨[], []⟩).1.toOption.any fun r =>
      r.coverage = .fullScope && r.files.any hasGap) = true := by
    decide +kernel
  generalize analyze linked ⟨1, ['b'], ['h']⟩ [] ⟨[], []⟩ = out at hrun ⊢
  obtain ⟨e | r, s⟩ := out
  · cases hrun
  · simp only [Except.toOption, Option.any_some, Bool.and_eq_true, decide_eq_true_eq,
      List.any_eq_true] at hrun
    exact ⟨r, s, rfl, hrun⟩

theorem full_scope_covers_linked : ∃ r s items,
    analyze linked ⟨1, ['b'], ['h']⟩ [] ⟨[], []⟩ = (.ok r, s) ∧
      List.Forall₂ (Accounted Char.isAlphanum (fun _ _ _ => blankTree) linked ⟨1, ['b'], ['h']⟩
        s.log r.findings) items r.files := by
  obtain ⟨r, s, hrun, hfull, -⟩ := linked_full
  have hparse : linked.parseFile =
      parseFile Char.isAlphanum (fun _ _ _ => blankTree) fun _ _ _ => .written := rfl
  obtain ⟨_, _, items, -, -, -, -, -, haccounted⟩ := full_scope_covers hparse hrun hfull
  exact ⟨r, s, items, hrun, haccounted⟩

/-- The link is not evaluated, and the coverage is full. -/
theorem link_not_evaluated : ¬∀ isWord parserFor process w snap ignored r s,
    w.parseFile = parseFile isWord parserFor process →
    analyze w snap ignored ⟨[], []⟩ = (.ok r, s) → r.coverage = .fullScope →
      ∀ f ∈ r.files, f.side = .head → f.language.isSome = true →
        ∀ o ∈ f.ruleOutcomes, o.evaluated = true := by
  intro hclaim
  obtain ⟨r, s, hrun, hfull, f, hf, hgap⟩ := linked_full
  simp only [hasGap, Bool.and_eq_true, decide_eq_true_eq, List.any_eq_true,
    Bool.not_eq_true'] at hgap
  obtain ⟨⟨hside, hlanguage⟩, o, ho, hopen⟩ := hgap
  have hparse : linked.parseFile =
      parseFile Char.isAlphanum (fun _ _ _ => blankTree) fun _ _ _ => .written := rfl
  have hevaluated := hclaim _ _ _ linked _ _ r s hparse hrun hfull f hf hside hlanguage o ho
  rw [hopen] at hevaluated
  cases hevaluated

end Prism.Pipeline
