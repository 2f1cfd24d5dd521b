import Prism.Verification.Answer.Promotion

/-! The contract of a review result, through every stage it is put together in. -/

namespace Prism.Policy

open OutputSchema

/-! ## Statements -/

/-- The bundles `prepare`, `collect` and `supplement` make: anchors are the lines of the
payload, and no two files have the same path. -/
structure Consistent (b : InputBundle) : Prop where
  ids : (b.context.files.map File.fileId).Nodup
  anchored : ∀ fid, (b.anchor? fid).isSome ↔ fid ∈ b.context.files.map File.fileId
  lines : ∀ f ∈ b.context.files, ∀ a, b.anchor? f.fileId = some a →
    ∀ n, n ∈ a.lines ↔ n ∈ f.lines.map Row.line
  paths : ∀ fid fid' a a', b.anchor? fid = some a → b.anchor? fid' = some a' →
    a.path = a'.path → fid = fid'

/-- The path of a file of the payload. -/
def InputBundle.path? (b : InputBundle) (fid : List Char) : Option (List Char) :=
  (b.anchor? fid).map Anchor.path

/-- An entry is at a provided line of a file, with evidence from that file alone. -/
structure Placed (b : InputBundle) (e : Entry) (f : File) : Prop where
  file : f ∈ b.context.files
  path : b.path? f.fileId = some e.filePath
  line : e.line ∈ f.lines.map Row.line
  evidence : ∀ n ∈ e.evidenceLines, n ∈ f.lines.map Row.line
  own : e.line ∈ e.evidenceLines
  changed : ∃ n ∈ e.evidenceLines, n ∈ f.changedLines
  distinct : e.evidenceLines.Nodup

structure IsIssue (e : Entry) : Prop where
  basis : e.basis = .supported
  assumptions : e.assumptions = []

structure IsQuestion (e : Entry) : Prop where
  basis : e.basis = .needsContext
  assumptions : e.assumptions ≠ []
  stated : ∀ s ∈ e.assumptions, Text.strip s ≠ []
  severity : e.severity ≠ .error

/-- Some entry of a list is about the file of a path. -/
def Mentions (entries : List Entry) (path : List Char) : Prop :=
  ∃ e ∈ entries, e.filePath = path

/-- One report for each changed file, which says whether the entries mention it. -/
structure Reported (b : InputBundle) (entries : List Entry) (reports : List FileReport) : Prop where
  files : (reports.map FileReport.fileId).Perm (b.context.changedFiles.map File.fileId)
  outcome : ∀ report ∈ reports, ∃ path, b.path? report.fileId = some path ∧
    (report.outcome = .finding ↔ Mentions entries path)

/-- What holds of every entry of a result. -/
structure Sound (b : InputBundle) (issues questions : List Entry) : Prop where
  size : issues.length + questions.length ≤ 10
  placed : ∀ e ∈ issues ++ questions, ∃ f, Placed b e f
  issue : ∀ e ∈ issues, IsIssue e
  question : ∀ e ∈ questions, IsQuestion e

structure Contract (b : InputBundle) (r : Result) : Prop where
  sound : Sound b r.issues r.questions
  reported : ∃ v, r.verification = some v ∧ Reported b r.entries v.fileChecks

/-! ## One issue -/

variable {tools : Tools} {b : InputBundle}

theorem file_of_id {fid : List Char} {f : File}
    (h : b.context.file? fid = some f) : f ∈ b.context.files ∧ f.fileId = fid := by
  have hmem := List.mem_of_find?_eq_some h
  have hid := List.find?_some h
  exact ⟨List.mem_reverse.mp hmem, of_decide_eq_true hid⟩

/-- An accepted issue becomes an entry that is placed in its file. -/
structure Becomes (b : InputBundle) (issue : Issue) (e : Entry) : Prop where
  placed : ∃ f, Placed b e f
  path : b.path? issue.fileId.1 = some e.filePath
  issue : e.basis = .supported → IsIssue e
  question : e.basis ≠ .supported → IsQuestion e

theorem validateIssue_becomes (hb : Consistent b) {issue : Issue} {e : Entry}
    (h : validateIssue tools b issue = .ok e) : Becomes b issue e := by
  simp only [validateIssue, Checked.bind_eq_ok, require_eq_ok, found_eq_ok, Checked.pure_eq_ok,
    decide_eq_true_eq] at h
  obtain ⟨_, hseverity, anchor, hanchor, _, hline, file, hfile, _, hevidence, _, hassumptions, _,
    hbasis, _, -, _, -, _, -, rfl⟩ := h
  obtain ⟨hdistinct, hown, hprovided, hchanged⟩ := hevidence
  obtain ⟨hmem, hid⟩ := file_of_id hfile
  have hlines := hb.lines file hmem anchor (hid ▸ hanchor)
  have hpath : b.path? issue.fileId.1 = some anchor.path := by
    simp [InputBundle.path?, hanchor]
  refine ⟨⟨file, ?_⟩, hpath, ?_, ?_⟩
  · refine ⟨hmem, hid ▸ hpath, (hlines _).mp hline, ?_, hown, ?_, hdistinct⟩
    · intro n hn
      have hall := List.all_eq_true.mp hprovided n hn
      exact (hlines n).mp (of_decide_eq_true hall)
    · obtain ⟨n, hn, hany⟩ := List.any_eq_true.mp hchanged
      exact ⟨n, hn, of_decide_eq_true hany⟩
  · intro hsupported
    exact ⟨hsupported, hbasis.mp hsupported⟩
  · intro hnot
    have hcontext := needsContext_of_ne hnot
    refine ⟨hcontext, fun hnone => hnot (hbasis.mpr hnone), ?_, ?_⟩
    · intro s hs
      have hall := List.all_eq_true.mp hassumptions s hs
      exact (of_decide_eq_true hall).1
    · intro herror
      exact hseverity ⟨hcontext, herror⟩

/-! ## A whole answer -/

/-- The entries of an accepted answer, one for each of its issues. -/
structure Answers (b : InputBundle) (output : ReviewOutput) (r : Result) : Prop where
  sound : Sound b r.issues r.questions
  mentioned : ∀ path, Mentions r.entries path ↔
    ∃ i ∈ output.issues.1, b.path? i.fileId.1 = some path
  verification : r.verification = none

theorem mem_split {entries : List Entry} {e : Entry} :
    e ∈ (entries.filter fun e => e.basis = .supported) ++
      (entries.filter fun e => e.basis ≠ .supported) ↔ e ∈ entries := by
  simp only [List.mem_append, List.mem_filter, decide_eq_true_eq]
  tauto

/-- An accepted text has been read as an output. -/
theorem validateResult_reads {text : List Char} {r : Result}
    (h : validateResult tools text b = .ok r) :
    ∃ output, validateJson ReviewOutput.codec (stripApiMetadata text) = some output := by
  simp only [validateResult, Checked.bind_eq_ok, found_eq_ok] at h
  obtain ⟨_, -, output, hread, -⟩ := h
  exact ⟨output, hread⟩

theorem validateResult_answers (hb : Consistent b) {text : List Char} {output : ReviewOutput}
    {r : Result} (hread : validateJson ReviewOutput.codec (stripApiMetadata text) = some output)
    (h : validateResult tools text b = .ok r) : Answers b output r := by
  simp only [validateResult, hread, Checked.bind_eq_ok, require_eq_ok, found_eq_ok,
    Checked.pure_eq_ok, Option.some.injEq] at h
  obtain ⟨_, -, _, rfl, entries, hentries, rfl⟩ := h
  have hbecomes : ∀ e ∈ entries, ∃ i ∈ output.issues.1, Becomes b i e := by
    intro e he
    obtain ⟨i, hi, hvalid⟩ := (Checked.mem_mapM hentries).mp he
    exact ⟨i, hi, validateIssue_becomes hb hvalid⟩
  refine ⟨⟨?_, ?_, ?_, ?_⟩, ?_, rfl⟩
  · have hlength := Checked.length_mapM hentries
    have hten := output.issues.2.2
    have hsum := List.length_eq_length_filter_add (l := entries) (fun e => e.basis = .supported)
    simp only [resultOf, decide_not] at hsum ⊢
    omega
  · intro e he
    obtain ⟨i, -, hi⟩ := hbecomes e (mem_split.mp he)
    exact hi.placed
  · intro e he
    obtain ⟨hmem, hbasis⟩ := List.mem_filter.mp he
    obtain ⟨i, -, hi⟩ := hbecomes e hmem
    exact hi.issue (of_decide_eq_true hbasis)
  · intro e he
    obtain ⟨hmem, hbasis⟩ := List.mem_filter.mp he
    obtain ⟨i, -, hi⟩ := hbecomes e hmem
    exact hi.question (of_decide_eq_true hbasis)
  · intro path
    constructor
    · rintro ⟨e, he, rfl⟩
      obtain ⟨i, hi, hbecome⟩ := hbecomes e (mem_split.mp he)
      exact ⟨i, hi, hbecome.path⟩
    · rintro ⟨i, hi, hpath⟩
      obtain ⟨e, he, hvalid⟩ := Checked.exists_of_mapM hentries hi
      have hbecome := validateIssue_becomes hb hvalid
      refine ⟨e, mem_split.mpr he, ?_⟩
      exact Option.some.inj (hbecome.path.symm.trans hpath)

/-! ## The file checks -/

theorem validateFileCheck_cases {ids : List (List Char)} {check : FileCheck} {report : FileReport}
    (h : validateFileCheck b ids check = .ok report) :
    report.fileId = check.fileId.1 ∧ ∃ anchor, b.anchor? check.fileId.1 = some anchor ∧
      (report.outcome = .finding ↔ check.fileId.1 ∈ ids) := by
  simp only [validateFileCheck, Checked.bind_eq_ok, require_eq_ok, found_eq_ok,
    Checked.pure_eq_ok, decide_eq_true_eq] at h
  obtain ⟨file, hfile, anchor, hanchor, _, -, _, -, _, houtcome, rfl⟩ := h
  exact ⟨rfl, anchor, hanchor, houtcome⟩

theorem validateFileChecks_reported (hb : Consistent b) {checks : List FileCheck}
    {output : ReviewOutput} {r : Result} {reports : List FileReport} (hr : Answers b output r)
    (h : validateFileChecks checks output b = .ok reports) : Reported b r.entries reports := by
  simp only [validateFileChecks, Checked.bind_eq_ok, require_eq_ok, decide_eq_true_eq] at h
  obtain ⟨_, ⟨hnodup, hknown, hall⟩, hreports⟩ := h
  have hids : reports.map FileReport.fileId = checks.map fun c => c.fileId.1 :=
    Checked.map_mapM hreports fun _ _ hvalid => (validateFileCheck_cases hvalid).1
  refine ⟨?_, ?_⟩
  · have hfiles : (b.context.changedFiles.map File.fileId).Nodup :=
      (List.filter_sublist.map _).nodup hb.ids
    rw [hids]
    apply (List.perm_ext_iff_of_nodup hnodup hfiles).mpr
    intro id
    constructor
    · intro hid
      exact of_decide_eq_true (List.all_eq_true.mp hknown id hid)
    · intro hid
      exact of_decide_eq_true (List.all_eq_true.mp hall id hid)
  · intro report hreport
    obtain ⟨check, hcheck, hvalid⟩ := (Checked.mem_mapM hreports).mp hreport
    obtain ⟨hid, anchor, hanchor, houtcome⟩ := validateFileCheck_cases hvalid
    refine ⟨anchor.path, by simp [InputBundle.path?, hid, hanchor], ?_⟩
    rw [houtcome, hr.mentioned, List.mem_map]
    constructor
    · rintro ⟨i, hi, hsame⟩
      exact ⟨i, hi, by simp [InputBundle.path?, hsame, hanchor]⟩
    · rintro ⟨i, hi, hpath⟩
      obtain ⟨a, ha, hsame⟩ := Option.map_eq_some_iff.mp hpath
      exact ⟨i, hi, hb.paths _ _ a anchor ha hanchor hsame⟩

/-! ## Computed findings -/

/-- What holds while computed findings are added to a result. -/
structure Merges (b : InputBundle) (entries : List Entry) (m : Merging) : Prop where
  sound : Sound b m.issues m.questions
  mentioned : ∀ path, Mentions (m.issues ++ m.questions) path ↔
    Mentions entries path ∨ path ∈ m.added

/-- A sound pair of lists stays sound when entries leave it. -/
theorem Sound.sublist {issues questions issues' questions' : List Entry}
    (h : Sound b issues questions) (hi : issues'.Sublist issues)
    (hq : questions'.Sublist questions) : Sound b issues' questions' where
  size := by
    have hlength := h.size
    have hless := hi.length_le
    have hless' := hq.length_le
    omega
  placed e he := h.placed e ((hi.append hq).mem he)
  issue e he := h.issue e (hi.mem he)
  question e he := h.question e (hq.mem he)

/-- Taking an item in mentions its path and keeps every other path. -/
theorem mentions_add (issues questions : List Entry) (item item' : Entry)
    (hitem : item'.filePath = item.filePath) (path : List Char) :
    Mentions ((issues.filter (elsewhere item) ++ [item']) ++ questions.filter (elsewhere item))
      path ↔ Mentions (issues ++ questions) path ∨ path = item.filePath := by
  constructor
  · rintro ⟨e, he, rfl⟩
    simp only [List.mem_append, List.mem_filter, List.mem_singleton] at he
    rcases he with (⟨he, -⟩ | rfl) | ⟨he, -⟩
    · exact .inl ⟨e, List.mem_append_left _ he, rfl⟩
    · exact .inr hitem
    · exact .inl ⟨e, List.mem_append_right _ he, rfl⟩
  · have hnew : item' ∈ (issues.filter (elsewhere item) ++ [item']) ++
        questions.filter (elsewhere item) := by
      simp
    rintro (⟨e, he, rfl⟩ | rfl)
    · cases hother : elsewhere item e with
      | true =>
          refine ⟨e, ?_, rfl⟩
          simp only [List.mem_append, List.mem_filter, List.mem_singleton, hother, and_true]
          rcases List.mem_append.mp he with he | he
          · exact .inl (.inl he)
          · exact .inr he
      | false =>
          have hsame : e.filePath = item.filePath := by
            simp only [elsewhere, ne_eq, decide_eq_false_iff_not, not_not, Prod.mk.injEq] at hother
            exact hother.1
          exact ⟨item', hnew, hitem.trans hsame.symm⟩
    · exact ⟨item', hnew, hitem⟩

theorem Merges.add {entries : List Entry} {m : Merging} {item : Entry} (h : Merges b entries m)
    (hitem : IsIssue item) (hplaced : ∃ f, Placed b item f) : Merges b entries (m.add item) := by
  unfold Merging.add
  simp only
  split
  · exact ⟨h.sound, h.mentioned⟩
  · rename_i hroom
    have hleft : Sound b (m.issues.filter (elsewhere item))
        (m.questions.filter (elsewhere item)) :=
      h.sound.sublist List.filter_sublist List.filter_sublist
    refine ⟨⟨?_, ?_, ?_, hleft.question⟩, ?_⟩
    · simp only [List.length_append, List.length_singleton]
      omega
    · intro e he
      simp only [List.mem_append, List.mem_singleton] at he
      rcases he with (he | rfl) | he
      · exact hleft.placed e (List.mem_append_left _ he)
      · obtain ⟨f, hf⟩ := hplaced
        exact ⟨f, hf.file, hf.path, hf.line, hf.evidence, hf.own, hf.changed, hf.distinct⟩
      · exact hleft.placed e (List.mem_append_right _ he)
    · intro e he
      rcases List.mem_append.mp he with he | he
      · exact hleft.issue e he
      · rw [List.mem_singleton.mp he]
        exact ⟨hitem.basis, hitem.assumptions⟩
    · intro path
      have hadd := mentions_add m.issues m.questions item
        { item with origin := .staticProjection } rfl path
      have hbefore := h.mentioned path
      rw [hadd, hbefore, List.mem_append, List.mem_singleton, or_assoc]

theorem merges_fold {entries : List Entry} {m : Merging} {items : List Entry}
    (h : Merges b entries m) (hitems : ∀ e ∈ items, IsIssue e ∧ ∃ f, Placed b e f) :
    Merges b entries (items.foldl Merging.add m) := by
  induction items generalizing m with
  | nil => exact h
  | cons item items ih =>
      obtain ⟨hitem, hplaced⟩ := hitems item List.mem_cons_self
      apply ih (h.add hitem hplaced)
      exact fun e he => hitems e (List.mem_cons_of_mem item he)

/-- The reports are right again once the files of the added findings are marked. -/
theorem Reported.mark {entries entries' : List Entry} {added : List (List Char)}
    {reports : List FileReport} (h : Reported b entries reports)
    (hmentioned : ∀ path, Mentions entries' path ↔ Mentions entries path ∨ path ∈ added) :
    Reported b entries' (reports.map (mark b added)) := by
  have hid : ∀ report, (Policy.mark b added report).fileId = report.fileId := by
    intro report
    unfold Policy.mark
    split <;> rfl
  refine ⟨?_, ?_⟩
  · have hids : (reports.map (Policy.mark b added)).map FileReport.fileId =
        reports.map FileReport.fileId := by
      rw [List.map_map]
      exact List.map_congr_left fun report _ => hid report
    rw [hids]
    exact h.files
  · intro report hreport
    obtain ⟨old, hold, rfl⟩ := List.mem_map.mp hreport
    obtain ⟨path, hpath, houtcome⟩ := h.outcome old hold
    refine ⟨path, by rw [hid, hpath], ?_⟩
    obtain ⟨anchor, hanchor, hsame⟩ := Option.map_eq_some_iff.mp hpath
    rw [hmentioned, ← houtcome]
    by_cases hadded : path ∈ added
    · simp [Policy.mark, hanchor, hsame, hadded]
    · simp [Policy.mark, hanchor, hsame, hadded]

theorem finish_contract {r : Result} {m : Merging} (hr : Contract b r)
    (h : Merges b r.entries m) : Contract b (m.finish b r) := by
  obtain ⟨v, hv, hreported⟩ := hr.reported
  refine ⟨h.sound, ?_⟩
  refine ⟨{ v with fileChecks := v.fileChecks.map (mark b m.added) }, ?_, ?_⟩
  · change r.verification.map _ = _
    rw [hv]
    rfl
  · exact hreported.mark h.mentioned

/-- Grounding keeps the contract, whatever was projected. -/
theorem groundAssertions_contract (hb : Consistent b) {r r' : Result} (hr : Contract b r)
    (h : groundAssertions tools r b = .ok r') : Contract b r' := by
  unfold groundAssertions at h
  split_ifs at h
  · rw [← Checked.pure_eq_ok.mp h]
    exact hr
  · obtain ⟨derived, -, h⟩ := Checked.bind_eq_ok.mp h
    split_ifs at h
    · rw [← Checked.pure_eq_ok.mp h]
      exact hr
    · obtain ⟨checked, hchecked, h⟩ := Checked.bind_eq_ok.mp h
      rw [← Checked.pure_eq_ok.mp h]
      apply finish_contract hr
      apply merges_fold
      · exact ⟨hr.sound, fun path => by simp [Result.entries]⟩
      · intro e he
        obtain ⟨output, hread⟩ := validateResult_reads hchecked
        have hsound := (validateResult_answers hb hread hchecked).sound
        exact ⟨hsound.issue e he, hsound.placed e (List.mem_append_left _ he)⟩

/-! ## The two second passes -/

/-- An answer whose checks are accepted fulfils the contract once it is grounded. -/
theorem grounded_contract (hb : Consistent b) {text : List Char} {output : ReviewOutput}
    {r r' : Result} {checks : List FileCheck} {reports : List FileReport}
    {status : VerificationStatus} {counts : Option Counts}
    (hread : validateJson ReviewOutput.codec (stripApiMetadata text) = some output)
    (hr : validateResult tools text b = .ok r)
    (hreports : validateFileChecks checks output b = .ok reports)
    (h : groundAssertions tools { r with verification := some ⟨status, counts, reports⟩ } b =
      .ok r') : Contract b r' := by
  have hanswers := validateResult_answers hb hread hr
  have hreported := validateFileChecks_reported hb hanswers hreports
  have hcontract : Contract b { r with verification := some ⟨status, counts, reports⟩ } :=
    ⟨hanswers.sound, ⟨status, counts, reports⟩, rfl, hreported⟩
  exact groundAssertions_contract hb hcontract h

theorem verifiedResult_contract (hb : Consistent b) {raw draft : List Char} {r : Result}
    (h : verifiedResult tools raw draft b = .ok r) : Contract b r := by
  simp only [verifiedResult, Checked.bind_eq_ok, found_eq_ok] at h
  obtain ⟨⟨text, counts⟩, hverified, result, hresult, answer, -, output, hread, reports, hreports,
    hground⟩ := h
  obtain ⟨_, _, output', -, -, -, -, rfl⟩ := applyVerification_cases hverified
  obtain rfl := Option.some.inj (hread.symm.trans (validateJson_dumpJson _ output'))
  exact grounded_contract hb (read_output _) hresult hreports hground

theorem validateEmptyReview_contract (hb : Consistent b) {raw : List Char} {r : Result}
    (h : validateEmptyReview tools raw b = .ok r) : Contract b r := by
  unfold validateEmptyReview at h
  obtain ⟨_, -, h⟩ := Checked.bind_eq_ok.mp h
  obtain ⟨output, -, h⟩ := Checked.bind_eq_ok.mp h
  obtain ⟨result, hresult, h⟩ := Checked.bind_eq_ok.mp h
  obtain ⟨reports, hreports, hground⟩ := Checked.bind_eq_ok.mp h
  exact grounded_contract hb (read_output output.toReviewOutput) hresult hreports hground

/-- Whatever a provider answers and a draft says, a result of either second pass over a
consistent bundle fulfils the contract. -/
theorem review_contract (tools : Tools) (b : InputBundle) (hb : Consistent b)
    (raw draft : List Char) (r : Result)
    (h : verifiedResult tools raw draft b = .ok r ∨ validateEmptyReview tools raw b = .ok r) :
    Contract b r := by
  rcases h with h | h
  · exact verifiedResult_contract hb h
  · exact validateEmptyReview_contract hb h

/-! ## Executions -/

section Executions

/-- The tools as they answer for a file that is no Python or Java source and the title
`n`. -/
def plainTools : Tools where
  suggestionCheck _ _ := ⟨.notVerified, [("samples".toList, .int 0)], false⟩
  pathFacts _ := []
  issueKey _ _ := "240c62b08f39fae71142e957b2a27a7c0bfacfe82f699eaaf873cd70f5d9278e".toList

/-- A payload of one file with one added line. -/
def oneLine : InputBundle where
  context := ⟨[⟨['f', '1'], ['j', 's'], .changed, [⟨1, ['x'], true⟩]⟩], none, [], none⟩
  anchors := [(['f', '1'], ⟨"a.js".toList, [1]⟩)]
  omitted := 0
  coverage := .obj []

theorem oneLine_anchor (fid : List Char) : oneLine.anchor? fid =
    if fid = ['f', '1'] then some ⟨"a.js".toList, [1]⟩ else none := by
  rw [InputBundle.anchor?, oneLine, List.lookup_cons]
  by_cases h : fid = ['f', '1']
  · rw [beq_iff_eq.mpr h, if_pos h]
  · rw [beq_eq_false_iff_ne.mpr h, if_neg h, List.lookup_nil]

theorem oneLine_consistent : Consistent oneLine where
  ids := by simp [oneLine]
  anchored fid := by
    rw [oneLine_anchor]
    split <;> simp [oneLine, *]
  lines := by
    intro f hf a ha n
    obtain rfl := List.mem_singleton.mp hf
    rw [oneLine_anchor, if_pos rfl] at ha
    rw [← Option.some.inj ha]
    rfl
  paths := by
    intro fid fid' a a' ha ha' _
    rw [oneLine_anchor] at ha ha'
    split_ifs at ha ha' with h h'
    exact h.trans h'.symm

/-- An answer that reports the added line. -/
def reporting : EmptyReviewOutput where
  toReviewOutput := { doubtful with issues := (reviewed promoted).issues }
  fileChecks := ⟨[⟨promoted.fileId, none, .finding, ⟨['o'], by simp⟩⟩], by simp⟩

theorem review_contract_reporting : ∃ r,
    validateEmptyReview plainTools (dumpJson EmptyReviewOutput.codec reporting) oneLine = .ok r ∧
      Contract oneLine r := by
  have haccepted : (validateEmptyReview plainTools (dumpJson EmptyReviewOutput.codec reporting)
      oneLine).toOption.isSome = true := by
    decide +kernel
  cases h : validateEmptyReview plainTools (dumpJson EmptyReviewOutput.codec reporting) oneLine with
  | error e => simp [h, Except.toOption] at haccepted
  | ok r => exact ⟨r, rfl, review_contract plainTools oneLine oneLine_consistent _ [] r (.inr h)⟩

end Executions

end Prism.Policy
