import Prism.Model.ReviewPolicy

/-! The second pass over a review: the verifier's decisions, the checks per file and the
findings computed from supplied assertions. -/

namespace Prism.Policy

open OutputSchema

/-! ## `apply_verification` -/

/-- What makes two findings the same. -/
def identity (i : Issue) : List Char × ℤ × List Char × List Char :=
  (i.fileId.1, i.line.1, Text.strip i.trigger.1, Text.strip i.consequence.1)

inductive Fate where
  | kept | revised | dropped
  deriving DecidableEq, Repr

/-- The consequence a verifier states, which may not be blank. -/
def checkedConsequence (d : Decision) : Checked (SizedText 1 400) := do
  let consequence ← found d.checkedConsequence .missingCheckedConsequence
  require (Text.strip consequence.1 ≠ []) .missingCheckedConsequence
  return consequence

/-- What becomes of one draft issue. -/
def settle (issue : Issue) (d : Decision) : Checked (Option Issue × Fate) :=
  match d.action with
  | .revise => do
    let revised ← found d.revised .missingRevision
    require (revised.fileId = issue.fileId ∧ revised.line = issue.line) .verificationMovedFinding
    -- a verifier may narrow a finding, it must not promote an uncertain concern
    require (¬ (issue.basis = .needsContext ∧ revised.basis ≠ .needsContext))
      .verificationPromotedFinding
    let consequence ← checkedConsequence d
    return (some { revised with consequence }, .revised)
  | .keep => do
    require (d.revised = none ∧ d.reason = .confirmed) .inconsistentVerification
    let consequence ← checkedConsequence d
    return (some { issue with consequence },
      if issue.consequence = consequence then .kept else .revised)
  | .drop => do
    require (d.revised = none ∧ d.reason ≠ .confirmed) .inconsistentVerification
    require (d.checkedConsequence = none) .inconsistentVerification
    return (none, .dropped)

/-- The decision on the issue it names. -/
def settleOne (issues : List Issue) (d : Decision) : Checked (Option Issue × Fate) := do
  let issue ← found issues[d.index.1.toNat]? .keyError
  settle issue d

def sortedDecisions (decisions : List Decision) : List Decision :=
  decisions.mergeSort fun d d' => d.index.1 ≤ d'.index.1

/-- A new finding, unless an accepted one is the same. -/
def addFinding (accepted : List Issue) (issue : Issue) : List Issue :=
  if accepted.any fun i => identity issue = identity i then accepted else accepted ++ [issue]

/-- The notice that replaces the free text of the draft. -/
def scopeNotice : SizedText 1 1600 :=
  ⟨("제공된 변경·관련 코드 범위에서 AI가 근거를 다시 검토했어요. " ++
    "전체 호출 경로와 실행 결과는 확인하지 않았으며 잘못된 판단이나 누락이 있을 수 있어요.").toList, by
    rw [String.toList_append, String.toList_ofList, String.toList_ofList]
    decide⟩

/-- The draft issues that survive, with their fates. -/
def settleAll (answer : VerificationOutput) (original : ReviewOutput) :
    Checked (List (Option Issue × Fate)) := do
  let indices : List ℤ := answer.decisions.1.map fun d => d.index.1
  let wanted : List ℤ := (List.range original.issues.1.length).map fun n : ℕ => (n : ℤ)
  require (indices.length = original.issues.1.length ∧ indices.all (· ∈ wanted) ∧
    wanted.all (· ∈ indices)) .incompleteVerification
  (sortedDecisions answer.decisions.1).mapM (settleOne original.issues.1)

def verifiedOutput (answer : VerificationOutput) (original : ReviewOutput) :
    Checked (ReviewOutput × Counts) := do
  let settled ← settleAll answer original
  let accepted := settled.filterMap Prod.fst
  let issues := answer.newFindings.1.foldl addFinding accepted
  let count (fate : Fate) := settled.countP fun s => s.2 = fate
  if h : 0 ≤ issues.length ∧ issues.length ≤ 10 then
    return ({ original with
      issues := ⟨issues, h⟩
      limitations := scopeNotice
      contextRequests := Sized.empty },
      ⟨count .kept, count .revised, count .dropped, issues.length - accepted.length⟩)
  else .error .tooManyVerifiedFindings

def applyVerification (raw draft : List Char) : Checked (List Char × Counts) := do
  require (acceptable raw) .invalidVerification
  let answer ← found (validateJson VerificationOutput.codec (stripApiMetadata raw)) .schema
  let original ← found (validateJson ReviewOutput.codec (stripApiMetadata draft)) .schema
  let (output, counts) ← verifiedOutput answer original
  return (dumpJson ReviewOutput.codec output, counts)

/-! ## `validate_file_checks` -/

def Context.changedFiles (c : Context) : List File :=
  c.files.filter fun f => f.role = .changed

/-- `files[check.file_id]`, among the changed files. -/
def Context.changedFile? (c : Context) (fileId : List Char) : Option File :=
  c.changedFiles.reverse.find? fun f => f.fileId = fileId

def validateFileCheck (b : InputBundle) (findingIds : List (List Char)) (check : FileCheck) :
    Checked FileReport := do
  let file ← found (b.context.changedFile? check.fileId.1) .keyError
  let anchor ← found (b.anchor? check.fileId.1) .keyError
  let changed := file.changedLines
  let allowed := if changed = [] then anchor.lines else changed
  require (allowed ≠ [] ∧ Text.strip check.observation.1 ≠ [] ∧
    check.line.all fun line => line.1 ∈ anchor.lines) .invalidFileCheck
  require (changed ≠ [] ∨ check.outcome = .limited) .removalOnlyContext
  require (check.outcome = .finding ↔ check.fileId.1 ∈ findingIds) .inconsistentFileCheck
  return {
    fileId := check.fileId.1
    line := allowed.min?.getD 0
    outcome := check.outcome
    observation := check.observation.1
    filePath := anchor.path }

def validateFileChecks (checks : List FileCheck) (output : ReviewOutput) (b : InputBundle) :
    Checked (List FileReport) := do
  let ids := checks.map fun c => c.fileId.1
  let files := b.context.changedFiles.map File.fileId
  require (ids.Nodup ∧ ids.all (· ∈ files) ∧ files.all (· ∈ ids)) .incompleteFileChecks
  checks.mapM (validateFileCheck b (output.issues.1.map fun i => i.fileId.1))

/-! ## `ground_assertions` -/

def valueLabel : Json → List Char
  | .null => "None".toList
  | .bool true => "True".toList
  | .bool false => "False".toList
  | .int n => Json.printInt n
  | .str [] => "빈 문자열".toList
  | .str _ => "비어 있지 않은 문자열".toList
  | .arr items => "원소 ".toList ++ Json.printInt items.length ++ "개의 리스트".toList
  | .float _ | .obj _ => "값".toList

/-- A finding computed from a supplied assertion. -/
structure Derived where
  fileId : List Char
  line : ℤ
  observation : Observation

def branchText (branches : List (ℤ × Bool)) : List Char :=
  let shown := (branches.take 6).map fun (line, condition) =>
    Json.printInt line ++ "줄 조건 ".toList ++ (if condition then "참" else "거짓").toList
  if shown.isEmpty then "지원하는 순수 반환식".toList else Text.join ", ".toList shown

def Derived.toJson (d : Derived) : Json :=
  let line := Json.printInt d.line
  let test := Json.printInt d.observation.testLine
  let lines := if d.line = d.observation.testLine then [d.line]
    else [min d.line d.observation.testLine, max d.line d.observation.testLine]
  .obj [
    ("file_id".toList, .str d.fileId),
    ("line".toList, .int d.line),
    ("severity".toList, .str "WARNING".toList),
    ("basis".toList, .str "SUPPORTED".toList),
    ("evidence_lines".toList, .arr (lines.map .int)),
    ("assumptions".toList, .arr []),
    ("title".toList, .str (line ++ "줄 처리에서 테스트의 기대값과 코드 계산이 달라요".toList)),
    ("trigger".toList, .str ("제공된 ".toList ++ test ++
      "줄 단언의 입력과 함수 기본값을 적용하는 경우".toList)),
    ("consequence".toList, .str ("지원하는 순수 코드 구간을 계산하면 ".toList ++
      valueLabel d.observation.value ++ "이지만, 단언은 ".toList ++
      valueLabel d.observation.assertedValue ++ "을 요구해요.".toList)),
    ("evidence".toList, .str (branchText d.observation.branches ++
      ("을 따라 계산한 결과예요. 테스트 실행 결과는 아니며 " ++
        "다른 입력은 포함하지 않았어요.").toList)),
    ("suggestion".toList, .str (line ++ "줄의 값 처리와 ".toList ++ test ++
      ("줄의 기대값을 함께 확인하세요. " ++
        "의도한 계약에 맞게 수정하고 기존 정상 입력도 유지되는지 테스트하세요. " ++
        "이 차이를 해결하는 구체적 수정 코드는 아직 검증하지 않았어요.").toList))]

/-- The finding of one mismatch, unless its line has one or there are four. -/
def deriveOne (fileId : List Char) (changed : List ℤ) (derived : List Derived) (o : Observation) :
    List Derived :=
  let line := ((changed.filter (· ∈ o.visitedLines)).min?).getD 0
  if (derived.any fun d => d.fileId = fileId ∧ d.line = line) ∨ 4 ≤ derived.length then derived
  else derived ++ [⟨fileId, line, o⟩]

def deriveFact (c : Context) (derived : List Derived) (fact : PathFact) :
    Checked (List Derived) := do
  let file ← found (c.file? fact.fileId) .keyError
  let changed := file.changedLines
  if file.role ≠ .changed ∨ changed = [] then return derived
  else
    let mismatches := fact.observations.filter fun o =>
      o.matchesAssertion = some false ∧ changed.any (· ∈ o.visitedLines)
    return (mismatches.take 2).foldl (deriveOne fact.fileId changed) derived

/-- The answer the derived findings are validated as. -/
def derivedAnswer (derived : List Derived) : List Char :=
  Json.print Json.spaced (.obj [
    ("summary".toList, .str "코드 계산".toList),
    ("issues".toList, .arr (derived.map Derived.toJson)),
    ("limitations".toList, .str "지원하는 순수 구간의 제한 계산".toList)])

/-- A result while computed findings are added to it. -/
structure Merging where
  issues : List Entry
  questions : List Entry
  added : List (List Char)
  omitted : ℕ

/-- Whether an entry is not at the line of another one. -/
def elsewhere (item e : Entry) : Bool :=
  (e.filePath, e.line) ≠ (item.filePath, item.line)

/-- A computed finding takes the place of everything at its line. -/
def Merging.add (m : Merging) (item : Entry) : Merging :=
  let issues := m.issues.filter (elsewhere item)
  let questions := m.questions.filter (elsewhere item)
  if 10 ≤ issues.length + questions.length then { m with omitted := m.omitted + 1 }
  else
    { m with
      issues := issues ++ [{ item with origin := .staticProjection }]
      questions
      added := m.added ++ [item.filePath] }

/-- The report of a file for which a finding was added. -/
def mark (b : InputBundle) (added : List (List Char)) (r : FileReport) : FileReport :=
  if (b.anchor? r.fileId).any fun a => a.path ∈ added then
    { r with
      outcome := .finding
      observation := ("제공된 단언의 기대값과 제한된 코드 계산이 달라요. " ++
        "테스트 실행 결과는 아니에요.").toList }
  else r

def Merging.finish (b : InputBundle) (r : Result) (m : Merging) : Result :=
  { r with
    issues := m.issues
    questions := m.questions
    summary := resultSummary m.issues m.questions
    grounding := some ⟨m.added.length, m.omitted⟩
    limitations := if m.omitted = 0 then r.limitations
      else r.limitations ++ " 결과 한도로 일부 독립 계산 차이를 표시하지 못했어요.".toList
    verification := r.verification.map fun v =>
      { v with fileChecks := v.fileChecks.map (mark b m.added) } }

def groundAssertions (tools : Tools) (r : Result) (b : InputBundle) : Checked Result := do
  if b.context.purpose.getD .code ≠ .code then return r
  else
    let derived ← (tools.pathFacts b.context).foldlM (deriveFact b.context) []
    if derived.isEmpty then return r
    else
      let checked ← validateResult tools (derivedAnswer derived) b
      return (checked.issues.foldl Merging.add ⟨r.issues, r.questions, [], 0⟩).finish b r

/-! ## The draft and the two second passes -/

/-- What `execute` makes of the first answer: its result and its context requests, or
nothing when it is discarded. -/
def firstAnswer (tools : Tools) (raw : List Char) (b : InputBundle) :
    Checked (Option (Result × List ContextRequest)) :=
  let draft : Checked (Result × List ContextRequest) := do
    let result ← validateResult tools raw b
    let output ← found (validateJson ReviewOutput.codec raw) .schema
    return (result, output.contextRequests.1)
  match draft with
  | .ok draft => .ok (some draft)
  -- `files[issue.file_id]` raises no `ValueError`.
  | .error .keyError => .error .keyError
  | .error _ => .ok none

def verifiedResult (tools : Tools) (raw draft : List Char) (b : InputBundle) : Checked Result := do
  let (revised, counts) ← applyVerification raw draft
  let result ← validateResult tools revised b
  let answer ← found (validateJson VerificationOutput.codec raw) .schema
  let output ← found (validateJson ReviewOutput.codec revised) .schema
  let fileChecks ← validateFileChecks answer.fileChecks.1 output b
  groundAssertions tools
    { result with verification := some ⟨.checked, some counts, fileChecks⟩ } b

def validateEmptyReview (tools : Tools) (raw : List Char) (b : InputBundle) : Checked Result := do
  require (acceptable raw) .invalidOutput
  let output ← found (validateJson EmptyReviewOutput.codec (stripApiMetadata raw)) .schema
  let result ← validateResult tools (dumpJson ReviewOutput.codec output.toReviewOutput) b
  let fileChecks ← validateFileChecks output.fileChecks.1 output.toReviewOutput b
  groundAssertions tools
    { result with verification := some ⟨.emptyRechecked, none, fileChecks⟩ } b

end Prism.Policy
