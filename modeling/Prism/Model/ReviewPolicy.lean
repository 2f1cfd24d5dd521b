import Prism.Model.ContentSafety
import Prism.Model.Database
import Prism.Model.OutputSchema

/-! The checks of `policy` on a reviewer's answer. What `suggestion_check`, `path_facts`
and the digest of `issue_key` compute is a parameter. -/

namespace Prism.Policy

open OutputSchema

/-! ## The payload of a review -/

structure Row where
  line : ℤ
  code : List Char
  changed : Bool
  deriving DecidableEq, Repr

inductive Role where
  | changed | related
  deriving DecidableEq, Repr

structure File where
  fileId : List Char
  language : List Char
  role : Role
  lines : List Row
  deriving DecidableEq, Repr

/-- What a citation repeats of a section. -/
structure Citation where
  id : List Char
  documentId : List Char
  versionId : List Char
  version : ℤ
  title : List Char
  kind : List Char
  sectionId : List Char
  heading : List Char
  deriving DecidableEq, Repr

structure StandardSection extends Citation where
  text : List Char
  required : Bool
  fileIds : List (List Char)
  deriving DecidableEq, Repr

/-- The members of a payload that the checks read. -/
structure Context where
  files : List File
  purpose : Option Purpose
  standards : List StandardSection
  behaviorContract : Option (List Char)
  deriving DecidableEq, Repr

structure Anchor where
  path : List Char
  lines : List ℤ
  deriving DecidableEq, Repr

structure InputBundle where
  context : Context
  anchors : List (List Char × Anchor)
  omitted : ℕ
  coverage : Json

/-- `files[file_id]`. -/
def Context.file? (c : Context) (fileId : List Char) : Option File :=
  c.files.reverse.find? fun f => f.fileId = fileId

/-- `files.values()`: of several files with one id the last one is held. -/
def Context.heldFiles (c : Context) : List File :=
  c.files.filter fun f => c.file? f.fileId = some f

/-- `sections[cid]`. -/
def Context.section? (c : Context) (cid : List Char) : Option StandardSection :=
  c.standards.reverse.find? fun s => s.id = cid

/-- `sections.values()`. -/
def Context.heldSections (c : Context) : List StandardSection :=
  c.standards.filter fun s => c.section? s.id = some s

/-- `bundle.anchors.get(file_id)`. -/
def InputBundle.anchor? (b : InputBundle) (fileId : List Char) : Option Anchor :=
  b.anchors.lookup fileId

/-- The changed lines of a file. -/
def File.changedLines (f : File) : List ℤ :=
  (f.lines.filter Row.changed).map Row.line

/-! ## What the checks are given -/

inductive CheckStatus where
  | notVerified | sourceMismatch | preservesSamples | changesSuccessfulSamples
  deriving DecidableEq, Repr

/-- The result of `suggestion_check`. -/
structure Check where
  status : CheckStatus
  details : List Json.Member
  withheld : Bool

/-- One projected assertion of `path_facts`. -/
structure Observation where
  testLine : ℤ
  value : Json
  assertedValue : Json
  matchesAssertion : Option Bool
  visitedLines : List ℤ
  branches : List (ℤ × Bool)

structure PathFact where
  fileId : List Char
  observations : List Observation

structure Tools where
  suggestionCheck : Issue → File → Check
  pathFacts : Context → List PathFact
  issueKey : List Char → List Char → List Char

/-- The `ValueError`s and `KeyError`s that refuse an answer. -/
inductive Invalid where
  | invalidOutput | schema | unsupportedSeverity | invalidOutputLocation | keyError
  | invalidEvidenceLines | invalidAssumptions | inconsistentEvidenceBasis | emptyEvidence
  | missingStandardCitation | invalidStandardCitation | unexpectedStandardCitation
  | invalidContractQuote | invalidVerification | incompleteVerification | missingRevision
  | verificationMovedFinding | verificationPromotedFinding | missingCheckedConsequence
  | inconsistentVerification | tooManyVerifiedFindings | incompleteFileChecks
  | invalidFileCheck | removalOnlyContext | inconsistentFileCheck
  deriving DecidableEq, Repr

abbrev Checked := Except Invalid

/-- `if not condition: raise`. -/
def require (condition : Bool) (e : Invalid) : Checked Unit :=
  if condition then .ok () else .error e

/-- The value of an optional one that has to be there. -/
def found {α : Type} (a : Option α) (e : Invalid) : Checked α :=
  match a with
  | some a => .ok a
  | none => .error e

/-! ## Quotes -/

def rstrip (s : List Char) : List Char :=
  (s.reverse.dropWhile Text.isSpace).reverse

/-- What follows a comment or docstring marker, `none` where there is none. -/
def afterMark : List Char → Option (List Char)
  | '/' :: '*' :: '*' :: s => some s
  | '/' :: '*' :: s => some s
  | '*' :: '/' :: s => some s
  | '*' :: s => some s
  | '/' :: '/' :: s => some (s.dropWhile (· = '/'))
  | '#' :: s => some (s.dropWhile (· = '#'))
  | '"' :: '"' :: '"' :: s => some s
  | '\'' :: '\'' :: '\'' :: s => some s
  | _ => none

/-- `_LEADING_MARK.sub("", line)`. -/
def dropLeadingMark (line : List Char) : List Char :=
  match afterMark (line.dropWhile Text.isSpace) with
  | none => line
  | some [] => []
  | some (c :: s) => if Text.isSpace c then s else c :: s

/-- `_TRAILING_MARK.sub("", line)`. -/
def dropTrailingMark (line : List Char) : List Char :=
  match (rstrip line).reverse with
  | '/' :: '*' :: s => rstrip s.reverse
  | '"' :: '"' :: '"' :: s => rstrip s.reverse
  | '\'' :: '\'' :: '\'' :: s => rstrip s.reverse
  | _ => line

/-- `" ".join(s.split())`. -/
def collapse (s : List Char) : List Char :=
  Text.join [' '] (Text.words s)

/-- A line without its markers. -/
def cleaned (line : List Char) : List Char :=
  Text.strip (dropTrailingMark (dropLeadingMark line))

/-- The text of some lines: the ones that are not blank, with single spaces. -/
def joinedText (lines : List (List Char)) : List Char :=
  Text.join [' '] (((lines.map cleaned).filter fun row => !row.isEmpty).map collapse)

def quoteSupported (quote : List Char) (texts : List (List Char))
    (blocks : List (List (List Char))) : Bool :=
  let wanted := collapse quote
  !wanted.isEmpty &&
    (texts.any (fun text => Text.contains text quote) ||
      blocks.any fun lines => Text.contains (joinedText lines) wanted)

/-! ## Results -/

inductive Origin where
  | answer | staticProjection
  deriving DecidableEq, Repr

/-- An issue or a question of a result. -/
structure Entry where
  line : ℤ
  severity : OutputSchema.Severity
  basis : Basis
  evidenceLines : List ℤ
  trigger : List Char
  consequence : List Char
  assumptions : List (List Char)
  title : List Char
  evidence : List Char
  suggestion : List Char
  filePath : List Char
  suggestionCheck : Check
  citations : List Citation
  key : List Char
  origin : Origin

/-- A file check that was accepted. -/
structure FileReport where
  fileId : List Char
  line : ℤ
  outcome : CheckOutcome
  observation : List Char
  filePath : List Char
  deriving DecidableEq, Repr

inductive VerificationStatus where
  | checked | emptyRechecked
  deriving DecidableEq, Repr

/-- How many findings a verifier kept, revised, dropped and added. -/
structure Counts where
  kept : ℕ
  revised : ℕ
  dropped : ℕ
  added : ℕ
  deriving DecidableEq, Repr

structure Verification where
  status : VerificationStatus
  counts : Option Counts
  fileChecks : List FileReport
  deriving DecidableEq, Repr

structure Grounding where
  findings : ℕ
  omitted : ℕ
  deriving DecidableEq, Repr

structure Result where
  summary : List Char
  issues : List Entry
  questions : List Entry
  classification : List Char
  limitations : List Char
  reviewedFiles : ℕ
  omittedFiles : ℕ
  coverage : Json
  scope : List Char
  verification : Option Verification
  grounding : Option Grounding

def Result.entries (r : Result) : List Entry :=
  r.issues ++ r.questions

/-- The order in which a summary names findings. -/
def priority : OutputSchema.Severity → ℕ
  | .error => 0
  | .warning => 1
  | .info => 2

/-- The titles a summary shows of one kind of finding. -/
def selectedTitles (entries : List Entry) (remaining : ℕ) : List (List Char) :=
  ((entries.mergeSort fun a b => priority a.severity ≤ priority b.severity).take remaining).map
    fun e => Text.join [' '] (Text.words e.title)

def resultSummary (issues questions : List Entry) : List Char :=
  if issues.isEmpty && questions.isEmpty then
    ("제공된 코드 범위에서 지적할 항목을 찾지 못했어요. " ++
      "검토 범위와 확인하지 못한 내용을 함께 살펴보세요.").toList
  else
    let counts :=
      (if issues.isEmpty then []
        else ["개선 제안 ".toList ++ Json.printInt issues.length ++ "건".toList]) ++
      (if questions.isEmpty then []
        else ["추가 확인 ".toList ++ Json.printInt questions.length ++ "건".toList])
    let first := selectedTitles issues 3
    let second := selectedTitles questions (3 - first.length)
    let line (label : List Char) (titles : List (List Char)) :=
      if titles.isEmpty then [] else [label ++ ": ".toList ++ Text.join " / ".toList titles]
    Text.join ['\n'] ((Text.join " · ".toList counts ++ "이 있어요.".toList) ::
      line "먼저 검토할 제안".toList first ++ line "추가 확인할 내용".toList second)

/-! ## `validate_result` -/

/-- Shown in place of a repair that changes values which were right. -/
def withheldSuggestion : List Char :=
  ("제시된 수정안은 제한된 예시에서 기존 반환값까지 바꾸어 표시하지 않았어요. " ++
    "아래 반례와 실제 입력 조건을 확인하고, 문제가 발생하는 조건을 처리하면서 " ++
    "유지해야 할 기존 동작을 테스트로 확인해 주세요.").toList

/-- The texts a quote may be taken from. -/
def supplied (c : Context) : List (List Char) :=
  c.behaviorContract.getD [] :: c.heldFiles.flatMap (fun f => f.lines.map Row.code) ++
    c.heldSections.map StandardSection.text

def citable (c : Context) (issue : Issue) (cid : List Char) : Bool :=
  match c.section? cid with
  | none => false
  | some s => issue.fileId.1 ∈ s.fileIds

def checkCitations (c : Context) (issue : Issue) : Checked Unit :=
  if c.purpose = some .standards then do
    require (issue.citations.1 ≠ [] ∧ issue.citations.1.Nodup) .missingStandardCitation
    require (issue.citations.1.all (citable c issue)) .invalidStandardCitation
  else require (issue.citations.1 = []) .unexpectedStandardCitation

def checkQuote (c : Context) (issue : Issue) : Checked Unit :=
  require (issue.contractQuote.1 = [] ∨ quoteSupported issue.contractQuote.1 (supplied c)
    (c.heldFiles.map fun f => f.lines.map Row.code)) .invalidContractQuote

/-- The entry an accepted issue becomes. -/
def entryOf (tools : Tools) (c : Context) (anchor : Anchor) (file : File) (issue : Issue) : Entry :=
  let check := tools.suggestionCheck issue file
  let changes := check.status = .changesSuccessfulSamples
  { line := issue.line
    severity := issue.severity
    basis := issue.basis
    evidenceLines := issue.evidenceLines.1
    trigger := issue.trigger.1
    consequence := issue.consequence.1
    assumptions := issue.assumptions.1
    title := issue.title.1
    evidence := issue.evidence.1
    suggestion := if changes then withheldSuggestion else issue.suggestion.1
    filePath := anchor.path
    suggestionCheck := { check with withheld := changes }
    citations := issue.citations.1.filterMap fun cid => (c.section? cid).map (·.toCitation)
    key := tools.issueKey anchor.path issue.title.1
    origin := .answer }

def validateIssue (tools : Tools) (b : InputBundle) (issue : Issue) : Checked Entry := do
  require (¬ (issue.basis = .needsContext ∧ issue.severity = .error)) .unsupportedSeverity
  let anchor ← found (b.anchor? issue.fileId.1) .invalidOutputLocation
  require (issue.line.1 ∈ anchor.lines) .invalidOutputLocation
  let file ← found (b.context.file? issue.fileId.1) .keyError
  let refs := issue.evidenceLines.1
  require (refs.Nodup ∧ issue.line.1 ∈ refs ∧ refs.all (· ∈ anchor.lines) ∧
    refs.any (· ∈ file.changedLines)) .invalidEvidenceLines
  require (issue.assumptions.1.all fun s => Text.strip s ≠ [] ∧ s.length ≤ 400)
    .invalidAssumptions
  require (issue.basis = .supported ↔ issue.assumptions.1 = []) .inconsistentEvidenceBasis
  require (Text.strip issue.trigger.1 ≠ [] ∧ Text.strip issue.consequence.1 ≠ []) .emptyEvidence
  checkCitations b.context issue
  checkQuote b.context issue
  return entryOf tools b.context anchor file issue

/-- The size and the content a raw answer may have. -/
def acceptable (raw : List Char) : Bool :=
  Text.encodedLength raw ≤ 24000 && !ContentSafety.secret.search raw

/-- The result of the entries of an accepted output. -/
def resultOf (b : InputBundle) (output : ReviewOutput) (entries : List Entry) : Result :=
  let issues := entries.filter fun e => e.basis = .supported
  let questions := entries.filter fun e => e.basis ≠ .supported
  { summary := resultSummary issues questions
    issues
    questions
    classification := "SUPPORTED_FINDINGS_AND_CONTEXT_QUESTIONS".toList
    limitations := output.limitations.1
    reviewedFiles := b.anchors.length
    omittedFiles := b.omitted
    coverage := b.coverage
    scope := ("고정 HEAD의 제공 줄과 제한된 관련 문맥만 검토. " ++
      "전체 호출 경로·실행 결과는 미검증.").toList
    verification := none
    grounding := none }

def validateResult (tools : Tools) (raw : List Char) (b : InputBundle) : Checked Result := do
  require (acceptable raw) .invalidOutput
  let output ← found (validateJson ReviewOutput.codec (stripApiMetadata raw)) .schema
  let entries ← output.issues.1.mapM (validateIssue tools b)
  return resultOf b output entries

end Prism.Policy
