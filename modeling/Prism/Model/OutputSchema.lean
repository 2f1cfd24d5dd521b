import Prism.Foundation.Codec

/-! What the reviewer is asked to answer with: the strict schemas of `output_schema`,
`empty_schema` and `verification`. -/

namespace Prism.OutputSchema

open Json (Codec Fields)

/-- `Field(min_length=least, max_length=most)`. -/
abbrev Sized (α : Type) (least most : ℕ) :=
  {l : List α // least ≤ l.length ∧ l.length ≤ most}

/-- No items, where none are needed. -/
def Sized.empty {α : Type} {most : ℕ} : Sized α 0 most :=
  ⟨[], Nat.le_refl 0, Nat.zero_le most⟩

@[simp] theorem Sized.empty_val {α : Type} {most : ℕ} :
    (Sized.empty : Sized α 0 most).1 = [] :=
  rfl

abbrev SizedText (least most : ℕ) := Sized Char least most

def text (least most : ℕ) : Codec (SizedText least most) :=
  Codec.text.restrict _

def listOf {α : Type} (c : Codec α) (least most : ℕ) : Codec (Sized α least most) :=
  c.list.restrict _

/-- `Field(ge=1)`. -/
def positive : Codec {n : ℤ // 1 ≤ n} :=
  Codec.int.restrict _

/-- `^[A-Za-z_][A-Za-z_0-9]{0,79}$`. -/
def isSymbol (s : List Char) : Prop :=
  1 ≤ s.length ∧ s.length ≤ 80 ∧ (s.head?.all fun c => c.isAlpha || c = '_') = true ∧
    (s.all fun c => c.isAlphanum || c = '_') = true

instance (s : List Char) : Decidable (isSymbol s) :=
  inferInstanceAs (Decidable (_ ∧ _ ∧ _ ∧ _))

structure ContextRequest where
  fileId : SizedText 0 8
  symbol : {s : List Char // isSymbol s}
  need : SizedText 1 160
  deriving DecidableEq

namespace ContextRequest

def fields : Fields ContextRequest :=
  ((Fields.required "file_id".toList (text 0 8)).both
    ((Fields.required "symbol".toList (Codec.text.restrict isSymbol)).both
      (Fields.required "need".toList (text 1 160)))).build
    (fun (fileId, symbol, need) => ⟨fileId, symbol, need⟩)
    (fun r => (r.fileId, r.symbol, r.need)) (fun _ => rfl) (fun _ => rfl)

def codec : Codec ContextRequest :=
  .record fields (by decide +kernel)

end ContextRequest

structure ExpressionRepair where
  line : {n : ℤ // 1 ≤ n}
  before : SizedText 1 160
  after : SizedText 1 160
  deriving DecidableEq

namespace ExpressionRepair

def fields : Fields ExpressionRepair :=
  ((Fields.required "line".toList positive).both
    ((Fields.required "before".toList (text 1 160)).both
      (Fields.required "after".toList (text 1 160)))).build
    (fun (line, before, after) => ⟨line, before, after⟩)
    (fun r => (r.line, r.before, r.after)) (fun _ => rfl) (fun _ => rfl)

def codec : Codec ExpressionRepair :=
  .record fields (by decide +kernel)

end ExpressionRepair

inductive Severity where
  | info | warning | error
  deriving DecidableEq, Repr

namespace Severity

def name : Severity → List Char
  | info => "INFO".toList
  | warning => "WARNING".toList
  | error => "ERROR".toList

def codec : Codec Severity :=
  .label [info, warning, error] name (by rintro ⟨⟩ <;> simp) (by
    rintro ⟨⟩ ⟨⟩ h <;> first | rfl | exact absurd h (by decide +kernel))

end Severity

inductive Basis where
  | supported | needsContext
  deriving DecidableEq, Repr

namespace Basis

def name : Basis → List Char
  | supported => "SUPPORTED".toList
  | needsContext => "NEEDS_CONTEXT".toList

def codec : Codec Basis :=
  .label [supported, needsContext] name (by rintro ⟨⟩ <;> simp) (by
    rintro ⟨⟩ ⟨⟩ h <;> first | rfl | exact absurd h (by decide +kernel))

end Basis

structure Issue where
  citations : Sized (List Char) 0 4
  fileId : SizedText 0 8
  line : {n : ℤ // 1 ≤ n}
  severity : Severity
  basis : Basis
  evidenceLines : Sized ℤ 1 8
  trigger : SizedText 1 400
  consequence : SizedText 1 400
  assumptions : Sized (List Char) 0 3
  title : SizedText 1 160
  evidence : SizedText 1 800
  suggestion : SizedText 1 800
  contractQuote : SizedText 0 240
  expressionRepair : Option ExpressionRepair
  deriving DecidableEq

namespace Issue

def fields : Fields Issue :=
  ((Fields.optional "citations".toList (listOf Codec.text 0 4) Sized.empty (by simp [listOf,
      Codec.restrict, Codec.list])).both
    ((Fields.required "file_id".toList (text 0 8)).both
      ((Fields.required "line".toList positive).both
        ((Fields.required "severity".toList Severity.codec).both
          ((Fields.required "basis".toList Basis.codec).both
            ((Fields.required "evidence_lines".toList (listOf Codec.int 1 8)).both
              ((Fields.required "trigger".toList (text 1 400)).both
                ((Fields.required "consequence".toList (text 1 400)).both
                  ((Fields.required "assumptions".toList (listOf Codec.text 0 3)).both
                    ((Fields.required "title".toList (text 1 160)).both
                      ((Fields.required "evidence".toList (text 1 800)).both
                        ((Fields.required "suggestion".toList (text 1 800)).both
                          ((Fields.optional "contract_quote".toList (text 0 240) Sized.empty
                              (by simp [text, Codec.restrict, Codec.text])).both
                            (Fields.optional "expression_repair".toList
                              (ExpressionRepair.codec.nullable (by simp [ExpressionRepair.codec,
                                Codec.record])) none (by simp [Codec.nullable]))))))))))))))).build
    (fun (citations, fileId, line, severity, basis, evidenceLines, trigger, consequence,
        assumptions, title, evidence, suggestion, contractQuote, expressionRepair) =>
      ⟨citations, fileId, line, severity, basis, evidenceLines, trigger, consequence,
        assumptions, title, evidence, suggestion, contractQuote, expressionRepair⟩)
    (fun i => (i.citations, i.fileId, i.line, i.severity, i.basis, i.evidenceLines, i.trigger,
      i.consequence, i.assumptions, i.title, i.evidence, i.suggestion, i.contractQuote,
      i.expressionRepair))
    (fun _ => rfl) (fun _ => rfl)

def codec : Codec Issue :=
  .record fields (by decide +kernel)

end Issue

structure ReviewOutput where
  summary : SizedText 1 1600
  issues : Sized Issue 0 10
  limitations : SizedText 1 1600
  contextRequests : Sized ContextRequest 0 2
  deriving DecidableEq

namespace ReviewOutput

def fields : Fields ReviewOutput :=
  ((Fields.required "summary".toList (text 1 1600)).both
    ((Fields.required "issues".toList (listOf Issue.codec 0 10)).both
      ((Fields.required "limitations".toList (text 1 1600)).both
        (Fields.optional "context_requests".toList (listOf ContextRequest.codec 0 2)
          Sized.empty (by simp [listOf, Codec.restrict, Codec.list]))))).build
    (fun (summary, issues, limitations, contextRequests) =>
      ⟨summary, issues, limitations, contextRequests⟩)
    (fun o => (o.summary, o.issues, o.limitations, o.contextRequests))
    (fun _ => rfl) (fun _ => rfl)

def codec : Codec ReviewOutput :=
  .record fields (by decide +kernel)

end ReviewOutput

inductive CheckOutcome where
  | finding | noFinding | limited
  deriving DecidableEq, Repr

namespace CheckOutcome

def name : CheckOutcome → List Char
  | finding => "FINDING".toList
  | noFinding => "NO_FINDING".toList
  | limited => "LIMITED".toList

def codec : Codec CheckOutcome :=
  .label [finding, noFinding, limited] name (by rintro ⟨⟩ <;> simp) (by
    rintro ⟨⟩ ⟨⟩ h <;> first | rfl | exact absurd h (by decide +kernel))

end CheckOutcome

structure FileCheck where
  fileId : SizedText 0 8
  line : Option {n : ℤ // 1 ≤ n}
  outcome : CheckOutcome
  observation : SizedText 1 240
  deriving DecidableEq

namespace FileCheck

def fields : Fields FileCheck :=
  ((Fields.required "file_id".toList (text 0 8)).both
    ((Fields.optional "line".toList (positive.nullable (by simp [positive, Codec.restrict,
        Codec.int])) none (by simp [Codec.nullable])).both
      ((Fields.required "outcome".toList CheckOutcome.codec).both
        (Fields.required "observation".toList (text 1 240))))).build
    (fun (fileId, line, outcome, observation) => ⟨fileId, line, outcome, observation⟩)
    (fun c => (c.fileId, c.line, c.outcome, c.observation)) (fun _ => rfl) (fun _ => rfl)

def codec : Codec FileCheck :=
  .record fields (by decide +kernel)

end FileCheck

structure EmptyReviewOutput extends ReviewOutput where
  fileChecks : Sized FileCheck 1 8
  deriving DecidableEq

namespace EmptyReviewOutput

def fields : Fields EmptyReviewOutput :=
  (ReviewOutput.fields.both
    (Fields.required "file_checks".toList (listOf FileCheck.codec 1 8))).build
    (fun (output, fileChecks) => ⟨output, fileChecks⟩)
    (fun o => (o.toReviewOutput, o.fileChecks)) (fun _ => rfl) (fun _ => rfl)

def codec : Codec EmptyReviewOutput :=
  .record fields (by decide +kernel)

end EmptyReviewOutput

inductive DecisionAction where
  | keep | revise | drop
  deriving DecidableEq, Repr

namespace DecisionAction

def name : DecisionAction → List Char
  | keep => "KEEP".toList
  | revise => "REVISE".toList
  | drop => "DROP".toList

def codec : Codec DecisionAction :=
  .label [keep, revise, drop] name (by rintro ⟨⟩ <;> simp) (by
    rintro ⟨⟩ ⟨⟩ h <;> first | rfl | exact absurd h (by decide +kernel))

end DecisionAction

inductive DecisionReason where
  | confirmed | wrongConsequence | guardedPath | missingContract | duplicate | unsupported
  | overstated
  deriving DecidableEq, Repr

namespace DecisionReason

def name : DecisionReason → List Char
  | confirmed => "CONFIRMED".toList
  | wrongConsequence => "WRONG_CONSEQUENCE".toList
  | guardedPath => "GUARDED_PATH".toList
  | missingContract => "MISSING_CONTRACT".toList
  | duplicate => "DUPLICATE".toList
  | unsupported => "UNSUPPORTED".toList
  | overstated => "OVERSTATED".toList

def codec : Codec DecisionReason :=
  .label [confirmed, wrongConsequence, guardedPath, missingContract, duplicate, unsupported,
      overstated] name (by rintro ⟨⟩ <;> simp) (by
    rintro ⟨⟩ ⟨⟩ h <;> first | rfl | exact absurd h (by decide +kernel))

end DecisionReason

structure Decision where
  index : {n : ℤ // 0 ≤ n ∧ n ≤ 9}
  action : DecisionAction
  reason : DecisionReason
  revised : Option Issue
  checkedConsequence : Option (SizedText 1 400)
  deriving DecidableEq

namespace Decision

def fields : Fields Decision :=
  ((Fields.required "index".toList (Codec.int.restrict fun n => 0 ≤ n ∧ n ≤ 9)).both
    ((Fields.required "action".toList DecisionAction.codec).both
      ((Fields.required "reason".toList DecisionReason.codec).both
        ((Fields.required "revised".toList (Issue.codec.nullable (by simp [Issue.codec,
            Codec.record]))).both
          (Fields.required "checked_consequence".toList ((text 1 400).nullable (by simp [text,
            Codec.restrict, Codec.text]))))))).build
    (fun (index, action, reason, revised, checkedConsequence) =>
      ⟨index, action, reason, revised, checkedConsequence⟩)
    (fun d => (d.index, d.action, d.reason, d.revised, d.checkedConsequence))
    (fun _ => rfl) (fun _ => rfl)

def codec : Codec Decision :=
  .record fields (by decide +kernel)

end Decision

structure VerificationOutput where
  decisions : Sized Decision 0 10
  newFindings : Sized Issue 0 10
  fileChecks : Sized FileCheck 0 8
  deriving DecidableEq

namespace VerificationOutput

def fields : Fields VerificationOutput :=
  ((Fields.required "decisions".toList (listOf Decision.codec 0 10)).both
    ((Fields.optional "new_findings".toList (listOf Issue.codec 0 10) Sized.empty (by simp
        [listOf, Codec.restrict, Codec.list])).both
      (Fields.optional "file_checks".toList (listOf FileCheck.codec 0 8) Sized.empty (by simp
        [listOf, Codec.restrict, Codec.list])))).build
    (fun (decisions, newFindings, fileChecks) => ⟨decisions, newFindings, fileChecks⟩)
    (fun o => (o.decisions, o.newFindings, o.fileChecks)) (fun _ => rfl) (fun _ => rfl)

def codec : Codec VerificationOutput :=
  .record fields (by decide +kernel)

end VerificationOutput

section Answers

variable {α : Type}

/-- `M.model_validate_json(text)`. -/
def validateJson (c : Codec α) (text : List Char) : Option α :=
  (Json.loads text).bind c.read

/-- `value.model_dump_json()`. -/
def dumpJson (c : Codec α) (a : α) : List Char :=
  Json.print Json.compact (c.dump a)

/-- The answer without the echoed flag of the provider's JSON mode. -/
def stripApiMetadata (raw : List Char) : List Char :=
  match Json.loads raw with
  | some (.obj ms) =>
    match Json.member? ms "type".toList with
    | some (.str t) =>
      if t = "json_object".toList then
        Json.print Json.spaced (.obj (ms.filter fun m => m.1 ≠ "type".toList))
      else raw
    | _ => raw
  | _ => raw

theorem validateJson_dumpJson (c : Codec α) (a : α) : validateJson c (dumpJson c a) = some a := by
  rw [validateJson, dumpJson, Json.loads_print Json.readable_compact (c.wellFormed a)]
  exact c.read_dump a

end Answers

end Prism.OutputSchema
