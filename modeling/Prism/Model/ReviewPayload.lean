import Prism.Model.ContextSelection
import Prism.Model.StandardsContext
import Prism.Model.Supplement

/-! From the changed files to the payload of a paid call, as `ReviewWorker.execute` puts it
together. What the observations of a payload say is a parameter. -/

namespace Prism.Policy

open Standards (StandardSnapshot Retrieved)

/-- What ends `execute` before the provider is called. -/
inductive Unpayable where
  | unprepared (e : Unprepared)
  | raised (e : Raised)
  | standardsTooLarge | standardsNoMatch
  deriving DecidableEq, Repr

/-! ## `enrich` -/

def contextUnavailable : List Char :=
  "CONTEXT_UNAVAILABLE".toList

/-- On a deadline or an error of the connection the bundle stays what it was. -/
def enrich (env : Retrieval) (connected : Bool) (perFile maxInput : ℕ) (b : Evidence) :
    Except Raised Evidence :=
  if connected then (collect env perFile maxInput b).map Collected.bundle
  else
    let note := .obj [("file_id".toList, .str []), ("reason".toList, .str contextUnavailable)]
    let coverage := Json.setMember b.coverage "context_notes".toList (.arr [note])
    let retrieval := .obj [("mode".toList, .str "diff_only".toList),
      ("fallback".toList, .str contextUnavailable)]
    .ok { b with coverage := Json.setMember coverage "retrieval".toList retrieval }

/-! ## The earlier answers -/

/-- The bundle with the user's answers to earlier findings, where they fit and are no secrets. -/
def Evidence.withFeedback (b : Evidence) (feedback : List Feedback) : Evidence :=
  let payload := { b.payload with feedback := some feedback }
  let included := feedback ≠ [] ∧ payload.size ≤ maxInput ∧
    ContentSafety.secret.search payload.text = false
  { b with
    payload := if included then payload else b.payload
    coverage := Json.setMember b.coverage "prior_feedback_count".toList
      (.int (if included then feedback.length else 0)) }

/-! ## The purpose -/

section Purpose

variable {S : Type} [LinearOrder S] [Zero S] (score : List Char → StandardSection → S)

/-- `{fid: path for fid, (path, _) in bundle.anchors.items()}`. -/
def Evidence.paths (b : Evidence) : List (List Char × List Char) :=
  b.anchors.map fun a => (a.1, a.2.path)

/-- The payload of a check against the team's documents, before any section is in it. -/
def Evidence.unguided (b : Evidence) : Payload :=
  { b.payload with
    purpose := some .standards
    filePaths := some b.paths
    standards := some [] }

/-- The room that is left for the sections. -/
def Evidence.available (b : Evidence) : ℤ :=
  maxInput + 12 * 1024 - b.unguided.size - 32

/-- What the sections are looked up by: the paths and the payload. -/
def Evidence.query (b : Evidence) : List Char :=
  Text.join [' '] (b.paths.map Prod.snd) ++ b.payload.text

def Evidence.withStandards (b : Evidence) (documents : List StandardSnapshot) :
    Except Unpayable Evidence :=
  if b.available < 0 then .error .standardsTooLarge
  else match Standards.context (score b.query) documents b.paths b.available with
    | .error .requiredTooLarge => .error .standardsTooLarge
    | .ok knowledge =>
      if knowledge.sections = [] then .error .standardsNoMatch
      else .ok { b with
        payload := { b.unguided with standards := some knowledge.sections } }

def Evidence.withPurpose (b : Evidence) (purpose : Purpose) (documents : List StandardSnapshot) :
    Except Unpayable Evidence :=
  match purpose with
  | .code => .ok b
  | .security => .ok { b with payload := { b.payload with purpose := some .security } }
  | .standards => b.withStandards score documents

end Purpose

/-! ## `add_observations` -/

/-- An observation on a line of a payload. -/
structure Fact where
  fileId : List Char
  line : ℤ
  json : Json

/-- What is computed from the text of a payload. -/
structure Projections where
  facts : List Char → List Fact
  dictionaryFacts : List Char → List Fact
  pathFacts : List Char → List (List Char × Json)

/-- The facts of files without path facts, of which those on dictionaries go first. -/
def observations (facts dictionaries : List Fact) (paths : List (List Char × Json)) : List Fact :=
  let covered := dictionaries.map fun d => (d.fileId, d.line)
  ((facts.filter fun f => (f.fileId, f.line) ∉ covered) ++ dictionaries).filter fun f =>
    f.fileId ∉ paths.map Prod.fst

def Evidence.addObservations (b : Evidence) (tools : Projections) : Evidence :=
  let text := b.payload.text
  let paths := tools.pathFacts text
  let found := observations (tools.facts text) (tools.dictionaryFacts text) paths
  if found = [] ∧ paths = [] then b
  else
    let payload :=
      { b.payload with
        semanticObservations := some (found.map Fact.json)
        pathObservations :=
          if paths = [] then b.payload.pathObservations else some (paths.map Prod.snd) }
    { b with payload := if payload.size ≤ maxInput then payload else b.payload }

/-! ## `execute` -/

/-- What a review is asked for. -/
structure ReviewRequest where
  changes : List (List Json.Member)
  totalFiles : Option ℕ
  findings : List Json
  ignored : List (List Char)
  mode : Option ReviewMode
  purpose : Purpose
  feedback : List Feedback
  documents : List StandardSnapshot

section Execute

variable {S : Type} [LinearOrder S] [Zero S] (score : List Char → StandardSection → S)
  (env : Retrieval) (connected : Bool) (tools : Projections)

/-- The bundle of the first paid call. -/
def ReviewRequest.bundle (r : ReviewRequest) : Except Unpayable Evidence := do
  let b ← (prepare r.findings r.ignored maxFile maxInput r.mode r.changes r.totalFiles).mapError
    .unprepared
  let b ← (enrich env connected maxFile maxInput b).mapError .raised
  let b ← (b.withFeedback r.feedback).withPurpose score r.purpose r.documents
  return b.addObservations tools

end Execute

end Prism.Policy
