import Prism.Foundation.Glob
import Prism.Model.Patch
import Prism.Model.ReviewPolicy

/-! What a review shows of a pull request: the payload, and how `prepare` makes it from
the changed files. -/

namespace Prism.Policy

/-! ## The payload -/

/-- The lines of a file at the head. -/
abbrev Source := List (List Char)

/-- The row of a number, as a dictionary of the rows holds it: the last one. -/
def rowAt? (rows : List Row) (n : ℤ) : Option Row :=
  rows.reverse.find? fun r => r.line = n

/-- `lines[n - 1]`. A negative index counts from the end. -/
def lineAt (lines : Source) (n : ℤ) : Option (List Char) :=
  if 1 ≤ n then lines[(n - 1).toNat]?
  else if 0 ≤ lines.length + (n - 1) then lines[(lines.length + (n - 1)).toNat]? else none

/-- Whether a row is not the line of the source. An index may be out of range. -/
def differs {ε : Type} (indexError : ε) (lines : Source) (r : Row) : Except ε Bool :=
  if lines.length < r.line then .ok true
  else match lineAt lines r.line with
    | none => .error indexError
    | some code => .ok (code ≠ r.code)

/-- `anchors[file_id] = anchor`. -/
def setAnchor (anchors : List (List Char × Anchor)) (fileId : List Char) (anchor : Anchor) :
    List (List Char × Anchor) :=
  if (anchors.lookup fileId).isSome then
    anchors.map fun e => if e.1 = fileId then (fileId, anchor) else e
  else anchors ++ [(fileId, anchor)]

/-- One of the user's answers to earlier findings. -/
structure Feedback where
  title : List Char
  state : List Char
  note : List Char
  deriving DecidableEq, Repr

/-- What became of a request for more context. -/
inductive NoteStatus where
  | unavailable | symbolNotProvided | sourceMismatch | fileTooLarge | budgetLimit
  | alreadyProvided | added
  deriving DecidableEq, Repr

def NoteStatus.label : NoteStatus → List Char
  | unavailable => "UNAVAILABLE".toList
  | symbolNotProvided => "SYMBOL_NOT_PROVIDED".toList
  | sourceMismatch => "SOURCE_MISMATCH".toList
  | fileTooLarge => "FILE_TOO_LARGE".toList
  | budgetLimit => "BUDGET_LIMIT".toList
  | alreadyProvided => "ALREADY_PROVIDED".toList
  | added => "ADDED".toList

/-- The note on a request, which names what was asked for. -/
structure Note where
  fileId : OutputSchema.SizedText 0 8
  symbol : {s : List Char // OutputSchema.isSymbol s}
  status : NoteStatus
  deriving DecidableEq

/-- The members of a payload, in the order they are added. Reading the text of a payload
gives them back. -/
structure Payload where
  files : List File
  findings : List Json
  reviewMode : Option ReviewMode := none
  feedback : Option (List Feedback) := none
  purpose : Option Purpose := none
  filePaths : Option (List (List Char × List Char)) := none
  standards : Option (List StandardSection) := none
  semanticObservations : Option (List Json) := none
  pathObservations : Option (List Json) := none
  supplement : Option (List Note) := none

section Dump

def Row.toJson (r : Row) : Json :=
  .obj [("line".toList, .int r.line), ("code".toList, .str r.code),
    ("changed".toList, .bool r.changed)]

def Role.members : Role → List Json.Member
  | .changed => []
  | .related => [("role".toList, .str "related".toList)]

def File.toJson (f : File) : Json :=
  .obj ([("file_id".toList, .str f.fileId), ("language".toList, .str f.language)] ++
    f.role.members ++ [("lines".toList, .arr (f.lines.map Row.toJson))])

def Feedback.toJson (f : Feedback) : Json :=
  .obj [("title".toList, .str f.title), ("state".toList, .str f.state),
    ("note".toList, .str f.note)]

def StandardSection.toJson (s : StandardSection) : Json :=
  .obj [("id".toList, .str s.id), ("document_id".toList, .str s.documentId),
    ("version_id".toList, .str s.versionId), ("version".toList, .int s.version),
    ("title".toList, .str s.title), ("kind".toList, .str s.kind),
    ("section".toList, .str s.sectionId), ("heading".toList, .str s.heading),
    ("text".toList, .str s.text), ("required".toList, .bool s.required),
    ("file_ids".toList, .arr (s.fileIds.map .str))]

def Note.toJson (n : Note) : Json :=
  .obj [("file_id".toList, .str n.fileId.1), ("symbol".toList, .str n.symbol.1),
    ("status".toList, .str n.status.label)]

def modeLabel : ReviewMode → List Char
  | .junior => "JUNIOR".toList
  | .senior => "SENIOR".toList

def purposeLabel : Purpose → List Char
  | .code => "CODE".toList
  | .security => "SECURITY".toList
  | .standards => "STANDARDS".toList

/-- A member that is there when it has a value. -/
def optionalMember {α : Type} (key : String) (toJson : α → Json) (value : Option α) :
    List Json.Member :=
  value.toList.map fun a => (key.toList, toJson a)

def Payload.members (p : Payload) : List Json.Member :=
  [("files".toList, .arr (p.files.map File.toJson)),
    ("static_findings".toList, .arr p.findings)] ++
  optionalMember "review_mode" (fun m => .str (modeLabel m)) p.reviewMode ++
  optionalMember "untrusted_prior_feedback" (fun l => .arr (l.map Feedback.toJson)) p.feedback ++
  optionalMember "purpose" (fun u => .str (purposeLabel u)) p.purpose ++
  optionalMember "file_paths" (fun l => .obj (l.map fun q => (q.1, .str q.2))) p.filePaths ++
  optionalMember "untrusted_standards" (fun l => .arr (l.map StandardSection.toJson))
    p.standards ++
  optionalMember "semantic_observations" .arr p.semanticObservations ++
  optionalMember "path_observations" .arr p.pathObservations ++
  optionalMember "context_supplement" (fun l => .arr (l.map Note.toJson)) p.supplement

/-- `json.dumps(value, ensure_ascii=False)`. -/
def dumps (j : Json) : List Char :=
  j.print Json.spaced

def Payload.text (p : Payload) : List Char :=
  dumps (.obj p.members)

end Dump

/-- How many bytes a value takes in a payload. -/
def encodedSize (j : Json) : ℕ :=
  Text.encodedLength (dumps j)

def Payload.size (p : Payload) : ℕ :=
  encodedSize (.obj p.members)

/-- What the checks of an answer read of a payload. -/
def Payload.context (p : Payload) : Context where
  files := p.files
  purpose := p.purpose
  standards := p.standards.getD []
  behaviorContract := none

/-- `InputBundle`, with everything its payload holds. -/
structure Evidence where
  payload : Payload
  anchors : List (List Char × Anchor)
  omitted : ℕ
  coverage : List Json.Member

def Evidence.bundle (e : Evidence) : InputBundle where
  context := e.payload.context
  anchors := e.anchors
  omitted := e.omitted
  coverage := .obj e.coverage

/-! ## `exclusion` -/

def maxFile : ℕ := 16384

def maxInput : ℕ := 49152

inductive Exclusion where
  | invalidPath | sensitivePath | unsupportedLanguage | excludedPath | patchUnavailable
  | secretSuspected | patchTooLarge | fileLimit | noHeadLines | inputLimit
  deriving DecidableEq, Repr

def Exclusion.label : Exclusion → List Char
  | invalidPath => "INVALID_PATH".toList
  | sensitivePath => "SENSITIVE_PATH".toList
  | unsupportedLanguage => "UNSUPPORTED_LANGUAGE".toList
  | excludedPath => "EXCLUDED_PATH".toList
  | patchUnavailable => "PATCH_UNAVAILABLE".toList
  | secretSuspected => "SECRET_SUSPECTED".toList
  | patchTooLarge => "PATCH_TOO_LARGE".toList
  | fileLimit => "FILE_LIMIT".toList
  | noHeadLines => "NO_HEAD_LINES".toList
  | inputLimit => "INPUT_LIMIT".toList

/-- A relative path without empty or dotted parts, on one line. -/
def isPath (path : List Char) : Bool :=
  Text.encodedLength path ≤ 4096 &&
    (Text.splitOn '/' path).all (fun p => p ∉ [[], ['.'], ['.', '.']]) &&
    '\\' ∉ path && path.all fun c => 32 ≤ c.toNat

def isSupported (path : List Char) : Bool :=
  [".java", ".py", ".js", ".jsx", ".ts", ".tsx"].any fun e => e.toList.isSuffixOf path

/-- `str.lower`, as far as letters of the excluded directories come out of it. -/
def lower (s : List Char) : List Char :=
  s.map fun c => if 'A' ≤ c ∧ c ≤ 'Z' then Char.ofNat (c.toNat + 32) else c

def isExcludedPath (path : List Char) (ignored : List (List Char)) : Bool :=
  ignored.any (fun pattern => Glob.fnmatchcase path pattern) ||
    (Text.splitOn '/' path).any fun p =>
      lower p ∈ ["secrets".toList, "credentials".toList, "node_modules".toList, "vendor".toList]

def exclusion (path patch : Option Json) (ignored : List (List Char)) (perFile : ℕ) :
    Option Exclusion :=
  match path with
  | some (.str path) =>
    if !isPath path then some .invalidPath
    else if ContentSafety.secret.search path then some .sensitivePath
    else if !isSupported path then some .unsupportedLanguage
    else if isExcludedPath path ignored then some .excludedPath
    else match patch with
      | some (.str patch) =>
        if ContentSafety.secret.search patch then some .secretSuspected
        else if perFile < Text.encodedLength patch then some .patchTooLarge
        else none
      | _ => some .patchUnavailable
  | _ => some .invalidPath

/-! ## `prepare` -/

/-- The `ValueError`s of `prepare`. -/
inductive Unprepared where
  | overlongNumber | noSafeContext | unsafeContext
  deriving DecidableEq, Repr

/-- The state of the walk over the lines of a patch. -/
structure Walk where
  number : ℕ := 0
  rows : List Row := []
  deriving DecidableEq, Repr

/-- Only lines of the head get a number. Removed ones never become false anchors. -/
def Walk.show (w : Walk) (code : List Char) (changed : Bool) : Walk :=
  if w.number = 0 then w else ⟨w.number + 1, w.rows ++ [⟨w.number, code, changed⟩]⟩

def Walk.read (w : Walk) (line : List Char) : Walk :=
  match Patch.header? line with
  | some h => { w with number := (Text.int h.newStart).getD 0 }
  | none =>
    match line with
    | '+' :: code => w.show code true
    | ' ' :: code => w.show code false
    | _ => w

/-- `int` raises on a number it does not read. -/
def readable (line : List Char) : Bool :=
  (Patch.header? line).all fun h => (Text.int h.newStart).isSome

/-- The rows of the head that a patch shows. -/
def headRows (patch : List Char) : Except Unprepared (List Row) :=
  let lines := Text.splitlines patch
  if lines.all readable then .ok (lines.foldl Walk.read {}).rows else .error .overlongNumber

/-- The state of the loop over the changed files. -/
structure Preparing where
  files : List File := []
  anchors : List (List Char × Anchor) := []
  excluded : List Json := []

section Prepare

variable (findings : List Json) (ignored : List (List Char)) (perFile maxInput : ℕ)
  (mode : Option ReviewMode)

/-- A file that is left out, with its path where that may be shown. -/
def Preparing.exclude (s : Preparing) (path : Option Json) (reason : Exclusion) : Preparing :=
  let shown := if reason ∈ [.invalidPath, .sensitivePath] then .null else path.getD .null
  { s with excluded := s.excluded ++
      [.obj [("file_path".toList, shown), ("reason".toList, .str reason.label)]] }

/-- `f"f{len(files) + 1}"`. -/
def Preparing.nextId (s : Preparing) : List Char :=
  'f' :: Nat.toDigits 10 (s.files.length + 1)

/-- `path.rsplit(".", 1)[-1]`. -/
def extension (path : List Char) : List Char :=
  (path.reverse.takeWhile (· ≠ '.')).reverse

/-- A file whose patch may be shown, within the limits of the file and of the payload. -/
def Preparing.admitFile (s : Preparing) (path : List Char) (rows : List Row) : Preparing :=
  if rows = [] then s.exclude (some (.str path)) .noHeadLines
  else
    let item : File := ⟨s.nextId, extension path, .changed, rows⟩
    if perFile < encodedSize item.toJson then s.exclude (some (.str path)) .patchTooLarge
    else if maxInput < Payload.size { files := s.files ++ [item], findings, reviewMode := mode } then
      s.exclude (some (.str path)) .inputLimit
    else
      { s with
        files := s.files ++ [item]
        anchors := s.anchors ++ [(item.fileId, ⟨path, (rows.map Row.line).dedup⟩)] }

def Preparing.change (s : Preparing) (change : List Json.Member) :
    Except Unprepared Preparing :=
  let path := Json.member? change "filename".toList
  let patch := Json.member? change "patch".toList
  match exclusion path patch ignored perFile with
  | some reason => .ok (s.exclude path reason)
  | none =>
    if 8 ≤ s.files.length then .ok (s.exclude path .fileLimit)
    else match path, patch with
      | some (.str path), some (.str patch) =>
        (headRows patch).map (s.admitFile findings perFile maxInput mode path)
      | _, _ => .ok s

/-- The coverage of prepared files. -/
def Preparing.coverage (s : Preparing) (shown : ℕ) (totalFiles : Option ℕ) : List Json.Member :=
  [("files".toList, .arr (s.anchors.map fun a =>
      .obj [("file_id".toList, .str a.1), ("file_path".toList, .str a.2.path),
        ("provided_lines".toList, .int a.2.lines.length)])),
    ("excluded".toList, .arr s.excluded),
    ("unfetched_files".toList, (totalFiles.map fun t => Json.int (t - shown : ℕ)).getD .null)]

def prepare (changes : List (List Json.Member)) (totalFiles : Option ℕ) :
    Except Unprepared Evidence := do
  let changes := changes.take 100
  let s ← changes.foldlM (Preparing.change findings ignored perFile maxInput mode) {}
  if s.files = [] then .error .noSafeContext
  else
    let payload : Payload := { files := s.files, findings, reviewMode := mode }
    if ContentSafety.secret.search payload.text || maxInput < payload.size then
      .error .unsafeContext
    else .ok ⟨payload, s.anchors, s.excluded.length, s.coverage changes.length totalFiles⟩

end Prepare

end Prism.Policy
