import Prism.Model.Evidence

/-! Resolving the symbols a reviewer asks for, `supplement`, inside files that are shown
already. The source is an environment that may fail at any read. -/

namespace Prism.Policy

open OutputSchema (ContextRequest)

/-- The exceptions of a read, as far as `supplement` tells them apart. -/
inductive ReadFailure where
  | handled
  | other
  deriving DecidableEq, Repr

/-- What escapes from `supplement`. -/
inductive Escaped where
  | stopIteration | indexError
  | other
  deriving DecidableEq, Repr

/-! ## Rows and their source -/

/-- Every line of a source, with the rows that are there already. -/
def completeRows (rows : List Row) (lines : Source) : List Row :=
  lines.zipIdx.map fun (code, i) => (rowAt? rows (i + 1)).getD ⟨i + 1, code, false⟩

/-! ## Budgets -/

/-- The payload without the standards and the paths. -/
def Payload.codePart (p : Payload) : Payload :=
  { p with standards := none, filePaths := none }

def Payload.maximum (p : Payload) : ℕ :=
  maxInput + if p.purpose = some .standards then 12 * 1024 else 0

/-- `fits`. -/
def Payload.fits (p : Payload) (reserve : ℕ) : Bool :=
  p.codePart.size + reserve ≤ maxInput && p.size + reserve ≤ p.maximum

/-! ## The requests -/

/-- The state of the loop over the requests. -/
structure Supplementing where
  payload : Payload
  anchors : List (List Char × Anchor)
  notes : List Note := []
  cache : List (List Char × Source) := []
  coverage : List Json.Member

/-- `covered["file_id"] == file_id`. -/
def isOfFile (fileId : List Char) (ms : List Json.Member) : Bool :=
  match Json.member? ms "file_id".toList with
  | some (.str t) => t = fileId
  | _ => false

/-- The number of shown lines of a file in one entry of the coverage. -/
def coverFile (fileId : List Char) (count : ℕ) (covered : Json) : Json :=
  match covered with
  | .obj ms =>
    if isOfFile fileId ms then .obj (Json.setMember ms "provided_lines".toList (.int count))
    else covered
  | _ => covered

def coverFiles (fileId : List Char) (count : ℕ) (coverage : List Json.Member) :
    List Json.Member :=
  coverage.map fun m =>
    match m with
    | (key, .arr items) =>
      if key = "files".toList then (key, .arr (items.map (coverFile fileId count))) else m
    | _ => m

/-- `data["files"]` with the first file of this identifier replaced. -/
def replaceFile (file : File) : List File → List File
  | [] => []
  | f :: files => if f.fileId = file.fileId then file :: files else f :: replaceFile file files

def Supplementing.noted (s : Supplementing) (r : ContextRequest) (status : NoteStatus) :
    Supplementing :=
  { s with notes := s.notes ++ [⟨r.fileId, r.symbol, status⟩] }

/-- What a source read before is kept for. -/
def Supplementing.remember (s : Supplementing) (path : List Char) (lines : Source) :
    Supplementing :=
  if (s.cache.lookup path).isSome then s else { s with cache := (path, lines) :: s.cache }

/-- The file of a request, completed within the budgets. -/
def Supplementing.complete (s : Supplementing) (r : ContextRequest) (anchor : Anchor) (file : File)
    (lines : Source) : Supplementing :=
  let file' := { file with lines := completeRows file.lines lines }
  let payload := { s.payload with files := replaceFile file' s.payload.files }
  -- Room for the notes is reserved.
  if maxFile < encodedSize file'.toJson || !payload.fits 1024 then s.noted r .budgetLimit
  else
    let numbers := (List.range lines.length).map fun i : ℕ => (i : ℤ) + 1
    { Supplementing.noted s r
        (if file.lines.length = lines.length then .alreadyProvided else .added) with
      payload
      anchors := setAnchor s.anchors r.fileId.1 ⟨anchor.path, numbers⟩
      coverage := coverFiles r.fileId.1 lines.length s.coverage }

def Supplementing.resolve (s : Supplementing) (r : ContextRequest) (anchor : Anchor) (file : File)
    (lines : Source) : Except Escaped Supplementing :=
  match file.lines.anyM (differs .indexError lines) with
  | .error e => .error e
  | .ok true => .ok (s.noted r .sourceMismatch)
  | .ok false =>
    if 160 < lines.length then .ok (s.noted r .fileTooLarge)
    else .ok (s.complete r anchor file lines)

section Request

variable (isWord : Char → Bool) (ignored : List (List Char))
  (fetch : ℕ → List Char → Except ReadFailure Source)

/-- `re.search(r"\b" + re.escape(symbol) + r"\b", code)`. The first and the last letter of a
symbol are word characters. -/
def mentions (symbol code : List Char) : Bool :=
  (List.range (code.length + 1)).any fun i =>
    symbol.isPrefixOf (code.drop i) && !(code.take i).getLast?.any isWord &&
      !(code.drop (i + symbol.length)).head?.any isWord

/-- The lines of a file, from the cache or as the read at this time answers. -/
def Supplementing.load (s : Supplementing) (time : ℕ) (path : List Char) :
    Except ReadFailure Source :=
  match s.cache.lookup path with
  | some lines => .ok lines
  | none => fetch time path

def Supplementing.request (s : Supplementing) (r : ContextRequest) (time : ℕ) :
    Except Escaped Supplementing :=
  match s.anchors.lookup r.fileId.1 with
  | none => .ok (s.noted r .unavailable)
  | some anchor =>
    if (exclusion (some (.str anchor.path)) (some (.str [])) ignored maxFile).isSome then
      .ok (s.noted r .unavailable)
    else match s.payload.files.find? fun f => f.fileId = r.fileId.1 with
      | none => .error .stopIteration
      | some file =>
        if !file.lines.any fun row => mentions isWord r.symbol.1 row.code then
          .ok (s.noted r .symbolNotProvided)
        else match s.load fetch time anchor.path with
          | .error .handled => .ok (s.noted r .unavailable)
          | .error .other => .error .other
          | .ok lines => (s.remember anchor.path lines).resolve r anchor file lines

/-- The loop over the requests, of which two are considered. -/
def supplementing (b : Evidence) (requests : List ContextRequest) : Except Escaped Supplementing :=
  (requests.take 2).zipIdx.foldlM (fun s r => s.request isWord ignored fetch r.1 r.2)
    { payload := b.payload, anchors := b.anchors, coverage := b.coverage }

def supplement (b : Evidence) (requests : List ContextRequest) : Except Escaped Evidence := do
  let s ← supplementing isWord ignored fetch b requests
  if s.notes = [] then return b
  else
    let payload := { s.payload with supplement := some s.notes }
    let covered (notes : List Note) (coverage : List Json.Member) :=
      Json.setMember coverage "context_supplement".toList (.arr (notes.map Note.toJson))
    if payload.fits 0 then
      return { b with payload, anchors := s.anchors, coverage := covered s.notes s.coverage }
    else
      let limited := s.notes.map fun n => { n with status := .budgetLimit }
      return { b with coverage := covered limited b.coverage }

end Request

end Prism.Policy
