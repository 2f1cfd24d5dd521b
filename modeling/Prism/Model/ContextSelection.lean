import Prism.Model.ContextPlan

/-! Retrieving context under the budgets of a payload, `context_selection`. What the reads,
the syntax metadata and the ranker answer is an environment. -/

namespace Prism.Policy

/-! ## Appending chunks -/

inductive NoteReason where
  | treeTruncated | relatedSearchUnavailable | sourceUnavailable | relatedSourceUnavailable
  | relatedContextLimit | contextLimit | syntaxPartial | functionPartial | queryLimit
  deriving DecidableEq, Repr

def NoteReason.label : NoteReason → List Char
  | treeTruncated => "TREE_TRUNCATED".toList
  | relatedSearchUnavailable => "RELATED_SEARCH_UNAVAILABLE".toList
  | sourceUnavailable => "SOURCE_UNAVAILABLE".toList
  | relatedSourceUnavailable => "RELATED_SOURCE_UNAVAILABLE".toList
  | relatedContextLimit => "RELATED_CONTEXT_LIMIT".toList
  | contextLimit => "CONTEXT_LIMIT".toList
  | syntaxPartial => "SYNTAX_PARTIAL".toList
  | functionPartial => "FUNCTION_PARTIAL".toList
  | queryLimit => "QUERY_LIMIT".toList

structure ContextNote where
  fileId : List Char
  reason : NoteReason
  deriving DecidableEq, Repr

/-- A chunk that is offered to the payload. -/
structure Offer (sources : List (List Char × Source)) extends Chunk sources where
  isProtected : Bool

/-- The state of the loops over the chunks. `byPath` holds the places of the files. -/
structure Collecting where
  files : List File
  anchors : List (List Char × Anchor)
  byPath : List (List Char × ℕ)
  notes : List ContextNote
  protectedMissing : ℕ

section Append

variable {sources : List (List Char × Source)} (payload : Payload) (perFile maxInput : ℕ)

/-- The rows of a file and those of a chunk that are new, by number. -/
def mergedRows (rows : List Row) (c : Chunk sources) : List Row :=
  let numbers := (rows.map Row.line ++ c.numbers.map fun n : ℕ => (n : ℤ)).dedup.mergeSort (· ≤ ·)
  numbers.map fun n => (rowAt? rows n).getD ⟨n, (lineAt c.lines n).getD [], false⟩

/-- The file that takes a chunk, with its place: the one of its path, or a new one. -/
def Collecting.target (s : Collecting) (path : List Char) : Option (ℕ × File) :=
  match s.byPath.lookup path with
  | some i => s.files[i]?.map fun f => (i, f)
  | none =>
    if 4 ≤ s.files.countP fun f => f.role = .related then none
    else some (s.files.length,
      ⟨'c' :: Nat.toDigits 10 (s.files.length + 1), extension path, .related, []⟩)

/-- The files with one replaced, or added behind the last one. -/
def place (files : List File) (i : ℕ) (f : File) : List File :=
  files.take i ++ f :: files.drop (i + 1)

/-- The state with the whole chunk, where the budgets allow it. -/
def Collecting.admitted (s : Collecting) (o : Offer sources) : Option Collecting :=
  match s.target o.path with
  | none => none
  | some (i, item) =>
    let item := { item with lines := mergedRows item.lines o.toChunk }
    let files := place s.files i item
    if perFile < encodedSize item.toJson || maxInput < { payload with files }.size then none
    else
      some { s with
        files
        anchors := setAnchor s.anchors item.fileId ⟨o.path, item.lines.map Row.line⟩
        byPath := (o.path, i) :: s.byPath }

/-- The note on a chunk that is not admitted. -/
def Collecting.refusal (s : Collecting) (path : List Char) : ContextNote :=
  match s.byPath.lookup path, s.target path with
  | some _, some (_, item) => ⟨item.fileId, .contextLimit⟩
  | _, some _ => ⟨[], .contextLimit⟩
  | _, none => ⟨[], .relatedContextLimit⟩

/-- `append_chunk`. -/
def Collecting.append (s : Collecting) (o : Offer sources) : Collecting :=
  match s.admitted payload perFile maxInput o with
  | some s => s
  | none =>
    { s with
      notes := s.notes ++ [s.refusal o.path]
      protectedMissing := s.protectedMissing + if o.isProtected then 1 else 0 }

end Append

/-! ## `collect` -/

inductive Tree where
  | complete | truncated | unavailable
  deriving DecidableEq, Repr

/-- What is answered from outside. The ranker orders the candidates of each query. -/
structure Retrieval where
  tree : Tree
  read : List Char → Option Source
  syntaxOf : List (List Char × Source) → List (List Char × Info)
  identifiersIn : List Char → List (List Char)
  candidatePaths : List Char → List ℕ → List (List Char) → List (List Char × ℕ)
  rank : Option (ℕ → List ℕ)

section Collect

variable (env : Retrieval) (perFile maxInput : ℕ)

/-- `inspect_sources`: metadata of exactly these sources, or none. -/
def inspectSources (sources : List (List Char × Source)) : List (List Char × Info) :=
  let found := env.syntaxOf sources
  if (found.all fun e => e.1 ∈ sources.map Prod.fst) &&
      sources.all fun e => e.1 ∈ found.map Prod.fst then found
  else []

/-- The sources of the changed files that agree with their rows, and notes on the others. -/
def safeSource (paths : List (List Char × List Char))
    (found : List (List Char × Source) × List ContextNote) (f : File) :
    Except Raised (List (List Char × Source) × List ContextNote) :=
  match paths.lookup f.fileId with
  | none => .error .keyError
  | some path =>
    match env.read path with
    | none => .ok (found.1, found.2 ++ [⟨f.fileId, .sourceUnavailable⟩])
    | some lines =>
      (f.lines.anyM (differs .indexError lines)).map fun differ =>
        if differ then (found.1, found.2 ++ [⟨f.fileId, .sourceUnavailable⟩])
        else if (found.1.lookup path).isSome then found
        else (found.1 ++ [(path, lines)], found.2)

/-- The sources of related files, and notes on those that are not read. -/
def relatedSources (paths : List (List Char)) : List (List Char × Source) × List ContextNote :=
  (paths.filterMap fun path => (env.read path).map fun lines => (path, lines),
    (paths.filter fun path => (env.read path).isNone).map fun _ => ⟨[], .relatedSourceUnavailable⟩)

/-- The places of the candidates of one query. -/
def placesOf {sources : List (List Char × Source)} (pool : List (Candidate sources)) (g : ℕ) :
    List ℕ :=
  (List.range pool.length).filter fun i => pool[i]?.any fun c => g ∈ c.groups

/-- `indices[i]`. -/
def indexAt (indices : List ℕ) (i : ℕ) : Except Raised ℕ :=
  match indices[i]? with
  | some index => .ok index
  | none => .error .indexError

/-- The places of the candidates of one query, as a ranker orders them. -/
def rankedPlaces (rank : ℕ → List ℕ) (entry : List ℕ × ℕ) : Except Raised (List ℕ) :=
  if entry.1 = [] then .ok [] else (rank entry.2).mapM (indexAt entry.1)

/-- The places of the candidates of each query, as the ranker orders them. -/
def rankedOrders (orders : List (List ℕ)) : Except Raised (List (List ℕ)) :=
  match env.rank with
  | none => .ok orders
  | some rank => orders.zipIdx.mapM (rankedPlaces rank)

/-- The chunks in the order they are offered: the protected ones, the queries, the rest. -/
def offers {sources : List (List Char × Source)} (pool : List (Candidate sources))
    (groups : List (Chunk sources)) (order : List ℕ) : List (Offer sources) :=
  let ranked := order.filterMap (pool[·]?)
  (ranked.filter (·.isProtected)).map (fun c => ⟨c.toChunk, true⟩) ++
    groups.map (fun q => ⟨q, false⟩) ++
    (ranked.filter fun c => !c.isProtected).map fun c => ⟨c.toChunk, false⟩

/-- What is noted on a file whose metadata is incomplete, or whose functions are cut. -/
def syntaxNotes (s : Collecting) (entry : List Char × Info) : List ContextNote :=
  match (s.byPath.lookup entry.1).bind (s.files[·]?) with
  | none => []
  | some item =>
    let provided := item.lines.map Row.line
    let cut (span : Span) : Bool :=
      let numbers := (numbersTo span.start span.stop).map fun n : ℕ => (n : ℤ)
      numbers.any (· ∈ provided) && !numbers.all (· ∈ provided)
    (if entry.2.incomplete then [⟨item.fileId, .syntaxPartial⟩] else []) ++
      if entry.2.spans.any cut then [⟨item.fileId, .functionPartial⟩] else []

/-- `anchors[fid] = (anchors[fid][0], lines)`. -/
def anchorFile (anchors : List (List Char × Anchor)) (f : File) :
    Except Raised (List (List Char × Anchor)) :=
  match anchors.lookup f.fileId with
  | none => .error .keyError
  | some a => .ok (setAnchor anchors f.fileId ⟨a.path, f.lines.map Row.line⟩)

def coveredFile (anchors : List (List Char × Anchor)) (f : File) : Json :=
  .obj [("file_id".toList, .str f.fileId),
    ("file_path".toList, .str (((anchors.lookup f.fileId).map Anchor.path).getD [])),
    ("provided_lines".toList, .int f.lines.length),
    ("role".toList, .str (match f.role with
      | .changed => "changed".toList
      | .related => "related".toList))]

def ContextNote.toJson (n : ContextNote) : Json :=
  .obj [("file_id".toList, .str n.fileId), ("reason".toList, .str n.reason.label)]

/-- A bundle with its context, and how many protected chunks it misses. -/
structure Collected where
  bundle : Evidence
  protectedMissing : ℕ

/-- What is known when the chunks are offered. -/
structure Plan where
  sources : List (List Char × Source)
  offers : List (Offer sources)
  metadata : List (List Char × Info)
  start : Collecting
  omittedGroups : ℕ

def treeNotes : List ContextNote :=
  match env.tree with
  | .complete => []
  | .truncated => [⟨[], .treeTruncated⟩]
  | .unavailable => [⟨[], .relatedSearchUnavailable⟩]

def plan (b : Evidence) : Except Raised Plan := do
  let paths := b.anchors.map fun a => (a.1, a.2.path)
  let changed := paths.map Prod.snd
  let files := b.payload.files
  let (safe, safeNotes) ← files.foldlM (safeSource env paths) ([], treeNotes env)
  let metadata := inspectSources env safe
  let (groups, omittedGroups) ← queries metadata safe paths files
  let perGroup := groups.map fun q =>
    (env.candidatePaths q.path q.numbers q.identifiers).filter fun p => p.1 ∉ changed
  let (related, relatedNotes) := relatedSources env (chosenPaths perGroup)
  let metadata := metadata ++ inspectSources env related
  let pool : List (Candidate (safe ++ related)) :=
    poolFor metadata env.identifiersIn groups perGroup (safe.map Prod.fst)
  let orders ← rankedOrders env ((List.range groups.length).map (placesOf pool))
  return {
    sources := safe ++ related
    offers := offers pool (groups.map fun q => q.toChunk.widen related) (prioritized pool orders)
    metadata
    start :=
      { files
        anchors := b.anchors
        byPath := files.zipIdx.reverse.filterMap fun (f, i) =>
          (paths.lookup f.fileId).map fun path => (path, i)
        notes := safeNotes ++ relatedNotes
        protectedMissing := 0 }
    omittedGroups }

/-- The state after all chunks were offered. -/
def Plan.run (p : Plan) (payload : Payload) : Collecting :=
  p.offers.foldl (Collecting.append payload perFile maxInput) p.start

def collect (b : Evidence) : Except Raised Collected := do
  let p ← plan env b
  let s := p.run perFile maxInput b.payload
  let notes := s.notes ++ p.metadata.flatMap (syntaxNotes s) ++
    if p.omittedGroups = 0 then [] else [⟨[], .queryLimit⟩]
  let anchors ← s.files.foldlM anchorFile s.anchors
  let coverage := Json.setMember b.coverage "files".toList
    (.arr (s.files.map (coveredFile anchors)))
  return {
    bundle :=
      { b with
        payload := { b.payload with files := s.files }
        anchors
        coverage := Json.setMember coverage "context_notes".toList
          (.arr (notes.reverse.dedup.reverse.map ContextNote.toJson)) }
    protectedMissing := s.protectedMissing }

end Collect

end Prism.Policy
