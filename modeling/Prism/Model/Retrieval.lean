import Prism.Model.ContextPlan

/-! The files a change may depend on, `candidate_paths`: they are named by its imports,
by its identifiers or by the words of its path. The word characters of `\w` are a parameter. -/

namespace Prism.Retrieval

/-! ## Paths -/

/-- A part of a path. -/
abbrev Part := List Char

/-- `PurePosixPath(path).parts` of a relative path. -/
def parts (path : List Char) : List Part :=
  (path.splitOn '/').filter fun p => p ≠ [] && p ≠ ['.']

/-- The name without its suffix: what comes before the last dot, when something comes
before and after it. -/
def stemOf (name : Part) : Part :=
  let suffix := (name.reverse.takeWhile (· ≠ '.')).reverse
  let stem := name.take (name.length - suffix.length - 1)
  if '.' ∈ name ∧ suffix ≠ [] ∧ stem ≠ [] then stem else name

/-- `PurePosixPath(path).stem`. -/
def leaf (path : List Char) : Part :=
  stemOf ((parts path).getLast?.getD [])

/-- `str(PurePosixPath(path).with_suffix(""))`, for a path that has a name. -/
def withoutSuffix (path : List Char) : List Char :=
  Text.join ['/'] ((parts path).dropLast ++ [leaf path])

/-! ## Texts -/

/-- The greatest runs of characters of a class. -/
def runs (p : Char → Bool) (s : List Char) : List (List Char) :=
  (s.splitOnP fun c => !p c).filter (· ≠ [])

def isUpper (c : Char) : Bool :=
  'A' ≤ c && c ≤ 'Z'

def isLower (c : Char) : Bool :=
  'a' ≤ c && c ≤ 'z'

def isLetter (c : Char) : Bool :=
  isUpper c || isLower c

/-- `re.sub(r"([a-z0-9])([A-Z])", r"\1 \2", value)`. -/
def spread : List Char → List Char
  | c :: d :: s =>
    if (isLower c || ('0' ≤ c && c ≤ '9')) && isUpper d then c :: ' ' :: spread (d :: s)
    else c :: spread (d :: s)
  | s => s

def stopWords : List (List Char) :=
  ["java", "main", "src", "test", "tests", "class", "public", "return", "const", "void"].map
    String.toList

/-- `words`. -/
def words (value : List Char) : List (List Char) :=
  (((runs isLetter (spread value)).filter fun w => 3 ≤ w.length).map fun w =>
    w.map Char.toLower).dedup.filter (· ∉ stopWords)

def isQuote (c : Char) : Bool :=
  c = '"' || c = '\''

/-- `re.findall(r"[\"']([^\"']+)[\"']", s)`. After an opening quote, `pending` is what
was read since, reversed; a quote that nothing was read since opens again. -/
def quotedAfter (pending : Option (List Char)) : List Char → List (List Char)
  | [] => []
  | c :: s =>
    match pending with
    | none => quotedAfter (if isQuote c then some [] else none) s
    | some read =>
      if !isQuote c then quotedAfter (some (c :: read)) s
      else if read = [] then quotedAfter (some []) s
      else read.reverse :: quotedAfter none s

def quoted (s : List Char) : List (List Char) :=
  quotedAfter none s

section Words

variable (isWord : Char → Bool)

/-- A match of `(?:from|import)\s+([\w.]+)` at the start of a text: the module, and the
length of the match. -/
def moduleAt (s : List Char) : Option (List Char × ℕ) := do
  let rest ← (Text.after "from".toList s).orElse fun _ => Text.after "import".toList s
  let spaces := rest.takeWhile Text.isSpace
  let module := (rest.drop spaces.length).takeWhile fun c => isWord c || c = '.'
  if spaces = [] ∨ module = [] then none
  else return (module, s.length - rest.length + spaces.length + module.length)

/-- `re.findall(r"(?:from|import)\s+([\w.]+)", s)`, after some characters of a match. -/
def modulesAfter (skip : ℕ) : List Char → List (List Char)
  | [] => []
  | c :: s =>
    match skip, moduleAt isWord (c :: s) with
    | 0, some (module, n) => module :: modulesAfter (n - 1) s
    | 0, none => modulesAfter 0 s
    | skip + 1, _ => modulesAfter skip s

def modules (s : List Char) : List (List Char) :=
  modulesAfter isWord 0 s

/-- `re.findall(r"\b[A-Za-z_]\w{2,}\b", s)`. -/
def namesIn (s : List Char) : List (List Char) :=
  (runs isWord s).filter fun w => 3 ≤ w.length && w.head?.any fun c => isLetter c || c = '_'

end Words

/-! ## Imports -/

/-- The parts after one part of a relative module. -/
def walk (ps : List Part) (part : Part) : List Part :=
  if part = "..".toList ∧ ps ≠ [] then ps.dropLast
  else if part ∈ [".".toList, "..".toList, []] then ps
  else ps ++ [part]

/-- What a quoted module adds to `imported`. -/
def resolve (path module : List Char) : List Char :=
  if module.head? = some '.' then
    Text.join ['/'] ((module.splitOn '/').foldl walk (parts path).dropLast)
  else module

/-- What a module name adds to `imported`. -/
def slashed (module : List Char) : List Char :=
  module.map fun c => if c = '.' then '/' else c

/-- What is read of the metadata of a file. An absent dictionary is an empty one. -/
structure Metadata where
  imports : List (List Char)
  identifiers : List (List Char)

section Candidates

variable (isWord : Char → Bool)

def importedBy (path : List Char) (info : Metadata) : List (List Char) :=
  info.imports.flatMap fun statement =>
    (quoted statement).map (resolve path) ++ (modules isWord statement).map slashed

variable (changed : List (List Char × List (List Char)))
  (metadata : List Char → Option Metadata)

def imported : List (List Char) :=
  changed.flatMap fun e => ((metadata e.1).map (importedBy isWord e.1)).getD []

/-- The names of a change, from its text when there is no metadata. -/
def names : List (List Char) :=
  changed.flatMap fun e =>
    match metadata e.1 with
    | some info => info.identifiers
    | none => namesIn isWord ((Text.join ['\n'] e.2).take 8192)

def pathWords : List (List Char) :=
  changed.flatMap fun e => words (leaf e.1)

/-- A path, or its end, is an imported text. -/
def names? (path text : List Char) : Bool :=
  path = text || ('/' :: text).isSuffixOf path

/-- `direct`. -/
def direct (path : List Char) : Bool :=
  (imported isWord changed metadata).any fun p => names? path p || names? (withoutSuffix path) p

def score (path : List Char) : ℕ :=
  100 * (direct isWord changed metadata path).toNat +
    30 * (decide (leaf path ∈ names isWord changed metadata)).toNat +
    4 * ((words (leaf path)).filter (· ∈ pathWords changed)).length

/-- The paths that score, the best first. -/
def scored (regular : List (List Char)) : List (List Char × ℕ) :=
  let others := (regular.dedup.filter (· ∉ changed.map Prod.fst)).mergeSort fun p q =>
    !Policy.pathBefore q p
  let all := (others.map fun p => (p, score isWord changed metadata p)).filter (·.2 ≠ 0)
  all.mergeSort fun a b => b.2 < a.2 || (a.2 = b.2 && !Policy.pathBefore b.1 a.1)

/-- `candidate_paths`: at most twelve of them. -/
def candidatePaths (regular : List (List Char)) : List (List Char × ℕ) :=
  (scored isWord changed metadata regular).take 12

end Candidates

/-- `discover`: the candidates of every query, and the ones that are fetched. -/
def discover {sources : List (List Char × Policy.Source)} (isWord : Char → Bool)
    (regular changed : List (List Char)) (groups : List (Policy.Query sources))
    (imports : List Char → List (List Char)) :
    List (List Char) × List (List (List Char × ℕ)) :=
  let perGroup := groups.map fun q =>
    candidatePaths isWord [(q.path, Text.splitlines (Policy.codeOf q.lines q.numbers))]
      (fun path => if path = q.path then
        some ⟨imports q.path, (q.identifiers.dedup.mergeSort fun p r => !Policy.pathBefore r p)⟩
        else none) (regular.filter (· ∉ changed))
  (Policy.chosenPaths perGroup, perGroup)

end Prism.Retrieval
