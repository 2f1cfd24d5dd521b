import Prism.Model.Evidence

/-! Which chunks of the sources a review is offered, `context_plan` and `retrieval`. The
syntax metadata, the identifiers of a line and the candidate paths are parameters. -/

namespace Prism.Policy

/-! ## Syntax metadata -/

/-- The lines of a function. They are counted from one. -/
structure Span where
  start : ℕ
  stop : ℕ
  name : List Char
  one : 1 ≤ start

/-- The metadata of one file. -/
structure Info where
  spans : List Span := []
  symbols : List (ℕ × List Char) := []
  calls : List (ℕ × List Char) := []
  incomplete : Bool := false

/-- `metadata.get(path, {})`. -/
def infoOf (metadata : List (List Char × Info)) (path : List Char) : Info :=
  (metadata.lookup path).getD {}

/-- The shortest span, and among these the first. -/
def shortest (spans : List Span) : Option Span :=
  spans.foldl (fun best s =>
    match best with
    | none => some s
    | some b => if s.stop - s.start < b.stop - b.start then some s else some b) none

def spansAt (info : Info) (line : ℕ) : List Span :=
  info.spans.filter fun s => s.start ≤ line && line ≤ s.stop

/-- `range(first, last + 1)`. -/
def numbersTo (first last : ℕ) : List ℕ :=
  List.range' first (last + 1 - first)

/-- `sorted(set(numbers))`. -/
def sortedSet (numbers : List ℕ) : List ℕ :=
  numbers.dedup.mergeSort (· ≤ ·)

/-- The function around a line, or the lines near to it. Of a long function the beginning,
the end and the lines near to the line are taken. -/
def around (lines : Source) (center : ℕ) (info : Info) : List ℕ :=
  match shortest (spansAt info center) with
  | some s =>
    if s.stop - s.start < 160 then
      let numbers := numbersTo (max 1 (s.start - 2)) (min lines.length s.stop)
      numbers.drop (numbers.length - 160)
    else sortedSet
      (List.range' s.start (min (s.start + 4) (lines.length + 1) - s.start) ++
        numbersTo (max s.start (center - 60)) (min (min s.stop (center + 60)) lines.length) ++
        numbersTo (max s.start (s.stop - 31)) (min s.stop lines.length))
  | none => numbersTo (max 1 (center - 15)) (min lines.length (center + 15))

theorem mem_numbersTo {first last n : ℕ} (h : n ∈ numbersTo first last) : first ≤ n ∧ n ≤ last := by
  obtain ⟨hfirst, hlast⟩ := List.mem_range'_1.mp h
  omega

/-- Only lines of the source are taken. -/
theorem around_inside (lines : Source) (center : ℕ) (info : Info) :
    ∀ n ∈ around lines center info, 1 ≤ n ∧ n ≤ lines.length := by
  intro n hn
  unfold around at hn
  split at hn
  · rename_i s hs
    have hone := s.one
    split_ifs at hn with hshort
    · have := mem_numbersTo (List.mem_of_mem_drop hn)
      omega
    · rw [sortedSet, List.mem_mergeSort, List.mem_dedup, List.mem_append, List.mem_append] at hn
      rcases hn with (hn | hn) | hn
      · obtain ⟨hfirst, hlast⟩ := List.mem_range'_1.mp hn
        omega
      · have := mem_numbersTo hn
        omega
      · have := mem_numbersTo hn
        omega
  · have := mem_numbersTo hn
    omega

/-- Some lines of a source. -/
structure Chunk (sources : List (List Char × Source)) where
  path : List Char
  numbers : List ℕ
  lines : Source
  known : sources.lookup path = some lines
  inside : ∀ n ∈ numbers, 1 ≤ n ∧ n ≤ lines.length

/-- A chunk of some sources is one of all of them. -/
def Chunk.widen {safe : List (List Char × Source)} (c : Chunk safe)
    (related : List (List Char × Source)) : Chunk (safe ++ related) where
  path := c.path
  numbers := c.numbers
  lines := c.lines
  known := by rw [List.lookup_append, c.known, Option.some_or]
  inside := c.inside

/-- `zip_longest`, row by row. -/
def roundRobin {α : Type} (lists : List (List α)) : List α :=
  (List.range ((lists.map List.length).max?.getD 0)).flatMap fun k => lists.filterMap (·[k]?)

/-! ## Queries -/

/-- The lines around a change, with the names they use. -/
structure Query (sources : List (List Char × Source)) extends Chunk sources where
  identifiers : List (List Char)
  calls : List (List Char)

/-- What the changes of a file are grouped by. -/
inductive GroupKey where
  | span (start stop : ℕ)
  | near (block : ℤ)
  deriving DecidableEq

/-- `min` of nothing, an index that is out of range, or a missing key. -/
inductive Raised where
  | emptyRange | indexError | keyError
  deriving DecidableEq, Repr

def namesWithin (names : List (ℕ × List Char)) (start stop : ℕ) : List (List Char) :=
  ((names.filter fun n => start ≤ n.1 && n.1 ≤ stop).map Prod.snd).dedup

section Queries

variable {sources : List (List Char × Source)} (metadata : List (List Char × Info))

/-- The query of one changed row. The rows of a payload are numbered from one. -/
def queryOf (path : List Char) (lines : Source) (known : sources.lookup path = some lines)
    (info : Info) (line : ℤ) : Except Raised (Query sources) :=
  let numbers := around lines line.toNat info
  let bounds := match shortest (spansAt info line.toNat) with
    | some s => some (s.start, s.stop)
    | none => numbers.min?.bind fun least => numbers.max?.map fun most => (least, most)
  match bounds with
  | none => .error .emptyRange
  | some (start, stop) =>
    .ok ⟨⟨path, numbers, lines, known, around_inside lines line.toNat info⟩,
      namesWithin info.symbols start stop, namesWithin info.calls start stop⟩

def keyOf (info : Info) (line : ℤ) : GroupKey :=
  match shortest (spansAt info line.toNat) with
  | some s => .span s.start s.stop
  | none => .near (line / 30)

/-- The groups of a file after one of its rows. -/
def groupRow (path : List Char) (lines : Source) (known : sources.lookup path = some lines)
    (info : Info) (groups : List (GroupKey × Query sources)) (row : Row) :
    Except Raised (List (GroupKey × Query sources)) :=
  if !row.changed || (groups.lookup (keyOf info row.line)).isSome then .ok groups
  else (queryOf path lines known info row.line).map fun q =>
    groups ++ [(keyOf info row.line, q)]

/-- The queries of one file, which has a source with lines. -/
def fileQueries (sources : List (List Char × Source)) (paths : List (List Char × List Char))
    (f : File) : Except Raised (List (Query sources)) :=
  match paths.lookup f.fileId with
  | none => .error .keyError
  | some path =>
    match known : sources.lookup path with
    | none => .ok []
    | some lines =>
      if lines = [] then .ok []
      else (f.lines.foldlM (groupRow path lines known (infoOf metadata path)) []).map
        (·.map Prod.snd)

/-- At most eight queries, in turn from every file, and how many are left out. -/
def queries (sources : List (List Char × Source)) (paths : List (List Char × List Char))
    (files : List File) : Except Raised (List (Query sources) × ℕ) := do
  let perFile ← files.mapM (fileQueries metadata sources paths)
  let fair := roundRobin perFile
  return (fair.take 8, fair.length - 8)

end Queries

/-- The related files that are fetched: at most twelve, in turn from every query. -/
def chosenPaths (perGroup : List (List (List Char × ℕ))) : List (List Char) :=
  (roundRobin perGroup).foldl (fun chosen entry =>
    if entry.1 ∈ chosen ∨ 12 ≤ chosen.length then chosen else chosen ++ [entry.1]) []

/-! ## Candidates -/

/-- `"\n".join(lines[n - 1] for n in numbers)`, for lines that are there. -/
def codeOf (lines : Source) (numbers : List ℕ) : List Char :=
  Text.join ['\n'] (numbers.map fun n => lines[n - 1]?.getD [])

structure Candidate (sources : List (List Char × Source)) extends Chunk sources where
  score : ℕ
  isProtected : Bool
  groups : List ℕ

section Candidates

variable {sources : List (List Char × Source)} (metadata : List (List Char × Info))
  (identifiersIn : List Char → List (List Char))

/-- The order of two paths, by scalar values. -/
def pathBefore (p q : List Char) : Bool :=
  List.lex p q fun c d => decide (c.toNat < d.toNat)

/-- Protected ones first, then by score, path and numbers. -/
def Candidate.before (c d : Candidate sources) : Bool :=
  if c.isProtected ≠ d.isProtected then c.isProtected
  else if c.score ≠ d.score then d.score < c.score
  else if c.path ≠ d.path then pathBefore c.path d.path
  else !List.lex d.numbers c.numbers fun m n => decide (m < n)

/-- The lines that use identifiers of a query, with their number: the most first. -/
def hitsOf (lines : Source) (info : Info) (identifiers : List (List Char)) : List (ℕ × ℕ) :=
  let hits := (lines.zipIdx.map fun (line, i) =>
    (i + 1, ((identifiersIn line).dedup.filter (· ∈ identifiers)).length)).filter (·.2 ≠ 0)
  let sorted := hits.mergeSort fun h k => k.2 < h.2 || h.2 = k.2 && h.1 ≤ k.1
  if sorted ≠ [] then sorted
  else if info.spans = [] then [(1, 0)] else (info.spans.take 2).map fun s => (s.start, 0)

/-- The functions that a query calls. -/
def directOf (info : Info) (calls : List (List Char)) : List ℕ :=
  sortedSet ((info.spans.filter fun s => s.name ∈ calls).map Span.start)

/-- One more candidate of a file, of which there are four at most. -/
def addCandidate (path : List Char) (lines : Source) (known : sources.lookup path = some lines)
    (pathScore group : ℕ) (info : Info) (direct : List ℕ) (found : List (Candidate sources))
    (hit : ℕ × ℕ) : List (Candidate sources) :=
  let numbers := around lines hit.1 info
  if 4 ≤ found.length || (found.any fun c => c.numbers = numbers) ||
      14000 < Text.encodedLength (codeOf lines numbers) then found
  else
    found ++ [⟨⟨path, numbers, lines, known, around_inside lines hit.1 info⟩,
      pathScore + 8 * hit.2, hit.1 ∈ direct, [group]⟩]

def fileCandidates (identifiers calls : List (List Char)) (group : ℕ) (scored : List Char × ℕ) :
    List (Candidate sources) :=
  match known : sources.lookup scored.1 with
  | none => []
  | some lines =>
    if lines = [] then []
    else
      let info := infoOf metadata scored.1
      let direct := directOf info calls
      (direct.map (fun n => (n, 0)) ++ hitsOf identifiersIn lines info identifiers).foldl
        (addCandidate scored.1 lines known scored.2 group info direct) []

def candidates (paths : List (List Char × ℕ)) (identifiers calls : List (List Char)) (group : ℕ) :
    List (Candidate sources) :=
  ((paths.flatMap (fileCandidates metadata identifiersIn identifiers calls group)).mergeSort
    Candidate.before).take 24

/-- The changed files that define what a query calls, besides its own. -/
def calledPaths (changed : List (List Char)) (path : List Char) (calls : List (List Char)) :
    List (List Char) :=
  (changed.dedup.mergeSort fun p q => !pathBefore q p).filter fun p =>
    p ≠ path && (infoOf metadata p).spans.any fun s => s.name ∈ calls

/-- What candidates are told apart by. -/
def Chunk.key (c : Chunk sources) : List Char × List ℕ :=
  (c.path, c.numbers)

/-- A candidate that was offered by one more query, if it is the same. -/
def Candidate.join (c d : Candidate sources) : Candidate sources :=
  if d.key = c.key then { d with groups := sortedSet (d.groups ++ c.groups) } else d

/-- The pool after one more candidate. It holds 24 at most. -/
def mergeCandidate (merged : List (Candidate sources)) (c : Candidate sources) :
    List (Candidate sources) :=
  if merged.any fun d => d.key = c.key then merged.map c.join
  else if merged.length < 24 then merged ++ [c] else merged

/-- The candidates of each query. The two lists have one length. -/
def poolsOf {safe : List (List Char × Source)} (groups : List (Query safe))
    (perGroup : List (List (List Char × ℕ))) (changed : List (List Char)) :
    List (List (Candidate sources)) :=
  (groups.zip perGroup).zipIdx.map fun ((q, paths), i) =>
    candidates metadata identifiersIn
      ((q.path, 100) :: (calledPaths metadata changed q.path q.calls).map (fun p => (p, 90)) ++
        paths) q.identifiers q.calls i

/-- The candidates that are protected, or those that are not, in turn from every query. -/
def rowsOf (pools : List (List (Candidate sources))) (isProtected : Bool) :
    List (Candidate sources) :=
  roundRobin (pools.map fun pool => pool.filter fun c => c.isProtected = isProtected)

/-- `pool_for`. -/
def poolFor {safe : List (List Char × Source)} (groups : List (Query safe))
    (perGroup : List (List (List Char × ℕ))) (changed : List (List Char)) :
    List (Candidate sources) :=
  let pools := poolsOf metadata identifiersIn groups perGroup changed
  (rowsOf pools true ++ rowsOf pools false).foldl mergeCandidate []

/-- Whether the candidate of a place is protected. -/
def protectedAt (pool : List (Candidate sources)) (i : ℕ) : Bool :=
  pool[i]?.any (·.isProtected)

/-- `if index not in result: result.append(index)`. -/
def addIndex (result : List ℕ) (i : ℕ) : List ℕ :=
  if i ∈ result then result else result ++ [i]

/-- Protected chunks do not depend on a rank. The queries share the rest of the budget. -/
def prioritized (pool : List (Candidate sources)) (orders : List (List ℕ)) : List ℕ :=
  (roundRobin orders).foldl addIndex ((List.range pool.length).filter (protectedAt pool))

end Candidates

end Prism.Policy
