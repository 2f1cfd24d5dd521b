import Mathlib.Data.Finset.Insert
import Mathlib.Data.Rat.Defs
import Prism.Foundation.Glob
import Prism.Foundation.JsonReader
import Prism.Foundation.Procedure
import Prism.Model.Patch
import Prism.Model.Rules

/-! The static analysis of a snapshot: what `analyze` makes of the answers of GitHub. -/

namespace Prism.Pipeline

/-- What ends an analysis; `raised` is what its callees raise besides failures of GitHub. -/
inductive Fault where
  | gitHub (e : GitHubFailure)
  | valueError
  | keyError
  | attributeError
  | raised
  deriving DecidableEq, Repr

/-- `GitHubFailure(code)`. -/
def failed (code : Code) : Fault :=
  .gitHub ⟨code, none⟩

/-! ## Numbers -/

/-- The number a JSON literal with a fraction or an exponent denotes. -/
def decimalValue (literal : List Char) : ℚ :=
  let s := literal.dropWhile (· = '-')
  let whole := s.takeWhile Char.isDigit
  let s := s.drop whole.length
  let fraction := (s.drop 1).takeWhile fun c => s.head? = some '.' && c.isDigit
  let s := s.dropWhile fun c => c = '.' || c.isDigit
  let power := Nat.ofDigitChars 10 ((s.drop 1).filter Char.isDigit) 0
  let exponent : ℤ := if (s.drop 1).head? = some '-' then -power else power
  let value : ℚ := Nat.ofDigitChars 10 (whole ++ fraction) 0 * 10 ^ (exponent - fraction.length)
  if literal.head? = some '-' then -value else value

/-- Whether the double next to a number is `n`, which is below `2 ^ 53`. -/
def roundsTo (q : ℚ) (n : ℕ) : Bool :=
  let half : ℚ := 2 ^ Nat.log2 n / 9007199254740992
  if n = 0 then -(1 / 2 ^ 1075) ≤ q && q ≤ 1 / 2 ^ 1075
  else n - (if n = 2 ^ Nat.log2 n then half / 2 else half) ≤ q && q ≤ n + half

/-- `n == value`. -/
def equalsNat (n : ℕ) : Json → Bool
  | .int m => m = n
  | .bool b => b.toNat = n
  | .float literal => literal.any Char.isDigit && roundsTo (decimalValue literal) n
  | _ => false

/-! ## Changed lines -/

/-- The two counts and the new start of a header. A count that is left out is one. -/
def numbers (h : Patch.Header) : Option (ℕ × ℕ × ℕ) := do
  let old ← (h.oldCount.map Text.int).getD (some 1)
  let start ← Text.int h.newStart
  let new ← (h.newCount.map Text.int).getD (some 1)
  return (old, start, new)

/-- What the walk over a patch has counted. -/
structure Counts where
  lines : Finset ℕ
  added : ℕ
  removed : ℕ
  remainingOld : ℤ
  remainingNew : ℤ
  current : ℕ
  hunk : Bool
  deriving DecidableEq

namespace Counts

def start : Counts :=
  ⟨∅, 0, 0, 0, 0, 0, false⟩

/-- Why the walk ends before the last line: `return None`, or a number that is too long. -/
inductive Stop where
  | incomplete
  | valueError
  deriving DecidableEq

def checked (c : Counts) : Except Stop Counts :=
  if c.remainingNew < 0 ∨ c.remainingOld < 0 then .error .incomplete else .ok c

/-- The line of a header. -/
def opened (c : Counts) (h : Patch.Header) : Except Stop Counts :=
  if c.remainingOld ≠ 0 ∨ c.remainingNew ≠ 0 then .error .incomplete
  else match numbers h with
    | none => .error .valueError
    | some (old, start, new) =>
      checked { c with remainingOld := old, current := start, remainingNew := new, hunk := true }

/-- One turn of the loop. -/
def read (c : Counts) (line : List Char) : Except Stop Counts :=
  match Patch.header? line with
  | some h => c.opened h
  | none =>
    if line.head? = some '\\' then .ok c
    else if c.hunk ∧ line.head? = some '+' then
      checked { c with
        lines := insert c.current c.lines
        current := c.current + 1
        added := c.added + 1
        remainingNew := c.remainingNew - 1 }
    else if c.hunk ∧ line.head? = some '-' then
      checked { c with removed := c.removed + 1, remainingOld := c.remainingOld - 1 }
    else if c.hunk ∧ line.head? = some ' ' then
      checked { c with
        current := c.current + 1
        remainingNew := c.remainingNew - 1
        remainingOld := c.remainingOld - 1 }
    else .error .incomplete

/-- The end of `changed_lines`. -/
def result (c : Counts) (additions deletions : Json) : Option (Finset ℕ) :=
  if c.hunk ∧ c.remainingNew = 0 ∧ c.remainingOld = 0 ∧ equalsNat c.added additions ∧
      equalsNat c.removed deletions then some c.lines
  else none

end Counts

def changedLines (patch additions deletions : Json) : Except Fault (Option (Finset ℕ)) :=
  match patch with
  | .str patch =>
    if maxFile < patch.length then .ok none
    else match (Text.splitlines patch).foldlM Counts.read Counts.start with
      | .error .incomplete => .ok none
      | .error .valueError => .error .valueError
      | .ok c => .ok (c.result additions deletions)
  | _ => .ok none

/-! ## Paths and bytes -/

def safePath (path : Json) : Except Fault (List Char) :=
  match path with
  | .str path =>
    if ¬(1 ≤ Text.encodedLength path ∧ Text.encodedLength path ≤ 4096) ∨ path.head? = some '/' ∨
        '\\' ∈ path ∨ path.any (· ∈ ['\x00', '\r', '\n']) ∨
        (Text.splitOn '/' path).any (· ∈ [[], ['.'], ['.', '.']]) then
      .error (failed .githubInvalidPath)
    else .ok path
  | _ => .error (failed .githubInvalidPath)

/-- The value of a character of base 64. -/
def sextet (c : Char) : Option ℕ :=
  if 'A' ≤ c ∧ c ≤ 'Z' then some (c.toNat - 65)
  else if 'a' ≤ c ∧ c ≤ 'z' then some (c.toNat - 71)
  else if '0' ≤ c ∧ c ≤ '9' then some (c.toNat + 4)
  else if c = '+' then some 62
  else if c = '/' then some 63
  else none

/-- The bytes of the quanta of a text. Behind a whole quantum, `binascii` passes over any
number of padding characters. -/
def quanta : List Char → Option (List UInt8)
  | [] => some []
  | '=' :: s => if s.all (· = '=') then some [] else none
  | [a, b, '=', '='] => do
    let n := 64 * (← sextet a) + (← sextet b)
    return [.ofNat (n / 16)]
  | [a, b, c, '='] => do
    let n := 64 * (64 * (← sextet a) + (← sextet b)) + (← sextet c)
    return [.ofNat (n / 1024), .ofNat (n / 4 % 256)]
  | a :: b :: c :: d :: s => do
    let n := 64 * (64 * (64 * (← sextet a) + (← sextet b)) + (← sextet c)) + (← sextet d)
    return .ofNat (n / 65536) :: .ofNat (n / 256 % 256) :: .ofNat (n % 256) :: (← quanta s)
  | _ => none

/-- `base64.b64decode(s, validate=True)`, which refuses a text that begins with padding. -/
def b64decode (s : List Char) : Option (List UInt8) :=
  if s.head? = some '=' then none else quanta s

example : b64decode "aGkh".toList = some [104, 105, 33] ∧
    b64decode "aGkh=".toList = some [104, 105, 33] ∧ b64decode "aA===".toList = none := by
  decide +kernel

/-- The bytes whose SHA-1 names a blob. -/
def blobHeader (size : ℕ) : List UInt8 :=
  ("blob ".toList ++ Nat.toDigits 10 size).map (fun c => UInt8.ofNat c.toNat) ++ [0]

/-- `re.fullmatch("[0-9a-f]{40}", sha)`. -/
def isSha (sha : List Char) : Bool :=
  sha.length = 40 && sha.all fun c => ('0' ≤ c && c ≤ '9') || ('a' ≤ c && c ≤ 'f')

/-- `value.get(key, default)`. -/
def get (value : Json) (key : String) (default : Json) : Except Fault Json :=
  match value with
  | .obj ms => .ok ((Json.member? ms key.toList).getD default)
  | _ => .error .attributeError

/-- The text a value is, which is what it is equal to. -/
def text? : Json → Option (List Char)
  | .str s => some s
  | _ => none

/-- Whether a value counts as true. -/
def truthy : Json → Bool
  | .null => false
  | .bool b => b
  | .int n => n ≠ 0
  | .float literal => !equalsNat 0 (.float literal)
  | .str s => !s.isEmpty
  | .arr js => !js.isEmpty
  | .obj ms => !ms.isEmpty

/-! ## The run -/

structure Snapshot where
  number : ℕ
  baseSha : List Char
  headSha : List Char
  deriving DecidableEq, Repr

/-- What `analyze` asks of GitHub under the prefix of the repository. -/
inductive Ask where
  | pull (number : ℕ)
  | files (number : ℕ)
  | commit (sha : List Char)
  | tree (sha : List Char)
  | blob (sha : List Char)
  deriving DecidableEq, Repr

/-- What happened in a run: the answers of GitHub and the checkpoints that were passed. -/
inductive Event where
  | answered (ask : Ask) (answer : Except Fault Json)
  | checked

abbrev Log := List Event

/-- Trees that were read, by their SHA. -/
abbrev Trees := List (List Char × List Json)

structure State where
  log : Log
  trees : Trees

/-- The world of a run. What it answers may depend on all that happened before. -/
structure World where
  installationToken : Except Fault (List Char)
  answer : Log → Ask → Except Fault Json
  checkpoint : Log → Except Fault Unit
  /-- `parse_file`, which raises no failure of GitHub. -/
  parseFile : List Char → List UInt8 → Bool → Option Evaluation
  /-- `hashlib.sha1(..).hexdigest()`. -/
  sha1 : List UInt8 → List Char
  /-- `digest`. -/
  digest : Json → String

abbrev Run := Procedure State Fault

/-- A check that raises nothing but its failure. -/
def give {α : Type} (r : Except Fault α) : Run α :=
  Procedure.give r

variable (w : World) (snap : Snapshot)

def checkpoint : Run Unit := do
  let r ← Procedure.read fun s => w.checkpoint s.log
  give r
  Procedure.write fun s => { s with log := s.log ++ [.checked] }

def request (ask : Ask) : Run Json := do
  let r ← Procedure.read fun s => w.answer s.log ask
  Procedure.write fun s => { s with log := s.log ++ [.answered ask r] }
  give r

/-- The number of changed files of a pull request that still is the snapshot. -/
def countOf (row : Json) : Except Fault ℕ := do
  let .obj _ := row | .error (failed .snapshotChanged)
  let base ← get (← get row "base" (.obj [])) "sha" .null
  if text? base ≠ some snap.baseSha then .error (failed .snapshotChanged)
  else
    let head ← get (← get row "head" (.obj [])) "sha" .null
    if text? head ≠ some snap.headSha then .error (failed .snapshotChanged)
    else match ← get row "changed_files" .null with
      | .int count => if count < 0 then .error (failed .githubInvalidResponse) else .ok count.toNat
      | _ => .error (failed .githubInvalidResponse)

def verify : Run ℕ := do
  checkpoint w
  let row ← request w (.pull snap.number)
  give (countOf snap row)

/-- The files GitHub lists, as many as are asked for. -/
def changesOf (count : ℕ) (changes : Json) : Except Fault (List Json) :=
  match changes with
  | .arr items =>
    if items.length = min count maxFiles then .ok items
    else .error (failed .githubIncompleteFileList)
  | _ => .error (failed .githubIncompleteFileList)

/-- The SHA under a key, in its usual form. -/
def shaOf (value : Json) : Except Fault (List Char) :=
  match value with
  | .str sha => if isSha sha then .ok sha else .error (failed .sourceUnavailable)
  | _ => .error (failed .sourceUnavailable)

/-- The tree of the head commit. -/
def rootOf (commit : Json) : Except Fault (List Char) :=
  match commit with
  | .obj _ => do shaOf (← get (← get commit "tree" (.obj [])) "sha" .null)
  | _ => .error (failed .sourceUnavailable)

/-- The entries of an answer that is a whole tree. -/
def entriesOf (tree : Json) : Except Fault (List Json) :=
  match tree with
  | .obj _ => do
    if truthy (← get tree "truncated" .null) then .error (failed .sourceUnavailable)
    else match ← get tree "tree" .null with
      | .arr entries => .ok entries
      | _ => .error (failed .sourceUnavailable)
  | _ => .error (failed .sourceUnavailable)

/-- `next((v for v in entries if v.get("path") == part), None)`. -/
def entryNamed (part : List Char) : List Json → Except Fault (Option Json)
  | [] => .ok none
  | v :: vs => do
    if text? (← get v "path" .null) = some part then .ok (some v) else entryNamed part vs

/-- The entries of a tree, which is asked for once. -/
def treeOf (sha : List Char) : Run (List Json) := do
  match ← Procedure.read fun s => s.trees.lookup sha with
  | some entries => return entries
  | none =>
    let entries ← give (entriesOf (← request w (.tree sha)))
    Procedure.write fun s => { s with trees := s.trees ++ [(sha, entries)] }
    return entries

/-- The tree an inner part of a path leads to. -/
def subtree (item : Json) : Except Fault (List Char) := do
  if text? (← get item "type" .null) ≠ some "tree".toList then .error (failed .sourceUnavailable)
  else shaOf (← get item "sha" .null)

/-- `entry`, from a tree along the rest of a path. -/
def walkFrom (sha : List Char) : List (List Char) → Run Json
  | [] => Procedure.raise (failed .sourceUnavailable)
  | part :: parts => do
    checkpoint w
    let entries ← treeOf w sha
    match ← give (entryNamed part entries) with
    | none => Procedure.raise (failed .sourceUnavailable)
    | some item => if parts = [] then return item else walkFrom (← give (subtree item)) parts

/-! ## One file -/

/-- What the loop knows of a file: its evaluation, the blob it was read from and its size. -/
structure Outcome where
  result : Evaluation
  sourceSha : Option (List Char)
  size : ℕ

/-- `Evaluation(language=language_for(path), status=status, reason=reason)`. -/
def unread (path : List Char) (status : FileStatus) (reason : FileReason) : Outcome :=
  ⟨⟨languageFor path, status, some reason, [], [], [], false⟩, none, 0⟩

/-- Whether an entry of a tree is a regular file. -/
def regular (item : Json) : Except Fault Bool := do
  let mode ← get item "mode" .null
  let type ← get item "type" .null
  return (text? mode = some "100644".toList || text? mode = some "100755".toList) &&
    text? type = some "blob".toList

/-- The bytes of a blob of a size and a SHA. -/
def sourceOf (size : ℕ) (sha : List Char) (blob : Json) : Except Fault (List UInt8) :=
  match blob with
  | .obj _ => do
    let encoding ← get blob "encoding" .null
    match ← get blob "content" .null with
    | .str content =>
      if text? encoding ≠ some "base64".toList ∨ maxFile * 2 < content.length then
        .error (failed .sourceUnavailable)
      else match b64decode (content.filter (· ≠ '\n')) with
        | none => .error (failed .sourceUnavailable)
        | some source =>
          if source.length ≠ size ∨ w.sha1 (blobHeader size ++ source) ≠ sha then
            .error (failed .sourceUnavailable)
          else .ok source
    | _ => .error (failed .sourceUnavailable)
  | _ => .error (failed .sourceUnavailable)

/-- The bytes of an entry that is small enough, parsed. -/
def readBlob (ignored : List (List Char)) (path : List Char) (item : Json) (size : ℕ) :
    Run Outcome := do
  let sha ← give (do shaOf (← get item "sha" .null))
  checkpoint w
  let blob ← request w (.blob sha)
  let source ← give (sourceOf w size sha blob)
  match w.parseFile path source (ignored.any (Glob.fnmatchcase path)) with
  | none => Procedure.raise .raised
  | some result => return ⟨result, some sha, source.length⟩

/-- The body of the `try`. -/
def evaluateFile (root : List Char) (ignored : List (List Char)) (total : ℕ) (path : List Char) :
    Run Outcome := do
  let item ← walkFrom w root (Text.splitOn '/' path)
  let size ← give (get item "size" .null)
  if !(← give (regular item)) then return unread path .excluded .nonRegularFile
  else match size with
    | .int size =>
      if size < 0 then Procedure.raise (failed .sourceUnavailable)
      else if maxFile < size ∨ maxTotal < total + size then
        return unread path .limitExceeded .sourceSizeLimit
      else readBlob w ignored path item size.toNat
    | _ => Procedure.raise (failed .sourceUnavailable)

/-- The handler of the `try`. -/
def absorb (path : List Char) (fault : Fault) : Run Outcome :=
  match fault with
  | .gitHub e =>
    if e.code = .githubAccessUnavailable ∨ e.code = .githubRateLimit ∨
        e.code = .githubUnavailable then Procedure.raise fault
    else return unread path .sourceUnavailable .sourceUnavailable
  | _ => Procedure.raise fault

/-- What becomes of a file. -/
def outcomeOf (root : List Char) (ignored : List (List Char)) (total : ℕ) (path : List Char)
    (removed : Bool) : Run Outcome :=
  if removed then pure (unread path .excluded .removed)
  else Procedure.attempt (evaluateFile w root ignored total path) (absorb path)

/-- Whether a file keeps the run from being complete. -/
def limited (result : Evaluation) : Bool :=
  !(result.status = .included || result.status = .excluded) || result.limit ||
    !result.notEvaluated.isEmpty || result.reason = some .secretScanOnly ||
    result.reason = some .ignoredSourceRules || result.reason = some .generatedSecretScanOnly

def outcomesOf (result : Evaluation) : List RuleOutcome :=
  (applicable result.language).filterMap fun r => (rule? r).map fun rule =>
    { ruleId := r
      ruleVersion := rule.version
      evaluated := r ∈ result.evaluated
      reasonCode := if r ∈ result.evaluated then none else result.reason }

def fileOf (path : List Char) (removed : Bool) (o : Outcome) : FileEntry where
  filePath := String.ofList path
  pathDigest := w.digest (.str path)
  side := if removed then .base else .head
  language := o.result.language
  sourceSha := o.sourceSha.map String.ofList
  status := o.result.status
  reasonCode := o.result.reason
  findingLimitReached := o.result.limit
  ruleOutcomes := outcomesOf o.result

def findingOf (path : List Char) (ranges : Option (Finset ℕ)) (language : Option Language)
    (f : Observed) : Except Fault FindingEntry :=
  match rule? f.ruleId with
  | none => .error .keyError
  | some rule => .ok
    { ruleId := rule.id
      ruleVersion := rule.version
      category := rule.category
      severity := rule.severity
      confidence := rule.confidence
      language
      filePath := String.ofList path
      startLine := some f.startLine
      endLine := some f.endLine
      side := .head
      scopeLocation :=
        if rule.id = "COM-001" then .file
        else if ranges.any fun lines => decide (∃ v ∈ lines, f.startLine ≤ v ∧ v ≤ f.endLine) then
          .changed
        else .context
      messageCode := rule.id
      sanitizedMessage := rule.message
      fingerprint := w.digest (.arr [.str rule.id.toList, .str path, .int f.startLine,
        .int f.endLine]) }

/-! ## The loop -/

structure Progress where
  files : List FileEntry
  findings : List FindingEntry
  total : ℕ
  limited : Bool
  paths : List (List Char)

/-- One turn of the loop. -/
def analyzeChange (root : List Char) (ignored : List (List Char)) (p : Progress) (change : Json) :
    Run Progress := do
  checkpoint w
  let .obj _ := change | Procedure.raise (failed .githubInvalidResponse)
  let path ← give (do safePath (← get change "filename" .null))
  if path ∈ p.paths then Procedure.raise (failed .githubInvalidResponse)
  else
    let ranges ← give (do
      changedLines (← get change "patch" .null) (← get change "additions" .null)
        (← get change "deletions" .null))
    let status ← give (get change "status" .null)
    let removed := text? status = some "removed".toList
    let o ← outcomeOf w root ignored p.total path removed
    let findings ← give (o.result.findings.mapM (findingOf w path ranges o.result.language))
    return {
      files := p.files ++ [fileOf w path removed o]
      findings := p.findings ++ findings
      total := p.total + o.size
      limited := p.limited || Pipeline.limited o.result
      paths := p.paths ++ [path] }

/-- The end of `analyze`. -/
def resultOf (count : ℕ) (p : Progress) : Result :=
  let included := p.files.any fun f => f.status = .included
  let supported := p.files.any fun f => f.status = .included && f.language.isSome
  { files := p.files
    findings := p.findings
    coverage := if !supported then .none else if p.limited then .partialScope else .fullScope
    reason :=
      if included && !supported then some .noSupportedFiles
      else if maxFiles < count then some .fileLimit
      else if p.limited then some .incompleteScope
      else if included then none else some .noEvaluatedFiles }

def analyze (ignored : List (List Char)) : Run Result := do
  checkpoint w
  let _ ← give w.installationToken
  let count ← verify w snap
  let changes ← give (changesOf count (← request w (.files snap.number)))
  checkpoint w
  let root ← give (rootOf (← request w (.commit snap.headSha)))
  let p ← changes.foldlM (analyzeChange w root ignored) ⟨[], [], 0, maxFiles < count, []⟩
  let _ ← verify w snap
  return resultOf count p

end Prism.Pipeline
