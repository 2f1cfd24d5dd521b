import Prism.Foundation.Json
import Prism.Model.ContentSafety

/-! Team documents: their input, the index of their sections and the checks of a
new document. -/

namespace Prism.Standards

open Text (strip splitlines encodedLength slices splitOn)

inductive RuleKind where
  | nameSuffix | pathPrefix | forbiddenImport
  deriving DecidableEq, Repr

structure Rule where
  kind : RuleKind
  value : List Char
  /-- The id of the section the rule is taken from. -/
  source : List Char
  includes : List (List Char) := ["**".toList]
  excludes : List (List Char) := []
  deriving DecidableEq, Repr

inductive DocumentKind where
  | convention | projectStructure
  deriving DecidableEq, Repr

structure DocumentInput where
  title : List Char
  kind : DocumentKind
  content : List Char
  includes : List (List Char) := ["**".toList]
  excludes : List (List Char) := []
  required : Bool := false
  rules : List Rule := []
  expectedVersion : ℤ := 0
  deriving DecidableEq, Repr

section Index

structure Section where
  id : List Char
  heading : List Char
  text : List Char
  deriving DecidableEq, Repr

/-- The state of the loop over the lines of a document. -/
structure Indexing where
  sections : List Section := []
  title : List Char := "문서".toList
  lines : List (List Char) := []
  fence : List Char := []
  deriving DecidableEq, Repr

/-- The fence and the rest of a line that matches `^ {0,3}(\x60{3,}|~{3,})(.*)$`. -/
def marker (line : List Char) : Option (List Char × List Char) :=
  let indent := line.takeWhile (· = ' ')
  let body := line.drop indent.length
  match body with
  | [] => none
  | c :: _ =>
    let run := body.takeWhile (· = c)
    if indent.length ≤ 3 ∧ (c = '\x60' ∨ c = '~') ∧ 3 ≤ run.length then
      some (run, body.drop run.length)
    else none

/-- The title of a line that matches `^#{1,6}\s+(.+)$`. -/
def headingOf (line : List Char) : Option (List Char) :=
  let hashes := line.takeWhile (· = '#')
  let body := line.drop hashes.length
  let spaces := body.takeWhile Text.isSpace
  let title := body.drop spaces.length
  if hashes.length = 0 ∨ 6 < hashes.length ∨ spaces = [] then none
  else if title ≠ [] then some title
  -- Only spaces follow: the last of them is left to the title.
  else if 2 ≤ spaces.length then some (spaces.drop (spaces.length - 1))
  else none

/-- The fence after a line: it is closed by a marker of its kind, at least as long,
with nothing behind it, and opened by a marker outside any fence. -/
def nextFence (fence line : List Char) : List Char :=
  match marker line with
  | none => fence
  | some (run, rest) =>
    if fence ≠ [] then
      if run.head? = fence.head? ∧ fence.length ≤ run.length ∧ strip rest = [] then []
      else fence
    else if run.head? ≠ some '\x60' ∨ '\x60' ∉ rest then run
    else []

/-- `flush`: the collected lines become sections of at most 1200 scalar values. -/
def flush (s : Indexing) : Indexing :=
  let body := strip (List.intercalate ['\n'] s.lines)
  let texts := slices 1200 body
  { s with
    sections := s.sections ++ texts.zipIdx.map fun (text, i) =>
      ⟨'s' :: Nat.toDigits 10 (s.sections.length + i + 1), s.title, text⟩ }

def indexLine (s : Indexing) (line : List Char) : Indexing :=
  let s := { s with fence := nextFence s.fence line }
  match if s.fence = [] then headingOf line else none with
  | some heading => { flush s with title := heading.take 160, lines := [] }
  | none => { s with lines := s.lines ++ [line] }

def indexDocument (content : List Char) : List Section :=
  (flush ((splitlines content).foldl indexLine {})).sections

end Index

section Dump

def RuleKind.label : RuleKind → List Char
  | .nameSuffix => "NAME_SUFFIX".toList
  | .pathPrefix => "PATH_PREFIX".toList
  | .forbiddenImport => "FORBIDDEN_IMPORT".toList

def DocumentKind.label : DocumentKind → List Char
  | .convention => "CONVENTION".toList
  | .projectStructure => "STRUCTURE".toList

def patternsJson (patterns : List (List Char)) : Json :=
  .arr (patterns.map .str)

def Rule.toJson (r : Rule) : Json :=
  .obj [("kind".toList, .str r.kind.label), ("value".toList, .str r.value),
    ("section".toList, .str r.source), ("include".toList, patternsJson r.includes),
    ("exclude".toList, patternsJson r.excludes)]

def DocumentInput.toJson (d : DocumentInput) : Json :=
  .obj [("title".toList, .str d.title), ("kind".toList, .str d.kind.label),
    ("content".toList, .str d.content), ("include".toList, patternsJson d.includes),
    ("exclude".toList, patternsJson d.excludes), ("required".toList, .bool d.required),
    ("rules".toList, .arr (d.rules.map Rule.toJson)),
    ("expected_version".toList, .int d.expectedVersion)]

/-- `self.model_dump_json()`. -/
def DocumentInput.dump (d : DocumentInput) : List Char :=
  d.toJson.print Json.compact

end Dump

section Checks

/-- `min_length=1, max_length=bound` of a text or a list. -/
def sized {α : Type} (bound : ℕ) (items : List α) : Bool :=
  1 ≤ items.length && items.length ≤ bound

/-- `^s[1-9][0-9]{0,3}$`. -/
def isSectionId (id : List Char) : Bool :=
  match id with
  | 's' :: d :: digits =>
    '1' ≤ d && d ≤ '9' && digits.length ≤ 3 && digits.all fun c => '0' ≤ c && c ≤ '9'
  | _ => false

def Rule.fields (r : Rule) : Bool :=
  sized 160 r.value && isSectionId r.source && sized 8 r.includes && r.excludes.length ≤ 8

def DocumentInput.fields (d : DocumentInput) : Bool :=
  sized 120 d.title && sized 65536 d.content && sized 8 d.includes && d.excludes.length ≤ 8 &&
    d.rules.length ≤ 20 && d.rules.all Rule.fields && 0 ≤ d.expectedVersion

def isControl (c : Char) : Bool :=
  c.toNat < 32

/-- What the first check asks of the texts, the search for secrets apart. -/
def DocumentInput.readable (d : DocumentInput) : Bool :=
  !(strip d.title).isEmpty && !(strip d.content).isEmpty && encodedLength d.content ≤ 65536 &&
    !d.content.any fun c => isControl c && c ∉ ['\n', '\r', '\t']

def Rule.plainValue (r : Rule) : Bool :=
  !(r.value.any isControl) && '\\' ∉ r.value

/-- A pattern of a relative path inside the repository. -/
def isRelative (p : List Char) : Bool :=
  !p.isEmpty && p.length ≤ 160 && '\\' ∉ p && p.head? ≠ some '/' &&
    "..".toList ∉ splitOn '/' p && !(p.any isControl)

def DocumentInput.patterns (d : DocumentInput) : List (List Char) :=
  d.includes ++ d.excludes ++ d.rules.flatMap fun r => r.includes ++ r.excludes

/-- The model validator of a document, with the texts of its errors. -/
def DocumentInput.safe (d : DocumentInput) : Except String DocumentInput :=
  if !d.readable || ContentSafety.secret.search d.dump then
    .error "문서는 비밀정보가 없는 UTF-8 텍스트 64KiB 이하여야 합니다."
  else if !d.rules.all Rule.plainValue then
    .error "규칙 값이 올바르지 않습니다."
  else if !d.patterns.all isRelative then
    .error "저장소 안의 상대 경로 패턴을 사용해 주세요."
  else
    let ids := (indexDocument d.content).map Section.id
    if ids.isEmpty then
      .error "제목 아래에 규칙 내용을 입력해 주세요."
    else if !d.rules.all fun r => r.source ∈ ids then
      .error "규칙의 근거 섹션을 선택해 주세요."
    else .ok d

/-- Validation runs `safe` on values whose fields keep their own constraints. -/
def DocumentInput.accepts (d : DocumentInput) : Bool :=
  d.fields && d.safe.isOk

end Checks

end Prism.Standards
