import Prism.Model.Evidence
import Prism.Model.Standards
import Mathlib.Order.Defs.LinearOrder

/-! The sections of the team's documents a review is shown, `retrieve` and `context`. What
relevance a section has to a query is a parameter. -/

namespace Prism.Standards

open Policy (StandardSection encodedSize)

/-! ## `retrieve` -/

def maxContext : ℤ := 12 * 1024

inductive RetrieveError where
  | requiredTooLarge
  deriving DecidableEq, Repr

/-- A candidate with its relevance and its place. -/
structure Scored (S : Type) where
  item : StandardSection
  score : S
  index : ℕ

structure Retrieved where
  sections : List StandardSection
  candidateCount : ℕ
  omittedSections : ℤ
  method : List Char
  scopeFallback : Bool

/-- `len(json.dumps(sections, ensure_ascii=False).encode())`. -/
def sectionsSize (sections : List StandardSection) : ℕ :=
  encodedSize (.arr (sections.map StandardSection.toJson))

section Retrieve

variable {S : Type} [LinearOrder S]

/-- Required sections first, then by relevance, then by place. -/
def Scored.before (a b : Scored S) : Bool :=
  if a.item.required ≠ b.item.required then a.item.required
  else if a.score ≠ b.score then b.score < a.score
  else a.index ≤ b.index

def scoredSections (score : StandardSection → S) (candidates : List StandardSection) :
    List (Scored S) :=
  (candidates.zipIdx.map fun (item, i) => ⟨item, score item, i⟩).mergeSort Scored.before

variable [Zero S]

/-- No section is required, and none is relevant. -/
def scopeFallback (scored : List (Scored S)) : Bool :=
  !scored.isEmpty && !scored.any fun s => s.item.required || 0 < s.score

/-- The chosen sections after one more. -/
def choose (limit : ℤ) (fallback : Bool) (chosen : List StandardSection) (s : Scored S) :
    Except RetrieveError (List StandardSection) :=
  if !s.item.required && (s.score ≤ 0 && !fallback || 12 ≤ chosen.length) then .ok chosen
  else if limit < sectionsSize (chosen ++ [s.item]) then
    if s.item.required then .error .requiredTooLarge else .ok chosen
  else .ok (chosen ++ [s.item])

def retrieve (score : StandardSection → S) (candidates : List StandardSection) (maxBytes : ℤ) :
    Except RetrieveError Retrieved :=
  let scored := scoredSections score candidates
  (scored.foldlM (choose (min maxBytes maxContext) (scopeFallback scored)) []).map fun chosen =>
    { sections := chosen
      candidateCount := candidates.length
      omittedSections := candidates.length - chosen.length
      method := "PATH_BM25_V1".toList
      scopeFallback := scopeFallback scored }

end Retrieve

/-! ## `context` -/

/-- A version of a document, as it was when the review was requested. -/
structure StandardSnapshot where
  id : List Char
  documentId : List Char
  version : ℤ
  title : List Char
  kind : List Char
  includes : List (List Char)
  excludes : List (List Char)
  required : Bool
  sections : List Section

/-- `matches`: the prefix of a pattern that stands for any directories may be left out. -/
def isMatch (path : List Char) (patterns : List (List Char)) : Bool :=
  patterns.any fun p => Glob.fnmatchcase path p ||
    ("**/".toList.isPrefixOf p && Glob.fnmatchcase path (p.drop 3))

/-- The sections of a document, for the files it is about. -/
def StandardSnapshot.candidates (doc : StandardSnapshot)
    (paths : List (List Char × List Char)) : List StandardSection :=
  let fileIds := (paths.filter fun f => isMatch f.2 doc.includes && !isMatch f.2 doc.excludes).map
    Prod.fst
  if fileIds.isEmpty then []
  else doc.sections.map fun s =>
    { id := doc.id ++ ':' :: s.id
      documentId := doc.documentId
      versionId := doc.id
      version := doc.version
      title := doc.title
      kind := doc.kind
      sectionId := s.id
      heading := s.heading
      text := s.text
      required := doc.required
      fileIds }

/-- The retrieved sections. The list of the documents is added to them. -/
def context {S : Type} [LinearOrder S] [Zero S] (score : StandardSection → S)
    (documents : List StandardSnapshot) (paths : List (List Char × List Char)) (maxBytes : ℤ) :
    Except RetrieveError Retrieved :=
  retrieve score (documents.flatMap (·.candidates paths)) maxBytes

end Prism.Standards
