import Prism.Foundation.Lines

/-! Unified diffs: what a diff says of two texts, and how it is written. -/

namespace UnifiedDiff

section Lines

/-- A line of a text, with whether a newline ends it. -/
structure Line where
  content : List Char
  ended : Bool
  deriving DecidableEq, Repr

/-- The lines that follow the part `cur` of a line, which is held reversed. -/
def linesFrom (cur : List Char) : List Char → List Line
  | [] => if cur.isEmpty then [] else [⟨cur.reverse, false⟩]
  | c :: s => if c = '\n' then ⟨cur.reverse, true⟩ :: linesFrom [] s else linesFrom (c :: cur) s

/-- The lines of a text. Only a newline ends a line. -/
def lines (text : List Char) : List Line :=
  linesFrom [] text

end Lines

inductive Mark where
  | kept | deleted | added
  deriving DecidableEq, Repr

/-- One line of the body of a hunk. -/
structure Edit where
  mark : Mark
  line : Line
  deriving DecidableEq, Repr

def Edit.onBase (e : Edit) : Bool :=
  e.mark ≠ .added

def Edit.onHead (e : Edit) : Bool :=
  e.mark ≠ .deleted

structure Hunk where
  /-- The common lines before the hunk, which the diff leaves out. -/
  skipped : List Line
  edits : List Edit
  /-- What stands behind the ranges on the line of the header. -/
  heading : List Char
  /-- A count of one is left out. -/
  terse : Bool
  deriving DecidableEq, Repr

namespace Hunk

variable (h : Hunk)

def base : List Line :=
  h.skipped ++ (h.edits.filter Edit.onBase).map Edit.line

/-- The lines of the head, with whether the diff adds them. -/
def marked : List (Line × Bool) :=
  h.skipped.map (fun l => (l, false)) ++
    (h.edits.filter Edit.onHead).map fun e => (e.line, decide (e.mark = .added))

end Hunk

/-- The hunks of a diff and the common lines behind the last one. -/
structure Diff where
  hunks : List Hunk
  rest : List Line
  deriving DecidableEq, Repr

namespace Diff

variable (d : Diff)

def base : List Line :=
  d.hunks.flatMap Hunk.base ++ d.rest

def marked : List (Line × Bool) :=
  d.hunks.flatMap Hunk.marked ++ d.rest.map fun l => (l, false)

def head : List Line :=
  d.marked.map Prod.fst

/-- Line `n + 1` of the head is an added one. -/
def IsAdded (n : ℕ) : Prop :=
  d.marked[n]?.map Prod.snd = some true

end Diff

section Print

def Mark.sign : Mark → Char
  | .kept => ' '
  | .deleted => '-'
  | .added => '+'

def noNewline : List Char :=
  "\\ No newline at end of file".toList

def Edit.print (e : Edit) : List (List Char) :=
  (e.mark.sign :: e.line.content) :: if e.line.ended then [] else [noNewline]

/-- The range of `count` lines behind the first `before` ones. An empty range names the
line it stands behind. -/
def range (terse : Bool) (before count : ℕ) : List Char :=
  let start := Nat.toDigits 10 (if count = 0 then before else before + 1)
  if terse ∧ count = 1 then start else start ++ ',' :: Nat.toDigits 10 count

/-- The header of a hunk behind `old` lines of the base and `new` lines of the head. -/
def Hunk.header (h : Hunk) (old new : ℕ) : List Char :=
  "@@ -".toList ++ range h.terse old (h.edits.filter Edit.onBase).length ++
    " +".toList ++ range h.terse new (h.edits.filter Edit.onHead).length ++
    " @@".toList ++ h.heading

/-- The lines of a diff whose first hunk starts behind `old` and `new` lines. -/
def printHunks : ℕ → ℕ → List Hunk → List (List Char)
  | _, _, [] => []
  | old, new, h :: hs =>
    h.header (old + h.skipped.length) (new + h.skipped.length) ::
      (h.edits.flatMap Edit.print ++ printHunks (old + h.base.length) (new + h.marked.length) hs)

def Diff.print (d : Diff) : List Char :=
  (printHunks 0 0 d.hunks).flatMap fun l => l ++ ['\n']

end Print

/-- A unified diff between two texts. Its last newline may be left out. -/
structure Genuine (base head patch : List Char) (d : Diff) : Prop where
  base : lines base = d.base
  head : lines head = d.head
  headings : ∀ h ∈ d.hunks, '\n' ∉ h.heading
  patch : d.print = patch ∨ d.print = patch ++ ['\n']

end UnifiedDiff
