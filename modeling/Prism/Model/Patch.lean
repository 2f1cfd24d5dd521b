import Prism.Foundation.Text

/-! The headers of hunks in the patches GitHub gives. -/

namespace Prism.Patch

/-- The groups of `^@@ -\d+(?:,(\d+))? \+(\d+)(?:,(\d+))? @@`. -/
structure Header where
  oldCount : Option (List Char)
  newStart : List Char
  newCount : Option (List Char)
  deriving DecidableEq, Repr

structure Range where
  start : List Char
  count : Option (List Char)
  deriving DecidableEq, Repr

/-- A text that starts with `\d+(?:,(\d+))?`, and what follows. -/
def readRange (s : List Char) : Option (Range × List Char) :=
  let start := s.takeWhile Text.isDecimal
  let rest := s.drop start.length
  if start = [] then none
  else match Text.after [','] rest with
    | none => some (⟨start, none⟩, rest)
    | some t =>
      let count := t.takeWhile Text.isDecimal
      if count = [] then some (⟨start, none⟩, rest)
      else some (⟨start, some count⟩, t.drop count.length)

def header? (line : List Char) : Option Header := do
  let (old, s) ← readRange (← Text.after "@@ -".toList line)
  let (new, s) ← readRange (← Text.after " +".toList s)
  let _ ← Text.after " @@".toList s
  return ⟨old.count, new.start, new.count⟩

end Prism.Patch
