import Prism.Foundation.Text

/-! The shell patterns of `fnmatchcase`. -/

namespace Glob

inductive Item where
  | star
  | any
  | set (negated : Bool) (ranges : List (Char × Char))
  | char (c : Char)
  deriving DecidableEq, Repr

/-- The ranges between two brackets. A hyphen at an end stands for itself. -/
def ranges : List Char → List (Char × Char)
  | [] => []
  | c :: '-' :: d :: s => (c, d) :: ranges s
  | c :: s => (c, c) :: ranges s

/-- The set opened by a bracket, and what follows it. A closing bracket at the start
is a member. -/
def readSet (s : List Char) : Option (Item × List Char) :=
  let negated := s.head? = some '!'
  let body := if negated then s.tail else s
  let first := if body.head? = some ']' then [']'] else []
  let run := (body.drop first.length).takeWhile (· ≠ ']')
  match (body.drop first.length).drop run.length with
  | [] => none
  | _ :: rest => some (.set negated (ranges (first ++ run)), rest)

/-- The items of a pattern. The fuel is its length. -/
def parse : ℕ → List Char → List Item
  | 0, _ => []
  | _, [] => []
  | n + 1, c :: s =>
    if c = '*' then .star :: parse n s
    else if c = '?' then .any :: parse n s
    else if c = '[' then
      match readSet s with
      | some (item, rest) => item :: parse n rest
      | none => .char c :: parse n s
    else .char c :: parse n s

def Item.accepts : Item → Char → Bool
  | star, _ => false
  | any, _ => true
  | set negated rs, c => (rs.any fun r => r.1 ≤ c && c ≤ r.2) != negated
  | char d, c => c = d

def accepts : List Item → List Char → Bool
  | [], s => s.isEmpty
  | .star :: items, s => s.tails.any (accepts items)
  | _ :: _, [] => false
  | item :: items, c :: s => item.accepts c && accepts items s

/-- `fnmatchcase(name, pattern)`. -/
def fnmatchcase (name pattern : List Char) : Bool :=
  accepts (parse pattern.length pattern) name

example : fnmatchcase "src/a.py".toList "*.[pj][!x]".toList = true := by
  decide +kernel

end Glob
