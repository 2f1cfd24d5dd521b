import Mathlib.Algebra.GroupWithZero.Nat
import Mathlib.Data.List.Infix

/-! Operations of Python's `str` on lists of scalar values. -/

namespace Text

instance instLawfulBEq : LawfulBEq (List Char) :=
  inferInstance

/-- `str.isspace` of one scalar value, which is also what `\s` matches. -/
def isSpace (c : Char) : Bool :=
  let n := c.toNat
  (9 ≤ n && n ≤ 13) || (28 ≤ n && n ≤ 32) || n == 0x85 || n == 0xA0 || n == 0x1680 ||
    (0x2000 ≤ n && n ≤ 0x200A) || n == 0x2028 || n == 0x2029 || n == 0x202F || n == 0x205F ||
    n == 0x3000

/-- `s.strip()`. -/
def strip (s : List Char) : List Char :=
  ((s.dropWhile isSpace).reverse.dropWhile isSpace).reverse

/-- The boundaries `splitlines` recognises, besides the pair CR LF. -/
def isLineBreak (c : Char) : Bool :=
  let n := c.toNat
  (10 ≤ n && n ≤ 13) || (28 ≤ n && n ≤ 30) || n == 0x85 || n == 0x2028 || n == 0x2029

/-- The lines that follow the part `cur` of a line, which is held reversed. -/
def linesAfter (cur : List Char) : List Char → List (List Char)
  | [] => if cur.isEmpty then [] else [cur.reverse]
  | '\r' :: '\n' :: s => cur.reverse :: linesAfter [] s
  | c :: s => if isLineBreak c then cur.reverse :: linesAfter [] s else linesAfter (c :: cur) s

/-- `s.splitlines()`. -/
def splitlines (s : List Char) : List (List Char) :=
  linesAfter [] s

/-- `len(s.encode())`. -/
def encodedLength (s : List Char) : ℕ :=
  (s.map Char.utf8Size).sum

/-- `[s[i : i + n] for i in range(0, len(s), n)]`. -/
def slices (n : ℕ) (s : List Char) : List (List Char) :=
  (List.range ((s.length + n - 1) / n)).map fun i => (s.drop (n * i)).take n

/-- `s.split(sep)` for a separator of one scalar value. -/
def splitOn (sep : Char) : List Char → List (List Char)
  | [] => [[]]
  | c :: s =>
    if c = sep then [] :: splitOn sep s
    else match splitOn sep s with
      | [] => [[c]]
      | part :: parts => (c :: part) :: parts

/-- The words that follow the part `cur` of a word, which is held reversed. -/
def wordsAfter (cur : List Char) : List Char → List (List Char)
  | [] => if cur.isEmpty then [] else [cur.reverse]
  | c :: s =>
    if isSpace c then if cur.isEmpty then wordsAfter [] s else cur.reverse :: wordsAfter [] s
    else wordsAfter (c :: cur) s

/-- `s.split()`. -/
def words (s : List Char) : List (List Char) :=
  wordsAfter [] s

/-- Where the runs of decimal digits start, the ones `\d` matches (Unicode 15.0). -/
def decimalZeros : List ℕ :=
  [0x30, 0x660, 0x6F0, 0x7C0, 0x966, 0x9E6, 0xA66, 0xAE6, 0xB66, 0xBE6, 0xC66, 0xCE6, 0xD66,
    0xDE6, 0xE50, 0xED0, 0xF20, 0x1040, 0x1090, 0x17E0, 0x1810, 0x1946, 0x19D0, 0x1A80, 0x1A90,
    0x1B50, 0x1BB0, 0x1C40, 0x1C50, 0xA620, 0xA8D0, 0xA900, 0xA9D0, 0xA9F0, 0xAA50, 0xABF0,
    0xFF10, 0x104A0, 0x10D30, 0x11066, 0x110F0, 0x11136, 0x111D0, 0x112F0, 0x11450, 0x114D0,
    0x11650, 0x116C0, 0x11730, 0x118E0, 0x11950, 0x11C50, 0x11D50, 0x11DA0, 0x11F50, 0x16A60,
    0x16AC0, 0x16B50, 0x1D7CE, 0x1D7D8, 0x1D7E2, 0x1D7EC, 0x1D7F6, 0x1E140, 0x1E2F0, 0x1E4F0,
    0x1E950, 0x1FBF0]

def decimal? (c : Char) : Option ℕ :=
  (decimalZeros.find? fun z => z ≤ c.toNat && c.toNat < z + 10).map fun z => c.toNat - z

def isDecimal (c : Char) : Bool :=
  (decimal? c).isSome

/-- `int(digits)` of a run of digits, which may have 4300 of them. -/
def int (digits : List Char) : Option ℕ :=
  if digits.length ≤ 4300 then some (digits.foldl (fun n c => 10 * n + (decimal? c).getD 0) 0)
  else none

/-- What follows `pre` in a text that starts with it. -/
def after (pre s : List Char) : Option (List Char) :=
  if pre.isPrefixOf s then some (s.drop pre.length) else none

/-- `sep.join(parts)`. -/
def join (sep : List Char) (parts : List (List Char)) : List Char :=
  List.intercalate sep parts

/-- `part in s`. -/
def contains (s part : List Char) : Bool :=
  s.tails.any fun t => part.isPrefixOf t

end Text
