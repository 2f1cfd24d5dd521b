import Prism.Foundation.Json
import Prism.Foundation.Regex

/-! Reading JSON text. -/

namespace Json

section Strings

def hexValue (c : Char) : Option ℕ :=
  if '0' ≤ c ∧ c ≤ '9' then some (c.toNat - 48)
  else if 'a' ≤ c ∧ c ≤ 'f' then some (c.toNat - 87)
  else if 'A' ≤ c ∧ c ≤ 'F' then some (c.toNat - 55)
  else none

def readHex : List Char → Option (ℕ × List Char)
  | a :: b :: c :: d :: s => do
    let a ← hexValue a
    let b ← hexValue b
    let c ← hexValue c
    let d ← hexValue d
    return (((a * 16 + b) * 16 + c) * 16 + d, s)
  | _ => none

/-- What follows `\u`. A surrogate stands for a scalar value only as the first half
of a pair, so a lone one is refused. -/
def readUnicode (s : List Char) : Option (Char × List Char) := do
  let (unit, s) ← readHex s
  if 0xD800 ≤ unit ∧ unit < 0xDC00 then
    if s.take 2 = ['\\', 'u'] then
      let (low, s) ← readHex (s.drop 2)
      if 0xDC00 ≤ low ∧ low < 0xE000 then
        return (Char.ofNat (0x10000 + (unit - 0xD800) * 1024 + (low - 0xDC00)), s)
      else none
    else none
  else if 0xDC00 ≤ unit ∧ unit < 0xE000 then none
  else return (Char.ofNat unit, s)

def shortEscape (c : Char) : Option Char :=
  [('"', '"'), ('\\', '\\'), ('/', '/'), ('b', '\x08'), ('f', '\x0c'), ('n', '\n'), ('r', '\r'),
    ('t', '\t')].lookup c

/-- What follows a backslash. -/
def readEscape : List Char → Option (Char × List Char)
  | [] => none
  | c :: s => if c = 'u' then readUnicode s else (shortEscape c).map fun d => (d, s)

/-- One scalar value of a string literal. Control characters are not written
literally. -/
def readChar : List Char → Option (Char × List Char)
  | [] => none
  | c :: s =>
    if c = '\\' then readEscape s else if c.toNat < 32 then none else some (c, s)

/-- The rest of a string literal after its opening quote. -/
def readString : ℕ → List Char → Option (List Char × List Char)
  | 0, _ => none
  | n + 1, s =>
    if s.head? = some '"' then some ([], s.tail)
    else (readChar s).bind fun (c, s) => (readString n s).map fun (t, s) => (c :: t, s)

end Strings

section Scalars

def isNumberChar (c : Char) : Bool :=
  c.isDigit || c ∈ ['-', '+', '.', 'e', 'E']

/-- The digits of an integer: no leading zero. -/
def readDigits (ds : List Char) : Option ℕ :=
  if ds ≠ [] ∧ ds.all Char.isDigit ∧ (ds.head? = some '0' → ds.length = 1) then
    some (Nat.ofDigitChars 10 ds 0)
  else none

def readInt : List Char → Option ℤ
  | '-' :: ds => (readDigits ds).map fun n => -(n : ℤ)
  | ds => (readDigits ds).map fun n => (n : ℤ)

private def digits : Regex Char :=
  .atLeast 1 (.set Char.isDigit)

private def oneOf (cs : List Char) : Regex Char :=
  .set fun c => c ∈ cs

/-- `-?(0|[1-9][0-9]*)(\.[0-9]+)?([eE][-+]?[0-9]+)?`. -/
def floatLiteral : Regex Char :=
  .inOrder [.opt (oneOf ['-']),
    .alt (oneOf ['0']) (.seq (.set fun c => c.isDigit && c ≠ '0') (.star (.set Char.isDigit))),
    .opt (.seq (oneOf ['.']) digits),
    .opt (.inOrder [oneOf ['e', 'E'], .opt (oneOf ['-', '+']), digits])]

/-- The number spelled by a maximal run of number characters. -/
def readNumber (s : List Char) : Option (Json × List Char) :=
  let run := s.takeWhile isNumberChar
  let rest := s.drop run.length
  match readInt run with
  | some n => some (int n, rest)
  | none => if floatLiteral.fullmatch run then some (float run, rest) else none

/-- The names of values, with the constants `json` reads beyond the standard. -/
def keywords : List (List Char × Json) :=
  [(['n', 'u', 'l', 'l'], null), (['t', 'r', 'u', 'e'], bool true),
    (['f', 'a', 'l', 's', 'e'], bool false), ("NaN".toList, float "NaN".toList),
    ("Infinity".toList, float "Infinity".toList), ("-Infinity".toList, float "-Infinity".toList)]

def readKeyword (s : List Char) : Option (Json × List Char) :=
  (keywords.find? fun k => k.1.isPrefixOf s).map fun k => (k.2, s.drop k.1.length)

def readScalar (s : List Char) : Option (Json × List Char) :=
  (readNumber s).or (readKeyword s)

end Scalars

section Values

def isBlank (c : Char) : Bool :=
  c = ' ' || c = '\t' || c = '\n' || c = '\r'

def skip (s : List Char) : List Char :=
  s.dropWhile isBlank

/-- A dictionary with one member set: a key keeps its place and its last value. -/
def setMember (ms : List (List Char × Json)) (key : List Char) (j : Json) :
    List (List Char × Json) :=
  if ms.any fun m => m.1 = key then ms.map fun m => if m.1 = key then (key, j) else m
  else ms ++ [(key, j)]

/-- The dictionary of the members of an object, in the order they are written. -/
def dict (ms : List (List Char × Json)) : List (List Char × Json) :=
  ms.foldl (fun d m => setMember d m.1 m.2) []

/-- `d.get(key)`. -/
def member? (ms : List (List Char × Json)) (key : List Char) : Option Json :=
  (ms.find? fun m => m.1 = key).map Prod.snd

mutual

def readValue : ℕ → List Char → Option (Json × List Char)
  | 0, _ => none
  | n + 1, s =>
    match skip s with
    | [] => none
    | c :: s =>
      if c = '"' then (readString (s.length + 1) s).map fun (t, s) => (str t, s)
      else if c = '[' then
        if (skip s).head? = some ']' then some (arr [], (skip s).tail)
        else (readItems n s).map fun (js, s) => (arr js, s)
      else if c = '\x7b' then
        if (skip s).head? = some '\x7d' then some (obj [], (skip s).tail)
        else (readMembers n s).map fun (ms, s) => (obj (dict ms), s)
      else readScalar (c :: s)

/-- The items of a nonempty array, with its closing bracket. -/
def readItems : ℕ → List Char → Option (List Json × List Char)
  | 0, _ => none
  | n + 1, s =>
    (readValue n s).bind fun (j, s) =>
      match skip s with
      | [] => none
      | c :: s =>
        if c = ']' then some ([j], s)
        else if c = ',' then (readItems n s).map fun (js, s) => (j :: js, s)
        else none

/-- The members of a nonempty object, with its closing brace. -/
def readMembers : ℕ → List Char → Option (List (List Char × Json) × List Char)
  | 0, _ => none
  | n + 1, s =>
    if (skip s).head? ≠ some '"' then none
    else (readString (skip s).length (skip s).tail).bind fun (key, s) =>
      if (skip s).head? ≠ some ':' then none
      else (readValue n (skip s).tail).bind fun (j, s) =>
        match skip s with
        | [] => none
        | c :: s =>
          if c = '\x7d' then some ([(key, j)], s)
          else if c = ',' then (readMembers n s).map fun (ms, s) => ((key, j) :: ms, s)
          else none

end

/-- `json.loads(text)`. The fuel is enough for every text: each level of nesting
takes two calls and at least one scalar value. -/
def loads (text : List Char) : Option Json :=
  (readValue (2 * text.length + 2) text).bind fun (j, rest) =>
    if skip rest = [] then some j else none

end Values

section Members

theorem mem_setMember {ms : List (List Char × Json)} {key : List Char} {j : Json}
    {m : List Char × Json} (h : m ∈ setMember ms key j) : m ∈ ms ∨ m = (key, j) := by
  unfold setMember at h
  split at h
  · obtain ⟨n, hn, rfl⟩ := List.mem_map.mp h
    split
    · exact Or.inr rfl
    · exact Or.inl hn
  · simpa using h

/-- A dictionary holds members of the object it is made from. -/
theorem mem_dict {ms : List (List Char × Json)} {m : List Char × Json} (h : m ∈ dict ms) :
    m ∈ ms := by
  have hfold : ∀ d : List (List Char × Json),
      m ∈ ms.foldl (fun d m => setMember d m.1 m.2) d → m ∈ d ∨ m ∈ ms := by
    clear h
    induction ms with
    | nil => exact fun d hd => Or.inl hd
    | cons n ms ih =>
        intro d hd
        rcases ih _ hd with hset | hms
        · rcases mem_setMember hset with hd | hn
          · exact Or.inl hd
          · exact Or.inr (hn ▸ List.mem_cons_self)
        · exact Or.inr (List.mem_cons_of_mem n hms)
  simpa using hfold [] h

end Members

end Json
