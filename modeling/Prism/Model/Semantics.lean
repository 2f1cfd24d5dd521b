import Mathlib.Data.List.Dedup
import Prism.Foundation.Json
import Prism.Foundation.Python
import Prism.Foundation.Text
import Prism.Model.ReviewPolicy

/-! The bounded interpreter of expressions and the check of a repair with it. What `ast.parse`
makes of a text is a parameter. -/

namespace Prism.Semantics

open Python
open Prism.Policy (CheckStatus File)
open OutputSchema (ExpressionRepair)

/-! ## The interpreter -/

/-- Why there is no value: `ValueError(UNKNOWN)`, or what an operation raised. -/
inductive Failure where
  | unsupported
  | raised (e : Exn)
  deriving DecidableEq, Repr

abbrev Reading := Except Failure Value

def unsupported {α : Type} : Except Failure α :=
  .error .unsupported

/-- `10**10` -/
def maxNumber : ℤ := 10 ^ 10

def boundedInt (n : ℤ) : Reading :=
  if maxNumber < |n| then unsupported else pure (.int n)

def readConstant : Constant → Reading
  | .none => pure .none
  | .bool b => pure (.bool b)
  | .int n => boundedInt n
  | .str s => if 64 < s.length then unsupported else pure (.str s)
  | .other => unsupported

/-- `OPERATORS` -/
def operators : Operator → Option (ℤ → ℤ → ℤ)
  | .add => some (· + ·)
  | .sub => some (· - ·)
  | .mult => some (· * ·)
  | .other => none

def negate : Value → Reading
  | .int n => pure (.int (-n))
  | _ => unsupported

def readBinary (f : ℤ → ℤ → ℤ) (left right : Value) : Reading :=
  match left, right with
  | .int a, .int b => boundedInt (f a b)
  | _, _ => unsupported

/-- `sequence = range(*args)`, returned as a list. -/
def readRange (start stop step : ℤ) : Reading :=
  if step = 0 then .error (.raised .valueError)
  else if maxSize < Value.rangeLength start stop step then .error (.raised .overflowError)
  else if 32 < Value.rangeLength start stop step then unsupported
  else pure (.list ((Value.rangeItems start stop step).map .int))

def readCall (f : Builtin) (args : List Value) : Reading :=
  match f with
  | .range =>
    match integers args with
    | some [stop] => readRange 0 stop 1
    | some [start, stop] => readRange start stop 1
    | some [start, stop, step] => readRange start stop step
    | _ => unsupported
  | .list =>
    match args with
    | [.list items] => pure (.list items)
    | _ => unsupported
  | .len =>
    match args with
    | [.str s] => pure (.int s.length)
    | [.list items] => pure (.int items.length)
    | _ => unsupported
  | .min =>
    match integers args with
    | some (n :: m :: ns) => pure (.int ((m :: ns).foldl min n))
    | _ => unsupported
  | .max =>
    match integers args with
    | some (n :: m :: ns) => pure (.int ((m :: ns).foldl max n))
    | _ => unsupported

/-- The builtin function that a call names. -/
def called : Expr → Option Builtin
  | .name id _ => builtin? id
  | _ => none

mutual

def interpret (σ : Bindings) (depth : ℕ) (node : Expr) : Reading :=
  if 12 < depth then unsupported
  else
    match node with
    | .constant value => readConstant value
    | .name id _ =>
      match σ.lookup id with
      | some v => pure v
      | none => unsupported
    | .unaryOp .usub operand => do negate (← interpret σ (depth + 1) operand)
    | .boolOp or first rest => do
      interpretRest σ (depth + 1) or (← interpret σ (depth + 1) first) rest
    | .binOp left op right =>
      match operators op with
      | some f => do
        readBinary f (← interpret σ (depth + 1) left) (← interpret σ (depth + 1) right)
      | none => unsupported
    | .call _ func args [] =>
      match called func with
      | some f =>
        if 3 < args.length then unsupported
        else do readCall f (← interpretAll σ (depth + 1) args)
      | none => unsupported
    | _ => unsupported

/-- The loop over `node.values[1:]`. -/
def interpretRest (σ : Bindings) (depth : ℕ) (or : Bool) (v : Value) : List Expr → Reading
  | [] => pure v
  | e :: es =>
    if v.truthy = or then pure v else do interpretRest σ depth or (← interpret σ depth e) es

def interpretAll (σ : Bindings) (depth : ℕ) : List Expr → Except Failure (List Value)
  | [] => pure []
  | e :: es => do return (← interpret σ depth e) :: (← interpretAll σ depth es)

end

/-! ## Observations -/

inductive Observation where
  | value (v : Value)
  | exception (e : Exn)
  | unknown

/-- `observation`. An `OverflowError` is not among the exceptions it catches. -/
def observation (node : Expr) (σ : Bindings) : Except Exn Observation :=
  match interpret σ 0 node with
  | .ok v => pure (.value v)
  | .error .unsupported => pure .unknown
  | .error (.raised .overflowError) => .error .overflowError
  | .error (.raised e) => pure (.exception e)

/-- `parse`, over what `ast.parse(expression, mode="eval").body` is. -/
def parse (ast : List Char → Option Expr) (expression : List Char) : Option Expr :=
  if 160 < expression.length then none
  else (ast expression).filter fun node => node.nodes.length ≤ 40

/-- `n.id for n in … if isinstance(n, ast.Name)` -/
def nameOf : Node → Option Name
  | .name id _ => some id
  | _ => none

/-- The order of two texts, by the codes of their characters. -/
def textBefore {α : Type} [BEq α] (code : α → ℕ) (p q : List α) : Bool :=
  List.lex p q fun c d => decide (code c < code d)

def names (node : Expr) : List Name :=
  ((node.nodes.filterMap nameOf).dedup.filter fun id => (builtin? id).isNone).mergeSort fun p q =>
    !textBefore Char.toNat q p

def sampleValues : List Value :=
  [.int (-1), .int 0, .int 1, .int 3, .none, .str [], .bool false]

/-- `itertools.product(values, repeat=n)` -/
def product (values : List Value) : ℕ → List (List Value)
  | 0 => [[]]
  | n + 1 => values.flatMap fun v => (product values n).map (v :: ·)

def samples (node : Expr) : List Bindings :=
  if 2 < (names node).length then []
  else ((product sampleValues (names node).length).map (names node).zip).take 49

/-! ## The text of a value -/

/-- The units of UTF-16: two surrogates for what one does not reach. -/
def units (c : CodePoint) : List CodePoint :=
  if c.val < 0x10000 then [c]
  else
    [⟨0xd800 + (c.val - 0x10000) / 0x400, by have := c.isLt; omega⟩,
      ⟨0xdc00 + (c.val - 0x10000) % 0x400, by have := c.isLt; omega⟩]

/-- `{:04x}` -/
def hex (n : ℕ) : List Char :=
  [n / 0x1000, n / 0x100 % 0x10, n / 0x10 % 0x10, n % 0x10].map Nat.digitChar

def escapeUnit (c : CodePoint) : List Char :=
  match [(0x22, '"'), (0x5c, '\\'), (0x0a, 'n'), (0x0d, 'r'), (0x09, 't'), (0x0c, 'f'),
      (0x08, 'b')].lookup c.val with
  | some letter => ['\\', letter]
  | none =>
    if 0x20 ≤ c.val ∧ c.val ≤ 0x7e then [Char.ofNat c.val] else '\\' :: 'u' :: hex c.val

/-- `json.dumps` of a string, in ASCII. -/
def quote (s : Str) : List Char :=
  '"' :: (s.flatMap units).flatMap escapeUnit ++ ['"']

def joined : List (List Char) → List Char
  | [] => []
  | [t] => t
  | t :: ts => t ++ ", ".toList ++ joined ts

mutual

/-- `json.dumps(v, sort_keys=True)` -/
def dumps : Value → Except Exn (List Char)
  | .none => pure "null".toList
  | .bool true => pure "true".toList
  | .bool false => pure "false".toList
  | .int n => pure (Json.printInt n)
  | .str s => pure (quote s)
  | .list items => do return '[' :: joined (← dumpsItems items) ++ [']']
  | .range _ _ _ => .error .typeError
  | .dict items => do
    let members := (← dumpsMembers items).mergeSort fun m m' =>
      !textBefore Fin.val m'.1 m.1
    return '\x7b' :: joined (members.map fun m => quote m.1 ++ ": ".toList ++ m.2) ++ ['\x7d']

def dumpsItems : List Value → Except Exn (List (List Char))
  | [] => pure []
  | v :: vs => do return (← dumps v) :: (← dumpsItems vs)

def dumpsMembers : List (Str × Value) → Except Exn (List (Str × List Char))
  | [] => pure []
  | (key, v) :: items => do return (key, ← dumps v) :: (← dumpsMembers items)

end

/-- The text of `{"value": …}` or of `{"exception": …}`. -/
def dumpsObservation : Observation → Except Exn (List Char)
  | .value v => do return "\x7b\"value\": ".toList ++ (← dumps v) ++ ['\x7d']
  | .exception .typeError => pure "\x7b\"exception\": \"TypeError\"\x7d".toList
  | .exception .valueError => pure "\x7b\"exception\": \"ValueError\"\x7d".toList
  | .exception .zeroDivisionError => pure "\x7b\"exception\": \"ZeroDivisionError\"\x7d".toList
  | .exception .overflowError => pure "\x7b\"exception\": \"OverflowError\"\x7d".toList
  | .unknown => pure "\x7b\"unknown\": true\x7d".toList

/-! ## The check of a repair -/

structure Change where
  inputs : Bindings
  before : Observation
  after : Observation

/-- What two observations of one sample come to: `continue`, or counted. -/
inductive Comparison where
  | skipped
  | same
  | changed (c : Change)

def compareAt (before after : Expr) (σ : Bindings) : Except Exn Comparison := do
  let old ← observation before σ
  let new ← observation after σ
  match old, new with
  | .unknown, _ => pure .skipped
  | _, .unknown => pure .skipped
  | .exception _, _ => pure .skipped
  | .value v, new =>
    if (← dumpsObservation (.value v)) = (← dumpsObservation new) then pure .same
    else pure (.changed ⟨σ, .value v, new⟩)

def Comparison.change? : Comparison → Option Change
  | .changed c => some c
  | _ => none

def Comparison.counted : Comparison → Bool
  | .skipped => false
  | _ => true

/-- A result of `repair_check`; the last two entries are left out where nothing was compared. -/
structure RepairCheck where
  status : CheckStatus
  samples : ℕ
  counterexamples : Option (List Change) := none
  scope : Option String := none

def verdict (compared : List Comparison) : RepairCheck :=
  let checked := (compared.filter Comparison.counted).length
  let changed := compared.filterMap Comparison.change?
  { status :=
      if changed.isEmpty then if checked = 0 then .notVerified else .preservesSamples
      else .changesSuccessfulSamples
    samples := checked
    counterexamples := some (changed.take 2)
    scope := some "EXPRESSION_ONLY_ASSUMING_BUILTINS" }

def repairCheck (ast : List Char → Option Expr) (repair : Option ExpressionRepair) (file : File) :
    Except Exn RepairCheck :=
  match repair with
  | none => pure { status := .notVerified, samples := 0 }
  | some repair =>
    if file.language ≠ "py".toList then pure { status := .notVerified, samples := 0 }
    else
      match file.lines.find? fun r => r.line = repair.line.1 with
      | none => pure { status := .sourceMismatch, samples := 0 }
      | some row =>
        if Text.strip row.code ≠ "return ".toList ++ Text.strip repair.before.1 then
          pure { status := .sourceMismatch, samples := 0 }
        else
          match parse ast repair.before.1, parse ast repair.after.1 with
          | some before, some after => do
            return verdict (← (samples before).mapM (compareAt before after))
          | _, _ => pure { status := .notVerified, samples := 0 }

end Prism.Semantics
