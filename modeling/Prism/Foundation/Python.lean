import Mathlib.Algebra.Order.Ring.Int
import Mathlib.Data.List.Infix

/-! Python: syntax trees as its parser gives them, values, and the evaluation of those
expressions whose meaning depends on nothing but the values of names. -/

namespace Python

/-- A name, by its scalar values. -/
abbrev Name := List Char

/-- A unit of a string: unlike a scalar value it may be a surrogate. -/
abbrev CodePoint := Fin 0x110000

abbrev Str := List CodePoint

/-! ## Expressions -/

inductive Constant where
  | none
  | bool (b : Bool)
  | int (n : ℤ)
  | str (s : Str)
  /-- A float, a complex number, bytes or an ellipsis. -/
  | other
  deriving DecidableEq, Repr

inductive UnaryOperator where
  | usub
  | other
  deriving DecidableEq, Repr

inductive Operator where
  | add | sub | mult
  | other
  deriving DecidableEq, Repr

inductive Comparison where
  | eq | notEq | is | isNot
  | other
  deriving DecidableEq, Repr

/-- The first and the last line of a node. -/
structure Span where
  line : ℕ
  last : ℕ
  deriving DecidableEq, Repr

/-- An expression. A Boolean operation has at least one operand; a key of a dictionary may be
missing, where another one is unpacked. -/
inductive Expr where
  | constant (value : Constant)
  | name (id : Name) (store : Bool)
  | unaryOp (op : UnaryOperator) (operand : Expr)
  | boolOp (or : Bool) (first : Expr) (rest : List Expr)
  | binOp (left : Expr) (op : Operator) (right : Expr)
  | compare (left : Expr) (ops : List Comparison) (comparators : List Expr)
  | call (span : Span) (func : Expr) (args : List Expr) (keywords : List (Option Name × Expr))
  | attribute (value : Expr) (attr : Name)
  | subscript (span : Span) (value slice : Expr)
  | dict (items : List (Option Expr × Expr))
  | list (elts : List Expr)
  | tuple (elts : List Expr)
  | namedExpr (target : Name) (value : Expr)
  /-- Any other form: the expressions under it, the parameters it names and how many nodes
  it has besides. -/
  | other (parts : List Expr) (params : List Name) (nodes : ℕ)

/-- A node of a tree, as far as a walk over all nodes tells them apart. -/
inductive Node where
  | name (id : Name) (store : Bool)
  | arg (id : Name)
  | plain
  deriving DecidableEq, Repr

mutual

/-- The nodes `ast.walk` visits, with those of contexts and operators. -/
def Expr.nodes : Expr → List Node
  | .constant _ => [.plain]
  | .name id store => [.name id store, .plain]
  | .unaryOp _ operand => .plain :: .plain :: operand.nodes
  | .boolOp _ first rest => .plain :: .plain :: (first.nodes ++ nodesOf rest)
  | .binOp left _ right => .plain :: .plain :: (left.nodes ++ right.nodes)
  | .compare left ops comparators =>
    .plain :: (ops.map fun _ => .plain) ++ (left.nodes ++ nodesOf comparators)
  | .call _ func args keywords =>
    .plain :: (func.nodes ++ nodesOf args ++ nodesOfKeywords keywords)
  | .attribute value _ => .plain :: .plain :: value.nodes
  | .subscript _ value slice => .plain :: .plain :: (value.nodes ++ slice.nodes)
  | .dict items => .plain :: nodesOfItems items
  | .list elts => .plain :: .plain :: nodesOf elts
  | .tuple elts => .plain :: .plain :: nodesOf elts
  | .namedExpr target value => .plain :: .name target true :: .plain :: value.nodes
  | .other parts params nodes =>
    List.replicate nodes .plain ++ params.map Node.arg ++ nodesOf parts

def nodesOf : List Expr → List Node
  | [] => []
  | e :: es => e.nodes ++ nodesOf es

def nodesOfKeywords : List (Option Name × Expr) → List Node
  | [] => []
  | (_, e) :: es => .plain :: e.nodes ++ nodesOfKeywords es

def nodesOfItems : List (Option Expr × Expr) → List Node
  | [] => []
  | (none, e) :: es => e.nodes ++ nodesOfItems es
  | (some k, e) :: es => k.nodes ++ e.nodes ++ nodesOfItems es

end

/-! ## Values -/

inductive Value where
  | none
  | bool (b : Bool)
  | int (n : ℤ)
  | str (s : Str)
  | list (items : List Value)
  | range (start stop step : ℤ)
  | dict (items : List (Str × Value))

namespace Value

/-- How many numbers a range has. -/
def rangeLength (start stop step : ℤ) : ℕ :=
  if 0 < step then if start < stop then ((stop - start - 1) / step + 1).toNat else 0
  else if step < 0 then if stop < start then ((start - stop - 1) / -step + 1).toNat else 0
  else 0

def rangeItems (start stop step : ℤ) : List ℤ :=
  (List.range (rangeLength start stop step)).map fun i => start + i * step

/-- The number a value counts as in arithmetic. -/
def number? : Value → Option ℤ
  | int n => some n
  | bool b => some b.toNat
  | _ => Option.none

def truthy : Value → Bool
  | none => false
  | bool b => b
  | int n => n ≠ 0
  | str s => !s.isEmpty
  | list items => !items.isEmpty
  | range start stop step => rangeLength start stop step ≠ 0
  | dict items => !items.isEmpty

end Value

/-! ## Evaluation -/

inductive Exn where
  | typeError | valueError | zeroDivisionError | overflowError
  deriving DecidableEq, Repr

/-- `sys.maxsize`: no container has more items. -/
def maxSize : ℕ := 2 ^ 63 - 1

/-- What the evaluation of an expression comes to: a value, an exception, or nothing where it
depends on more than the values of names. -/
abbrev Outcome (α : Type) := ExceptT Exn Option α

def raises {α : Type} (e : Exn) : Outcome α :=
  some (.error e)

/-- The meaning of the expression is left open. -/
def leftOpen {α : Type} : Outcome α :=
  Option.none

abbrev Bindings := List (Name × Value)

open Value

/-- `-operand` -/
def negative (v : Value) : Outcome Value :=
  match v.number? with
  | some n => pure (int (-n))
  | Option.none => raises .typeError

/-- `left op right`. The repetition of a sequence, which may not fit the memory, is left
open. -/
def arithmetic (op : Operator) (left right : Value) : Outcome Value :=
  match left.number?, right.number? with
  | some a, some b =>
    match op with
    | .add => pure (int (a + b))
    | .sub => pure (int (a - b))
    | .mult => pure (int (a * b))
    | .other => leftOpen
  | _, _ =>
    match op, left, right with
    | .add, str s, str t => pure (str (s ++ t))
    | .add, list vs, list ws => pure (list (vs ++ ws))
    | .add, _, _ => raises .typeError
    | .sub, _, _ => raises .typeError
    | _, _, _ => leftOpen

/-- The builtin functions whose calls are described. -/
inductive Builtin where
  | range | list | len | min | max
  deriving DecidableEq, Repr

def builtin? (name : Name) : Option Builtin :=
  [("range".toList, Builtin.range), ("list".toList, .list), ("len".toList, .len),
    ("min".toList, .min), ("max".toList, .max)].lookup name

/-- What needs a number of items that the implementation can count. -/
def counted {α : Type} (n : ℕ) (a : α) : Outcome α :=
  if n ≤ maxSize then pure a else raises .overflowError

/-- The elements an iteration over a value meets. -/
def elements : Value → Outcome (List Value)
  | str s => pure (s.map fun c => str [c])
  | list items => pure items
  | range start stop step =>
    counted (rangeLength start stop step) ((rangeItems start stop step).map int)
  | dict items => pure (items.map fun m => str m.1)
  | _ => raises .typeError

def lengthOf : Value → Outcome ℕ
  | str s => pure s.length
  | list items => pure items.length
  | range start stop step =>
    counted (rangeLength start stop step) (rangeLength start stop step)
  | dict items => pure items.length
  | _ => raises .typeError

def rangeOf (start stop step : ℤ) : Outcome Value :=
  if step = 0 then raises .valueError else pure (range start stop step)

/-- The numbers of some arguments, all of which are integers. -/
def integers : List Value → Option (List ℤ)
  | [] => some []
  | int n :: vs => (integers vs).map (n :: ·)
  | _ :: _ => Option.none

def callBuiltin (f : Builtin) (args : List Value) : Outcome Value :=
  match f with
  | .range =>
    match args.mapM number? with
    | some [stop] => rangeOf 0 stop 1
    | some [start, stop] => rangeOf start stop 1
    | some [start, stop, step] => rangeOf start stop step
    | _ => raises .typeError
  | .list =>
    match args with
    | [] => pure (list [])
    | [v] => do return list (← elements v)
    | _ => raises .typeError
  | .len =>
    match args with
    | [v] => do return int (← lengthOf v)
    | _ => raises .typeError
  | .min =>
    match integers args with
    | some (n :: m :: ns) => pure (int ((m :: ns).foldl min n))
    | _ => leftOpen
  | .max =>
    match integers args with
    | some (n :: m :: ns) => pure (int ((m :: ns).foldl max n))
    | _ => leftOpen

def valueOf : Constant → Outcome Value
  | .none => pure none
  | .bool b => pure (bool b)
  | .int n => pure (int n)
  | .str s => pure (str s)
  | .other => leftOpen

def lookupName (σ : Bindings) (id : Name) : Outcome Value :=
  match σ.lookup id with
  | some v => pure v
  | Option.none => leftOpen

/-- The builtin function an expression denotes. -/
def builtinOf (σ : Bindings) : Expr → Option Builtin
  | .name id _ => if (σ.lookup id).isSome then Option.none else builtin? id
  | _ => Option.none

mutual

def evaluate (σ : Bindings) : Expr → Outcome Value
  | .constant value => valueOf value
  | .name id _ => lookupName σ id
  | .unaryOp .usub operand => do negative (← evaluate σ operand)
  | .boolOp or first rest => do evaluateRest σ or (← evaluate σ first) rest
  | .binOp left op right => do arithmetic op (← evaluate σ left) (← evaluate σ right)
  | .call _ func args [] =>
    match builtinOf σ func with
    | some f => do callBuiltin f (← evaluateAll σ args)
    | Option.none => leftOpen
  | _ => leftOpen

/-- The operands of a Boolean operation behind one with the value `v`. -/
def evaluateRest (σ : Bindings) (or : Bool) (v : Value) : List Expr → Outcome Value
  | [] => pure v
  | e :: es => if v.truthy = or then pure v else do evaluateRest σ or (← evaluate σ e) es

def evaluateAll (σ : Bindings) : List Expr → Outcome (List Value)
  | [] => pure []
  | e :: es => do return (← evaluate σ e) :: (← evaluateAll σ es)

end

end Python
