import Prism.Foundation.PythonPrograms
import Prism.Model.Semantics

/-! The projection of the asserted calls of a Python file. What `ast.parse` makes of its text is
a parameter. -/

namespace Prism.PathObservations

open Python
open Prism.Semantics (interpret)

/-! ## Projection -/

structure Branch where
  function : Name
  line : ℕ
  condition : Bool
  deriving DecidableEq, Repr

/-- What a `Projection` counts and notes. -/
structure Progress where
  steps : ℕ := 0
  branches : List Branch := []
  visited : List ℕ := []

abbrev Projected (α : Type) := StateT Progress (Except Semantics.Failure) α

/-- `raise Unsupported` -/
def unsupported {α : Type} : Projected α :=
  fun _ => .error .unsupported

def step : Projected Unit := fun p =>
  if 160 < p.steps + 1 then .error .unsupported else .ok ((), { p with steps := p.steps + 1 })

def visit (line : ℕ) : Projected Unit := fun p =>
  .ok ((), { p with visited := if line ∈ p.visited then p.visited else p.visited ++ [line] })

def note (b : Branch) : Projected Unit := fun p =>
  .ok ((), { p with branches := p.branches ++ [b] })

/-- The values of an expression outside of the forms that `value` reads itself. -/
def interpreted (σ : Bindings) (node : Expr) : Projected Value :=
  fun p => (interpret σ 0 node).map fun v => (v, p)

/-- `self.call`, one level of calls deeper. -/
abbrev Caller := Name → List Value → List (Name × Value) → Projected Value

/-- `left is right` -/
def identical (left right : Value) : Projected Bool :=
  match left, right with
  | .none, .none => pure true
  | _, .none => pure false
  | .bool b, .bool b' => pure (b = b')
  | _, .bool _ => pure false
  | _, _ => unsupported

def compared (op : Comparison) (left right : Value) : Projected Value :=
  match op with
  | .is => do return .bool (← identical left right)
  | .isNot => do return .bool (!(← identical left right))
  | .eq => pure (.bool (left.same right))
  | .notEq => pure (.bool (!left.same right))
  | .other => unsupported

/-- `target.get(*args)` -/
def got (target : Value) (args : List Value) : Projected Value :=
  match target, args with
  | .dict items, [.str k] => pure ((items.lookup k).getD .none)
  | .dict items, [.str k, v] => pure ((items.lookup k).getD v)
  | _, _ => unsupported

/-- `isinstance(k, ast.Constant) and type(k.value) is str` -/
def isText (item : Option Expr × Expr) : Bool :=
  (keyOf item.1).isSome

mutual

def value (call : Caller) (functions : List Name) (σ : Bindings) (node : Expr) :
    Projected Value := do
  step
  match node with
  | .dict items =>
    if 8 < items.length then interpreted σ (.dict items)
    else if items.all isText then return .dict (← valueItems call functions σ [] items)
    else unsupported
  | .list elts =>
    if 16 < elts.length then interpreted σ (.list elts)
    else return .list (← valueAll call functions σ elts)
  | .boolOp or first rest => do
    valueRest call functions σ or (← value call functions σ first) rest
  | .compare left [op] [right] => do
    compared op (← value call functions σ left) (← value call functions σ right)
  | .call span (.attribute target attr) args keywords =>
    if attr = "get".toList ∧ keywords.isEmpty then do
      let v ← value call functions σ target
      got v (← valueAll call functions σ args)
    else interpreted σ (.call span (.attribute target attr) args keywords)
  | .call span (.name id store) args keywords =>
    if id ∈ functions then
      if (σ.lookup id).isSome ∨ keywords.any (·.1.isNone) then unsupported
      else do
        let vs ← valueAll call functions σ args
        call id vs (← valueKeywords call functions σ [] keywords)
    else interpreted σ (.call span (.name id store) args keywords)
  | node => interpreted σ node

/-- The loop over `node.values[1:]`. -/
def valueRest (call : Caller) (functions : List Name) (σ : Bindings) (or : Bool) (v : Value) :
    List Expr → Projected Value
  | [] => pure v
  | e :: es =>
    if v.truthy = or then pure v
    else do valueRest call functions σ or (← value call functions σ e) es

def valueAll (call : Caller) (functions : List Name) (σ : Bindings) :
    List Expr → Projected (List Value)
  | [] => pure []
  | e :: es => do
    let v ← value call functions σ e
    return v :: (← valueAll call functions σ es)

/-- The keywords with a name, in the dictionary that is built of them. -/
def valueKeywords (call : Caller) (functions : List Name) (σ : Bindings)
    (stored : List (Name × Value)) : List (Option Name × Expr) → Projected (List (Name × Value))
  | [] => pure stored
  | (some id, e) :: rest => do
    valueKeywords call functions σ (setItem stored id (← value call functions σ e)) rest
  | (none, _) :: rest => valueKeywords call functions σ stored rest

def valueItems (call : Caller) (functions : List Name) (σ : Bindings)
    (stored : List (Str × Value)) : List (Option Expr × Expr) → Projected (List (Str × Value))
  | [] => pure stored
  | (some k, e) :: rest => do
    match ← value call functions σ k with
    | .str key =>
      valueItems call functions σ (setItem stored key (← value call functions σ e)) rest
    | _ => unsupported
  | (none, _) :: rest => valueItems call functions σ stored rest

end

mutual

/-- One turn of the loop of `block`, behind the counting of the statement. -/
def statement (call : Caller) (functions : List Name) (name : Name) (σ : Bindings) :
    Stmt → Projected Flow
  | .ret _ (some e) => do return .returned (← value call functions σ e)
  | .assign _ [.name id _] e => do return .next ((id, ← value call functions σ e) :: σ)
  | .cond line test body orelse => do
    let condition := (← value call functions σ test).truthy
    note ⟨name, line, condition⟩
    if condition then block call functions name σ body else block call functions name σ orelse
  | .expr _ (.constant (.str _)) => return .next σ
  | _ => unsupported

def block (call : Caller) (functions : List Name) (name : Name) (σ : Bindings) :
    List Stmt → Projected Flow
  | [] => pure (.next σ)
  | s :: rest => do
    visit s.line
    step
    match ← statement call functions name σ s with
    | .next σ' => block call functions name σ' rest
    | .returned v => return .returned v

end

/-- `{"range", "list", "len", "min", "max"}` -/
def isBuiltin (id : Name) : Bool :=
  (builtin? id).isSome

/-- The bindings of a call, the last update first. -/
def parameters (f : FunctionDef) (defaults args : List Value) (keywords : List (Name × Value)) :
    Bindings :=
  keywords ++ (f.args.zip args).reverse ++
    ((f.args.drop (f.args.length - defaults.length)).zip defaults).reverse

/-- `call`, at a depth of `5 - left`. -/
def call (functions : List FunctionDef) : ℕ → Caller
  | 0 => fun _ _ _ => unsupported
  | left + 1 => fun name args keywords =>
    match functions.find? fun f => f.name = name with
    | none => unsupported
    | some f =>
      if !f.decorators.isEmpty || f.vararg.isSome || f.kwarg.isSome || !f.kwonlyargs.isEmpty ||
          !f.posonlyargs.isEmpty then unsupported
      else if 4 < f.args.length ∨ f.args.length < args.length ∨
          ∃ id ∈ keywords.map Prod.fst, id ∉ f.args then unsupported
      else if ∃ id ∈ keywords.map Prod.fst, id ∈ f.args.take args.length then unsupported
      else if (∃ id ∈ f.nodes.filterMap Node.stored, isBuiltin id = true) ∨
          ∃ id ∈ f.args, isBuiltin id = true then unsupported
      else do
        let names := functions.map FunctionDef.name
        let defaults ← valueAll (call functions left) names [] f.defaults
        let σ := parameters f defaults args keywords
        if ∃ id ∈ f.args, σ.lookup id = none then unsupported
        else
          match ← block (call functions left) names name σ f.body with
          | .returned v => return v
          | .next _ => unsupported

/-! ## Observations -/

mutual

/-- Whether a call, a name, an attribute or a subscript is met in an expression. -/
def reaches : Expr → Bool
  | .constant _ => false
  | .name _ _ | .call _ _ _ _ | .attribute _ _ | .subscript _ _ _ | .namedExpr _ _ => true
  | .unaryOp _ operand => reaches operand
  | .boolOp _ first rest => reaches first || reachesAny rest
  | .binOp left _ right => reaches left || reaches right
  | .compare left _ comparators => reaches left || reachesAny comparators
  | .dict items => reachesItems items
  | .list elts | .tuple elts => reachesAny elts
  | .other parts _ _ => reachesAny parts

def reachesAny : List Expr → Bool
  | [] => false
  | e :: es => reaches e || reachesAny es

def reachesItems : List (Option Expr × Expr) → Bool
  | [] => false
  | (none, e) :: items => reaches e || reachesItems items
  | (some k, e) :: items => reaches k || reaches e || reachesItems items

end

structure Observation where
  testLine : ℕ
  function : Name
  arguments : List Value
  keywords : List (Name × Value)
  value : Value
  assertedValue : Value
  comparison : Comparison
  matchesAssertion : Bool
  branches : List Branch
  visitedLines : List ℕ

/-- `value is expected`, where `expected` is `None` or a Boolean. -/
def isSame (v expected : Value) : Bool :=
  match v, expected with
  | .none, .none => true
  | .bool b, .bool b' => b = b'
  | _, _ => false

/-- `expected is not None and type(expected) is not bool` -/
def isCopied : Value → Bool
  | .none | .bool _ => false
  | _ => true

/-- `value is expected` or `value == expected`. -/
def matched (op : Comparison) (v expected : Value) : Bool :=
  if op = .is then isSame v expected else v.same expected

/-- The values that an asserted call is projected with, and the one it gives. -/
structure Projection where
  arguments : List Value
  keywords : List (Name × Value)
  assertedValue : Value
  value : Value

/-- The body of the `try`. Nothing is projected where keywords are repeated. -/
def project (functions : List FunctionDef) (id : Name) (args : List Expr)
    (keywords : List (Option Name × Expr)) (expected : Expr) : Projected (Option Projection) := do
  let names := functions.map FunctionDef.name
  -- There is no call in a literal.
  let vs ← valueAll (call functions 4) names [] args
  let kws ← valueKeywords (call functions 4) names [] [] keywords
  if kws.length ≠ keywords.length then return none
  else do
    let w ← value (call functions 4) names [] expected
    let v ← call functions 4 id vs kws
    return some ⟨vs, kws, w, v⟩

/-- What is observed of an assertion. -/
def observe (functions : List FunctionDef) (line : ℕ) (test : Expr) :
    Except Semantics.Failure (Option Observation) :=
  match test with
  | .compare (.call _ (.name id _) args keywords) [op] [expected] =>
    if op = .eq ∨ op = .is then
      if reachesAny args || reachesAny (keywords.map Prod.snd) || reaches expected then pure none
      else do
        match ← (project functions id args keywords expected).run {} with
        | (none, _) => return none
        | (some p, progress) =>
          if op = .is ∧ isCopied p.assertedValue then return none
          else return some {
            testLine := line
            function := id
            arguments := p.arguments
            keywords := p.keywords
            value := p.value
            assertedValue := p.assertedValue
            comparison := op
            matchesAssertion := matched op p.value p.assertedValue
            branches := progress.branches
            visitedLines := progress.visited.mergeSort }
    else pure none
  | _ => pure none

/-- The loop over the assertions: what is not supported is passed over. -/
def observeAll (functions : List FunctionDef) (found : List Observation) :
    List (ℕ × Expr) → Except Exn (List Observation)
  | [] => pure found
  | (line, test) :: rest =>
    match observe functions line test with
    | .ok none | .error .unsupported | .error (.raised .valueError)
    | .error (.raised .typeError) => observeAll functions found rest
    | .error (.raised e) => .error e
    | .ok (some o) =>
      if found.length + 1 = 6 then pure (found ++ [o])
      else observeAll functions (found ++ [o]) rest

/-! ## Files -/

/-- A statement of a module that is no function. -/
inductive TopLevel where
  | function (f : FunctionDef)
  | other (nodes : ℕ)

def TopLevel.nodes : TopLevel → ℕ
  | .function f => f.nodes.length
  | .other nodes => nodes

def TopLevel.function? : TopLevel → Option FunctionDef
  | .function f => some f
  | .other _ => none

/-- `ast.Assert` -/
def assertion? : Stmt → Option (ℕ × Expr)
  | .assertion line test _ => some (line, test)
  | _ => none

/-- The assertions in the order of `ast.walk`. -/
def assertions (functions : List FunctionDef) : List (ℕ × Expr) :=
  let body := functions.flatMap FunctionDef.body
  (levels (stmtDepth body) body).filterMap assertion?

/-- The observations of a parsed file. -/
def moduleObservations (tree : List TopLevel) : Except Exn (List Observation) :=
  let functions := tree.filterMap TopLevel.function?
  if 500 < (tree.map TopLevel.nodes).sum + 1 ∨ functions.length ≠ tree.length then pure []
  else if ¬ (functions.map FunctionDef.name).Nodup then pure []
  else do
    let observations ← observeAll functions [] (assertions functions)
    -- `False` is before `True`, and the order is kept otherwise.
    return observations.filter (!·.matchesAssertion) ++ observations.filter (·.matchesAssertion)

/-- Why there are no observations of a file: the `SyntaxError` of its text, or what an
operation raised. -/
inductive Fault where
  | syntaxError
  | raised (e : Exn)
  deriving DecidableEq, Repr

/-- The lines of a file, joined. -/
def sourceOf (file : Policy.File) : List Char :=
  Text.join ['\n'] (file.lines.map Policy.Row.code)

/-- `python_observations` -/
def pythonObservations (parse : List Char → Option (List TopLevel)) (file : Policy.File) :
    Except Fault (List Observation) :=
  if file.lines = [] ∨ file.lines.map Policy.Row.line ≠
      (List.range file.lines.length).map fun n => (n : ℤ) + 1 then pure []
  else if 16384 < Text.encodedLength (sourceOf file) then pure []
  else
    match parse (sourceOf file) with
    | none => .error .syntaxError
    | some tree => (moduleObservations tree).mapError .raised

end Prism.PathObservations
