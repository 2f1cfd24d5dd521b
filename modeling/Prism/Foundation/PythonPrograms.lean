import Prism.Foundation.Python

/-! Python: modules of functions, and the values that calls of their functions return. As for
expressions, what depends on more is left open: functions with other statements than the ones
below, and functions that use a name which they have not bound. -/

namespace Python

/-! ## Syntax -/

/-- A statement, or a node that holds statements, such as a handler of exceptions. -/
inductive Stmt where
  | ret (line : ℕ) (value : Option Expr)
  | assign (line : ℕ) (targets : List Expr) (value : Expr)
  | cond (line : ℕ) (test : Expr) (body orelse : List Stmt)
  | expr (line : ℕ) (value : Expr)
  | assertion (line : ℕ) (test : Expr) (msg : Option Expr)
  /-- Any other form: the expressions and the statements under it, the parameters it names and
  how many nodes it has besides. -/
  | other (line : ℕ) (parts : List Expr) (blocks : List Stmt) (params : List Name) (nodes : ℕ)

structure FunctionDef where
  name : Name
  decorators : List Expr
  posonlyargs : List Name
  args : List Name
  kwonlyargs : List Name
  vararg : Option Name
  kwarg : Option Name
  /-- The defaults of the last ones of `args`. -/
  defaults : List Expr
  /-- The annotations, and the defaults of keyword-only parameters. -/
  annotations : List Expr
  /-- How many nodes it has besides. -/
  others : ℕ
  body : List Stmt

def Stmt.line : Stmt → ℕ
  | .ret line _ | .assign line _ _ | .cond line _ _ _ | .expr line _ | .assertion line _ _
  | .other line _ _ _ _ => line

mutual

/-- The nodes `ast.walk` visits. -/
def Stmt.nodes : Stmt → List Node
  | .ret _ value => .plain :: value.elim [] Expr.nodes
  | .assign _ targets value => .plain :: (nodesOf targets ++ value.nodes)
  | .cond _ test body orelse => .plain :: (test.nodes ++ stmtNodes body ++ stmtNodes orelse)
  | .expr _ value => .plain :: value.nodes
  | .assertion _ test msg => .plain :: (test.nodes ++ msg.elim [] Expr.nodes)
  | .other _ parts blocks params nodes =>
    List.replicate nodes .plain ++ params.map Node.arg ++ nodesOf parts ++ stmtNodes blocks

def stmtNodes : List Stmt → List Node
  | [] => []
  | s :: rest => s.nodes ++ stmtNodes rest

end

def FunctionDef.nodes (f : FunctionDef) : List Node :=
  .plain :: List.replicate f.others .plain ++ (f.posonlyargs ++ f.args ++ f.kwonlyargs ++
    f.vararg.toList ++ f.kwarg.toList).map Node.arg ++ nodesOf f.decorators ++
    nodesOf f.defaults ++ nodesOf f.annotations ++ stmtNodes f.body

/-- The name a node binds. -/
def Node.stored : Node → Option Name
  | .name id true => some id
  | _ => none

/-- The statements right under one. -/
def Stmt.blocks : Stmt → List Stmt
  | .cond _ _ body orelse => body ++ orelse
  | .other _ _ blocks _ _ => blocks
  | _ => []

mutual

def Stmt.depth : Stmt → ℕ
  | .cond _ _ body orelse => max (stmtDepth body) (stmtDepth orelse) + 1
  | .other _ _ blocks _ _ => stmtDepth blocks + 1
  | _ => 1

def stmtDepth : List Stmt → ℕ
  | [] => 0
  | s :: rest => max s.depth (stmtDepth rest)

end

/-- The statements of some blocks, one level of nesting after the other. -/
def levels : ℕ → List Stmt → List Stmt
  | 0, _ => []
  | n + 1, stmts => stmts ++ levels n (stmts.flatMap Stmt.blocks)

/-! ## Values -/

namespace Value

mutual

/-- `left == right` -/
def same : Value → Value → Bool
  | none, none => true
  | str s, str t => s = t
  | list vs, list ws => sameAll vs ws
  | range a b c, range a' b' c' => rangeItems a b c = rangeItems a' b' c'
  | dict items, dict items' => items.length = items'.length && sameItems items items'
  | v, w =>
    match v.number?, w.number? with
    | some n, some m => n = m
    | _, _ => false

def sameAll : List Value → List Value → Bool
  | [], [] => true
  | v :: vs, w :: ws => same v w && sameAll vs ws
  | _, _ => false

def sameItems : List (Str × Value) → List (Str × Value) → Bool
  | [], _ => true
  | (k, v) :: items, items' => (items'.lookup k).any (same v) && sameItems items items'

end

/-- `left is right`, where `right` is one of the values that exist once. -/
def identical : Value → Value → Outcome Bool
  | none, none => pure true
  | _, none => pure false
  | bool b, bool b' => pure (b = b')
  | _, bool _ => pure false
  | _, _ => leftOpen

/-- `value.get(key)` and `value.get(key, default)` -/
def member : Value → List Value → Outcome Value
  | dict items, [str k] => pure ((items.lookup k).getD none)
  | dict items, [str k, v] => pure ((items.lookup k).getD v)
  | _, _ => leftOpen

end Value

/-- `items[key] = value`: a known key keeps its place. -/
def setItem {κ : Type} [DecidableEq κ] (items : List (κ × Value)) (key : κ) (value : Value) :
    List (κ × Value) :=
  if (items.lookup key).isSome then items.map fun m => if m.1 = key then (key, value) else m
  else items ++ [(key, value)]

/-! ## Expressions in a module -/

/-- What a call of a function of the module comes to. -/
abbrev Callee := Name → List Value → List (Name × Value) → Outcome Value

/-- The names local to a function, and those of the functions of its module. -/
structure Scope where
  locals : List Name
  functions : List Name

/-- What a called name denotes. -/
inductive Target where
  | function (id : Name)
  | builtin (f : Builtin)

def target? (scope : Scope) (id : Name) : Option Target :=
  if id ∈ scope.locals then none
  else if id ∈ scope.functions then some (.function id)
  else (builtin? id).map .builtin

/-- The text of a key that is written out. -/
def keyOf : Option Expr → Option Str
  | some (.constant (.str k)) => some k
  | _ => none

def compareValues (op : Comparison) (v w : Value) : Outcome Value :=
  match op with
  | .eq => pure (.bool (v.same w))
  | .notEq => pure (.bool (!v.same w))
  | .is => do return .bool (← v.identical w)
  | .isNot => do return .bool (!(← v.identical w))
  | .other => leftOpen

def callTarget (call : Callee) (args : List Value) (keywords : List (Name × Value)) :
    Option Target → Outcome Value
  | some (.function id) => call id args keywords
  | some (.builtin f) => if keywords.isEmpty then callBuiltin f args else leftOpen
  | none => leftOpen

mutual

def evaluateIn (call : Callee) (scope : Scope) (σ : Bindings) : Expr → Outcome Value
  | .constant value => valueOf value
  | .name id _ => lookupName σ id
  | .unaryOp .usub operand => do negative (← evaluateIn call scope σ operand)
  | .boolOp or first rest => do
    evaluateRestIn call scope σ or (← evaluateIn call scope σ first) rest
  | .binOp left op right => do
    arithmetic op (← evaluateIn call scope σ left) (← evaluateIn call scope σ right)
  | .compare left [op] [right] => do
    compareValues op (← evaluateIn call scope σ left) (← evaluateIn call scope σ right)
  | .call _ (.attribute value attr) args [] =>
    if attr = "get".toList then do
      let v ← evaluateIn call scope σ value
      v.member (← evaluateAllIn call scope σ args)
    else leftOpen
  | .call _ (.name id _) args keywords => do
    let vs ← evaluateAllIn call scope σ args
    let kws ← evaluateKeywordsIn call scope σ [] keywords
    callTarget call vs kws (target? scope id)
  | .dict items => do return .dict (← evaluateItemsIn call scope σ [] items)
  | .list elts => do return .list (← evaluateAllIn call scope σ elts)
  | _ => leftOpen

def evaluateRestIn (call : Callee) (scope : Scope) (σ : Bindings) (or : Bool) (v : Value) :
    List Expr → Outcome Value
  | [] => pure v
  | e :: es =>
    if v.truthy = or then pure v
    else do evaluateRestIn call scope σ or (← evaluateIn call scope σ e) es

def evaluateAllIn (call : Callee) (scope : Scope) (σ : Bindings) :
    List Expr → Outcome (List Value)
  | [] => pure []
  | e :: es => do return (← evaluateIn call scope σ e) :: (← evaluateAllIn call scope σ es)

/-- The keywords behind those that are stored. No module repeats one in a call. -/
def evaluateKeywordsIn (call : Callee) (scope : Scope) (σ : Bindings)
    (stored : List (Name × Value)) :
    List (Option Name × Expr) → Outcome (List (Name × Value))
  | [] => pure stored
  | (some id, e) :: rest => do
    evaluateKeywordsIn call scope σ (setItem stored id (← evaluateIn call scope σ e)) rest
  | (none, _) :: _ => leftOpen

/-- The items of a dictionary behind those that are stored. -/
def evaluateItemsIn (call : Callee) (scope : Scope) (σ : Bindings) (stored : List (Str × Value)) :
    List (Option Expr × Expr) → Outcome (List (Str × Value))
  | [] => pure stored
  | (key, e) :: rest =>
    match keyOf key with
    | some k => do
      evaluateItemsIn call scope σ (setItem stored k (← evaluateIn call scope σ e)) rest
    | none => leftOpen

end

/-! ## Functions -/

/-- How the execution of statements ends: behind them, or with a value to return. -/
inductive Flow where
  | next (σ : Bindings)
  | returned (v : Value)

mutual

def execute (call : Callee) (scope : Scope) (σ : Bindings) : Stmt → Outcome Flow
  | .ret _ (some e) => do return .returned (← evaluateIn call scope σ e)
  | .ret _ none => pure (.returned .none)
  | .assign _ [.name id _] e => do return .next ((id, ← evaluateIn call scope σ e) :: σ)
  | .cond _ test body orelse => do
    if (← evaluateIn call scope σ test).truthy then executeAll call scope σ body
    else executeAll call scope σ orelse
  | .expr _ e => do
    let _ ← evaluateIn call scope σ e
    return .next σ
  | _ => leftOpen

def executeAll (call : Callee) (scope : Scope) (σ : Bindings) : List Stmt → Outcome Flow
  | [] => pure (.next σ)
  | s :: rest => do
    match ← execute call scope σ s with
    | .next σ' => executeAll call scope σ' rest
    | .returned v => return .returned v

end

mutual

/-- Whether the meaning of an expression is described here, as far as its form says: it binds
no names, makes no generator of its function and repeats no keyword. -/
def Expr.described : Expr → Bool
  | .constant _ | .name _ _ => true
  | .unaryOp _ operand => operand.described
  | .boolOp _ first rest => first.described && describedAll rest
  | .binOp left _ right => left.described && right.described
  | .compare left _ comparators => left.described && describedAll comparators
  | .call _ func args keywords =>
    func.described && describedAll args && describedKeywords keywords &&
      (keywords.map Prod.fst).Nodup
  | .attribute value _ => value.described
  | .subscript _ value slice => value.described && slice.described
  | .dict items => describedItems items
  | .list elts | .tuple elts => describedAll elts
  | .namedExpr _ _ | .other _ _ _ => false

def describedAll : List Expr → Bool
  | [] => true
  | e :: es => e.described && describedAll es

def describedKeywords : List (Option Name × Expr) → Bool
  | [] => true
  | (_, e) :: es => e.described && describedKeywords es

def describedItems : List (Option Expr × Expr) → Bool
  | [] => true
  | (none, e) :: es => e.described && describedItems es
  | (some k, e) :: es => k.described && e.described && describedItems es

end

mutual

def Stmt.described : Stmt → Bool
  | .ret _ value => value.elim true Expr.described
  | .assign _ targets value => describedAll targets && value.described
  | .cond _ test body orelse => test.described && describedBlock body && describedBlock orelse
  | .expr _ value => value.described
  | .assertion _ test msg => test.described && msg.elim true Expr.described
  | .other _ _ _ _ _ => false

def describedBlock : List Stmt → Bool
  | [] => true
  | s :: rest => s.described && describedBlock rest

end

namespace FunctionDef

/-- The names its body can bind. -/
def locals (f : FunctionDef) : List Name :=
  f.args ++ (stmtNodes f.body).filterMap Node.stored

/-- A function with nothing but parameters and described statements. -/
def described (f : FunctionDef) : Bool :=
  f.decorators.isEmpty && f.posonlyargs.isEmpty && f.kwonlyargs.isEmpty && f.vararg.isNone &&
    f.kwarg.isNone && f.args.Nodup && describedAll f.defaults && describedBlock f.body

/-- The values of the parameters in a call, or a `TypeError`. -/
def bind (f : FunctionDef) (defaults args : List Value) (keywords : List (Name × Value)) :
    Outcome Bindings :=
  let σ := keywords ++ (f.args.zip args).reverse ++
    ((f.args.drop (f.args.length - defaults.length)).zip defaults).reverse
  if f.args.length < args.length then raises .typeError
  else if ∃ id ∈ keywords.map Prod.fst, id ∉ f.args ∨ id ∈ f.args.take args.length then
    raises .typeError
  else if ∃ id ∈ f.args, σ.lookup id = none then raises .typeError
  else pure σ

end FunctionDef

/-- What a call of a function of a module comes to where at most `n` calls can be active. -/
def callFunction (functions : List FunctionDef) : ℕ → Callee
  | 0 => fun _ _ _ => leftOpen
  | n + 1 => fun id args keywords =>
    match functions.find? fun f => f.name = id with
    | none => leftOpen
    | some f =>
      if f.described then do
        let names := functions.map FunctionDef.name
        -- Defaults are evaluated with the definition, where a function may not exist yet.
        let defaults ← evaluateAllIn (fun _ _ _ => leftOpen) ⟨[], names⟩ [] f.defaults
        let σ ← f.bind defaults args keywords
        match ← executeAll (callFunction functions n) ⟨f.locals, names⟩ σ f.body with
        | .returned v => return v
        | .next _ => return .none
      else leftOpen

end Python
