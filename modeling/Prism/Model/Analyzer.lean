import Prism.Model.Rules
import Prism.Model.SyntaxTree

/-! The evaluation of one file by the rules: `evaluate` and `evaluate_additional`.
The parsers and the table of word characters are parameters. -/

namespace Prism.Analyzer

open Pipeline

/-! ## The collector -/

structure Collector where
  seen : List Observed
  findings : List Observed
  limit : Bool
  deriving DecidableEq, Repr

def Collector.empty : Collector :=
  ⟨[], [], false⟩

/-- `add`. `Observation` takes no line before the first. -/
def Collector.add (out : Collector) (o : Observed) : Option Collector :=
  if o ∈ out.seen then some out
  else if 100 ≤ out.findings.length then
    some { out with seen := out.seen ++ [o], limit := true }
  else if 1 ≤ o.startLine ∧ 1 ≤ o.endLine then
    some { out with seen := out.seen ++ [o], findings := out.findings ++ [o] }
  else none

/-- The lines of a node: it does not reach into the line it ends before. -/
def Info.lastLine (i : Info) : ℕ :=
  i.endRow + if i.endColumn = 0 then 0 else 1

/-- What `node_add` adds. -/
def nodeAdd (report : String × Cursor) : Observed :=
  ⟨report.1, report.2.node.info.startRow + 1, report.2.node.info.lastLine⟩

/-! ## Secrets -/

/-- `re.finditer` for an expression given by its match at a place: the character
before it and the text from it on determine the length. The lines of each match. -/
def finditer (matchAt : Option Char → List Char → Option ℕ) (before : Option Char) (line skip : ℕ) :
    List Char → List (ℕ × ℕ)
  | [] => []
  | c :: s =>
    let next := if c = '\n' then line + 1 else line
    match skip, matchAt before (c :: s) with
    | 0, some n => (line, line + ((c :: s).take n).count '\n') ::
        finditer matchAt (some c) next (n - 1) s
    | 0, none => finditer matchAt (some c) next 0 s
    | skip + 1, _ => finditer matchAt (some c) next skip s

/-- The rest of a text after `(?:RSA |EC |DSA |OPENSSH |ENCRYPTED )?PRIVATE KEY-----`. -/
def keyMarker (s : List Char) : Option (List Char) :=
  ["RSA ", "EC ", "DSA ", "OPENSSH ", "ENCRYPTED ", ""].findSome? fun kind =>
    Text.after (kind ++ "PRIVATE KEY-----").toList s

/-- The rest of a text after the first marker of an end. -/
def keyEnd : List Char → Option (List Char)
  | [] => none
  | c :: s => ((Text.after "-----END ".toList (c :: s)).bind keyMarker).orElse fun _ => keyEnd s

/-- The length of a block of a private key at the start of a text. -/
def privateKeyAt (_ : Option Char) (s : List Char) : Option ℕ := do
  let body ← (Text.after "-----BEGIN ".toList s).bind keyMarker
  let rest ← keyEnd body
  return s.length - rest.length

section Words

variable (isWord : Char → Bool)

/-- `\b` between two characters. -/
def boundary (before after : Option Char) : Bool :=
  before.any isWord != after.any isWord

def isAlphanumeric (c : Char) : Bool :=
  ('A' ≤ c && c ≤ 'Z') || ('a' ≤ c && c ≤ 'z') || ('0' ≤ c && c ≤ '9')

/-- A prefix, and then a number of characters of a class. -/
def tokenAt (pre : String) (count : ℕ) (p : Char → Bool) (s : List Char) : Option ℕ := do
  let rest ← Text.after pre.toList s
  if (rest.take count).length = count ∧ (rest.take count).all p then
    return pre.length + count
  else none

/-- The length of a credential at a place. -/
def credentialAt (before : Option Char) (s : List Char) : Option ℕ := do
  let n ← ((["p", "o", "u", "s", "r"].findSome? fun kind =>
      tokenAt ("gh" ++ kind ++ "_") 36 isAlphanumeric s).orElse fun _ =>
    (tokenAt "github_pat_" 82 (fun c => isAlphanumeric c || c = '_') s).orElse fun _ =>
    tokenAt "AKIA" 16 (fun c => 'A' ≤ c && c ≤ 'Z' || '0' ≤ c && c ≤ '9') s)
  if boundary isWord before s.head? && boundary isWord s[n - 1]? s[n]? then return n else none

/-- The private keys, and the credentials outside of them. -/
def secrets (content : List Char) : List Observed :=
  let keys := finditer privateKeyAt none 1 0 content
  let credentials := (finditer (credentialAt isWord) none 1 0 content).map Prod.fst
  keys.map (fun r => ⟨"COM-010", r.1, r.2⟩) ++
    (credentials.filter fun line => !keys.any fun r => r.1 ≤ line && line ≤ r.2).map
      fun line => ⟨"COM-009", line, line⟩

end Words

/-! ## Nesting -/

def functions : List String :=
  ["function_definition", "method_declaration", "constructor_declaration", "function_declaration",
    "generator_function_declaration", "function_expression", "generator_function",
    "arrow_function", "method_definition", "lambda_expression", "lambda"]

def controls : List String :=
  ["if_statement", "elif_clause", "for_statement", "for_in_statement", "enhanced_for_statement",
    "while_statement", "do_statement"]

namespace Cursor

/-- An elif, or an if in the place of an else. -/
def chained (c : Cursor) : Bool :=
  c.type = "elif_clause" || (c.type = "if_statement" && c.parent.any fun f =>
    f.parent.type = "else_clause" ||
      (f.parent.type = "if_statement" && c.standsIn "alternative"))

def isFunction (c : Cursor) : Bool :=
  c.type ∈ functions

/-- A control node that adds a level. -/
def isLevel (c : Cursor) : Bool :=
  c.type ∈ controls && !c.chained

/-- The depth below a node that is entered at a depth. -/
def below (c : Cursor) (depth : ℕ) : ℕ :=
  let depth := if c.isFunction then 0 else depth
  if c.isLevel then depth + 1 else depth

end Cursor

/-- The stack of `evaluate_additional` after an entry: the children at their depth. -/
def enter (e : Cursor × ℕ) : List (Cursor × ℕ) :=
  e.1.next.map fun c => (c, e.1.below e.2)

/-- The entries the loop takes from its stack. -/
def visited (root : Node) : List (Cursor × ℕ) :=
  Worklist.drain enter root.size [(Cursor.root root, 0)]

/-- The reports of `COM-003`. -/
def nesting (root : Node) : List (String × Cursor) :=
  ((visited root).filter fun e => e.1.below e.2 = 5 && e.1.isLevel).map fun e =>
    ("COM-003", e.1)

/-! ## Bindings -/

section Bindings

variable (language : Language) (nodes : List Cursor)

/-- What one node says about a name: it may only stand where it is called. -/
def keepsUnbound (name : String) (allowed : List String) (c : Cursor) : Bool :=
  if language = .python ∧ c.type = "wildcard_import" then false
  else if c.type = "with_statement" ∧ language ≠ .python then false
  else if c.type = "property_identifier" ∧ c.text = name.toList then false
  else if c.type ∉ ["identifier", "type_identifier", "shorthand_property_identifier_pattern",
      "shorthand_property_identifier"] ∨ c.text ≠ name.toList then true
  else match c.parent with
    | none => false
    | some f =>
      f.parent.type ∈ allowed &&
        (f.parent.type ∉ ["call", "call_expression", "new_expression"] ||
          c.standsIn (if f.parent.type = "new_expression" then "constructor" else "function"))

/-- `unbound`. -/
def unbound (name : String) (allowed : List String) : Bool :=
  nodes.all (keepsUnbound language name allowed)

/-- Whether a node may change the builtins behind the back of the check. -/
def isDynamic (name : String) (c : Cursor) : Bool :=
  let function := Node.textOf (c.node.childByFieldName "function")
  (c.type = "call" && function ∈
    ["globals".toList, "locals".toList, "vars".toList, "setattr".toList, "__import__".toList]) ||
  (c.type = "identifier" && c.text ∈ ["globalThis".toList, "window".toList, "global".toList,
    "builtins".toList, "__builtins__".toList]) ||
  (name ≠ "exec" && c.type = "call" && function = "exec".toList) ||
  (name ≠ "eval" && c.type = "call_expression" && function = "eval".toList)

/-- What `evaluate_additional` does to `out` and to `emit`. -/
structure Additional where
  evaluated : List String
  notEvaluated : List String
  emitted : List (String × Cursor)

/-- Move a rule to the ones that are not evaluated. `remove` raises when it is absent. -/
def Additional.withdraw (out : Additional) (rule : String) : Option Additional :=
  if rule ∈ out.evaluated then
    some { out with
      evaluated := out.evaluated.erase rule
      notEvaluated := out.notEvaluated ++ [rule] }
  else none

def Additional.emit (out : Additional) (rule : String) (at' : List Cursor) : Additional :=
  { out with emitted := out.emitted ++ at'.map fun c => (rule, c) }

/-- The builtins that run code, with their rules. -/
def targets : List (String × String) :=
  match language with
  | .python => [("eval", "PY-004"), ("exec", "PY-005")]
  | .javascript | .typescript => [("eval", "JS-005"), ("Function", "JS-006")]
  | .java => []

/-- The parents a call of a target may have. -/
def allowedFor (name : String) : List String :=
  if language = .python then ["call"]
  else if name = "Function" then ["call_expression", "new_expression"]
  else ["call_expression"]

/-- Whether a node calls a name directly. -/
def calls (name : String) (allowed : List String) (c : Cursor) : Bool :=
  c.type ∈ allowed &&
    (c.node.childByFieldName
      (if c.type = "new_expression" then "constructor" else "function")).any fun callee =>
        callee.type = "identifier" && callee.info.text = name.toList

/-- The turn of the loop for one target. -/
def checkTarget (out : Additional) (target : String × String) : Option Additional :=
  let allowed := allowedFor language target.1
  if !unbound language nodes target.1 allowed || nodes.any (isDynamic target.1) then
    out.withdraw target.2
  else some (out.emit target.2 (nodes.filter (calls target.1 allowed)))

/-- The first block among the named children. -/
def blockOf (c : Cursor) : Option Node :=
  c.node.namedChildren.find? fun n => n.type = "block"

/-- Whether a block holds nothing but `pass` and comments. -/
def passes (body : Node) : Bool :=
  body.namedChildren.all fun n => n.type ∈ ["pass_statement", "comment"]

/-- The types an except clause catches; an alias without a child raises. -/
def caught (c : Cursor) : Option (List Node) :=
  match c.node.childByFieldName "value" with
  | none => some []
  | some value => do
    let value ← if value.type = "as_pattern" then value.namedChildren.head? else some value
    return if value.type = "tuple" then value.namedChildren else [value]

/-- Whether an except clause catches every exception and does something about it. -/
def catchesAll (c : Cursor) : Option Bool :=
  if c.type ≠ "except_clause" then some false
  else if (blockOf c).any passes then some false
  else do
    let types ← caught c
    return types.any fun n => n.type = "identifier" &&
      n.info.text ∈ ["Exception".toList, "BaseException".toList]

/-- The check of `PY-008`. -/
def checkExcept (out : Additional) : Option Additional :=
  if ["Exception", "BaseException"].all fun name =>
      unbound language nodes name ["except_clause", "as_pattern", "tuple"] then do
    let broad ← nodes.mapM fun c => (catchesAll c).map fun b => (c, b)
    return out.emit "PY-008" ((broad.filter Prod.snd).map Prod.fst)
  else out.withdraw "PY-008"

end Bindings

/-- `evaluate_additional`. -/
def evaluateAdditional (language : Language) (root : Node) (evaluated notEvaluated : List String) :
    Option Additional := do
  let nodes := (visited root).map Prod.fst
  let out ← (targets language).foldlM (checkTarget language nodes)
    ⟨evaluated, notEvaluated, nesting root⟩
  if language = .python then checkExcept language nodes out else return out

/-! ## The other rules -/

section Rules

variable (isWord : Char → Bool) (language : Language) (c : Cursor)

def declarations : List String :=
  ["function_definition", "method_declaration", "constructor_declaration", "function_declaration",
    "generator_function_declaration", "function_expression", "generator_function",
    "arrow_function", "method_definition"]

/-- `empty_body`. -/
def emptyBody (n : Option Node) : Bool :=
  n.any fun n => n.namedChildren.all fun c =>
    c.type ∈ ["comment", "line_comment", "block_comment"]

/-- The parameters of a declaration that count. -/
def parametersOf (params : Node) : List Node :=
  let values := params.namedChildren.filter fun c => c.type ∉ ["comment", "type_parameters"]
  if language = .python then values.filter fun c =>
    c.type ∉ ["positional_separator", "keyword_separator"] &&
      c.info.text ∉ ["self".toList, "cls".toList]
  else values

/-- The checks of declarations. -/
def declarationRules : List String :=
  if c.type ∉ declarations then []
  else
    let info := c.node.info
    let params := (c.node.childByFieldName "parameters").orElse fun _ =>
      c.node.childByFieldName "parameter"
    (if 60 < (info.endRow : ℤ) - info.startRow + 1 then ["COM-002"] else []) ++
      if params.any fun p => 5 < (parametersOf language p).length then ["COM-004"] else []

/-- `==` or `!=`. -/
def looseEquality : Bool :=
  c.type = "binary_expression" &&
    Node.textOf (c.node.childByFieldName "operator") ∈ ["==".toList, "!=".toList]

def hasNamed (type : String) : Bool :=
  c.node.namedChildren.any fun n => n.type = type

/-- `public` and `static` but not `final` among the modifiers. -/
def sharedField : Bool :=
  let mods := c.node.children.find? fun n => n.type = "modifiers"
  let types := ((mods.map Node.children).getD []).map Node.type
  "public" ∈ types && "static" ∈ types && "final" ∉ types

def javaRules : List String :=
  (if c.type = "catch_clause" ∧ emptyBody (c.node.childByFieldName "body") then ["JAVA-004"]
    else []) ++
  (if c.type = "import_declaration" ∧ hasNamed c "asterisk" then ["JAVA-005"] else []) ++
  (if c.type ∈ ["for_statement", "enhanced_for_statement", "while_statement", "do_statement"] ∧
      (c.node.childByFieldName "body").any (fun n => n.type = ";") then ["JAVA-006"] else []) ++
  (if c.type = "field_declaration" ∧ sharedField c then ["JAVA-007"] else []) ++
  if looseEquality c ∧ hasNamed c "string_literal" then ["JAVA-008"] else []

/-- The checks of an except clause. -/
def exceptRules : List String :=
  if (c.node.namedChildren.filter fun n => n.type ∉ ["block", "comment"]).isEmpty then ["PY-002"]
  else if (blockOf c).any passes then ["PY-003"]
  else []

def pythonRules : List String :=
  (if c.type ∈ ["default_parameter", "typed_default_parameter"] ∧
      (c.node.childByFieldName "value").any (fun n => n.type ∈ ["list", "dictionary", "set"]) then
    ["PY-001"] else []) ++
  (if c.type = "except_clause" then exceptRules c else []) ++
  if c.type = "import_from_statement" ∧ hasNamed c "wildcard_import" then ["PY-006"] else []

def javascriptRules : List String :=
  (if c.type = "variable_declaration" then ["JS-001"] else []) ++
  (if c.type = "debugger_statement" then ["JS-003"] else []) ++
  (if c.type = "catch_clause" ∧ emptyBody (c.node.childByFieldName "body") then ["JS-004"]
    else []) ++
  if looseEquality c ∧ ¬hasNamed c "null" then ["JS-002"] else []

/-- `^\s*(?:///?|/\*+)\s*@ts-directive\b`, where no two readings of the opening go on
to the directive. -/
def opensDirective (directive : String) (text : List Char) : Bool :=
  let body := (Text.after "//".toList (text.dropWhile Text.isSpace)).map
    (fun s => (Text.after "/".toList s).getD s)
  let block := (Text.after "/*".toList (text.dropWhile Text.isSpace)).map
    fun s => s.dropWhile (· = '*')
  ((body.orElse fun _ => block).bind fun s =>
    Text.after ("@ts-" ++ directive).toList (s.dropWhile Text.isSpace)).any
      fun rest => boundary isWord directive.toList.getLast? rest.head?

/-- An assertion to `any` or `unknown` that is asserted again. -/
def doubleAssertion : Bool :=
  c.type = "as_expression" && c.node.namedChildren.head?.any fun inner =>
    inner.type = "as_expression" && inner.namedChildren.getLast?.any fun n =>
      n.info.text ∈ ["any".toList, "unknown".toList]

def typescriptRules : List String :=
  (if c.type = "predefined_type" ∧ c.text = "any".toList then ["TS-001"] else []) ++
  (if c.type = "comment" then
    ([("ignore", "TS-002"), ("nocheck", "TS-003")].filter fun d =>
      opensDirective isWord d.1 c.text).map Prod.snd else []) ++
  (if c.type = "non_null_expression" then ["TS-004"] else []) ++
  if doubleAssertion c then ["TS-005"] else []

/-- The rules the second loop of `evaluate` reports at a node. -/
def rulesAt : List String :=
  declarationRules language c ++
    match language with
    | .java => javaRules c
    | .python => pythonRules c
    | .javascript => javascriptRules c
    | .typescript => javascriptRules c ++ typescriptRules isWord c

end Rules

/-- The reports of the second loop of `evaluate`. -/
def structural (isWord : Char → Bool) (language : Language) (root : Node) :
    List (String × Cursor) :=
  (Worklist.drain Cursor.next root.size [Cursor.root root]).flatMap fun c =>
    (rulesAt isWord language c).map fun r => (r, c)

/-! ## Evaluation -/

/-- A tree of one of the grammars: without errors, an alias names what it binds, and
only an empty file ends where it begins. -/
structure SyntaxTree where
  root : Node
  hasError : Bool
  aliases : hasError = false → ∀ c ∈ (Cursor.root root).nodes, ∀ n ∈ c.node.children,
    n.type = "as_pattern" → n.namedChildren ≠ []
  ends : hasError = false → ∀ c ∈ (Cursor.root root).nodes,
    c.node.info.lastLine = 0 → c.type ∈ ["module", "program"]

/-- `parser_for(language, path).parse`, with the choice of the dialect with JSX. -/
abbrev ParserFor := Language → Bool → List UInt8 → SyntaxTree

/-- `source.decode("utf-8")`. -/
def decode (source : List UInt8) : Option (List Char) :=
  (ByteArray.mk source.toArray).utf8Decode?.map Array.toList

def endsWith (path : List Char) (suffixes : List String) : Bool :=
  suffixes.any fun s => s.toList.isSuffixOf path

def isBinary (content : List Char) : Bool :=
  '\x00' ∈ content || "version https://git-lfs.github.com/spec/v1".toList.isPrefixOf content

def isDeclaration (path : List Char) : Bool :=
  endsWith path [".d.ts", ".d.mts", ".d.cts"]

def isGenerated (path content : List Char) : Bool :=
  endsWith path [".min.js", ".min.css"] || Text.contains (content.take 1000) "@generated".toList

/-- The rules of a language that look at its tree. -/
def structuralRules (language : Language) : List String :=
  (applicable (some language)).filter fun r => r ∉ ["COM-009", "COM-010"]

/-- `COM-001`. -/
def lengthRule (content : List Char) : List Observed :=
  let lines := (Text.splitlines content).length
  if 500 < lines then [⟨"COM-001", 1, lines⟩] else []

/-- The outcome of a file that is not evaluated. -/
def unevaluated (language : Option Language) (status : FileStatus) (reason : FileReason) :
    Evaluation :=
  ⟨language, status, some reason, [], [], [], false⟩

section Evaluate

variable (isWord : Char → Bool) (parserFor : ParserFor)

/-- Everything that is added for an error-free tree, in order. -/
def reports (language : Language) (content : List Char) (root : Node) (out : Additional) :
    List Observed :=
  secrets isWord content ++ lengthRule content ++
    (out.emitted ++ structural isWord language root).map nodeAdd

/-- The evaluation of a file whose tree is looked at. -/
def evaluateTree (language : Language) (content : List Char) (tree : SyntaxTree) :
    Option Evaluation := do
  let scanned := ["COM-009", "COM-010"]
  let rules := structuralRules language
  if tree.hasError then
    let out ← (secrets isWord content).foldlM Collector.add Collector.empty
    return ⟨some language, .parseError, some .syntaxError, out.findings, scanned, rules, out.limit⟩
  else
    let more ← evaluateAdditional language tree.root (scanned ++ rules) []
    let out ← (reports isWord language content tree.root more).foldlM Collector.add Collector.empty
    let reason := if more.notEvaluated.isEmpty then none else some .bindingUnresolved
    return ⟨some language, .included, reason, out.findings, more.evaluated, more.notEvaluated,
      out.limit⟩

/-- The evaluation of a file that is only searched for secrets. -/
def scanOnly (language : Option Language) (content : List Char) (reason : FileReason) :
    Option Evaluation := do
  let out ← (secrets isWord content).foldlM Collector.add Collector.empty
  return ⟨language, .included, some reason, out.findings, ["COM-009", "COM-010"], [], out.limit⟩

def evaluate (path : List Char) (source : List UInt8) (ignored : Bool) : Option Evaluation :=
  let language := languageFor path
  if maxFile < source.length then some (unevaluated language .limitExceeded .fileSizeLimit)
  else match decode source with
    | none => some (unevaluated language .excluded .encodingUnsupported)
    | some content =>
      if isBinary content then some (unevaluated language .excluded .binaryOrLfs)
      else if language = none ∨ ignored ∨ isDeclaration path then
        scanOnly isWord language content
          (if ignored then .ignoredSourceRules else .secretScanOnly)
      else if isGenerated path content then
        scanOnly isWord language content .generatedSecretScanOnly
      else match language with
        | none => none
        | some language =>
          evaluateTree isWord language content
            (parserFor language (endsWith path [".tsx"]) source)

end Evaluate

end Prism.Analyzer
