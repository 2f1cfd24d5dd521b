import Prism.Model.Analyzer

/-! `parse_file`: the analyzer in a process of its own. -/

namespace Prism.Analyzer

open Pipeline

/-- How the process ends: out of time, with a failure or too much output, or with its
evaluation written. -/
inductive ProcessEnd where
  | timedOut
  | failed
  | written
  deriving DecidableEq, Repr

/-- Whether every finding is one of a known rule, and ends where it starts or later. -/
def isValid (result : Evaluation) : Bool :=
  result.findings.all fun f => (rule? f.ruleId).isSome && f.startLine ≤ f.endLine

section Parse

variable (isWord : Char → Bool) (parserFor : ParserFor)
  (process : List Char → List Char → Bool → ProcessEnd)

/-- `parse_file`, which raises on an evaluation that is not valid. -/
def parseFile (path : List Char) (source : List UInt8) (ignored : Bool) : Option Evaluation :=
  let language := languageFor path
  if maxFile < source.length then some (unevaluated language .limitExceeded .fileSizeLimit)
  else match decode source with
    | none => some (unevaluated language .excluded .encodingUnsupported)
    | some content =>
      match process path content ignored with
      | .timedOut => some (unevaluated language .limitExceeded .parserTimeout)
      | .failed => some (unevaluated language .parseError .parserFailed)
      | .written =>
        match evaluate isWord parserFor path source ignored with
        | none => some (unevaluated language .parseError .parserFailed)
        | some result => if isValid result then some result else none

end Parse

end Prism.Analyzer
