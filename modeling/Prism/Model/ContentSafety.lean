import Prism.Foundation.Regex
import Prism.Foundation.Text

/-! The shared filter for texts that look like secrets. -/

namespace Prism.ContentSafety

/-- Simple case folding to lower case as far as `re.I` needs it for ASCII letters:
four letters outside ASCII fold to ASCII ones. -/
def fold (c : Char) : Char :=
  if 'A' ≤ c ∧ c ≤ 'Z' then Char.ofNat (c.toNat + 32)
  else if c = '\u0130' ∨ c = '\u0131' then 'i'
  else if c = '\u017F' then 's'
  else if c = '\u212A' then 'k'
  else c

def isLetter (c : Char) : Bool :=
  'a' ≤ fold c && fold c ≤ 'z'

def isAlphanumeric (c : Char) : Bool :=
  isLetter c || '0' ≤ c && c ≤ '9'

/-- The scalar values that one of `options` matches under `re.I`. -/
def oneOf (options : List Char) : Regex Char :=
  .set fun c => fold c ∈ options

/-- A text matched letter by letter, in any case. It is given in lower case. -/
def literal (text : List Char) : Regex Char :=
  .inOrder (text.map fun c => oneOf [c])

/-- `-----BEGIN [A-Z ]*PRIVATE KEY`. -/
def privateKey : Regex Char :=
  .inOrder [literal "-----begin ".toList, .star (.set fun c => isLetter c || c = ' '),
    literal "private key".toList]

/-- The shapes of access tokens and key identifiers. -/
def credential : Regex Char :=
  .anyOf [
    .inOrder [literal "gh".toList, oneOf ['p', 'o', 'u', 's', 'r'], literal "_".toList,
      .atLeast 15 (.set isAlphanumeric)],
    .inOrder [literal "github_pat_".toList, .atLeast 15 (.set fun c => isAlphanumeric c || c = '_')],
    .inOrder [literal "sk-".toList,
      .atLeast 12 (.set fun c => isAlphanumeric c || c = '_' || c = '-')],
    .inOrder [literal "akia".toList, .exactly 16 (.set isAlphanumeric)]]

/-- `password|secret|api[_-]?key|token`. -/
def secretName : Regex Char :=
  .anyOf [literal "password".toList, literal "secret".toList,
    .inOrder [literal "api".toList, .opt (oneOf ['_', '-']), literal "key".toList],
    literal "token".toList]

def isQuote (c : Char) : Bool :=
  c = '"' || c = '\''

/-- The name, the assignment sign and the opening quote of an assignment. -/
def assignmentOpening : Regex Char :=
  .inOrder [secretName, .star (.set Text.isSpace), oneOf [':', '='], .star (.set Text.isSpace),
    .set isQuote]

/-- At least four scalar values of a quoted text on one line, and a closing quote. -/
def assignmentValue : Regex Char :=
  .seq (.atLeast 4 (.set fun c => !(isQuote c || c = '\r' || c = '\n'))) (.set isQuote)

/-- `SECRET`. -/
def secret : Regex Char :=
  .anyOf [privateKey, credential, .seq assignmentOpening assignmentValue]

end Prism.ContentSafety
