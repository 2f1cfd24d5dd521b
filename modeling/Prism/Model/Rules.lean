import Prism.Foundation.Text
import Prism.Model.Database

/-! The rules of the static analysis and the result of one file. -/

namespace Prism.Pipeline

/-- `MAX_FILE`, in bytes of a file and in scalar values of a patch. -/
def maxFile : ℕ := 200 * 1024

def maxTotal : ℕ := 3 * 1024 * 1024

def maxFiles : ℕ := 100

structure Rule where
  id : String
  message : String
  category : Category := .maintainability
  severity : Severity := .warning
  confidence : Confidence := .high
  version : String := "1.0.0"
  deriving DecidableEq, Repr

/-- `RULES`, in the order of the dictionary. -/
def rules : List Rule := [
  { id := "COM-001"
    message := "파일이 500줄을 초과합니다. 물리적 줄 수 기준의 유지보수 신호입니다."
    severity := .info },
  { id := "COM-002"
    message := "함수 또는 메서드가 60줄을 초과합니다. 주석을 포함한 선언 범위 기준입니다." },
  { id := "COM-004"
    message := "선언 인수가 5개를 초과합니다. 역할 분리를 검토하세요." },
  { id := "COM-003"
    message := "조건·반복 중첩 깊이가 4를 초과합니다. 함수 경계 기준입니다." },
  { id := "PY-004"
    message := "내장 eval 직접 호출입니다. 입력 신뢰 경계를 확인하세요. 취약성은 미검증입니다."
    category := .security
    confidence := .medium },
  { id := "PY-005"
    message := "내장 exec 직접 호출입니다. 입력 신뢰 경계를 확인하세요. 취약성은 미검증입니다."
    category := .security
    confidence := .medium },
  { id := "PY-008"
    message := "Exception/BaseException 포괄 처리입니다. 최외곽 실패 경계인지 확인하세요."
    category := .reliability
    confidence := .medium },
  { id := "JS-005"
    message := "내장 eval 직접 호출 형태입니다. 공격자 입력 여부는 미검증입니다."
    category := .security
    confidence := .medium },
  { id := "JS-006"
    message := "Function 생성자를 사용한 동적 코드 생성입니다. 입력 신뢰 경계를 확인하세요."
    category := .security
    confidence := .medium },
  { id := "COM-009"
    message := "알려진 credential 형식이 발견되었습니다. 유효성은 미검증이며 값은 저장하지 않습니다."
    category := .security
    severity := .critical
    confidence := .medium },
  { id := "COM-010"
    message := "Private key 블록 형식이 발견되었습니다. 유효성은 미검증이며 값은 저장하지 않습니다."
    category := .security
    severity := .critical },
  { id := "JAVA-004"
    message := "비어 있거나 주석만 있는 catch 블록입니다. 예외 처리 의도를 확인하세요."
    category := .reliability },
  { id := "JAVA-005"
    message := "Wildcard import가 있습니다. 명시적 import를 검토하세요."
    category := .style
    severity := .info },
  { id := "JAVA-006"
    message := "빈 statement를 본문으로 가진 반복문입니다. 의도적인 대기인지 확인하세요."
    category := .reliability },
  { id := "JAVA-007"
    message := "public static이며 final이 아닌 필드입니다. 공유 상태 변경을 검토하세요."
    category := .reliability },
  { id := "JAVA-008"
    message := "문자열 literal에 == 또는 !=를 사용했습니다. 의도적인 참조 비교인지 확인하세요."
    category := .reliability
    confidence := .medium },
  { id := "PY-001"
    message := "변경 가능한 literal 기본 인수입니다. 호출 간 공유 의도를 확인하세요."
    category := .reliability },
  { id := "PY-002"
    message := "예외 타입이 없는 except입니다. 시스템 예외까지 포착할 수 있습니다."
    category := .reliability },
  { id := "PY-003"
    message := "pass만 있는 except 본문입니다. 오류 무시 의도를 확인하세요."
    category := .reliability },
  { id := "PY-006"
    message := "Wildcard import가 있습니다. 명시적 import를 검토하세요."
    category := .style
    severity := .info },
  { id := "JS-001"
    message := "var 선언입니다. let 또는 const 사용을 검토하세요."
    category := .style
    severity := .info },
  { id := "JS-002"
    message := "느슨한 동등 비교입니다. 타입 강제 변환 의도를 확인하세요."
    category := .reliability },
  { id := "JS-003"
    message := "debugger statement가 있습니다. 개발 잔여 코드인지 확인하세요."
    category := .reliability },
  { id := "JS-004"
    message := "비어 있거나 주석만 있는 catch 블록입니다. 예외 처리 의도를 확인하세요."
    category := .reliability },
  { id := "TS-001"
    message := "명시적 any 타입입니다. 이 경계의 타입 검증 의도를 확인하세요." },
  { id := "TS-002"
    message := "@ts-ignore 지시 주석입니다. 타입 검사 우회 사유를 확인하세요." },
  { id := "TS-003"
    message := "@ts-nocheck 지시 주석입니다. 파일 타입 검사가 비활성화됩니다." },
  { id := "TS-004"
    message := "Non-null assertion입니다. null이 불가능한지 사람이 확인해야 합니다."
    category := .reliability
    confidence := .medium },
  { id := "TS-005"
    message := "unknown 또는 any를 거치는 이중 타입 assertion입니다. 타입 안전성을 확인하세요."
    confidence := .medium }]

/-- `RULES[rule_id]`. -/
def rule? (id : String) : Option Rule :=
  rules.find? fun r => r.id = id

/-- `language_for(path)`, by the lower-case extension. -/
def languageFor (path : List Char) : Option Language :=
  let ext := ((Text.splitOn '.' path).getLast?.getD []).map Char.toLower
  [("java", Language.java), ("py", .python), ("js", .javascript), ("jsx", .javascript),
    ("mjs", .javascript), ("cjs", .javascript), ("ts", .typescript), ("tsx", .typescript),
    ("mts", .typescript), ("cts", .typescript)].lookup (String.ofList ext)

def prefixes : Language → List String
  | .java => ["JAVA-"]
  | .python => ["PY-"]
  | .javascript => ["JS-"]
  | .typescript => ["JS-", "TS-"]

def startsWith (id pre : String) : Bool :=
  pre.toList.isPrefixOf id.toList

/-- `applicable(language)`. -/
def applicable (language : Option Language) : List String :=
  (rules.map Rule.id).filter fun r => r ∈ ["COM-009", "COM-010"] || language.any fun l =>
    startsWith r "COM-" || (prefixes l).any (startsWith r)

example : applicable none = ["COM-009", "COM-010"] := by
  decide +kernel

/-- `Observation`: where a rule reports a file. -/
structure Observed where
  ruleId : String
  startLine : ℕ
  endLine : ℕ
  deriving DecidableEq, Repr

/-- `Evaluation`. -/
structure Evaluation where
  language : Option Language
  status : FileStatus
  reason : Option FileReason
  findings : List Observed
  evaluated : List String
  notEvaluated : List String
  limit : Bool
  deriving DecidableEq, Repr

end Prism.Pipeline
