import DepClause.Json.Basic

/-!
# Failures

The causes for which a version, a specifier, a marker, a requirement, a template or a setting is
refused, and the one place that words them. Nothing is caught on the way: the caller decides
whether a failure ends the run.
-/

namespace DepClause

/-- Why a comparison operator is refused. -/
inductive OperatorFault where
  | unknown
  | wildcard
  | shortRelease
  | notVersions (left right : String)
  | onExtra
  | onNamed (variableName : String)
  | onOrdered (variableName : String)
  | onRight
  deriving DecidableEq, Repr

/-- Why a text is no marker. -/
inductive MarkerFault where
  | openText
  | character (c : Char)
  | leftover (token : String)
  | closing
  | atEnd
  | noValue (token : String)
  | notWithoutIn
  | noOperator (token : String)
  | twoTexts
  | twoVariables
  deriving DecidableEq, Repr

/-- Why a text is no requirement. -/
inductive RequirementFault where
  | name
  | extra (text : String)
  | parenthesis
  | bracket
  | url
  | afterUrl (text : String)
  | emptyMarker
  deriving DecidableEq, Repr

/-- Why a template cannot be filled in. -/
inductive TemplateFault where
  | brace (token : String)
  | missing (name : String)
  deriving DecidableEq, Repr

/-- Why a setting or a piece of metadata is refused. -/
inductive SettingFault where
  | document
  | metadata
  | notText
  | notTexts
  | notObject
  | notFlag
  | unknownKey
  | noneOf (allowed : List String) (given : String)
  | capabilityForm
  | capabilityKind
  | emptyCapability
  | placeholders (count : Nat) (template : String)
  | missingFile (path : String)
  deriving DecidableEq, Repr

/-- What can go wrong while requirements are read and converted. -/
inductive Failure where
  | malformedVersion (text : String)
  | unknownVariable (name : String)
  | badOperator (operator : String) (fault : OperatorFault) (input : Option String)
  | mixedLocal (version part : String)
  | badMarker (text : String) (fault : MarkerFault) (position : Nat)
  | badRequirement (text : String) (fault : RequirementFault)
  | badTemplate (text : String) (fault : TemplateFault)
  | badSetting (key : String) (fault : SettingFault)
  /-- The message would have to name a value that has no plain text. -/
  | noPlainText
  deriving DecidableEq, Repr

def OperatorFault.message : OperatorFault → String
  | .unknown => "알 수 없는 연산자"
  | .wildcard => "와일드카드 '.*'는 == 또는 != 에서만 사용 가능"
  | .shortRelease => "릴리스 세그먼트가 2개 이상 필요"
  | .notVersions left right =>
    "버전이 아닌 값에는 사용할 수 없습니다: " ++ left ++ " ~= " ++ right
  | .onExtra => "extra 마커는 ==, !=, in, not in 만 지원합니다"
  | .onNamed v => v ++ "은(는) ==, !=, in, not in 만 지원합니다"
  | .onOrdered v => v ++ "은(는) in, not in 을 지원하지 않습니다"
  | .onRight => "이 연산자에서는 설치 시점 변수가 오른쪽에 올 수 없습니다"

def MarkerFault.message : MarkerFault → String
  | .openText => "닫히지 않은 문자열"
  | .character c => "예상치 못한 문자 '" ++ String.singleton c ++ "'"
  | .leftover token => "예상치 못한 토큰 '" ++ token ++ "'"
  | .closing => "')'가 필요합니다"
  | .atEnd => "식이 끝났습니다"
  | .noValue token => "값이 필요합니다: '" ++ token ++ "'"
  | .notWithoutIn => "'not' 뒤에는 'in'이 와야 합니다"
  | .noOperator token => "비교 연산자가 필요합니다: '" ++ token ++ "'"
  | .twoTexts => "비교 대상 중 하나는 변수여야 합니다"
  | .twoVariables => "변수끼리는 비교할 수 없습니다"

def RequirementFault.message : RequirementFault → String
  | .name => "패키지명이 필요합니다"
  | .extra text => "잘못된 extra 이름 '" ++ text ++ "'"
  | .parenthesis => "')'가 필요합니다"
  | .bracket => "']'가 필요합니다"
  | .url => "URL이 필요합니다"
  | .afterUrl text => "URL 뒤에 예상치 못한 내용 '" ++ text ++ "'"
  | .emptyMarker => "';' 뒤에 마커가 없습니다"

def TemplateFault.message : TemplateFault → String
  | .brace token => "짝이 맞지 않는 중괄호 '" ++ token ++ "'"
  | .missing name => "값이 없는 자리표시자 \x7b" ++ name ++ "\x7d"

def SettingFault.message : SettingFault → String
  | .document => "설정 파일은 JSON 객체여야 합니다"
  | .metadata => "메타데이터는 JSON 객체여야 합니다"
  | .notText => "문자열이어야 합니다"
  | .notTexts => "문자열 배열이어야 합니다"
  | .notObject => "객체여야 합니다"
  | .notFlag => "true 또는 false여야 합니다"
  | .unknownKey => "알 수 없는 설정 키입니다"
  | .noneOf allowed given => ", ".intercalate allowed ++ " 중 하나여야 합니다: " ++ given
  | .capabilityForm => "\x7b kind, template | capability \x7d 형식이어야 합니다"
  | .capabilityKind => "'equality' 또는 'ordered'여야 합니다"
  | .emptyCapability => "capability 이름이 비어 있습니다"
  | .placeholders count template =>
    "equality 템플릿에는 자리표시자가 정확히 하나 필요합니다 (" ++ toString count ++ "개): " ++ template
  | .missingFile path => "설정 파일을 찾을 수 없습니다: " ++ path

namespace Failure

def message : Failure → String
  | .malformedVersion text => "잘못된 PEP 440 버전: '" ++ text ++ "'"
  | .unknownVariable name => "지원하지 않는 마커 변수: " ++ name
  | .badOperator operator fault _ => "잘못된 연산자 '" ++ operator ++ "': " ++ fault.message
  | .mixedLocal version part =>
    "로컬 버전 세그먼트 '" ++ part ++ "'는 RPM 순서로 안전하게 인코딩할 수 없습니다: " ++ version
  | .badMarker text fault _ => "잘못된 환경 마커 (" ++ fault.message ++ "): " ++ text
  | .badRequirement text fault => "잘못된 요구사항 (" ++ fault.message ++ "): " ++ text
  | .badTemplate text fault => "템플릿 오류 (" ++ fault.message ++ "): " ++ text
  | .badSetting key fault => "설정 오류 '" ++ key ++ "': " ++ fault.message
  | .noPlainText => "Cannot convert object to primitive value"

/-- The short code of a failure's kind, for the kinds that have one. -/
def code? : Failure → Option String
  | .malformedVersion .. => some "EVERSION"
  | .unknownVariable .. => some "EMARKERVAR"
  | .badOperator .. => some "EOPERATOR"
  | .mixedLocal .. => some "ELOCAL"
  | .badMarker .. => some "EMARKER"
  | .badRequirement .. => some "EREQUIREMENT"
  | .badTemplate .. => some "ETEMPLATE"
  | .badSetting .. => some "ECONFIG"
  | .noPlainText => none

/-- The long name of a failure's kind. -/
def kind : Failure → String
  | .malformedVersion .. => "MalformedVersionError"
  | .unknownVariable .. => "UnsupportedMarkerVariableError"
  | .badOperator .. => "InvalidSpecifierOperatorError"
  | .mixedLocal .. => "InconsistentLocalSegmentError"
  | .badMarker .. => "InvalidMarkerError"
  | .badRequirement .. => "InvalidRequirementError"
  | .badTemplate .. => "TemplateError"
  | .badSetting .. => "ConfigError"
  | .noPlainText => "TypeError"

/-- What the failure is about, for log lines. -/
def context : Failure → List (String × Json)
  | .malformedVersion text => [("input", .text text)]
  | .unknownVariable name => [("variable", .text name)]
  | .badOperator operator _ input =>
    ("operator", .text operator) :: (input.map fun i => ("input", Json.text i)).toList
  | .mixedLocal version _ => [("input", .text version)]
  | .badMarker text _ position => [("input", .text text), ("position", Json.ofNat position)]
  | .badRequirement text _ => [("input", .text text)]
  | .badTemplate text (.missing name) => [("input", .text text), ("key", .text name)]
  | .badTemplate text (.brace _) => [("input", .text text)]
  | .badSetting key _ => [("key", .text key)]
  | .noPlainText => []

end Failure

end DepClause
