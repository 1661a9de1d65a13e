import PromptChain.Text.Encoding
import PromptChain.Text.Quoted
import PromptChain.Value
/-!
# Faults

Everything that can go wrong, by cause.  `Fault.message` is the one place that words them.
-/

namespace PromptChain

inductive JsonProblem where
  | value
  | propertyName
  | colon
  | comma
  | endOfString
  | controlCharacter
  | escape
  | codePoint
  | trailingData
  | byteOrderMark
  deriving DecidableEq, Repr

inductive ReadFault where
  | malformed (problem : JsonProblem) (line column offset : Nat)
  | longInteger (digits : Nat)
  deriving DecidableEq, Repr

inductive PathStep where
  | field (name : String)
  | index (i : Nat)
  deriving DecidableEq, Repr

def PathStep.toValue : PathStep → Value
  | .field name => .text name
  | .index i => .int i

inductive IssueKind where
  | missing
  | intParsing
  | intParsingSize
  | intType
  | intFromFloat
  | finiteNumber
  | floatParsing
  | floatType
  | boolParsing
  | boolType
  | stringType
  | stringUnicode
  | listType
  | tableType
  | recordType
  | pathType
  | invalidJson
  | notGreater
  | notAtLeast
  deriving DecidableEq, Repr

structure Issue where
  path : List PathStep
  kind : IssueKind
  deriving DecidableEq, Repr

inductive Mismatch where
  | notJson (expected : String) (cause : ReadFault)
  | notA (expected : String)
  | absent
  | notNumber (shown : String)
  | notBoolean (shown : String)
  | missingKey (key : String)
  | invalidRecord (issues : List Issue)
  | other (message : String)
  deriving DecidableEq, Repr

inductive FileFault where
  | notFound
  | isDirectory
  | notDirectory
  | alreadyExists
  | nameTooLong
  deriving DecidableEq, Repr

inductive Fault where
  | unknownProvider (key : String)
  | noPriorStep
  | emptyResult
  | mismatch (why : Mismatch)
  | missingArtifact (key : String)
  | unknownModel (provider label : String)
  /-- A status, which is shown as a text, stands for a refusal. -/
  | refused (provider : String) (status : Value) (shown message : String)
  | missingSetting (name : String)
  | unknownStep (kind : String)
  | reported (code : Value) (message : String)
  | invalidRecord (issues : List Issue)
  | notJson (cause : ReadFault)
  | undecodable (why : Text.Undecodable)
  | unencodable (why : Text.Unencodable)
  /-- A failure of a named sort that comes from outside: from a provider, a hook or a sink. -/
  | outside (name message : String)
  | file (why : FileFault)
  | embeddedNul
  | illegalVariable
  | unnamedVariable
  | notEncodable (kind : String)
  | notEncodedText (kind : String)
  | notJoinable
  | notJoinableItem (index : Nat) (kind : String)
  | notSubscriptable (kind : String)
  | notIndex (container given : String)
  | indexOutOfRange (what : String)
  | hugeIndex
  | notInteger (kind : String)
  | noKey (shown : String)
  | noMember (kind member : String)
  | notCallable (kind : String)
  | notContainer (kind : String)
  | notPartOfText (kind : String)
  | notBytes (kind : String)
  | notByte
  | unkeyed (kind : String)
  | notFieldName (kind : String)
  | notText (kind : String)
  | textPatternOnBytes
  | notIterable (kind : String)
  | notOrdered (operator left right : String)
  | notAddable (left right : String)
  | notConcatenable (whole part : String)
  | intTooLarge
  /-- An integer, which a text gives with this many digits, has too many of them. -/
  | longNumeral (digits : Nat)
  /-- An integer has too many digits to be written. -/
  | longInteger
  | nothingToRaise
  | notImplemented
  | missingPackage (name : String)
  | endlessReference
  deriving DecidableEq, Inhabited

def JsonProblem.message : JsonProblem → String
  | .value => "Expecting value"
  | .propertyName => "Expecting property name enclosed in double quotes"
  | .colon => "Expecting ':' delimiter"
  | .comma => "Expecting ',' delimiter"
  | .endOfString => "Unterminated string starting at"
  | .controlCharacter => "Invalid control character at"
  | .escape => "Invalid \\escape"
  | .codePoint => "Invalid \\uXXXX escape"
  | .trailingData => "Extra data"
  | .byteOrderMark => "Unexpected UTF-8 BOM (decode using utf-8-sig)"

def longIntegerMessage (detail : String) : String :=
  "Exceeds the limit (4300 digits) for integer string conversion" ++ detail
    ++ "; use sys.set_int_max_str_digits() to increase the limit"

def ReadFault.message : ReadFault → String
  | .malformed problem line column offset =>
    problem.message ++ ": line " ++ toString line ++ " column " ++ toString column
      ++ " (char " ++ toString offset ++ ")"
  | .longInteger digits => longIntegerMessage (": value has " ++ toString digits ++ " digits")

def IssueKind.code : IssueKind → String
  | .missing => "missing"
  | .intParsing => "int_parsing"
  | .intParsingSize => "int_parsing_size"
  | .intType => "int_type"
  | .intFromFloat => "int_from_float"
  | .finiteNumber => "finite_number"
  | .floatParsing => "float_parsing"
  | .floatType => "float_type"
  | .boolParsing => "bool_parsing"
  | .boolType => "bool_type"
  | .stringType => "string_type"
  | .stringUnicode => "string_unicode"
  | .listType => "list_type"
  | .tableType => "dict_type"
  | .recordType => "model_type"
  | .pathType => "path_type"
  | .invalidJson => "json_invalid"
  | .notGreater => "greater_than"
  | .notAtLeast => "greater_than_equal"

def Issue.summary (issues : List Issue) : String :=
  toString issues.length ++ " validation errors: "
    ++ ", ".intercalate (issues.map fun issue => issue.kind.code)

def Mismatch.message : Mismatch → String
  | .notJson expected _ => "Input is not a valid JSON " ++ expected
  | .notA expected => "Input is not an " ++ expected
  | .absent => "Value is null or undefined"
  | .notNumber shown => "Cannot convert " ++ shown ++ " to a number"
  | .notBoolean shown => "Cannot convert " ++ shown ++ " to a boolean"
  | .missingKey key => "Missing required key: " ++ key
  | .invalidRecord issues => Issue.summary issues
  | .other message => message

def FileFault.message : FileFault → String
  | .notFound => "No such file or directory"
  | .isDirectory => "Is a directory"
  | .notDirectory => "Not a directory"
  | .alreadyExists => "File exists"
  | .nameTooLong => "File name too long"

def Fault.message : Fault → String
  | .unknownProvider key => "Unknown adapter type: " ++ key
  | .noPriorStep => "No previous prompt or hook to retry"
  | .emptyResult => "Thread processing failed - thread has no final result."
  | .mismatch why => why.message
  | .missingArtifact key => "Artifact \"" ++ key ++ "\" does not exist"
  | .unknownModel provider label => provider ++ " has no model alias \"" ++ label ++ "\""
  | .refused provider _ shown message =>
    provider ++ " request failed (" ++ shown ++ "): " ++ message
  | .missingSetting name => name ++ " is not configured"
  | .unknownStep kind => "Unknown queue item type: " ++ kind
  | .reported _ message => message
  | .invalidRecord issues => Issue.summary issues
  | .notJson cause => cause.message
  | .undecodable why => why.message
  | .unencodable why => why.message
  | .outside _ message => message
  | .file why => why.message
  | .embeddedNul => "embedded null byte"
  | .illegalVariable => "illegal environment variable name"
  | .unnamedVariable => "Invalid argument"
  | .notEncodable kind => "Object of type " ++ kind ++ " is not JSON serializable"
  | .notEncodedText kind =>
    "the JSON object must be str, bytes or bytearray, not " ++ kind
  | .notJoinable => "can only join an iterable"
  | .notJoinableItem index kind =>
    "sequence item " ++ toString index ++ ": expected str instance, " ++ kind ++ " found"
  | .notSubscriptable kind => "'" ++ kind ++ "' object is not subscriptable"
  | .notIndex container given =>
    if container = "string" then "string indices must be integers, not '" ++ given ++ "'"
    else container ++ " indices must be integers or slices, not " ++ given
  | .indexOutOfRange what => what ++ " out of range"
  | .hugeIndex => "cannot fit 'int' into an index-sized integer"
  | .notInteger kind => "'" ++ kind ++ "' object cannot be interpreted as an integer"
  | .noKey shown => shown
  | .noMember kind member =>
    "'" ++ kind ++ "' object has no attribute '" ++ member ++ "'"
  | .notCallable kind => "'" ++ kind ++ "' object is not callable"
  | .notContainer kind => "argument of type '" ++ kind ++ "' is not iterable"
  | .notPartOfText kind => "'in <string>' requires string as left operand, not " ++ kind
  | .notBytes kind => "a bytes-like object is required, not '" ++ kind ++ "'"
  | .notByte => "byte must be in range(0, 256)"
  | .unkeyed kind => "unhashable type: '" ++ kind ++ "'"
  | .notFieldName kind => "keys must be str, int, float, bool or None, not " ++ kind
  | .notText kind => "str expected, not " ++ kind
  | .textPatternOnBytes => "cannot use a string pattern on a bytes-like object"
  | .notIterable kind => "'" ++ kind ++ "' object is not iterable"
  | .notOrdered operator left right =>
    "'" ++ operator ++ "' not supported between instances of '" ++ left ++ "' and '" ++ right ++ "'"
  | .notAddable left right =>
    "unsupported operand type(s) for +: '" ++ left ++ "' and '" ++ right ++ "'"
  | .notConcatenable whole part =>
    if whole = "bytes" then "can't concat " ++ part ++ " to bytes"
    else "can only concatenate " ++ whole ++ " (not \"" ++ part ++ "\") to " ++ whole
  | .intTooLarge => "int too large to convert to float"
  | .longNumeral digits => (ReadFault.longInteger digits).message
  | .longInteger => longIntegerMessage ""
  | .nothingToRaise => "exceptions must derive from BaseException"
  | .notImplemented => ""
  | .missingPackage name => "pip install " ++ name
  | .endlessReference => "maximum recursion depth exceeded"

/-- The code by which the faults of a chain itself are told apart. -/
def Fault.code? : Fault → Option Value
  | .unknownProvider _ => some (.text "ADAPTER_NOT_FOUND")
  | .noPriorStep => some (.text "NO_PRIOR_STEP")
  | .emptyResult => some (.text "EMPTY_RESULT")
  | .mismatch _ => some (.text "SCHEMA_PARSE")
  | .missingArtifact _ => some (.text "ARTIFACT_NOT_FOUND")
  | .unknownModel .. => some (.text "UNKNOWN_MODEL")
  | .refused .. => some (.text "ADAPTER_HTTP")
  | .missingSetting _ => some (.text "CONFIG")
  | .unknownStep _ => some (.text "UNKNOWN_QUEUE_ITEM")
  | .reported code _ => some code
  | _ => none

end PromptChain
