import Stencil.Calendar
import Stencil.Text.Quoted
import Stencil.Text.Utf8

set_option autoImplicit false

/-!
# Failures

Every way in which compiling a template, reading a configuration or running the command can end
without a result, by cause. `Failure.message` holds the wording, but for a text that is no YAML or
no JSON without what the reader of it adds behind a colon. `Failure.group` says which failures
belong together; a failure is `reported` when the command shows its message to the user instead of
giving up.
-/

namespace Stencil

inductive DirectiveFault
  | missingCondition
  | invalidCondition (parameters : String)
  | unlessComparison (parameters : Option String)
  | invalidFor (parameters : Option String)
  | invalidRender (parameters : Option String)
  | missingMeta
  | invalidMeta (faults : Nat) (parameters : String)
  | reservedValue (value : String)
  | missingArgument (what : String)
  deriving Repr, DecidableEq

inductive CoercionFault
  | notOneOf (choices shown : String)
  | notBool (type : String)
  | notText (type : String)
  | notMapping (type : String)
  | notRecord (type : String)
  | notMappingFor (record type : String)
  | unexpectedKeys (shown : String)
  | missingField
  | unbuildable (record why : String)
  deriving Repr, DecidableEq

inductive AssignmentFault
  | noEquals
  | emptyKey
  deriving Repr, DecidableEq

inductive Failure
  | directive (fault : DirectiveFault)
  | unexpectedClose (kind : String)
  | unknownNode (kind : String)
  | notAnArray (collection type : String) (path : Option String)
  | componentNotFound (component : String) (path : Option String)
  | invalidOperator (operator : String)
  | cancelled
  | configNotFound (path : String)
  | variablesNotFound (path : String)
  | invalidYaml (path : String)
  | invalidJson (path : String)
  | yamlNotMapping (path : String)
  | jsonNotObject (path : String)
  | badExtension (extension : String)
  | coercion (path : List String) (fault : CoercionFault)
  | unknownDialect (name : String) (available : List String)
  | dialectTaken (name : String)
  | badAssignment (item : String) (fault : AssignmentFault)
  | templateNotFound (path : String)
  | invalidFileName (name : String)
  | tooManyDigits (digits : Option Nat)
  | notAnInteger (base : Nat) (text : String)
  | notANumber (text : String)
  | notInCalendar (fault : CalendarFault)
  | beyondCalendar
  | emptyNumber
  | severalExponents
  | notATruthValue (word : String)
  | unknownVersion (minor : Nat)
  | repeatedKey
  | codePointTooLarge
  | codePointOutOfRange
  | nullInPath
  | undecodable (fault : Text.Utf8Fault)
  | loneSurrogate
  | missingPart
  | notAPath
  | unprintable
  | unhashable
  | tooLarge
  | noSuchFile (path : String)
  | notADirectory (path : String)
  | isADirectory (path : String)
  | nestedTooDeeply
  | endless
  deriving Repr, DecidableEq

namespace DirectiveFault

def about (complaint : String) : Option String → String
  | none => complaint
  | some parameters => complaint ++ ": " ++ quote parameters

def message : DirectiveFault → String
  | missingCondition => "Missing condition"
  | invalidCondition p => about "Invalid condition" (some p)
  | unlessComparison p => about "Unless accepts a variable name only" p
  | invalidFor p => about "Invalid for statement" p
  | invalidRender p => about "Invalid render statement" p
  | missingMeta => "Missing meta data"
  | invalidMeta n p => about ("Invalid meta data (" ++ toString n ++ " errors)") (some p)
  | reservedValue v => "The variable name \"___\" with the value \"" ++ v ++ "\" is reserved"
  | missingArgument what => "Missing " ++ what

end DirectiveFault

namespace CoercionFault

def message : CoercionFault → String
  | notOneOf choices shown => "expected one of " ++ choices ++ ", got " ++ shown
  | notBool type => "expected bool, got " ++ type
  | notText type => "expected str, got " ++ type
  | notMapping type => "expected mapping, got " ++ type
  | notRecord type => "not a dataclass: " ++ type
  | notMappingFor record type => "expected mapping for " ++ record ++ ", got " ++ type
  | unexpectedKeys shown => "unexpected keys: " ++ shown
  | missingField => "required field missing"
  | unbuildable record why => "failed to build " ++ record ++ ": " ++ why

end CoercionFault

namespace CalendarFault

def message : CalendarFault → String
  | year => "year 0 is out of range"
  | month => "month must be in 1..12"
  | day => "day is out of range for month"
  | hour => "hour must be in 0..23"
  | minute => "minute must be in 0..59"
  | second => "second must be in 0..59"

end CalendarFault

/-- At most so many characters of a text that is no integer are shown. -/
def shownOfInteger : Nat := 200

namespace Failure

def message : Failure → String
  | directive fault => fault.message
  | unexpectedClose kind => "Unexpected '" ++ kind ++ "' without an open scope"
  | unknownNode kind => "Unknown node type: " ++ kind
  | notAnArray collection type path =>
    "The collection " ++ collection ++ " is not an array. It's a " ++ type ++
      (match path with
        | some p => " (in " ++ p ++ ")"
        | none => "")
  | componentNotFound component path =>
    "Component file not found: " ++ component ++ " in " ++ path.getD "None"
  | invalidOperator operator => "Invalid operator: " ++ operator
  | cancelled => "Cancellation requested"
  | configNotFound path => "Config file not found: " ++ path
  | variablesNotFound path => "Variables file not found: " ++ path
  | invalidYaml path => "Invalid YAML in " ++ path
  | invalidJson path => "Invalid JSON in " ++ path
  | yamlNotMapping path => "YAML must be a mapping: " ++ path
  | jsonNotObject path => "JSON must be an object: " ++ path
  | badExtension extension =>
    "component_extension: must start with '.', got " ++ quote extension
  | coercion [] fault => fault.message
  | coercion path fault => ".".intercalate path ++ ": " ++ fault.message
  | unknownDialect name available =>
    "Unknown strategy '" ++ name ++ "'. Available: " ++ ", ".intercalate available
  | dialectTaken name => "Strategy '" ++ name ++ "' already registered"
  | badAssignment item .noEquals =>
    "Invalid variable format '" ++ item ++ "'. Expected 'KEY=VALUE'"
  | badAssignment item .emptyKey => "Invalid variable format '" ++ item ++ "'. Empty key"
  | templateNotFound path => "Template file not found: " ++ path
  | invalidFileName name => "Invalid name " ++ quote name
  | tooManyDigits digits =>
    "Exceeds the limit (4300 digits) for integer string conversion" ++
      (match digits with
        | some n => ": value has " ++ toString n ++ " digits"
        | none => "") ++
      "; use sys.set_int_max_str_digits() to increase the limit"
  | notAnInteger base text =>
    "invalid literal for int() with base " ++ toString base ++ ": " ++
      String.ofList ((quote text).toList.take shownOfInteger)
  | notANumber text => "could not convert string to float: " ++ quote text
  | notInCalendar fault => fault.message
  | beyondCalendar => "date value out of range"
  | emptyNumber => "a number needs a digit"
  | severalExponents => "too many values to unpack (expected 2)"
  | notATruthValue word => "no truth value: " ++ quote word
  | unknownVersion minor => "unknown version: 1." ++ toString minor
  | repeatedKey => "a key of an ordered mapping comes twice"
  | codePointTooLarge => "the code point is too large"
  | codePointOutOfRange => "chr() arg not in range(0x110000)"
  | nullInPath => "embedded null byte"
  | undecodable fault => fault.message
  | loneSurrogate => "half of a pair of surrogates stands alone"
  | missingPart => "text or children were asked of what has none"
  | notAPath => "a path has to be text"
  | unprintable => "the value has no JSON text"
  | unhashable => "a list cannot be part of a key"
  | tooLarge => "int too large to convert to float"
  | noSuchFile path => "No such file or directory: " ++ quote path
  | notADirectory path => "Not a directory: " ++ quote path
  | isADirectory path => "Is a directory: " ++ quote path
  | nestedTooDeeply => "nested too deeply"
  | endless => "the value holds itself"

inductive Group
  | directive
  | nesting
  | collection
  | component
  | operator
  | cancellation
  | configuration
  | coercion
  | value
  | encoding
  | type
  | missingPart
  | missingDigit
  | unknownWord
  | repetition
  | overflow
  | missingFile
  | notADirectory
  | isADirectory
  | depth
  deriving Repr, DecidableEq

def group : Failure → Group
  | directive _ => .directive
  | unexpectedClose _ | unknownNode _ => .nesting
  | notAnArray .. => .collection
  | componentNotFound .. => .component
  | invalidOperator _ => .operator
  | cancelled => .cancellation
  | configNotFound _ | variablesNotFound _ | invalidYaml _ | invalidJson _ | yamlNotMapping _
  | jsonNotObject _ | badExtension _ => .configuration
  | coercion .. => .coercion
  | unknownDialect .. | dialectTaken _ | badAssignment .. | templateNotFound _
  | invalidFileName _ | tooManyDigits _ | notAnInteger .. | notANumber _
  | notInCalendar _ | severalExponents | codePointOutOfRange | nullInPath => .value
  | undecodable _ | loneSurrogate => .encoding
  | missingPart => .missingPart
  | notAPath | unprintable | unhashable => .type
  | emptyNumber => .missingDigit
  | notATruthValue _ | unknownVersion _ => .unknownWord
  | repeatedKey => .repetition
  | tooLarge | beyondCalendar | codePointTooLarge => .overflow
  | noSuchFile _ => .missingFile
  | notADirectory _ => .notADirectory
  | isADirectory _ => .isADirectory
  | nestedTooDeeply | endless => .depth

/-- Whether the failure is one that the user can mend, so that the command shows its message. A
text with half of a pair need not fail at all before it is written somewhere, so what becomes of it
is left open and nothing is reported. -/
def reported (f : Failure) : Bool :=
  match f.group with
  | .directive | .nesting | .collection | .component | .operator | .configuration
  | .coercion | .value => true
  | .encoding => f != .loneSurrogate
  | _ => false

end Failure

end Stencil
