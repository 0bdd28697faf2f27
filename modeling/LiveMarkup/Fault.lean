import LiveMarkup.Expr.Token
import LiveMarkup.Value

/-!
# What can go wrong

Every part has its own causes; `Fault` joins them, and each cause has one wording.
-/

namespace LiveMarkup

/-- Why a tracker does not run an effect or a container does not take a write. -/
inductive ReactiveFault where
  /-- The effect is running already: what it wrote triggered it again. -/
  | cycle (effect : EffectId)
  /-- As many effects are nested as the limit allows. -/
  | depthExceeded (limit : Nat)
  /-- An index beyond the longest array. -/
  | indexOutOfRange (position limit : Nat)
  /-- A value that cannot be the length of an array. -/
  | invalidLength (shown : String)
  deriving DecidableEq, Repr

/-- The wording of a reactive fault. -/
def ReactiveFault.message : ReactiveFault → String
  | cycle effect =>
      "effect #" ++ toString effect.index ++ " was re-triggered while it was still running"
  | depthExceeded limit => "effect nesting exceeded the limit of " ++ toString limit
  | indexOutOfRange position limit =>
      "array index " ++ toString position ++ " is out of range (limit " ++ toString limit ++ ")"
  | invalidLength shown => "invalid array length `" ++ shown ++ "`"

/-- The code of a reactive fault, for programs that sort faults. -/
def ReactiveFault.code : ReactiveFault → String
  | cycle _ => "Cycle"
  | depthExceeded _ => "DepthExceeded"
  | indexOutOfRange _ _ => "IndexOutOfRange"
  | invalidLength _ => "InvalidLength"

/-- What the grammar of expressions asks for at some place. -/
inductive Expectation where
  | statementEnd
  | colon
  | closingBracket
  | closingParen
  | commaOrClosing
  | propertyName
  | propertyKey
  | expression
  deriving DecidableEq, Repr

/-- How a message names what is expected. -/
def Expectation.describe : Expectation → String
  | statementEnd => "`;` or end of expression"
  | colon => "`:`"
  | closingBracket => "`]`"
  | closingParen => "`)`"
  | commaOrClosing => "`,` or closing bracket"
  | propertyName => "property name"
  | propertyKey => "property key"
  | expression => "an expression"

/-- What was called although it is no function. -/
inductive Callee where
  /-- A value of some type. -/
  | value (type : TypeName)
  /-- A property that holds no function. -/
  | property (key : Key)
  /-- A method that values of the type do not have. -/
  | method (type : TypeName) (name : String)
  deriving DecidableEq, Repr

/-- How a message names what was called. -/
def Callee.describe : Callee → String
  | value type => type.text
  | property key => key.text
  | method type name => type.text ++ "." ++ name

/-- Why an expression cannot be read or evaluated. -/
inductive EvalFault where
  | unexpectedChar (c : Char) (offset : Nat)
  | unterminatedString (offset : Nat)
  | invalidNumber (text : String)
  | unexpectedToken (offset : Nat) (expected : Expectation) (found : Token)
  | unexpectedEnd
  | invalidAssignmentTarget
  | undefinedIdentifier (name : String)
  | readOfNullish (key : Key) (base : TypeName)
  | writeToNullish (key : Key) (base : TypeName)
  | notCallable (callee : Callee)
  | readOnlyBinding (name : String)
  /-- A container did not take a write. -/
  | write (cause : ReactiveFault)
  /-- Functions called one another deeper than the evaluator follows. -/
  | callDepthExceeded
  deriving DecidableEq

/-- The wording of an evaluation fault. -/
def EvalFault.message : EvalFault → String
  | unexpectedChar c offset =>
      "unexpected character `" ++ c.toString ++ "` at offset " ++ toString offset
  | unterminatedString offset =>
      "unterminated string literal starting at offset " ++ toString offset
  | invalidNumber text => "invalid number literal `" ++ text ++ "`"
  | unexpectedToken offset expected found =>
      "syntax error at offset " ++ toString offset ++ ": expected " ++ expected.describe ++
        ", found " ++ found.describe
  | unexpectedEnd => "unexpected end of expression"
  | invalidAssignmentTarget => "invalid assignment target"
  | undefinedIdentifier name => "`" ++ name ++ "` is not defined"
  | readOfNullish key base => "cannot read property `" ++ key.text ++ "` of " ++ base.text
  | writeToNullish key base => "cannot set property `" ++ key.text ++ "` of " ++ base.text
  | notCallable callee => callee.describe ++ " is not a function"
  | readOnlyBinding name => "cannot assign to read-only binding `" ++ name ++ "`"
  | write cause => cause.message
  | callDepthExceeded => "function calls are nested too deeply"

/-- The code of an evaluation fault. -/
def EvalFault.code : EvalFault → String
  | unexpectedChar _ _ => "UnexpectedChar"
  | unterminatedString _ => "UnterminatedString"
  | invalidNumber _ => "InvalidNumber"
  | unexpectedToken _ _ _ => "Syntax"
  | unexpectedEnd => "UnexpectedEnd"
  | invalidAssignmentTarget => "InvalidAssignmentTarget"
  | undefinedIdentifier _ => "UndefinedIdentifier"
  | readOfNullish _ _ => "ReadOfNullish"
  | writeToNullish _ _ => "WriteToNullish"
  | notCallable _ => "NotCallable"
  | readOnlyBinding _ => "ReadOnlyBinding"
  | write cause => "Write/" ++ cause.code
  | callDepthExceeded => "CallDepthExceeded"

/-- Why a directive cannot be bound. -/
inductive DirectiveFault where
  | malformedFor (expression : String)
  | missingEventName
  | dataNotObject (found : TypeName)
  deriving DecidableEq, Repr

/-- The wording of a directive fault. -/
def DirectiveFault.message : DirectiveFault → String
  | malformedFor expression =>
      "malformed repeat expression `" ++ expression ++ "`, expected `<name> in <expr>`"
  | missingEventName => "event directive without an event name"
  | dataNotObject found =>
      "data declaration evaluated to " ++ found.text ++ ", expected an object"

/-- The code of a directive fault. -/
def DirectiveFault.code : DirectiveFault → String
  | malformedFor _ => "MalformedFor"
  | missingEventName => "MissingEventName"
  | dataNotObject _ => "DataNotObject"

/-- Why markup cannot be read. -/
inductive MarkupFault where
  | unexpectedEnd
  | mismatchedClose (expected found : String)
  | unclosed (tag : String)
  | invalidTag (offset : Nat)
  deriving DecidableEq, Repr

/-- The wording of a markup fault. -/
def MarkupFault.message : MarkupFault → String
  | unexpectedEnd => "unexpected end of markup"
  | mismatchedClose expected found =>
      "expected `</" ++ expected ++ ">` but found `</" ++ found ++ ">`"
  | unclosed tag => "element `<" ++ tag ++ ">` is never closed"
  | invalidTag offset => "invalid tag at offset " ++ toString offset

/-- The code of a markup fault. -/
def MarkupFault.code : MarkupFault → String
  | unexpectedEnd => "UnexpectedEof"
  | mismatchedClose _ _ => "MismatchedClose"
  | unclosed _ => "Unclosed"
  | invalidTag _ => "InvalidTag"

/-- Why a configuration is refused. -/
inductive ConfigFault where
  /-- The text is no JSON of a configuration. -/
  | unreadable
  | emptyPrefix
  | zeroDepth
  /-- Some other reason, in the words of whoever found it. -/
  | other (reason : String)
  deriving DecidableEq, Repr

/-- The wording of a configuration fault. -/
def ConfigFault.message (fault : ConfigFault) : String :=
  "invalid configuration: " ++
    match fault with
    | unreadable => "<json>"
    | emptyPrefix => "prefix must not be empty"
    | zeroDepth => "max_effect_depth must be at least 1"
    | other reason => reason

/-- Anything that can go wrong while a template is bound or runs. -/
inductive Fault where
  | eval (cause : EvalFault)
  | reactive (cause : ReactiveFault)
  | directive (cause : DirectiveFault)
  | markup (cause : MarkupFault)
  | config (cause : ConfigFault)
  deriving DecidableEq

/-- The wording of a fault is that of its cause. -/
def Fault.message : Fault → String
  | eval cause => cause.message
  | reactive cause => cause.message
  | directive cause => cause.message
  | markup cause => cause.message
  | config cause => cause.message

/-- The code of a fault: the part it comes from and what is wrong there. -/
def Fault.code : Fault → String
  | eval cause => "Eval/" ++ cause.code
  | reactive cause => "Reactive/" ++ cause.code
  | directive cause => "Directive/" ++ cause.code
  | markup cause => "Markup/" ++ cause.code
  | config _ => "Config"

end LiveMarkup
