import LiveMarkup.Expr.Basic
import LiveMarkup.Expr.Token.Lexer

/-!
# From tokens to expressions

Loosest first: statements, assignments and arrow functions, conditionals, `||`, `&&`, equality,
order, sums, products, operators before an operand, updates behind a target, members and calls.

Only whole assignments nest, and each nested one stands behind a token of the one around it.  So
`assignment` descends on a bound for its nesting, and as many levels as there are tokens suffice: at
level zero no token is left.  The loops are bounded by the number of tokens for the same reason.
-/

namespace LiveMarkup

/-- A reader of tokens: it fails, or gives a result and the tokens that are left. -/
abbrev Parser := StateT (List Lexeme) (Except EvalFault)

namespace Parser

/-- Takes the next token if it is the given punctuation. -/
def eat (p : Punct) : Parser Bool := fun tokens =>
  match tokens with
  | ⟨.punct q, offset⟩ :: rest =>
      if q = p then .ok (true, rest) else .ok (false, ⟨.punct q, offset⟩ :: rest)
  | tokens => .ok (false, tokens)

/-- The punctuation that comes next, if it does. -/
def peekPunct : Parser (Option Punct) := fun tokens =>
  match tokens with
  | ⟨.punct p, _⟩ :: _ => .ok (some p, tokens)
  | _ => .ok (none, tokens)

/-- Drops the next token. -/
def advance : Parser Unit := fun tokens => .ok ((), tokens.tail)

/-- The number of tokens that are left. -/
def remaining : Parser Nat := fun tokens => .ok (tokens.length, tokens)

/-- Fails at the next token, or at the end. -/
def unexpected {α : Type} (expected : Expectation) : Parser α := fun tokens =>
  match tokens with
  | ⟨token, offset⟩ :: _ => .error (.unexpectedToken offset expected token)
  | [] => .error .unexpectedEnd

/-- Fails for a token that has been taken. -/
def refuse {α : Type} (expected : Expectation) (lexeme : Lexeme) : Parser α :=
  throw (.unexpectedToken lexeme.offset expected lexeme.token)

/-- Takes the given punctuation or fails. -/
def expect (p : Punct) (expected : Expectation) : Parser Unit := do
  if ← eat p then pure () else unexpected expected

/-- Takes the next token, if there is one. -/
def next : Parser (Option Lexeme) := fun tokens =>
  match tokens with
  | lexeme :: rest => .ok (some lexeme, rest)
  | [] => .ok (none, [])

/-- Whether a name is the name of a constant. -/
def isKeyword (name : String) : Bool :=
  name == "true" || name == "false" || name == "null" || name == "undefined"

/-- The expression that a name stands for. -/
def named (name : String) : Expr :=
  if name = "true" then .literal (.bool true)
  else if name = "false" then .literal (.bool false)
  else if name = "null" then .literal .null
  else if name = "undefined" then .literal .undefined
  else .ident name

/-- Items between commas up to a closing token; a comma may stand before it. -/
def listItems {α : Type} (close : Punct) (item : Parser α) : Nat → Parser (List α)
  | 0 => throw .unexpectedEnd
  | fuel + 1 => do
      if ← eat close then return []
      let first ← item
      if ← eat .comma then return first :: (← listItems close item fuel)
      expect close .commaOrClosing
      return [first]

/-- A list up to its closing token. -/
def list {α : Type} (close : Punct) (item : Parser α) : Parser (List α) := do
  listItems close item ((← remaining) + 1)

/-! ## The levels of the grammar over a reader of whole assignments -/

section Levels

variable (whole : Parser Expr)

/-- `key: value`, or a name alone for a property of that name. -/
def property : Parser (String × Expr) := do
  match ← next with
  | none => throw .unexpectedEnd
  | some ⟨.ident name, _⟩ =>
      if ← eat .colon then return (name, ← whole) else return (name, .ident name)
  | some ⟨.string text, _⟩ => expect .colon .colon; return (text, ← whole)
  | some ⟨.number value, _⟩ => expect .colon .colon; return (displayNumber value, ← whole)
  | some lexeme => refuse .propertyKey lexeme

/-- Literals, names, and what stands in brackets. -/
def primary : Parser Expr := do
  match ← next with
  | none => throw .unexpectedEnd
  | some ⟨.number value, _⟩ => return .literal (.number value)
  | some ⟨.string text, _⟩ => return .literal (.string text)
  | some ⟨.ident name, _⟩ => return named name
  | some ⟨.punct .leftParen, _⟩ =>
      let inner ← whole
      expect .rightParen .closingParen
      return inner
  | some ⟨.punct .leftBracket, _⟩ => return .array (← list .rightBracket whole)
  | some ⟨.punct .leftBrace, _⟩ => return .object (← list .rightBrace (property whole))
  | some lexeme => refuse .expression lexeme

/-- The name behind a dot.  Where the text ends there, the dot itself is out of place. -/
def memberName (dot : Lexeme) : Parser String := do
  match ← next with
  | some ⟨.ident name, _⟩ => return name
  | some lexeme => refuse .propertyName lexeme
  | none => refuse .propertyName dot

/-- Member accesses and calls behind an expression. -/
def accesses : Nat → Expr → Parser Expr
  | 0, base => pure base
  | fuel + 1, base => fun tokens =>
      match tokens with
      | ⟨.punct .dot, offset⟩ :: rest =>
          (do accesses fuel (.member base (← memberName ⟨.punct .dot, offset⟩)) : Parser Expr) rest
      | ⟨.punct .leftBracket, _⟩ :: rest =>
          (do
            let index ← whole
            expect .rightBracket .closingBracket
            accesses fuel (.index base index) : Parser Expr) rest
      | ⟨.punct .leftParen, _⟩ :: rest =>
          (do accesses fuel (.call base (← list .rightParen whole)) : Parser Expr) rest
      | tokens => .ok (base, tokens)

/-- A primary expression with its member accesses and calls. -/
def callOrMember : Parser Expr := do
  let base ← primary whole
  accesses whole (← remaining) base

/-- An update of a target. -/
def update (step : Step) (before : Bool) (target : Expr) : Parser Expr :=
  if target.isAssignable then pure (.update step before target)
  else throw .invalidAssignmentTarget

/-- An update operator behind its target. -/
def postfixUpdate : Parser Expr := do
  let base ← callOrMember whole
  match ← peekPunct with
  | some .plusPlus => advance; update .up false base
  | some .minusMinus => advance; update .down false base
  | _ => pure base

/-- Operators before their operand. -/
def unary : Nat → Parser Expr
  | 0 => postfixUpdate whole
  | fuel + 1 => do
      match ← peekPunct with
      | some .bang => advance; return .unary .not (← unary fuel)
      | some .minus => advance; return .unary .neg (← unary fuel)
      | some .plus => advance; return .unary .plus (← unary fuel)
      | some .plusPlus => advance; update .up true (← unary fuel)
      | some .minusMinus => advance; update .down true (← unary fuel)
      | _ => postfixUpdate whole

/-- A unary expression. -/
def operand : Parser Expr := do unary whole (← remaining)

end Levels

/-- The operators of a level behind its first operand; they associate to the left. -/
def chain (level : Parser Expr) (op? : Punct → Option (Expr → Expr → Expr)) :
    Nat → Expr → Parser Expr
  | 0, left => pure left
  | fuel + 1, left => do
      match (← peekPunct).bind op? with
      | some join => advance; chain level op? fuel (join left (← level))
      | none => pure left

/-- Operands of the next tighter level joined by the operators of this one. -/
def leftAssociative (level : Parser Expr) (op? : Punct → Option (Expr → Expr → Expr)) :
    Parser Expr := do
  let left ← level
  chain level op? (← remaining) left

/-- Products. -/
def productOp? : Punct → Option (Expr → Expr → Expr)
  | .star => some (.binary .mul)
  | .slash => some (.binary .div)
  | .percent => some (.binary .rem)
  | _ => none

/-- Sums. -/
def sumOp? : Punct → Option (Expr → Expr → Expr)
  | .plus => some (.binary .add)
  | .minus => some (.binary .sub)
  | _ => none

/-- Comparisons by order. -/
def orderOp? : Punct → Option (Expr → Expr → Expr)
  | .less => some (.binary .less)
  | .lessEqual => some (.binary .lessEqual)
  | .greater => some (.binary .greater)
  | .greaterEqual => some (.binary .greaterEqual)
  | _ => none

/-- Comparisons for equality. -/
def equalityOp? : Punct → Option (Expr → Expr → Expr)
  | .equal => some (.binary .equal)
  | .notEqual => some (.binary .notEqual)
  | .strictEqual => some (.binary .strictEqual)
  | .strictNotEqual => some (.binary .strictNotEqual)
  | _ => none

/-- Conjunctions. -/
def andOp? : Punct → Option (Expr → Expr → Expr)
  | .andAnd => some (.logical .and)
  | _ => none

/-- Disjunctions. -/
def orOp? : Punct → Option (Expr → Expr → Expr)
  | .orOr => some (.logical .or)
  | _ => none

/-- Everything that binds tighter than a conditional. -/
def disjunction (whole : Parser Expr) : Parser Expr :=
  let product := leftAssociative (operand whole) productOp?
  let sum := leftAssociative product sumOp?
  let order := leftAssociative sum orderOp?
  let equality := leftAssociative order equalityOp?
  let conjunction := leftAssociative equality andOp?
  leftAssociative conjunction orOp?

/-- A choice between two expressions, or none. -/
def conditional (whole : Parser Expr) : Parser Expr := do
  let test ← disjunction whole
  if ← eat .question then
    let consequent ← whole
    expect .colon .colon
    return .conditional test consequent (← whole)
  else return test

/-- The names between commas up to the parenthesis and the arrow that end the head of an arrow
function. -/
def arrowNames : List Lexeme → Option (List String × List Lexeme)
  | ⟨.ident name, _⟩ :: ⟨.punct .comma, _⟩ :: rest =>
      if isKeyword name then none
      else (arrowNames rest).map fun (names, rest) => (name :: names, rest)
  | ⟨.ident name, _⟩ :: ⟨.punct .rightParen, _⟩ :: ⟨.punct .arrow, _⟩ :: rest =>
      if isKeyword name then none else some ([name], rest)
  | _ => none

/-- The head of an arrow function, if one begins here: its parameters and the tokens of its body. -/
def arrowHead? : List Lexeme → Option (List String × List Lexeme)
  | ⟨.ident name, _⟩ :: ⟨.punct .arrow, _⟩ :: rest =>
      if isKeyword name then none else some ([name], rest)
  | ⟨.punct .leftParen, _⟩ :: ⟨.punct .rightParen, _⟩ :: ⟨.punct .arrow, _⟩ :: rest =>
      some ([], rest)
  | ⟨.punct .leftParen, _⟩ :: rest => arrowNames rest
  | _ => none

/-- The parameters of an arrow function whose head begins here; no token is taken if none does. -/
def arrowHead : Parser (Option (List String)) := fun tokens =>
  match arrowHead? tokens with
  | some (params, rest) => .ok (some params, rest)
  | none => .ok (none, tokens)

/-- The operator of an assignment. -/
def assignOp? : Punct → Option AssignOp
  | .assign => some .set
  | .plusAssign => some (.compound .add)
  | .minusAssign => some (.compound .sub)
  | .starAssign => some (.compound .mul)
  | .slashAssign => some (.compound .div)
  | _ => none

/-- Arrow functions and assignments, nested at most as deep as the bound. -/
def assignment : Nat → Parser Expr
  | 0 => throw .unexpectedEnd
  | depth + 1 => do
      match ← arrowHead with
      | some params => return .arrow params (← assignment depth)
      | none =>
          let target ← conditional (assignment depth)
          match (← peekPunct).bind assignOp? with
          | none => return target
          | some op =>
              if target.isAssignable then
                advance
                return .assign op target (← assignment depth)
              else throw .invalidAssignmentTarget

/-- Statements with semicolons between them, around them, or repeated. -/
def statements (statement : Parser Expr) : Nat → Parser (List Expr)
  | 0 => pure []
  | fuel + 1 => do
      if (← remaining) = 0 then return []
      if ← eat .semicolon then statements statement fuel
      else
        let first ← statement
        if (← remaining) = 0 then return [first]
        expect .semicolon .statementEnd
        return first :: (← statements statement fuel)

/-- A single statement is an expression itself. -/
def joinStatements : List Expr → Expr
  | [only] => only
  | statements => .sequence statements

/-- A whole program. -/
def program : Parser Expr := do
  let count ← remaining
  return joinStatements (← statements (assignment (count + 1)) count)

end Parser

/-- Reads a row of tokens as a program. -/
def Expr.ofTokens (tokens : List Lexeme) : Except EvalFault Expr :=
  (Parser.program tokens).map Prod.fst

/-- Reads a text as a program. -/
def Expr.parse (source : String) : Except EvalFault Expr := do
  Expr.ofTokens (← Lexeme.ofText source.toList)

end LiveMarkup
