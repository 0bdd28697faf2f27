import LiveMarkup.Number.Text
import LiveMarkup.Text.Quoted

/-!
# Tokens of expressions

An expression is a row of numbers, strings, identifiers and punctuation.
-/

namespace LiveMarkup

/-- Punctuation and operators. -/
inductive Punct where
  | leftParen
  | rightParen
  | leftBracket
  | rightBracket
  | leftBrace
  | rightBrace
  | comma
  | colon
  | semicolon
  | dot
  | question
  | arrow
  | plus
  | minus
  | star
  | slash
  | percent
  | bang
  | assign
  | plusAssign
  | minusAssign
  | starAssign
  | slashAssign
  | plusPlus
  | minusMinus
  | equal
  | strictEqual
  | notEqual
  | strictNotEqual
  | less
  | lessEqual
  | greater
  | greaterEqual
  | andAnd
  | orOr
  deriving DecidableEq, Repr

namespace Punct

/-- How a message names a piece of punctuation. -/
def label : Punct → String
  | leftParen => "LParen"
  | rightParen => "RParen"
  | leftBracket => "LBracket"
  | rightBracket => "RBracket"
  | leftBrace => "LBrace"
  | rightBrace => "RBrace"
  | comma => "Comma"
  | colon => "Colon"
  | semicolon => "Semi"
  | dot => "Dot"
  | question => "Question"
  | arrow => "Arrow"
  | plus => "Plus"
  | minus => "Minus"
  | star => "Star"
  | slash => "Slash"
  | percent => "Percent"
  | bang => "Bang"
  | assign => "Assign"
  | plusAssign => "PlusAssign"
  | minusAssign => "MinusAssign"
  | starAssign => "StarAssign"
  | slashAssign => "SlashAssign"
  | plusPlus => "PlusPlus"
  | minusMinus => "MinusMinus"
  | equal => "Eq"
  | strictEqual => "StrictEq"
  | notEqual => "Ne"
  | strictNotEqual => "StrictNe"
  | less => "Lt"
  | lessEqual => "Le"
  | greater => "Gt"
  | greaterEqual => "Ge"
  | andAnd => "AndAnd"
  | orOr => "OrOr"

/-- How a piece of punctuation is written. -/
def spelling : Punct → List Char
  | leftParen => ['(']
  | rightParen => [')']
  | leftBracket => ['[']
  | rightBracket => [']']
  | leftBrace => ['\x7b']
  | rightBrace => ['\x7d']
  | comma => [',']
  | colon => [':']
  | semicolon => [';']
  | dot => ['.']
  | question => ['?']
  | arrow => ['=', '>']
  | plus => ['+']
  | minus => ['-']
  | star => ['*']
  | slash => ['/']
  | percent => ['%']
  | bang => ['!']
  | assign => ['=']
  | plusAssign => ['+', '=']
  | minusAssign => ['-', '=']
  | starAssign => ['*', '=']
  | slashAssign => ['/', '=']
  | plusPlus => ['+', '+']
  | minusMinus => ['-', '-']
  | equal => ['=', '=']
  | strictEqual => ['=', '=', '=']
  | notEqual => ['!', '=']
  | strictNotEqual => ['!', '=', '=']
  | less => ['<']
  | lessEqual => ['<', '=']
  | greater => ['>']
  | greaterEqual => ['>', '=']
  | andAnd => ['&', '&']
  | orOr => ['|', '|']

end Punct

/-- A token. -/
inductive Token where
  | number (value : Float)
  | string (text : String)
  | ident (name : String)
  | punct (p : Punct)
  deriving DecidableEq

/-- How a message names a token that is out of place. -/
def Token.describe : Token → String
  | number value => "number `" ++ displayNumber value ++ "`"
  | string text => "string " ++ quotedText text
  | ident name => "`" ++ name ++ "`"
  | punct p => p.label

/-- A token and the byte offset at which it begins. -/
structure Lexeme where
  /-- The token. -/
  token : Token
  /-- The number of bytes before it. -/
  offset : Nat
  deriving DecidableEq

end LiveMarkup
