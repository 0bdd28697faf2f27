/-!
# Expressions

The tree of an expression: what a directive computes from the data around it.
-/

namespace LiveMarkup

/-- A value that is written out. -/
inductive Literal where
  | undefined
  | null
  | bool (value : Bool)
  | number (value : Float)
  | string (text : String)
  deriving DecidableEq

/-- Operators before one operand. -/
inductive UnaryOp where
  /-- Negation of a truth value. -/
  | not
  /-- Change of sign. -/
  | neg
  /-- Conversion to a number. -/
  | plus
  deriving DecidableEq, Repr

/-- How a unary operator is written. -/
def UnaryOp.spelling : UnaryOp → String
  | not => "!"
  | neg => "-"
  | plus => "+"

/-- Operators that always evaluate both operands. -/
inductive BinaryOp where
  | add
  | sub
  | mul
  | div
  | rem
  | less
  | lessEqual
  | greater
  | greaterEqual
  | equal
  | notEqual
  | strictEqual
  | strictNotEqual
  deriving DecidableEq, Repr

/-- How a binary operator is written. -/
def BinaryOp.spelling : BinaryOp → String
  | add => "+"
  | sub => "-"
  | mul => "*"
  | div => "/"
  | rem => "%"
  | less => "<"
  | lessEqual => "<="
  | greater => ">"
  | greaterEqual => ">="
  | equal => "=="
  | notEqual => "!="
  | strictEqual => "==="
  | strictNotEqual => "!=="

/-- Operators whose second operand may be left alone. -/
inductive LogicalOp where
  | and
  | or
  deriving DecidableEq, Repr

/-- How a logical operator is written. -/
def LogicalOp.spelling : LogicalOp → String
  | and => "&&"
  | or => "||"

/-- How an assignment combines the old value with the new one. -/
inductive AssignOp where
  /-- The old value is replaced. -/
  | set
  /-- The old value is the left operand of an operator. -/
  | compound (op : BinaryOp)
  deriving DecidableEq, Repr

/-- How an assignment is written. -/
def AssignOp.spelling : AssignOp → String
  | set => "="
  | compound op => op.spelling ++ "="

/-- Whether an update counts up or down. -/
inductive Step where
  | up
  | down
  deriving DecidableEq, Repr

/-- What an update adds. -/
def Step.amount : Step → Float
  | up => 1
  | down => -1

/-- An expression. -/
inductive Expr where
  | literal (value : Literal)
  | ident (name : String)
  | array (items : List Expr)
  | object (entries : List (String × Expr))
  | member (object : Expr) (property : String)
  | index (object : Expr) (index : Expr)
  | call (callee : Expr) (args : List Expr)
  | unary (op : UnaryOp) (operand : Expr)
  | binary (op : BinaryOp) (left right : Expr)
  | logical (op : LogicalOp) (left right : Expr)
  | conditional (test consequent alternate : Expr)
  | assign (op : AssignOp) (target value : Expr)
  /-- An update yields the new value if its operator stands before the target, else the old one. -/
  | update (step : Step) (before : Bool) (target : Expr)
  | arrow (params : List String) (body : Expr)
  /-- Statements one after another; the last one gives the value. -/
  | sequence (statements : List Expr)
  deriving Inhabited

/-- Whether an expression may stand on the left of an assignment. -/
def Expr.isAssignable : Expr → Bool
  | ident _ | member _ _ | index _ _ => true
  | _ => false

end LiveMarkup
