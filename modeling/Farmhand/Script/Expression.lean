import Farmhand.Script.Cursor
import Farmhand.Script.Program

/-!
# Reading Expressions

Expressions are read by the binding power of their operators: an operand is followed by all
operators that bind tighter than the surroundings ask for, so that operators of one power group to
the left. A call is a name with a parenthesis right after it; an index may follow any operand.

## Main definitions

* `BinaryOp.power`, `unaryPower`, `notPower`: The table of binding powers.
* `expression`: An expression whose operators bind tighter than a given power.
* `parseExpression`: An expression at the start of a token list.
-/

namespace Farmhand

namespace Script

/-- How tightly an operator binds its operands. -/
def BinaryOp.power : BinaryOp → Nat
  | or => 20
  | and => 30
  | eq | ne => 40
  | lt | le | gt | ge => 50
  | add | sub => 60
  | mul | div | floorDiv | mod => 70

/-- How tightly `not` binds its operand. -/
def notPower : Nat := 35

/-- How tightly a sign binds its operand. -/
def unaryPower : Nat := 80

/-- How tightly an index binds what it indexes. -/
def indexPower : Nat := 90

/-- The operator that a token is between two operands. -/
def BinaryOp.ofKind? : Token.Kind → Option BinaryOp
  | .mark (.keyword .orWord) => some or
  | .mark (.keyword .andWord) => some and
  | .mark (.punctuation .equal) => some eq
  | .mark (.punctuation .notEqual) => some ne
  | .mark (.punctuation .less) => some lt
  | .mark (.punctuation .lessEqual) => some le
  | .mark (.punctuation .greater) => some gt
  | .mark (.punctuation .greaterEqual) => some ge
  | .mark (.punctuation .plus) => some add
  | .mark (.punctuation .minus) => some sub
  | .mark (.punctuation .star) => some mul
  | .mark (.punctuation .slash) => some div
  | .mark (.punctuation .slashSlash) => some floorDiv
  | .mark (.punctuation .percent) => some mod
  | _ => none

/-- The mark of an opening parenthesis. -/
abbrev leftParen : Mark := .punctuation .leftParen

/-- The mark of a closing parenthesis. -/
abbrev rightParen : Mark := .punctuation .rightParen

/-- The mark of an opening bracket. -/
abbrev leftBracket : Mark := .punctuation .leftBracket

/-- The mark of a closing bracket. -/
abbrev rightBracket : Mark := .punctuation .rightBracket

/-- The mark between list items and between arguments. -/
abbrev comma : Mark := .punctuation .comma

mutual

/-- An expression whose operators bind tighter than `floor`. -/
def expression (floor : Nat) (c : Cursor) : Except Fault (Expr × c.Shorter) :=
  match operand c with
  | .error fault => .error fault
  | .ok (left, c₁) =>
    match operators floor left c₁.1 with
    | .error fault => .error fault
    | .ok (e, c₂) => .ok (e, c₁.andThen c₂)
termination_by (c.size, 1)

/-- What an expression can start with: a literal, a name, a call, a list, an expression in
    parentheses, or an operand after a sign or `not`. A plus sign leaves its operand alone. -/
def operand (c : Cursor) : Except Fault (Expr × c.Shorter) :=
  match c.take? with
  | none => .error c.unexpected
  | some (t, c₁) =>
    match t.kind with
    | .int n => .ok (.lit (.int n) t.span, c₁)
    | .float x => .ok (.lit (.float x) t.span, c₁)
    | .str text => .ok (.lit (.str text) t.span, c₁)
    | .bool b => .ok (.lit (.bool b) t.span, c₁)
    | .none => .ok (.lit .none t.span, c₁)
    | .name name =>
      match c₁.1.skip? leftParen with
      | none => .ok (.var name t.span, c₁)
      | some c₂ =>
        match items rightParen c₂.1 with
        | .error fault => .error fault
        | .ok (args, c₃) =>
          match c₃.1.expect rightParen with
          | .error fault => .error fault
          | .ok c₄ =>
            .ok (.call name args (t.span.through c₄.1.last),
              c₁.andThen (c₂.andThen (c₃.andThen c₄.atMost)).atMost)
    | .mark (.punctuation .minus) =>
      match expression unaryPower c₁.1 with
      | .error fault => .error fault
      | .ok (e, c₂) => .ok (.unary .neg e (t.span.through e.span), c₁.andThen c₂.atMost)
    | .mark (.punctuation .plus) =>
      match expression unaryPower c₁.1 with
      | .error fault => .error fault
      | .ok (e, c₂) => .ok (e, c₁.andThen c₂.atMost)
    | .mark (.keyword .notWord) =>
      match expression notPower c₁.1 with
      | .error fault => .error fault
      | .ok (e, c₂) => .ok (.unary .not e (t.span.through e.span), c₁.andThen c₂.atMost)
    | .mark (.punctuation .leftParen) =>
      match expression 0 c₁.1 with
      | .error fault => .error fault
      | .ok (e, c₂) =>
        match c₂.1.expect rightParen with
        | .error fault => .error fault
        | .ok c₃ => .ok (e, c₁.andThen (c₂.andThen c₃.atMost).atMost)
    | .mark (.punctuation .leftBracket) =>
      match items rightBracket c₁.1 with
      | .error fault => .error fault
      | .ok (es, c₂) =>
        match c₂.1.expect rightBracket with
        | .error fault => .error fault
        | .ok c₃ => .ok (.list es (t.span.through c₃.1.last), c₁.andThen (c₂.andThen c₃.atMost))
    | _ => .error c.unexpected
termination_by (c.size, 0)

/-- The operators and indices that follow a left operand and bind tighter than `floor`. -/
def operators (floor : Nat) (left : Expr) (c : Cursor) : Except Fault (Expr × c.AtMost) :=
  match c.take? with
  | none => .ok (left, c.here)
  | some (t, c₁) =>
    match BinaryOp.ofKind? t.kind with
    | some op =>
      if op.power ≤ floor then .ok (left, c.here)
      else
        match expression op.power c₁.1 with
        | .error fault => .error fault
        | .ok (right, c₂) =>
          match operators floor (.binary op left right (left.span.through right.span)) c₂.1 with
          | .error fault => .error fault
          | .ok (e, c₃) => .ok (e, (c₁.andThen (c₂.andThen c₃).atMost).atMost)
    | none =>
      if t.kind.isMark leftBracket && floor < indexPower then
        match expression 0 c₁.1 with
        | .error fault => .error fault
        | .ok (position, c₂) =>
          match c₂.1.expect rightBracket with
          | .error fault => .error fault
          | .ok c₃ =>
            match operators floor (.index left position (left.span.through c₃.1.last)) c₃.1 with
            | .error fault => .error fault
            | .ok (e, c₄) =>
              .ok (e, (c₁.andThen (c₂.andThen (c₃.andThen c₄).atMost).atMost).atMost)
      else .ok (left, c.here)
termination_by (c.size, 0)

/-- The expressions of a call or a list, up to its closing mark. A comma may follow the last. -/
def items (closing : Mark) (c : Cursor) : Except Fault (List Expr × c.AtMost) :=
  if c.isAt closing then .ok ([], c.here)
  else
    match expression 0 c with
    | .error fault => .error fault
    | .ok (e, c₁) =>
      match c₁.1.skip? comma with
      | none => .ok ([e], c₁.atMost)
      | some c₂ =>
        match items closing c₂.1 with
        | .error fault => .error fault
        | .ok (es, c₃) => .ok (e :: es, (c₁.andThen (c₂.andThen c₃).atMost).atMost)
termination_by (c.size, 2)

end

/-- The expression at the start of a token list; what follows it is left unread. -/
def parseExpression (tokens : List Token) : Except Fault Expr :=
  (expression 0 (.start tokens)).map Prod.fst

end Script

end Farmhand
