import Farmhand.Decimal.Layout
import Farmhand.Script.Span
import Farmhand.Text.Quoted

/-!
# Tokens

The tokens of a script. A script is line oriented, so besides words, numbers, texts and
punctuation there are layout tokens: the end of a line, and the opening and closing of an indented
block. A stretch of text that is no token of the language becomes a token of its own, so that one
bad line never hides the others.

## Main definitions

* `Keyword`, `Punctuation`, `Layout`: The tokens without content.
* `Mark`: Any of the three.
* `Token.Kind`: All kinds of tokens.
* `Token`: A kind with the place where it stands.
* `Token.Kind.describe`: A kind as error messages name it.
-/

namespace Farmhand

namespace Script

/-- The reserved words that are no literals. -/
inductive Keyword where
  | ifWord | elifWord | elseWord | whileWord | forWord | inWord | returnWord | breakWord
  | continueWord | passWord | andWord | orWord | notWord
deriving DecidableEq

/-- Operators and delimiters. -/
inductive Punctuation where
  | plus | minus | star | slash | slashSlash | percent
  | assign | plusAssign | minusAssign
  | equal | notEqual | less | lessEqual | greater | greaterEqual
  | leftParen | rightParen | leftBracket | rightBracket | comma | colon
deriving DecidableEq

/-- The tokens that stand for the shape of the text. -/
inductive Layout where
  | newline | indent | dedent | endOfInput
deriving DecidableEq

/-- A token without content. -/
inductive Mark where
  | keyword (word : Keyword)
  | punctuation (sign : Punctuation)
  | layout (shape : Layout)
deriving DecidableEq

/-- The kinds of tokens. -/
inductive Token.Kind where
  | mark (m : Mark)
  | name (text : String)
  | int (n : Int)
  | float (x : Float)
  | bool (b : Bool)
  | none
  | str (text : String)
  /-- Text that is no token of the language. -/
  | unknown (text : String)
deriving Inhabited

/-- A token and the place where it stands. -/
structure Token where
  kind : Token.Kind
  span : Span
deriving Inhabited

/-- The end of a line. -/
abbrev Mark.newline : Mark := .layout .newline

/-- The opening of an indented block. -/
abbrev Mark.indent : Mark := .layout .indent

/-- The closing of an indented block. -/
abbrev Mark.dedent : Mark := .layout .dedent

/-- The end of the script. -/
abbrev Mark.endOfInput : Mark := .layout .endOfInput

namespace Keyword

/-- The keyword that a word is, if it is one. -/
def ofWord? (word : String) : Option Keyword :=
  match word with
  | "if" => some .ifWord
  | "elif" => some .elifWord
  | "else" => some .elseWord
  | "while" => some .whileWord
  | "for" => some .forWord
  | "in" => some .inWord
  | "return" => some .returnWord
  | "break" => some .breakWord
  | "continue" => some .continueWord
  | "pass" => some .passWord
  | "and" => some .andWord
  | "or" => some .orWord
  | "not" => some .notWord
  | _ => none

/-- A keyword as error messages name it. -/
def describe : Keyword → String
  | .ifWord => "KwIf"
  | .elifWord => "KwElif"
  | .elseWord => "KwElse"
  | .whileWord => "KwWhile"
  | .forWord => "KwFor"
  | .inWord => "KwIn"
  | .returnWord => "KwReturn"
  | .breakWord => "KwBreak"
  | .continueWord => "KwContinue"
  | .passWord => "KwPass"
  | .andWord => "KwAnd"
  | .orWord => "KwOr"
  | .notWord => "KwNot"

end Keyword

/-- An operator or delimiter as error messages name it. -/
def Punctuation.describe : Punctuation → String
  | .plus => "Plus"
  | .minus => "Minus"
  | .star => "Star"
  | .slash => "Slash"
  | .slashSlash => "SlashSlash"
  | .percent => "Percent"
  | .assign => "Eq"
  | .plusAssign => "PlusEq"
  | .minusAssign => "MinusEq"
  | .equal => "EqEq"
  | .notEqual => "Neq"
  | .less => "Lt"
  | .lessEqual => "Le"
  | .greater => "Gt"
  | .greaterEqual => "Ge"
  | .leftParen => "LParen"
  | .rightParen => "RParen"
  | .leftBracket => "LBracket"
  | .rightBracket => "RBracket"
  | .comma => "Comma"
  | .colon => "Colon"

/-- A layout token as error messages name it. -/
def Layout.describe : Layout → String
  | .newline => "Newline"
  | .indent => "Indent"
  | .dedent => "Dedent"
  | .endOfInput => "Eof"

/-- A token without content as error messages name it. -/
def Mark.describe : Mark → String
  | .keyword word => word.describe
  | .punctuation sign => sign.describe
  | .layout shape => shape.describe

/-- Numbers inside error messages: positional from a ten-thousandth up to ten to the sixteenth,
    with an exponent beyond, and with a point when they are whole. -/
def messageNumber : Decimal.Layout :=
  ⟨some (-4, 16), true⟩

namespace Token.Kind

/-- A truth value as it stands in an error message. -/
def boolWord (b : Bool) : String :=
  if b then "true" else "false"

/-- A kind of token as error messages name it: its class, with its content in parentheses. -/
def describe : Token.Kind → String
  | mark m => m.describe
  | name text => s!"Identifier({Text.quoted text})"
  | int n => s!"IntLiteral({n})"
  | float x => s!"FloatLiteral({messageNumber.render x})"
  | bool b => s!"BoolLiteral({boolWord b})"
  | none => "NoneLiteral"
  | str text => s!"StringLiteral({Text.quoted text})"
  | unknown text => s!"Error({Text.quoted text})"

/-- Whether a kind is a given mark. -/
def isMark (m : Mark) : Token.Kind → Bool
  | mark m' => m' = m
  | _ => false

end Token.Kind

end Script

end Farmhand
