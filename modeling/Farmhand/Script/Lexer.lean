import Farmhand.Decimal.Reading
import Farmhand.Integer
import Farmhand.Script.Token
import Farmhand.Text.Letter
import Farmhand.Text.Lines

/-!
# From Text to Tokens

Every line that is neither blank nor a comment becomes a run of tokens closed by the end of the
line. A change of its leading white space opens or closes blocks: tab stops are four columns apart,
and the widths of the open blocks form a stack. The only error is a line that closes blocks without
coming back to the width of an open one; text that fits no token is kept as a token of its own.

## Main definitions

* `isCode`: The lines that carry tokens.
* `indentWidth`, `indentLength`: The width and the number of characters of the leading white space.
* `scan`: The token that starts with a given character.
* `lineTokens`: The tokens of one line.
* `changeIndent`: The blocks that a line opens or closes.
* `tokenize`: The tokens of a script.
-/

namespace Farmhand

namespace Script

/-- The one way in which a script can fail to have tokens. -/
inductive LexError where
  /-- A line closes blocks and stands at no open width. -/
  | inconsistentIndent (line : Nat)
deriving DecidableEq

/-- The text of the error. -/
def LexError.message : LexError → String
  | .inconsistentIndent line =>
    s!"line {line}: unindent does not match any outer indentation level"

/-- Tab stops are this many columns apart. -/
def tabWidth : Nat := 4

/-- The white space that indents a line. -/
def isIndent (c : Char) : Bool :=
  c == ' ' || c == '\t'

/-- The width of the leading white space, after `width` columns. -/
def indentWidth (width : Nat) : List Char → Nat
  | ' ' :: rest => indentWidth (width + 1) rest
  | '\t' :: rest => indentWidth (width + (tabWidth - width % tabWidth)) rest
  | _ => width

/-- The number of leading white-space characters. -/
def indentLength (line : List Char) : Nat :=
  (line.takeWhile isIndent).length

/-- A line that is neither blank nor a comment. -/
def isCode (line : List Char) : Bool :=
  match Text.trimStart line with
  | [] => false
  | c :: _ => c != '#'

/-- The value of an escaped character inside a text: a line feed, a tab, or the character. -/
def unescape (c : Char) : Char :=
  if c = 'n' then '\n' else if c = 't' then '\t' else c

/-- The content of a text literal up to its closing quote, whether that quote was found, and what
    follows it. -/
def scanText (quote : Char) : List Char → List Char × Bool × List Char
  | [] => ([], false, [])
  | c :: rest =>
    if c = quote then ([], true, rest)
    else if c = '\\' then
      match rest with
      | [] => ([], false, [])
      | e :: rest =>
        let (content, closed, after) := scanText quote rest
        (unescape e :: content, closed, after)
    else
      let (content, closed, after) := scanText quote rest
      (c :: content, closed, after)

/-- The digits of a number without its underscores, whether a point is among them, and what
    follows. A second point ends the number. -/
def scanDigits (point : Bool) : List Char → List Char × Bool × List Char
  | [] => ([], point, [])
  | c :: rest =>
    if c.isDigit then
      let (digits, point, after) := scanDigits point rest
      (c :: digits, point, after)
    else if c = '_' then scanDigits point rest
    else if c = '.' && !point then
      let (digits, point, after) := scanDigits true rest
      (c :: digits, point, after)
    else ([], point, c :: rest)

/-- The token of the digits of a number: a float if a point is among them, else an integer if it is
    not too large. -/
def numberKind (digits : List Char) (point : Bool) : Token.Kind :=
  if point then
    match Decimal.read? digits with
    | some x => .float x
    | none => .unknown (String.ofList digits)
  else
    match Decimal.natural? digits with
    | some n => if (n : Int) ≤ Integer.max64 then .int n else .unknown (String.ofList digits)
    | none => .unknown (String.ofList digits)

/-- The token of a whole word: a keyword, a literal or a name. -/
def wordKind (word : String) : Token.Kind :=
  match Keyword.ofWord? word with
  | some keyword => .mark (.keyword keyword)
  | none =>
    match word with
    | "True" => .bool true
    | "true" => .bool true
    | "False" => .bool false
    | "false" => .bool false
    | "None" => .none
    | "none" => .none
    | "null" => .none
    | _ => .name word

/-- One of two signs, the longer one if an equals sign follows. -/
def withEqual (short long : Token.Kind) : List Char → Token.Kind × List Char
  | '=' :: rest => (long, rest)
  | rest => (short, rest)

/-- The token of a sign or delimiter, and what follows it. -/
def scanSign (c : Char) (rest : List Char) : Token.Kind × List Char :=
  let sign := fun p => Token.Kind.mark (.punctuation p)
  match c with
  | '+' => withEqual (sign .plus) (sign .plusAssign) rest
  | '-' => withEqual (sign .minus) (sign .minusAssign) rest
  | '*' => (sign .star, rest)
  | '/' =>
    match rest with
    | '/' :: rest => (sign .slashSlash, rest)
    | rest => (sign .slash, rest)
  | '%' => (sign .percent, rest)
  | '=' => withEqual (sign .assign) (sign .equal) rest
  | '!' => withEqual (.unknown "!") (sign .notEqual) rest
  | '<' => withEqual (sign .less) (sign .lessEqual) rest
  | '>' => withEqual (sign .greater) (sign .greaterEqual) rest
  | '(' => (sign .leftParen, rest)
  | ')' => (sign .rightParen, rest)
  | '[' => (sign .leftBracket, rest)
  | ']' => (sign .rightBracket, rest)
  | ',' => (sign .comma, rest)
  | ':' => (sign .colon, rest)
  | c => (.unknown (String.singleton c), rest)

/-- The token that starts with a character, and what follows it. -/
def scan (c : Char) (rest : List Char) : Token.Kind × List Char :=
  if Text.isNameStart c then
    (wordKind (String.ofList (c :: rest.takeWhile Text.isNamePart)),
      rest.dropWhile Text.isNamePart)
  else if c.isDigit then
    let (digits, point, after) := scanDigits false rest
    (numberKind (c :: digits) point, after)
  else if c = '"' || c = '\'' then
    let (content, closed, after) := scanText c rest
    if closed then (.str (String.ofList content), after)
    else (.unknown (String.ofList (c :: content)), after)
  else scanSign c rest

theorem length_scanText_le (quote : Char) (cs : List Char) :
    (scanText quote cs).2.2.length ≤ cs.length := by
  fun_induction scanText quote cs <;> simp_all <;> omega

theorem length_scanDigits_le (point : Bool) (cs : List Char) :
    (scanDigits point cs).2.2.length ≤ cs.length := by
  fun_induction scanDigits point cs <;> simp_all <;> omega

theorem length_withEqual_le (short long : Token.Kind) (cs : List Char) :
    (withEqual short long cs).2.length ≤ cs.length := by
  unfold withEqual
  split <;> simp

theorem length_scanSign_le (c : Char) (rest : List Char) :
    (scanSign c rest).2.length ≤ rest.length := by
  unfold scanSign
  split <;> first | exact length_withEqual_le .. | skip
  all_goals try exact Nat.le_refl _
  split <;> simp

/-- A token takes nothing away but its own characters. -/
theorem length_scan_le (c : Char) (rest : List Char) :
    (scan c rest).2.length ≤ rest.length := by
  unfold scan
  split
  · exact (List.dropWhile_suffix _).length_le
  split
  · exact length_scanDigits_le false rest
  split
  · have := length_scanText_le c rest
    dsimp only
    split <;> exact this
  · exact length_scanSign_le c rest

/-- White space between the tokens of a line. -/
def isGap (c : Char) : Bool :=
  c == ' ' || c == '\t' || c == '\r'

/-- The tokens of a line from a column on, its end included. A comment runs to the end of the
    line. -/
def lineTokens (line column : Nat) : List Char → List Token
  | [] => [⟨.mark .newline, .inLine line column column⟩]
  | c :: rest =>
    if isGap c then lineTokens line (column + 1) rest
    else if c = '#' then
      let stop := column + 1 + rest.length
      [⟨.mark .newline, .inLine line stop stop⟩]
    else
      let next := scan c rest
      let stop := column + 1 + (rest.length - next.2.length)
      ⟨next.1, .inLine line column stop⟩ :: lineTokens line stop next.2
termination_by cs => cs.length
decreasing_by
  · simp
  · have := length_scan_le c rest
    simp only [List.length_cons]
    omega

/-- Closes the open blocks wider than a width: how many they are, and those that stay open. The
    blocks are given by their widths, the innermost first. -/
def closeBlocks (width : Nat) : List Nat → Nat × List Nat
  | [] => (0, [])
  | top :: outer =>
    if width < top then
      let (count, left) := closeBlocks width outer
      (count + 1, left)
    else (0, top :: outer)

/-- The layout tokens in front of a line of a given width, and the blocks open after them, or
    nothing if the line closes blocks and matches none. -/
def changeIndent (width : Nat) (blocks : List Nat) : Option (List Layout × List Nat) :=
  let innermost := blocks.headD 0
  if innermost < width then some ([.indent], width :: blocks)
  else
    let (count, left) := closeBlocks width blocks
    if left.headD 0 = width then some (List.replicate count .dedent, left) else none

/-- The tokens of numbered lines, `blocks` being open before the first of them and `lastLine` the
    last line with tokens so far. At the end all blocks are closed. -/
def tokenizeLines (number : Nat) (blocks : List Nat) (lastLine : Nat) :
    List (List Char) → Except LexError (List Token)
  | [] =>
    let stop := Span.inLine (lastLine + 1) 1 1
    .ok (blocks.map (fun _ => ⟨.mark .dedent, stop⟩) ++ [⟨.mark .endOfInput, stop⟩])
  | line :: rest =>
    if isCode line then
      let start := indentLength line
      match changeIndent (indentWidth 0 line) blocks with
      | none => .error (.inconsistentIndent number)
      | some (shapes, blocks) =>
        let before := shapes.map fun shape =>
          (⟨.mark (.layout shape), .inLine number 1 (start + 1)⟩ : Token)
        match tokenizeLines (number + 1) blocks number rest with
        | .error e => .error e
        | .ok after =>
          .ok (before ++ lineTokens number (start + 1) (line.drop start) ++ after)
    else tokenizeLines (number + 1) blocks lastLine rest

/-- The tokens of a script. -/
def tokenize (source : String) : Except LexError (List Token) :=
  tokenizeLines 1 [] 0 (Text.lines source.toList)

end Script

end Farmhand
