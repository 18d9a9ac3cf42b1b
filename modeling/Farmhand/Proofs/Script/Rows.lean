import Farmhand.Proofs.Script.Dedent
import Farmhand.Proofs.Script.Lexemes
import Farmhand.Proofs.Script.Indented

/-!
# The Tokens of Written Programs

The lines of a written program are read back as its rows, each indented by four blanks for each
level. The layout is read off the depths: a line opens one block, or it closes as many as it is
less deep than the line above. So the tokens of a program are those of its statements, with the
opening and the closing of each block around them, whatever stands below it.

## Main definitions

* `Stmt.kinds`, `Stmt.kindsOfBlock`: The kinds of the tokens of written statements.
* `Firm`: The texts that stand on a line as they are.
* `Spells`: The kinds of the tokens of rows with a number of blocks open above them.

## Theorems

* `Stmt.firm_rowsOfBlock`: The rows of a program stand on their lines as they are.
* `Spells.codeTokens`: The tokens of numbered rows.
* `tokenize_written`: The tokens of a written program.
-/

namespace Farmhand

namespace Script

/-! ## Kinds -/

/-- The kinds of the tokens of a header that begins with a word and holds an expression. -/
def headerKinds (word : Keyword) (e : Expr) : List Token.Kind :=
  .mark (.keyword word) :: (e.kinds ++ [.mark colon, .mark .newline])

mutual

/-- The kinds of the tokens of a written statement. -/
def Stmt.kinds : Stmt → List Token.Kind
  | .assign name op value _ => .name name :: op.kind :: (value.kinds ++ [.mark .newline])
  | .expr value _ => value.kinds ++ [.mark .newline]
  | .cond branches otherwise _ =>
    Stmt.kindsOfBranches .ifWord branches ++
      match otherwise with
      | some body =>
        .mark (.keyword .elseWord) :: .mark colon :: .mark .newline ::
          .mark .indent :: (Stmt.kindsOfBlock body ++ [.mark .dedent])
      | none => []
  | .whileLoop condition body _ =>
    headerKinds .whileWord condition ++
      .mark .indent :: (Stmt.kindsOfBlock body ++ [.mark .dedent])
  | .forLoop name items body _ =>
    .mark (.keyword .forWord) :: .name name :: (headerKinds .inWord items ++
      .mark .indent :: (Stmt.kindsOfBlock body ++ [.mark .dedent]))
  | .returnWith (some value) _ => .mark (.keyword .returnWord) :: (value.kinds ++ [.mark .newline])
  | .returnWith none _ => [.mark (.keyword .returnWord), .mark .newline]
  | .breakLoop _ => [.mark (.keyword .breakWord), .mark .newline]
  | .continueLoop _ => [.mark (.keyword .continueWord), .mark .newline]
  | .pass _ => [.mark (.keyword .passWord), .mark .newline]
  | .skipped _ _ => []

/-- The kinds of the tokens of the branches of a conditional, the first of which begins with a
    given word. -/
def Stmt.kindsOfBranches (word : Keyword) : List (Expr × List Stmt) → List Token.Kind
  | [] => []
  | (condition, body) :: rest =>
    headerKinds word condition ++ .mark .indent :: (Stmt.kindsOfBlock body ++
      .mark .dedent :: Stmt.kindsOfBranches .elifWord rest)

/-- The kinds of the tokens of a written block. -/
def Stmt.kindsOfBlock : List Stmt → List Token.Kind
  | [] => []
  | stmt :: rest => stmt.kinds ++ Stmt.kindsOfBlock rest

end

/-- The kinds of the tokens of a block with its opening and its closing. -/
def bodyKinds (body : Block) : List Token.Kind :=
  .mark .indent :: (Stmt.kindsOfBlock body ++ [.mark .dedent])

/-! ## Texts that stand on a line -/

/-- A text that ends with something that is no carriage return, which a line would lose. -/
def Ends (text : List Char) : Prop :=
  ∃ more c, text = more ++ [c] ∧ c ≠ '\r'

-- The end of a text is that of its last part.
theorem Ends.append {text : List Char} (h : Ends text) (front : List Char) :
    Ends (front ++ text) := by
  rcases h with ⟨more, c, rfl, hc⟩
  exact ⟨front ++ more, c, (List.append_assoc front more [c]).symm, hc⟩

-- One more character in front changes nothing about the end.
theorem Ends.cons {text : List Char} (h : Ends text) (c : Char) : Ends (c :: text) :=
  h.append [c]

-- One character is its own end.
theorem ends_singleton {c : Char} (h : c ≠ '\r') : Ends [c] :=
  ⟨[], c, rfl, h⟩

/-- Such a text loses nothing at its end. -/
theorem Ends.dropReturn {text : List Char} (h : Ends text) : Text.dropReturn text = text := by
  rcases h with ⟨more, c, rfl, hc⟩
  induction more with
  | nil =>
      rw [List.nil_append, Text.dropReturn, if_neg fun h => hc h.1]
      rfl
  | cons d rest ih =>
      rw [List.cons_append, Text.dropReturn, if_neg fun h => List.append_ne_nil_of_right_ne_nil
        rest (List.cons_ne_nil c []) h.2, ih]

/-- A text that stands on a line as it is: nothing of it is taken for indentation, for a comment or
    for the end of the line. -/
structure Firm (text : List Char) : Prop where
  leads : Leads text
  row : '\n' ∉ text
  ends : Ends text

-- What a line may begin with stands as it is, if it is one line with a good end.
theorem Leads.firm {text : List Char} (h : Leads text) (hrow : '\n' ∉ text ∧ Ends text) :
    Firm text :=
  ⟨h, hrow.1, hrow.2⟩

-- Where there is no carriage return, there is none at the end.
theorem ends_of_not_mem {text : List Char} (hne : text ≠ []) (h : '\r' ∉ text) : Ends text :=
  ⟨text.dropLast, text.getLast hne, (List.dropLast_concat_getLast hne).symm,
    fun heq => h (heq ▸ List.getLast_mem hne)⟩

/-- Words stand as they are. -/
theorem firm_of_isName {word : List Char} (h : Text.isName word = true) : Firm word := by
  have hparts : ∀ c ∈ word, Text.isNamePart c = true := by
    cases word with
    | nil => exact nofun
    | cons c more =>
        rw [Text.isName, Bool.and_eq_true, List.all_eq_true] at h
        exact List.forall_mem_cons.mpr ⟨isNamePart_of_isNameStart h.1, h.2⟩
  refine ⟨leads_of_isName h, fun hc => absurd (hparts _ hc) (by decide), ends_of_not_mem ?_ ?_⟩
  · rintro rfl
    exact absurd h (by decide)
  · intro hc
    exact absurd (hparts _ hc) (by decide)

-- In quotes, a line feed is written with a backslash.
theorem not_mem_escaped (c : Char) : '\n' ∉ escaped c := by
  unfold escaped
  split
  · decide
  · split
    · decide
    · split
      · decide
      · next hc =>
          rw [List.mem_singleton]
          exact fun h => hc h.symm

/-- Literals stand as they are, texts in their quotes as well. -/
theorem Literal.firm_written {value : Literal} (h : value.Writable) : Firm value.written := by
  refine (Literal.leads_written h).firm ?_
  cases value with
  | int n =>
      have hdigit : ∀ c ∈ Nat.toDigits 10 n.toNat, c.isDigit = true :=
        fun c hc => Nat.isDigit_of_mem_toDigits (by decide) (by decide) hc
      refine ⟨fun hc => absurd (hdigit _ hc) (by decide), ends_of_not_mem Nat.toDigits_ne_nil ?_⟩
      intro hc
      exact absurd (hdigit _ hc) (by decide)
  | float x => exact h.elim
  | str text =>
      refine ⟨?_, (ends_singleton (by decide)).append ('"' :: text.toList.flatMap escaped)⟩
      rw [Literal.written, inQuotes, List.mem_cons, List.mem_append, List.mem_flatMap,
        List.mem_singleton]
      rintro (hc | ⟨c, _, hc⟩ | hc)
      · exact absurd hc (by decide)
      · exact not_mem_escaped c hc
      · exact absurd hc (by decide)
  | bool b =>
      cases b with
      | true => exact ⟨by decide, ends_of_not_mem (by decide) (by decide)⟩
      | false => exact ⟨by decide, ends_of_not_mem (by decide) (by decide)⟩
  | none => exact ⟨by decide, ends_of_not_mem (by decide) (by decide)⟩

-- A text in parentheses stands on a line as it is.
theorem firm_enclosed (atom : Bool) {text : List Char} (h : Firm text) :
    Firm (enclosed atom text) := by
  refine (leads_enclosed atom h.leads).firm ?_
  cases atom with
  | true => exact ⟨h.row, h.ends⟩
  | false =>
      refine ⟨?_, (ends_singleton (by decide)).append ('(' :: text)⟩
      simp only [enclosed, Bool.false_eq_true, if_false, List.mem_cons, List.mem_append,
        List.not_mem_nil, or_false, h.row, false_or]
      decide

mutual

/-- Expressions stand as they are. What is in front in them is a word, a bracket, a sign or a
    literal, and what is last is one of these as well. -/
theorem Expr.firm_written (e : Expr) (h : e.Writable) : Firm e.written := by
  refine (Expr.leads_written e h).firm ?_
  have hbracket : Ends [']'] := ends_singleton (by decide)
  cases e with
  | lit value _ => exact ⟨(Literal.firm_written h).row, (Literal.firm_written h).ends⟩
  | var name _ => exact ⟨(firm_of_isName h.1).row, (firm_of_isName h.1).ends⟩
  | list items _ =>
      refine ⟨?_, (hbracket.append _).cons _⟩
      simp only [Expr.written, List.mem_cons, List.mem_append, List.not_mem_nil, or_false,
        Expr.row_writtenItems items h, false_or]
      decide
  | index container position _ =>
      have hcontainer := firm_enclosed container.isAtom (Expr.firm_written container h.1)
      refine ⟨?_, ((hbracket.append _).cons _).append _⟩
      simp only [Expr.written, List.mem_cons, List.mem_append, List.not_mem_nil, or_false,
        hcontainer.row, (Expr.firm_written position h.2).row, false_or]
      decide
  | unary op operand _ =>
      have hoperand := firm_enclosed operand.isAtom (Expr.firm_written operand h)
      cases op with
      | neg =>
          refine ⟨?_, hoperand.ends.cons _⟩
          simp only [Expr.written, List.mem_cons, hoperand.row, or_false]
          decide
      | not =>
          refine ⟨?_, (hoperand.ends.cons _).append _⟩
          simp only [Expr.written, List.mem_append, List.mem_cons, hoperand.row, or_false]
          decide
  | binary op left right _ =>
      have hleft := firm_enclosed left.isAtom (Expr.firm_written left h.1)
      have hright := firm_enclosed right.isAtom (Expr.firm_written right h.2)
      refine ⟨?_, (((hright.ends.cons _).append _).cons _).append _⟩
      simp only [Expr.written, List.mem_append, List.mem_cons, hleft.row, hright.row, or_false,
        false_or]
      cases op <;> decide
  | call name args _ =>
      refine ⟨?_, (((ends_singleton (by decide)).append _).cons _).append _⟩
      simp only [Expr.written, List.mem_cons, List.mem_append, List.not_mem_nil, or_false,
        (firm_of_isName h.1.1).row, Expr.row_writtenItems args h.2, false_or]
      decide

-- The items of a list stay on their line.
theorem Expr.row_writtenItems (es : List Expr) (h : Expr.WritableAll es) :
    '\n' ∉ Expr.writtenItems es := by
  cases es with
  | nil => exact List.not_mem_nil
  | cons e more =>
      rw [Expr.writtenItems, List.mem_append, not_or]
      exact ⟨(Expr.firm_written e h.1).row, Expr.row_writtenMore more h.2⟩

-- Items behind the first stand on a line as they are.
theorem Expr.row_writtenMore (es : List Expr) (h : Expr.WritableAll es) :
    '\n' ∉ Expr.writtenMore es := by
  cases es with
  | nil => exact List.not_mem_nil
  | cons e more =>
      simp only [Expr.writtenMore, List.mem_cons, List.mem_append,
        (Expr.firm_written e h.1).row, Expr.row_writtenMore more h.2, or_false]
      decide

end

-- What is put behind a text may be anything on its line with a good end.
theorem Firm.append {front rest : List Char} (h : Firm front) (hrow : '\n' ∉ rest)
    (hends : Ends rest) : Firm (front ++ rest) := by
  refine ⟨h.leads.append rest, ?_, hends.append front⟩
  rw [List.mem_append, not_or]
  exact ⟨h.row, hrow⟩

-- A word, a blank and something more.
theorem Firm.blank {front rest : List Char} (h : Firm front) (hrest : Firm rest) :
    Firm (front ++ ' ' :: rest) := by
  refine h.append ?_ (hrest.ends.cons ' ')
  rw [List.mem_cons, not_or]
  exact ⟨by decide, hrest.row⟩

/-- Headers stand as they are. -/
theorem firm_headerRow {word : String} (hword : Text.isName word.toList = true) {e : Expr}
    (h : e.Writable) : Firm (headerRow word e) :=
  (firm_of_isName hword).blank
    ((Expr.firm_written e h).append (by decide) (ends_singleton (by decide)))

-- An assignment goes on behind its name with a sign and a value.
theorem AssignOp.firm_sign (op : AssignOp) {rest : List Char} (h : Firm rest) :
    '\n' ∉ ' ' :: (op.sign.toList ++ ' ' :: rest) ∧
      Ends (' ' :: (op.sign.toList ++ ' ' :: rest)) := by
  refine ⟨?_, ((h.ends.cons ' ').append _).cons ' '⟩
  simp only [List.mem_cons, List.mem_append, h.row, or_false]
  cases op <;> decide

mutual

/-- The rows of a statement stand on their lines as they are. -/
theorem Stmt.firm_rows (s : Stmt) (h : s.Writable) (depth : Nat) :
    ∀ row ∈ s.rows depth, Firm row.2 := by
  have hsingle : ∀ word : String, Text.isName word.toList = true →
      ∀ row ∈ [(depth, word.toList)], Firm row.2 :=
    fun word hword row hrow => List.mem_singleton.mp hrow ▸ firm_of_isName hword
  cases s with
  | assign name op value _ =>
      intro row hrow
      have hsign := op.firm_sign (Expr.firm_written value h.2)
      exact List.mem_singleton.mp hrow ▸ (firm_of_isName h.1.1).append hsign.1 hsign.2
  | expr value _ =>
      intro row hrow
      exact List.mem_singleton.mp hrow ▸ Expr.firm_written value h
  | cond branches otherwise _ =>
      cases otherwise with
      | none =>
          rw [Stmt.Writable] at h
          exact List.forall_mem_append.mpr
            ⟨Stmt.firm_rowsOfBranches branches h.2.1 depth "if" (by decide), nofun⟩
      | some body =>
          rw [Stmt.Writable] at h
          have helse : Firm "else:".toList :=
            ⟨⟨'e', "lse:".toList, rfl, by decide, by decide, by decide⟩, by decide,
              ends_of_not_mem (by decide) (by decide)⟩
          exact List.forall_mem_append.mpr
            ⟨Stmt.firm_rowsOfBranches branches h.2.1 depth "if" (by decide),
              List.forall_mem_cons.mpr ⟨helse, Stmt.firm_rowsOfBlock body h.2.2.2 (depth + 1)⟩⟩
  | whileLoop condition body _ =>
      exact List.forall_mem_cons.mpr ⟨firm_headerRow (by decide) h.1,
        Stmt.firm_rowsOfBlock body h.2.2 (depth + 1)⟩
  | forLoop name items body _ =>
      exact List.forall_mem_cons.mpr ⟨(firm_of_isName (by decide)).blank
        ((firm_of_isName h.1.1).blank (firm_headerRow (by decide) h.2.1)),
        Stmt.firm_rowsOfBlock body h.2.2.2 (depth + 1)⟩
  | returnWith value _ =>
      cases value with
      | none => exact hsingle "return" (by decide)
      | some value =>
          intro row hrow
          exact List.mem_singleton.mp hrow ▸
            (firm_of_isName (by decide)).blank (Expr.firm_written value h)
  | breakLoop _ => exact hsingle "break" (by decide)
  | continueLoop _ => exact hsingle "continue" (by decide)
  | pass _ => exact hsingle "pass" (by decide)
  | skipped text _ => exact h.elim

/-- The rows of branches stand as they are: the header of each, and the rows under it. -/
theorem Stmt.firm_rowsOfBranches (branches : List (Expr × List Stmt))
    (h : Stmt.WritableBranches branches) (depth : Nat) (word : String)
    (hword : Text.isName word.toList = true) :
    ∀ row ∈ Stmt.rowsOfBranches depth word branches, Firm row.2 := by
  cases branches with
  | nil => exact nofun
  | cons branch rest =>
      rcases branch with ⟨condition, body⟩
      exact List.forall_mem_cons.mpr ⟨firm_headerRow hword h.1, List.forall_mem_append.mpr
        ⟨Stmt.firm_rowsOfBlock body h.2.2.1 (depth + 1),
          Stmt.firm_rowsOfBranches rest h.2.2.2 depth "elif" (by decide)⟩⟩

/-- The rows of a block stand on their lines as they are. -/
theorem Stmt.firm_rowsOfBlock (body : Block) (h : Stmt.WritableBlock body) (depth : Nat) :
    ∀ row ∈ Stmt.rowsOfBlock depth body, Firm row.2 := by
  cases body with
  | nil => exact nofun
  | cons stmt rest =>
      exact List.forall_mem_append.mpr
        ⟨Stmt.firm_rows stmt h.1 depth, Stmt.firm_rowsOfBlock rest h.2 depth⟩

end

/-! ## Layout -/

/-- The widths of the blocks open at a depth, the innermost first. -/
def openBlocks : Nat → List Nat
  | 0 => []
  | depth + 1 => 4 * (depth + 1) :: openBlocks depth

-- The innermost block at a depth is four blanks wide for each level.
theorem headD_openBlocks (depth : Nat) : (openBlocks depth).headD 0 = 4 * depth := by
  cases depth with
  | zero => rfl
  | succ depth => rfl

-- Going up closes one block for each level.
theorem closeBlocks_openBlocks {deep depth : Nat} (h : depth ≤ deep) :
    closeBlocks (4 * depth) (openBlocks deep) = (deep - depth, openBlocks depth) := by
  induction deep with
  | zero =>
      rw [Nat.le_zero.mp h]
      rfl
  | succ deep ih =>
      rw [openBlocks, closeBlocks]
      by_cases hlt : depth ≤ deep
      · have hwidth : 4 * depth < 4 * (deep + 1) := by omega
        have hcount : deep - depth + 1 = deep + 1 - depth := by omega
        simp only [if_pos hwidth, ih hlt, hcount]
      · have heq : depth = deep + 1 := by omega
        subst heq
        rw [if_neg (Nat.lt_irrefl _), Nat.sub_self]
        rfl

/-- A row that is no deeper than the one above closes the blocks between them. -/
theorem changeIndent_openBlocks {deep depth : Nat} (h : depth ≤ deep) :
    changeIndent (4 * depth) (openBlocks deep)
      = some (List.replicate (deep - depth) .dedent, openBlocks depth) := by
  have hopen : ¬4 * deep < 4 * depth := by omega
  simp only [changeIndent, headD_openBlocks, if_neg hopen, closeBlocks_openBlocks h, if_true]

/-- A row that is one level deeper opens a block. -/
theorem changeIndent_openBlocks_succ (depth : Nat) :
    changeIndent (4 * (depth + 1)) (openBlocks depth)
      = some ([.indent], openBlocks (depth + 1)) := by
  have hopen : 4 * depth < 4 * (depth + 1) := by omega
  simp only [changeIndent, headD_openBlocks, if_pos hopen]
  rfl

/-- Rows that begin no deeper than a depth. -/
def Shallow (depth : Nat) (rows : List (Nat × List Char)) : Prop :=
  ∀ row ∈ rows.head?, row.1 ≤ depth

-- The first row tells how deep rows begin.
theorem shallow_cons (depth : Nat) (text : List Char) (rows : List (Nat × List Char)) :
    Shallow depth ((depth, text) :: rows) := by
  intro row hrow
  rw [List.head?_cons, Option.mem_some] at hrow
  exact hrow ▸ Nat.le_refl depth

/-- The kinds of the tokens of rows, with a number of blocks open above them. -/
inductive Spells : Nat → List (Nat × List Char) → List Token.Kind → Prop
  | done : Spells 0 [] [.mark .endOfInput]
  | row {depth text rows kinds} (h : Spells depth rows kinds) :
      Spells depth ((depth, text) :: rows) (lexemes text ++ kinds)
  | opening {depth text rows kinds} (h : Spells (depth + 1) ((depth + 1, text) :: rows) kinds) :
      Spells depth ((depth + 1, text) :: rows) (.mark .indent :: kinds)
  | closing {depth rows kinds} (h : Spells depth rows kinds)
      (hlow : Shallow depth rows) :
      Spells (depth + 1) rows (.mark .dedent :: kinds)

-- Each blank makes an indentation wider by one.
theorem indentWidth_replicate (width n : Nat) (text : List Char) :
    indentWidth width (List.replicate n ' ' ++ text) = indentWidth (width + n) text := by
  induction n generalizing width with
  | zero => rfl
  | succ n ih =>
      rw [List.replicate_succ, List.cons_append, indentWidth, ih]
      congr 1
      omega

-- A firm row is a code line, and its indentation is that of its depth.
theorem indented_of_firm (depth : Nat) {text : List Char} (h : Firm text) :
    isCode (indented (depth, text)) = true ∧ indentLength (indented (depth, text)) = 4 * depth ∧
      indentWidth 0 (indented (depth, text)) = 4 * depth ∧
      (indented (depth, text)).drop (4 * depth) = text := by
  rcases h.leads with ⟨c, more, rfl, hblank, hcomment, _⟩
  have hindent : isIndent c = false := by
    rw [Bool.eq_false_iff]
    intro hc
    rw [isBlank_of_isIndent hc] at hblank
    exact absurd hblank (by decide)
  have hspace : c ≠ ' ' := by
    rintro rfl
    exact absurd hindent (by decide)
  have htab : c ≠ '\t' := by
    rintro rfl
    exact absurd hindent (by decide)
  have hlength : indentLength (indented (depth, c :: more)) = 4 * depth := by
    have hblanks : ∀ d ∈ List.replicate (4 * depth) ' ', isIndent d = true :=
      fun d hd => List.eq_of_mem_replicate hd ▸ rfl
    rw [indentLength, indented, List.takeWhile_append_of_pos hblanks, List.takeWhile_cons, hindent]
    simp
  refine ⟨?_, hlength, ?_, ?_⟩
  · have hfind := find?_drop_indent (4 * depth) _ (Nat.le_of_eq hlength.symm)
    rw [indented, List.drop_left' List.length_replicate] at hfind
    rw [indented, isCode_eq_find?, ← hfind, List.find?_cons, hblank]
    simp [hcomment]
  · rw [indented, indentWidth_replicate, Nat.zero_add, indentWidth]
    · exact fun rest hrest => hspace (List.cons.inj hrest).1
    · exact fun rest hrest => htab (List.cons.inj hrest).1
  · rw [indented, List.drop_left' List.length_replicate]

-- A firm row in front of others, with the layout in front of it.
theorem codeTokens_indented {depth number : Nat} (lastLine : Nat) {text : List Char}
    (h : Firm text)
    {blocks : List Nat} {shapes : List Layout}
    (hchange : changeIndent (4 * depth) blocks = some (shapes, openBlocks depth))
    {rows : List (Nat × List Char)} {after : List Token}
    (hafter : codeTokens (openBlocks depth) number
      (codeLines (number + 1) (rows.map indented)) = .ok after) :
    ∃ tokens, codeTokens blocks lastLine
        (codeLines number (((depth, text) :: rows).map indented)) = .ok tokens ∧
      tokens.map Token.kind
        = shapes.map (fun shape => .mark (.layout shape)) ++ lexemes text
          ++ after.map Token.kind := by
  rcases indented_of_firm depth h with ⟨hcode, hlength, hwidth, hdrop⟩
  rw [List.map_cons, codeLines, if_pos hcode]
  refine ⟨_, codeTokens_cons_eq_ok_iff.mpr ⟨shapes, openBlocks depth, after, hwidth ▸ hchange,
    hafter, rfl⟩, ?_⟩
  rw [hlength, hdrop, List.map_append, List.map_append, map_kind_lineTokens, List.map_map]
  rfl

-- One layout token more in front of the first line.
theorem codeTokens_shape {blocks blocks' inner : List Nat} {shape : Layout}
    {shapes : List Layout} {number lastLine : Nat} {line : List Char}
    {rest : List (Nat × List Char)} {tokens : List Token}
    (hchange : changeIndent (indentWidth 0 line) blocks = some (shapes, inner))
    (hchange' : changeIndent (indentWidth 0 line) blocks' = some (shape :: shapes, inner))
    (h : codeTokens blocks lastLine ((number, line) :: rest) = .ok tokens) :
    ∃ tokens', codeTokens blocks' lastLine ((number, line) :: rest) = .ok tokens' ∧
      tokens'.map Token.kind = .mark (.layout shape) :: tokens.map Token.kind := by
  rcases codeTokens_cons_eq_ok_iff.mp h with ⟨shapes₁, inner₁, after, hsame, hafter, htokens⟩
  rw [hchange, Option.some.injEq, Prod.mk.injEq] at hsame
  rw [← hsame.2] at hafter
  refine ⟨_, codeTokens_cons_eq_ok_iff.mpr ⟨_, inner, after, hchange', hafter, rfl⟩, ?_⟩
  rw [htokens, ← hsame.1]
  rfl

/-- The tokens of numbered rows, whatever the line above them. -/
theorem Spells.codeTokens {depth : Nat} {rows : List (Nat × List Char)} {kinds : List Token.Kind}
    (h : Spells depth rows kinds) (hfirm : ∀ row ∈ rows, Firm row.2) (number lastLine : Nat) :
    ∃ tokens, Script.codeTokens (openBlocks depth) lastLine
        (codeLines number (rows.map indented)) = .ok tokens ∧ tokens.map Token.kind = kinds := by
  induction h generalizing number lastLine with
  | done => exact ⟨_, rfl, rfl⟩
  | @row depth text rows kinds _ ih =>
      rcases ih (fun row hrow => hfirm row (List.mem_cons_of_mem _ hrow)) (number + 1) number with
        ⟨after, hafter, hkinds⟩
      have hchange := changeIndent_openBlocks (Nat.le_refl depth)
      rw [Nat.sub_self] at hchange
      rcases codeTokens_indented lastLine (hfirm _ List.mem_cons_self) hchange
        hafter with ⟨tokens, htokens, hmap⟩
      exact ⟨tokens, htokens, by rw [hmap, hkinds]; rfl⟩
  | @opening depth text rows kinds _ ih =>
      rcases ih hfirm number lastLine with ⟨tokens, htokens, hkinds⟩
      rcases indented_of_firm (depth + 1) (hfirm _ List.mem_cons_self) with
        ⟨hcode, _, hwidth, _⟩
      have hsame := changeIndent_openBlocks (Nat.le_refl (depth + 1))
      rw [Nat.sub_self, List.replicate_zero, ← hwidth] at hsame
      have hopen := changeIndent_openBlocks_succ depth
      rw [← hwidth] at hopen
      rw [List.map_cons, codeLines, if_pos hcode] at htokens ⊢
      rcases codeTokens_shape hsame hopen htokens with ⟨tokens', htokens', hmap⟩
      exact ⟨tokens', htokens', by rw [hmap, hkinds]⟩
  | @closing depth rows kinds _ hlow ih =>
      rcases ih hfirm number lastLine with ⟨tokens, htokens, hkinds⟩
      cases rows with
      | nil =>
          -- Below the last row the blocks that are open close one after the other.
          rw [List.map_nil, codeLines, Script.codeTokens, Except.ok.injEq] at htokens
          exact ⟨_, rfl, by rw [← hkinds, ← htokens]; rfl⟩
      | cons row rows =>
          rcases row with ⟨e, text⟩
          have he : e ≤ depth := hlow (e, text) rfl
          rcases indented_of_firm e (hfirm _ List.mem_cons_self) with
            ⟨hcode, _, hwidth, _⟩
          have hsame := changeIndent_openBlocks he
          have hclose := changeIndent_openBlocks (Nat.le_succ_of_le he)
          have hcount : depth + 1 - e = depth - e + 1 := by omega
          rw [← hwidth] at hsame hclose
          rw [hcount, List.replicate_succ] at hclose
          rw [List.map_cons, codeLines, if_pos hcode] at htokens ⊢
          rcases codeTokens_shape hsame hclose htokens with ⟨tokens', htokens', hmap⟩
          exact ⟨tokens', htokens', by rw [hmap, hkinds]⟩

/-! ## The tokens of a program -/

-- A statement has at least one row, and the first stands at its own depth.
theorem Stmt.rows_eq_cons {s : Stmt} (h : s.Writable) (depth : Nat) :
    ∃ text more, s.rows depth = (depth, text) :: more := by
  cases s with
  | cond branches otherwise _ =>
      cases branches with
      | nil => cases otherwise <;> exact absurd rfl h.1
      | cons branch rest =>
          rcases branch with ⟨condition, body⟩
          cases otherwise <;> exact ⟨_, _, rfl⟩
  | returnWith value _ => cases value <;> exact ⟨_, _, rfl⟩
  | _ => exact ⟨_, _, rfl⟩

-- A block that is not empty has a first row, at its own depth.
theorem Stmt.rowsOfBlock_eq_cons {body : Block} (hne : body ≠ []) (h : Stmt.WritableBlock body)
    (depth : Nat) : ∃ text more, Stmt.rowsOfBlock depth body = (depth, text) :: more := by
  cases body with
  | nil => exact absurd rfl hne
  | cons stmt rest =>
      rcases Stmt.rows_eq_cons h.1 depth with ⟨text, more, hrows⟩
      exact ⟨text, more ++ Stmt.rowsOfBlock depth rest, by rw [Stmt.rowsOfBlock, hrows]; rfl⟩

-- The tokens of a line that is an expression.
theorem lexemes_line {e : Expr} (h : e.Writable) :
    lexemes e.written = e.kinds ++ [.mark .newline] := by
  have hline := Expr.lexemes_written e h [] boundary_nil
  rw [List.append_nil, lexemes_nil] at hline
  exact hline

-- A token ends in front of a blank.
theorem boundary_blank (rest : List Char) : Boundary (' ' :: rest) :=
  boundary_cons (by decide) (by decide) rest

-- A keyword and a blank in front of something more.
theorem lexemes_keyword {word : String} {k : Keyword} (hword : Text.isName word.toList = true)
    (hk : wordKind word = .mark (.keyword k)) (rest : List Char) :
    lexemes (word.toList ++ ' ' :: rest) = .mark (.keyword k) :: lexemes rest := by
  rw [lexemes_word hword (boundary_blank rest), String.ofList_toList, hk, lexemes_space]

/-- The tokens of a header: its word, its expression and a colon. -/
theorem lexemes_headerRow {word : String} {k : Keyword} (hword : Text.isName word.toList = true)
    (hk : wordKind word = .mark (.keyword k)) {e : Expr} (h : e.Writable) :
    lexemes (headerRow word e) = headerKinds k e := by
  have hcolon : Boundary [':'] := boundary_cons (by decide) (by decide) []
  rw [headerRow, lexemes_keyword hword hk, Expr.lexemes_written e h _ hcolon,
    lexemes_sign ':' (by decide), headerKinds]
  simp only [scanSign, lexemes_nil]

-- A line of one keyword.
theorem lexemes_alone {word : String} {k : Keyword} (hword : Text.isName word.toList = true)
    (hk : wordKind word = .mark (.keyword k)) :
    lexemes word.toList = [.mark (.keyword k), .mark .newline] := by
  have hline := lexemes_word hword boundary_nil
  rw [List.append_nil, lexemes_nil, String.ofList_toList, hk] at hline
  exact hline

-- The header of the last branch has no expression.
theorem lexemes_else :
    lexemes "else:".toList = [.mark (.keyword .elseWord), .mark colon, .mark .newline] := by
  have hcolon : Boundary [':'] := boundary_cons (by decide) (by decide) []
  have helse : Text.isName "else".toList = true := by decide
  have hline := lexemes_word helse hcolon
  rw [lexemes_sign ':' (by decide), String.ofList_toList] at hline
  simp only [scanSign, lexemes_nil] at hline
  exact hline

-- One row in front of others.
theorem Spells.cons {depth : Nat} {text : List Char} {rows : List (Nat × List Char)}
    {first kinds : List Token.Kind} (h : Spells depth rows kinds) (hfirst : lexemes text = first) :
    Spells depth ((depth, text) :: rows) (first ++ kinds) :=
  hfirst ▸ Spells.row h

-- What begins no deeper than a depth begins no deeper than the next.
theorem Shallow.succ {depth : Nat} {rows : List (Nat × List Char)} (h : Shallow depth rows) :
    Shallow (depth + 1) rows :=
  fun row hrow => Nat.le_succ_of_le (h row hrow)

-- Below the rows of a block there is nothing deeper than the block, if there was not.
theorem shallow_rowsOfBlock {body : Block} (h : Stmt.WritableBlock body) {depth : Nat}
    {below : List (Nat × List Char)} (hlow : Shallow depth below) :
    Shallow depth (Stmt.rowsOfBlock depth body ++ below) := by
  by_cases hne : body = []
  · rw [hne]
    exact hlow
  · rcases Stmt.rowsOfBlock_eq_cons hne h depth with ⟨text, more, hrows⟩
    rw [hrows]
    exact shallow_cons depth text _

-- The rows of branches are shallow below their conditional.
theorem shallow_rowsOfBranches (branches : List (Expr × List Stmt)) (word : String) {depth : Nat}
    {below : List (Nat × List Char)} (hlow : Shallow depth below) :
    Shallow depth (Stmt.rowsOfBranches depth word branches ++ below) := by
  cases branches with
  | nil => exact hlow
  | cons branch rest => exact shallow_cons depth _ _

/-- The tokens of a block with its opening and its closing. -/
theorem spells_body {body : Block} (hne : body ≠ []) (h : Stmt.WritableBlock body) {depth : Nat}
    {below : List (Nat × List Char)} {kinds : List Token.Kind}
    (hblock : Spells (depth + 1) (Stmt.rowsOfBlock (depth + 1) body ++ below)
      (Stmt.kindsOfBlock body ++ .mark .dedent :: kinds)) :
    Spells depth (Stmt.rowsOfBlock (depth + 1) body ++ below) (bodyKinds body ++ kinds) := by
  rcases Stmt.rowsOfBlock_eq_cons hne h (depth + 1) with ⟨text, more, hrows⟩
  have hkinds : bodyKinds body ++ kinds
      = .mark .indent :: (Stmt.kindsOfBlock body ++ .mark .dedent :: kinds) := by
    rw [bodyKinds, List.cons_append, List.append_assoc]
    rfl
  rw [hrows] at hblock ⊢
  rw [hkinds]
  exact hblock.opening

mutual

/-- The tokens of a statement, in front of rows that are no deeper. -/
theorem Stmt.spells (s : Stmt) (h : s.Writable) (depth : Nat) {below : List (Nat × List Char)}
    {kinds : List Token.Kind} (hbelow : Spells depth below kinds) (hlow : Shallow depth below) :
    Spells depth (s.rows depth ++ below) (s.kinds ++ kinds) := by
  cases s with
  | assign name op value _ =>
      refine hbelow.cons ?_
      rw [lexemes_name h.1 (boundary_blank _), lexemes_assignment, lexemes_line h.2]
      rfl
  | expr value _ => exact hbelow.cons (lexemes_line h)
  | cond branches otherwise _ =>
      cases otherwise with
      | none =>
          rw [Stmt.Writable] at h
          rw [Stmt.rows, Stmt.kinds, List.append_nil, List.append_nil]
          exact Stmt.spells_branches branches h.2.1 depth (by decide) rfl hbelow hlow
      -- The block for the other case stands below all branches, so it is spelt first.
      | some body =>
          rw [Stmt.Writable] at h
          have hblock := Stmt.spells_block body h.2.2.2 (depth + 1) (hbelow.closing hlow) hlow.succ
          have hbody := (spells_body h.2.2.1 h.2.2.2 hblock).cons lexemes_else
          rw [Stmt.rows, Stmt.kinds, List.append_assoc, List.append_assoc]
          exact Stmt.spells_branches branches h.2.1 depth (by decide) rfl hbody
            (shallow_cons depth _ _)
  | whileLoop condition body _ =>
      have hblock := Stmt.spells_block body h.2.2 (depth + 1) (hbelow.closing hlow) hlow.succ
      rw [Stmt.kinds, List.append_assoc]
      exact (spells_body h.2.1 h.2.2 hblock).cons (lexemes_headerRow (by decide) rfl h.1)
  | forLoop name items body _ =>
      have hblock := Stmt.spells_block body h.2.2.2 (depth + 1) (hbelow.closing hlow) hlow.succ
      have hheader : lexemes ("for".toList ++ ' ' :: (name.toList ++ ' ' :: headerRow "in" items))
          = .mark (.keyword .forWord) :: .name name :: headerKinds .inWord items := by
        rw [lexemes_keyword (by decide) rfl, lexemes_name h.1 (boundary_blank _), lexemes_space,
          lexemes_headerRow (by decide) rfl h.2.1]
      have hbody := (spells_body h.2.2.1 h.2.2.2 hblock).cons hheader
      rw [Stmt.kinds, List.cons_append, List.cons_append, List.append_assoc]
      exact hbody
  | returnWith value _ =>
      cases value with
      | none => exact hbelow.cons (lexemes_alone (by decide) rfl)
      | some value =>
          refine hbelow.cons ?_
          rw [lexemes_keyword (by decide) rfl, lexemes_line h]
          rfl
  | breakLoop _ => exact hbelow.cons (lexemes_alone (by decide) rfl)
  | continueLoop _ => exact hbelow.cons (lexemes_alone (by decide) rfl)
  | pass _ => exact hbelow.cons (lexemes_alone (by decide) rfl)
  | skipped text _ => exact h.elim

/-- The rows of branches have the tokens of the branches. For each there is a header, and a block
    that closes in front of the next one. -/
theorem Stmt.spells_branches (branches : List (Expr × List Stmt))
    (h : Stmt.WritableBranches branches) (depth : Nat) {word : String} {k : Keyword}
    (hword : Text.isName word.toList = true) (hk : wordKind word = .mark (.keyword k))
    {below : List (Nat × List Char)} {kinds : List Token.Kind} (hbelow : Spells depth below kinds)
    (hlow : Shallow depth below) :
    Spells depth (Stmt.rowsOfBranches depth word branches ++ below)
      (Stmt.kindsOfBranches k branches ++ kinds) := by
  cases branches with
  | nil => exact hbelow
  | cons branch rest =>
      rcases branch with ⟨condition, body⟩
      have helif : Text.isName "elif".toList = true := by decide
      have hrest := Stmt.spells_branches rest h.2.2.2 depth helif rfl hbelow hlow
      have hshallow := shallow_rowsOfBranches rest "elif" hlow
      have hblock := Stmt.spells_block body h.2.2.1 (depth + 1) (hrest.closing hshallow)
        hshallow.succ
      have hbody := (spells_body h.2.1 h.2.2.1 hblock).cons
        (lexemes_headerRow hword hk h.1)
      have hrows : Stmt.rowsOfBranches depth word ((condition, body) :: rest) ++ below
          = (depth, headerRow word condition) :: (Stmt.rowsOfBlock (depth + 1) body ++
            (Stmt.rowsOfBranches depth "elif" rest ++ below)) := by
        simp only [Stmt.rowsOfBranches, List.cons_append, List.append_assoc]
      have hkinds : Stmt.kindsOfBranches k ((condition, body) :: rest) ++ kinds
          = headerKinds k condition ++ (bodyKinds body ++
            (Stmt.kindsOfBranches .elifWord rest ++ kinds)) := by
        simp only [Stmt.kindsOfBranches, bodyKinds, List.cons_append, List.append_assoc,
          List.nil_append]
      rw [hrows, hkinds]
      exact hbody

/-- The rows of a block have the tokens of its statements. -/
theorem Stmt.spells_block (body : Block) (h : Stmt.WritableBlock body) (depth : Nat)
    {below : List (Nat × List Char)} {kinds : List Token.Kind}
    (hbelow : Spells depth below kinds) (hlow : Shallow depth below) :
    Spells depth (Stmt.rowsOfBlock depth body ++ below) (Stmt.kindsOfBlock body ++ kinds) := by
  cases body with
  | nil => exact hbelow
  | cons stmt rest =>
      rw [Stmt.rowsOfBlock, Stmt.kindsOfBlock, List.append_assoc, List.append_assoc]
      exact Stmt.spells stmt h.1 depth (Stmt.spells_block rest h.2 depth hbelow hlow)
        (shallow_rowsOfBlock h.2 hlow)

end

/-- The tokens of a written program. -/
theorem tokenize_written (program : Block) (h : Stmt.WritableBlock program) :
    ∃ tokens, tokenize (written program) = .ok tokens ∧
      tokens.map Token.kind = Stmt.kindsOfBlock program ++ [.mark .endOfInput] := by
  have hfirm := Stmt.firm_rowsOfBlock program h 0
  have hspells := Stmt.spells_block program h 0 Spells.done nofun
  rw [List.append_nil] at hspells
  -- No row holds a line feed or loses a carriage return, so the lines are the rows.
  have hrow : ∀ line ∈ (Stmt.rowsOfBlock 0 program).map indented,
      '\n' ∉ line ∧ Text.dropReturn line = line := by
    intro line hline
    rcases List.mem_map.mp hline with ⟨row, hrow, rfl⟩
    refine ⟨?_, ((hfirm row hrow).ends.append _).dropReturn⟩
    rw [indented, List.mem_append, not_or]
    refine ⟨fun hc => ?_, (hfirm row hrow).row⟩
    exact absurd (List.eq_of_mem_replicate hc) (by decide)
  have hlines :
      Text.lines (written program).toList = (Stmt.rowsOfBlock 0 program).map indented := by
    rw [written, String.toList_ofList, Text.lines_flatMap_newline _ fun line hline =>
      (hrow line hline).1]
    exact (List.map_congr_left fun line hline => (hrow line hline).2).trans (List.map_id _)
  rw [tokenize_eq_codeTokens, hlines]
  exact hspells.codeTokens hfirm 1 0

end Script

end Farmhand
