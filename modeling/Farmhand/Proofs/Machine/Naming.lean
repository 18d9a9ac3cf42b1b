import Farmhand.Proofs.Interpreter.Solitude
import Farmhand.Proofs.Machine.Effect

/-!
# The Names That a Machine Calls

A machine calls by names, and it gets these from its script. The names still to be called are spread
over the state of a machine: some are in what is to be done next, the others in what is pending. A
step takes names from there, or goes on with a subroutine and takes the names in its body, so it
never comes up with a name that was not there before. Hence whatever holds of all names of a script
holds of all names that are called.

Most steps lead to nothing that could be a call under way. Which ones do is said at the same time,
since it takes the same look at every step.

## Main definitions

* `Stmt.namesOfBlock`: The names called in a block.
* `Machine.Control.names`, `Machine.Pending.names`, `Machine.Stack.names`: The names to be called.
* `Machine.Control.Plain`: Nothing of a call that was announced.
* `Machine.Control.Ventures`: What may lead to something of a call that was announced.
* `Machine.Names`: A machine with names of a kind only.

## Theorems

* `Machine.tame_resume`: What is pending comes up with no names.
* `Machine.Names.next`: Neither does a step.
* `Machine.plain_next`: What leads to nothing of a call.
* `Machine.Names.tellsSolitary`: A machine that names no function of a tile calls none.
-/

namespace Farmhand

open Script

/-! ## Names in programs -/

namespace Script

/-- The names called in a statement. -/
def Stmt.names (s : Stmt) : List String :=
  s.calls.map Prod.snd

/-- The names called in a block. -/
def Stmt.namesOfBlock (body : Block) : List String :=
  (Stmt.callsOfBlock body).map Prod.snd

/-- The names called in the branches of a conditional. -/
def Stmt.namesOfBranches (rest : List (Expr × Block)) : List String :=
  rest.flatMap fun (condition, body) => condition.calls ++ Stmt.namesOfBlock body

/-- The names called in the block for the case that no condition holds. -/
def Stmt.namesOfOtherwise : Option Block → List String
  | some body => Stmt.namesOfBlock body
  | none => []

-- The names in a block are those in its statements.
theorem Stmt.namesOfBlock_cons (s : Stmt) (rest : Block) :
    Stmt.namesOfBlock (s :: rest) = s.names ++ Stmt.namesOfBlock rest := by
  rw [namesOfBlock, callsOfBlock, List.map_append]
  rfl

-- Without the lines that they are listed with, calls are names.
theorem Expr.map_calls (x : Expr) (line : Nat) :
    (x.calls.map (line, ·)).map Prod.snd = x.calls := by
  rw [List.map_map]
  exact List.map_id _

-- The line of a conditional is told with its calls, and does not matter for their names.
theorem Stmt.names_callsOfBranches (line : Nat) (rest : List (Expr × Block)) :
    (Stmt.callsOfBranches line rest).map Prod.snd = Stmt.namesOfBranches rest := by
  induction rest with
  | nil => rfl
  | cons branch rest ih =>
      rcases branch with ⟨condition, body⟩
      rw [callsOfBranches, List.map_append, List.map_append, Expr.map_calls, ih]
      rfl

-- A conditional has the names in its branches.
theorem Stmt.names_cond (branches : List (Expr × Block)) (otherwise : Option Block) (span : Span) :
    (Stmt.cond branches otherwise span).names =
      Stmt.namesOfBranches branches ++ Stmt.namesOfOtherwise otherwise := by
  cases otherwise with
  | none => rw [names, calls.eq_def, List.map_append, names_callsOfBranches]; rfl
  | some body => rw [names, calls.eq_def, List.map_append, names_callsOfBranches]; rfl

-- A `while` loop has those in its condition and in its body.
theorem Stmt.names_whileLoop (condition : Expr) (body : Block) (span : Span) :
    (Stmt.whileLoop condition body span).names = condition.calls ++ Stmt.namesOfBlock body := by
  rw [names, calls, List.map_append, Expr.map_calls]
  rfl

-- A `for` loop has those in what it goes over and in its body.
theorem Stmt.names_forLoop (name : String) (items : Expr) (body : Block) (span : Span) :
    (Stmt.forLoop name items body span).names = items.calls ++ Stmt.namesOfBlock body := by
  rw [names, calls, List.map_append, Expr.map_calls]
  rfl

end Script

namespace Machine

/-! ## Names in machines -/

/-- The names in what is to be done next. -/
def Control.names {k : Kind} : Control k → List String
  | .job (.main _) => [mainName]
  | .job (.call _ name _) => [name]
  | .evaluate x => x.calls
  | .execute s => s.names
  | .block body => Stmt.namesOfBlock body
  | .branches rest otherwise => Stmt.namesOfBranches rest ++ Stmt.namesOfOtherwise otherwise
  | .whileLoop condition body _ => condition.calls ++ Stmt.namesOfBlock body
  | .forLoop _ body _ => Stmt.namesOfBlock body
  | .call name _ => [name]
  | .tileFunction _ name => [name]
  | .subroutine _ s _ => Stmt.namesOfBlock s.body
  | _ => []

/-- The names in what is pending. -/
def Pending.names {k l : Kind} : Pending k l → List String
  | .items _ rest => Expr.callsAll rest
  | .arguments name _ rest => name :: Expr.callsAll rest
  | .container x => x.calls
  | .left _ x => x.calls
  | .branch body rest otherwise =>
    Stmt.namesOfBlock body ++ (Stmt.namesOfBranches rest ++ Stmt.namesOfOtherwise otherwise)
  | .whileTest condition body _ => condition.calls ++ Stmt.namesOfBlock body
  | .whileBody condition body _ => condition.calls ++ Stmt.namesOfBlock body
  | .iterated _ body => Stmt.namesOfBlock body
  | .forBody _ body _ => Stmt.namesOfBlock body
  | .sequence rest => Stmt.namesOfBlock rest
  | _ => []

/-- The names in all that is pending. -/
def Stack.names {k : Kind} : Stack k → List String
  | .last => []
  | .main _ rest => rest.names
  | .pend p rest => p.names ++ rest.names
  | .body _ rest => rest.names

/-- Nothing of a call that was announced. -/
def Control.Plain {k : Kind} : Control k → Prop
  | .capability _ _ => False
  | .tileFunction _ _ => False
  | .subroutine _ _ _ => False
  | .visit _ _ => False
  | .arrive _ _ _ _ => False
  | .settle _ => False
  | _ => True

/-- What may lead to something of a call that was announced. -/
def Control.Ventures {k : Kind} : Control k → Prop
  | .call _ _ => True
  | .capability _ _ => True
  | .tileFunction _ _ => True
  | .visit _ _ => True
  | .arrive _ _ _ _ => True
  | _ => False

variable {P : String → Prop}

/-- A stack and the subroutines of an interpreter with names of a kind only. -/
structure Sources (P : String → Prop) {k : Kind} (stack : Stack k) (i : Interpreter) : Prop where
  pending : ∀ name ∈ stack.names, P name
  subroutines : ∀ name s, i.subroutines.get? name = some s →
    ∀ called ∈ Stmt.namesOfBlock s.body, P called

/-- A machine with names of a kind only. -/
structure Names (P : String → Prop) (m : Machine) : Prop where
  sources : Sources P m.stack m.interpreter
  control : ∀ name ∈ m.control.names, P name

/-- A machine with names of a kind only that has nothing of a call to do that was announced. -/
structure Tame (P : String → Prop) (m : Machine) : Prop extends Names P m where
  plain : m.control.Plain

variable {m : Machine} {e : Engine}

section

variable {k l : Kind} {stack : Stack k} {i : Interpreter}

/-- Something more is pending, with names of the kind. -/
theorem Sources.pend {p : Pending l k} (h : Sources P stack i) (hp : ∀ name ∈ p.names, P name) :
    Sources P (.pend p stack) i :=
  ⟨List.forall_mem_append.mpr ⟨hp, h.pending⟩, h.subroutines⟩

-- The variables and the actor of an interpreter hold no names to be called.
theorem Sources.seen {j : Interpreter} (h : Sources P stack i)
    (hsubroutines : j.subroutines = i.subroutines) : Sources P stack j :=
  ⟨h.pending, hsubroutines ▸ h.subroutines⟩

-- Hence an assignment brings none.
theorem Sources.assign (h : Sources P stack i) (name : String) (value : Value) :
    Sources P stack (i.assign name value) :=
  h.seen (i.kin_assign name value).subroutines

-- With a result, the names are those of what is pending.
theorem tame_ofResult (h : Sources P stack i) (r : Except Failure k.Result) :
    Tame P (ofResult stack i r) :=
  ⟨⟨h, List.forall_mem_nil _⟩, trivial⟩

-- The result of an operation is a value, and has none.
theorem tame_ofOperation (h : Sources P stack i) (r : Except OperationError k.Result) :
    Tame P (ofOperation stack i r) := by
  cases r with
  | ok a => exact tame_ofResult h _
  | error error => exact tame_ofResult h _

end

/-! ## Expressions -/

section

variable {stack : Stack .value} {i : Interpreter}

-- An expression has the names of its calls.
theorem tame_evaluate (h : Sources P stack i) {x : Expr} (hx : ∀ name ∈ x.calls, P name) :
    Tame P ⟨_, .evaluate x, stack, i⟩ :=
  ⟨⟨h, hx⟩, trivial⟩

-- The items that are done have none any more.
theorem tame_ofItems (h : Sources P stack i) (done : List Value) {xs : List Expr}
    (hxs : ∀ name ∈ Expr.callsAll xs, P name) : Tame P (ofItems stack i done xs) := by
  cases xs with
  | nil => exact tame_ofResult h _
  | cons x rest =>
      rw [Expr.callsAll, List.forall_mem_append] at hxs
      have hrest : Sources P (.pend (.items done rest) stack) i := h.pend hxs.2
      exact tame_evaluate hrest hxs.1

-- The name of a call waits for the values of its arguments.
theorem tame_ofArguments (h : Sources P stack i) {name : String} (hname : P name)
    (done : List Value) {xs : List Expr} (hxs : ∀ name ∈ Expr.callsAll xs, P name) :
    Tame P (ofArguments stack i name done xs) := by
  cases xs with
  | nil =>
      exact ⟨⟨h.pend (List.forall_mem_nil _), List.forall_mem_singleton.mpr hname⟩, trivial⟩
  | cons x rest =>
      rw [Expr.callsAll, List.forall_mem_append] at hxs
      have hrest : Sources P (.pend (.arguments name done rest) stack) i :=
        h.pend (List.forall_mem_cons.mpr ⟨hname, hxs.2⟩)
      exact tame_evaluate hrest hxs.1

/-- An expression is taken apart, and its names with it. -/
theorem tame_ofExpr (h : Sources P stack i) {x : Expr} (hx : ∀ name ∈ x.calls, P name) :
    Tame P (ofExpr stack i x) := by
  cases x with
  | lit value span => exact tame_ofResult h _
  | var name span => exact tame_ofResult h _
  | list items span => exact tame_ofItems h [] hx
  | index container position span =>
      rw [Expr.calls, List.forall_mem_append] at hx
      have hposition : Sources P (.pend (.container position) stack) i := h.pend hx.2
      exact tame_evaluate hposition hx.1
  | unary op operand span => exact tame_evaluate (h.pend (List.forall_mem_nil _)) hx
  | binary op left right span =>
      rw [Expr.calls, List.forall_mem_append] at hx
      have hright : Sources P (.pend (.left op right) stack) i := h.pend hx.2
      exact tame_evaluate hright hx.1
  | call name args span =>
      rw [Expr.calls, List.forall_mem_append] at hx
      exact tame_ofArguments h (List.forall_mem_singleton.mp hx.2) [] hx.1

-- The second operand has its names, if it is evaluated at all.
theorem tame_ofBinary (h : Sources P stack i) (op : BinaryOp) (l : Value) {right : Expr}
    (hright : ∀ name ∈ right.calls, P name) : Tame P (ofBinary stack i op l right) := by
  unfold ofBinary
  split
  · split
    · exact tame_evaluate h hright
    · exact tame_ofResult h _
  · split
    · exact tame_ofResult h _
    · exact tame_evaluate h hright
  · exact tame_evaluate (h.pend (List.forall_mem_nil _)) hright

end

/-! ## Statements -/

section

variable {stack : Stack .flow} {i : Interpreter}

-- A block has the names in its statements.
theorem tame_block (h : Sources P stack i) {body : Block}
    (hbody : ∀ name ∈ Stmt.namesOfBlock body, P name) : Tame P ⟨_, .block body, stack, i⟩ :=
  ⟨⟨h, hbody⟩, trivial⟩

/-- A statement is taken apart, and its names with it. -/
theorem tame_ofStmt (h : Sources P stack i) {s : Stmt} (hs : ∀ name ∈ s.names, P name) :
    Tame P (ofStmt stack i s) := by
  cases s with
  | assign name op value span =>
      rw [Stmt.names, Stmt.calls, Expr.map_calls] at hs
      exact tame_evaluate (h.pend (List.forall_mem_nil _)) hs
  | expr value span =>
      rw [Stmt.names, Stmt.calls, Expr.map_calls] at hs
      exact tame_evaluate (h.pend (List.forall_mem_nil _)) hs
  | cond branches otherwise span =>
      rw [Stmt.names_cond] at hs
      exact ⟨⟨h, hs⟩, trivial⟩
  | whileLoop condition body span =>
      rw [Stmt.names_whileLoop] at hs
      exact ⟨⟨h, hs⟩, trivial⟩
  | forLoop name items body span =>
      rw [Stmt.names_forLoop, List.forall_mem_append] at hs
      have hbody : Sources P (.pend (.iterated name body) stack) i := h.pend hs.2
      exact tame_evaluate hbody hs.1
  | returnWith value span =>
      cases value with
      | some x =>
          rw [Stmt.names, Stmt.calls, Expr.map_calls] at hs
          exact tame_evaluate (h.pend (List.forall_mem_nil _)) hs
      | none => exact tame_ofResult h _
  | breakLoop span => exact tame_ofResult h _
  | continueLoop span => exact tame_ofResult h _
  | pass span => exact tame_ofResult h _
  | skipped text span => exact tame_ofResult h _

-- Of the branches one is looked at, and the others are left.
theorem tame_ofBranches (h : Sources P stack i) {rest : List (Expr × Block)}
    {otherwise : Option Block}
    (hrest : ∀ name ∈ Stmt.namesOfBranches rest ++ Stmt.namesOfOtherwise otherwise, P name) :
    Tame P (ofBranches stack i rest otherwise) := by
  cases rest with
  | nil =>
      cases otherwise with
      | some body => exact tame_block h hrest
      | none => exact tame_ofResult h _
  | cons branch rest =>
      rcases branch with ⟨condition, body⟩
      rw [Stmt.namesOfBranches, List.flatMap_cons, List.append_assoc, List.append_assoc,
        List.forall_mem_append] at hrest
      have hbody : Sources P (.pend (.branch body rest otherwise) stack) i := h.pend hrest.2
      exact tame_evaluate hbody hrest.1

-- Of a block the first statement is looked at, and the others are left.
theorem tame_ofBlock (h : Sources P stack i) {body : Block}
    (hbody : ∀ name ∈ Stmt.namesOfBlock body, P name) : Tame P (ofBlock stack i body) := by
  cases body with
  | nil => exact tame_ofResult h _
  | cons s rest =>
      rw [Stmt.namesOfBlock_cons, List.forall_mem_append] at hbody
      exact ⟨⟨h.pend hbody.2, hbody.1⟩, trivial⟩

-- Behind its body a loop may be where it was before, with the names that it had.
theorem tame_ofAfterBody (h : Sources P stack i) (flow : Flow) {goOn : Control .flow}
    (hgoOn : Tame P ⟨_, goOn, stack, i⟩) : Tame P (ofAfterBody stack i flow goOn) := by
  cases flow with
  | normal => exact hgoOn
  | continued => exact hgoOn
  | broken => exact tame_ofResult h _
  | returned v => exact tame_ofResult h _

end

/-- What is pending comes up with no names. -/
theorem tame_resume {k l : Kind} {p : Pending k l} {stack : Stack l} {i : Interpreter}
    (h : Sources P stack i) (hp : ∀ name ∈ p.names, P name) (a : k.Result) :
    Tame P (p.resume a stack i) := by
  cases p with
  | items done rest => exact tame_ofItems h (done ++ [a]) hp
  | arguments name done rest =>
      rcases List.forall_mem_cons.mp hp with ⟨hname, hrest⟩
      exact tame_ofArguments h hname (done ++ [a]) hrest
  | container x => exact tame_evaluate (h.pend (List.forall_mem_nil _)) hp
  | position whole => exact tame_ofOperation h _
  | operand op =>
      cases op with
      | neg => exact tame_ofOperation h _
      | not => exact tame_ofResult h _
  | left op x => exact tame_ofBinary h op a hp
  | right op l => exact tame_ofOperation h _
  | answer => exact tame_ofResult h _
  | assigned name op =>
      simp only [Pending.resume]
      split
      · next j hj =>
        rcases assignedWith_eq_ok hj with ⟨result, rfl⟩
        exact tame_ofResult (h.assign name result) _
      · exact tame_ofResult h _
  | discarded => exact tame_ofResult h _
  | branch body rest otherwise =>
      rw [Pending.names, List.forall_mem_append] at hp
      simp only [Pending.resume]
      split
      · exact tame_block h hp.1
      · exact ⟨⟨h, hp.2⟩, trivial⟩
  | whileTest condition body turns =>
      simp only [Pending.resume]
      split
      · split
        · exact tame_ofResult h _
        · exact tame_block (h.pend hp) (List.forall_mem_append.mp hp).2
      · exact tame_ofResult h _
  | whileBody condition body turns => exact tame_ofAfterBody h a ⟨⟨h, hp⟩, trivial⟩
  | iterated name body =>
      simp only [Pending.resume]
      split
      · exact ⟨⟨h, hp⟩, trivial⟩
      · exact tame_ofResult h _
  | forBody name body rest => exact tame_ofAfterBody h a ⟨⟨h, hp⟩, trivial⟩
  | returned => exact tame_ofResult h _
  | sequence rest =>
      cases a with
      | normal => exact tame_block h hp
      | _ => exact tame_ofResult h _

/-! ## Calls -/

/-- A step to a machine with names of a kind only, which has something of an announced call to do
    only if that was possible. -/
def Leads (P : String → Prop) (ventures : Prop) (p : Progress) : Prop :=
  ∀ m', p.machine? = some m' → Names P m' ∧ (ventures ∨ m'.control.Plain)

section

variable {stack : Stack .success} {i : Interpreter} {ventures : Prop} {m' : Machine}

-- A step to nothing of a call.
theorem leads_on (h : Tame P m') : Leads P ventures (.on m' e) :=
  fun _ hm => Option.some.inj hm ▸ ⟨h.toNames, .inr h.plain⟩

-- A step to something of a call, from where that is possible.
theorem leads_ventured (hventures : ventures) (h : Names P m') :
    Leads P ventures (.on m' e) :=
  fun _ hm => Option.some.inj hm ▸ ⟨h, .inl hventures⟩

-- A wait brings no names.
theorem Leads.pausing (h : Leads P ventures (.on m' e)) (nanoseconds : Nat) :
    Leads P ventures (pausing nanoseconds m' e) := by
  unfold Machine.pausing
  split
  · exact h
  · exact h

-- What is nothing of names.
theorem names_of_nil {control : Control .success} (h : Sources P stack i)
    (hcontrol : control.names = []) : Names P ⟨_, control, stack, i⟩ :=
  ⟨h, hcontrol ▸ List.forall_mem_nil _⟩

-- A look at the actor brings none.
theorem Sources.seeing (h : Sources P stack i) (w : World) : Sources P stack (seeing i w) := by
  refine h.seen ?_
  unfold Machine.seeing
  split <;> rfl

-- What a call came back with is a value or a failure.
theorem names_ofOutcome (h : Sources P stack i) (r : Outcome) : Names P (ofOutcome stack i r) := by
  cases r with
  | ok s => exact names_of_nil h rfl
  | error f => exact (tame_ofResult h _).toNames

-- Behind the pace of a call there is its result.
theorem leads_ofPace (h : Sources P stack i) (s : Success) :
    Leads P ventures (ofPace stack i e s) := by
  have hover : Leads P ventures (.on (ofResult stack i (.ok s)) e) :=
    leads_on (tame_ofResult h _)
  unfold ofPace
  split
  · exact hover.pausing _
  · exact hover

-- What a call costs has no names.
theorem leads_ofSettle (h : Sources P stack i) (s : Success) :
    Leads P ventures (ofSettle stack i e s) := by
  unfold ofSettle
  split
  · split
    · split
      · exact leads_on (tame_ofResult h _)
      · exact leads_ofPace (h.seeing _) s
    · exact leads_ofPace h s
  · exact leads_ofPace h s

-- A walk that cannot go on is a failure.
theorem leads_interrupted (h : Sources P stack i) (target : Position) :
    Leads P ventures (interrupted stack i target e) :=
  leads_on (tame_ofResult (h.seeing _) _)

-- A walk that goes on is the rest of one that was announced.
theorem leads_ofArrive (h : Sources P stack i) (hventures : ventures) (epoch : Nat)
    (target : Position) (rest : List Position) (steps : Nat) :
    Leads P ventures (ofArrive stack i e epoch target rest steps) := by
  unfold ofArrive
  split
  · split
    · exact leads_ventured hventures (names_of_nil h rfl)
    · exact leads_interrupted h target
  · exact leads_interrupted h target

-- A motion leads to its arrival, or to the end of its walk.
theorem leads_ofMotion (h : Sources P stack i) (hventures : ventures) (target : Position)
    (rest : List Position) (steps : Nat) :
    Leads P ventures (ofMotion stack i e target rest steps) := by
  simp only [ofMotion]
  split
  · exact leads_interrupted h target
  · split
    · split
      · exact leads_on (tame_ofResult h _)
      · exact leads_interrupted h target
      · exact Leads.pausing (leads_ventured hventures (names_of_nil h rfl)) _
    · exact leads_interrupted h target

-- A walk leads to its next tile, or to its success at the last of them.
theorem leads_ofVisit (h : Sources P stack i) (hventures : ventures) (path : List Position)
    (steps : Nat) : Leads P ventures (ofVisit stack i e path steps) := by
  cases path with
  | nil =>
      simp only [ofVisit]
      split
      · exact leads_on (tame_ofResult h _)
      · next a _ =>
        have hseen : Sources P stack { i with actor := a } := h.seen rfl
        exact leads_ventured hventures (names_of_nil hseen rfl)
  | cons target rest =>
      simp only [ofVisit]
      split
      · exact leads_ofMotion h hventures target rest steps
      · exact leads_on (tame_ofResult h _)

-- A walk names nothing.
theorem names_ofWalk (h : Sources P stack i) (path : List Position) :
    Names P (ofWalk stack i e path) := by
  unfold ofWalk
  split
  · exact (tame_ofResult h _).toNames
  · split
    · exact names_of_nil h rfl
    · exact names_of_nil h rfl

/-- A capability that was announced goes on with something of its own, which names nothing. -/
theorem leads_ofCapability (h : Sources P stack i) (hventures : ventures) (c : Capability)
    (args : List Value) : Leads P ventures (ofCapability stack i e c args) := by
  unfold ofCapability
  split
  · exact leads_on (tame_ofResult h _)
  · split
    · exact leads_on (tame_ofResult h _)
    · generalize Course.of c.operation args i e.world.bounds = course
      cases course with
      | answer outcome => exact leads_ventured hventures (names_ofOutcome h outcome)
      | print text => exact leads_ventured hventures (names_of_nil h rfl)
      | walk path => exact leads_ventured hventures (names_ofWalk h path)
      | onTile f =>
          simp only [ofCourse, ofTile]
          split
          · split
            · exact leads_ventured hventures (names_ofOutcome h _)
            · exact leads_on (tame_ofResult h _)
          · exact leads_on (tame_ofResult h _)
      | pause nanoseconds s =>
          exact Leads.pausing (leads_ventured hventures (names_of_nil h rfl)) nanoseconds

/-- Where a subroutine is entered, the names in its body come to be called. They are among those of
    the script. -/
theorem tame_ofSubroutine (h : Sources P stack i) (name : String) {s : Subroutine}
    (hs : ∀ called ∈ Stmt.namesOfBlock s.body, P called) (args : List Value) :
    Tame P (ofSubroutine stack i name s args) := by
  unfold ofSubroutine
  split
  · exact tame_ofResult h _
  · have hentered : Sources P (.body name stack)
        { i with frames := ⟨name, s.lines, Step.initialLocals name args⟩ :: i.frames } :=
      ⟨h.pending, h.subroutines⟩
    exact tame_block hentered hs

-- What is called has the names that it was found under, or those of its body.
theorem leads_ofCall (h : Sources P stack i) (hventures : ventures) {name : String}
    (hname : P name) (args : List Value) : Leads P ventures (ofCall stack i e name args) := by
  simp only [ofCall]
  split
  · exact leads_on (tame_ofResult h _)
  · next a _ =>
    have hseen : Sources P stack { i with actor := a } := h.seen rfl
    split
    · exact leads_on (tame_ofResult hseen _)
    · split
      · next callee hcallee =>
        refine leads_ventured hventures ⟨hseen, ?_⟩
        cases callee with
        | capability c => exact List.forall_mem_nil _
        | tileFunction t => exact List.forall_mem_singleton.mpr hname
        | subroutine s => exact h.subroutines name s (get?_of_callee? hcallee :)
      · exact leads_on (tame_ofResult hseen _)

-- A job begins with a name, and the call of it is not announced yet.
theorem leads_ofJob (h : Sources P stack i) {job : Job}
    (hjob : ∀ name ∈ (Control.job job).names, P name) :
    Leads P ventures (ofJob stack i e job) := by
  cases job with
  | call actor name args => exact leads_on ⟨⟨h, hjob⟩, trivial⟩
  | main actor =>
      simp only [ofJob]
      split
      · exact leads_on ⟨⟨⟨h.pending, h.subroutines⟩, hjob⟩, trivial⟩
      · exact leads_on (tame_ofResult h _)

-- A result goes to what is pending, which has its names already.
theorem leads_ofBack {k : Kind} {stack : Stack k} (h : Sources P stack i)
    (r : Except Failure k.Result) : Leads P ventures (ofBack r stack i e) := by
  rcases h with ⟨hpending, hsubroutines⟩
  cases stack with
  | last => exact fun _ hm => by cases hm
  | main actor rest =>
      have hover : Sources P rest i := ⟨hpending, hsubroutines⟩
      exact leads_on (tame_ofResult hover r)
  | pend p rest =>
      rcases List.forall_mem_append.mp hpending with ⟨hp, hrest⟩
      have hover : Sources P rest i := ⟨hrest, hsubroutines⟩
      cases r with
      | ok a => exact leads_on (tame_resume hover hp a)
      | error f => exact leads_on (tame_ofResult hover (.error f))
  | body name rest =>
      have hleft : Sources P rest (Step.leave i) := ⟨hpending, hsubroutines⟩
      cases r with
      | ok flow => exact leads_on (tame_ofResult hleft (Step.ofFlow name flow))
      | error f => exact leads_on (tame_ofResult hleft (.error f))

end

/-! ## Steps -/

/-- A step comes up with no names, and few steps lead to something of a call that was announced. -/
theorem Names.next (h : Names P m) (e : Engine) : Leads P m.control.Ventures (m.next e) := by
  rcases m with ⟨k, control, stack, i⟩
  rcases h with ⟨h, hcontrol⟩
  cases control with
  | job job => exact leads_ofJob h hcontrol
  | evaluate x => exact leads_on (tame_ofExpr h hcontrol)
  | execute s =>
      simp only [Machine.next]
      split
      · exact leads_on (tame_ofStmt h hcontrol)
      · exact leads_on (tame_ofResult h _)
  | block body => exact leads_on (tame_ofBlock h hcontrol)
  | branches rest otherwise => exact leads_on (tame_ofBranches h hcontrol)
  | whileLoop condition body turns =>
      simp only [Machine.next]
      split
      · have htest : Sources P (.pend (.whileTest condition body turns) stack) i := h.pend hcontrol
        exact leads_on (tame_evaluate htest (List.forall_mem_append.mp hcontrol).1)
      · exact leads_on (tame_ofResult h _)
  | forLoop name body values =>
      cases values with
      | nil => exact leads_on (tame_ofResult h _)
      | cons v rest =>
          simp only [Machine.next]
          split
          · have hturn : Sources P (.pend (.forBody name body rest) stack) (i.assign name v) :=
              (h.assign name v).pend hcontrol
            exact leads_on (tame_block hturn hcontrol)
          · exact leads_on (tame_ofResult h _)
  | call name args => exact leads_ofCall h trivial (List.forall_mem_singleton.mp hcontrol) args
  | capability c args => exact leads_ofCapability h trivial c args
  | tileFunction t name => exact leads_ventured trivial (names_ofOutcome h _)
  | subroutine name s args => exact leads_on (tame_ofSubroutine h name hcontrol args)
  | visit path steps => exact leads_ofVisit h trivial path steps
  | arrive epoch target rest steps => exact leads_ofArrive h trivial epoch target rest steps
  | settle s => exact leads_ofSettle h s
  | back r => exact leads_ofBack h r

/-- Few steps lead to something of a call that was announced. -/
theorem plain_next {m' : Machine} (hventures : ¬ m.control.Ventures)
    (hm : (m.next e).machine? = some m') : m'.control.Plain := by
  have hany : Names (fun _ => True) m :=
    ⟨⟨fun _ _ => trivial, fun _ _ _ _ _ => trivial⟩, fun _ _ => trivial⟩
  exact (hany.next e m' hm).2.resolve_left hventures

/-! ## What is told -/

-- A name that is none of a function of a tile stands for none.
theorem isSolitary_of_callee {i : Interpreter} {name : String} (hname : NoTileFunction name)
    {callee : Callee} (hcallee : callee? i e name = some callee) (actor : String) (depth : Nat)
    (args : List String) : (Event.call actor depth name args callee.source).IsSolitary := by
  unfold callee? at hcallee
  split at hcallee
  · next c hc =>
    rw [← Option.some.inj hcallee]
    exact ⟨c, hc, category_of_noTileFunction hname hc⟩
  · rw [Step.offering?_of_noTileFunction hname] at hcallee
    rcases Option.map_eq_some_iff.mp hcallee with ⟨s, _, rfl⟩
    trivial

/-- Without names of functions of tiles, no step calls one. -/
theorem Names.tellsSolitary (h : Names NoTileFunction m) (e : Engine) :
    e.TellsSolitary (m.next e).engine := by
  have htold : ∀ (e' : Engine) (events : List Event), (∀ event ∈ events, ¬ event.IsCall) →
      e'.log = e.log → e.TellsSolitary (e'.emitAll events) := by
    intro e' events hcalls hlog
    refine ⟨events.reverse, by rw [Engine.emitAll_eq, ← hlog], fun event hevent => ?_⟩
    exact Event.isSolitary_of_not_isCall (hcalls event (List.mem_reverse.mp hevent))
  have heffect := (passage_next m e).effect
  generalize (m.next e).engine = e' at heffect ⊢
  cases heffect with
  | told events hcalls => exact htold e events hcalls rfl
  | flagged value events hcalls => exact htold _ events hcalls rfl
  | @called a ha hidle depth name args hname callee hcallee =>
      refine e.tellsSolitary_emit (isSolitary_of_callee ?_ hcallee _ _ _)
      rcases m with ⟨k, control, stack, i⟩
      cases control with
      | call name' args' =>
          rw [← Option.some.inj hname]
          exact List.forall_mem_singleton.mp h.control
      | _ => cases hname
  | used _ tile name =>
      exact Engine.tellsSolitary_of_log (Engine.aside_invoke e true _ tile name).log
  | _ => exact Engine.tellsSolitary_of_log rfl

end Machine

end Farmhand
