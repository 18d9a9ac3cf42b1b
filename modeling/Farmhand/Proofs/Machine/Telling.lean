import Farmhand.Proofs.Engine.Interaction
import Farmhand.Proofs.Machine.Effect
import Farmhand.Proofs.Script.Origins

/-!
# What a Run Tells

Between its start and its end a run tells statements, calls and what is printed, and nothing else.
A statement that is told is one of the subroutine that is under way, told by the name and the lines
of that subroutine. The statements still to come are spread over the state of a machine: those of
the innermost call are in what is to be done next and in what is pending down to the end of the
call, those of the call around it are pending below that. So the invariant goes down the stack and
down the calls under way at the same time.

It is said over any bottom of the stack, since a run of the entry script has one end of its own:
what a run over a bottom does until it comes back to the bottom is the same whether the end of the
entry script is still to be told or not.

## Main definitions

* `Interpreter.sites`: The names and the lines of the calls under way.
* `Machine.Control.parts`, `Machine.Pending.parts`: The statements still to come.
* `Machine.Errand`: For whom a run speaks, and what it may tell.
* `Machine.Errand.Underway`: A machine keeps to its errand.
* `Machine.Errand.Speaks`: What may be told.

## Theorems

* `Machine.Errand.underway_resume`: What is pending keeps to the errand.
* `Machine.Errand.Underway.next`: So does a step, until the machine is back at the bottom.
-/

namespace Farmhand

open Script
open Text (SourceLines)

/-- The name and the lines of a call. -/
def Frame.site (frame : Frame) : String × SourceLines :=
  (frame.name, frame.lines)

/-- The names and the lines of the calls under way, the innermost in front. -/
def Interpreter.sites (i : Interpreter) : List (String × SourceLines) :=
  i.frames.map Frame.site

-- An assignment changes the variables of a call only.
theorem Interpreter.sites_assign (i : Interpreter) (name : String) (value : Value) :
    (i.assign name value).sites = i.sites := by
  unfold assign sites
  cases hframes : i.frames with
  | nil => simp only [List.map_nil]
  | cons frame rest =>
      cases hlocals : frame.locals with
      | none => simp only [hlocals]
      | some locals => simp only [hlocals, List.map_cons, Frame.site]

namespace Machine

/-! ## The statements to come -/

/-- The statements in what is to be done next. -/
def Control.parts {k : Kind} : Control k → List Stmt
  | .execute s => s.parts
  | .block body => Stmt.partsOfBlock body
  | .branches rest otherwise => Stmt.partsOfChain rest otherwise
  | .whileLoop _ body _ => Stmt.partsOfBlock body
  | .forLoop _ body _ => Stmt.partsOfBlock body
  | _ => []

/-- The statements in what is pending. -/
def Pending.parts {k l : Kind} : Pending k l → List Stmt
  | .branch body rest otherwise => Stmt.partsOfBlock body ++ Stmt.partsOfChain rest otherwise
  | .whileTest _ body _ => Stmt.partsOfBlock body
  | .whileBody _ body _ => Stmt.partsOfBlock body
  | .iterated _ body => Stmt.partsOfBlock body
  | .forBody _ body _ => Stmt.partsOfBlock body
  | .sequence rest => Stmt.partsOfBlock rest
  | _ => []

/-- What is to be done next begins no run of the entry script, and a call of a subroutine that it
    begins is of one of some subroutines by its name. -/
def Control.Calls {k : Kind} (subroutines : Table Subroutine) : Control k → Prop
  | .job (.main _) => False
  | .subroutine name s _ => subroutines.get? name = some s
  | _ => True

/-- For whom a run speaks, its subroutines, the statements that may be told in calls of these, the
    bottom of its stack and the calls that are under way there. -/
structure Errand where
  actor : String
  subroutines : Table Subroutine
  tells : String × SourceLines → Stmt → Prop
  bottom : Stack .success
  sites : List (String × SourceLines)

namespace Errand

variable (g : Errand)

/-- All statements of the subroutines may be told. -/
def Sound : Prop :=
  ∀ name s, g.subroutines.get? name = some s →
    ∀ part ∈ Stmt.partsOfBlock s.body, g.tells (name, s.lines) part

/-- A statement may be told in the innermost of the calls under way. -/
def Tells (sites : List (String × SourceLines)) (s : Stmt) : Prop :=
  ∃ site outer, sites = site :: outer ∧ g.tells site s

/-- All that is pending may be told in the calls to which it belongs, down to the bottom. -/
def Over {k : Kind} : Stack k → List (String × SourceLines) → Prop
  | .last, sites => g.bottom = .last ∧ sites = g.sites
  | .main actor rest, sites => g.bottom = .main actor rest ∧ sites = g.sites
  | .pend p rest, sites => (∀ s ∈ p.parts, g.Tells sites s) ∧ Over rest sites
  | .body _ rest, sites => ∃ site outer, sites = site :: outer ∧ Over rest outer

/-- An interpreter with a stack that keep to an errand. -/
structure Context {k : Kind} (stack : Stack k) (i : Interpreter) : Prop where
  actor : i.actor.id = g.actor
  subroutines : i.subroutines = g.subroutines
  pending : g.Over stack i.sites

/-- A machine that keeps to its errand. -/
structure Underway (m : Machine) : Prop where
  context : g.Context m.stack m.interpreter
  parts : ∀ s ∈ m.control.parts, g.Tells m.interpreter.sites s
  calls : m.control.Calls g.subroutines

/-- What may be told on an errand. -/
def Speaks : Event → Prop
  | .statement actor name line text => actor = g.actor ∧ ∃ lines s, g.tells (name, lines) s ∧
      line = s.span.line ∧ text = (lines.line? s.span.line).getD ""
  | .call actor _ _ _ _ => actor = g.actor
  | .log actor _ _ => actor = g.actor
  | _ => False

variable {g}

-- All that is told on an errand is told for its actor.
theorem Speaks.actor {event : Event} (h : g.Speaks event) : event.actor = g.actor := by
  cases event with
  | statement actor name line text => exact h.1
  | call actor depth name args source => exact h
  | log actor severity message => exact h
  | _ => exact h.elim

section

variable {k l : Kind} {stack : Stack k} {i : Interpreter}

/-- Something more is pending, with statements that may be told. -/
theorem Context.pend {p : Pending l k} (h : g.Context stack i)
    (hp : ∀ s ∈ p.parts, g.Tells i.sites s) : g.Context (.pend p stack) i :=
  ⟨h.actor, h.subroutines, hp, h.pending⟩

-- Expressions have no statements inside them.
theorem Context.pend_nil {p : Pending l k} (h : g.Context stack i) (hp : p.parts = []) :
    g.Context (.pend p stack) i :=
  h.pend (hp ▸ List.forall_mem_nil _)

-- What an interpreter knows besides its actor, its subroutines and its calls does not matter.
theorem Context.seen {j : Interpreter} (h : g.Context stack i) (hactor : j.actor.id = i.actor.id)
    (hsubroutines : j.subroutines = i.subroutines) (hsites : j.sites = i.sites) :
    g.Context stack j :=
  ⟨hactor.trans h.actor, hsubroutines.trans h.subroutines, hsites ▸ h.pending⟩

-- Hence an assignment does not.
theorem Context.assign (h : g.Context stack i) (name : String) (value : Value) :
    g.Context stack (i.assign name value) :=
  h.seen (congrArg Actor.id (i.kin_assign name value).actor) (i.kin_assign name value).subroutines
    (i.sites_assign name value)

-- With a result nothing is to be told but what is pending.
theorem underway_ofResult (h : g.Context stack i) (r : Except Failure k.Result) :
    g.Underway (ofResult stack i r) :=
  ⟨h, List.forall_mem_nil _, trivial⟩

-- The result of an operation tells nothing.
theorem underway_ofOperation (h : g.Context stack i) (r : Except OperationError k.Result) :
    g.Underway (ofOperation stack i r) := by
  cases r with
  | ok a => exact underway_ofResult h _
  | error error => exact underway_ofResult h _

end

/-! ## Expressions -/

section

variable {stack : Stack .value} {i : Interpreter}

-- Statements do not stand in expressions.
theorem underway_evaluate (h : g.Context stack i) (x : Expr) :
    g.Underway ⟨_, .evaluate x, stack, i⟩ :=
  ⟨h, List.forall_mem_nil _, trivial⟩

-- The items of a list hold no statement.
theorem underway_ofItems (h : g.Context stack i) (done : List Value) (xs : List Expr) :
    g.Underway (ofItems stack i done xs) := by
  cases xs with
  | nil => exact underway_ofResult h _
  | cons x rest => exact underway_evaluate (h.pend_nil rfl) x

-- The arguments of a call hold none, and the call itself tells of no statement.
theorem underway_ofArguments (h : g.Context stack i) (name : String) (done : List Value)
    (xs : List Expr) : g.Underway (ofArguments stack i name done xs) := by
  cases xs with
  | nil => exact ⟨h.pend_nil rfl, List.forall_mem_nil _, trivial⟩
  | cons x rest => exact underway_evaluate (h.pend_nil rfl) x

-- No expression holds a statement.
theorem underway_ofExpr (h : g.Context stack i) (x : Expr) : g.Underway (ofExpr stack i x) := by
  cases x with
  | lit value span => exact underway_ofResult h _
  | var name span => exact underway_ofResult h _
  | list items span => exact underway_ofItems h [] items
  | index container position span => exact underway_evaluate (h.pend_nil rfl) container
  | unary op operand span => exact underway_evaluate (h.pend_nil rfl) operand
  | binary op left right span => exact underway_evaluate (h.pend_nil rfl) left
  | call name args span => exact underway_ofArguments h name [] args

-- Behind an operator stands another expression, or nothing is left to evaluate.
theorem underway_ofBinary (h : g.Context stack i) (op : BinaryOp) (l : Value) (right : Expr) :
    g.Underway (ofBinary stack i op l right) := by
  unfold ofBinary
  split
  · split
    · exact underway_evaluate h right
    · exact underway_ofResult h _
  · split
    · exact underway_ofResult h _
    · exact underway_evaluate h right
  · exact underway_evaluate (h.pend_nil rfl) right

end

/-! ## Statements -/

section

variable {stack : Stack .flow} {i : Interpreter}

-- A block is told by its statements.
theorem underway_block (h : g.Context stack i) {body : Block}
    (hbody : ∀ s ∈ Stmt.partsOfBlock body, g.Tells i.sites s) :
    g.Underway ⟨_, .block body, stack, i⟩ :=
  ⟨h, hbody, trivial⟩

/-- A statement that was told goes on to its value or to its blocks. -/
theorem underway_ofStmt (h : g.Context stack i) {s : Stmt}
    (hs : ∀ part ∈ s.parts, g.Tells i.sites part) : g.Underway (ofStmt stack i s) := by
  cases s with
  | assign name op value span => exact underway_evaluate (h.pend_nil rfl) value
  | expr value span => exact underway_evaluate (h.pend_nil rfl) value
  | cond branches otherwise span =>
      rw [Stmt.parts_cond] at hs
      exact ⟨h, fun part hpart => hs part (List.mem_cons_of_mem _ hpart), trivial⟩
  | whileLoop condition body span =>
      exact ⟨h, fun part hpart => hs part (List.mem_cons_of_mem _ hpart), trivial⟩
  | forLoop name items body span =>
      have hbody := h.pend (p := .iterated name body)
        fun part hpart => hs part (List.mem_cons_of_mem _ hpart)
      exact underway_evaluate hbody items
  | returnWith value span =>
      cases value with
      | some x => exact underway_evaluate (h.pend_nil rfl) x
      | none => exact underway_ofResult h _
  | _ => exact underway_ofResult h _

/-- A conditional goes on to the first branch that holds. What is pending are the others. -/
theorem underway_ofBranches (h : g.Context stack i) {rest : List (Expr × Block)}
    {otherwise : Option Block}
    (hrest : ∀ s ∈ Stmt.partsOfChain rest otherwise, g.Tells i.sites s) :
    g.Underway (ofBranches stack i rest otherwise) := by
  cases rest with
  | cons branch rest =>
      rcases branch with ⟨condition, body⟩
      rw [Stmt.partsOfChain_cons] at hrest
      exact underway_evaluate (h.pend (p := .branch body rest otherwise) hrest) condition
  | nil =>
      cases otherwise with
      | some body => exact underway_block h hrest
      | none => exact underway_ofResult h _

-- A block goes on to its first statement, and the others are pending.
theorem underway_ofBlock (h : g.Context stack i) {body : Block}
    (hbody : ∀ s ∈ Stmt.partsOfBlock body, g.Tells i.sites s) :
    g.Underway (ofBlock stack i body) := by
  cases body with
  | nil => exact underway_ofResult h _
  | cons s rest =>
      rw [Stmt.partsOfBlock, List.forall_mem_append] at hbody
      exact ⟨h.pend hbody.2, hbody.1, trivial⟩

-- A loop goes on to its body, whose statements it had.
theorem underway_ofAfterBody (h : g.Context stack i) (flow : Flow) {goOn : Control .flow}
    (hgoOn : g.Underway ⟨_, goOn, stack, i⟩) : g.Underway (ofAfterBody stack i flow goOn) := by
  cases flow with
  | normal => exact hgoOn
  | continued => exact hgoOn
  | broken => exact underway_ofResult h _
  | returned v => exact underway_ofResult h _

end

/-- What is pending keeps to the errand. -/
theorem underway_resume {k l : Kind} {p : Pending k l} {stack : Stack l} {i : Interpreter}
    (h : g.Context stack i) (hp : ∀ s ∈ p.parts, g.Tells i.sites s) (a : k.Result) :
    g.Underway (p.resume a stack i) := by
  cases p with
  | items done rest => exact underway_ofItems h (done ++ [a]) rest
  | arguments name done rest => exact underway_ofArguments h name (done ++ [a]) rest
  | container x => exact underway_evaluate (h.pend_nil rfl) x
  | position whole => exact underway_ofOperation h _
  | operand op =>
      cases op with
      | neg => exact underway_ofOperation h _
      | not => exact underway_ofResult h _
  | left op x => exact underway_ofBinary h op a x
  | right op l => exact underway_ofOperation h _
  | answer => exact underway_ofResult h _
  | assigned name op =>
      simp only [Pending.resume]
      split
      · next j hj =>
        rcases assignedWith_eq_ok hj with ⟨result, rfl⟩
        exact underway_ofResult (h.assign name result) _
      · exact underway_ofResult h _
  | discarded => exact underway_ofResult h _
  | branch body rest otherwise =>
      rw [Pending.parts, List.forall_mem_append] at hp
      simp only [Pending.resume]
      split
      · exact underway_block h hp.1
      · exact ⟨h, hp.2, trivial⟩
  | whileTest condition body turns =>
      simp only [Pending.resume]
      split
      · split
        · exact underway_ofResult h _
        · exact underway_block (h.pend hp) hp
      · exact underway_ofResult h _
  | whileBody condition body turns => exact underway_ofAfterBody h a ⟨h, hp, trivial⟩
  | iterated name body =>
      simp only [Pending.resume]
      split
      · exact ⟨h, hp, trivial⟩
      · exact underway_ofResult h _
  | forBody name body rest => exact underway_ofAfterBody h a ⟨h, hp, trivial⟩
  | returned => exact underway_ofResult h _
  | sequence rest =>
      cases a with
      | normal => exact underway_block h hp
      | _ => exact underway_ofResult h _

/-! ## Calls -/

variable {m : Machine} {e e' : Engine}

/-- What a step tells, and that it goes on with the errand. -/
structure Onward (g : Errand) (e : Engine) (p : Progress) : Prop where
  told : ∃ told, p.engine.log = told ++ e.log ∧ ∀ event ∈ told, g.Speaks event
  goes : ∃ m, p.machine? = some m ∧ g.Underway m

-- A step that tells nothing.
theorem onward_quiet (h : g.Underway m) (hlog : e'.log = e.log) : g.Onward e (.on m e') :=
  ⟨⟨[], hlog, List.forall_mem_nil _⟩, m, rfl, h⟩

-- A step that tells what may be told.
theorem onward_told (h : g.Underway m) {event : Event} (hspeaks : g.Speaks event) :
    g.Onward e (.on m (e.emit event)) :=
  ⟨⟨[event], rfl, List.forall_mem_singleton.mpr hspeaks⟩, m, rfl, h⟩

-- A wait tells nothing.
theorem Onward.pausing (h : g.Onward e (.on m e')) (nanoseconds : Nat) :
    g.Onward e (pausing nanoseconds m e') := by
  unfold Machine.pausing
  split
  · exact h
  · exact ⟨h.told, h.goes⟩

section

variable {stack : Stack .success} {i : Interpreter}

-- A call that succeeded tells nothing more.
theorem underway_settle (h : g.Context stack i) (s : Success) :
    g.Underway ⟨_, .settle s, stack, i⟩ :=
  ⟨h, List.forall_mem_nil _, trivial⟩

-- A call that came back with an outcome tells nothing more.
theorem underway_ofOutcome (h : g.Context stack i) (r : Outcome) :
    g.Underway (ofOutcome stack i r) := by
  cases r with
  | ok s => exact underway_settle h s
  | error f => exact underway_ofResult h _

-- An actor that is seen anew is the same actor, where actors are filed by their ids.
theorem Context.seeing (h : g.Context stack i) {w : World} (hkeyed : w.Keyed) :
    g.Context stack (seeing i w) := by
  refine h.seen (seeing_id hkeyed i) ?_ ?_
  · unfold Machine.seeing
    split <;> rfl
  · unfold Machine.seeing
    split <;> rfl

-- An actor that is found by the id of another is the same actor.
theorem Context.found (h : g.Context stack i) (hkeyed : e.world.Keyed) {a : Actor}
    (ha : e.world.actor i.actor.id = .ok a) : g.Context stack { i with actor := a } :=
  h.seen (id_of_keyed hkeyed ha) rfl rfl

-- The pace of a call tells nothing.
theorem onward_ofPace (h : g.Context stack i) (hlog : e'.log = e.log) (s : Success) :
    g.Onward e (ofPace stack i e' s) := by
  have hover := onward_quiet (underway_ofResult h (.ok s)) hlog
  unfold ofPace
  split
  · exact hover.pausing _
  · exact hover

-- The payment for a call tells nothing.
theorem onward_ofSettle (h : g.Context stack i) (hkeyed : e.world.Keyed) (s : Success) :
    g.Onward e (ofSettle stack i e s) := by
  unfold ofSettle
  split
  · split
    · split
      · exact onward_quiet (underway_ofResult h _) rfl
      · next world hworld =>
        have hlog : ({ e with world } : Engine).log = e.log := rfl
        exact onward_ofPace (h.seeing ((World.updateActor_eq_ok hworld).2.2 hkeyed)) hlog s
    · exact onward_ofPace h rfl s
  · exact onward_ofPace h rfl s

-- An interruption tells nothing.
theorem onward_interrupted (h : g.Context stack i) (hlog : e'.log = e.log)
    (hkeyed : e'.world.Keyed) (target : Position) :
    g.Onward e (interrupted stack i target e') :=
  onward_quiet (underway_ofResult (h.seeing hkeyed) _) hlog

-- Arrivals tell nothing.
theorem onward_ofArrive (h : g.Context stack i) (hkeyed : e.world.Keyed) (epoch : Nat)
    (target : Position) (rest : List Position) (steps : Nat) :
    g.Onward e (ofArrive stack i e epoch target rest steps) := by
  unfold ofArrive
  split
  · split
    · exact onward_quiet ⟨h, List.forall_mem_nil _, trivial⟩ rfl
    · exact onward_interrupted h rfl hkeyed target
  · exact onward_interrupted h rfl hkeyed target

-- Motions tell nothing.
theorem onward_ofMotion (h : g.Context stack i) (hkeyed : e.world.Keyed) (target : Position)
    (rest : List Position) (steps : Nat) :
    g.Onward e (ofMotion stack i e target rest steps) := by
  have hlog : ({ e with moveRequests := e.moveRequests + 1 } : Engine).log = e.log := rfl
  have hmissed := onward_interrupted h hlog hkeyed target
  have harrive : g.Underway ⟨_, .arrive e.motionEpoch target rest steps, stack, i⟩ :=
    ⟨h, List.forall_mem_nil _, trivial⟩
  simp only [ofMotion]
  split
  · exact hmissed
  · split
    · split
      · exact onward_quiet (underway_ofResult h _) hlog
      · exact hmissed
      · exact (onward_quiet harrive hlog).pausing _
    · exact hmissed

-- The tiles of a walk tell nothing.
theorem onward_ofVisit (h : g.Context stack i) (hkeyed : e.world.Keyed) (path : List Position)
    (steps : Nat) : g.Onward e (ofVisit stack i e path steps) := by
  cases path with
  | nil =>
      simp only [ofVisit]
      split
      · exact onward_quiet (underway_ofResult h _) rfl
      · next a ha => exact onward_quiet (underway_settle (h.found hkeyed ha) _) rfl
  | cons target rest =>
      simp only [ofVisit]
      split
      · exact onward_ofMotion h hkeyed target rest steps
      · exact onward_quiet (underway_ofResult h _) rfl

-- A walk has no statements.
theorem underway_ofWalk (h : g.Context stack i) (path : List Position) :
    g.Underway (ofWalk stack i e path) := by
  unfold ofWalk
  split
  · exact underway_ofResult h _
  · split
    · exact underway_settle h _
    · exact ⟨h, List.forall_mem_nil _, trivial⟩

-- Functions of tiles tell nothing.
theorem onward_ofTileFunction (h : g.Context stack i) (t : Tile) (name : String) :
    g.Onward e (ofTileFunction stack i e t name) :=
  onward_quiet (underway_ofOutcome h _) (Engine.aside_invoke e true _ _ _).log

/-- A function of a tile tells nothing. -/
theorem onward_ofTile (h : g.Context stack i) (f : TileFunction) :
    g.Onward e (ofTile stack i e f) := by
  simp only [ofTile]
  split
  · split
    · exact onward_quiet (underway_ofOutcome h _) (Engine.aside_invoke e true _ _ _).log
    · exact onward_quiet (underway_ofResult h _) rfl
  · exact onward_quiet (underway_ofResult h _) rfl

/-- Of the capabilities only `print` tells something, which is a message of its actor. -/
theorem onward_ofCapability (h : g.Context stack i) (c : Capability) (args : List Value) :
    g.Onward e (ofCapability stack i e c args) := by
  unfold ofCapability
  split
  · exact onward_quiet (underway_ofResult h _) rfl
  · split
    · exact onward_quiet (underway_ofResult h _) rfl
    · generalize Course.of c.operation args i e.world.bounds = course
      cases course with
      | answer outcome => exact onward_quiet (underway_ofOutcome h _) rfl
      | print text => exact onward_told (underway_settle h _) h.actor
      | walk path => exact onward_quiet (underway_ofWalk h path) rfl
      | onTile f => exact onward_ofTile h f
      | pause nanoseconds s => exact Onward.pausing (onward_quiet (underway_settle h s) rfl) _

-- The statements of a subroutine may be told in its call.
theorem underway_ofSubroutine (hsound : g.Sound) (h : g.Context stack i) {name : String}
    {s : Subroutine} (hs : g.subroutines.get? name = some s) (args : List Value) :
    g.Underway (ofSubroutine stack i name s args) := by
  unfold ofSubroutine
  split
  · exact underway_ofResult h _
  · exact ⟨⟨h.actor, h.subroutines, _, _, rfl, h.pending⟩,
      fun part hpart => ⟨_, _, rfl, hsound name s hs part hpart⟩, trivial⟩

/-- A call is told, and then its subroutine is one of the errand, if it is one. -/
theorem onward_ofCall (h : g.Context stack i) (hkeyed : e.world.Keyed) (name : String)
    (args : List Value) : g.Onward e (ofCall stack i e name args) := by
  simp only [ofCall]
  split
  · exact onward_quiet (underway_ofResult h _) rfl
  · next a ha =>
    have hfound := h.found hkeyed ha
    split
    · exact onward_quiet (underway_ofResult hfound _) rfl
    · split
      · next callee hcallee =>
        refine onward_told ⟨hfound, ?_, ?_⟩ hfound.actor
        · cases callee <;> exact List.forall_mem_nil _
        · cases callee with
          | capability c => exact trivial
          | tileFunction t => exact trivial
          | subroutine s => exact h.subroutines ▸ (get?_of_callee? hcallee :)
      · exact onward_quiet (underway_ofResult hfound _) rfl

end

/-! ## Steps -/

section

variable {k l : Kind} {i : Interpreter}

-- A result that goes to what is pending tells nothing.
theorem onward_pend {p : Pending k l} {rest : Stack l} (h : g.Context (.pend p rest) i)
    (r : Except Failure k.Result) : g.Onward e (ofBack r (.pend p rest) i e) := by
  rcases h with ⟨hactor, hsubroutines, hp, hover⟩
  cases r with
  | ok a => exact onward_quiet (underway_resume ⟨hactor, hsubroutines, hover⟩ hp a) rfl
  | error f => exact onward_quiet (underway_ofResult ⟨hactor, hsubroutines, hover⟩ _) rfl

-- At the end of a call, what is pending belongs to the call around it.
theorem onward_body {name : String} {rest : Stack .success} (h : g.Context (.body name rest) i)
    (r : Except Failure Flow) : g.Onward e (ofBack (k := .flow) r (.body name rest) i e) := by
  rcases h with ⟨hactor, hsubroutines, site, outer, hsites, hover⟩
  have houter : (Step.leave i).sites = outer := by
    unfold Interpreter.sites at hsites ⊢
    rw [Step.leave, List.map_tail, hsites]
    rfl
  have hleft : g.Context rest (Step.leave i) := ⟨hactor, hsubroutines, houter ▸ hover⟩
  cases r with
  | ok flow => exact onward_quiet (underway_ofResult hleft _) rfl
  | error f => exact onward_quiet (underway_ofResult hleft _) rfl

end

/-- A step of a machine that keeps to its errand tells what may be told and goes on with the errand,
    unless the machine is back at the bottom of its stack. -/
theorem Underway.next (h : g.Underway m) (hsound : g.Sound) (hkeyed : e.world.Keyed) :
    g.Onward e (m.next e) ∨ ∃ r i, m = ofResult g.bottom i r := by
  rcases m with ⟨k, control, stack, i⟩
  rcases h with ⟨hcontext, hparts, hcalls⟩
  cases control with
  | job job =>
      cases job with
      | call actor name args =>
          refine .inl (onward_quiet ⟨hcontext, List.forall_mem_nil _, trivial⟩ ?_)
          split <;> rfl
      | main actor => exact hcalls.elim
  | evaluate x => exact .inl (onward_quiet (underway_ofExpr hcontext x) rfl)
  | execute s =>
      left
      simp only [Machine.next]
      split
      · -- The statement itself is told, in the innermost call.
        refine onward_told (underway_ofStmt hcontext hparts) ?_
        rcases hparts s s.mem_parts with ⟨⟨name, lines⟩, outer, hsites, htells⟩
        unfold announcement
        cases hframes : i.frames with
        | nil => simp only [Interpreter.sites, hframes, List.map_nil, reduceCtorEq] at hsites
        | cons frame rest =>
            simp only [Interpreter.sites, hframes, List.map_cons, Frame.site, List.cons.injEq,
              Prod.mk.injEq] at hsites
            rcases hsites with ⟨⟨rfl, rfl⟩, _⟩
            exact ⟨hcontext.actor, frame.lines, s, htells, rfl, rfl⟩
      · exact onward_quiet (underway_ofResult hcontext _) rfl
  | block body => exact .inl (onward_quiet (underway_ofBlock hcontext hparts) rfl)
  | branches rest otherwise => exact .inl (onward_quiet (underway_ofBranches hcontext hparts) rfl)
  | whileLoop condition body turns =>
      left
      simp only [Machine.next]
      split
      · have htest := hcontext.pend (p := .whileTest condition body turns) hparts
        exact onward_quiet (underway_evaluate htest condition) rfl
      · exact onward_quiet (underway_ofResult hcontext _) rfl
  | forLoop name body values =>
      left
      cases values with
      | nil => exact onward_quiet (underway_ofResult hcontext _) rfl
      | cons v rest =>
          simp only [Machine.next]
          split
          · have hassigned := hcontext.assign name v
            have hbody : ∀ s ∈ Stmt.partsOfBlock body, g.Tells (i.assign name v).sites s := by
              rw [i.sites_assign]
              exact hparts
            have hturn := hassigned.pend (p := .forBody name body rest) hbody
            exact onward_quiet (underway_block hturn hbody) rfl
          · exact onward_quiet (underway_ofResult hcontext _) rfl
  | call name args => exact .inl (onward_ofCall hcontext hkeyed name args)
  | capability c args => exact .inl (onward_ofCapability hcontext c args)
  | tileFunction t name => exact .inl (onward_ofTileFunction hcontext t name)
  | subroutine name s args =>
      exact .inl (onward_quiet (underway_ofSubroutine hsound hcontext hcalls args) rfl)
  | visit path steps => exact .inl (onward_ofVisit hcontext hkeyed path steps)
  | arrive epoch target rest steps =>
      exact .inl (onward_ofArrive hcontext hkeyed epoch target rest steps)
  | settle s => exact .inl (onward_ofSettle hcontext hkeyed s)
  | back r =>
      cases stack with
      | last => exact .inr ⟨r, i, by rw [hcontext.pending.1]⟩
      | main actor rest => exact .inr ⟨r, i, by rw [hcontext.pending.1]⟩
      | pend p rest => exact .inl (onward_pend hcontext r)
      | body name rest => exact .inl (onward_body hcontext r)

end Errand

end Machine

end Farmhand
