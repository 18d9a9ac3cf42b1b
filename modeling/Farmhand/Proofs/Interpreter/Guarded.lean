import Farmhand.Proofs.Interpreter.Outlasting

/-!
# Scripts that Heed a Stop

An interpreter looks at whether it may go on before each statement, at the head of each turn of a
loop and between the steps of a walk, and nowhere else. A script that is stopped while one of its
calls waits goes on from there: what is left of the expression around the call is evaluated, with
all calls in it. This module says for which scripts that is nothing. A call that breaks off ends the
expression; so it is enough that among the calls that are made between two looks only the last one
can outlast a stop.

## Main definitions

* `Sheltered`: Calls of which only the last may outlast a stop.
* `Stmt.Guarded`: A statement between whose looks all calls are sheltered.
* `Interpreter.Guarded`: A script of such statements.

## Theorems

* `Step.evaluate_halts`, `Step.runBlock_halts`: Expressions and blocks come to an end after a stop
  if their calls do.
* `Step.callAt_halts`: So do all calls of a script of guarded subroutines.
-/

namespace Farmhand

open Script

/-! ## Scripts whose calls are sheltered -/

/-- Calls of which only the last may outlast a stop. -/
def Sheltered (names : List String) : Prop :=
  names.Pairwise fun first _ => outlasts first = false

namespace Script

mutual

/-- Between two looks at whether the interpreter may go on, the calls of a statement are sheltered.
    The conditions of a conditional have no look between them. -/
def Stmt.Guarded : Stmt → Prop
  | .assign _ _ value _ => Sheltered value.calls
  | .expr value _ => Sheltered value.calls
  | .cond branches otherwise _ =>
    Sheltered (branches.flatMap fun branch => branch.1.calls) ∧ Stmt.AllGuardedIn branches ∧
      match otherwise with
      | some body => Stmt.AllGuarded body
      | none => True
  | .whileLoop condition body _ => Sheltered condition.calls ∧ Stmt.AllGuarded body
  | .forLoop _ items body _ => Sheltered items.calls ∧ Stmt.AllGuarded body
  | .returnWith (some value) _ => Sheltered value.calls
  | .returnWith none _ => True
  | .breakLoop _ => True
  | .continueLoop _ => True
  | .pass _ => True
  | .skipped _ _ => True

/-- Branches whose bodies are guarded. -/
def Stmt.AllGuardedIn : List (Expr × List Stmt) → Prop
  | [] => True
  | (_, body) :: rest => Stmt.AllGuarded body ∧ Stmt.AllGuardedIn rest

/-- Statements that are all guarded. -/
def Stmt.AllGuarded : List Stmt → Prop
  | [] => True
  | s :: rest => s.Guarded ∧ Stmt.AllGuarded rest

end

end Script

/-- A script of guarded subroutines. -/
def Interpreter.Guarded (i : Interpreter) : Prop :=
  ∀ name s, i.subroutines.get? name = some s → Stmt.AllGuarded s.body

-- Calls in front of others are all bound to break off; without others they are as sheltered as
-- before.
theorem Sheltered.split {first rest : List String} (h : Sheltered (first ++ rest)) :
    Sheltered first ∧ Sheltered rest ∧ (rest ≠ [] → ∀ name ∈ first, outlasts name = false) := by
  rcases List.pairwise_append.mp h with ⟨hfirst, hrest, hacross⟩
  refine ⟨hfirst, hrest, fun hne name hname => ?_⟩
  rcases List.exists_mem_of_ne_nil rest hne with ⟨other, hother⟩
  exact hacross name hname other hother

namespace Step

variable {base : Interpreter}

/-! ## Expressions -/

/-- Sheltered calls, all of which break off if they are bound to. -/
def Fits (breaksOff : Prop) (names : List String) : Prop :=
  Sheltered names ∧ (breaksOff → ∀ name ∈ names, outlasts name = false)

theorem Fits.split {breaksOff : Prop} {first rest : List String}
    (h : Fits breaksOff (first ++ rest)) :
    Fits breaksOff rest ∧ ((rest = [] ∧ Fits breaksOff first) ∨ Fits True first) := by
  rcases h.1.split with ⟨hfirst, hrest, hacross⟩
  refine ⟨⟨hrest, fun hb name hname => h.2 hb name (List.mem_append_right _ hname)⟩, ?_⟩
  by_cases hnil : rest = []
  · exact .inl ⟨hnil, hfirst, fun hb name hname => h.2 hb name (List.mem_append_left _ hname)⟩
  · exact .inr ⟨hfirst, fun _ => hacross hnil⟩

-- One step after another, each with its own part of the calls.
theorem halts_parts {α β : Type} {breaksOff : Prop} {first rest : List String} {s : Step α}
    {next : α → Step β} (h : Fits breaksOff (first ++ rest))
    (hs : ∀ b, Fits b first → s.Halts base (Ending b) fun _ => True)
    (hnext : Fits breaksOff rest → ∀ a, (next a).Halts base (Ending breaksOff) fun _ => True)
    (hstill : rest = [] → ∀ a, (next a).Still base fun _ => True) :
    (Step.bind s next).Halts base (Ending breaksOff) fun _ => True := by
  rcases h.split with ⟨hrest, ⟨hnil, hfirst⟩ | hfirst⟩
  · exact (hs _ hfirst).last (fun a _ => hnext hrest a) fun a _ => hstill hnil a
  · exact (hs _ hfirst).first fun a _ => hnext hrest a

-- A step that is followed by one of the interpreter alone.
theorem halts_idle {α β : Type} {breaksOff : Prop} {s : Step α} {next : α → Step β}
    (hs : s.Halts base (Ending breaksOff) fun _ => True) (hnext : ∀ a, (next a).Idle base) :
    (Step.bind s next).Halts base (Ending breaksOff) fun _ => True :=
  hs.last (fun a _ => (hnext a).instant.halts _) fun a _ => (hnext a).still

section

variable {call : Caller}

/-- An expression without calls does nothing to the engine. -/
theorem evaluate_idle (x : Expr) (h : x.calls = []) : (evaluate call x).Idle base :=
  simple_idle.evaluate x fun _ hname => absurd (h ▸ hname) List.not_mem_nil

theorem evaluateAll_idle (xs : List Expr) (h : Expr.callsAll xs = []) :
    (evaluateAll call xs).Idle base :=
  simple_idle.evaluateAll xs fun _ hname => absurd (h ▸ hname) List.not_mem_nil

-- What an operator does with its operands.
theorem halts_binary {breaksOff : Prop} {op : BinaryOp} {l : Value} {right : Step Value}
    (hright : right.Halts base (Ending breaksOff) fun _ => True) :
    Step.Halts base (Ending breaksOff) (fun _ => True) (match op with
      | .and => if l.truthy then right else Step.pure l
      | .or => if l.truthy then Step.pure l else right
      | op => Step.bind right fun r => operation (Value.binary op l r)) := by
  split
  · split
    · exact hright
    · exact (idle_pure l).instant.halts _
  · split
    · exact (idle_pure l).instant.halts _
    · exact hright
  · exact halts_idle hright fun r => simple_idle.operation _

mutual

/-- An expression with sheltered calls comes to an end after a stop. -/
theorem evaluate_halts (hcall : ∀ name args breaksOff, (breaksOff → outlasts name = false) →
      (call name args).Halts base (Ending breaksOff) fun _ => True) :
    ∀ (x : Expr) (breaksOff : Prop), Fits breaksOff x.calls →
      (evaluate call x).Halts base (Ending breaksOff) fun _ => True
  | .lit value _, _, _ => (idle_pure _).instant.halts _
  | .var name _, _, _ => (simple_idle.readVariable name).instant.halts _
  | .list items _, b, h => halts_idle (evaluateAll_halts hcall items b h) fun _ => idle_pure _
  | .index container position _, _, h =>
      halts_parts h (evaluate_halts hcall container)
        (fun hposition _ => halts_idle (evaluate_halts hcall position _ hposition)
          fun _ => simple_idle.operation _)
        fun hnil _ => ((evaluate_idle position hnil).bind fun _ => simple_idle.operation _).still
  | .unary op operand _, b, h => halts_idle (evaluate_halts hcall operand b h) fun v => by
      cases op with
      | neg => exact simple_idle.operation _
      | not => exact idle_pure _
  | .binary op left right _, _, h =>
      halts_parts h (evaluate_halts hcall left)
        (fun hright _ => halts_binary (evaluate_halts hcall right _ hright))
        fun hnil _ => (simple_idle.binary op _ (evaluate_idle right hnil)).still
  | .call name args _, b, h => by
      have hname : b → outlasts name = false := fun hb =>
        h.2 hb name (List.mem_append_right _ (List.mem_singleton.mpr rfl))
      exact halts_parts h (evaluateAll_halts hcall args)
        (fun _ values => halts_idle (hcall name values b hname) fun _ => idle_pure _)
        fun hnil => absurd hnil (by simp)

theorem evaluateAll_halts (hcall : ∀ name args breaksOff, (breaksOff → outlasts name = false) →
      (call name args).Halts base (Ending breaksOff) fun _ => True) :
    ∀ (xs : List Expr) (breaksOff : Prop), Fits breaksOff (Expr.callsAll xs) →
      (evaluateAll call xs).Halts base (Ending breaksOff) fun _ => True
  | [], _, _ => (idle_pure _).instant.halts _
  | x :: rest, _, h =>
      halts_parts h (evaluate_halts hcall x)
        (fun hrest _ => halts_idle (evaluateAll_halts hcall rest _ hrest) fun _ => idle_pure _)
        fun hnil _ => ((evaluateAll_idle rest hnil).bind fun _ => idle_pure _).still

end

/-! ## Loops -/

theorem still_afterBody (flow : Flow) {goOn : Step Flow} (h : goOn.Still base fun _ => True) :
    (afterBody flow goOn).Still base fun _ => True := by
  cases flow with
  | normal => exact h
  | continued => exact h
  | broken => exact (idle_pure _).still
  | returned v => exact (idle_pure _).still

theorem halts_afterBody (flow : Flow) {goOn : Step Flow}
    (h : goOn.Halts base (Ending False) fun _ => True) :
    (afterBody flow goOn).Halts base (Ending False) fun _ => True := by
  cases flow with
  | normal => exact h
  | continued => exact h
  | broken => exact (idle_pure _).instant.halts _
  | returned v => exact (idle_pure _).instant.halts _

-- A body that heeds a stop, and what is left of the loop around it.
theorem halts_turn {body loop : Step Flow} (hbody : body.Halts base (Ending False) fun _ => True)
    (hloop : loop.Halts base (Ending False) fun _ => True)
    (hstill : loop.Still base fun _ => True) :
    (Step.bind body fun flow => afterBody flow loop).Halts base (Ending False) fun _ => True :=
  hbody.last (fun flow _ => halts_afterBody flow hloop) fun flow _ => still_afterBody flow hstill

theorem whileLoop_still (limit : Nat) (condition : Step Value) (body : Step Flow) (left : Nat) :
    Step.Still base (fun _ => True) (whileLoop limit condition body left) := by
  cases left with
  | zero => exact still_guarded (fun _ => trivial) _
  | succ left => exact still_guarded (fun _ => trivial) _

theorem forLoop_still (name : String) (body : Step Flow) (values : List Value) :
    Step.Still base (fun _ => True) (forLoop name body values) := by
  cases values with
  | nil => exact (idle_pure Flow.normal).still
  | cons v rest => exact still_guarded (fun _ => trivial) _

theorem whileLoop_halts (limit : Nat) {condition : Step Value} {body : Step Flow}
    (hcondition : condition.Halts base (Ending False) fun _ => True)
    (hbody : body.Halts base (Ending False) fun _ => True)
    (hstill : body.Still base fun _ => True) (left : Nat) :
    Step.Halts base (Ending False) (fun _ => True) (whileLoop limit condition body left) := by
  -- The condition is looked at in between, but the body begins with a look of its own.
  induction left with
  | zero =>
      refine (idle_checkRunning.instant.halts _).first fun _ _ => halts_idle hcondition fun v => ?_
      split
      · exact idle_fail _
      · exact idle_pure _
  | succ left ih =>
      have hagain : Step.Still base (fun _ => True) (whileLoop limit condition body left) :=
        whileLoop_still limit condition body left
      refine (idle_checkRunning.instant.halts _).first fun _ _ =>
        hcondition.last (fun v _ => ?_) fun v _ => ?_
      · split
        · exact halts_turn hbody ih hagain
        · exact (idle_pure _).instant.halts _
      · split
        · exact hstill.bind (fun flow => still_afterBody flow hagain) fun _ => trivial
        · exact (idle_pure _).still

theorem forLoop_halts (name : String) {body : Step Flow}
    (hbody : body.Halts base (Ending False) fun _ => True) (values : List Value) :
    Step.Halts base (Ending False) (fun _ => True) (forLoop name body values) := by
  induction values with
  | nil => exact (idle_pure Flow.normal).instant.halts _
  | cons v rest ih =>
      exact (idle_checkRunning.instant.halts _).first fun _ _ =>
        ((simple_idle.assign name v).instant.halts _).first fun _ _ =>
          halts_turn hbody ih (forLoop_still name body rest)

/-! ## Statements -/

theorem runStmt_still (limit : Nat) (s : Stmt) :
    (runStmt call limit s).Still base fun _ => True := by
  cases s with
  | cond branches otherwise span =>
      cases otherwise <;> exact still_guarded (fun _ => trivial) _
  | _ => exact still_guarded (fun _ => trivial) _

/-- A block does nothing in an interpreter that was stopped. -/
theorem runBlock_still (limit : Nat) (body : List Stmt) :
    (runBlock call limit body).Still base fun _ => True := by
  induction body with
  | nil => exact (idle_pure _).still
  | cons s rest ih =>
      refine (runStmt_still limit s).bind (fun flow => ?_) fun _ => trivial
      cases flow with
      | normal => exact ih
      | _ => exact (idle_pure _).still

-- Conditions without calls do nothing in a stopped interpreter.
theorem runBranches_still (limit : Nat) (branches : List (Expr × List Stmt))
    {otherwise : Step Flow} (hcalls : (branches.flatMap fun branch => branch.1.calls) = [])
    (hotherwise : otherwise.Still base fun _ => True) :
    (runBranches call limit branches otherwise).Still base fun _ => True := by
  induction branches with
  | nil => exact hotherwise
  | cons branch rest ih =>
      rw [List.flatMap_cons] at hcalls
      have hparts := List.append_eq_nil_iff.mp hcalls
      refine (evaluate_idle branch.1 hparts.1).still.bind (fun v => ?_) fun _ => trivial
      split
      · exact runBlock_still limit branch.2
      · exact ih hparts.2

-- What follows the look at whether the interpreter may go on, and the announcement.
theorem halts_statement {next : Step Flow} (s : Stmt)
    (h : next.Halts base (Ending False) fun _ => True) :
    (Step.bind checkRunning fun _ => Step.bind (announce s) fun _ => next).Halts base
      (Ending False) fun _ => True :=
  (idle_checkRunning.instant.halts _).first fun _ _ =>
    ((instant_announce s).halts _).first fun _ _ => h

mutual

/-- A guarded statement has at most one call that can wait, and behind it comes a look at the flag
    or the end of the statement. -/
theorem runStmt_halts (hcall : ∀ name args breaksOff, (breaksOff → outlasts name = false) →
      (call name args).Halts base (Ending breaksOff) fun _ => True) (limit : Nat) :
    ∀ s : Stmt, s.Guarded → (runStmt call limit s).Halts base (Ending False) fun _ => True
  | .assign name op value span, h => halts_statement _ <|
      halts_idle (evaluate_halts hcall value False ⟨h, False.elim⟩) fun v =>
        (simple_idle.assignWith name op v).bind fun _ => idle_pure _
  | .expr value span, h => halts_statement _ <|
      halts_idle (evaluate_halts hcall value False ⟨h, False.elim⟩) fun _ => idle_pure _
  | .cond branches otherwise span, h => by
      cases otherwise with
      | none =>
          exact halts_statement _ <| runBranches_halts hcall limit branches _ h.1 h.2.1
            ((idle_pure _).instant.halts _) (idle_pure _).still
      | some body =>
          exact halts_statement _ <| runBranches_halts hcall limit branches _ h.1 h.2.1
            (runBlock_halts hcall limit body h.2.2) (runBlock_still limit body)
  | .whileLoop condition body span, h => halts_statement _ <|
      whileLoop_halts limit (evaluate_halts hcall condition False ⟨h.1, False.elim⟩)
        (runBlock_halts hcall limit body h.2) (runBlock_still limit body) limit
  | .forLoop name items body span, h => halts_statement _ <|
      (evaluate_halts hcall items False ⟨h.1, False.elim⟩).last
        (fun v _ => ((simple_idle.operation v.iterate).instant.halts _).first fun values _ =>
          forLoop_halts name (runBlock_halts hcall limit body h.2) values)
        fun v _ => (simple_idle.operation v.iterate).still.bind (fun values =>
          forLoop_still name _ values) fun _ => trivial
  | .returnWith value span, h => by
      cases value with
      | none => exact halts_statement _ ((idle_pure _).instant.halts _)
      | some x =>
          exact halts_statement _ <|
            halts_idle (evaluate_halts hcall x False ⟨h, False.elim⟩) fun _ => idle_pure _
  | .breakLoop span, _ => halts_statement _ ((idle_pure _).instant.halts _)
  | .continueLoop span, _ => halts_statement _ ((idle_pure _).instant.halts _)
  | .pass span, _ => halts_statement _ ((idle_pure _).instant.halts _)
  | .skipped text span, _ => halts_statement _ ((idle_pure _).instant.halts _)

theorem runBranches_halts (hcall : ∀ name args breaksOff, (breaksOff → outlasts name = false) →
      (call name args).Halts base (Ending breaksOff) fun _ => True) (limit : Nat) :
    ∀ (branches : List (Expr × List Stmt)) (otherwise : Step Flow),
      Sheltered (branches.flatMap fun branch => branch.1.calls) → Stmt.AllGuardedIn branches →
      (otherwise.Halts base (Ending False) fun _ => True) →
      (otherwise.Still base fun _ => True) →
        (runBranches call limit branches otherwise).Halts base (Ending False) fun _ => True
  | [], _, _, _, hotherwise, _ => hotherwise
  | (condition, body) :: rest, otherwise, hcalls, hbodies, hotherwise, hstill => by
      have hbody := runBlock_halts hcall limit body hbodies.1
      have hfits : Fits False (condition.calls ++ rest.flatMap fun branch => branch.1.calls) :=
        ⟨by rw [List.flatMap_cons] at hcalls; exact hcalls, False.elim⟩
      -- The next condition is evaluated without a look in between.
      refine halts_parts hfits (evaluate_halts hcall condition) (fun hrest v => ?_) fun hnil v => ?_
      · split
        · exact hbody
        · exact runBranches_halts hcall limit rest otherwise hrest.1 hbodies.2 hotherwise hstill
      · split
        · exact runBlock_still limit body
        · exact runBranches_still limit rest hnil hstill

/-- A block of guarded statements comes to an end after a stop. -/
theorem runBlock_halts (hcall : ∀ name args breaksOff, (breaksOff → outlasts name = false) →
      (call name args).Halts base (Ending breaksOff) fun _ => True) (limit : Nat) :
    ∀ body : List Stmt, Stmt.AllGuarded body →
      (runBlock call limit body).Halts base (Ending False) fun _ => True
  | [], _ => (idle_pure _).instant.halts _
  | s :: rest, h => by
      have hrest := runBlock_halts hcall limit rest h.2
      refine (runStmt_halts hcall limit s h.1).last (fun flow _ => ?_) fun flow _ => ?_
      · cases flow with
        | normal => exact hrest
        | _ => exact (idle_pure _).instant.halts _
      · cases flow with
        | normal => exact runBlock_still limit rest
        | _ => exact (idle_pure _).still

end

end

/-! ## Calls -/

-- A process that comes to an end, and what is made of its result at once.
theorem halts_return {α β : Type} {p : Process (Except Failure α × Interpreter)} {Q : α → Prop}
    {last : Except Failure α × Interpreter → Engine → Process (Except Failure β × Interpreter)}
    (hp : p.Halts base (Ending False) Q)
    (hlast : ∀ r e, base.Akin r.2 → ∃ r', last r e = .done r' e ∧ base.Akin r'.2) :
    (p.bind last).Halts base (Ending False) fun _ => True := by
  induction p with
  | done r e =>
      rcases hlast r e hp.1 with ⟨r', hdone, hr'⟩
      rw [Process.bind, hdone]
      exact ⟨hr', fun _ _ => trivial⟩
  | wait time e resume ih =>
      refine ⟨fun e' hstopped hlater => ?_, fun e' => ih e' (hp.2 e')⟩
      rcases hp.1 e' hstopped hlater with ⟨r, hresume, _⟩
      have hr := hp.2 e'
      rw [hresume] at hr
      rcases hlast r e' hr.1 with ⟨r', hdone, _⟩
      refine ⟨r', ?_, False.elim⟩
      simp only [hresume, Process.bind]
      exact hdone

theorem halts_enter {body : Step Flow} (hbody : body.Halts base (Ending False) fun _ => True)
    (name : String) (s : Subroutine) (args : List Value) :
    (enter name s args body).Halts base (Ending False) fun _ => True := by
  intro i e hi
  unfold enter
  rw [Process.andThen_eq_bind]
  refine halts_return (hbody _ e (hi.trans ⟨rfl, rfl⟩)) ?_
  rintro ⟨f | flow, j⟩ e hj
  · exact ⟨_, rfl, hj.trans ⟨rfl, rfl⟩⟩
  · exact ⟨_, rfl, hj.trans ⟨rfl, rfl⟩⟩

-- A call of any name, if the subroutines come to an end after a stop.
theorem halts_callWith {subroutine : String → Subroutine → List Value → Step Success}
    (hsub : ∀ name s args, base.subroutines.get? name = some s →
      (subroutine name s args).Halts base (Ending False) fun _ => True)
    (name : String) (args : List Value) (breaksOff : Prop)
    (hname : breaksOff → outlasts name = false) :
    (callWith subroutine name args).Halts base (Ending breaksOff) fun _ => True := by
  have hdispatch : (dispatch subroutine name args).Halts base (Ending breaksOff)
      fun _ => True := by
    intro i e hi
    unfold dispatch
    unfold outlasts at hname
    split
    · next c hc =>
      rw [hc] at hname
      exact ((instant_announceCall _ _ _).halts _).first
        (fun _ _ => callCapability_halts hname args) i e hi
    · next hnone =>
      rw [hnone] at hname
      -- A name that is no capability may outlast a stop, so it is not bound to break off.
      have hfree : ∀ {s : Step Success}, (s.Halts base (Ending False) fun _ => True) →
          s.Halts base (Ending breaksOff) fun _ => True :=
        fun hs => hs.mono fun _ _ hb => absurd (hname hb) (by decide)
      split
      · next t _ =>
        refine ((instant_announceCall _ _ _).halts _).first (fun _ _ => hfree ?_) i e hi
        intro i e hi
        rw [callTile_eq]
        exact ((idle_quiet (fun i => (_, i)) fun i => i.kin_self).instant.halts _).first
          (fun s _ => halts_settle s) i _ hi
      · split
        · next s hs =>
          rw [hi.subroutines] at hs
          exact ((instant_announceCall _ _ _).halts _).first
            (fun _ _ => hfree (hsub name s args hs)) i e hi
        · exact (idle_fail _).instant.halts _ i e hi
  rw [callWith_eq]
  exact (idle_resync.instant.halts _).first fun _ _ =>
    (idle_checkIdle.instant.halts _).first fun _ _ => hdispatch

/-- Every call of a script of guarded subroutines comes to an end after a stop. -/
theorem callAt_halts (hguarded : base.Guarded) (depth : Nat) (name : String) (args : List Value)
    (breaksOff : Prop) (hname : breaksOff → outlasts name = false) :
    (callAt depth name args).Halts base (Ending breaksOff) fun _ => True := by
  -- By induction on the calls that may still begin inside each other.
  induction depth generalizing name args breaksOff with
  | zero =>
      refine halts_callWith (fun _ _ _ _ => ?_) name args breaksOff hname
      exact (idle_quiet (fun i => (.error (.callDepth i.settings.maxCallDepth), i))
        fun i => i.kin_self).instant.halts _
  | succ depth ih =>
      refine halts_callWith (fun name s args hs i e hi => ?_) name args breaksOff hname
      exact halts_enter (runBlock_halts ih i.settings.maxLoopIterations s.body
        (hguarded name s hs)) name s args i e hi

end Step

end Farmhand
