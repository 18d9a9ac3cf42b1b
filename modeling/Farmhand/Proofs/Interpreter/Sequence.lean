import Farmhand.Proofs.Interpreter.Sealing

/-!
# The Order of Calls

The calls that stand in an expression have an order that can be read off the expression: left before
right, arguments before their call. This module proves that an evaluation announces them in that
order. It may leave some out. The second operand of `and` and `or` is evaluated only if the first
one does not decide, and nothing is called anymore after a failure. So the names that are announced
are in general some of those that stand there, in their order; and if nothing fails and no `and` or
`or` stands there, they are all of them.

What an expression calls calls other things in turn. Every announcement says how many calls are
under way, and that tells the two apart: what stands in the expression is announced with the calls
under way that there were when its evaluation began, and everything that their bodies call with at
least one more. An evaluation that is cut off in a wait has announced the front of what it would
have announced, so the order is also kept up to every wait.

## Main definitions

* `Event.calledAt?`, `ownCalls`: The calls that are announced with a number of calls under way.
* `Expr.isStraight`: No part of an expression may be left out.
* `Process.Recounts`: What a process has told up to every wait and up to its end.
* `Step.Recites`: What a step announces with the calls under way that it began with.

## Theorems

* `Step.Recites.bind`: One step after another.
* `Step.callAt_recites`: A call announces its own name and else only calls further inside.
* `Step.evaluate_recites`: An expression announces its calls in their order.
* `evaluate_recounts`: It does so up to every wait, with all of them at the end of an evaluation
  that leaves no part out.
-/

namespace Farmhand

open Script

/-! ## Announcements -/

/-- The name of a call that is announced with a number of calls under way. -/
def Event.calledAt? (depth : Nat) : Event → Option String
  | call _ underway name _ _ => if underway = depth then some name else none
  | _ => none

/-- An event that, if it announces a call, does so with at least a number of calls under way. -/
def Event.IsInside (depth : Nat) : Event → Prop
  | call _ underway _ _ _ => depth ≤ underway
  | _ => True

/-- The names of the calls that were announced with a number of calls under way, in the order in
    which they were. The last thing told is in front of what was told. -/
def ownCalls (depth : Nat) (told : List Event) : List String :=
  told.reverse.filterMap (Event.calledAt? depth)

theorem Event.inside_mono {depth depth' : Nat} {event : Event} (h : event.IsInside depth')
    (hle : depth ≤ depth') : event.IsInside depth := by
  cases event with
  | call => exact Nat.le_trans hle h
  | _ => trivial

theorem Event.inside_of_not_call {depth : Nat} {event : Event} (h : ¬ event.IsCall) :
    event.IsInside depth := by
  cases event with
  | call => exact absurd trivial h
  | _ => trivial

theorem Event.calledAt_of_inside {depth : Nat} {event : Event} (h : event.IsInside (depth + 1)) :
    event.calledAt? depth = none := by
  cases event with
  | call _ underway => exact if_neg (Nat.ne_of_gt h)
  | _ => rfl

theorem ownCalls_append (depth : Nat) (later told : List Event) :
    ownCalls depth (later ++ told) = ownCalls depth told ++ ownCalls depth later := by
  rw [ownCalls, List.reverse_append, List.filterMap_append, ← ownCalls, ← ownCalls]

theorem ownCalls_of_inside {depth : Nat} {told : List Event}
    (h : ∀ event ∈ told, event.IsInside (depth + 1)) : ownCalls depth told = [] :=
  List.filterMap_eq_nil_iff.mpr fun event hevent =>
    Event.calledAt_of_inside (h event (List.mem_reverse.mp hevent))

namespace Script

mutual

/-- An evaluation that succeeds has evaluated every part of the expression: no `and` or `or` stands
    in it. -/
def Expr.isStraight : Expr → Bool
  | .lit _ _ => true
  | .var _ _ => true
  | .list items _ => Expr.isStraightAll items
  | .index container position _ => container.isStraight && position.isStraight
  | .unary _ operand _ => operand.isStraight
  | .binary op left right _ =>
    match op with
    | .and => false
    | .or => false
    | _ => left.isStraight && right.isStraight
  | .call _ args _ => Expr.isStraightAll args

/-- The same of a list of expressions. -/
def Expr.isStraightAll : List Expr → Bool
  | [] => true
  | e :: rest => e.isStraight && Expr.isStraightAll rest

end

end Script

/-! ## What was told up to a wait -/

namespace Process

variable {α : Type} {p : Process α} {e : Engine}

/-- What a process has told itself is as wanted at every wait, without a result, and at its end,
    with its result, whatever happens in the waits. The last thing told is in front. -/
def Recounts {α : Type} : (List Event → Option α → Prop) → Process α → Engine → Prop
  | Q, done a e', e => ∃ told, told ++ e.log = e'.log ∧ Q told (some a)
  | Q, wait _ e' resume, e => ∃ told, told ++ e.log = e'.log ∧ Q told none ∧
      ∀ e'', (resume e'').Recounts (fun later r => Q (later ++ told) r) e''

-- A process comes to an end if its waits do.
theorem Tells.ends {Q : List Event → α → Prop} (h : p.Tells Q e) : ∃ told a, Q told a := by
  induction p generalizing Q e with
  | done a e₁ =>
      rcases h with ⟨told, _, hresult⟩
      exact ⟨told, a, hresult⟩
  | wait time e₁ resume ih =>
      rcases h with ⟨told, _, hrest⟩
      rcases ih e₁ (hrest e₁) with ⟨later, a, hresult⟩
      exact ⟨later ++ told, a, hresult⟩

/-- What is wanted of all that a process tells, and of the front of it with that, is so at every
    wait. -/
theorem Tells.recounts {Q : List Event → α → Prop} {Q' : List Event → Option α → Prop}
    (h : p.Tells Q e) (hfront : ∀ later told a, Q (later ++ told) a → Q' told none)
    (hend : ∀ told a, Q told a → Q' told (some a)) : p.Recounts Q' e := by
  induction p generalizing Q Q' e with
  | done a e₁ =>
      rcases h with ⟨told, hlog, hresult⟩
      exact ⟨told, hlog, hend told a hresult⟩
  | wait time e₁ resume ih =>
      rcases h with ⟨told, hlog, hrest⟩
      rcases (hrest e₁).ends with ⟨later, a, hresult⟩
      refine ⟨told, hlog, hfront later told a hresult, fun e₂ => ih e₂ (hrest e₂) ?_ ?_⟩
      · intro last later a hresult
        exact hfront last (later ++ told) a (by rwa [← List.append_assoc])
      · exact fun later a hresult => hend (later ++ told) a hresult

-- A process that keeps to telling events of a kind tells such events.
theorem Keeps.tellsOnly {P : Event → Prop} {W : α → Prop}
    (h : p.Keeps (fun _ => True)
      (fun e e' => ∃ told, told ++ e.log = e'.log ∧ ∀ event ∈ told, P event) W e) :
    p.Tells (fun told a => (∀ event ∈ told, P event) ∧ W a) e := by
  induction p generalizing e with
  | done a e₁ =>
      rcases h with ⟨⟨told, hlog, htold⟩, _, hresult⟩
      exact ⟨told, hlog, htold, hresult⟩
  | wait time e₁ resume ih =>
      rcases h with ⟨⟨told, hlog, htold⟩, _, hrest⟩
      refine ⟨told, hlog, fun e₂ => (ih e₂ (hrest e₂ trivial)).mono fun later a hresult => ?_⟩
      exact ⟨List.forall_mem_append.mpr ⟨hresult.1, htold⟩, hresult.2⟩

end Process

/-! ## Steps -/

namespace Step

variable {α β : Type} {depth : Nat}

/-- A step that begins with a number of calls under way ends with as many, announces nothing further
    outside, and the names that it announces with that many are as wanted, by whether it
    succeeds. -/
def Announces (depth : Nat) (Q : List String → Bool → Prop) (s : Step α) : Prop :=
  ∀ i e, i.frames.length = depth → (s i e).Tells (fun told r =>
    r.2.frames.length = depth ∧ (∀ event ∈ told, event.IsInside depth) ∧
      Q (ownCalls depth told) r.1.isOk) e

/-- A step announces names out of a list in their order, and if it succeeds and leaves nothing out,
    all of them. -/
def Recites (depth : Nat) (names : List String) (whole : Bool) (s : Step α) : Prop :=
  s.Announces depth fun own ok => own.Sublist names ∧ (whole = true → ok = true → own = names)

section

variable {Q Q' R : List String → Bool → Prop} {s : Step α} {next : α → Step β}

theorem Announces.mono (h : s.Announces depth Q) (hQ : ∀ own ok, Q own ok → Q' own ok) :
    s.Announces depth Q' :=
  fun i e hdepth => (h i e hdepth).mono fun _ _ hr => ⟨hr.1, hr.2.1, hQ _ _ hr.2.2⟩

-- A first step that fails is all there is.
theorem Announces.bind (hs : s.Announces depth Q) (hnext : ∀ a, (next a).Announces depth Q')
    (hfail : ∀ own, Q own false → R own false)
    (hboth : ∀ own own' ok, Q own true → Q' own' ok → R (own ++ own') ok) :
    (Step.bind s next).Announces depth R := by
  intro i e hdepth
  unfold Step.bind
  rw [Process.andThen_eq_bind]
  refine (hs i e hdepth).bind fun told r e' hr => ?_
  rcases r with ⟨f | a, j⟩
  · exact ⟨[], rfl, hr.1, hr.2.1, hfail _ hr.2.2⟩
  · refine (hnext a j e' hr.1).mono fun later r hlater => ?_
    refine ⟨hlater.1, List.forall_mem_append.mpr ⟨hlater.2.1, hr.2.1⟩, ?_⟩
    rw [ownCalls_append]
    exact hboth _ _ _ hr.2.2 hlater.2.2

-- A step without an announcement.
theorem announces_still {f : Interpreter → Except Failure α × Interpreter}
    (hf : ∀ i, (f i).2.frames.length = i.frames.length) (hQ : ∀ ok, Q [] ok) :
    Announces depth Q fun i e => .done (f i) e :=
  fun i _ hdepth => ⟨[], rfl, (hf i).trans hdepth, fun _ h => absurd h List.not_mem_nil, hQ _⟩

-- Neither capabilities nor functions of tiles call anything.
theorem bears_depth (depth : Nat) :
    Bears (fun _ => True)
      (fun e e' => ∃ told, told ++ e.log = e'.log ∧ ∀ event ∈ told, ¬ event.IsCall)
      fun i => i.frames.length = depth where
  refl e := ⟨[], rfl, fun _ h => absurd h List.not_mem_nil⟩
  trans e₁ e₂ e₃ h h' := by
    rcases h with ⟨told, hlog, htold⟩
    rcases h' with ⟨later, hlater, htold'⟩
    exact ⟨later ++ told, by rw [List.append_assoc, hlog, hlater],
      List.forall_mem_append.mpr ⟨htold', htold⟩⟩
  sees _ hi _ := hi
  tells _ _ _ hcall _ := ⟨trivial, [_], rfl, fun _ h => List.mem_singleton.mp h ▸ hcall⟩
  requests _ _ := ⟨trivial, [], rfl, fun _ h => absurd h List.not_mem_nil⟩
  writes _ _ _ := ⟨trivial, [], rfl, fun _ h => absurd h List.not_mem_nil⟩
  invokes {i e} tile name _ _ := by
    have hlog := (Engine.aside_invoke e true i.actor.id tile name).log
    exact ⟨trivial, [], hlog.symm, fun _ h => absurd h List.not_mem_nil⟩

theorem announces_ofBears (hQ : ∀ ok, Q [] ok)
    (hs : ∀ {R : Engine → Engine → Prop} {I : Interpreter → Prop},
      Bears (fun _ => True) R I → s.Keeps (fun _ => True) R I) : s.Announces depth Q :=
  fun i e hdepth => (hs (bears_depth depth) i e trivial hdepth).tellsOnly.mono
    fun told r hr => by
      refine ⟨hr.2, fun event hevent => Event.inside_of_not_call (hr.1 event hevent), ?_⟩
      rw [ownCalls_of_inside fun event hevent => Event.inside_of_not_call (hr.1 event hevent)]
      exact hQ r.1.isOk

/-! ## Names in their order -/

variable {names names' : List String} {whole whole' : Bool}

theorem Recites.mono (h : s.Recites depth names whole) (hwhole : whole' = true → whole = true) :
    s.Recites depth names whole' :=
  Announces.mono h fun _ _ hown => ⟨hown.1, fun hw => hown.2 (hwhole hw)⟩

/-- One step after another announces names out of one list after the other. -/
theorem Recites.bind (hs : s.Recites depth names whole)
    (hnext : ∀ a, (next a).Recites depth names' whole') :
    (Step.bind s next).Recites depth (names ++ names') (whole && whole') := by
  refine Announces.bind hs hnext (fun own hown => ?_) fun own own' ok hown hown' => ?_
  · exact ⟨hown.1.trans (List.sublist_append_left names names'), fun _ h => nomatch h⟩
  · refine ⟨hown.1.append hown'.1, fun hwhole hok => ?_⟩
    rcases Bool.and_eq_true_iff.mp hwhole with ⟨hw, hw'⟩
    rw [hown.2 hw rfl, hown'.2 hw' hok]

-- Steps around the announcements.
theorem Recites.bind_still (hs : s.Recites depth names whole)
    (hnext : ∀ a, (next a).Recites depth [] true) :
    (Step.bind s next).Recites depth names whole := by
  have hboth := hs.bind hnext
  rwa [List.append_nil, Bool.and_true] at hboth

theorem Recites.still_bind (hs : s.Recites depth [] true)
    (hnext : ∀ a, (next a).Recites depth names whole) :
    (Step.bind s next).Recites depth names whole := by
  have hboth := hs.bind hnext
  rwa [List.nil_append, Bool.true_and] at hboth

-- A part that is left out.
theorem Recites.skip (hs : s.Recites depth [] true) : s.Recites depth names false :=
  Announces.mono hs fun own _ hown => by
    rw [List.sublist_nil.mp hown.1]
    exact ⟨List.nil_sublist names, fun h => nomatch h⟩

theorem recites_ofBears
    (hs : ∀ {R : Engine → Engine → Prop} {I : Interpreter → Prop},
      Bears (fun _ => True) R I → s.Keeps (fun _ => True) R I) : s.Recites depth [] true :=
  announces_ofBears (fun _ => ⟨.slnil, fun _ _ => rfl⟩) hs

end

/-- Steps of the interpreter alone announce nothing. -/
theorem recites_still {f : Interpreter → Except Failure α × Interpreter}
    (hassigned : ∀ i : Interpreter, i.Assigned (f i).2) :
    Recites depth [] true fun i e => .done (f i) e :=
  announces_still (fun i => ((hassigned i).confined []).depth) fun _ => ⟨.slnil, fun _ _ => rfl⟩

theorem simple_silent (depth : Nat) : Simple fun _ s => s.Recites depth [] true where
  quiet _ hassigned _ := recites_still hassigned
  bind hs hnext := hs.bind hnext

/-- A body announces nothing further outside than its own calls. -/
theorem composed_inside (depth : Nat) :
    Composed fun _ s => s.Announces depth fun _ _ => True where
  quiet _ hassigned _ :=
    announces_still (fun i => ((hassigned i).confined []).depth) fun _ => trivial
  bind hs hnext := Announces.bind hs hnext (fun _ _ => trivial) fun _ _ _ _ _ => trivial
  checkRunning := announces_ofBears (fun _ => trivial) fun h => h.checkRunning
  begins s := announces_ofBears (fun _ => trivial) fun h => h.begins s

/-! ## Calls -/

/-- The calls of a body are further inside than the call that the body is of. -/
theorem enter_silent {body : Step Flow} (hbody : body.Announces (depth + 1) fun _ _ => True)
    (name : String) (s : Subroutine) (args : List Value) :
    (enter name s args body).Recites depth [] true := by
  intro i e hdepth
  unfold enter
  rw [Process.andThen_eq_bind]
  let inside : Interpreter :=
    { i with frames := ⟨name, s.lines, initialLocals name args⟩ :: i.frames }
  have hinside : inside.frames.length = depth + 1 := congrArg Nat.succ hdepth
  refine (hbody inside e hinside).bind fun told r e' hr => ?_
  have hleft : (leave r.2).frames.length = depth := by
    change r.2.frames.tail.length = depth
    rw [List.length_tail, hr.1, Nat.add_sub_cancel]
  have htold : ∀ ok, (∀ event ∈ told, event.IsInside depth) ∧
      (ownCalls depth told).Sublist [] ∧ (true = true → ok = true → ownCalls depth told = []) := by
    rw [ownCalls_of_inside hr.2.1]
    exact fun _ => ⟨fun event hevent => Event.inside_mono (hr.2.1 event hevent) (Nat.le_succ depth),
      .slnil, fun _ _ => rfl⟩
  rcases r with ⟨f | flow, j⟩
  · exact ⟨[], rfl, hleft, htold _⟩
  · exact ⟨[], rfl, hleft, htold _⟩

-- A call is recited where it is told.
theorem announceCall_recites (name : String) (args : List Value) (source : CallSource) :
    (announceCall name args source).Recites depth [name] true := by
  intro i e hdepth
  have hown : ownCalls depth
      [.call i.actor.id i.frames.length name (args.map Value.render) source] = [name] := by
    simp only [ownCalls, List.reverse_singleton, List.filterMap_cons, Event.calledAt?, hdepth,
      if_true, List.filterMap_nil]
  refine ⟨[_], rfl, hdepth, fun event hevent => ?_, ?_⟩
  · rw [List.mem_singleton.mp hevent]
    exact Nat.le_of_eq hdepth.symm
  · rw [hown]
    exact ⟨List.Sublist.refl _, fun _ _ => rfl⟩

/-- A call announces its own name if what it does for a subroutine announces nothing beside. -/
theorem callWith_recites {subroutine : String → Subroutine → List Value → Step Success}
    (hsub : ∀ name s args, (subroutine name s args).Recites depth [] true) (name : String)
    (args : List Value) : (callWith subroutine name args).Recites depth [name] true := by
  have hannounced : ∀ source {s : Step Success}, s.Recites depth [] true →
      (Step.bind (announceCall name args source) fun _ => s).Recites depth [name] true :=
    fun source _ hs => (announceCall_recites name args source).bind_still fun _ => hs
  have hdispatch : (dispatch subroutine name args).Recites depth [name] true := by
    intro i e hdepth
    unfold dispatch
    split
    · exact hannounced _ (recites_ofBears fun h => h.callCapability _ args) i e hdepth
    · split
      · exact hannounced _ (recites_ofBears fun h => h.callTile _ name) i e hdepth
      · split
        · exact hannounced _ (hsub name _ args) i e hdepth
        · -- Nothing was found, and nothing is announced.
          exact ⟨[], rfl, hdepth, fun _ h => absurd h List.not_mem_nil,
            List.nil_sublist _, fun _ h => nomatch h⟩
  rw [callWith_eq]
  exact (recites_ofBears fun h => h.resync).still_bind fun _ =>
    (recites_ofBears fun h => h.checkIdle).still_bind fun _ => hdispatch

/-- Every call announces its own name, and else only calls further inside. -/
theorem callAt_recites (n depth : Nat) (name : String) (args : List Value) :
    (callAt n name args).Recites depth [name] true := by
  -- By induction on the calls that may still begin inside each other.
  induction n generalizing depth name args with
  | zero =>
      exact callWith_recites (fun _ _ _ => recites_still fun _ => .still) name args
  | succ n ih =>
      refine callWith_recites (fun called s args i e hdepth => ?_) name args
      have hbody : (runBlock (callAt n) i.settings.maxLoopIterations s.body).Announces
          (depth + 1) fun _ _ => True :=
        (composed_inside (depth + 1)).runBlock _ s.body fun name _ args =>
          Announces.mono (ih (depth + 1) name args) fun _ _ _ => trivial
      exact enter_silent hbody called s args i e hdepth

/-! ## Expressions -/

/-- What an operator announces with its operands. -/
theorem binary_recites {names : List String} {whole : Bool} (op : BinaryOp) (l : Value)
    {right : Step Value} (hright : right.Recites depth names whole) :
    Recites depth names (match op with | .and => false | .or => false | _ => whole)
      (match op with
        | .and => if l.truthy then right else Step.pure l
        | .or => if l.truthy then Step.pure l else right
        | op => Step.bind right fun r => Step.operation (Value.binary op l r)) := by
  have hsilent := simple_silent depth
  have hoperation : ∀ op', (Step.bind right fun r =>
      Step.operation (Value.binary op' l r)).Recites depth names whole :=
    fun op' => hright.bind_still fun r => hsilent.operation _
  cases op with
  | and =>
      simp only
      split
      · exact hright.mono fun h => nomatch h
      · exact (hsilent.pure l).skip
  | or =>
      simp only
      split
      · exact (hsilent.pure l).skip
      · exact hright.mono fun h => nomatch h
  | _ => exact hoperation _

mutual

/-- An expression announces its calls in their order. -/
theorem evaluate_recites (n depth : Nat) :
    ∀ x : Expr, (evaluate (callAt n) x).Recites depth x.calls x.isStraight
  | .lit value _ => (simple_silent depth).pure _
  | .var name _ => (simple_silent depth).readVariable name
  | .list items _ =>
      (evaluateAll_recites n depth items).bind_still fun _ => (simple_silent depth).pure _
  | .index container position _ =>
      (evaluate_recites n depth container).bind fun _ =>
        (evaluate_recites n depth position).bind_still fun _ => (simple_silent depth).operation _
  | .unary op operand _ => (evaluate_recites n depth operand).bind_still fun v => by
      cases op with
      | neg => exact (simple_silent depth).operation _
      | not => exact (simple_silent depth).pure _
  | .binary op left right _ => by
      have hboth := (evaluate_recites n depth left).bind fun l =>
        binary_recites op l (evaluate_recites n depth right)
      refine Recites.mono hboth fun hstraight => ?_
      cases op with
      | and => exact nomatch hstraight
      | or => exact nomatch hstraight
      | _ => exact hstraight
  | .call name args _ => by
      have hcall := (evaluateAll_recites n depth args).bind fun values =>
        (callAt_recites n depth name values).bind_still fun success =>
          (simple_silent depth).pure (success.data.getD .none)
      rwa [Bool.and_true] at hcall

theorem evaluateAll_recites (n depth : Nat) :
    ∀ xs : List Expr, (evaluateAll (callAt n) xs).Recites depth (Expr.callsAll xs)
      (Expr.isStraightAll xs)
  | [] => (simple_silent depth).pure []
  | x :: rest => (evaluate_recites n depth x).bind fun _ =>
      (evaluateAll_recites n depth rest).bind_still fun _ => (simple_silent depth).pure _

end

end Step

/-- Whatever the expression, the interpreter and the engine, and whatever others do in the waits,
    the calls that an evaluation announces with the calls under way that it began with are some of
    those that stand in the expression, in their order. This holds up to every wait and up to the
    end, and everything else that is called is further inside. If the evaluation succeeds, and no
    `and` or `or` stands in the expression, they are all of them. -/
theorem evaluate_recounts (n : Nat) (x : Expr) (i : Interpreter) (e : Engine) :
    (evaluate (callAt n) x i e).Recounts (fun told r =>
      (∀ event ∈ told, event.IsInside i.frames.length) ∧
      (ownCalls i.frames.length told).Sublist x.calls ∧
      (x.isStraight = true → ∀ v j, r = some (.ok v, j) →
        ownCalls i.frames.length told = x.calls)) e := by
  refine (Step.evaluate_recites n i.frames.length x i e rfl).recounts ?_ ?_
  · intro later told r hr
    have hfront := hr.2.2.1
    rw [ownCalls_append] at hfront
    exact ⟨fun event hevent => hr.2.1 event (List.mem_append_right later hevent),
      (List.sublist_append_left _ _).trans hfront, fun _ _ _ h => nomatch h⟩
  · intro told r hr
    refine ⟨hr.2.1, hr.2.2.1, fun hstraight v j h => hr.2.2.2 hstraight ?_⟩
    rw [Option.some.inj h]
    rfl

end Farmhand
