import Farmhand.Proofs.Engine.Interaction
import Farmhand.Proofs.Interpreter.Keeping

/-!
# What a Call Leaves to its Caller

A subroutine call gets a frame of its own on top of the frames of its callers, and the frame goes
when the body comes to an end, in whatever way it does. Meanwhile the body assigns to variables of
the innermost frame. So what is below that frame stays as it is, and so do the global variables, as
long as the innermost frame has variables of its own. Only the frame of the entry script has none.

Two relations say this. A call leaves all frames as they were (`Sealed`), and the steps of a body
leave all frames but their own (`Confined`). A call that a body makes does more than what a body
does, so the second follows from the first; and the frame that the call has put on top is the only
one that its body can change, so the first follows from the second one call further inside.

The entry script may be called like any other subroutine, and then its body assigns to global
variables. Whether this happened can be read off what was told: every call of a subroutine is
announced, together with the number of calls under way, and the body begins right after this if that
number is less than the limit.

## Main definitions

* `Event.EntersMain`: The body of the entry script begins.
* `Process.Tells`: What a process tells, whatever happens in its waits, and its result.
* `Interpreter.Sealed`, `Interpreter.Confined`: What a call leaves, and what a body leaves.
* `Step.Passes`: A relation that holds when nothing changes, and over one step after another.
* `Step.Leaves`: A step follows such a relation.

## Theorems

* `Process.Tells.bind`: One process after another.
* `Step.composed_confined`: Whatever a body does besides calls is confined to its frame.
* `Step.enter_returns`: A body that is confined to its frame is sealed by its call.
* `Step.callAt_sealed`, `callFunction_sealed`: So is every call.
-/

namespace Farmhand

open Script

/-- The body of the entry script begins: it is called as a subroutine, and the calls under way leave
    room for one more. -/
def Event.EntersMain (limit : Nat) : Event → Prop
  | call _ depth name _ source => name = mainName ∧ source = .subroutine ∧ depth < limit
  | _ => False

/-! ## What is told -/

namespace Process

variable {α β : Type} {Q Q' : List Event → α → Prop} {p : Process α} {e e' : Engine}

/-- Whatever happens in the waits of a process, it only adds to what was told before, and its result
    is a wanted one by what it has told itself, the last in front. -/
def Tells {α : Type} : (List Event → α → Prop) → Process α → Engine → Prop
  | Q, done a e', e => ∃ told, told ++ e.log = e'.log ∧ Q told a
  | Q, wait _ e' resume, e => ∃ told, told ++ e.log = e'.log ∧
      ∀ e'', (resume e'').Tells (fun later a => Q (later ++ told) a) e''

theorem Tells.mono (h : p.Tells Q e) (hQ : ∀ told a, Q told a → Q' told a) : p.Tells Q' e := by
  induction p generalizing Q Q' e with
  | done a e₁ =>
      rcases h with ⟨told, hlog, hresult⟩
      exact ⟨told, hlog, hQ told a hresult⟩
  | wait time e₁ resume ih =>
      rcases h with ⟨told, hlog, hrest⟩
      exact ⟨told, hlog, fun e₂ => ih e₂ (hrest e₂) fun later a => hQ (later ++ told) a⟩

-- What was told up to an engine comes before what a process tells from there on.
theorem Tells.after (told : List Event) (hlog : told ++ e.log = e'.log)
    (h : p.Tells (fun later a => Q (later ++ told) a) e') : p.Tells Q e := by
  cases p with
  | done a e₁ =>
      rcases h with ⟨later, hlater, hresult⟩
      exact ⟨later ++ told, by rw [List.append_assoc, hlog, hlater], hresult⟩
  | wait time e₁ resume =>
      rcases h with ⟨later, hlater, hrest⟩
      refine ⟨later ++ told, by rw [List.append_assoc, hlog, hlater], fun e₂ => ?_⟩
      exact (hrest e₂).mono fun last a hresult => by rwa [← List.append_assoc]

theorem Tells.bind {R : List Event → β → Prop} {next : α → Engine → Process β}
    (h : p.Tells Q e) (hnext : ∀ told a e', Q told a →
      (next a e').Tells (fun later b => R (later ++ told) b) e') : (p.bind next).Tells R e := by
  induction p generalizing Q R e with
  | done a e₁ =>
      rcases h with ⟨told, hlog, hresult⟩
      exact (hnext told a e₁ hresult).after told hlog
  | wait time e₁ resume ih =>
      rcases h with ⟨told, hlog, hrest⟩
      refine ⟨told, hlog, fun e₂ => ih e₂ (hrest e₂) fun later a e' hresult => ?_⟩
      exact (hnext (later ++ told) a e' hresult).mono fun last b hb => by rwa [List.append_assoc]

-- A process that keeps to telling more has told something.
theorem Keeps.tells {W : α → Prop}
    (h : p.Keeps (fun _ => True) (fun e e' => e.log <:+ e'.log) W e) :
    p.Tells (fun _ a => W a) e := by
  induction p generalizing e with
  | done a e₁ =>
      rcases h with ⟨⟨told, hlog⟩, _, hresult⟩
      exact ⟨told, hlog, hresult⟩
  | wait time e₁ resume ih =>
      rcases h with ⟨⟨told, hlog⟩, _, hrest⟩
      exact ⟨told, hlog, fun e₂ => ih e₂ (hrest e₂ trivial)⟩

end Process

/-! ## Frames -/

namespace Interpreter

variable {i j k : Interpreter} {told later : List Event}

/-- Whether the innermost call has variables of its own. -/
def hasLocals (i : Interpreter) : Bool :=
  (i.frames.head?.bind Frame.locals).isSome

/-- The number of calls that may still begin inside each other. -/
def room (i : Interpreter) : Nat :=
  i.settings.maxCallDepth - i.frames.length

/-- By what was told, the entry script was not entered. -/
def Spares (i : Interpreter) (told : List Event) : Prop :=
  ∀ event ∈ told, ¬ event.EntersMain i.settings.maxCallDepth

/-- What a call leaves to its caller. -/
structure Sealed (i : Interpreter) (told : List Event) (j : Interpreter) : Prop where
  settings : j.settings = i.settings
  frames : j.frames = i.frames
  globals : i.Spares told → j.globals = i.globals

/-- What a body leaves besides the variables of its own frame. -/
structure Confined (i : Interpreter) (told : List Event) (j : Interpreter) : Prop where
  settings : j.settings = i.settings
  outer : j.frames.tail = i.frames.tail
  depth : j.frames.length = i.frames.length
  locals : j.hasLocals = i.hasLocals
  globals : i.hasLocals = true → i.Spares told → j.globals = i.globals

theorem spares_append (h : j.settings = i.settings) :
    i.Spares (later ++ told) ↔ i.Spares told ∧ j.Spares later := by
  unfold Spares
  rw [h]
  simp only [List.mem_append]
  constructor
  · intro hall
    exact ⟨fun event hevent => hall event (.inr hevent),
      fun event hevent => hall event (.inl hevent)⟩
  · rintro ⟨htold, hlater⟩ event hevent
    exact hevent.elim (hlater event) (htold event)

theorem Sealed.confined (h : i.Sealed told j) : i.Confined told j :=
  ⟨h.settings, congrArg List.tail h.frames, congrArg List.length h.frames,
    by rw [hasLocals, hasLocals, h.frames], fun _ => h.globals⟩

/-- An assignment is confined to the innermost frame. -/
theorem confined_assign (i : Interpreter) (told : List Event) (name : String) (value : Value) :
    i.Confined told (i.assign name value) := by
  unfold assign
  cases hframes : i.frames with
  | nil =>
      refine ⟨rfl, by simp [hframes], by simp [hframes], by simp [hasLocals, hframes], ?_⟩
      intro hlocals
      simp [hasLocals, hframes] at hlocals
  | cons frame rest =>
      cases hlocals : frame.locals with
      | some locals =>
          refine ⟨?_, ?_, ?_, ?_, ?_⟩ <;> simp [hasLocals, hframes, hlocals]
      | none =>
          refine ⟨?_, ?_, ?_, ?_, ?_⟩ <;> simp [hasLocals, hframes, hlocals]

theorem Assigned.confined (h : i.Assigned j) (told : List Event) : i.Confined told j := by
  cases h with
  | still => exact Sealed.confined ⟨rfl, rfl, fun _ => rfl⟩
  | assign name value => exact i.confined_assign told name value

end Interpreter

namespace Step

variable {α β : Type} {n : Nat} {W : Interpreter → List Event → Interpreter → Prop}

/-! ## Relations that follow from nothing having changed -/

/-- A relation between the interpreters before and after a step, by what was told in it, that holds
    when frames and variables have not changed, and over one step after another. -/
structure Passes (W : Interpreter → List Event → Interpreter → Prop) : Prop where
  still {i j : Interpreter} {told : List Event} : j.settings = i.settings → j.frames = i.frames →
    j.globals = i.globals → W i told j
  trans {i j k : Interpreter} {told later : List Event} : W i told j → W j later k →
    W i (later ++ told) k
  room {i j : Interpreter} {told : List Event} : W i told j → j.room = i.room

/-- A step follows a relation, from any interpreter with room for some number of calls. -/
def Leaves (W : Interpreter → List Event → Interpreter → Prop) (n : Nat) (s : Step α) : Prop :=
  ∀ i e, i.room = n → (s i e).Tells (fun told r => W i told r.2) e

theorem passes_sealed : Passes Interpreter.Sealed where
  still hsettings hframes hglobals := ⟨hsettings, hframes, fun _ => hglobals⟩
  trans h h' := ⟨h'.settings.trans h.settings, h'.frames.trans h.frames, fun hspares => by
    rcases (Interpreter.spares_append h.settings).mp hspares with ⟨htold, hlater⟩
    exact (h'.globals hlater).trans (h.globals htold)⟩
  room h := by rw [Interpreter.room, Interpreter.room, h.settings, h.frames]

theorem passes_confined : Passes Interpreter.Confined where
  still hsettings hframes hglobals :=
    Interpreter.Sealed.confined ⟨hsettings, hframes, fun _ => hglobals⟩
  trans h h' := by
    refine ⟨h'.settings.trans h.settings, h'.outer.trans h.outer, h'.depth.trans h.depth,
      h'.locals.trans h.locals, fun hlocals hspares => ?_⟩
    rcases (Interpreter.spares_append h.settings).mp hspares with ⟨htold, hlater⟩
    exact (h'.globals (h.locals.trans hlocals) hlater).trans (h.globals hlocals htold)
  room h := by rw [Interpreter.room, Interpreter.room, h.settings, h.depth]

theorem Leaves.mono {W' : Interpreter → List Event → Interpreter → Prop} {s : Step α}
    (h : s.Leaves W n) (hW : ∀ {i told j}, W i told j → W' i told j) : s.Leaves W' n :=
  fun i e hroom => (h i e hroom).mono fun _ _ => hW

-- Neither capabilities nor functions of tiles have to do with frames and variables.
theorem bears_same (S : Settings) (F : List Frame) (G : Table Value) :
    Bears (fun _ => True) (fun e e' => e.log <:+ e'.log)
      fun i => i.settings = S ∧ i.frames = F ∧ i.globals = G where
  refl e := List.suffix_refl e.log
  trans _ _ _ := List.IsSuffix.trans
  sees _ hi _ := hi
  tells _ _ _ _ _ := ⟨trivial, List.suffix_cons _ _⟩
  requests _ _ := ⟨trivial, List.suffix_refl _⟩
  writes _ _ _ := ⟨trivial, List.suffix_refl _⟩
  invokes {i e} tile name _ _ := by
    have hlog := (Engine.aside_invoke e true i.actor.id tile name).log
    exact ⟨trivial, hlog.symm ▸ List.suffix_refl e.log⟩

/-- A step that is kept to whatever bears capabilities and functions of tiles changes nothing. -/
theorem Passes.ofBears (h : Passes W) {s : Step α}
    (hs : ∀ {R : Engine → Engine → Prop} {I : Interpreter → Prop},
      Bears (fun _ => True) R I → s.Keeps (fun _ => True) R I) : s.Leaves W n :=
  fun i e _ => (hs (bears_same i.settings i.frames i.globals) i e trivial
    ⟨rfl, rfl, rfl⟩).tells.mono fun _ _ hr => h.still hr.1 hr.2.1 hr.2.2

theorem Passes.bind (h : Passes W) {s : Step α} {next : α → Step β} (hs : s.Leaves W n)
    (hnext : ∀ a, (next a).Leaves W n) : (Step.bind s next).Leaves W n := by
  intro i e hroom
  unfold Step.bind
  rw [Process.andThen_eq_bind]
  refine (hs i e hroom).bind fun told r e' hr => ?_
  rcases r with ⟨f | a, j⟩
  · exact ⟨[], rfl, hr⟩
  · exact (hnext a j e' ((h.room hr).trans hroom)).mono fun later _ hlater => h.trans hr hlater

/-! ## Bodies -/

/-- Whatever a body does besides calls is confined to its frame. -/
theorem composed_confined (n : Nat) : Composed fun _ s => s.Leaves Interpreter.Confined n where
  quiet f hassigned _ := by
    intro i e _
    have hconfined : i.Confined [] (f i).2 := (hassigned i).confined []
    exact ⟨[], rfl, hconfined⟩
  bind := passes_confined.bind
  checkRunning := passes_confined.ofBears fun h => h.checkRunning
  begins s := passes_confined.ofBears fun h => h.begins s

/-! ## Calls -/

/-- What a subroutine leaves that was called by a name: a call of the entry script, if there was
    room for it, is the only one that assigns to global variables. -/
structure Returns (name : String) (i : Interpreter) (told : List Event) (j : Interpreter) :
    Prop where
  settings : j.settings = i.settings
  frames : j.frames = i.frames
  globals : (name = mainName → i.room = 0) → i.Spares told → j.globals = i.globals

/-- A body that is confined to its frame is sealed by its call. -/
theorem enter_returns {body : Step Flow} (hbody : body.Leaves Interpreter.Confined n)
    (name : String) (s : Subroutine) (args : List Value) :
    (enter name s args body).Leaves (Returns name) (n + 1) := by
  intro i e hroom
  unfold enter
  rw [Process.andThen_eq_bind]
  let inside : Interpreter :=
    { i with frames := ⟨name, s.lines, initialLocals name args⟩ :: i.frames }
  have hinside : inside.room = n := by
    have hdepth : inside.frames.length = i.frames.length + 1 := List.length_cons
    have hlimit : inside.settings = i.settings := rfl
    rw [Interpreter.room] at hroom ⊢
    rw [hdepth, hlimit]
    omega
  refine (hbody inside e hinside).bind fun told r e' hr => ?_
  -- The frame of the call is the only one that has changed, and it goes.
  have hleft : Returns name i told (leave r.2) := by
    refine ⟨hr.settings, hr.outer, fun hname hspares => hr.globals ?_ hspares⟩
    have hother : name ≠ mainName := fun heq => by
      rw [hname heq] at hroom
      cases hroom
    change (initialLocals name args).isSome = true
    rw [initialLocals, if_neg hother]
    rfl
  rcases r with ⟨f | flow, j⟩
  · exact ⟨[], rfl, hleft⟩
  · exact ⟨[], rfl, hleft⟩

-- Beyond the limit nothing is called.
theorem tooDeep_returns (name : String) : tooDeep.Leaves (Returns name) 0 := by
  intro i e _
  have hunchanged : Returns name i [] i := ⟨rfl, rfl, fun _ _ => rfl⟩
  exact ⟨[], rfl, hunchanged⟩

/-- A subroutine that returns leaves its caller sealed, since its call was announced. -/
theorem announced_sealed {name : String} {s : Step Success} (hs : s.Leaves (Returns name) n)
    (args : List Value) :
    (Step.bind (announceCall name args .subroutine) fun _ => s).Leaves Interpreter.Sealed n := by
  intro i e hroom
  let event : Event :=
    .call i.actor.id i.frames.length name (args.map Value.render) .subroutine
  change Process.Tells _ (s i (e.emit event)) e
  refine Process.Tells.after [event] (rfl : _ = (e.emit event).log) ?_
  refine (hs i (e.emit event) hroom).mono fun later r hr => ?_
  refine ⟨hr.settings, hr.frames, fun hspares => ?_⟩
  rcases (Interpreter.spares_append rfl).mp hspares with ⟨hfirst, hlater⟩
  -- If this is the entry script and it was not entered, there was no room for it.
  refine hr.globals (fun hname => Nat.eq_zero_of_not_pos fun hpos => ?_) hlater
  have hdepth : i.frames.length < i.settings.maxCallDepth := Nat.lt_of_sub_pos hpos
  exact hfirst event (List.mem_singleton_self _) ⟨hname, rfl, hdepth⟩

/-- A call leaves its caller sealed if the subroutines that it may be of return. -/
theorem callWith_sealed {subroutine : String → Subroutine → List Value → Step Success}
    (hsub : ∀ name s args, (subroutine name s args).Leaves (Returns name) n) (name : String)
    (args : List Value) : (callWith subroutine name args).Leaves Interpreter.Sealed n := by
  have hannounced : ∀ source, (announceCall name args source).Leaves Interpreter.Sealed n :=
    fun source i e _ => ⟨[_], rfl, passes_sealed.still rfl rfl rfl⟩
  have hdispatch : (dispatch subroutine name args).Leaves Interpreter.Sealed n := by
    intro i e hroom
    unfold dispatch
    split
    · exact passes_sealed.bind (hannounced _)
        (fun _ => passes_sealed.ofBears fun h => h.callCapability _ args) i e hroom
    · split
      · exact passes_sealed.bind (hannounced _)
          (fun _ => passes_sealed.ofBears fun h => h.callTile _ name) i e hroom
      · split
        · exact announced_sealed (hsub name _ args) args i e hroom
        · exact ⟨[], rfl, passes_sealed.still rfl rfl rfl⟩
  rw [callWith_eq]
  exact passes_sealed.bind (passes_sealed.ofBears fun h => h.resync) fun _ =>
    passes_sealed.bind (passes_sealed.ofBears fun h => h.checkIdle) fun _ => hdispatch

/-- Every call leaves its caller sealed. -/
theorem callAt_sealed (n : Nat) (name : String) (args : List Value) :
    (callAt n name args).Leaves Interpreter.Sealed n := by
  -- By induction on the calls that may still begin inside each other.
  induction n generalizing name args with
  | zero => exact callWith_sealed (fun called _ _ => tooDeep_returns called) name args
  | succ n ih =>
      refine callWith_sealed (fun called s args i e hroom => ?_) name args
      have hbody : (runBlock (callAt n) i.settings.maxLoopIterations s.body).Leaves
          Interpreter.Confined n :=
        (composed_confined n).runBlock _ s.body fun name _ args =>
          (ih name args).mono Interpreter.Sealed.confined
      exact enter_returns hbody called s args i e hroom

end Step

/-- Whatever a call does and however it ends, whatever others do in its waits, it leaves the calls
    that are under way as they were, with all their variables. It leaves the global variables as
    they were as well, unless the body of the entry script began inside it. -/
theorem callFunction_sealed (name : String) (args : List Value) (i : Interpreter) (e : Engine) :
    (callFunction name args i e).Tells (fun told r => r.2.frames = i.frames ∧
      ((∀ event ∈ told, ¬ event.EntersMain i.settings.maxCallDepth) →
        r.2.globals = i.globals)) e := by
  have hcall : ∀ e, (callAt i.room name args i e).Tells (fun told r => r.2.frames = i.frames ∧
      ((∀ event ∈ told, ¬ event.EntersMain i.settings.maxCallDepth) →
        r.2.globals = i.globals)) e :=
    fun e => (Step.callAt_sealed i.room name args i e rfl).mono fun _ _ hr =>
      ⟨hr.frames, hr.globals⟩
  unfold callFunction
  simp only
  split
  · -- That the interpreter is set going is not told.
    refine Process.Tells.after [] (rfl : _ = (e.setRunning i.handle true).log) ?_
    exact (hcall _).mono fun told r hr => by rwa [List.append_nil]
  · exact hcall e

end Farmhand
