import Farmhand.Proofs.Interpreter.Likeness

/-!
# Scripts That Name No Function of a Tile

Whether a run calls functions of tiles is a matter of its course: the same name may be found on one
tile and among the subroutines on another. A script that names none of these functions calls none,
wherever its actor goes. Which names it calls can be read off the script.

## Main definitions

* `Interpreter.NamesNoTileFunction`: A script in which no function of a tile is named.
* `Engine.TellsSolitary`: All calls that were told are of other things.

## Theorems

* `Step.callAt_solitary`: Every call of such a script calls no function of a tile.
* `Step.step_solitary`: Neither does any job.
-/

namespace Farmhand

open Script

/-- No function of a tile has a name. -/
def NoTileFunction (name : String) : Prop :=
  TileFunction.ofName? name = none

theorem noTileFunction_main : NoTileFunction mainName := by
  unfold NoTileFunction
  decide

/-- A script in which no function of a tile is named. -/
def Interpreter.NamesNoTileFunction (i : Interpreter) : Prop :=
  ∀ name s, i.subroutines.get? name = some s →
    ∀ called ∈ (Stmt.callsOfBlock s.body).map Prod.snd, NoTileFunction called

/-- A job that names no function of a tile. -/
def Job.NamesNoTileFunction : Job → Prop
  | main _ => True
  | call _ name _ => NoTileFunction name

/-- All calls that were told are of subroutines, or of capabilities of movement, of time and of
    computing. -/
def Engine.TellsSolitary (e e' : Engine) : Prop :=
  ∃ events, e'.log = events ++ e.log ∧ ∀ event ∈ events, event.IsSolitary

-- A message that begins no call.
theorem Event.isSolitary_of_not_isCall {event : Event} (h : ¬ event.IsCall) : event.IsSolitary := by
  cases event with
  | call actor depth name args source => exact absurd trivial h
  | _ => trivial

-- The capabilities that call functions of tiles have the names of these.
theorem category_of_noTileFunction {name : String} (hname : NoTileFunction name) {c : Capability}
    (hc : Catalog.builtin.get? name = some c) : c.category ∈ [.movement, .system, .utility] := by
  have hall : ∀ entry ∈ Catalog.builtin.entries, TileFunction.ofName? entry.1 = none →
      entry.2.category ∈ [.movement, .system, .utility] := by
    decide +kernel
  exact hall (name, c) (Entries.mem_of_get? hc) hname

-- A tile offers only what is a function of tiles.
theorem Step.offering?_of_noTileFunction {name : String} (hname : NoTileFunction name)
    (i : Interpreter) (e : Engine) : offering? i e name = none := by
  refine Option.filter_eq_none_iff.mpr fun t _ hsome => ?_
  unfold Tile.function? at hsome
  rw [hname] at hsome
  simp at hsome

theorem Engine.tellsSolitary_of_log {e e' : Engine} (hlog : e'.log = e.log) :
    e.TellsSolitary e' :=
  ⟨[], hlog, fun _ hevent => absurd hevent List.not_mem_nil⟩

theorem Engine.tellsSolitary_emit (e : Engine) {event : Event} (hevent : event.IsSolitary) :
    e.TellsSolitary (e.emit event) := by
  refine ⟨[event], rfl, fun other hother => ?_⟩
  rw [List.mem_singleton.mp hother]
  exact hevent

-- What was told last is among what was told.
theorem Engine.isSolitary_of_emit {e : Engine} {event : Event}
    (h : e.TellsSolitary (e.emit event)) : event.IsSolitary := by
  rcases h with ⟨events, hlog, hall⟩
  have hlast : [event] = events := List.append_cancel_right hlog
  exact hall event (hlast ▸ List.mem_singleton_self event)

-- Of what was told in two parts, each is told as the whole is.
theorem Engine.TellsSolitary.parts {e₁ e₂ e₃ : Engine} (h : e₁.TellsSolitary e₃)
    (hfirst : ∃ told, e₂.log = told ++ e₁.log) (hthen : ∃ told, e₃.log = told ++ e₂.log) :
    e₁.TellsSolitary e₂ ∧ e₂.TellsSolitary e₃ := by
  rcases h with ⟨events, hlog, hall⟩
  rcases hfirst with ⟨first, hfirst⟩
  rcases hthen with ⟨last, hlast⟩
  have hevents : last ++ first = events := by
    rw [hlast, hfirst, ← List.append_assoc] at hlog
    exact List.append_cancel_right hlog
  rw [← hevents, List.forall_mem_append] at hall
  exact ⟨⟨first, hfirst, hall.2⟩, ⟨last, hlast, hall.1⟩⟩

theorem Engine.TellsSolitary.trans {e₁ e₂ e₃ : Engine} (h : e₁.TellsSolitary e₂)
    (h' : e₂.TellsSolitary e₃) : e₁.TellsSolitary e₃ := by
  rcases h with ⟨first, hfirst, hall⟩
  rcases h' with ⟨later, hlater, hall'⟩
  refine ⟨later ++ first, by rw [hlater, hfirst, List.append_assoc], fun event hevent => ?_⟩
  rcases List.mem_append.mp hevent with hl | hf
  · exact hall' event hl
  · exact hall event hf

namespace Step

/-- What a run does besides calls tells no calls. -/
theorem allows_solitary : Allows (fun _ => True) Engine.TellsSolitary
    Interpreter.NamesNoTileFunction where
  refl _ := Engine.tellsSolitary_of_log rfl
  trans _ _ _ h₁ h₂ := h₁.trans h₂
  kin hi hkin name s hs := hi name s (hkin.subroutines ▸ hs)
  sees _ hi _ := hi
  tells {_ e event} _ _ _ hcall _ := by
    refine ⟨trivial, e.tellsSolitary_emit ?_⟩
    cases event with
    | call _ _ _ _ _ => exact absurd trivial hcall
    | _ => trivial
  requests _ _ := ⟨trivial, Engine.tellsSolitary_of_log rfl⟩
  writes _ _ _ := ⟨trivial, Engine.tellsSolitary_of_log rfl⟩
  invokes tile name _ _ :=
    ⟨trivial, Engine.tellsSolitary_of_log (Engine.aside_invoke _ true _ tile name).log⟩
  rests _ _ := ⟨trivial, Engine.tellsSolitary_of_log rfl⟩

/-- What is known of the steps of such a script. -/
abbrev IsSolitary {α : Type} (s : Step α) : Prop :=
  s.Keeps (fun _ => True) Engine.TellsSolitary Interpreter.NamesNoTileFunction

theorem solitary_announceCall {name : String} {args : List Value} {source : CallSource}
    (hcall : ∀ actor depth texts, (Event.call actor depth name texts source).IsSolitary) :
    IsSolitary (Step.announceCall name args source) :=
  fun _ e _ hi => ⟨e.tellsSolitary_emit (hcall _ _ _), trivial, hi⟩

-- A call by a name that no function of a tile has.
theorem solitary_dispatch {subroutine : String → Subroutine → List Value → Step Success}
    (hsub : ∀ name s args, (∀ called ∈ (Stmt.callsOfBlock s.body).map Prod.snd,
      NoTileFunction called) → IsSolitary (subroutine name s args))
    {name : String} (hname : NoTileFunction name) (args : List Value) :
    IsSolitary (Step.dispatch subroutine name args) := by
  have h := allows_solitary
  intro i e he hi
  unfold Step.dispatch
  cases hfound : Catalog.builtin.get? name with
  | some c =>
      have hcall : ∀ actor depth texts,
          (Event.call actor depth name texts .capability).IsSolitary :=
        fun _ _ _ => ⟨c, hfound, category_of_noTileFunction hname hfound⟩
      exact h.bind (solitary_announceCall hcall) (fun _ => h.callCapability c args) i e he hi
  | none =>
      simp only [offering?_of_noTileFunction hname]
      cases hs : i.subroutines.get? name with
      | some s =>
          have hcall : ∀ actor depth texts,
              (Event.call actor depth name texts .subroutine).IsSolitary :=
            fun _ _ _ => trivial
          exact h.bind (solitary_announceCall hcall)
            (fun _ => hsub name s args (hi name s hs)) i e he hi
      | none => exact h.fail _ i e he hi

theorem solitary_callWith {subroutine : String → Subroutine → List Value → Step Success}
    (hsub : ∀ name s args, (∀ called ∈ (Stmt.callsOfBlock s.body).map Prod.snd,
      NoTileFunction called) → IsSolitary (subroutine name s args))
    {name : String} (hname : NoTileFunction name) (args : List Value) :
    IsSolitary (Step.callWith subroutine name args) := by
  have h := allows_solitary
  rw [Step.callWith_eq]
  exact h.bind h.resync fun _ => h.bind h.checkIdle fun _ => solitary_dispatch hsub hname args

/-- No call of a script that names no function of a tile calls one. -/
theorem callAt_solitary (depth : Nat) {name : String} (hname : NoTileFunction name)
    (args : List Value) : IsSolitary (Farmhand.callAt depth name args) := by
  have h := allows_solitary
  -- By induction on the calls that may still begin inside each other.
  induction depth generalizing name args with
  | zero => exact solitary_callWith (fun _ _ _ _ => h.quiet fun _ hi => hi) hname args
  | succ depth ih =>
      refine solitary_callWith (fun called s values hnames i e he hi => ?_) hname args
      exact h.enter (h.composed.runBlock i.settings.maxLoopIterations s.body fun inner hinner =>
        ih (hnames inner hinner)) called s values i e he hi

/-! ## Jobs -/

theorem callFunction_solitary {name : String} (hname : NoTileFunction name) (args : List Value) :
    IsSolitary (Farmhand.callFunction name args) := by
  intro i e he hi
  have hcall := callAt_solitary (i.settings.maxCallDepth - i.frames.length) hname args
  unfold Farmhand.callFunction
  simp only
  split
  · have hset : e.TellsSolitary (e.setRunning i.handle true) := Engine.tellsSolitary_of_log rfl
    exact (hcall i _ trivial hi).after allows_solitary.trans hset
  · exact hcall i e he hi

/-- A program is a call of its main subroutine, and no function of a tile has that name. -/
theorem runMain_solitary : IsSolitary Farmhand.runMain := by
  intro i e he hi
  unfold Farmhand.runMain
  simp only
  split
  · have hcall := callFunction_solitary noTileFunction_main []
    have hstarted : e.TellsSolitary
        ((e.setRunning i.handle true).emit (.started i.actor.id)) :=
      Engine.tellsSolitary_emit (e.setRunning i.handle true) trivial
    exact (allows_solitary.main_keeps (hcall i _ trivial hi) hi).after allows_solitary.trans
      hstarted
  · have htold := allows_solitary.ofFailure (e := e) he hi .noEntryScript
    exact ⟨htold.2, htold.1, hi⟩

/-- A job of such a script calls no function of a tile, if it does not name one. -/
theorem step_solitary {job : Job} (hjob : job.NamesNoTileFunction) : IsSolitary job.step := by
  cases job with
  | main actor => exact runMain_solitary
  | call actor name args => exact callFunction_solitary hjob args

end Step

end Farmhand
