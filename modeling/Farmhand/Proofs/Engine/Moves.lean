import Farmhand.Proofs.Engine.History
import Farmhand.Proofs.Engine.Slots

/-!
# Runs of the Scheduler

The engine driven from outside: tasks are started, the clock is advanced, and everything is
cancelled, in any order. Each move changes the engine by one of its own functions and leaves marks
in the history. The marks are read off the states that the engine goes through, so the history adds
nothing to what happens: a start leaves a mark when it is accepted, whoever made it, and a timer
that runs out leaves a mark when it ends its task, which is when the actions of the task are done.

## Main definitions

* `Engine.startMarks`, `Engine.marks`, `Engine.marksAll`: The marks of starts, and of actions.
* `Engine.fireMarks`, `Engine.dueMarks`: The marks of timers that run out.
* `Move`: What can be done to a scheduler from outside.
* `Engine.move`, `Engine.moves`: The state after one move, and after several.
* `Engine.moveMarks`, `Engine.history`: The marks that they leave.
* `Engine.Stable`: What no action can break.

## Theorems

* `Stable.performAll`: What a note, a status and an accepted start keep, all actions keep.
* `began_of_mem_marksAll`: Actions leave no marks but those of starts.
* `now_fire`, `now_fireDue_le`: Only the clock moves the clock.
-/

namespace Farmhand

/-- What can be done to a scheduler from outside. -/
inductive Move where
  /-- A task is started on an actor or tile, with or without something to time it. -/
  | start (timed : Bool) (key : TaskKey) (label : String) (duration : Nat) (description : String)
      (owner : Option String) (atEnd : List Action)
  /-- The clock is advanced by some milliseconds. -/
  | advance (milliseconds : Nat)
  /-- All tasks are cancelled. -/
  | cancel

namespace Engine

/-! ## Marks -/

/-- The mark of a start, if it is accepted. -/
def startMarks (e : Engine) (timed : Bool) (key : TaskKey) (label : String) (duration : Nat)
    (description : String) (owner : Option String) (atEnd : List Action) : List Mark :=
  if (e.start timed key label duration description owner atEnd).2 then
    [.began e.nextGeneration key ⟨label, description, owner, e.now, duration⟩ atEnd]
  else []

mutual

/-- The marks that an action leaves. -/
def marks (e : Engine) : Action → List Mark
  | .note _ => []
  | .setStatus _ _ _ => []
  | .start key label duration description owner atEnd accepted refused =>
    (match e.start true key label duration description owner atEnd with
      | (e, true) => marksAll e accepted
      | (e, false) => marksAll e refused) ++
      e.startMarks true key label duration description owner atEnd

/-- The marks that several actions leave. -/
def marksAll (e : Engine) : List Action → List Mark
  | [] => []
  | action :: rest => marksAll (e.perform action) rest ++ marks e action

end

/-- The marks that a timer leaves when it runs out: none, or those of its task's end and of the
    actions that are done then. -/
def fireMarks (e : Engine) (t : Timer) : List Mark :=
  match e.ending? t with
  | some s => (e.closing t s).marksAll s.atEnd ++ [.ended t.generation e.now s.atEnd]
  | none => []

/-- The marks that timers leave which run out up to a time, at most `count` of them. -/
def dueMarks (time count : Nat) (e : Engine) : List Mark :=
  (expiries time count e).reverse.flatMap fun x => x.1.fireMarks x.2

/-! ## Moves -/

/-- The state after a move. -/
def move (e : Engine) : Move → Engine
  | .start timed key label duration description owner atEnd =>
    (e.start timed key label duration description owner atEnd).1
  | .advance milliseconds => e.advanceTo (e.now + milliseconds)
  | .cancel => e.cancelAll

/-- The marks that a move leaves. -/
def moveMarks (e : Engine) : Move → List Mark
  | .start timed key label duration description owner atEnd =>
    e.startMarks timed key label duration description owner atEnd
  | .advance milliseconds =>
    .reached (e.now + milliseconds) :: dueMarks (e.now + milliseconds) e.pending e
  | .cancel => [.cancelled]

/-- The state after several moves. -/
def moves (e : Engine) : List Move → Engine
  | [] => e
  | m :: rest => (e.move m).moves rest

/-- The marks that several moves leave. -/
def history (e : Engine) : List Move → List Mark
  | [] => []
  | m :: rest => (e.move m).history rest ++ e.moveMarks m

/-! ## Actions -/

/-- A property of a state and its history that a note, a status and an accepted start keep. -/
structure Stable (P : Engine → List Mark → Prop) : Prop where
  note : ∀ e past text, P e past → P { e with notes := (e.now, text) :: e.notes } past
  status : ∀ e past tile status quantity, P e past → P (e.setStatus tile status quantity) past
  start : ∀ e past key (task : Task) atEnd, P e past → e.isFree key = true → task.start = e.now →
    P (e.started key task atEnd) (.began e.nextGeneration key task atEnd :: past)

mutual

/-- An action is one of the moves that a stable property survives. -/
theorem Stable.perform {P : Engine → List Mark → Prop} (h : Stable P) (e : Engine)
    (past : List Mark) (he : P e past) (action : Action) :
    P (e.perform action) (e.marks action ++ past) :=
  match action with
  | .note text => h.note e past text he
  | .setStatus tile status quantity => h.status e past tile status quantity he
  | .start key label duration description owner atEnd accepted refused => by
    by_cases hfree : e.isFree key = true
    · have hnext :=
        h.start e past key ⟨label, description, owner, e.now, duration⟩ atEnd he hfree rfl
      simpa [Engine.perform, marks, startMarks, start_eq, hfree] using
        h.performAll _ _ hnext accepted
    · simpa [Engine.perform, marks, startMarks, start_eq, hfree] using
        h.performAll e past he refused

/-- What a note, a status and an accepted start keep, all actions keep. -/
theorem Stable.performAll {P : Engine → List Mark → Prop} (h : Stable P) (e : Engine)
    (past : List Mark) (he : P e past) (actions : List Action) :
    P (e.performAll actions) (e.marksAll actions ++ past) :=
  match actions with
  | [] => he
  | action :: rest => by
    have hrest := h.performAll _ _ (h.perform e past he action) rest
    simpa only [Engine.performAll, marksAll, List.append_assoc] using hrest

end

/-- Actions leave no marks but those of starts. -/
theorem began_of_mem_marksAll (e : Engine) (actions : List Action) :
    ∀ m ∈ e.marksAll actions, ∃ number key task atEnd, m = .began number key task atEnd := by
  have hstable : Stable fun _ past =>
      ∀ m ∈ past, ∃ number key task atEnd, m = Mark.began number key task atEnd := by
    refine ⟨fun _ _ _ h => h, fun _ _ _ _ _ h => h, ?_⟩
    intro e past key task atEnd h _ _ m hm
    rcases List.mem_cons.mp hm with heq | hpast
    · exact ⟨_, _, _, _, heq⟩
    · exact h m hpast
  have hall := hstable.performAll e [] (fun m hm => absurd hm List.not_mem_nil) actions
  simpa only [List.append_nil] using hall

@[simp] theorem now_performAll (e : Engine) (actions : List Action) :
    (e.performAll actions).now = e.now := by
  have hstable : Stable fun e' _ => e'.now = e.now := by
    refine ⟨fun _ _ _ h => h, ?_, ?_⟩
    · intro e' past tile status quantity h
      simpa only [setStatus_eq] using h
    · intro e' past key task atEnd h _ _
      simpa only [started_now] using h
  exact hstable.performAll e [] rfl actions

@[simp] theorem now_finish (e : Engine) (key : TaskKey) (generation : Nat) :
    (e.finish key generation).now = e.now := by
  unfold finish
  split
  · split
    · simp only [showTask_eq, dropSlot]
    · rfl
  · rfl

@[simp] theorem now_fire (e : Engine) (t : Timer) : (e.fire t).now = e.now := by
  rw [fire_eq]
  split
  · simp only [now_finish, now_performAll, closing, putSlot]
  · rfl

-- The firings up to a time do not move the clock beyond it.
theorem now_of_mem_expiries {time : Nat} (count : Nat) (e : Engine) (he : e.now ≤ time) :
    ∀ x ∈ expiries time count e, x.1.now ≤ time := by
  induction count generalizing e with
  | zero =>
      intro x hx
      exact absurd hx List.not_mem_nil
  | succ count ih =>
      intro x hx
      simp only [expiries] at hx
      cases ht : earliest? e.timers with
      | none => simp only [ht, List.not_mem_nil] at hx
      | some t =>
          simp only [ht] at hx
          by_cases hdue : t.due ≤ time
          · have hnow : (e.atDue t).now ≤ time := Nat.max_le.mpr ⟨he, hdue⟩
            simp only [hdue, if_true] at hx
            rcases List.mem_cons.mp hx with heq | hrest
            · rw [heq]
              exact hnow
            · exact ih _ (by rw [now_fire]; exact hnow) x hrest
          · simp only [hdue, if_false, List.not_mem_nil] at hx

-- Timers that run out leave the marks of starts and of ends, the latter up to the time.
theorem mem_dueMarks {time count : Nat} {e : Engine} (he : e.now ≤ time) {m : Mark}
    (hm : m ∈ dueMarks time count e) :
    (∃ number key task atEnd, m = .began number key task atEnd) ∨
      (∃ number t actions, m = .ended number t actions ∧ t ≤ time) := by
  unfold dueMarks at hm
  rcases List.mem_flatMap.mp hm with ⟨x, hx, hm⟩
  rw [List.mem_reverse] at hx
  unfold fireMarks at hm
  split at hm
  · next s hs =>
    rcases List.mem_append.mp hm with hactions | hend
    · exact Or.inl (began_of_mem_marksAll _ _ m hactions)
    · rw [List.mem_singleton] at hend
      exact Or.inr ⟨_, _, _, hend, now_of_mem_expiries count e he x hx⟩
  · exact absurd hm List.not_mem_nil

/-- The end of an advance leaves the clock at the time that was asked for. -/
theorem now_fireDue_le {time : Nat} (count : Nat) (e : Engine) (he : e.now ≤ time) :
    (fireDue time count e).now ≤ time := by
  induction count generalizing e with
  | zero => exact he
  | succ count ih =>
      rw [fireDue_succ]
      cases ht : earliest? e.timers with
      | none => exact he
      | some t =>
          by_cases hdue : t.due ≤ time
          · simp only [hdue, if_true]
            refine ih _ ?_
            rw [now_fire]
            exact Nat.max_le.mpr ⟨he, hdue⟩
          · simp only [hdue, if_false]
            exact he

end Engine

end Farmhand
