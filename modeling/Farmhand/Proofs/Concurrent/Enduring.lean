import Farmhand.Proofs.Concurrent.Scene
import Farmhand.Proofs.World.Enduring

/-!
# Worlds Endure Their Runs

Whatever scripts do in the world of a file, however many interpreters run them, whoever they drive
and whenever they are stopped: at every instant the actors are inside the world with no more energy
than they can have, everything is there that the file put there and nothing else, what the file
settled is as it was, and no counter has gone down. Each of the few things that a step does to the
world is one that worlds endure, and so are timers and stops.

## Theorems

* `Scene.Turn.endures`, `Scene.Run.endures`: They endure a turn, and any number of them.
* `Joint.Run.endures`: So they do when processes run side by side.
* `Scene.endures_from_file`: What holds at every instant in the world of a file.
-/

namespace Farmhand

namespace Scene

variable {admits : Scene → Interpreter → Prop} {s s' s'' : Scene}

/-- Worlds endure a turn. -/
theorem Turn.endures (h : Turn admits s s') : s.engine.world.Endures s'.engine.world :=
  h.follows World.followed_endures World.endures_updateActor

/-- Worlds endure any number of turns. -/
theorem Run.endures (h : Run admits s s') : s.engine.world.Endures s'.engine.world := by
  induction h with
  | rest => exact World.endures_self _
  | turn _ hturn ih => exact ih.trans hturn.endures

end Scene

/-- Worlds endure processes side by side. -/
theorem Joint.Run.endures {e : Engine} {parties : List (Job × Interpreter)}
    {c : Joint (Outcome × Interpreter)} {moments : List Moment}
    (h : Run (ofParties e parties) moments c) : e.world.Endures c.engine.world := by
  have hplayed : ∃ s, Scene.Run Scene.free (Scene.ofParties e parties) s ∧ s.Plays c :=
    Scene.run_ofJoint h
  rcases hplayed with ⟨s, hrun, hplays⟩
  rw [← hplays.engine]
  exact hrun.endures

namespace Scene

/-- At every instant of every run in the world of a file, whatever scripts, interpreters and actors
    take part, whatever joins them and whatever is stopped: actors are inside and have no more
    energy than they can have; the bounds are those of the file, and so are the actors and tiles, by
    their ids, with all that is settled about them; and no counter is below what it was at any
    earlier instant. The counters of the file itself are as large as counters can be, at most. -/
theorem endures_from_file {file : WorldFile} {s s' s'' : Scene}
    (hfile : file.build = .ok s.engine.world)
    (hcounters : ∀ entry ∈ file.resources.entries, entry.2 ≤ Integer.maxCounter)
    (hrun : Run free s s') (hlater : Run free s' s'') :
    s'.engine.world.Sound ∧ s.engine.world.Lasts s'.engine.world ∧
      ∀ name, s'.engine.world.resource name ≤ s''.engine.world.resource name := by
  have hreached := hrun.endures (WorldFile.sound_of_build hfile hcounters)
  exact ⟨hreached.2, hreached.1, (hlater.endures hreached.2).1.counters⟩

/-- A file with a mine, some iron in store, and an actor beside the mine that is given more energy
    than it can have. -/
def quarry : WorldFile where
  bounds := ⟨3, 2⟩
  actors := [⟨"bot", .primary, ⟨1, 1⟩, some 500, none, none, .empty⟩]
  tiles := [⟨"mine", .mine, ⟨2, 1⟩, none, .empty⟩]
  resources := .ofList [("iron", 7)]

/-- Two interpreters that drive the same actor. -/
def crew (w : World) : Scene :=
  ofParties (Engine.new w 300)
    [(.call "bot" "move_right" [], Interpreter.new 0 ⟨1000, 1000, 10⟩ (Actor.new "bot" ⟨1, 1⟩)),
      (.call "bot" "mine_initiate" [], Interpreter.new 1 ⟨1000, 1000, 10⟩ (Actor.new "bot" ⟨1, 1⟩))]

/-- One takes a step to the side and is stopped after it, and then the other works in the mine. -/
theorem endures_from_file_quarry : ∃ s s' s'' : Scene,
    quarry.build = .ok s.engine.world ∧ Run free s s' ∧ Run free s' s'' ∧
      s'.engine.world.Sound ∧ s.engine.world.Lasts s'.engine.world ∧
        ∀ name, s'.engine.world.resource name ≤ s''.engine.world.resource name := by
  have hbuilt : ∃ w, quarry.build = .ok w := ⟨_, rfl⟩
  rcases hbuilt with ⟨w, hfile⟩
  have hcounters : ∀ entry ∈ quarry.resources.entries, entry.2 ≤ Integer.maxCounter := by decide
  have hbegins : Run free (crew w) ((crew w).played 0 20) := run_played 0 20 _
  have hgoesOn : ∃ s'', Run free ((crew w).played 0 20) s'' :=
    ⟨_, (Run.single (.rings (.stop 0))).trans (run_played 1 20 _)⟩
  rcases hgoesOn with ⟨s'', hgoesOn⟩
  exact ⟨_, _, s'', hfile, hbegins, hgoesOn,
    endures_from_file hfile hcounters hbegins hgoesOn⟩

end Scene

end Farmhand
