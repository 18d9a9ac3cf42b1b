import Farmhand.Proofs.Production.Duty

/-!
# A Timer Runs Out

What a timer does to the stock when it runs out. If it ends nothing, nothing happens. If it ends
the setting up of a tile, the tile works, and its cycle goes on. If it ends the work of a tile, the
tile is ready and holds one more than before, and its cycle is over. An engine in order stays so.

## Main definitions

* `Engine.ripens`: The timer ends the work of a tile.
* `Engine.Yields`: A step that adds to the stock what its cycles give.

## Theorems

* `fire_yields`: A timer adds one to the stock when it ends the work of a tile, and nothing
  otherwise.
-/

namespace Farmhand

namespace Engine

/-- Whether a timer ends the work of a tile when it runs out, as 1 or 0. -/
def ripens (e : Engine) (p : Produce) (t : Timer) : Nat :=
  match t.key, e.ending? t with
  | .tile _, some s => if s.task.label = p.course.workLabel then 1 else 0
  | _, _ => 0

/-- A step to an engine in order that adds to the stock, and ends a cycle for each addition. -/
structure Yields (e e' : Engine) (gain : Produce → Nat) : Prop where
  orderly : Orderly e' []
  stock : ∀ p : Produce, p.stock e'.world = p.stock e.world + gain p
  engaged : ∀ p : Produce, p.engaged e' + gain p ≤ p.engaged e

variable {e : Engine}

theorem stock_finish (p : Produce) {key : TaskKey} {number : Nat} {s : Slot}
    (hs : e.slot? key = some s) (hn : s.generation = number) :
    p.stock (e.finish key number).world = p.stock e.world := by
  rw [finish_eq hs hn]
  exact p.stock_withTask _ _ _

-- The end of an end takes the slot out of the count.
theorem engaged_finish (p : Produce) {key : TaskKey} {number : Nat} {s : Slot}
    (hs : e.slot? key = some s) (hn : s.generation = number) :
    p.engaged (e.finish key number) + p.engages key s ≤ p.engaged e := by
  rw [finish_eq hs hn]
  exact tally_dropSlot_of_slot? p.engages hs

theorem engaged_closing (p : Produce) {t : Timer} {s : Slot} (hs : e.slot? t.key = some s) :
    p.engaged (e.closing t s) ≤ p.engaged e := by
  have hle := tally_putSlot_of_slot? p.engages hs { s with completing := true, atEnd := [] }
  have hsame : p.engages t.key { s with completing := true, atEnd := [] } = p.engages t.key s := by
    cases t.key <;> rfl
  rw [hsame] at hle
  exact Nat.le_of_add_le_add_right hle

section

variable {t : Timer} {s : Slot}

-- The end of a task at whose end nothing happens.
theorem busy_yields (h : Orderly e []) (hs : e.slot? t.key = some s)
    (hn : s.generation = t.generation) :
    Yields e ((e.closing t s).finish t.key t.generation) fun _ => 0 := by
  have hslot : (e.closing t s).slot? t.key = some { s with completing := true, atEnd := [] } :=
    slot?_putSlot_self _ _ _
  refine ⟨(h.closing hs).finish hslot hn, fun p => ?_, fun p => ?_⟩
  · exact (stock_finish p hslot hn).trans (Int.add_zero _).symm
  · have hfinish := engaged_finish p hslot hn
    have hle := engaged_closing p hs
    omega

-- The end of a tile's work: the tile is ready.
theorem work_yields (h : Orderly e []) {id : String} (hkey : t.key = .tile id)
    (hs : e.slot? t.key = some s) (hn : s.generation = t.generation) {p : Produce}
    {worker : Option String} (hview : e.world.view id = some (p.kind, p.course.working, worker))
    (hlabel : s.task.label = p.course.workLabel) :
    Yields e
      (((e.closing t s).setStatus id readyStatus (some p.course.yield)).finish t.key t.generation)
      fun q => if s.task.label = q.course.workLabel then 1 else 0 := by
  rcases Option.map_eq_some_iff.mp hview with ⟨u, hget, hu⟩
  simp only [Prod.mk.injEq] at hu
  -- Before the end the tile holds nothing, after it one of its own produce.
  have hbefore : ∀ q : Produce, q.held u = 0 := fun q =>
    q.held_of_not_ready (hu.2.1 ▸ p.working_ne_ready)
  have hafter : ∀ q : Produce,
      q.held (u.written (statusEntries readyStatus (some p.course.yield))) =
        if q = p then 1 else 0 := by
    intro q
    have hkind : (u.written (statusEntries readyStatus (some p.course.yield))).kind = p.kind := hu.1
    rw [Produce.held, hkind, Tile.status_written_quantity, Tile.quantity_written]
    cases p <;> cases q <;> rfl
  have hworks : ∀ q : Produce, s.task.label = q.course.workLabel ↔ q = p := by
    intro q
    rw [hlabel]
    cases p <;> cases q <;> decide
  -- Nobody sets up a tile that works.
  have hset : NotSetUp (e.closing t s) [t.key] id :=
    notSetUp_of_view hview p.working_ne_preparing
  have hready := (h.closing hs).written (t := u) hget
    (statusEntries readyStatus (some p.course.yield))
    (fun q => by rw [hafter]; split <;> decide)
    (Or.inl (hkey ▸ List.mem_cons_self)) hset
  have hslot : ((e.closing t s).setStatus id readyStatus (some p.course.yield)).slot? t.key =
      some { s with completing := true, atEnd := [] } := by
    rw [setStatus_eq]
    exact slot?_putSlot_self e t.key _
  rw [setStatus_eq] at hslot ⊢
  refine ⟨hready.finish hslot hn, fun q => ?_, fun q => ?_⟩
  · have hstock := q.stock_withState hget (statusEntries readyStatus (some p.course.yield))
    rw [hbefore, hafter, Int.add_zero] at hstock
    rw [stock_finish q hslot hn]
    simp only [closing_world, hstock, hworks]
    split <;> rfl
  · have hfinish := engaged_finish q hslot hn
    have hengages : q.engages t.key { s with completing := true, atEnd := [] } =
        if s.task.label = q.course.workLabel then 1 else 0 := by
      rw [hkey]
      rfl
    rw [hengages] at hfinish
    exact Nat.le_trans hfinish (engaged_closing q hs)

-- What happens when a tile is set up, if the tile has no slot: it works, and has one.
theorem performAll_afterSetup {a tile : String} {p : Production}
    (hslot : e.slot? (.tile tile) = none) :
    e.performAll (afterSetup a tile p) =
      { e with world := e.world.withState tile (statusEntries p.working none) }.started
        (.tile tile) ⟨p.workLabel, p.workDescription, some a, e.now, p.workTime⟩
        [.setStatus tile readyStatus (some p.yield)] := by
  have hfree :
      { e with world := e.world.withState tile (statusEntries p.working none) }.isFree
        (.tile tile) = true := by
    rw [isFree_eq_true_iff]
    intro s hs
    exact absurd (hslot.symm.trans hs) (by simp)
  simp only [afterSetup, performAll, perform, setStatus_eq, start_eq, hfree, Bool.and_true, if_true]

-- The work of a tile starts, and the slot of the actor that has set it up is dropped.
theorem startWork_yields {key : TaskKey} (h : Orderly e [key]) {number : Nat}
    (hs : e.slot? key = some s) (hn : s.generation = number) {p : Produce} {tile : String}
    {worker : Option String}
    (hview : e.world.view tile = some (p.kind, p.course.working, worker))
    (hne : key ≠ .tile tile) (task : Task) (hlabel : task.label = p.course.workLabel) :
    let e' := (e.started (.tile tile) task
      [.setStatus tile readyStatus (some p.course.yield)]).finish key number
    Orderly e' [] ∧ ∀ q : Produce, q.stock e'.world = q.stock e.world ∧
      q.engaged e' + q.engages key s ≤
        q.engaged e + if task.label = q.course.workLabel then 1 else 0 := by
  have hset : NotSetUp e [key] tile := notSetUp_of_view hview p.working_ne_preparing
  have hstarted := h.started task
    (.work p worker (by rw [started_world, World.view_withTask]; exact hview) hlabel rfl)
    fun id hid => TaskKey.tile.inj hid ▸ hset
  have hslot := (slot?_started_other e (.tile tile) key task
    [.setStatus tile readyStatus (some p.course.yield)] hne).trans hs
  refine ⟨hstarted.finish hslot hn, fun q => ⟨?_, ?_⟩⟩
  · rw [stock_finish q hslot hn, started_world, Produce.stock_withTask]
  · -- One slot goes and one comes.
    have hfinish := engaged_finish q hslot hn
    have hput := tally_putSlot_le q.engages e (.tile tile)
      ⟨task, e.nextGeneration, false, [.setStatus tile readyStatus (some p.course.yield)]⟩
    rw [← started_slots] at hput
    exact Nat.le_trans hfinish hput

-- The end of the setting up of a tile: the tile works.
theorem setup_yields (h : Orderly e []) {a : String} (hkey : t.key = .actor a)
    (hs : e.slot? t.key = some s) (hn : s.generation = t.generation) {p : Produce} {tile : String}
    (hview : e.world.view tile = some (p.kind, p.course.preparing, some a))
    (hslot : e.slot? (.tile tile) = none) (hlabel : s.task.label = p.course.setupLabel) :
    Yields e
      (((e.closing t s).performAll (afterSetup a tile p.course)).finish t.key t.generation)
      fun _ => 0 := by
  rcases Option.map_eq_some_iff.mp hview with ⟨u, hget, hu⟩
  simp only [Prod.mk.injEq] at hu
  have hne : TaskKey.tile tile ≠ t.key := by simp [hkey]
  have hfree : (e.closing t s).slot? (.tile tile) = none := by
    rw [closing, slot?_putSlot_other _ _ _ _ hne]
    exact hslot
  -- The tile holds nothing while it is prepared and nothing when it works.
  have hbefore : ∀ q : Produce, q.held u = 0 := fun q =>
    q.held_of_not_ready (hu.2.1 ▸ p.preparing_ne_ready)
  have hafter : ∀ q : Produce, q.held (u.written (statusEntries p.course.working none)) = 0 :=
    fun q => q.held_of_not_ready (by rw [Tile.status_written]; exact p.working_ne_ready)
  -- Another actor that sets up the tile would be its worker.
  have hset : NotSetUp (e.closing t s) [t.key] tile := by
    intro q b s' hb _ _ hview'
    rw [closing_world, hview] at hview'
    simp only [Option.some.injEq, Prod.mk.injEq] at hview'
    exact hb (by simp [hkey, hview'.2.2])
  have hworking := (h.closing hs).written (t := u) hget
    (statusEntries p.course.working none) (fun q => Int.le_of_eq (hafter q).symm)
    (Or.inr hfree) hset
  have hstock : ∀ q : Produce,
      q.stock (e.world.withState tile (statusEntries p.course.working none)) = q.stock e.world := by
    intro q
    have hsum := q.stock_withState hget (statusEntries p.course.working none)
    rw [hbefore, hafter] at hsum
    omega
  have hview' : (e.world.withState tile (statusEntries p.course.working none)).view tile =
      some (p.kind, p.course.working, some a) := by
    rw [World.view_withState_self _ hget, Tile.status_written, Tile.worker?_written, hu.1, hu.2.2]
  rw [performAll_afterSetup hfree]
  have hslot₁ : { e.closing t s with
      world := e.world.withState tile (statusEntries p.course.working none) }.slot? t.key =
        some { s with completing := true, atEnd := [] } := slot?_putSlot_self e t.key _
  rcases startWork_yields hworking hslot₁ hn hview' hne.symm ⟨p.course.workLabel,
    p.course.workDescription, some a, e.now, p.course.workTime⟩ rfl with ⟨horderly, hyields⟩
  refine ⟨horderly, fun q => ?_, fun q => ?_⟩
  · exact ((hyields q).1.trans (hstock q)).trans (Int.add_zero _).symm
  · -- The cycle that the actor's slot stood for goes on in the tile's slot.
    have hsame : q.engages t.key { s with completing := true, atEnd := [] } =
        if p.course.workLabel = q.course.workLabel then 1 else 0 := by
      rw [hkey, Produce.engages, hlabel]
      cases p <;> cases q <;> decide
    have hle := (hyields q).2
    rw [hsame] at hle
    exact Nat.le_trans (Nat.le_of_add_le_add_right hle) (engaged_closing q hs)

end

/-- A timer adds one to the stock when it ends the work of a tile, and nothing otherwise. -/
theorem fire_yields (h : Orderly e []) (t : Timer) :
    Yields e (e.fire t) fun p => e.ripens p t := by
  unfold ripens
  rw [fire_eq]
  cases hending : e.ending? t with
  | none =>
      have hgain : ∀ p : Produce, (match t.key, (none : Option Slot) with
          | .tile _, some s => if s.task.label = p.course.workLabel then 1 else 0
          | _, _ => 0) = 0 := by
        intro p
        cases t.key <;> rfl
      simp only [hgain]
      exact ⟨h, fun p => (Int.add_zero _).symm, fun p => Nat.le_refl _⟩
  | some s =>
      rcases (ending?_eq_some_iff e t s).mp hending with ⟨hs, hn, -⟩
      -- A slot that is found has one of three duties.
      have hduty := h.duty t.key s List.not_mem_nil hs
      generalize hkey : t.key = key at hduty
      cases hduty with
      | busy hend hlabel =>
          have hyields := busy_yields h hs hn
          rw [hkey] at hyields
          simp only [hend]
          exact hyields
      | setup p tile hview hslot hlabel hend =>
          have hyields := setup_yields h hkey hs hn hview hslot hlabel
          rw [hkey] at hyields
          simp only [hend]
          exact hyields
      | work p worker hview hlabel hend =>
          have hyields := work_yields h hkey hs hn hview hlabel
          rw [hkey] at hyields
          simp only [hend]
          exact hyields

end Engine

end Farmhand
