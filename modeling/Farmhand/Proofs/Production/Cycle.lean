import Farmhand.Proofs.Production.Duty

/-!
# Setting Up and Collecting

What the beginning and the end of a cycle do to the stock. Setting a tile up brings nothing and
takes nothing: the tile was not ready, since a tile that is not idle is set up only when its cycle
was cancelled, and then nobody attends to it. Collecting moves what lies on the tile to the counter.
Either may fail, and changes no stock then, even where it gives up half-way.

## Main definitions

* `Engine.Earns`: A step that adds to the stock, as long as the counters can hold it, and may start
  cycles.

## Theorems

* `notSetUp_of_startable`: Nobody attends to a tile that can be set up.
* `prepared_keeps`: The tile is prepared and the stock is as before.
* `setup_keeps`, `refund_keeps`: What follows on it, whether the setting up is accepted or not.
* `startProduction_earns`: Setting up adds nothing to the stock, and starts a cycle.
* `stock_collected`: What is counted no longer lies on the tile.
* `collectOutput_earns`: Collecting adds nothing to the stock.
-/

namespace Farmhand

namespace Engine

/-- A step to an engine in order that adds to the stock, as long as the counters can hold what comes
    in, and starts no more cycles than it says. -/
structure Earns (e e' : Engine) (income gain : Produce → Int) (opened : Produce → Nat) : Prop where
  orderly : Orderly e' []
  stock : ∀ p : Produce, e.world.resource p.counter + income p ≤ Integer.maxCounter →
    p.stock e'.world = p.stock e.world + gain p
  engaged : ∀ p : Produce, p.engaged e' ≤ p.engaged e + opened p

theorem transact_eq_ok_iff (e e' : Engine) (ops : List WorldOp) :
    e.transact ops = .ok e' ↔ ∃ w, e.world.transact ops = .ok w ∧ e' = { e with world := w } := by
  unfold transact
  cases e.world.transact ops with
  | error error => simp [Except.map]
  | ok w => simp [Except.map, eq_comm]

variable {e : Engine} {a : Actor} {t : Tile}

-- A step that changes nothing earns nothing.
theorem earns_self (h : Orderly e []) (income : Produce → Int) (opened : Produce → Nat) :
    Earns e e income (fun _ => 0) opened :=
  ⟨h, fun _ _ => (Int.add_zero _).symm, fun _ => Nat.le_add_right _ _⟩

/-! ## Setting up -/

-- A change of an actor and a write to a tile.
theorem transact_actor_tile {w w' : World} {actor tile : String} {patch : ActorPatch}
    {entries : List (String × TileValue)}
    (h : w.transact [.actor actor patch, .tile tile { state := entries }] = .ok w') :
    ∃ v : World, w' = v.withState tile entries ∧ v.tiles = w.tiles ∧
      v.resources = w.resources ∧ (w.Keyed → v.Keyed) := by
  rcases (World.transact_cons_eq_ok_iff _ _ _ _).mp h with ⟨w₁, hactor, hrest⟩
  rcases (World.transact_cons_eq_ok_iff _ _ _ _).mp hrest with ⟨w₂, htile, hnil⟩
  change w.updateActor actor patch = .ok w₁ at hactor
  change w₁.updateTile tile { state := entries } = .ok w₂ at htile
  rw [World.updateTile_eq_ok htile] at hnil
  exact ⟨w₁, ((World.transact_nil_eq_ok_iff _ _).mp hnil).symm, World.updateActor_eq_ok hactor⟩

-- A demand that went through changes nothing of what follows.
theorem transact_guard {w w' : World} {id key : String} {expected : Option TileValue}
    {rest : List WorldOp} (h : w.transact (.guard id key expected :: rest) = .ok w') :
    w.transact rest = .ok w' := by
  rcases (World.transact_cons_eq_ok_iff _ _ _ _).mp h with ⟨w₁, hguard, hrest⟩
  rw [World.apply_guard_eq_ok hguard] at hrest
  exact hrest

-- A tile that is not ready is written, after a change of actors, with a status that is not ready
-- either.
theorem Orderly.rewritten (h : Orderly e []) (hget : e.world.tiles.get? t.id = some t)
    (hslot : e.slot? (.tile t.id) = none) (hset : NotSetUp e [] t.id)
    (hstatus : t.status ≠ readyStatus) {entries : List (String × TileValue)}
    (hentries : (t.written entries).status ≠ readyStatus) {w : World}
    (htiles : w.tiles = e.world.tiles) (hresources : w.resources = e.world.resources)
    (hkeyed : e.world.Keyed → w.Keyed) :
    Orderly { e with world := w.withState t.id entries } [] ∧
      ∀ q : Produce, q.stock (w.withState t.id entries) = q.stock e.world := by
  have hframe := h.frame (hkeyed h.keyed) htiles
  have hget' : w.tiles.get? t.id = some t := htiles ▸ hget
  refine ⟨hframe.written (t := t) hget' entries (fun q => ?_) (Or.inr hslot) ?_, fun q => ?_⟩
  · exact Int.le_of_eq (q.held_of_not_ready hentries).symm
  · intro p b s hb hs hlabel hview
    refine hset p b s hb hs hlabel ?_
    rw [World.view, ← htiles]
    exact hview
  · have hsum := q.stock_withState hget' entries
    rw [q.held_of_not_ready hstatus, q.held_of_not_ready hentries,
      q.stock_congr htiles hresources] at hsum
    omega

/-- A tile can be set up only when it is not ready and nobody sets it up. -/
theorem notSetUp_of_startable (hget : e.world.tiles.get? t.id = some t) {p : Produce}
    (hkind : t.kind = p.kind)
    (hstart : ¬ (t.status ≠ idleStatus && !e.isInterrupted t p.course) = true) :
    t.status ≠ readyStatus ∧ NotSetUp e [] t.id := by
  -- An idle tile is not being prepared, and an interrupted one has lost its worker.
  have hcases : t.status = idleStatus ∨ e.isInterrupted t p.course = true := by
    by_cases hidle : t.status = idleStatus
    · exact Or.inl hidle
    · simp only [ne_eq, hidle, not_false_eq_true, decide_true, Bool.true_and,
        Bool.not_eq_true'] at hstart
      exact Or.inr (Bool.ne_false_iff.mp hstart)
  rcases hcases with hidle | hinterrupted
  · refine ⟨by rw [hidle]; decide, ?_⟩
    refine notSetUp_of_get? hget fun q => ?_
    rw [hidle]
    exact q.preparing_ne_idle.symm
  · simp only [isInterrupted, Bool.and_eq_true, decide_eq_true_eq, Bool.not_eq_true']
      at hinterrupted
    refine ⟨hinterrupted.1.1, ?_⟩
    intro q b s _ hs hlabel hview
    rw [World.view, hget, Option.map_some, Option.some.injEq] at hview
    simp only [Prod.mk.injEq] at hview
    have hq : q = p := Produce.kind_inj (hview.1.symm.trans hkind)
    -- The worker has the label of a setter-up, so the tile does not count as interrupted.
    have hworker : ((t.state.get? workerKey).bind TileValue.toText?) = some b := hview.2.2
    have hsetting : e.isSettingUp t p.course = true := by
      rw [isSettingUp, hworker, Option.bind_some, actorTask?, task?, hs]
      simpa [hq] using hlabel
    rw [hsetting] at hinterrupted
    simp at hinterrupted

-- The start of an actor's setting up, on a tile that is prepared for it, starts a cycle.
theorem setup_keeps (h : Orderly e []) {actor tile : String} (hslot : e.slot? (.tile tile) = none)
    {p : Produce} (hview : e.world.view tile = some (p.kind, p.course.preparing, some actor))
    (task : Task) (hlabel : task.label = p.course.setupLabel) :
    let e' := e.started (.actor actor) task (afterSetup actor tile p.course)
    Orderly e' [] ∧ ∀ q : Produce, q.stock e'.world = q.stock e.world ∧
      q.engaged e' ≤ q.engaged e + if q = p then 1 else 0 := by
  refine ⟨h.started task (.setup p tile ?_ ?_ hlabel rfl) fun id hid => ?_, fun q => ⟨?_, ?_⟩⟩
  · rw [started_world, World.view_withTask]
    exact hview
  · rw [slot?_started_other _ _ _ _ _ (by simp)]
    exact hslot
  · simp only [reduceCtorEq] at hid
  · rw [started_world, Produce.stock_withTask]
  · have hput := tally_putSlot_le q.engages e (.actor actor)
      ⟨task, e.nextGeneration, false, afterSetup actor tile p.course⟩
    rw [← started_slots] at hput
    refine Nat.le_trans hput (Nat.add_le_add_left ?_ _)
    -- The label of the setting up tells which cycle it starts.
    have hsame : p.course.setupLabel = q.course.setupLabel → q = p := by
      cases p <;> cases q <;> decide
    rw [Produce.engages, hlabel]
    by_cases hq : q = p
    · exact Nat.le_of_eq (by rw [hq, if_pos rfl, if_pos rfl])
    · rw [if_neg fun heq => hq (hsame heq)]
      exact Nat.zero_le _

-- A tile that can be set up is prepared at the cost of the actor, and nothing else changes.
theorem prepared_keeps (h : Orderly e []) (hget : e.world.tiles.get? t.id = some t)
    (hslot : e.slot? (.tile t.id) = none) {p : Produce} (hkind : t.kind = p.kind)
    (hstatus : t.status ≠ readyStatus) (hset : NotSetUp e [] t.id) {patch : ActorPatch} {w : World}
    (h' : e.world.transact [.actor a.id patch, .tile t.id
      { state := [(statusKey, .text p.course.preparing), (workerKey, .text a.id)] }] = .ok w) :
    let u := t.written [(statusKey, .text p.course.preparing), (workerKey, .text a.id)]
    Orderly { e with world := w } [] ∧ w.tiles.get? t.id = some u ∧ u.status ≠ readyStatus ∧
      w.view t.id = some (p.kind, p.course.preparing, some a.id) ∧
        ∀ q : Produce, q.stock w = q.stock e.world := by
  intro u
  rcases transact_actor_tile h' with ⟨v, rfl, htiles, hresources, hkeyed⟩
  have hpreparing : u.status ≠ readyStatus := by
    rw [Tile.status_written_worker]
    exact p.preparing_ne_ready
  have hget' := World.get?_withState v (htiles ▸ hget)
    [(statusKey, .text p.course.preparing), (workerKey, .text a.id)]
  rcases h.rewritten hget hslot hset hstatus hpreparing htiles hresources hkeyed with
    ⟨horderly, hstock⟩
  refine ⟨horderly, hget', hpreparing, ?_, hstock⟩
  rw [World.view, hget', Option.map_some, Tile.status_written_worker,
    Tile.worker?_written_worker, ← hkind]
  rfl

-- The energy is given back, if it can be, and the tile is idle again.
theorem refund_keeps (h : Orderly e []) (hget : e.world.tiles.get? t.id = some t)
    (hactor : e.slot? (.actor a.id) = none) (hslot : e.slot? (.tile t.id) = none)
    {p : Produce} (hview : e.world.view t.id = some (p.kind, p.course.preparing, some a.id))
    (hstatus : t.status ≠ readyStatus) (energy : Nat) :
    let e' :=
      match e.transact [.actor a.id { energy := some (.credit energy) },
          .tile t.id { state := [(statusKey, .text idleStatus)] }] with
        | .ok e => e
        | .error _ => e
    Orderly e' [] ∧ ∀ q : Produce, q.stock e'.world = q.stock e.world ∧
      q.engaged e' = q.engaged e := by
  cases hrefund : e.transact [.actor a.id { energy := some (.credit energy) },
      .tile t.id { state := [(statusKey, .text idleStatus)] }] with
  | error error => exact ⟨h, fun _ => ⟨rfl, rfl⟩⟩
  | ok e₁ =>
      rcases (transact_eq_ok_iff _ _ _).mp hrefund with ⟨w₁, hw₁, rfl⟩
      rcases transact_actor_tile hw₁ with ⟨v₁, rfl, htiles, hresources, hkeyed⟩
      -- The actor that the tile names as its worker does nothing.
      have hset : NotSetUp e [] t.id := by
        intro q b s _ hs _ hview'
        rw [hview] at hview'
        simp only [Option.some.injEq, Prod.mk.injEq] at hview'
        rw [← hview'.2.2, hactor] at hs
        simp only [reduceCtorEq] at hs
      have hidle : (t.written [(statusKey, .text idleStatus)]).status ≠ readyStatus := by
        have hwritten := t.status_written idleStatus
        simp only [statusEntries, Option.map_none, Option.toList_none] at hwritten
        rw [hwritten]
        decide
      rcases h.rewritten hget hslot hset hstatus hidle htiles hresources hkeyed with
        ⟨horderly, hstock⟩
      exact ⟨horderly, fun q => ⟨hstock q, rfl⟩⟩

/-- Setting a tile up brings nothing and takes nothing, and starts a cycle if it succeeds. -/
theorem startProduction_earns (h : Orderly e []) (hget : e.world.tiles.get? t.id = some t)
    (hactor : e.slot? (.actor a.id) = none) (hslot : e.slot? (.tile t.id) = none)
    {p : Produce} (hkind : t.kind = p.kind) {timed : Bool} {energy : Nat} {r : Outcome × Engine}
    (hr : e.startProduction timed a t energy p.course = r) (income : Produce → Int) :
    Earns e r.2 income (fun _ => 0) fun q => if q = p ∧ r.1.isOk = true then 1 else 0 := by
  unfold startProduction at hr
  by_cases hstart : (t.status ≠ idleStatus && !e.isInterrupted t p.course) = true
  · rw [if_pos hstart] at hr
    rw [← hr]
    exact earns_self h _ _
  rw [if_neg hstart] at hr
  rcases notSetUp_of_startable hget hkind hstart with ⟨hstatus, hset⟩
  simp only at hr
  cases htransact : e.transact
      [t.unchanged statusKey, t.unchanged workerKey,
       .actor a.id { energy := some (.debit energy) },
       .tile t.id
         { state := [(statusKey, .text p.course.preparing), (workerKey, .text a.id)] }] with
  | error error =>
      rw [htransact] at hr
      rw [← hr]
      exact earns_self h _ _
  | ok e₁ =>
      rw [htransact] at hr
      simp only at hr
      rcases (transact_eq_ok_iff _ _ _).mp htransact with ⟨w₁, hw₁, rfl⟩
      rcases prepared_keeps h hget hslot hkind hstatus hset
        (transact_guard (transact_guard hw₁)) with
        ⟨horderly, hget₁, hpreparing, hview, hstock⟩
      by_cases hfree : (isFree { e with world := w₁ } (.actor a.id) && timed) = true
      · -- The actor sets the tile up.
        rw [start_eq, if_pos hfree] at hr
        simp only at hr
        rw [← hr]
        rcases setup_keeps horderly hslot hview ⟨p.course.setupLabel,
          p.course.setupDescription, some a.id, e.now, p.course.setupTime⟩ rfl with
          ⟨hsetup, hkept⟩
        refine ⟨hsetup, fun q _ => ?_, fun q => ?_⟩
        · exact ((hkept q).1.trans (hstock q)).trans (Int.add_zero _).symm
        · have hengaged := (hkept q).2
          simp only [Except.isOk, Except.toBool, and_true]
          exact hengaged
      · -- Nothing times the setting up, and the preparation is taken back.
        rw [start_eq, if_neg hfree] at hr
        simp only at hr
        rw [← hr]
        rcases refund_keeps (a := a) (t := t.written [(statusKey, .text p.course.preparing),
          (workerKey, .text a.id)]) horderly hget₁ hactor hslot hview hpreparing energy with
          ⟨hrefunded, hkept⟩
        refine ⟨hrefunded, fun q _ => ?_, fun q => ?_⟩
        · exact ((hkept q).1.trans (hstock q)).trans (Int.add_zero _).symm
        · exact Nat.le_trans (Nat.le_of_eq (hkept q).2) (Nat.le_add_right _ _)

/-! ## Collecting -/

-- What lies on a tile that is ready is counted instead, as long as the counter has room for it.
theorem stock_collected {w w' : World} (hget : w.tiles.get? t.id = some t) {p : Produce}
    (hkind : t.kind = p.kind) (hready : t.status = readyStatus) (hnonneg : 0 ≤ t.quantity)
    (htiles : w'.tiles = (w.withState t.id (statusEntries idleStatus (some 0))).tiles)
    (hcounters : ∀ name, w'.resource name =
      ((ResourceChange.add .empty p.counter (max t.quantity 0)).get? name).elim (w.resource name)
        fun delta => min ((w.resource name : Int) + delta).toNat Integer.maxCounter)
    (q : Produce)
    (hroom : w.resource q.counter + (if q = p then max t.quantity 0 else 0) ≤ Integer.maxCounter) :
    q.stock w' = q.stock w := by
  have hidle : q.held (t.written (statusEntries idleStatus (some 0))) = 0 := by
    refine q.held_of_not_ready ?_
    rw [Tile.status_written_quantity]
    decide
  have hemptied := q.stock_withState hget (statusEntries idleStatus (some 0))
  have hcounted := q.stock_of_tiles htiles
  have hbefore : (w.withState t.id (statusEntries idleStatus (some 0))).resource q.counter
      = w.resource q.counter := rfl
  rw [hidle] at hemptied
  rw [hcounters, hbefore] at hcounted
  by_cases hq : q = p
  · have hheld : q.held t = t.quantity := if_pos ⟨hq ▸ hkind, hready⟩
    have hchange : (ResourceChange.add .empty p.counter (max t.quantity 0)).get? q.counter =
        some (0 + max t.quantity 0) := by
      rw [hq, ResourceChange.add, Table.get?_insert_self]
      rfl
    rw [if_pos hq] at hroom
    rw [hchange, Option.elim_some, World.counted_of_room (by omega) (by omega)] at hcounted
    omega
  · -- The other produce has nothing on such a tile, and another counter.
    have hheld : q.held t = 0 := q.held_of_kind_ne fun heq =>
      hq (Produce.kind_inj (heq.symm.trans hkind))
    have hchange : (ResourceChange.add .empty p.counter (max t.quantity 0)).get? q.counter =
        none := by
      rw [ResourceChange.add, Table.get?_insert_of_ne]
      · rfl
      · cases p <;> cases q <;> first | exact absurd rfl hq | decide
    rw [hchange, Option.elim_none] at hcounted
    omega

/-- Collecting moves what lies on a tile to the counter. -/
theorem collectOutput_earns (h : Orderly e []) (hget : e.world.tiles.get? t.id = some t)
    (hslot : e.slot? (.tile t.id) = none) {p : Produce} (hkind : t.kind = p.kind) {energy : Nat}
    {r : Outcome × Engine} (hr : e.collectOutput a t energy p.counter = r) :
    Earns e r.2 (fun q => if q = p then max t.quantity 0 else 0) (fun _ => 0) fun _ => 0 := by
  unfold collectOutput at hr
  by_cases hready : t.status ≠ readyStatus
  · rw [if_pos hready] at hr
    rw [← hr]
    exact earns_self h _ _
  rw [if_neg hready] at hr
  rw [ne_eq, Decidable.not_not] at hready
  simp only at hr
  cases htransact : e.transact
      [t.unchanged statusKey,
       .tile t.id { state := [(statusKey, .text idleStatus), (quantityKey, .int 0)] },
       .resources (ResourceChange.add .empty p.counter (max t.quantity 0)),
       .actor a.id { energy := some (.debit energy) }] with
  | error error =>
      rw [htransact] at hr
      rw [← hr]
      exact earns_self h _ _
  | ok e₁ =>
      rw [htransact] at hr
      rw [← hr]
      rcases (transact_eq_ok_iff _ _ _).mp htransact with ⟨w₁, hw, rfl⟩
      rcases (World.transact_cons_eq_ok_iff _ _ _ _).mp (transact_guard hw) with ⟨w₂, htile, hrest⟩
      rcases (World.transact_cons_eq_ok_iff _ _ _ _).mp hrest with ⟨w₃, hchange, hrest'⟩
      rcases (World.transact_cons_eq_ok_iff _ _ _ _).mp hrest' with ⟨w₄, hactor, hnil⟩
      rw [(World.transact_nil_eq_ok_iff _ _).mp hnil] at hactor
      have hw₂ : w₂ = e.world.withState t.id (statusEntries idleStatus (some 0)) :=
        World.updateTile_eq_ok htile
      rcases World.updateResources_eq_ok hchange with ⟨hactors₃, htiles₃, hcounters⟩
      rcases World.updateActor_eq_ok hactor with ⟨htiles₁, hresources₁, hkeyed₁⟩
      rw [hw₂] at hactors₃ htiles₃ hcounters
      -- Nobody sets up a tile that is ready.
      have hset : NotSetUp e [] t.id := by
        refine notSetUp_of_get? hget fun q => ?_
        rw [hready]
        exact q.preparing_ne_ready.symm
      have hidle : ∀ q : Produce, 0 ≤ q.held (t.written (statusEntries idleStatus (some 0))) := by
        intro q
        refine Int.le_of_eq (q.held_of_not_ready ?_).symm
        rw [Tile.status_written_quantity]
        decide
      have hwritten := h.written hget (statusEntries idleStatus (some 0)) hidle (Or.inr hslot) hset
      have hkeyed₃ : w₃.Keyed :=
        ⟨hactors₃ ▸ hwritten.keyed.actors, htiles₃ ▸ hwritten.keyed.tiles⟩
      -- The invariant keeps what lies on the tile from being negative, so nothing is cut off.
      have hnonneg : 0 ≤ t.quantity := by
        have hheld := h.held_nonneg p t.id t hget
        rwa [Produce.held, if_pos ⟨hkind, hready⟩] at hheld
      have hresource : ∀ name, w₁.resource name = w₃.resource name := by
        intro name
        rw [World.resource, hresources₁]
        rfl
      refine ⟨hwritten.frame (hkeyed₁ hkeyed₃) (htiles₁.trans htiles₃), fun q hroom => ?_,
        fun q => Nat.le_refl _⟩
      rw [stock_collected hget hkind hready hnonneg (htiles₁.trans htiles₃)
        (fun name => (hresource name).trans (hcounters name)) q hroom]
      exact (Int.add_zero _).symm

end Engine

end Farmhand
