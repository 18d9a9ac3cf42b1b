import Farmhand.Proofs.Production.Undisturbed

/-!
# Old Looks at Ripe Tiles

Who collects what a tile has to give has looked at the tile before. The look may be old: the tile
may have been gathered since, and set up again, and may have become ready once more. When it is
collected, the status is asked for again, but not the quantity. So what is collected is what was
seen, which need not be what lies there.

What lies there is known from the past of the tile. Only timers make a tile ready, and what a timer
leaves on it is the yield of its cycle, which is one. A tile that was ready before and has not been
gathered is as it was. So an old look and a new one tell the same, unless the tile was ready with
something else when the world began.

## Main definitions

* `World.ripe?`: What a ready tile has to give.
* `World.Unripened`: No tile has become ready, and none that is ready has changed.
* `WorldOp.Unready`: A step of a transaction that makes no tile ready.
* `Engine.Empties`: A tile is emptied, and an amount is counted.

## Theorems

* `Engine.unripened_invoke`: Calls make no tile ready.
* `Attended.happen_induction`: What can change what tiles have to give.
* `Attended.ripe_happenings`: What makes tiles ready.
* `Attended.ripe_stays`: A ready tile stays as it is until it is gathered.
* `collectOutput_old`: What the collection of a tile does that was seen some time ago.
* `collects_seen`: It conserves what there is, unless the world began with ready tiles.
* `not_collects_present`: Otherwise it may not.
-/

namespace Farmhand

/-! ## Ready tiles -/

/-- The kind of a tile and what it has to give, if it is ready. -/
def Tile.ripe? (t : Tile) : Option (TileKind × Int) :=
  if t.status = readyStatus then some (t.kind, t.quantity) else none

namespace World

variable {w w' w'' : World} {tile : String}

/-- The kind of a tile of the world and what it has to give, if it is ready. -/
def ripe? (w : World) (tile : String) : Option (TileKind × Int) :=
  ((w.tiles.get? tile).map Tile.ripe?).join

/-- No tile has become ready, and none that is ready has changed what it has to give. -/
def Unripened (w w' : World) : Prop :=
  ∀ tile x, w'.ripe? tile = some x → w.ripe? tile = some x

theorem ripe?_of_get? {t : Tile} (h : w.tiles.get? tile = some t) : w.ripe? tile = t.ripe? := by
  rw [ripe?, h, Option.map_some, Option.join_some]

-- What a ripe tile is, field by field.
theorem ripe?_eq_some {kind : TileKind} {n : Int} (h : w.ripe? tile = some (kind, n)) :
    ∃ u, w.tiles.get? tile = some u ∧ u.status = readyStatus ∧ u.kind = kind ∧ u.quantity = n := by
  cases hget : w.tiles.get? tile with
  | none =>
      rw [ripe?, hget] at h
      cases h
  | some u =>
      rw [ripe?_of_get? hget, Tile.ripe?] at h
      split at h
      · next hready =>
        rw [Option.some.injEq, Prod.mk.injEq] at h
        exact ⟨u, rfl, hready, h⟩
      · cases h

theorem Unripened.trans (h : w.Unripened w') (h' : w'.Unripened w'') : w.Unripened w'' :=
  fun tile x hx => h tile x (h' tile x hx)

theorem unripened_of_tiles (h : w'.tiles = w.tiles) : w.Unripened w' := by
  intro tile x hx
  rwa [ripe?, h] at hx

-- A task that is shown says nothing of what a tile has to give.
theorem ripe?_withTask (w : World) (task : Option Task) (key : TaskKey) (tile : String) :
    (w.withTask task key).ripe? tile = w.ripe? tile := by
  cases key with
  | actor a => rfl
  | tile id =>
      have hsame : ((w.withTask task (.tile id)).tiles.get? tile).map Tile.ripe? =
          (w.tiles.get? tile).map Tile.ripe? :=
        Table.map_get?_modify (f := fun t => { t with task }) (fun _ => rfl) w.tiles id tile
      exact congrArg Option.join hsame

theorem ripe?_withoutTasks (w : World) (keys : List TaskKey) (tile : String) :
    (w.withoutTasks keys).ripe? tile = w.ripe? tile := by
  induction keys generalizing w with
  | nil => rfl
  | cons key rest ih => exact (ih _).trans (ripe?_withTask w none key tile)

/-! ## Transactions -/

end World

/-- A step of a transaction after which its tile, if it has one, is not ready. -/
def WorldOp.Unready : WorldOp → Prop
  | .tile _ patch => ∀ t : Tile, (t.patched patch).status ≠ readyStatus
  | _ => True

namespace World

variable {w w' : World}

-- A demand that is met, and on what tile.
theorem guard_eq_ok {id key : String} {expected : Option TileValue}
    (h : w.apply (.guard id key expected) = .ok w') :
    ∃ u, w.tiles.get? id = some u ∧ u.state.get? key = expected := by
  rw [apply] at h
  split at h
  · cases h
  · next u hu =>
    split at h
    · next hmet => exact ⟨u, (tile_eq_ok_iff _ _ _).mp hu, hmet⟩
    · cases h

theorem unripened_apply {op : WorldOp} (hop : op.Unready) (h : w.apply op = .ok w') :
    w.Unripened w' := by
  cases op with
  | actor id patch => exact unripened_of_tiles (updateActor_eq_ok h).1
  | resources change => exact unripened_of_tiles (updateResources_eq_ok h).2.1
  | guard id key expected => exact unripened_of_tiles (congrArg tiles (apply_guard_eq_ok h))
  | tile id patch =>
      rcases (updateTile_eq_ok_iff _ _ _ _).mp h with ⟨t, _, rfl⟩
      rintro tile ⟨kind, n⟩ hx
      rcases ripe?_eq_some hx with ⟨u, hget, hready, _⟩
      by_cases hid : tile = id
      · -- The tile that was written is not ready.
        rw [hid, Table.get?_insert_self, Option.some.injEq] at hget
        exact absurd (hget ▸ hready) (hop t)
      · rwa [ripe?, Table.get?_insert_of_ne _ _ _ _ hid] at hx

/-- A transaction whose steps make no tile ready makes none ready. -/
theorem unripened_transact {ops : List WorldOp} (hops : ∀ op ∈ ops, op.Unready)
    (h : w.transact ops = .ok w') : w.Unripened w' := by
  induction ops generalizing w with
  | nil => exact (transact_nil_eq_ok_iff _ _).mp h ▸ unripened_of_tiles rfl
  | cons op rest ih =>
      rcases (transact_cons_eq_ok_iff _ _ _ _).mp h with ⟨v, happly, hrest⟩
      exact (unripened_apply (hops op List.mem_cons_self) happly).trans
        (ih (fun other hother => hops other (List.mem_cons_of_mem _ hother)) hrest)

end World

namespace Engine

variable {e : Engine} {a : Actor} {t : Tile} {timed : Bool} {p : Produce}

-- What setting up and collecting write to a tile.
theorem unready_prepared (p : Produce) (tile worker : String) :
    (WorldOp.tile tile { state := [(statusKey, .text p.course.preparing),
      (workerKey, .text worker)] }).Unready := by
  intro t
  have hstatus : (t.patched { state := [(statusKey, .text p.course.preparing),
      (workerKey, .text worker)] }).status = p.course.preparing :=
    t.status_written_worker p.course.preparing worker
  rw [hstatus]
  exact p.preparing_ne_ready

theorem unready_idle (tile : String) (quantity : Option Int) :
    (WorldOp.tile tile { state := statusEntries idleStatus quantity }).Unready := by
  intro t
  have hstatus :
      (t.patched { state := statusEntries idleStatus quantity }).status = idleStatus := by
    cases quantity with
    | none => exact t.status_written idleStatus
    | some n => exact t.status_written_quantity idleStatus n
  rw [hstatus]
  decide

-- A transaction of an engine.
theorem unripened_transact {e' : Engine} {ops : List WorldOp} (hops : ∀ op ∈ ops, op.Unready)
    (h : e.transact ops = .ok e') : e.world.Unripened e'.world := by
  rcases (transact_eq_ok_iff _ _ _).mp h with ⟨w, hw, rfl⟩
  exact World.unripened_transact hops hw

-- A task that starts says nothing of what tiles have to give.
theorem unripened_start {e' : Engine} {key : TaskKey} {label description : String}
    {duration : Nat} {owner : Option String} {atEnd : List Action} {accepted : Bool}
    (h : e.start timed key label duration description owner atEnd = (e', accepted)) :
    e.world.Unripened e'.world := by
  rw [start_eq] at h
  split at h
  · intro tile x hx
    rwa [← (Prod.mk.inj h).1, started_world, World.ripe?_withTask] at hx
  · exact World.unripened_of_tiles (congrArg (·.world.tiles) (Prod.mk.inj h).1.symm)

/-- No function makes a tile ripe: a cycle sets another status, and its setup ends much later. -/
theorem unripened_startProduction {energy : Nat} :
    e.world.Unripened (e.startProduction timed a t energy p.course).2.world := by
  have hsame : e.world.Unripened e.world := World.unripened_of_tiles rfl
  unfold startProduction
  split
  · exact hsame
  · simp only
    split
    · exact hsame
    · next prepared hprepared =>
      have hfirst := unripened_transact (fun op hop => by
        simp only [List.mem_cons, List.not_mem_nil, or_false] at hop
        rcases hop with rfl | rfl | rfl | rfl
        · trivial
        · trivial
        · trivial
        · exact unready_prepared p t.id a.id) hprepared
      split
      · next started hstart => exact hfirst.trans (unripened_start hstart)
      · next refused hstart =>
        have hsecond := hfirst.trans (unripened_start hstart)
        simp only
        split
        · next restored hrestored =>
          refine hsecond.trans (unripened_transact (fun op hop => ?_) hrestored)
          simp only [List.mem_cons, List.not_mem_nil, or_false] at hop
          rcases hop with rfl | rfl
          · trivial
          · exact unready_idle t.id none
        · exact hsecond

-- Collecting only takes ripeness away.
theorem unripened_collectOutput {energy : Nat} {resource : String} :
    e.world.Unripened (e.collectOutput a t energy resource).2.world := by
  have hsame : e.world.Unripened e.world := World.unripened_of_tiles rfl
  unfold collectOutput
  split
  · exact hsame
  · simp only
    split
    · exact hsame
    · next collected hcollected =>
      refine unripened_transact (fun op hop => ?_) hcollected
      simp only [List.mem_cons, List.not_mem_nil, or_false] at hop
      rcases hop with rfl | rfl | rfl | rfl
      · trivial
      · exact unready_idle t.id (some 0)
      · trivial
      · trivial

theorem unripened_eat : e.world.Unripened (e.eat timed a t).2.world := by
  unfold eat
  split
  · next refused hstart => exact unripened_start hstart
  · next started hstart =>
    split
    · exact unripened_start hstart
    · next fed hfed =>
      exact (unripened_start hstart).trans
        (World.unripened_of_tiles (World.updateActor_eq_ok hfed).1)

-- Storing is about the counters.
theorem unripened_store {energy : Nat} : e.world.Unripened (e.store a energy).2.world := by
  have hsame : e.world.Unripened e.world := World.unripened_of_tiles rfl
  unfold store
  split
  · exact hsame
  · simp only
    split
    · exact hsame
    · next stored hstored =>
      refine unripened_transact (fun op hop => ?_) hstored
      simp only [List.mem_cons, List.not_mem_nil, or_false] at hop
      rcases hop with rfl | rfl
      · trivial
      · trivial

/-- Calls make no tile ready. -/
theorem unripened_invoke (e : Engine) (timed : Bool) (actor tile name : String) :
    e.world.Unripened (e.invoke timed actor tile name).2.world := by
  have hsame : e.world.Unripened e.world := World.unripened_of_tiles rfl
  unfold invoke
  split
  · exact hsame
  · exact hsame
  · split
    · exact hsame
    · next f _ =>
      split
      · exact hsame
      · cases f with
        | plant => exact unripened_startProduction (p := .wheat)
        | harvest => exact unripened_collectOutput
        | mineInitiate => exact unripened_startProduction (p := .ore)
        | collect => exact unripened_collectOutput
        | eat => exact unripened_eat
        | store => exact unripened_store

/-! ## What makes tiles ready -/

theorem yield_eq_one (p : Produce) : p.course.yield = 1 := by
  cases p <;> rfl

-- A tile that a timer has made ready has the yield of a cycle.
theorem Expiry.ripe {t : Timer} {e' : Engine} (h : Expiry e t e') {tile : String}
    {x : TileKind × Int} (hx : e'.world.ripe? tile = some x) :
    e.world.ripe? tile = some x ∨ x.2 = 1 := by
  rcases x with ⟨kind, n⟩
  have hkept : ∀ {other : String}, tile ≠ other →
      (∀ id, id ≠ other → e'.world.tiles.get? id = e.world.tiles.get? id) →
      e.world.ripe? tile = some (kind, n) := by
    intro other hne htiles
    rwa [World.ripe?, htiles tile hne] at hx
  cases h with
  | gone _ _ htiles => exact .inl (World.unripened_of_tiles htiles tile _ hx)
  | busy _ _ _ _ _ htiles => exact .inl (World.unripened_of_tiles htiles tile _ hx)
  | @setup _ other _ p _ _ _ _ _ _ _ _ _ hview' htiles =>
      by_cases hid : tile = other
      · -- It works now.
        rcases World.ripe?_eq_some hx with ⟨u, hget, hready, _⟩
        rw [← hid, World.view, hget, Option.map_some, Option.some.injEq] at hview'
        have hworking : u.status = p.course.working := (Prod.mk.inj (Prod.mk.inj hview').2).1
        exact absurd (hworking.symm.trans hready) p.working_ne_ready
      · exact .inl (hkept hid htiles)
  | @work other _ _ p _ _ _ _ _ _ _ hready htiles =>
      by_cases hid : tile = other
      · rcases World.ripe?_eq_some hx with ⟨u, hget, _, _, hquantity⟩
        rcases hready with ⟨u', hget', _, _, hyield⟩
        rw [← hid, hget, Option.some.injEq] at hget'
        rw [← hget', hquantity, yield_eq_one] at hyield
        exact .inr hyield
      · exact .inl (hkept hid htiles)

/-- Only calls and timers that run out change what tiles have to give. -/
theorem Attended.happen_induction {P : World → Prop} (h : Attended e) (x : Happening)
    (hsame : ∀ w : World, (∀ tile, w.ripe? tile = e.world.ripe? tile) → P w)
    (hcall : ∀ timed actor place name, x = .deed (.call timed actor place name) →
      P (e.invoke timed actor place name).2.world)
    (hexpire : ∀ e' t, Attended e' → P e'.world → earliest? e'.timers = some t →
      P ((e'.atDue t).fire t).world) : P (e.happen x).world := by
  have hP : P e.world := hsame _ fun _ => rfl
  have hupdated : ∀ actor patch, P (e.updated actor patch).world := by
    intro actor patch
    rcases updated_eq e actor patch with ⟨w, hw, htiles, _⟩
    rw [hw]
    exact hsame _ fun tile => by rw [World.ripe?, World.ripe?, htiles]
  cases x with
  | deed d =>
      cases d with
      | call timed actor place name => exact hcall timed actor place name rfl
      | expire =>
          unfold Engine.happen deed
          cases ht : earliest? e.timers with
          | none => exact hP
          | some t => exact hexpire e t h hP ht
      | advance milliseconds =>
          -- By induction on the timers that run out.
          have hfired := fireDue_induction (P := fun e' => Attended e' ∧ P e'.world)
            (fun e' t he ht => ⟨he.1.expired ht, hexpire e' t he.1 he.2 ht⟩)
            (e.now + milliseconds) e.pending e ⟨h, hP⟩
          exact hfired.2
      | cancel =>
          rw [Engine.happen, deed, cancelAll_eq]
          exact hsame _ fun tile => World.ripe?_withoutTasks _ _ tile
  | setOut => exact hP
  | arrive actor target => exact hupdated actor _
  | pay actor amount => exact hupdated actor _

/-- Of what is ready after a happening, the same was ready before, or it is the yield of a cycle. -/
theorem Attended.ripe_happen (h : Attended e) (x : Happening) {tile : String}
    {y : TileKind × Int} (hy : (e.happen x).world.ripe? tile = some y) :
    e.world.ripe? tile = some y ∨ y.2 = 1 := by
  refine h.happen_induction x (P := fun w => w.ripe? tile = some y →
    e.world.ripe? tile = some y ∨ y.2 = 1) ?_ ?_ ?_ hy
  · exact fun w hsame hlater => .inl ((hsame tile).symm.trans hlater)
  · exact fun timed actor place name _ hcalled =>
      .inl (unripened_invoke e timed actor place name tile y hcalled)
  · exact fun e' t hattended hbefore ht hfired =>
      ((hattended.expiry ht).ripe hfired).elim hbefore .inr

/-- Of what is ready after a run, the same was ready at its beginning, or it is the yield of a
    cycle. -/
theorem Attended.ripe_happenings (h : Attended e) (hs : List Happening) {tile : String}
    {y : TileKind × Int} (hy : (e.happenings hs).world.ripe? tile = some y) :
    e.world.ripe? tile = some y ∨ y.2 = 1 := by
  induction hs generalizing e with
  | nil => exact .inl hy
  | cons x rest ih =>
      rcases ih (h.happen x) hy with hbefore | hyield
      · exact h.ripe_happen x hbefore
      · exact .inr hyield

/-! ## Until they are gathered -/

-- A timer leaves alone what is ready.
theorem Expiry.ripe_stays {timer : Timer} {e' : Engine} (h : Expiry e timer e') {tile : String}
    {x : TileKind × Int} (hx : e.world.ripe? tile = some x) : e'.world.ripe? tile = some x := by
  rcases x with ⟨kind, n⟩
  rcases World.ripe?_eq_some hx with ⟨u, hget, hready, _⟩
  rw [World.ripe?_of_get? (h.tile_stays hget hready), ← World.ripe?_of_get? hget, hx]

/-- What is ready stays so in whatever happens, or it is gathered. -/
theorem Attended.ripe_stays_happen (h : Attended e) (x : Happening) {tile : String}
    {kind : TileKind} {n : Int} (hn : e.world.ripe? tile = some (kind, n)) :
    (e.happen x).world.ripe? tile = some (kind, n) ∨
      ∃ p : Produce, kind = p.kind ∧ x.gathers e tile p = true := by
  refine h.happen_induction x (P := fun w => w.ripe? tile = some (kind, n) ∨
    ∃ p : Produce, kind = p.kind ∧ x.gathers e tile p = true) ?_ ?_ ?_
  · exact fun w hsame => .inl ((hsame tile).trans hn)
  · rintro timed actor place name rfl
    rcases World.ripe?_eq_some hn with ⟨u, hget, hready, hkind, _⟩
    rcases (h.called timed actor place name).tile_stays hget hready with
      hstays | ⟨hplace, hok, p, hp, hname⟩
    · refine .inl ?_
      rw [World.ripe?_of_get? hstays, ← World.ripe?_of_get? hget, hn]
    · refine .inr ⟨p, hkind.symm.trans hp, ?_⟩
      simp only [Happening.gathers, hplace, hname, decide_true, Bool.and_self, Bool.true_and]
      exact hname ▸ hplace ▸ hok
  · exact fun e' t hattended hbefore ht =>
      hbefore.imp_left fun hready => (hattended.expiry ht).ripe_stays hready

/-- What is ready stays so through a run, or it is gathered. -/
theorem Attended.ripe_stays (h : Attended e) (hs : List Happening) {tile : String}
    {kind : TileKind} {n : Int} (hn : e.world.ripe? tile = some (kind, n)) :
    (e.happenings hs).world.ripe? tile = some (kind, n) ∨
      ∃ p : Produce, kind = p.kind ∧ e.gathers tile p hs = true := by
  induction hs generalizing e with
  | nil => exact .inl hn
  | cons x rest ih =>
      rcases h.ripe_stays_happen x hn with hstays | ⟨p, hp, hgathers⟩
      · rcases ih (h.happen x) hstays with hrest | ⟨p, hp, hgathers⟩
        · exact .inl hrest
        · exact .inr ⟨p, hp, by rw [gathers, hgathers, Bool.or_true]⟩
      · exact .inr ⟨p, hp, by rw [gathers, hgathers, Bool.true_or]⟩

/-! ## Collections -/

/-- A tile is emptied, and an amount is counted. -/
structure Empties (e e' : Engine) (tile counter : String) (amount : Int) : Prop where
  idle : e'.world.status? tile = some idleStatus
  empty : e'.world.quantity? tile = some 0
  others : ∀ other, other ≠ tile → e'.world.tiles.get? other = e.world.tiles.get? other
  counted : ∀ name, e'.world.resource name = if name = counter then
    min ((e.world.resource name : Int) + amount).toNat Integer.maxCounter else e.world.resource name

/-- What a collection of a tile does that was seen some time ago: it fails and changes nothing, or
    the tile is ready now and is emptied, and what was seen on it is counted. -/
theorem collectOutput_old (e : Engine) (a : Actor) (t : Tile) (energy : Nat) (resource : String) :
    let r := e.collectOutput a t energy resource
    (r.1.isOk = false ∧ r.2 = e) ∨
      (r.1.isOk = true ∧ t.status = readyStatus ∧
        (∃ u, e.world.tiles.get? t.id = some u ∧ u.status = readyStatus) ∧
        Empties e r.2 t.id resource (max t.quantity 0)) := by
  intro r
  generalize hr : r = r'
  unfold r collectOutput at hr
  split at hr
  · exact .inl (hr ▸ ⟨rfl, rfl⟩)
  · next hready =>
    rw [ne_eq, Decidable.not_not] at hready
    simp only at hr
    split at hr
    · exact .inl (hr ▸ ⟨rfl, rfl⟩)
    · next collected hcollected =>
      -- The transaction: a guard on the status, the tile, the counters, and the actor.
      rcases (transact_eq_ok_iff _ _ _).mp hcollected with ⟨w, hw, rfl⟩
      rcases (World.transact_cons_eq_ok_iff _ _ _ _).mp hw with ⟨w₁, hguard, htile⟩
      rcases (World.transact_cons_eq_ok_iff _ _ _ _).mp htile with ⟨w₂, htile, hcounters⟩
      rcases (World.transact_cons_eq_ok_iff _ _ _ _).mp hcounters with ⟨w₃, hcounters, hactor⟩
      rcases (World.transact_cons_eq_ok_iff _ _ _ _).mp hactor with ⟨w₄, hactor, hnil⟩
      rcases World.guard_eq_ok hguard with ⟨u, hget, hstatus⟩
      rw [World.apply_guard_eq_ok hguard] at htile
      rw [(World.transact_nil_eq_ok_iff _ _).mp hnil] at hactor
      rcases World.updateActor_eq_ok hactor with ⟨htiles, hresources, _⟩
      rcases World.updateResources_eq_ok hcounters with ⟨_, htiles', hcounted⟩
      have hwritten : w₂ = e.world.withState t.id (statusEntries idleStatus (some 0)) :=
        World.updateTile_eq_ok htile
      have hsame : u.status = t.status := by rw [Tile.status, Tile.status, hstatus]
      have hseen : w.tiles.get? t.id = some (u.written (statusEntries idleStatus (some 0))) := by
        rw [htiles, htiles', hwritten]
        exact World.get?_withState _ hget _
      refine .inr (hr ▸ ⟨rfl, hready, ⟨u, hget, hsame.trans hready⟩, ?_, ?_, fun other hother => ?_,
        fun name => ?_⟩)
      · show w.status? t.id = some idleStatus
        rw [World.status?, hseen, Option.map_some, Tile.status_written_quantity]
      · show w.quantity? t.id = some 0
        rw [World.quantity?, hseen, Option.map_some, Tile.quantity_written]
      · show w.tiles.get? other = _
        rw [htiles, htiles', hwritten, get?_withState_of_ne _ _ hother]
      · have hcounter : w.resource name = w₃.resource name := by
          rw [World.resource, World.resource, hresources]
        have hbefore : w₂.resource name = e.world.resource name := by
          rw [hwritten]
          rfl
        show w.resource name = _
        rw [hcounter, hcounted, hbefore]
        by_cases hname : name = resource
        · have hnone : ((Table.empty : ResourceChange).get? resource).getD 0 = 0 := rfl
          rw [if_pos hname, hname, ResourceChange.add, Table.get?_insert_self, Option.elim_some,
            hnone, Int.zero_add]
        · rw [if_neg hname, ResourceChange.add, Table.get?_insert_of_ne _ _ _ _ hname]
          rfl

-- The function that gathers a produce collects it.
theorem runFunction_gatherer (e : Engine) (timed : Bool) (p : Produce) (a : Actor) (t : Tile) :
    e.runFunction timed p.gatherer a t = e.collectOutput a t p.gatherer.energy p.counter := by
  cases p <;> rfl

/-- A tile is seen in some state of a run and collected in a later one, for whatever actor. Either
    this fails and changes nothing; or the tile is ready, it is emptied, and what was seen on it is
    counted. This is what lies there, unless the tile was ready already when the world began, was
    seen before it was first gathered, and has come to the end of a cycle since. -/
theorem collects_seen {w : World} (hkeyed : w.Keyed) (stepTime : Nat) (hs hs' : List Happening)
    {tile : String} {t : Tile}
    (ht : ((Engine.new w stepTime).happenings hs).world.tiles.get? tile = some t) (timed : Bool)
    (a : Actor) (p : Produce) :
    let before := (Engine.new w stepTime).happenings hs
    let e := before.happenings hs'
    let r := e.runFunction timed p.gatherer a t
    (r.1.isOk = false ∧ r.2 = e) ∨
      (r.1.isOk = true ∧ Empties e r.2 tile p.counter (max t.quantity 0) ∧
        ∃ u, e.world.tiles.get? tile = some u ∧ u.status = readyStatus ∧
          (u.quantity = t.quantity ∨
            u.quantity = 1 ∧ w.ripe? tile = some (t.kind, t.quantity) ∧
              ∃ q : Produce, t.kind = q.kind ∧ before.gathers tile q hs' = true)) := by
  intro before e r
  have hnew : Attended (Engine.new w stepTime) := attended_new hkeyed stepTime
  have hbefore : Attended before := hnew.happenings hs
  have hid : t.id = tile := hbefore.keyed.tiles tile t ht
  have hr : r = e.collectOutput a t p.gatherer.energy p.counter :=
    runFunction_gatherer e timed p a t
  rcases collectOutput_old e a t p.gatherer.energy p.counter with
    hfails | ⟨hok, hready, ⟨u, hget, hready'⟩, hempties⟩
  · exact .inl (hr ▸ hfails)
  rw [hid] at hget hempties
  refine .inr ⟨hr ▸ hok, hr ▸ hempties, u, hget, hready', ?_⟩
  have hseen : before.world.ripe? tile = some (t.kind, t.quantity) := by
    rw [World.ripe?_of_get? ht, Tile.ripe?, if_pos hready]
  have hpresent : e.world.ripe? tile = some (u.kind, u.quantity) := by
    rw [World.ripe?_of_get? hget, Tile.ripe?, if_pos hready']
  rcases hbefore.ripe_stays hs' hseen with hstays | hgathered
  · exact .inl (Prod.mk.inj (Option.some.inj (hpresent.symm.trans hstays))).2
  · -- What lies there now comes from a cycle, or lay there all the time.
    rcases hbefore.ripe_happenings hs' hpresent with hlay | hone
    · exact .inl (Prod.mk.inj (Option.some.inj (hlay.symm.trans hseen))).2
    · rcases hnew.ripe_happenings hs hseen with hfirst | hyield
      · exact .inr ⟨hone, hfirst, hgathered⟩
      · exact .inl (hone.trans hyield.symm)

/-- A mine with ore in it. -/
def ladenPit (ore : Int) : Tile :=
  (Tile.new "pit" .mine ⟨0, 0⟩).written (statusEntries readyStatus (some ore))

/-- A world that begins with ore in its mine. -/
def pit (ore : Int) : World :=
  ((World.empty ⟨1, 1⟩).insertTile (ladenPit ore)).insertActor (Actor.new "ann" ⟨0, 0⟩)

theorem keyed_pit (ore : Int) : (pit ore).Keyed :=
  ((World.keyed_empty _).insertTile _).insertActor _

/-- The mine is gathered, and works once more. -/
def regrown : List Happening :=
  [.deed (.call true "ann" "pit" "collect"), .deed (.call true "ann" "pit" "mine_initiate"),
    .deed (.advance 13000)]

/-- If the ore at the beginning is one piece, an old look at it tells what is there later. -/
theorem collects_seen_pit :
    let e := (Engine.new (pit 1) 1).happenings regrown
    let r := e.runFunction true .collect (Actor.new "ann" ⟨0, 0⟩) (ladenPit 1)
    (pit 1).tiles.get? "pit" = some (ladenPit 1) ∧ r.1.isOk = true ∧ Empties e r.2 "pit" ore 1 ∧
      ∃ u, e.world.tiles.get? "pit" = some u ∧ u.quantity = 1 := by
  intro e r
  have hseen : (pit 1).tiles.get? "pit" = some (ladenPit 1) := rfl
  have hok : r.1.isOk = true := by decide +kernel
  rcases collects_seen (keyed_pit 1) 1 [] regrown hseen true (Actor.new "ann" ⟨0, 0⟩) .ore with
    ⟨hfails, _⟩ | ⟨_, hempties, u, hget, _, hsame | ⟨hone, _⟩⟩
  · exact absurd (hok.symm.trans hfails) (by decide)
  · exact ⟨hseen, hok, hempties, u, hget, hsame⟩
  · exact ⟨hseen, hok, hempties, u, hget, hone⟩

/-- If it is five pieces, five pieces are counted once more, although only one is there. -/
theorem not_collects_present :
    ¬ ∀ (w : World) (stepTime : Nat) (hs hs' : List Happening) (tile : String) (t u : Tile)
      (timed : Bool) (a : Actor) (p : Produce),
      let before := (Engine.new w stepTime).happenings hs
      let e := before.happenings hs'
      let r := e.runFunction timed p.gatherer a t
      w.Keyed → before.world.tiles.get? tile = some t → t.kind = p.kind →
        before.world.actors.get? a.id = some a → e.world.tiles.get? tile = some u →
          e.world.resource p.counter + max t.quantity 0 ≤ Integer.maxCounter → r.1.isOk = true →
            r.2.world.resource p.counter = e.world.resource p.counter + max u.quantity 0 := by
  intro h
  have hcounted := h (pit 5) 1 [] regrown "pit" _ _ true (Actor.new "ann" ⟨0, 0⟩) .ore
    (keyed_pit 5) rfl rfl rfl rfl (by decide +kernel) (by decide +kernel)
  exact absurd hcounted (by decide +kernel)

end Engine

end Farmhand
