import Farmhand.Proofs.Production.Cycle

/-!
# Calls of Tile Functions

What a call does to the stock, whichever function it calls and whether it succeeds or fails. Only
storing adds to the stock, by what the actor carries. Only setting up starts a cycle.

## Main definitions

* `Produce.deposit`: What an actor carries of a produce.
* `Produce.income`: What a call may bring to the counter.

## Theorems

* `eat_earns`, `store_earns`: Meals and deposits.
* `invoke_earns`: A call adds to the stock what it stores, and starts a cycle if it sets one up.
-/

namespace Farmhand

namespace Produce

/-- What an actor carries of a produce. -/
def deposit (p : Produce) (e : Engine) (actor : String) : Nat :=
  ((e.world.actors.get? actor).bind fun a => a.inventory.get? p.counter).getD 0

/-- What a call may bring to the counter: what lies on the tile, or what the actor carries. -/
def income (p : Produce) (e : Engine) (actor tile name : String) : Int :=
  (if name = p.gatherer.name then
    ((e.world.tiles.get? tile).map fun t => max t.quantity 0).getD 0 else 0) +
  if name = TileFunction.store.name then (p.deposit e actor : Int) else 0

end Produce

namespace Engine

variable {e : Engine} {a : Actor} {t : Tile}

/-! ## Meals and deposits -/

/-- A meal adds nothing to the stock. -/
theorem eat_earns (h : Orderly e []) {timed : Bool} {r : Outcome × Engine}
    (hr : e.eat timed a t = r) (income : Produce → Int) :
    Earns e r.2 income (fun _ => 0) fun _ => 0 := by
  unfold eat at hr
  rw [start_eq] at hr
  by_cases hfree : (e.isFree (.actor a.id) && timed) = true
  · rw [if_pos hfree] at hr
    simp only at hr
    -- A meal has a label of its own, so its slot stands for no cycle.
    have hlabel : ∀ p : Produce, "eat" ≠ p.course.setupLabel := by
      intro p
      cases p <;> decide
    generalize htask : (⟨"eat", "Eating", some a.id, e.now, mealTime⟩ : Task) = task at hr
    have htasklabel : task.label = "eat" := by rw [← htask]
    have hstarted : Orderly (e.started (.actor a.id) task []) [] :=
      h.started task (.busy rfl fun p => htasklabel ▸ hlabel p) fun id hid => by
        simp only [reduceCtorEq] at hid
    have hstock : ∀ p : Produce, p.stock (e.started (.actor a.id) task []).world =
        p.stock e.world := by
      intro p
      rw [started_world, Produce.stock_withTask]
    have hengaged : ∀ p : Produce, p.engaged (e.started (.actor a.id) task []) ≤ p.engaged e := by
      intro p
      have hput := tally_putSlot_le p.engages e (.actor a.id) ⟨task, e.nextGeneration, false, []⟩
      rw [← started_slots, Produce.engages, if_neg (htasklabel ▸ hlabel p)] at hput
      exact hput
    generalize e.started (.actor a.id) task [] = e₁ at hr hstarted hstock hengaged
    -- The food may fail to arrive, which does not undo the start.
    cases hupdate : e₁.world.updateActor a.id { energy := some (.credit t.nutrition) } with
    | error error =>
        rw [hupdate] at hr
        rw [← hr]
        exact ⟨hstarted, fun p _ => (hstock p).trans (Int.add_zero _).symm, hengaged⟩
    | ok w =>
        rw [hupdate] at hr
        rw [← hr]
        rcases World.updateActor_eq_ok hupdate with ⟨htiles, hresources, hkeyed⟩
        refine ⟨hstarted.frame (hkeyed hstarted.keyed) htiles, fun p _ => ?_, hengaged⟩
        exact ((p.stock_congr htiles hresources).trans (hstock p)).trans (Int.add_zero _).symm
  · rw [if_neg hfree] at hr
    rw [← hr]
    exact earns_self h _ _

-- What an actor carries of one item is part of its load.
theorem le_load {item : String} {n : Nat} (h : a.inventory.get? item = some n) : n ≤ a.load := by
  -- The load is summed from the front, so the sum so far is part of the induction.
  have hle : ∀ (entries : List (String × Nat)) (c : Nat),
      c ≤ (entries.map Prod.snd).foldl (· + ·) c ∧
        ∀ n, Entries.get? item entries = some n →
          c + n ≤ (entries.map Prod.snd).foldl (· + ·) c := by
    intro entries
    induction entries with
    | nil => exact fun c => ⟨Nat.le_refl _, fun n hn => by simp [Entries.get?] at hn⟩
    | cons entry rest ih =>
        intro c
        rcases entry with ⟨k, m⟩
        simp only [List.map_cons, List.foldl_cons]
        rcases ih (c + m) with ⟨hstart, hitem⟩
        refine ⟨by omega, fun n hn => ?_⟩
        by_cases hk : k = item
        · simp only [Entries.get?, if_pos hk, Option.some.injEq] at hn
          omega
        · simp only [Entries.get?, if_neg hk] at hn
          have hrest := hitem n hn
          omega
  have hitem := (hle a.inventory.entries 0).2 n h
  rw [Nat.zero_add] at hitem
  exact hitem

-- The change that a deposit makes has each item with its count.
theorem get?_depositChange (inventory : Table Nat) (name : String) :
    (inventory.entries.foldl (fun (change : ResourceChange) (item, (count : Nat)) =>
      change.add item count) .empty).get? name = (inventory.get? name).map Int.ofNat := by
  have hread := Entries.read_foldl (fun (change : ResourceChange) name => change.get? name)
    (fun (change : ResourceChange) ((item, count) : String × Nat) => change.add item count)
    (fun old count => some (old.getD 0 + count))
    (fun change item count => Table.get?_insert_self change item _)
    (fun change item count other hother => Table.get?_insert_of_ne change item other _ hother)
    inventory.nodup_keys .empty name
  refine hread.trans ?_
  have hempty : (Table.empty : ResourceChange).get? name = none := rfl
  rw [hempty, Table.get?]
  cases Entries.get? name inventory.entries with
  | none => rfl
  | some n => simp

/-- Storing adds what the actor carries. -/
theorem store_earns (h : Orderly e []) {energy : Nat} {r : Outcome × Engine}
    (hr : e.store a energy = r) :
    Earns e r.2 (fun p => (((a.inventory.get? p.counter).getD 0 : Nat) : Int))
      (fun p => if r.1.isOk = true then (((a.inventory.get? p.counter).getD 0 : Nat) : Int) else 0)
      fun _ => 0 := by
  unfold store at hr
  by_cases hload : a.load = 0
  · -- Whoever carries nothing carries nothing of this.
    rw [if_pos hload] at hr
    have hnothing : ∀ p : Produce, (a.inventory.get? p.counter).getD 0 = 0 := by
      intro p
      cases hget : a.inventory.get? p.counter with
      | none => rfl
      | some n =>
          have hle := le_load hget
          simp only [Option.getD_some]
          omega
    rw [← hr]
    simp only [hnothing]
    refine ⟨h, fun p _ => ?_, fun p => Nat.le_refl _⟩
    simp
  rw [if_neg hload] at hr
  simp only at hr
  cases htransact : e.transact
      [.actor a.id { energy := some (.debit energy), inventory := some .empty },
       .resources (a.inventory.entries.foldl
        (fun (change : ResourceChange) (item, count) => change.add item count) .empty)] with
  | error error =>
      rw [htransact] at hr
      rw [← hr]
      exact earns_self h _ _
  | ok e₁ =>
      rw [htransact] at hr
      rw [← hr]
      rcases (transact_eq_ok_iff _ _ _).mp htransact with ⟨w₁, hw, rfl⟩
      rcases (World.transact_cons_eq_ok_iff _ _ _ _).mp hw with ⟨w₂, hactor, hrest⟩
      rcases (World.transact_cons_eq_ok_iff _ _ _ _).mp hrest with ⟨w₃, hchange, hnil⟩
      rw [(World.transact_nil_eq_ok_iff _ _).mp hnil] at hchange
      rcases World.updateActor_eq_ok hactor with ⟨htiles₂, hresources₂, hkeyed₂⟩
      rcases World.updateResources_eq_ok hchange with ⟨hactors₁, htiles₁, hcounters⟩
      have hkeyed₁ : w₁.Keyed :=
        ⟨hactors₁ ▸ (hkeyed₂ h.keyed).actors, htiles₁ ▸ (hkeyed₂ h.keyed).tiles⟩
      refine ⟨h.frame hkeyed₁ (htiles₁.trans htiles₂), fun p hroom => ?_, fun p => Nat.le_refl _⟩
      change p.stock w₁ = p.stock e.world + (((a.inventory.get? p.counter).getD 0 : Nat) : Int)
      have hcounted := p.stock_of_tiles (htiles₁.trans htiles₂)
      have hresource : w₂.resource p.counter = e.world.resource p.counter := by
        rw [World.resource, hresources₂]
        rfl
      rw [hcounters, hresource, get?_depositChange] at hcounted
      -- The counter moves only if the actor carries the produce.
      cases hget : a.inventory.get? p.counter with
      | none =>
          rw [hget, Option.map_none, Option.elim_none] at hcounted
          simp only [Option.getD_none]
          omega
      | some n =>
          rw [hget, Option.getD_some] at hroom
          rw [hget, Option.map_some, Option.elim_some, Int.ofNat_eq_natCast,
            World.counted_of_room (Int.natCast_nonneg n) hroom] at hcounted
          simp only [Option.getD_some]
          omega

/-! ## Calls -/

-- More may come in than is said, and fewer cycles may start.
theorem Earns.mono {e' : Engine} {income income' gain gain' : Produce → Int}
    {opened opened' : Produce → Nat} (h : Earns e e' income gain opened)
    (hincome : ∀ p, income p ≤ income' p) (hgain : ∀ p, gain p = gain' p)
    (hopened : ∀ p, opened p ≤ opened' p) : Earns e e' income' gain' opened' := by
  refine ⟨h.orderly, fun p hroom => ?_, fun p => ?_⟩
  · have hle := hincome p
    rw [← hgain p]
    exact h.stock p (by omega)
  · exact Nat.le_trans (h.engaged p) (Nat.add_le_add_left (hopened p) _)

-- A function adds to the stock what it stores, and starts a cycle if it sets one up.
theorem runFunction_earns (h : Orderly e []) (hget : e.world.tiles.get? t.id = some t)
    (hactor : e.slot? (.actor a.id) = none) (hslot : e.slot? (.tile t.id) = none)
    {f : TileFunction} (hkind : f.kind = t.kind) {timed : Bool} {r : Outcome × Engine}
    (hr : e.runFunction timed f a t = r) :
    Earns e r.2
      (fun p => (if f.name = p.gatherer.name then max t.quantity 0 else 0) +
        if f.name = TileFunction.store.name then
          (((a.inventory.get? p.counter).getD 0 : Nat) : Int) else 0)
      (fun p => if f.name = TileFunction.store.name ∧ r.1.isOk = true then
        (((a.inventory.get? p.counter).getD 0 : Nat) : Int) else 0)
      fun p => if f.name = p.opener.name ∧ r.1.isOk = true then 1 else 0 := by
  -- What the functions are allowed to take in and to open, by their names.
  have hincome : ∀ p : Produce, (0 : Int) ≤
      (if f.name = p.gatherer.name then max t.quantity 0 else 0) +
        if f.name = TileFunction.store.name then
          (((a.inventory.get? p.counter).getD 0 : Nat) : Int) else 0 := by
    intro p
    split <;> split <;> omega
  have hgain : f.name ≠ TileFunction.store.name → ∀ p : Produce, (0 : Int) =
      if f.name = TileFunction.store.name ∧ r.1.isOk = true then
        (((a.inventory.get? p.counter).getD 0 : Nat) : Int) else 0 :=
    fun hname p => (if_neg fun hstore => hname hstore.1).symm
  have hcycle : ∀ q : Produce, f = q.opener → ∀ p : Produce,
      (if p = q ∧ r.1.isOk = true then 1 else 0) ≤
        if f.name = p.opener.name ∧ r.1.isOk = true then 1 else 0 := by
    intro q hf p
    by_cases hp : p = q ∧ r.1.isOk = true
    · exact Nat.le_of_eq (by rw [if_pos hp, if_pos ⟨by rw [hf, hp.1], hp.2⟩])
    · rw [if_neg hp]
      exact Nat.zero_le _
  have hgather : ∀ q : Produce, f = q.gatherer → f.name ≠ TileFunction.store.name →
      ∀ p : Produce, (if p = q then max t.quantity 0 else 0) ≤
        (if f.name = p.gatherer.name then max t.quantity 0 else 0) +
          if f.name = TileFunction.store.name then
            (((a.inventory.get? p.counter).getD 0 : Nat) : Int) else 0 := by
    intro q hf hname p
    by_cases hp : p = q
    · rw [if_pos hp, if_pos (by rw [hf, hp]), if_neg hname]
      omega
    · rw [if_neg hp]
      exact hincome p
  -- Every function is one of the three kinds of step.
  cases f with
  | plant =>
      exact (startProduction_earns (p := .wheat) h hget hactor hslot hkind.symm hr fun _ => 0).mono
        hincome (hgain (by decide)) (hcycle .wheat rfl)
  | harvest =>
      exact (collectOutput_earns (p := .wheat) h hget hslot hkind.symm hr).mono
        (hgather .wheat rfl (by decide)) (hgain (by decide)) fun _ => Nat.zero_le _
  | mineInitiate =>
      exact (startProduction_earns (p := .ore) h hget hactor hslot hkind.symm hr fun _ => 0).mono
        hincome (hgain (by decide)) (hcycle .ore rfl)
  | collect =>
      exact (collectOutput_earns (p := .ore) h hget hslot hkind.symm hr).mono
        (hgather .ore rfl (by decide)) (hgain (by decide)) fun _ => Nat.zero_le _
  | eat =>
      exact (eat_earns h hr fun _ => 0).mono hincome (hgain (by decide)) fun _ => Nat.zero_le _
  | store =>
      refine (store_earns h hr).mono (fun p => ?_) (fun p => ?_) fun _ => Nat.zero_le _
      · rw [if_pos rfl]
        split <;> omega
      · by_cases hok : r.1.isOk = true
        · rw [if_pos hok, if_pos ⟨rfl, hok⟩]
        · rw [if_neg hok, if_neg fun hstore => hok hstore.2]

-- The function that a tile offers has the name it was asked for by, and is made for the tile.
theorem function?_eq_some {name : String} {f : TileFunction} (h : t.function? name = some f) :
    f.name = name ∧ f.kind = t.kind := by
  unfold Tile.function? at h
  split at h
  · rcases Option.filter_eq_some_iff.mp h with ⟨hname, hkind⟩
    exact ⟨by simpa using List.find?_some hname, by simpa using hkind⟩
  · simp only [reduceCtorEq] at h

-- When nothing stands in the way, neither the actor nor the tile has a slot.
theorem slot?_of_obstacle?_eq_none {f : TileFunction} (h : e.obstacle? f a t = none) :
    e.slot? (.actor a.id) = none ∧ e.slot? (.tile t.id) = none := by
  unfold obstacle? at h
  split at h
  · simp only [reduceCtorEq] at h
  · split at h
    · simp only [reduceCtorEq] at h
    · next hactor =>
      split at h
      · simp only [reduceCtorEq] at h
      · next htile => exact ⟨Option.map_eq_none_iff.mp hactor, Option.map_eq_none_iff.mp htile⟩

/-- A call adds to the stock what it stores, and starts a cycle if it sets one up. -/
theorem invoke_earns (h : Orderly e []) {timed : Bool} {actor tile name : String}
    {r : Outcome × Engine} (hr : e.invoke timed actor tile name = r) :
    Earns e r.2 (fun p => p.income e actor tile name)
      (fun p => if name = TileFunction.store.name ∧ r.1.isOk = true then
        (p.deposit e actor : Int) else 0)
      fun p => if name = p.opener.name ∧ r.1.isOk = true then 1 else 0 := by
  -- A call that fails on its way leaves the engine as it is.
  have hfailed : ∀ failure : Failure, (Except.error failure, e) = r →
      Earns e r.2 (fun p => p.income e actor tile name)
        (fun p => if name = TileFunction.store.name ∧ r.1.isOk = true then
          (p.deposit e actor : Int) else 0)
        fun p => if name = p.opener.name ∧ r.1.isOk = true then 1 else 0 := by
    intro failure hfail
    rw [← hfail]
    simpa [Except.isOk, Except.toBool] using earns_self h _ fun _ => 0
  unfold invoke at hr
  cases hactor : e.world.actor actor with
  | error error =>
      rw [hactor] at hr
      exact hfailed _ hr
  | ok a =>
      cases htile : e.world.tile tile with
      | error error =>
          rw [hactor, htile] at hr
          exact hfailed _ hr
      | ok t =>
          rw [hactor, htile] at hr
          simp only at hr
          rw [World.actor_eq_ok_iff] at hactor
          rw [World.tile_eq_ok_iff] at htile
          cases hf : t.function? name with
          | none =>
              rw [hf] at hr
              exact hfailed _ hr
          | some f =>
              rw [hf] at hr
              simp only at hr
              cases hobstacle : e.obstacle? f a t with
              | some failure =>
                  rw [hobstacle] at hr
                  exact hfailed _ hr
              | none =>
                  rw [hobstacle] at hr
                  simp only at hr
                  rcases function?_eq_some hf with ⟨hname, hkind⟩
                  rcases slot?_of_obstacle?_eq_none hobstacle with ⟨hafree, htfree⟩
                  have hget : e.world.tiles.get? t.id = some t :=
                    (h.keyed.tiles tile t htile).symm ▸ htile
                  have hdeposit : ∀ p : Produce,
                      p.deposit e actor = (a.inventory.get? p.counter).getD 0 := by
                    intro p
                    rw [Produce.deposit, hactor]
                    rfl
                  have hearns := runFunction_earns h hget hafree htfree hkind hr
                  rw [hname] at hearns
                  simpa only [Produce.income, htile, hdeposit, Option.map_some, Option.getD_some]
                    using hearns

end Engine

end Farmhand
