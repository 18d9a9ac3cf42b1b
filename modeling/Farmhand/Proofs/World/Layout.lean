import Mathlib.Data.List.Nodup
import Farmhand.Proofs.World.Update
import Farmhand.World.File

/-!
# What a World File Lays Out

A world keeps its tiles twice: by their ids, and the ids by their positions. A file fills both,
entry by entry, and what it checks on the way is that no position is taken twice. It does not check
the ids, and a write under an id that is there replaces what was there. So the ids decide how much
of a file the world keeps. Every tile can be found at its position, whatever the file says. But of
the entries that share an id only the last one is kept, and the position of a tile that was replaced
still leads to the tile that came in its place, which stands elsewhere.

## Main definitions

* `World.Charted`: Every position in use leads to some tile, and none is listed twice.
* `World.LaidOut`: The world has what the file lists, and positions and tiles belong together.

## Theorems

* `World.tileAt?_eq_some_iff`: What is found at a position.
* `World.addTiles_eq_ok`: What accepted entries write.
* `WorldFile.build_eq_ok`: The world of an accepted file.
* `WorldFile.laidOut_iff`: What of a file is kept, and when all of it is.
-/

namespace Farmhand

/-- The actor of an entry under its id. -/
def ActorEntry.filed (entry : ActorEntry) : String × Actor :=
  (entry.id, entry.toActor)

/-- The tile of an entry under its id. -/
def TileEntry.filed (entry : TileEntry) : String × Tile :=
  (entry.id, entry.toTile)

/-- The id of the tile of an entry, by its position. -/
def TileEntry.place (entry : TileEntry) : Position × String :=
  (entry.position, entry.id)

namespace World

/-- Every position in use leads to some tile, and none is listed twice. -/
structure Charted (w : World) : Prop where
  housed : ∀ place ∈ w.places, ∃ t, w.tiles.get? place.2 = some t
  distinct : (w.places.map Prod.fst).Nodup

/-- The world has exactly one actor and one tile for each entry of the file, under its id; every
    tile is found at its position, and what is found at a position stands there. -/
structure LaidOut (w : World) (file : WorldFile) : Prop where
  actors : w.actors.entries = file.actors.map ActorEntry.filed
  tiles : w.tiles.entries = file.tiles.map TileEntry.filed
  found : ∀ id t, w.tiles.get? id = some t → w.tileAt? t.position = some t
  stands : ∀ p t, w.tileAt? p = some t → t.position = p

variable {w w' : World}

/-- What is found at a position is the tile of the id that the position is listed with. -/
theorem tileAt?_eq_some_iff (h : w.Charted) (p : Position) (t : Tile) :
    w.tileAt? p = some t ↔ ∃ id, (p, id) ∈ w.places ∧ w.tiles.get? id = some t := by
  unfold tileAt?
  cases hfind : w.places.find? fun place => place.1 = p with
  | none =>
      have hnone : ∀ id, (p, id) ∉ w.places := fun id hmem =>
        absurd (List.find?_eq_none.mp hfind (p, id) hmem) (by simp only [decide_true,
          not_true_eq_false, not_false_eq_true])
      simp only [reduceCtorEq, hnone, false_and, exists_false]
  | some place =>
      rcases place with ⟨q, id⟩
      have hq : q = p := by simpa only [decide_eq_true_eq] using List.find?_some hfind
      have hmem : (p, id) ∈ w.places := hq ▸ List.mem_of_find?_eq_some hfind
      constructor
      · exact fun ht => ⟨id, hmem, ht⟩
      · rintro ⟨other, hother, ht⟩
        have hsame : (p, id) = (p, other) :=
          List.inj_on_of_nodup_map h.distinct hmem hother rfl
        rw [Prod.mk.injEq] at hsame
        rw [← hsame.2] at ht
        exact ht

/-- Nothing is found exactly at the positions that are not listed. -/
theorem tileAt?_eq_none_iff (h : w.Charted) (p : Position) :
    w.tileAt? p = none ↔ p ∉ w.places.map Prod.fst := by
  rw [Option.eq_none_iff_forall_ne_some]
  constructor
  · intro hnone hmem
    rcases List.mem_map.mp hmem with ⟨⟨q, id⟩, hplace, rfl⟩
    rcases h.housed _ hplace with ⟨t, ht⟩
    exact hnone t ((tileAt?_eq_some_iff h _ t).mpr ⟨id, hplace, ht⟩)
  · intro hmem t ht
    rcases (tileAt?_eq_some_iff h p t).mp ht with ⟨id, hplace, _⟩
    exact hmem (List.mem_map_of_mem hplace)

theorem charted_empty (bounds : Bounds) : (empty bounds).Charted :=
  ⟨fun _ hplace => absurd hplace List.not_mem_nil, List.nodup_nil⟩

-- A tile on a free position. One that takes the id of another leaves the places of both listed.
theorem Charted.insertTile (h : w.Charted) {t : Tile} (hfree : w.tileAt? t.position = none) :
    (w.insertTile t).Charted := by
  refine ⟨fun place hplace => ?_, ?_⟩
  · have hread : (w.insertTile t).tiles.get? place.2 = (w.tiles.insert t.id t).get? place.2 := rfl
    rw [hread]
    by_cases hid : place.2 = t.id
    · exact ⟨t, by rw [hid, Table.get?_insert_self]⟩
    · rw [Table.get?_insert_of_ne _ _ _ _ hid]
      rcases List.mem_cons.mp hplace with rfl | hold
      · exact absurd rfl hid
      · exact h.housed place hold
  · exact List.nodup_cons.mpr ⟨(tileAt?_eq_none_iff h _).mp hfree, h.distinct⟩

/-! ## Entries -/

/-- Accepted actors are written under their ids, one after the other. -/
theorem addActors_eq_ok {entries : List ActorEntry} (h : w.addActors entries = .ok w') :
    w' = { w with actors := w.actors.insertAll (entries.map ActorEntry.filed) } := by
  induction entries generalizing w with
  | nil => exact (Except.ok.inj h).symm
  | cons entry rest ih =>
      unfold addActors addActor at h
      split at h
      · simp only [reduceCtorEq] at h
      · next v hv =>
        split at hv
        · rw [ih h, ← Except.ok.inj hv]
          rfl
        · simp only [reduceCtorEq] at hv

/-- Accepted tiles are written under their ids, one after the other, and their positions are
    listed: free ones, so none comes to be listed twice. -/
theorem addTiles_eq_ok (hcharted : w.Charted) {entries : List TileEntry}
    (h : w.addTiles entries = .ok w') :
    w' = { w with
      tiles := w.tiles.insertAll (entries.map TileEntry.filed)
      places := (entries.map TileEntry.place).reverse ++ w.places } ∧ w'.Charted := by
  induction entries generalizing w with
  | nil =>
      rw [← Except.ok.inj h]
      exact ⟨rfl, hcharted⟩
  | cons entry rest ih =>
      unfold addTiles addTile at h
      split at h
      · simp only [reduceCtorEq] at h
      · next v hv =>
        split at hv
        · split at hv
          · simp only [reduceCtorEq] at hv
          · next hfree =>
            rcases ih (Except.ok.inj hv ▸ hcharted.insertTile hfree) h with ⟨hrest, hcharted'⟩
            refine ⟨?_, hcharted'⟩
            rw [hrest, ← Except.ok.inj hv, List.map_cons, List.map_cons, List.reverse_cons,
              List.append_assoc]
            rfl
        · simp only [reduceCtorEq] at hv

-- The counters of a file are all it writes last.
theorem insertResources_eq (w : World) (entries : List (String × Nat)) :
    ∃ resources, entries.foldl (fun w (name, (amount : Nat)) => w.insertResource name amount) w =
      { w with resources } := by
  induction entries generalizing w with
  | nil => exact ⟨w.resources, rfl⟩
  | cons entry rest ih =>
      rcases ih (w.insertResource entry.1 entry.2) with ⟨resources, hrest⟩
      exact ⟨resources, hrest⟩

end World

namespace WorldFile

variable {file : WorldFile} {w : World}

-- A file is accepted if its actors are, and then its tiles.
theorem exists_of_build_eq_ok (h : file.build = .ok w) :
    ∃ peopled laid, (World.empty file.bounds).addActors file.actors = .ok peopled ∧
      peopled.addTiles file.tiles = .ok laid ∧
      w = file.resources.entries.foldl (fun w (name, amount) => w.insertResource name amount)
        laid := by
  unfold build at h
  split at h
  · simp only [reduceCtorEq] at h
  · split at h
    · simp only [reduceCtorEq] at h
    · next peopled hpeopled =>
      cases htiles : peopled.addTiles file.tiles with
      | error error => simp only [htiles, Except.map, reduceCtorEq] at h
      | ok laid =>
          simp only [htiles, Except.map, Except.ok.injEq] at h
          exact ⟨peopled, laid, hpeopled, htiles, h.symm⟩

/-- The world of an accepted file: the actors and tiles of its entries, written one after the other,
    and the positions of its tiles, which are all different. -/
theorem build_eq_ok (h : file.build = .ok w) :
    w.actors = Table.ofList (file.actors.map ActorEntry.filed) ∧
      w.tiles = Table.ofList (file.tiles.map TileEntry.filed) ∧
      w.places = (file.tiles.map TileEntry.place).reverse ∧ w.Charted := by
  rcases exists_of_build_eq_ok h with ⟨peopled, laid, hpeopled, htiles, rfl⟩
  rcases World.insertResources_eq laid file.resources.entries with ⟨resources, hresources⟩
  have hpeople := World.addActors_eq_ok hpeopled
  have hcharted : peopled.Charted := by
    rw [hpeople]
    exact ⟨(World.charted_empty file.bounds).housed, (World.charted_empty file.bounds).distinct⟩
  rcases World.addTiles_eq_ok hcharted htiles with ⟨hlaid, hlaidCharted⟩
  rw [hresources]
  refine ⟨?_, ?_, ?_, hlaidCharted.housed, hlaidCharted.distinct⟩
  · rw [hlaid, hpeople]
    rfl
  · rw [hlaid, hpeople]
    rfl
  · rw [hlaid, hpeople]
    exact List.append_nil _

-- The positions of a file that was accepted are all different.
theorem nodup_positions (h : file.build = .ok w) : (file.tiles.map TileEntry.position).Nodup := by
  rcases build_eq_ok h with ⟨_, _, hplaces, hcharted⟩
  have hdistinct := hcharted.distinct
  rw [hplaces, List.map_reverse, List.nodup_reverse, List.map_map] at hdistinct
  exact hdistinct

/-- What is found at a position of the world of a file: the tile under the id of the entry that the
    file has there. -/
theorem tileAt?_eq_some_iff (h : file.build = .ok w) (p : Position) (t : Tile) :
    w.tileAt? p = some t ↔
      ∃ entry ∈ file.tiles, entry.position = p ∧ w.tiles.get? entry.id = some t := by
  rcases build_eq_ok h with ⟨_, _, hplaces, hcharted⟩
  rw [World.tileAt?_eq_some_iff hcharted, hplaces]
  constructor
  · rintro ⟨id, hmem, ht⟩
    rcases List.mem_map.mp (List.mem_reverse.mp hmem) with ⟨entry, hentry, hplace⟩
    simp only [TileEntry.place, Prod.mk.injEq] at hplace
    exact ⟨entry, hentry, hplace.1, hplace.2 ▸ ht⟩
  · rintro ⟨entry, hentry, rfl, ht⟩
    exact ⟨entry.id, List.mem_reverse.mpr (List.mem_map_of_mem hentry), ht⟩

-- Under an id of the file there is a tile, and it is that of an entry with this id.
theorem exists_entry (h : file.build = .ok w) {id : String} {t : Tile}
    (ht : w.tiles.get? id = some t) : ∃ entry ∈ file.tiles, entry.id = id ∧ entry.toTile = t := by
  rw [(build_eq_ok h).2.1] at ht
  rcases Table.get?_insertAll_of_eq_some ht with hmem | hempty
  · rcases List.mem_map.mp hmem with ⟨entry, hentry, hfiled⟩
    simp only [TileEntry.filed, Prod.mk.injEq] at hfiled
    exact ⟨entry, hentry, hfiled⟩
  · simp only [Table.get?, Table.empty, Entries.get?, reduceCtorEq] at hempty

theorem exists_tile (h : file.build = .ok w) {entry : TileEntry} (hentry : entry ∈ file.tiles) :
    ∃ t, w.tiles.get? entry.id = some t := by
  rw [(build_eq_ok h).2.1, ← Option.isSome_iff_exists, ← Option.ne_none_iff_isSome, Ne,
    Table.ofList, Table.get?_insertAll_eq_none_iff]
  rintro ⟨hmissing, _⟩
  exact hmissing (List.mem_map.mpr ⟨entry.filed, List.mem_map_of_mem hentry, rfl⟩)

/-- Every tile is found at its position, whatever the ids. -/
theorem tileAt?_position (h : file.build = .ok w) {id : String} {t : Tile}
    (ht : w.tiles.get? id = some t) : w.tileAt? t.position = some t := by
  rcases exists_entry h ht with ⟨entry, hentry, rfl, rfl⟩
  exact (tileAt?_eq_some_iff h _ _).mpr ⟨entry, hentry, rfl, ht⟩

/-- What is found at a position stands there exactly when no id is given to two tiles: the first of
    the two has a position of its own, and what is found there is the second. -/
theorem stands_iff (h : file.build = .ok w) :
    (∀ p t, w.tileAt? p = some t → t.position = p) ↔ (file.tiles.map TileEntry.id).Nodup := by
  constructor
  · intro hstands
    have hpositions := nodup_positions h
    rw [List.Nodup, List.pairwise_map] at hpositions ⊢
    refine hpositions.imp_of_mem fun {first second} hfirst hsecond hne hid => hne ?_
    rcases exists_tile h hfirst with ⟨t, ht⟩
    have hthere := hstands _ _ ((tileAt?_eq_some_iff h _ t).mpr ⟨first, hfirst, rfl, ht⟩)
    have helsewhere :=
      hstands _ _ ((tileAt?_eq_some_iff h _ t).mpr ⟨second, hsecond, rfl, hid ▸ ht⟩)
    exact hthere.symm.trans helsewhere
  · intro hids p t hp
    rcases (tileAt?_eq_some_iff h p t).mp hp with ⟨entry, hentry, rfl, ht⟩
    rcases exists_entry h ht with ⟨other, hother, hid, rfl⟩
    rw [List.inj_on_of_nodup_map hids hother hentry hid]
    rfl

/-- What of an accepted file its world keeps. Every tile is found at its position. There is one
    actor for each entry exactly when the ids of the actors are different, and one tile for each
    entry exactly when the ids of the tiles are, and this is also when all that is found at a
    position stands there. -/
theorem laidOut_iff (h : file.build = .ok w) :
    (∀ id t, w.tiles.get? id = some t → w.tileAt? t.position = some t) ∧
      (w.actors.entries = file.actors.map ActorEntry.filed ↔
        (file.actors.map ActorEntry.id).Nodup) ∧
      (w.tiles.entries = file.tiles.map TileEntry.filed ↔
        (file.tiles.map TileEntry.id).Nodup) ∧
      ((∀ p t, w.tileAt? p = some t → t.position = p) ↔
        (file.tiles.map TileEntry.id).Nodup) ∧
      (w.LaidOut file ↔
        (file.actors.map ActorEntry.id).Nodup ∧ (file.tiles.map TileEntry.id).Nodup) := by
  rcases build_eq_ok h with ⟨hactors, htiles, _, _⟩
  have hfound : ∀ id t, w.tiles.get? id = some t → w.tileAt? t.position = some t :=
    fun _ _ => tileAt?_position h
  have hkeptActors : w.actors.entries = file.actors.map ActorEntry.filed ↔
      (file.actors.map ActorEntry.id).Nodup := by
    rw [hactors, Table.entries_ofList_iff, List.map_map]
    exact Iff.rfl
  have hkeptTiles : w.tiles.entries = file.tiles.map TileEntry.filed ↔
      (file.tiles.map TileEntry.id).Nodup := by
    rw [htiles, Table.entries_ofList_iff, List.map_map]
    exact Iff.rfl
  have hstands := stands_iff h
  refine ⟨hfound, hkeptActors, hkeptTiles, hstands, ?_⟩
  constructor
  · exact fun hlaid => ⟨hkeptActors.mp hlaid.actors, hkeptTiles.mp hlaid.tiles⟩
  · rintro ⟨hactorIds, htileIds⟩
    exact ⟨hkeptActors.mpr hactorIds, hkeptTiles.mpr htileIds, hfound, hstands.mpr htileIds⟩

/-- A file with two actors and two tiles, side by side, under ids of their own. -/
def pair (first second : String) : WorldFile where
  bounds := ⟨2, 1⟩
  actors := [⟨first, .primary, ⟨0, 0⟩, none, none, none, .empty⟩,
    ⟨second, .drone, ⟨1, 0⟩, none, none, none, .empty⟩]
  tiles := [⟨first, .food, ⟨0, 0⟩, none, .empty⟩, ⟨second, .storage, ⟨1, 0⟩, none, .empty⟩]
  resources := .empty

/-- With two ids everything is kept. -/
theorem laidOut_iff_pair :
    ∃ w, (pair "east" "west").build = .ok w ∧ w.LaidOut (pair "east" "west") :=
  ⟨_, rfl, (laidOut_iff rfl).2.2.2.2.mpr (by decide)⟩

/-- With one id for both, the second actor and the second tile are all that is left, and what is
    found at the position of the first tile stands beside it. -/
theorem not_laidOut : ¬ ∀ (file : WorldFile) (w : World), file.build = .ok w → w.LaidOut file := by
  intro h
  have hlaid := h (pair "east" "east") _ rfl
  have hthere := hlaid.stands ⟨0, 0⟩ _ rfl
  exact absurd hthere (by decide)

end WorldFile

end Farmhand
