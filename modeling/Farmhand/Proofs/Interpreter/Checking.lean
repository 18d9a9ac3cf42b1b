import Mathlib
import Farmhand.Command.Perform
import Farmhand.Proofs.Interpreter.Missing
import Farmhand.Proofs.Machine.Ending
import Farmhand.Proofs.Script.Origins
import Farmhand.Proofs.Table

/-!
# What a Check Is Worth

A check reads a script and a run calls what is in it, and the two must agree on what there is to
call. The check does not know where the actor will stand, so it takes the function of every tile for
known; that aside, a name that a run does not find is one that the check has shown, in whatever
branch, loop, argument or subroutine the call stands, and through whatever calls the run got there.

The words by which a run says so are not reserved. A tile that does not offer a function is named in
the failure, and what the tile is called is up to the world; so these words can also be the
beginning of such a name.

## Main definitions

* `Check.Shows`: A name that a check shows, or a function of some tile.

## Theorems

* `Check.naming_of_warningsOf`: All names in a script are known or shown by its check.
* `Failure.of_notFound`: Which failures say that a function was not found.
* `Check.covers_runs`: What a run does not find was shown by the check.
* `Check.not_covers_runs`: A tile can be named like the failure of a call.
-/

namespace Farmhand

open Script

namespace Check

/-- A name that is among some warnings, or that a function of some tile has. -/
def Shows (warnings : List Warning) (name : String) : Prop :=
  (∃ line, .unknown line name ∈ warnings) ∨ (TileFunction.ofName? name).isSome = true

-- A call in a section is of something known, or there is a warning about it.
theorem known_of_mem_calls {sections : Table String} {p : Parsed} {called : String}
    (hcalled : called ∈ (Stmt.callsOfBlock p.body).map Prod.snd) :
    Step.Known sections (Shows (sectionWarnings sections p)) called := by
  rcases List.mem_map.mp hcalled with ⟨⟨line, name⟩, hmem, rfl⟩
  by_cases hanswerable : isAnswerable sections name = true
  · unfold isAnswerable at hanswerable
    rcases Bool.or_eq_true_iff.mp hanswerable with hbuiltin | hsection
    · rcases Bool.or_eq_true_iff.mp hbuiltin with hcapability | htile
      · exact .inl hcapability
      · exact .inr (.inr (.inr htile))
    · exact .inr (.inl hsection)
  · refine .inr (.inr (.inl ⟨line, List.mem_append_right _ ?_⟩))
    have hunanswered : (line, name) ∈ p.calls.filter fun call => !isAnswerable sections call.2 :=
      List.mem_filter.mpr ⟨hmem, by rw [Bool.eq_false_iff.mpr hanswerable]; rfl⟩
    exact List.mem_map_of_mem hunanswered

-- The subroutines of some sections, which can be compiled if the check of them comes to an end.
theorem compileAll_of_warningsOf {sections : Table String} {entries : List (String × String)}
    (h : (warningsOf sections entries).2 = none) :
    ∃ subroutines, Interpreter.compileAll entries = .ok subroutines ∧
      subroutines.map Prod.fst = entries.map Prod.fst ∧
      ∀ entry ∈ subroutines, ∃ p : Parsed, entry.2.body = p.body ∧
        ∀ w ∈ sectionWarnings sections p, w ∈ (warningsOf sections entries).1 := by
  induction entries with
  | nil => exact ⟨[], rfl, rfl, fun _ hentry => absurd hentry List.not_mem_nil⟩
  | cons entry rest ih =>
      rcases entry with ⟨name, source⟩
      unfold warningsOf at h ⊢
      unfold Interpreter.compileAll
      cases hcompile : Script.compile source with
      | error error => simp only [hcompile, reduceCtorEq] at h
      | ok parsed =>
          simp only [hcompile] at h ⊢
          rcases ih h with ⟨subroutines, hsubroutines, hnames, hall⟩
          refine ⟨(name, ⟨parsed.body, .ofString source⟩) :: subroutines, ?_, ?_, ?_⟩
          · rw [hsubroutines]
            rfl
          · rw [List.map_cons, List.map_cons, hnames]
          · intro other hother
            rcases List.mem_cons.mp hother with rfl | hrest
            · exact ⟨parsed, rfl, fun w hw => List.mem_append_left _ hw⟩
            · rcases hall other hrest with ⟨p, hbody, hshown⟩
              exact ⟨p, hbody, fun w hw => List.mem_append_right _ (hshown w hw)⟩

/-- All names in the subroutines of some sections are known, or shown by the check of them. -/
theorem naming_of_warningsOf {sections : Table String}
    (h : (warningsOf sections sections.entries).2 = none) :
    ∃ subroutines, Interpreter.compileAll sections.entries = .ok subroutines ∧
      Step.Naming (.ofList subroutines) (Shows (warningsOf sections sections.entries).1) := by
  rcases compileAll_of_warningsOf h with ⟨subroutines, hcompiled, hnames, hall⟩
  refine ⟨subroutines, hcompiled, fun name s hs called hcalled => ?_⟩
  have hnodup : (subroutines.map Prod.fst).Nodup := hnames ▸ sections.nodup_keys
  have hentries := Table.entries_ofList subroutines hnodup
  have hmem : (name, s) ∈ subroutines := hentries ▸ Entries.mem_of_get? hs
  rcases hall (name, s) hmem with ⟨p, hbody, hshown⟩
  rw [hbody] at hcalled
  have hknown : Step.Known sections (Shows (sectionWarnings sections p)) called :=
    known_of_mem_calls hcalled
  rcases hknown with hfound | hfound | hshows
  · exact .inl hfound
  · -- The sections and the subroutines have the same names.
    refine .inr (.inl ?_)
    rw [Table.contains_eq_true_iff] at hfound ⊢
    rw [Table.keys, hentries, hnames]
    exact hfound
  · rcases hshows with ⟨line, hline⟩ | htile
    · exact .inr (.inr (.inl ⟨line, hshown _ hline⟩))
    · exact .inr (.inr (.inr htile))

/-- A check that comes to an end says of a file that it can be loaded, and shows its names. -/
theorem load_of_check {source : String} (h : (check source).error = none) (i : Interpreter) :
    ∃ j, i.load source = .ok j ∧ Step.Naming j.subroutines (Shows (check source).warnings) := by
  unfold check at h ⊢
  unfold Interpreter.load
  cases hsections : Script.sections source with
  | error error => simp only [hsections, reduceCtorEq] at h
  | ok sections =>
      simp only [hsections] at h ⊢
      rcases naming_of_warningsOf h with ⟨subroutines, hcompiled, hnaming⟩
      refine ⟨{ i with subroutines := .ofList subroutines }, ?_, hnaming⟩
      unfold Interpreter.setSubroutines
      rw [hcompiled]
      rfl

end Check

/-! ## What failures say -/

namespace Failure

-- What a tile's failure says behind its name, `has no function`, is no part of the words for a name
-- that was not found. So these words are there only if the name of the tile begins with them.
theorem prefix_of_hasNo {tile rest x : String}
    (h : tile ++ (" has no function " ++ rest) = "function not found:" ++ (" " ++ x)) :
    "function not found:".toList <+: tile.toList := by
  have hlists := congrArg String.toList h
  simp only [String.toList_append] at hlists
  rcases List.append_eq_append_iff.mp hlists with ⟨a, hwords, hrest⟩ | ⟨c, htile, _⟩
  · cases a with
    | nil =>
        rw [List.append_nil] at hwords
        exact hwords ▸ List.prefix_rfl
    | cons first others =>
        -- A part of the words that is left behind the text would have to begin as the rest does.
        have hdrop : first :: others = "function not found:".toList.drop tile.toList.length := by
          rw [hwords, List.drop_left]
        have hlt : tile.toList.length < 19 := by
          have hlength := congrArg List.length hwords
          rw [List.length_append, List.length_cons] at hlength
          have hwhole : "function not found:".toList.length = 19 := by decide
          omega
        have hleft : (" has no function ".toList ++ rest.toList).take 2 = [' ', 'h'] := by
          rw [List.take_append_of_le_length (by decide)]
          decide
        have hright : ((first :: others) ++ (" ".toList ++ x.toList)).take 2 =
            ((first :: others) ++ [' ']).take 2 := by
          rw [← List.append_assoc, List.take_append_of_le_length]
          · rfl
          · rw [List.length_append, List.length_cons]
            exact Nat.le_add_left _ _
        rw [hrest, hright] at hleft
        have hnone : ∀ n < 19, ("function not found:".toList.drop n ++ [' ']).take 2 ≠
            [' ', 'h'] := by decide
        exact absurd (hdrop ▸ hleft) (hnone _ hlt)
  · exact ⟨c, htile.symm⟩

/-- A failure that says that a function was not found is that of a call by this name, or that of a
    tile whose name begins with these words. -/
theorem of_notFound {f : Failure} {x : String} (hkind : f.kind = .notFound)
    (hmessage : f.message = "function not found: " ++ x) :
    f = .functionNotFound x ∨ ∃ tile function, f = .noSuchFunction tile function ∧
      "function not found:".toList <+: tile.toList := by
  cases f with
  | noEntryScript =>
      have hprefix : "function not found: ".toList <+: "no entry script".toList :=
        ⟨x.toList, by rw [← String.toList_append, ← hmessage]; rfl⟩
      exact absurd hprefix (by decide)
  | functionNotFound name =>
      have hlists := congrArg String.toList
        (show "function not found: " ++ name = "function not found: " ++ x from hmessage)
      rw [String.toList_append, String.toList_append] at hlists
      exact .inl (congrArg _ (String.toList_inj.mp (List.append_cancel_left hlists)))
  | noSuchFunction tile function =>
      have happended : tile ++ (" has no function " ++ function) =
          "function not found:" ++ (" " ++ x) := by
        rw [← String.append_assoc, ← String.append_assoc]
        exact hmessage
      exact .inr ⟨tile, function, rfl, prefix_of_hasNo happended⟩
  | interrupted target whileRunning => cases whileRunning <;> exact absurd hkind nofun
  | _ => exact absurd hkind nofun

end Failure

/-! ## Runs after a check -/

theorem Process.Yields.through {α : Type} {Q : α → Prop} {p : Process α} (h : p.Yields Q)
    (meanwhile : Nat → Nat → Engine → Engine) (waits : Nat) : Q (p.through meanwhile waits).1 := by
  induction p generalizing waits with
  | done a e => exact h
  | wait time e resume ih => exact ih _ (h _) (waits + 1)

namespace Check

open Command

/-- The command shows the warnings of a check that comes to an end, each on a line. -/
theorem checkScript_eq {source : String} (herror : (check source).error = none) {files : Files}
    {path : String} (hread : files path = .ok source) :
    ∃ lines, checkScript files path = .success lines ∧
      ∀ w ∈ (check source).warnings, warningLine path w ∈ lines := by
  have hsource : readScript files path = .ok source := by
    unfold readScript
    rw [hread]
  unfold checkScript
  simp only [hsource, herror]
  split
  · next hempty =>
    have hwarnings : (check source).warnings = [] :=
      List.map_eq_nil_iff.mp (List.isEmpty_iff.mp hempty)
    exact ⟨_, rfl, fun w hw => absurd (hwarnings ▸ hw) List.not_mem_nil⟩
  · exact ⟨_, rfl, fun w hw => List.mem_append_left _ (List.mem_map_of_mem hw)⟩

/-- What a run does not find was shown by the check. If the check of a file comes to an end, the
    command shows all warnings and the file can be loaded. Whatever the interpreter, its actor and
    the world are then, and whatever others do in the waits: if the run fails by saying that a
    function was not found, there is a warning that says the same of this name, or some function of
    tiles has the name, or a tile does not offer a function and is itself named by these words. -/
theorem covers_runs {source : String} (hcheck : (check source).error = none) (i : Interpreter) :
    (∀ (files : Files) (path : String), files path = .ok source →
      ∃ lines, checkScript files path = .success lines ∧
        ∀ w ∈ (check source).warnings, warningLine path w ∈ lines) ∧
    ∃ j, i.load source = .ok j ∧
      ∀ (e : Engine) (meanwhile : Nat → Nat → Engine → Engine) (f : Failure) (x : String),
        ((runMain j e).through meanwhile 0).1.1 = .error f → f.kind = .notFound →
        f.message = "function not found: " ++ x →
          (∃ line, .unknown line x ∈ (check source).warnings) ∨
          (TileFunction.ofName? x).isSome = true ∨
          ∃ tile function, f = .noSuchFunction tile function ∧
            "function not found:".toList <+: tile.toList := by
  refine ⟨fun files path hread => checkScript_eq hcheck hread, ?_⟩
  rcases load_of_check hcheck i with ⟨j, hload, hnaming⟩
  refine ⟨j, hload, fun e meanwhile f x hfails hkind hmessage => ?_⟩
  rcases Failure.of_notFound hkind hmessage with rfl | hnamed
  · have hmissed := (Step.runMain_misses hnaming j e rfl).through meanwhile 0
    rcases hmissed.2 x hfails with hwarned | htile
    · exact .inl hwarned
    · exact .inr (.inl htile)
  · exact .inr (.inr hnamed)

/-! ## A field that can be named -/

/-- An interpreter without a script, and the actor that it drives. -/
def novice : Interpreter :=
  Interpreter.new 0 ⟨1000, 1000, 10⟩ (Actor.new "bot" ⟨0, 0⟩)

/-- The actor on farmland of some name that offers no function. -/
def fallow (tile : String) : Engine :=
  { Engine.new (((World.empty ⟨1, 1⟩).insertTile
      { Tile.new tile .farmland ⟨0, 0⟩ with functions := [] }).insertActor
        (Actor.new "bot" ⟨0, 0⟩)) 300 with
    running := [false] }

/-- The call of a name without arguments, where the name ends in a column. -/
def bareCall (name : String) (column : Nat) : Expr :=
  .call name [] ⟨⟨1, 1⟩, ⟨1, column⟩⟩

/-- The interpreter with a script of one call. -/
def taught (call : Expr) (source : String) : Interpreter :=
  { novice with
    subroutines := .ofList [(mainName, ⟨[.expr call call.span], .ofString source⟩)] }

/-- A call that nothing answers is shown by the check, and a run fails by it. -/
theorem covers_runs_plough :
    (check "plough()\n").error = none ∧
      ((runMain (taught (bareCall "plough" 9) "plough()\n") (fallow "field")).through
        (fun _ _ e => e) 0).1.1 = .error (.functionNotFound "plough") ∧
      ∃ line, .unknown line "plough" ∈ (check "plough()\n").warnings := by
  have hcheck : (check "plough()\n").error = none := by cbv
  have hload : novice.load "plough()\n" = .ok (taught (bareCall "plough" 9) "plough()\n") :=
    Interpreter.load_main (by cbv) (by cbv) novice
  have hfails : ((runMain (taught (bareCall "plough" 9) "plough()\n") (fallow "field")).through
      (fun _ _ e => e) 0).1.1 = .error (.functionNotFound "plough") := by rfl
  rcases (covers_runs hcheck novice).2 with ⟨j, hj, hcovers⟩
  rw [hload] at hj
  rw [← Except.ok.inj hj] at hcovers
  refine ⟨hcheck, hfails, ?_⟩
  rcases hcovers _ _ _ "plough" hfails rfl rfl with hwarned | htile | ⟨tile, function, hnamed, _⟩
  · exact hwarned
  · exact absurd htile (by decide)
  · cases hnamed

/-- A tile can be named by the words for a name that was not found. Then a run fails with these
    words though every call of the script is of a capability, and the check shows nothing. -/
theorem not_covers_runs :
    ¬ ∀ (source : String) (i j : Interpreter) (e : Engine)
      (meanwhile : Nat → Nat → Engine → Engine) (f : Failure) (x : String),
      (check source).error = none → i.load source = .ok j →
        ((runMain j e).through meanwhile 0).1.1 = .error f → f.kind = .notFound →
        f.message = "function not found: " ++ x →
          (∃ line, .unknown line x ∈ (check source).warnings) ∨
          (TileFunction.ofName? x).isSome = true := by
  intro h
  have hcheck : (check "plant()\n").error = none := by cbv
  have hwarnings : (check "plant()\n").warnings = [] := by cbv
  have hload : novice.load "plant()\n" = .ok (taught (bareCall "plant" 8) "plant()\n") :=
    Interpreter.load_main (by cbv) (by cbv) novice
  have hfails : ((runMain (taught (bareCall "plant" 8) "plant()\n")
      (fallow "function not found: zap")).through (fun _ _ e => e) 0).1.1 =
        .error (.noSuchFunction "function not found: zap" "plant") := by rfl
  rcases h _ _ _ _ _ _ "zap has no function plant" hcheck hload hfails rfl (by decide) with
    ⟨line, hline⟩ | htile
  · rw [hwarnings] at hline
    exact absurd hline List.not_mem_nil
  · exact absurd htile (by decide)

end Check

end Farmhand
