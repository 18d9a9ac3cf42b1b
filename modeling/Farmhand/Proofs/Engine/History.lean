import Farmhand.Engine

/-!
# Histories of Tasks

What has happened to tasks, as a list of marks with the last in front, like the log of the engine.
A start that was accepted leaves its number, its task and what is to happen at its end; the end of
a task leaves its number, its time and what was done then; a cancellation and the end of an advance
of the clock leave a mark each. A start that was refused leaves none.

Two readings of a history matter. `live` lists the tasks that are under way, which is what the
slots of the engine have to agree with. `Lawful` says what a history must be like to come from an
engine: numbers grow, only a live task ends, at its own time and with its own actions, and an
advance leaves no task behind that was due. That alone decides when and how often the end of a
task comes, so the statements about the ends are about lists and mention no engine.

## Main definitions

* `Mark`: What a history is made of.
* `History.live`: The tasks that are under way.
* `History.ends`: The times at which the ends of a task came, and what was done then.
* `History.Reached`: The clock came to a time before any cancellation.
* `History.Lawful`, `History.Settled`: What the histories of the engine are like.

## Theorems

* `mem_live_iff`: A task is live when it began and was neither cancelled nor ended since.
* `ends_of_not_cancelled`: Without a cancellation a task is live, or it has ended once.
* `ends_of_reached`: A task whose time came before any cancellation has ended once, at that time.
* `ends_of_not_reached`: The end of any other task never came.
-/

namespace Farmhand

/-- What a history is made of. -/
inductive Mark where
  /-- A task started, with its number and what is to happen at its end. -/
  | began (number : Nat) (key : TaskKey) (task : Task) (atEnd : List Action)
  /-- The end of a task came, at a time, and some actions were done. -/
  | ended (number time : Nat) (actions : List Action)
  /-- All tasks were cancelled. -/
  | cancelled
  /-- The clock was advanced to a time, and every timer due by then has run out. -/
  | reached (time : Nat)

/-- The moment at which a task ends. -/
def Task.due (t : Task) : Nat :=
  t.start + t.duration

namespace History

/-- The tasks under way, each as the slot that it has. -/
def live : List Mark → List (TaskKey × Slot)
  | [] => []
  | .began number key task atEnd :: earlier => (key, ⟨task, number, false, atEnd⟩) :: live earlier
  | .ended number _ _ :: earlier => (live earlier).filter fun (_, s) => s.generation ≠ number
  | .cancelled :: _ => []
  | .reached _ :: earlier => live earlier

/-- The numbers of the tasks that began. -/
def numbers : List Mark → List Nat :=
  List.filterMap fun
    | .began number _ _ _ => some number
    | _ => none

/-- The times at which the ends of the task with a number came, and what was done then. -/
def ends (number : Nat) : List Mark → List (Nat × List Action) :=
  List.filterMap fun
    | .ended n time actions => if n = number then some (time, actions) else none
    | _ => none

/-- The clock came to a time, and nothing had been cancelled before. -/
def Reached (time : Nat) (marks : List Mark) : Prop :=
  ∃ newer t older, marks = newer ++ .reached t :: older ∧ time ≤ t ∧ .cancelled ∉ older

/-- What the histories of the engine are like. -/
def Lawful : List Mark → Prop
  | [] => True
  | .began number _ _ _ :: earlier => (∀ n ∈ numbers earlier, n < number) ∧ Lawful earlier
  | .ended number time actions :: earlier =>
    (∃ key s, (key, s) ∈ live earlier ∧ s.generation = number ∧ s.task.due = time ∧
      s.atEnd = actions) ∧ Lawful earlier
  | .cancelled :: earlier => Lawful earlier
  | .reached time :: earlier => (∀ x ∈ live earlier, time < x.2.task.due) ∧ Lawful earlier

/-- Every end that came was in an advance of the clock, which then went on to that time or
    further. -/
def Settled (marks : List Mark) : Prop :=
  ∀ newer number time actions older, marks = newer ++ .ended number time actions :: older →
    Reached time newer

/-! ## Readings of a longer history -/

theorem numbers_append (newer older : List Mark) :
    numbers (newer ++ older) = numbers newer ++ numbers older :=
  List.filterMap_append

theorem ends_append (number : Nat) (newer older : List Mark) :
    ends number (newer ++ older) = ends number newer ++ ends number older :=
  List.filterMap_append

-- The numbers that a history gave to tasks are those of their beginnings.
theorem mem_numbers_iff (number : Nat) (marks : List Mark) :
    number ∈ numbers marks ↔ ∃ key task atEnd, Mark.began number key task atEnd ∈ marks := by
  unfold numbers
  rw [List.mem_filterMap]
  constructor
  · rintro ⟨m, hm, hn⟩
    cases m with
    | began n key task atEnd =>
        simp only [Option.some.injEq] at hn
        exact ⟨key, task, atEnd, hn ▸ hm⟩
    | ended n time actions => simp only [reduceCtorEq] at hn
    | cancelled => simp only [reduceCtorEq] at hn
    | reached time => simp only [reduceCtorEq] at hn
  · rintro ⟨key, task, atEnd, hm⟩
    exact ⟨_, hm, rfl⟩

-- The ends of a task are told with its number.
theorem mem_ends_iff (number time : Nat) (actions : List Action) (marks : List Mark) :
    (time, actions) ∈ ends number marks ↔ Mark.ended number time actions ∈ marks := by
  unfold ends
  rw [List.mem_filterMap]
  constructor
  · rintro ⟨m, hm, hn⟩
    cases m with
    | ended n t acts =>
        by_cases h : n = number
        · simp only [h, if_true, Option.some.injEq, Prod.mk.injEq] at hn
          rw [← hn.1, ← hn.2, ← h]
          exact hm
        · simp only [h, if_false, reduceCtorEq] at hn
    | began n key task atEnd => simp only [reduceCtorEq] at hn
    | cancelled => simp only [reduceCtorEq] at hn
    | reached t => simp only [reduceCtorEq] at hn
  · intro hm
    exact ⟨_, hm, by simp only [if_true]⟩

theorem Reached.append_left {time : Nat} {marks : List Mark} (h : Reached time marks)
    (front : List Mark) : Reached time (front ++ marks) := by
  rcases h with ⟨newer, t, older, heq, hle, hc⟩
  exact ⟨front ++ newer, t, older, by rw [heq, List.append_assoc], hle, hc⟩

theorem Settled.append {front past : List Mark} (hfront : Settled front) (hpast : Settled past) :
    Settled (front ++ past) := by
  intro newer number time actions older heq
  -- The end is a mark of the front, or a mark of the past with the whole front after it.
  rcases List.append_eq_append_iff.mp heq with ⟨between, hnewer, hrest⟩ | ⟨between, hrest, holder⟩
  · rw [hnewer]
    exact Reached.append_left (hpast between number time actions older hrest) front
  · cases between with
    | nil =>
        rw [List.append_nil] at hrest
        rw [List.nil_append] at holder
        have hreached := hpast [] number time actions older holder.symm
        rw [← hrest, ← List.append_nil front]
        exact hreached.append_left front
    | cons m between =>
        rw [List.cons_append, List.cons.injEq] at holder
        rw [← holder.1] at hrest
        exact hfront newer number time actions between hrest

/-- A task is live when it began and was neither cancelled nor ended since. -/
theorem mem_live_iff (key : TaskKey) (s : Slot) (marks : List Mark) :
    (key, s) ∈ live marks ↔
      ∃ later earlier,
        marks = later ++ .began s.generation key s.task s.atEnd :: earlier ∧
          s.completing = false ∧ .cancelled ∉ later ∧ ends s.generation later = [] := by
  induction marks with
  | nil =>
      simp only [live, List.not_mem_nil, false_iff]
      rintro ⟨later, earlier, h, -⟩
      simp at h
  | cons m rest ih =>
      -- A mark in front of a split is a mark in front of its later part, unless it is the start.
      have hfront : (∃ later earlier,
          m :: rest = later ++ .began s.generation key s.task s.atEnd :: earlier ∧
            s.completing = false ∧ .cancelled ∉ later ∧ ends s.generation later = []) ↔
          (m = .began s.generation key s.task s.atEnd ∧ s.completing = false) ∨
          ((key, s) ∈ live rest ∧ m ≠ .cancelled ∧ ends s.generation [m] = []) := by
        rw [ih]
        constructor
        · rintro ⟨later, earlier, heq, hs, hc, he⟩
          cases later with
          | nil =>
              simp only [List.nil_append, List.cons.injEq] at heq
              exact Or.inl ⟨heq.1, hs⟩
          | cons m' later =>
              simp only [List.cons_append, List.cons.injEq] at heq
              rw [List.mem_cons, not_or] at hc
              rw [← List.singleton_append, ends_append, List.append_eq_nil_iff, ← heq.1] at he
              exact Or.inr ⟨⟨later, earlier, heq.2, hs, hc.2, he.2⟩,
                fun hm => hc.1 (heq.1 ▸ hm.symm), he.1⟩
        · rintro (⟨hm, hs⟩ | ⟨⟨later, earlier, heq, hs, hc, he⟩, hm, hem⟩)
          · exact ⟨[], rest, by rw [hm, List.nil_append], hs, List.not_mem_nil, rfl⟩
          · refine ⟨m :: later, earlier, by rw [heq, List.cons_append], hs, ?_, ?_⟩
            · rw [List.mem_cons, not_or]
              exact ⟨fun h => hm h.symm, hc⟩
            · rw [← List.singleton_append, ends_append, hem, he, List.append_nil]
      rw [hfront]
      cases m with
      | began number key' task atEnd =>
          rcases s with ⟨task', number', completing, atEnd'⟩
          simp only [live, List.mem_cons, Prod.mk.injEq, Slot.mk.injEq, Mark.began.injEq, ends,
            List.filterMap_cons_none, List.filterMap_nil]
          constructor
          · rintro (⟨rfl, rfl, rfl, rfl, rfl⟩ | h)
            · exact Or.inl ⟨⟨rfl, rfl, rfl, rfl⟩, rfl⟩
            · exact Or.inr ⟨h, by simp, trivial⟩
          · rintro (⟨⟨rfl, rfl, rfl, rfl⟩, rfl⟩ | ⟨h, -, -⟩)
            · exact Or.inl ⟨rfl, rfl, rfl, rfl, rfl⟩
            · exact Or.inr h
      | ended number time actions =>
          have hends : ends s.generation [Mark.ended number time actions] = [] ↔
              s.generation ≠ number := by
            by_cases h : number = s.generation
            · simp [ends, h]
            · have h' : ¬ s.generation = number := fun e => h e.symm
              simp [ends, h, h']
          rw [hends]
          simp [live]
      | cancelled => simp [live]
      | reached time => simp [live, ends]

-- A live task began.
theorem began_of_mem_live {key : TaskKey} {s : Slot} {marks : List Mark}
    (h : (key, s) ∈ live marks) : Mark.began s.generation key s.task s.atEnd ∈ marks := by
  rcases (mem_live_iff key s marks).mp h with ⟨later, earlier, heq, -⟩
  rw [heq]
  exact List.mem_append_right _ List.mem_cons_self

/-! ## Lawful histories -/

theorem Lawful.of_append {newer older : List Mark} (h : Lawful (newer ++ older)) :
    Lawful older := by
  induction newer with
  | nil => exact h
  | cons m newer ih =>
      cases m with
      | began number key task atEnd => exact ih h.2
      | ended number time actions => exact ih h.2
      | cancelled => exact ih h
      | reached time => exact ih h.2

-- Numbers are given out once.
theorem Lawful.began_unique {later earlier : List Mark} {number : Nat} {key key' : TaskKey}
    {task task' : Task} {atEnd atEnd' : List Action}
    (h : Lawful (later ++ .began number key task atEnd :: earlier))
    (hmem : Mark.began number key' task' atEnd' ∈
      later ++ .began number key task atEnd :: earlier) :
    key' = key ∧ task' = task ∧ atEnd' = atEnd := by
  -- By induction on what came later: the mark is the start itself, behind it or in front of it.
  induction later with
  | nil =>
      rcases List.mem_cons.mp hmem with heq | hearlier
      · simp only [Mark.began.injEq, true_and] at heq
        exact heq
      · have hlt := h.1 number ((mem_numbers_iff _ _).mpr ⟨_, _, _, hearlier⟩)
        omega
  | cons m later ih =>
      rcases List.mem_cons.mp hmem with heq | hrest
      · rw [← heq] at h
        have hlt := h.1 number ((mem_numbers_iff _ _).mpr
          ⟨_, _, _, List.mem_append_right _ List.mem_cons_self⟩)
        omega
      · refine ih ?_ hrest
        rw [List.cons_append, ← List.singleton_append] at h
        exact h.of_append

-- A task that has a number and is not live has had its last end.
theorem Lawful.ends_of_not_live {newer older : List Mark} {number : Nat}
    (h : Lawful (newer ++ older)) (hnum : number ∈ numbers older)
    (hdead : ∀ x ∈ live older, x.2.generation ≠ number) :
    ends number newer = [] ∧ ∀ x ∈ live (newer ++ older), x.2.generation ≠ number := by
  induction newer with
  | nil => exact ⟨rfl, hdead⟩
  | cons m newer ih =>
      cases m with
      | began n key task atEnd =>
          rcases ih h.2 with ⟨hends, hlive⟩
          refine ⟨hends, fun x hx => ?_⟩
          rcases List.mem_cons.mp hx with heq | hrest
          · -- A new number is greater than every number before.
            have hmem : number ∈ numbers (newer ++ older) := by
              rw [numbers_append]
              exact List.mem_append_right _ hnum
            have hlt := h.1 number hmem
            rw [heq]
            exact Nat.ne_of_gt hlt
          · exact hlive x hrest
      | ended n time actions =>
          -- An end is that of a live task, which the number does not belong to.
          rcases ih h.2 with ⟨hends, hlive⟩
          rcases h.1 with ⟨key, s, hs, hn, -⟩
          have hne : ¬ n = number := hn ▸ hlive (key, s) hs
          refine ⟨?_, fun x hx => hlive x (List.mem_filter.mp hx).1⟩
          rw [← List.singleton_append, ends_append, hends, List.append_nil]
          simp [ends, hne]
      | cancelled =>
          refine ⟨(ih h).1, fun x hx => ?_⟩
          exact absurd hx List.not_mem_nil
      | reached time => exact ih h.2

section

variable {later earlier : List Mark} {number : Nat} {key : TaskKey} {task : Task}
  {atEnd : List Action}

-- The end of a task does not come before its start.
theorem Lawful.ends_earlier
    (h : Lawful (.began number key task atEnd :: earlier)) : ends number earlier = [] := by
  rw [List.eq_nil_iff_forall_not_mem]
  rintro ⟨time, actions⟩ hmem
  rcases List.append_of_mem ((mem_ends_iff _ _ _ _).mp hmem) with ⟨newer, older, heq⟩
  have hend : Lawful (.ended number time actions :: older) := (heq ▸ h.2).of_append
  rcases hend.1 with ⟨key', s, hs, hn, -⟩
  -- The task of such an end would have begun before, with the same number.
  have hmem' : number ∈ numbers earlier := by
    rw [mem_numbers_iff, heq]
    exact ⟨key', s.task, s.atEnd,
      List.mem_append_right _ (List.mem_cons_of_mem _ (hn ▸ began_of_mem_live hs))⟩
  have hlt := h.1 number hmem'
  omega

-- A task that is live was not cancelled since its start, and its end has not come.
theorem Lawful.of_live {key' : TaskKey} {s : Slot}
    (h : Lawful (later ++ .began number key task atEnd :: earlier))
    (hlive : (key', s) ∈ live (later ++ .began number key task atEnd :: earlier))
    (hs : s.generation = number) : .cancelled ∉ later ∧ ends number later = [] := by
  induction later with
  | nil => exact ⟨List.not_mem_nil, rfl⟩
  | cons m later ih =>
      cases m with
      | began n key'' task' atEnd' =>
          rcases List.mem_cons.mp hlive with heq | hrest
          · -- The number of the start in front is greater than the one of the start behind it.
            have hlt := h.1 number ((mem_numbers_iff _ _).mpr
              ⟨key, task, atEnd, List.mem_append_right _ List.mem_cons_self⟩)
            simp only [Prod.mk.injEq] at heq
            rw [heq.2] at hs
            simp only at hs
            omega
          · rcases ih h.2 hrest with ⟨hc, hends⟩
            exact ⟨by simp [hc], hends⟩
      | ended n time actions =>
          rcases List.mem_filter.mp hlive with ⟨hrest, hne⟩
          rcases ih h.2 hrest with ⟨hc, hends⟩
          have hn : ¬ n = number := by
            intro e
            simp [hs, e] at hne
          refine ⟨by simp [hc], ?_⟩
          rw [← List.singleton_append, ends_append, hends]
          simp [ends, hn]
      | cancelled => exact absurd hlive List.not_mem_nil
      | reached time =>
          rcases ih h.2 hlive with ⟨hc, hends⟩
          exact ⟨by simp [hc], hends⟩

-- An end that came after a start found the task live: nothing was cancelled between the two, no
-- end came there, and the time and the actions are those of the task.
theorem Lawful.of_ended {newer older : List Mark} {time : Nat} {actions : List Action}
    (h : Lawful (newer ++ .ended number time actions ::
      (older ++ .began number key task atEnd :: earlier))) :
    .cancelled ∉ older ∧ ends number older = [] ∧ task.due = time ∧ atEnd = actions := by
  have hend := h.of_append
  rcases hend.1 with ⟨key', s, hs, hn, hdue, hacts⟩
  have hsame := hend.2.began_unique (hn ▸ began_of_mem_live hs)
  have hlive := hend.2.of_live hs hn
  exact ⟨hlive.1, hlive.2, by rw [← hsame.2.1, hdue], by rw [← hsame.2.2, hacts]⟩

/-- Without a cancellation a task is live and its end has not come, or it is not and its end has
    come once, at its time and with its actions. -/
theorem Lawful.ends_of_not_cancelled
    (h : Lawful (later ++ .began number key task atEnd :: earlier))
    (hc : .cancelled ∉ later) :
    ((key, ⟨task, number, false, atEnd⟩) ∈
        live (later ++ .began number key task atEnd :: earlier) ∧ ends number later = []) ∨
      ((∀ x ∈ live (later ++ .began number key task atEnd :: earlier), x.2.generation ≠ number) ∧
        ends number later = [(task.due, atEnd)]) := by
  by_cases hends : ends number later = []
  · exact Or.inl ⟨(mem_live_iff _ _ _).mpr ⟨later, earlier, rfl, rfl, hc, hends⟩, hends⟩
  · refine Or.inr ?_
    rcases List.exists_mem_of_ne_nil _ hends with ⟨⟨time, actions⟩, hmem⟩
    rcases List.append_of_mem ((mem_ends_iff _ _ _ _).mp hmem) with ⟨newer, older, heq⟩
    have hlaw : Lawful (newer ++ .ended number time actions ::
        (older ++ .began number key task atEnd :: earlier)) := by
      simpa only [heq, List.append_assoc, List.cons_append] using h
    rcases hlaw.of_ended with ⟨-, holder, hdue, hacts⟩
    -- After its end the task is not live, and so there is no other end.
    have hafter := hlaw.ends_of_not_live
      ((mem_numbers_iff number _).mpr ⟨key, task, atEnd, by simp⟩)
      (fun x hx => by simpa using (List.mem_filter.mp hx).2)
    refine ⟨?_, ?_⟩
    · simpa only [heq, List.append_assoc, List.cons_append] using hafter.2
    · rw [heq, ends_append, hafter.1, ← List.singleton_append, ends_append, holder]
      simp [ends, hdue, hacts]

/-- A task whose time came before any cancellation has ended once, at that time. -/
theorem Lawful.ends_of_reached
    (h : Lawful (later ++ .began number key task atEnd :: earlier))
    (hreached : Reached task.due later) :
    ends number (later ++ .began number key task atEnd :: earlier) = [(task.due, atEnd)] := by
  rcases hreached with ⟨newer, t, older, heq, hle, hc⟩
  have hlaw : Lawful (newer ++ (.reached t ::
      (older ++ .began number key task atEnd :: earlier))) := by
    simpa only [heq, List.append_assoc, List.cons_append] using h
  have hreach := hlaw.of_append
  have hstart : Lawful (.began number key task atEnd :: earlier) := h.of_append
  rcases hreach.2.ends_of_not_cancelled hc with ⟨hlive, -⟩ | ⟨hdead, hends⟩
  · -- A task that is still live when the clock has come so far is due later.
    have hlt := hreach.1 _ hlive
    simp only at hlt
    omega
  · -- A task that is not live any more has ended, and does not end again.
    have hafter := hlaw.ends_of_not_live
      ((mem_numbers_iff number _).mpr ⟨key, task, atEnd, by simp⟩) hdead
    rw [heq, List.append_assoc, List.cons_append, ends_append, hafter.1, List.nil_append,
      ← List.singleton_append, ends_append, ends_append, hends,
      ← List.singleton_append (l := earlier), ends_append, hstart.ends_earlier]
    simp [ends]

/-- The end of a task whose time did not come before a cancellation never came. -/
theorem Lawful.ends_of_not_reached
    (h : Lawful (later ++ .began number key task atEnd :: earlier))
    (hsettled : Settled (later ++ .began number key task atEnd :: earlier))
    (hreached : ¬ Reached task.due later) :
    ends number (later ++ .began number key task atEnd :: earlier) = [] := by
  have hstart : Lawful (.began number key task atEnd :: earlier) := h.of_append
  -- Before the start there was no end, so only what came later counts.
  suffices hlater : ends number later = [] by
    rw [ends_append, hlater, ← List.singleton_append, ends_append, hstart.ends_earlier]
    simp [ends]
  rw [List.eq_nil_iff_forall_not_mem]
  rintro ⟨time, actions⟩ hmem
  rcases List.append_of_mem ((mem_ends_iff _ _ _ _).mp hmem) with ⟨newer, older, heq⟩
  have hlaw : Lawful (newer ++ .ended number time actions ::
      (older ++ .began number key task atEnd :: earlier)) := by
    simpa only [heq, List.append_assoc, List.cons_append] using h
  rcases hlaw.of_ended with ⟨hc, -, hdue, -⟩
  rcases hsettled newer number time actions
    (older ++ .began number key task atEnd :: earlier) (by simp [heq]) with
    ⟨newer', t, older', heq', hle, hc'⟩
  -- An end that came at its time was in an advance that reached this time.
  refine hreached ⟨newer', t, older' ++ .ended number time actions :: older, ?_, ?_, ?_⟩
  · rw [heq, heq', List.append_assoc, List.cons_append]
  · rw [hdue]
    exact hle
  · simp [hc, hc']

end

-- Whatever was done at an end was what an accepted start asked for.
theorem Lawful.began_of_ended {number time : Nat} {actions : List Action} {marks : List Mark}
    (h : Lawful marks) (hmem : Mark.ended number time actions ∈ marks) :
    ∃ key task, Mark.began number key task actions ∈ marks ∧ task.due = time := by
  rcases List.append_of_mem hmem with ⟨newer, older, heq⟩
  rw [heq] at h
  rcases h.of_append.1 with ⟨key, s, hs, hn, hdue, hacts⟩
  refine ⟨key, s.task, ?_, hdue⟩
  rw [heq, ← hn, ← hacts]
  exact List.mem_append_right _ (List.mem_cons_of_mem _ (began_of_mem_live hs))

end History

end Farmhand
