import Mathlib
import Farmhand.Proofs.Script.Origins
import Farmhand.Proofs.Script.Ruled
import Farmhand.Proofs.Script.Sites

/-!
# Where Calls Are Listed

A program lists its calls, each with the line of the statement that holds it. The list and the calls
themselves correspond one to one and in order. A header and a statement of one line do not leave
their line, so the line of the statement is the line on which the name of the call stands. There is
one exception: the condition of a further branch of a conditional stands on a line of its own, below
the one under which it is listed.

## Main definitions

* `Reports`: A listed pair is about a call.
* `Placed`: What is known of the places of tokens.

## Theorems

* `lt_of_finishes`: What comes behind a line stands below it.
* `statement_reports`, `topLevel_reports`: What is listed for a statement and for a script.
* `calls_located`: The calls of a program and where they stand.
* `not_callsReported`: A call that is not listed under its line.
-/

namespace Farmhand

namespace Script

open Cursor

/-- A listed pair is about a call: it has the name of the call, which stands in the source, and the
    line of the call, or one above if the call stands in the condition of a further branch. -/
structure Reports (text : String) (listed : Nat × String) (x : CallSite) : Prop where
  name : listed.2 = x.name
  word : HasWord text x.name x.span.start
  same : x.further = false → listed.1 = x.span.line
  above : x.further = true → listed.1 < x.span.line

/-- The tokens of a text, as far as their places are concerned. -/
structure Placed (text : String) (tokens : List Token) : Prop where
  ruled : Ruled tokens
  pos : ∀ t ∈ tokens, 0 < t.span.line
  word : ∀ t ∈ tokens, ∀ name, t.kind = .name name → HasWord text name t.span.start

theorem placed_of_tokenize {text : String} {tokens : List Token} (h : tokenize text = .ok tokens) :
    Placed text tokens :=
  ⟨(tokenize_ruled h).1, (tokenize_ruled h).2,
    fun _ ht _ hname => hasWord_of_mem_tokenize h ht hname⟩

section

variable {text : String} {tokens : List Token} {c : Cursor} {t : Token} {next : c.Shorter}

-- The token that a call begins with.
theorem Names.exists_token {x : CallSite} (h : Names c x) (hplaced : Placed text tokens)
    (hc : c.Follows (.start tokens)) :
    ∃ u ∈ c.rest, u.kind = .name x.name ∧ x.span.start = u.span.start := by
  rcases h with ⟨d, u, rest, ⟨used, hused, _⟩, hd, hkind, hstart⟩
  have hu : u ∈ c.rest := by
    rw [hused, hd]
    exact List.mem_append_right _ List.mem_cons_self
  exact ⟨u, hu, hkind, hstart (Nat.ne_of_gt (hplaced.pos u (hc.subset hu)))⟩

-- A call further along the line of a token.
theorem Names.line_eq {x : CallSite} (h : Names c x) (hplaced : Placed text tokens)
    (hc : c.Follows (.start tokens)) (htake : c.take? = some (t, next)) :
    x.span.line = t.span.line := by
  rcases h with ⟨d, u, rest, ⟨used, hused, hplain⟩, hd, _, hstart⟩
  have hu : u ∈ c.rest := by
    rw [hused, hd]
    exact List.mem_append_right _ List.mem_cons_self
  have hline : x.span.line = u.span.line :=
    congrArg Place.line (hstart (Nat.ne_of_gt (hplaced.pos u (hc.subset hu))))
  have hruled := hplaced.ruled.suffix hc
  have hrest := (take?_eq_some htake).1
  rw [hline]
  cases used with
  | nil =>
      rw [List.nil_append, hd] at hused
      rw [hrest, List.cons.injEq] at hused
      rw [hused.1]
  | cons v more =>
      rw [hd, List.cons_append] at hused
      rw [hused] at hruled
      rw [hrest, List.cons.injEq] at hused
      rcases List.forall_mem_cons.mp hplain with ⟨hv, hmore⟩
      rw [hused.1]
      exact hruled.line_eq hv hmore

-- What comes behind a line that is read to its end stands below the line.
theorem lt_of_finishes {α : Type} {place : α → Cursor} {r : Except Fault α} {answer : α}
    (hplaced : Placed text tokens) (hc : c.Follows (.start tokens))
    (htake : c.take? = some (t, next)) (ht : t.kind.isMark .newline = false)
    (h : Finishes next.1 place r) (hr : r = .ok answer) :
    ∀ u ∈ (place answer).rest, t.span.line < u.span.line := by
  rw [hr] at h
  rcases h with ⟨d, stop, ⟨used, hused, hplain⟩, hd, hstop⟩
  have hrest : c.rest = t :: (used ++ stop :: (place answer).rest) := by
    rw [(take?_eq_some htake).1, hused, hd]
  have hruled := hplaced.ruled.suffix hc
  rw [hrest] at hruled
  have hbehind : stop :: (place answer).rest <:+ t :: (used ++ stop :: (place answer).rest) :=
    (List.suffix_append used _).trans (List.suffix_cons t _)
  intro u hu
  rw [← hruled.line_eq ht hplain]
  exact (hruled.suffix hbehind).line_lt hstop hu

theorem reports_nil : List.Forall₂ (Reports text) [] [] :=
  List.Forall₂.nil

theorem Reports.append {listed more : List (Nat × String)} {xs ys : List CallSite}
    (h : List.Forall₂ (Reports text) listed xs) (h' : List.Forall₂ (Reports text) more ys) :
    List.Forall₂ (Reports text) (listed ++ more) (xs ++ ys) :=
  List.rel_append h h'

-- The calls of an expression, listed under one line.
theorem reports_sites {further : Bool} {e : Expr} {n : Nat}
    (h : ∀ x ∈ e.sites further, Reports text (n, x.name) x) :
    List.Forall₂ (Reports text) (e.calls.map (n, ·)) (e.sites further) := by
  rw [← e.map_name_sites further, List.map_map]
  exact List.forall₂_map_left_iff.mpr (List.forall₂_same.mpr h)

-- A call that stands along the line of the token it is listed under.
theorem Names.reports {x : CallSite} (h : Names c x) (hfurther : x.further = false)
    (hplaced : Placed text tokens) (hc : c.Follows (.start tokens))
    (htake : c.take? = some (t, next)) : Reports text (t.span.line, x.name) x := by
  rcases h.exists_token hplaced hc with ⟨u, hu, hkind, hstart⟩
  exact ⟨rfl, hstart ▸ hplaced.word u (hc.subset hu) _ hkind,
    fun _ => (h.line_eq hplaced hc htake).symm,
    fun h => absurd (hfurther.symm.trans h) Bool.false_ne_true⟩

-- The calls of a header are listed under the line of its first token.
theorem reports_header {e : Expr} (hplaced : Placed text tokens) (hc : c.Follows (.start tokens))
    (htake : c.take? = some (t, next)) (ht : t.kind.isMark .newline = false)
    (h : ∀ x ∈ e.sites false, Names next.1 x) :
    List.Forall₂ (Reports text) (e.calls.map (t.span.line, ·)) (e.sites false) :=
  reports_sites fun x hx => ((h x hx).of_along (take?_along htake ht)).reports
    (e.further_of_mem_sites x hx) hplaced hc htake

theorem lineStatement_reports {s : Stmt} {d : c.Shorter} (hplaced : Placed text tokens)
    (hc : c.Follows (.start tokens)) (htake : c.take? = some (t, next))
    (h : lineStatement c t next = .ok (s, d)) :
    List.Forall₂ (Reports text) s.calls s.sites := by
  have ht : t ∈ tokens := hc.subset ((take?_eq_some htake).1 ▸ List.mem_cons_self)
  rcases lineStatement_names htake h with ⟨hcalls, hsites⟩
  rw [hcalls, (lineStatement_kept h (Nat.ne_of_gt (hplaced.pos t ht))).1]
  exact List.forall₂_map_left_iff.mpr (List.forall₂_same.mpr fun x hx =>
    (hsites x hx).2.reports (hsites x hx).1 hplaced hc htake)

/-- The same for the further branches of a conditional, whose own line is above all that is left. -/
def BranchesReport (text : String) (c : Cursor) : Except (List Fault × c.AtMost)
    (List (Expr × Block) × Option Block × List Fault × c.AtMost) → Prop
  | .ok (others, otherwise, _, _) => ∀ n, (∀ u ∈ c.rest, n < u.span.line) →
      List.Forall₂ (Reports text)
        (Stmt.callsOfBranches n others ++ Stmt.callsOfBlock (otherwise.getD []))
        (Stmt.sitesOfBranches true others ++ Stmt.sitesOfBlock (otherwise.getD []))
  | .error _ => True

end

mutual

/-- What is listed for a statement corresponds to its calls. -/
theorem statement_reports {text : String} {tokens : List Token} (hplaced : Placed text tokens)
    (source : Text.SourceLines) (c : Cursor) (t : Token) (next : c.Shorter)
    (hc : c.Follows (.start tokens)) (htake : c.take? = some (t, next)) :
    List.Forall₂ (Reports text) (statement source c t next).1.calls
      (statement source c t next).1.sites := by
  have h₁ := take?_follows htake
  rw [statement]
  split
  · exact reports_nil
  · next hk =>
      have ht : t.kind.isMark .newline = false := by
        rw [hk]
        rfl
      split
      · exact reports_nil
      · next condition c₁ h =>
          have h₂ := ((header_reads next.1).of_ok h).trans h₁
          have h₃ := ((block_sound source c₁.1).of_follows h₂).follows
          have hbody := block_reports hplaced source c₁.1 (h₂.trans hc)
          have hle := (block source c₁.1).2.2.2
          have hrest := branches_reports hplaced source (block source c₁.1).2.2.1 (h₃.trans hc)
          dsimp only
          split
          · exact reports_nil
          · next others otherwise more c₃ h' =>
              rw [h'] at hrest
              -- The branches below have the line of this header in the list, and stand on later
              -- lines.
              rw [Stmt.calls_cond, Stmt.sites_cond, Stmt.callsOfBranches, Stmt.sitesOfBranches,
                List.append_assoc, List.append_assoc, List.append_assoc, List.append_assoc]
              have hbelow := lt_of_finishes hplaced hc htake ht (header_finishes next.1) h
              exact Reports.append
                (reports_header hplaced hc htake ht (header_names false next.1 h))
                (Reports.append hbody (hrest t.span.line fun u hu =>
                  hbelow u ((block_sound source c₁.1).follows.subset hu)))
  · next hk =>
      have ht : t.kind.isMark .newline = false := by
        rw [hk]
        rfl
      split
      · exact reports_nil
      · next condition c₁ h =>
          have h₂ := ((header_reads next.1).of_ok h).trans h₁
          exact Reports.append (reports_header hplaced hc htake ht (header_names false next.1 h))
            (block_reports hplaced source c₁.1 (h₂.trans hc))
  · next hk =>
      have ht : t.kind.isMark .newline = false := by
        rw [hk]
        rfl
      split
      · exact reports_nil
      · next name items c₁ h =>
          have h₂ := ((forHeader_reads next.1).of_ok h).trans h₁
          exact Reports.append
            (reports_header hplaced hc htake ht (forHeader_names false next.1 h))
            (block_reports hplaced source c₁.1 (h₂.trans hc))
  · split
    · exact reports_nil
    · next stmt c₁ h => exact lineStatement_reports hplaced hc htake h
termination_by (c.size, 0)

-- Blocks and their statements report what they hold, at positions further on.
theorem block_reports {text : String} {tokens : List Token} (hplaced : Placed text tokens)
    (source : Text.SourceLines) (c : Cursor) (hc : c.Follows (.start tokens)) :
    List.Forall₂ (Reports text) (Stmt.callsOfBlock (block source c).1)
      (Stmt.sitesOfBlock (block source c).1) := by
  rw [block]
  split
  · exact reports_nil
  · next c₁ hskip =>
      have hbody := statements_reports hplaced source c₁.1 ((skip?_follows hskip).trans hc)
      dsimp only
      split
      · exact hbody
      · exact hbody
termination_by (c.size, 2)

/-- Branches: the calls of a condition have the line of its own header. -/
theorem branches_reports {text : String} {tokens : List Token} (hplaced : Placed text tokens)
    (source : Text.SourceLines) (c : Cursor) (hc : c.Follows (.start tokens)) :
    BranchesReport text c (branches source c) := by
  rw [branches]
  split
  · exact fun _ _ => reports_nil
  · next t next htake =>
      have h₁ := take?_follows htake
      split
      · next hk =>
          split
          · trivial
          · next condition c₁ h =>
              have h₂ := ((header_reads next.1).of_ok h).trans h₁
              have h₃ := ((block_sound source c₁.1).of_follows h₂).follows
              have hbody := block_reports hplaced source c₁.1 (h₂.trans hc)
              have hle := (block source c₁.1).2.2.2
              have hrest :=
                branches_reports hplaced source (block source c₁.1).2.2.1 (h₃.trans hc)
              dsimp only
              split
              · trivial
              · next h' =>
                  rw [h'] at hrest
                  intro n hn
                  rw [Stmt.callsOfBranches, Stmt.sitesOfBranches, List.append_assoc,
                    List.append_assoc, List.append_assoc, List.append_assoc]
                  have hcondition : ∀ x ∈ condition.sites true, Reports text (n, x.name) x := by
                    intro x hx
                    have hnames := (header_names true next.1 h x hx).of_along
                      (take?_along htake (by rw [hk]; rfl))
                    rcases hnames.exists_token hplaced hc with ⟨u, hu, hkind, hstart⟩
                    have hfurther := condition.further_of_mem_sites x hx
                    refine ⟨rfl, hstart ▸ hplaced.word u (hc.subset hu) _ hkind,
                      fun h => absurd (h.symm.trans hfurther) Bool.false_ne_true, fun _ => ?_⟩
                    rw [Span.line, hstart]
                    exact hn u hu
                  exact Reports.append (reports_sites hcondition)
                    (Reports.append hbody (hrest n fun u hu => hn u (h₃.subset hu)))
      · split
        · trivial
        · next c₁ h =>
            have h₂ := ((headerEnd_reads next.1).of_ok h).trans h₁
            exact fun _ _ => block_reports hplaced source c₁.1 (h₂.trans hc)
      · exact fun _ _ => reports_nil
termination_by (c.size, 0)

theorem statements_reports {text : String} {tokens : List Token} (hplaced : Placed text tokens)
    (source : Text.SourceLines) (c : Cursor) (hc : c.Follows (.start tokens)) :
    List.Forall₂ (Reports text) (Stmt.callsOfBlock (statements source c).1)
      (Stmt.sitesOfBlock (statements source c).1) := by
  rw [statements]
  split
  · exact reports_nil
  · next t next htake =>
      split
      · exact reports_nil
      · have hsound := statement_sound source c t next htake
        have hless := (statement source c t next).2.2.2
        exact Reports.append (statement_reports hplaced source c t next hc htake)
          (statements_reports hplaced source (statement source c t next).2.2.1
            (hsound.follows.trans hc))
termination_by (c.size, 1)

end

theorem topLevel_reports {text : String} {tokens : List Token} (hplaced : Placed text tokens)
    (source : Text.SourceLines) (c : Cursor) (hc : c.Follows (.start tokens)) :
    List.Forall₂ (Reports text) (Stmt.callsOfBlock (topLevel source c).1)
      (Stmt.sitesOfBlock (topLevel source c).1) := by
  rw [topLevel]
  split
  · exact reports_nil
  · next t next htake =>
      split
      · exact topLevel_reports hplaced source next.1 ((take?_follows htake).trans hc)
      · have hsound := statement_sound source c t next htake
        have hless := (statement source c t next).2.2.2
        exact Reports.append (statement_reports hplaced source c t next hc htake)
          (topLevel_reports hplaced source (statement source c t next).2.2.1
            (hsound.follows.trans hc))
termination_by c.size

/-! ## Whole programs -/

theorem compile_reports {text : String} {p : Parsed} (h : compile text = .ok p) :
    List.Forall₂ (Reports text) p.calls p.sites := by
  unfold compile at h
  cases htokens : tokenize text with
  | error error => simp only [htokens, reduceCtorEq] at h
  | ok tokens =>
      simp only [htokens, Except.ok.injEq] at h
      rw [← h]
      exact topLevel_reports (placed_of_tokenize htokens) (.ofString text) (.start tokens)
        (Follows.refl _)

-- Every call is listed under its own line if and only if none stands in a further condition.
theorem calls_eq_iff {text : String} {listed : List (Nat × String)} {xs : List CallSite}
    (h : List.Forall₂ (Reports text) listed xs) :
    listed = xs.map (fun x => (x.span.line, x.name)) ↔ ∀ x ∈ xs, x.further = false := by
  constructor
  · rintro rfl x hx
    have hreports := List.forall₂_same.mp (List.forall₂_map_left_iff.mp h) x hx
    rw [Bool.eq_false_iff]
    exact fun hfurther => Nat.lt_irrefl _ (hreports.above hfurther)
  · intro hnone
    induction h with
    | nil => rfl
    | cons hfirst _ ih =>
        rcases List.forall_mem_cons.mp hnone with ⟨hx, hrest⟩
        rw [List.map_cons, ← ih hrest, ← hfirst.same hx, ← hfirst.name]

/-- The calls of a program are listed one by one in the order of evaluation. Each begins with its
    name, which the source has at the place of the call, and it is listed under the line of that
    place, except for the calls in the conditions of further branches, which are listed under a line
    above. So every call is listed under its own line if and only if there are none of these. -/
theorem calls_located {text : String} {p : Parsed} (h : compile text = .ok p) :
    List.Forall₂ (Reports text) p.calls p.sites ∧
      (p.calls = p.sites.map (fun x => (x.span.line, x.name)) ↔
        ∀ x ∈ p.sites, x.further = false) :=
  ⟨compile_reports h, calls_eq_iff (compile_reports h)⟩

/-- A conditional with calls in both of its conditions and in its blocks. -/
theorem calls_located_branches :
    ∃ p, compile "if f(g()):\n    x = [h(1)]\nelif k():\n    return m()\n" = .ok p ∧
      p.calls = [(1, "g"), (1, "f"), (2, "h"), (1, "k"), (4, "m")] ∧
      List.Forall₂ (Reports "if f(g()):\n    x = [h(1)]\nelif k():\n    return m()\n")
        p.calls p.sites ∧
      (p.calls = p.sites.map (fun x => (x.span.line, x.name)) ↔
        ∀ x ∈ p.sites, x.further = false) := by
  have hread : (compile "if f(g()):\n    x = [h(1)]\nelif k():\n    return m()\n").map
      Parsed.calls = .ok [(1, "g"), (1, "f"), (2, "h"), (1, "k"), (4, "m")] := by
    cbv
  rcases ok_of_map_eq_ok hread with ⟨p, hcompile, hcalls⟩
  exact ⟨p, hcompile, hcalls, calls_located hcompile⟩

/-- Every call of a program is listed under the line on which it stands. -/
def CallsReported (text : String) : Prop :=
  ∀ p, compile text = .ok p → p.calls = p.sites.map fun x => (x.span.line, x.name)

/-- A call in a further condition is listed under the line of the first one. -/
theorem not_callsReported : ¬ CallsReported "if f():\n    pass\nelif g():\n    pass\n" := by
  intro h
  have hread : (compile "if f():\n    pass\nelif g():\n    pass\n").map
      (fun p => (p.calls, p.sites.map fun x => (x.span.line, x.name))) =
      .ok ([(1, "f"), (1, "g")], [(1, "f"), (3, "g")]) := by
    cbv
  cases hcompile : compile "if f():\n    pass\nelif g():\n    pass\n" with
  | error e =>
      rw [hcompile] at hread
      cases hread
  | ok p =>
      rw [hcompile, Except.map, Except.ok.injEq, Prod.mk.injEq, h p hcompile] at hread
      have hlines := hread.1.symm.trans hread.2
      exact absurd hlines (by decide)

end Script

end Farmhand
