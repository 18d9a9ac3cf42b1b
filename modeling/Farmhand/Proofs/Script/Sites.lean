import Farmhand.Proofs.Script.Within

/-!
# The Calls of a Program

The calls of a program with their own places, in the order of evaluation: arguments before their
call, left before right, a header before its block. A call is read off a name, so the place at which
it begins is that of a name. Within a line this is shown along the recursion of the parser: every
call that is read begins with a name further along the line.

## Main definitions

* `CallSite`: A call with its place.
* `Expr.sites`, `Stmt.sites`, `Parsed.sites`: The calls in the order of evaluation.
* `Names`: A call begins with a name further along the line.

## Theorems

* `Expr.map_name_sites`: The names of the calls of an expression.
* `expression_names`, `header_names`, `lineStatement_names`: Calls begin with names that are read.
-/

namespace Farmhand

namespace Script

open Cursor

/-! ## Call sites -/

/-- A call: its name, where it stands, and whether it stands in the condition of a further branch of
    a conditional. -/
structure CallSite where
  name : String
  span : Span
  further : Bool

mutual

/-- The calls of an expression in the order of evaluation. -/
def Expr.sites (further : Bool) : Expr → List CallSite
  | .lit _ _ => []
  | .var _ _ => []
  | .list items _ => Expr.sitesOfAll further items
  | .index container position _ => container.sites further ++ position.sites further
  | .unary _ operand _ => operand.sites further
  | .binary _ left right _ => left.sites further ++ right.sites further
  | .call name args span => Expr.sitesOfAll further args ++ [⟨name, span, further⟩]

/-- The calls of a list of expressions. -/
def Expr.sitesOfAll (further : Bool) : List Expr → List CallSite
  | [] => []
  | e :: rest => e.sites further ++ Expr.sitesOfAll further rest

end

mutual

/-- The calls of a statement in the order of evaluation. -/
def Stmt.sites : Stmt → List CallSite
  | .assign _ _ value _ => value.sites false
  | .expr value _ => value.sites false
  | .cond branches otherwise _ =>
    Stmt.sitesOfBranches false branches ++
      match otherwise with
      | some body => Stmt.sitesOfBlock body
      | none => []
  | .whileLoop condition body _ => condition.sites false ++ Stmt.sitesOfBlock body
  | .forLoop _ items body _ => items.sites false ++ Stmt.sitesOfBlock body
  | .returnWith (some value) _ => value.sites false
  | .returnWith none _ => []
  | .breakLoop _ => []
  | .continueLoop _ => []
  | .pass _ => []
  | .skipped _ _ => []

/-- The calls of branches, the first of which may be a further one; the others are. -/
def Stmt.sitesOfBranches (further : Bool) : List (Expr × List Stmt) → List CallSite
  | [] => []
  | (condition, body) :: rest =>
    condition.sites further ++ Stmt.sitesOfBlock body ++ Stmt.sitesOfBranches true rest

/-- The calls of a block. -/
def Stmt.sitesOfBlock : List Stmt → List CallSite
  | [] => []
  | stmt :: rest => stmt.sites ++ Stmt.sitesOfBlock rest

end

/-- The calls of a program in the order of evaluation. -/
def Parsed.sites (p : Parsed) : List CallSite :=
  Stmt.sitesOfBlock p.body

mutual

-- The sites of calls name what is called, in order.
theorem Expr.map_name_sites (further : Bool) (e : Expr) :
    (e.sites further).map CallSite.name = e.calls := by
  cases e with
  | lit _ _ => rfl
  | var _ _ => rfl
  | list items _ => exact Expr.map_name_sitesOfAll further items
  | index container position _ =>
      rw [Expr.sites, Expr.calls, List.map_append, container.map_name_sites,
        position.map_name_sites]
  | unary _ operand _ => exact operand.map_name_sites further
  | binary _ left right _ =>
      rw [Expr.sites, Expr.calls, List.map_append, left.map_name_sites, right.map_name_sites]
  | call name args _ =>
      rw [Expr.sites, Expr.calls, List.map_append, Expr.map_name_sitesOfAll]
      rfl

theorem Expr.map_name_sitesOfAll (further : Bool) (es : List Expr) :
    (Expr.sitesOfAll further es).map CallSite.name = Expr.callsAll es := by
  cases es with
  | nil => rfl
  | cons e rest =>
      rw [Expr.sitesOfAll, Expr.callsAll, List.map_append, e.map_name_sites,
        Expr.map_name_sitesOfAll further rest]

end

mutual

-- All of them are marked alike.
theorem Expr.further_of_mem_sites {further : Bool} (e : Expr) :
    ∀ x ∈ e.sites further, x.further = further := by
  cases e with
  | lit _ _ => exact List.forall_mem_nil _
  | var _ _ => exact List.forall_mem_nil _
  | list items _ => exact Expr.further_of_mem_sitesOfAll items
  | index container position _ =>
      exact List.forall_mem_append.mpr
        ⟨container.further_of_mem_sites, position.further_of_mem_sites⟩
  | unary _ operand _ => exact operand.further_of_mem_sites
  | binary _ left right _ =>
      exact List.forall_mem_append.mpr ⟨left.further_of_mem_sites, right.further_of_mem_sites⟩
  | call name args _ =>
      exact List.forall_mem_append.mpr
        ⟨Expr.further_of_mem_sitesOfAll args, List.forall_mem_singleton.mpr rfl⟩

theorem Expr.further_of_mem_sitesOfAll {further : Bool} (es : List Expr) :
    ∀ x ∈ Expr.sitesOfAll further es, x.further = further := by
  cases es with
  | nil => exact List.forall_mem_nil _
  | cons e rest =>
      exact List.forall_mem_append.mpr
        ⟨e.further_of_mem_sites, Expr.further_of_mem_sitesOfAll rest⟩

end

theorem Stmt.calls_cond (branches : List (Expr × Block)) (otherwise : Option Block)
    (span : Span) : (Stmt.cond branches otherwise span).calls =
      Stmt.callsOfBranches span.line branches ++ Stmt.callsOfBlock (otherwise.getD []) := by
  cases otherwise with
  | none =>
      rw [Stmt.calls]
      rfl
  | some body =>
      rw [Stmt.calls]
      rfl

theorem Stmt.sites_cond (branches : List (Expr × Block)) (otherwise : Option Block)
    (span : Span) : (Stmt.cond branches otherwise span).sites =
      Stmt.sitesOfBranches false branches ++ Stmt.sitesOfBlock (otherwise.getD []) := by
  cases otherwise with
  | none =>
      rw [Stmt.sites]
      rfl
  | some body =>
      rw [Stmt.sites]
      rfl

/-! ## Within a line -/

/-- A call begins with a name that stands further along the line. -/
def Names (c : Cursor) (x : CallSite) : Prop :=
  ∃ (d : Cursor) (t : Token) (rest : List Token), d.Along c ∧ d.rest = t :: rest ∧
    t.kind = .name x.name ∧ (t.span.line ≠ 0 → x.span.start = t.span.start)

theorem Names.of_along {c d : Cursor} {x : CallSite} (h : Names d x) (hd : d.Along c) :
    Names c x := by
  rcases h with ⟨e, t, rest, he, ht⟩
  exact ⟨e, t, rest, he.trans hd, ht⟩

theorem Span.start_through {first : Span} (h : first.line ≠ 0) (second : Span) :
    (first.through second).start = first.start := by
  unfold through
  rw [if_neg h]
  split <;> rfl

mutual

/-- Every call of an expression begins with a name further along the line. -/
theorem expression_names (further : Bool) (floor : Nat) (c : Cursor) {e : Expr} {d : c.Shorter}
    (h : expression floor c = .ok (e, d)) : ∀ x ∈ e.sites further, Names c x := by
  rw [expression] at h
  split at h
  · cases h
  · next left c₁ hleft =>
      split at h
      · cases h
      · next e' c₂ hops =>
          cases h
          intro x hx
          rcases operators_names further floor left c₁.1 hops x hx with hx | hx
          · exact operand_names further c hleft x hx
          · exact hx.of_along ((operand_stays c).of_ok hleft)
termination_by (c.size, 1)

theorem operand_names (further : Bool) (c : Cursor) {e : Expr} {d : c.Shorter}
    (h : operand c = .ok (e, d)) : ∀ x ∈ e.sites further, Names c x := by
  rw [operand] at h
  split at h
  · cases h
  · next t c₁ htake =>
      -- Each of the tokens that an operand begins with is none that ends a line.
      have hplain : ∀ k, t.kind = k → k.isMark .newline = false → c₁.1.Along c :=
        fun k hk hn => take?_along htake (hk ▸ hn)
      split at h
      · cases h
        exact List.forall_mem_nil _
      · cases h
        exact List.forall_mem_nil _
      · cases h
        exact List.forall_mem_nil _
      · cases h
        exact List.forall_mem_nil _
      · cases h
        exact List.forall_mem_nil _
      · next name hk =>
          have h₁ := hplain _ hk rfl
          split at h
          · cases h
            exact List.forall_mem_nil _
          · next c₂ hskip =>
              have h₂ := (skip?_along hskip (by decide)).trans h₁
              split at h
              · cases h
              · next args c₃ hargs =>
                  split at h
                  · cases h
                  · next c₄ hexpect =>
                      cases h
                      intro x hx
                      rcases List.mem_append.mp hx with hx | hx
                      · exact (items_names further rightParen c₂.1 hargs x hx).of_along h₂
                      · -- The call itself begins with the token that has been taken.
                        rw [List.mem_singleton.mp hx]
                        exact ⟨c, t, c₁.1.rest, Along.refl c, (take?_eq_some htake).1, hk,
                          fun hline => Span.start_through hline _⟩
      · next hk =>
          split at h
          · cases h
          · next e' c₂ he =>
              cases h
              exact fun x hx =>
                (expression_names further unaryPower c₁.1 he x hx).of_along (hplain _ hk rfl)
      · next hk =>
          split at h
          · cases h
          · next e' c₂ he =>
              cases h
              exact fun x hx =>
                (expression_names further unaryPower c₁.1 he x hx).of_along (hplain _ hk rfl)
      · next hk =>
          split at h
          · cases h
          · next e' c₂ he =>
              cases h
              exact fun x hx =>
                (expression_names further notPower c₁.1 he x hx).of_along (hplain _ hk rfl)
      · next hk =>
          split at h
          · cases h
          · next e' c₂ he =>
              split at h
              · cases h
              · cases h
                exact fun x hx =>
                  (expression_names further 0 c₁.1 he x hx).of_along (hplain _ hk rfl)
      · next hk =>
          split at h
          · cases h
          · next es c₂ hes =>
              split at h
              · cases h
              · cases h
                exact fun x hx =>
                  (items_names further rightBracket c₁.1 hes x hx).of_along (hplain _ hk rfl)
      · cases h
termination_by (c.size, 0)

/-- The name of a call stands at its site, or the call is one of the operand on the left. Every
    operator and every index is a token of the line further on. -/
theorem operators_names (further : Bool) (floor : Nat) (left : Expr) (c : Cursor) {e : Expr}
    {d : c.AtMost} (h : operators floor left c = .ok (e, d)) :
    ∀ x ∈ e.sites further, x ∈ left.sites further ∨ Names c x := by
  rw [operators] at h
  split at h
  · cases h
    exact fun x hx => Or.inl hx
  · next t c₁ htake =>
      split at h
      -- A further operand.
      · next op hop =>
          have h₁ := take?_along htake (isMark_newline_of_operator hop)
          split at h
          · cases h
            exact fun x hx => Or.inl hx
          · split at h
            · cases h
            · next right c₂ hright =>
                have h₂ := ((expression_stays op.power c₁.1).of_ok hright).trans h₁
                split at h
                · cases h
                · next e' c₃ hops =>
                    cases h
                    intro x hx
                    rcases operators_names further floor _ c₂.1 hops x hx with hx | hx
                    · rcases List.mem_append.mp hx with hx | hx
                      · exact Or.inl hx
                      · exact Or.inr
                          ((expression_names further op.power c₁.1 hright x hx).of_along h₁)
                    · exact Or.inr (hx.of_along h₂)
      · split at h
        -- An index.
        · next hbracket =>
            rw [Bool.and_eq_true] at hbracket
            have hk := isMark_eq_true_iff.mp hbracket.1
            have h₁ := take?_along htake (by rw [hk]; rfl)
            split at h
            · cases h
            · next position c₂ hposition =>
                have h₂ := ((expression_stays 0 c₁.1).of_ok hposition).trans h₁
                split at h
                · cases h
                · next c₃ hexpect =>
                    have h₃ := ((expect_stays c₂.1 (by decide)).of_ok hexpect).trans h₂
                    split at h
                    · cases h
                    · next e' c₄ hops =>
                        cases h
                        intro x hx
                        rcases operators_names further floor _ c₃.1 hops x hx with hx | hx
                        · rcases List.mem_append.mp hx with hx | hx
                          · exact Or.inl hx
                          · exact Or.inr
                              ((expression_names further 0 c₁.1 hposition x hx).of_along h₁)
                        · exact Or.inr (hx.of_along h₃)
        · cases h
          exact fun x hx => Or.inl hx
termination_by (c.size, 0)

-- Items are named further on than the bracket before them.
theorem items_names (further : Bool) (closing : Mark) (c : Cursor) {es : List Expr} {d : c.AtMost}
    (h : items closing c = .ok (es, d)) : ∀ x ∈ Expr.sitesOfAll further es, Names c x := by
  rw [items] at h
  split at h
  · cases h
    exact List.forall_mem_nil _
  · split at h
    · cases h
    · next e c₁ he =>
        have hfirst := expression_names further 0 c he
        split at h
        · cases h
          exact List.forall_mem_append.mpr ⟨hfirst, List.forall_mem_nil _⟩
        · next c₂ hskip =>
            have h₂ := (skip?_along hskip (by decide)).trans ((expression_stays 0 c).of_ok he)
            split at h
            · cases h
            · next es' c₃ hes =>
                cases h
                refine List.forall_mem_append.mpr ⟨hfirst, fun x hx => ?_⟩
                exact (items_names further closing c₂.1 hes x hx).of_along h₂
termination_by (c.size, 2)

end

theorem header_names (further : Bool) (c : Cursor) {e : Expr} {d : c.Shorter}
    (h : header c = .ok (e, d)) : ∀ x ∈ e.sites further, Names c x := by
  unfold header at h
  split at h
  · cases h
  · next e' c₁ he =>
      split at h
      · cases h
      · cases h
        exact expression_names further 0 c he

theorem lineExpression_names (further : Bool) (c : Cursor) {e : Expr} {d : c.Shorter}
    (h : lineExpression c = .ok (e, d)) : ∀ x ∈ e.sites further, Names c x := by
  unfold lineExpression at h
  split at h
  · cases h
  · next e' c₁ he =>
      split at h
      · cases h
      · cases h
        exact expression_names further 0 c he

-- The header of a loop over items, behind `in`.
theorem forHeader_names (further : Bool) (c : Cursor) {name : String} {e : Expr} {d : c.Shorter}
    (h : forHeader c = .ok (name, e, d)) : ∀ x ∈ e.sites further, Names c x := by
  unfold forHeader at h
  split at h
  · cases h
  · next t c₁ htake =>
      split at h
      · next name' hk =>
          have h₁ : c₁.1.Along c := take?_along htake (by rw [hk]; rfl)
          split at h
          · cases h
          · next c₂ hexpect =>
              have h₂ := ((expect_stays c₁.1 (by decide)).of_ok hexpect).trans h₁
              split at h
              · cases h
              · next e' c₃ he =>
                  cases h
                  exact fun x hx => (header_names further c₂.1 he x hx).of_along h₂
      · cases h

/-- A statement of one line lists its calls under its own line, and they stand along the line. -/
theorem lineStatement_names {c : Cursor} {t : Token} {next : c.Shorter} {s : Stmt} {d : c.Shorter}
    (htake : c.take? = some (t, next)) (h : lineStatement c t next = .ok (s, d)) :
    s.calls = s.sites.map (fun x => (s.span.line, x.name)) ∧
      ∀ x ∈ s.sites, x.further = false ∧ Names c x := by
  -- A statement with one expression.
  have hvalue : ∀ e : Expr, (∀ x ∈ e.sites false, Names c x) →
      e.calls.map (s.span.line, ·) = (e.sites false).map (fun x => (s.span.line, x.name)) ∧
        ∀ x ∈ e.sites false, x.further = false ∧ Names c x := by
    intro e he
    refine ⟨?_, fun x hx => ⟨e.further_of_mem_sites x hx, he x hx⟩⟩
    rw [← e.map_name_sites false, List.map_map]
    rfl
  unfold lineStatement at h
  split at h
  · next hk =>
      have h₁ : next.1.Along c := take?_along htake (by rw [hk]; rfl)
      split at h
      · cases h
        exact ⟨rfl, List.forall_mem_nil _⟩
      · split at h
        · cases h
        · next e c₁ he =>
            cases h
            exact hvalue e fun x hx => (lineExpression_names false next.1 he x hx).of_along h₁
  · rcases ok_of_map_eq_ok h with ⟨_, _, heq⟩
    cases heq
    exact ⟨rfl, List.forall_mem_nil _⟩
  · rcases ok_of_map_eq_ok h with ⟨_, _, heq⟩
    cases heq
    exact ⟨rfl, List.forall_mem_nil _⟩
  · rcases ok_of_map_eq_ok h with ⟨_, _, heq⟩
    cases heq
    exact ⟨rfl, List.forall_mem_nil _⟩
  · split at h
    · next name op sign c₁ hk hop hsign =>
        have h₁ : next.1.Along c := take?_along htake (by rw [hk]; rfl)
        split at h
        · cases h
        · next e c₂ he =>
            cases h
            exact hvalue e fun x hx =>
              (lineExpression_names false c₁.1 he x hx).of_along
                ((along_of_assign hop hsign).trans h₁)
    · split at h
      · cases h
      · next e c₁ he =>
          cases h
          exact hvalue e (lineExpression_names false c he)

end Script

end Farmhand
