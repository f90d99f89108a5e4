import Mathlib
import Streamling.Support.RuleClosure
import Streamling.Sql.DecimalArbNames

/-!
# Aliases of `decimal_arb` values

An expression counts as `decimal_arb` the more names are recorded and the
fewer are rebound.  So the aliases of a statement have a least set of names
for every set of rebound names, which the collector reaches, and the rebound
names grow from round to round until they are the least ones that agree with
the names, or the rounds run out.
-/

namespace Streamling

namespace SqlTree

open RuleClosure

/-! ## More names, fewer rebound names -/

namespace DecimalArbNames

/-- More names and fewer rebound ones over the same tables. -/
structure Below (scope wider : DecimalArbNames) : Prop where
  names : scope.names ⊆ wider.names
  rebound : wider.rebound ⊆ scope.rebound
  byQualifier : wider.byQualifier = scope.byQualifier
  columns : wider.columns = scope.columns
  structLeaves : wider.structLeaves = scope.structLeaves

variable {scope wider : DecimalArbNames}

theorem Below.structStart (h : scope.Below wider) (parts : List String) :
    wider.structStart parts = scope.structStart parts := by
  simp only [DecimalArbNames.structStart, h.columns, h.byQualifier]

theorem Below.columnIsDecimal
    (h : scope.Below wider) {idents : List Ident}
    (hcolumn : scope.columnIsDecimal idents = true) :
    wider.columnIsDecimal idents = true := by
  unfold DecimalArbNames.columnIsDecimal at hcolumn ⊢
  simp only [h.byQualifier, h.structStart, h.structLeaves]
  rcases hparts : (idents.map Ident.value).reverse with
    _ | ⟨column, _ | ⟨qualifier, rest⟩⟩
  · simp [hparts] at hcolumn
  · simp only [hparts, decide_eq_true_eq] at hcolumn ⊢
    exact h.names hcolumn
  · simp only [hparts] at hcolumn ⊢
    cases hqualifier : scope.byQualifier qualifier with
    | some columns => simpa [hqualifier] using hcolumn
    | none =>
        cases hstart : scope.structStart (idents.map Ident.value) with
        | some start => simpa [hqualifier, hstart] using hcolumn
        | none =>
            simp only [hqualifier, hstart, decide_eq_true_eq] at hcolumn ⊢
            exact h.names hcolumn

theorem Below.isRebound
    (h : scope.Below wider) : ∀ {expr : SqlExpr},
      wider.isRebound expr = true → scope.isRebound expr = true
  | .identifier ident, hexpr => by
      simp only [DecimalArbNames.isRebound, decide_eq_true_eq] at hexpr ⊢
      exact h.rebound hexpr
  | .compoundIdentifier idents, hexpr => by
      simp only [DecimalArbNames.isRebound, h.byQualifier] at hexpr ⊢
      rcases hparts : (idents.map Ident.value).reverse with
        _ | ⟨column, _ | ⟨qualifier, rest⟩⟩
      · simp [hparts] at hexpr
      · simp only [hparts, decide_eq_true_eq] at hexpr ⊢
        exact h.rebound hexpr
      · simp only [hparts, Bool.and_eq_true, decide_eq_true_eq] at hexpr ⊢
        exact ⟨hexpr.1, h.rebound hexpr.2⟩
  | .nested inner, hexpr => by
      simp only [DecimalArbNames.isRebound] at hexpr ⊢
      exact h.isRebound hexpr
  | .value _, hexpr | .unaryOp _ _, hexpr | .binaryOp _ _ _, hexpr
  | .cast _ _ _, hexpr | .case _ _ _, hexpr | .between _ _ _ _, hexpr
  | .inList _ _ _, hexpr | .function _ _ _, hexpr | .array _, hexpr
  | .subquery _, hexpr | .other _ _ _, hexpr => by
      simp [DecimalArbNames.isRebound] at hexpr

theorem Below.head_not_rebound
    (h : scope.Below wider) {args : List SqlExpr}
    (hargs : args.head?.any scope.isRebound = false) :
    args.head?.any wider.isRebound = false := by
  cases args with
  | nil => rfl
  | cons expr args =>
      simp only [List.head?_cons, Option.any_some] at hargs ⊢
      by_contra hrebound
      rw [Bool.not_eq_false] at hrebound
      rw [h.isRebound hrebound] at hargs
      exact Bool.noConfusion hargs

mutual

theorem Below.isDecimal
    (h : scope.Below wider) : ∀ expr : SqlExpr,
      scope.isDecimal expr = true → wider.isDecimal expr = true
  | .identifier ident, hexpr => by
      simp only [DecimalArbNames.isDecimal] at hexpr ⊢
      exact h.columnIsDecimal hexpr
  | .compoundIdentifier idents, hexpr => by
      simp only [DecimalArbNames.isDecimal] at hexpr ⊢
      exact h.columnIsDecimal hexpr
  | .nested inner, hexpr => by
      simp only [DecimalArbNames.isDecimal] at hexpr ⊢
      exact h.isDecimal inner hexpr
  | .unaryOp .minus expr, hexpr => by
      simp only [DecimalArbNames.isDecimal] at hexpr ⊢
      exact h.isDecimal expr hexpr
  | .unaryOp .plus expr, hexpr => by
      simp only [DecimalArbNames.isDecimal] at hexpr ⊢
      exact h.isDecimal expr hexpr
  | .unaryOp (.other name) expr, hexpr => by
      simp [DecimalArbNames.isDecimal] at hexpr
  | .binaryOp left op right, hexpr => by
      simp only [DecimalArbNames.isDecimal, Bool.and_eq_true,
        Bool.or_eq_true] at hexpr ⊢
      exact ⟨hexpr.1, hexpr.2.imp (h.isDecimal left) (h.isDecimal right)⟩
  | .cast kind expr target, hexpr => by
      simpa only [DecimalArbNames.isDecimal] using hexpr
  | .case operand conditions elseResult, hexpr => by
      simp only [DecimalArbNames.isDecimal, Bool.or_eq_true] at hexpr ⊢
      exact hexpr.imp (h.resultIsDecimal conditions)
        (h.optionIsDecimal elseResult)
  | .function name args rest, hexpr => by
      simp only [DecimalArbNames.isDecimal] at hexpr ⊢
      cases hname : functionName name with
      | none => simp [hname] at hexpr
      | some fname =>
          simp only [hname] at hexpr ⊢
          split_ifs at hexpr ⊢
          · rfl
          · simp only [Bool.and_eq_true, Bool.not_eq_true'] at hexpr ⊢
            exact ⟨h.firstIsDecimal args hexpr.1,
              h.head_not_rebound hexpr.2⟩
          · simp only [Bool.and_eq_true] at hexpr ⊢
            exact ⟨hexpr.1, h.anyIsDecimal args hexpr.2⟩
  | .array elem, hexpr => by
      simp only [DecimalArbNames.isDecimal] at hexpr ⊢
      exact h.anyIsDecimal elem hexpr
  | .subquery query, hexpr => by
      simp only [DecimalArbNames.isDecimal] at hexpr ⊢
      exact h.queryIsDecimal query hexpr
  | .value _, hexpr | .between _ _ _ _, hexpr | .inList _ _ _, hexpr
  | .other _ _ _, hexpr => by
      simp [DecimalArbNames.isDecimal] at hexpr

theorem Below.anyIsDecimal
    (h : scope.Below wider) : ∀ exprs : List SqlExpr,
      scope.anyIsDecimal exprs = true → wider.anyIsDecimal exprs = true
  | [], hexprs => by simp [DecimalArbNames.anyIsDecimal] at hexprs
  | expr :: exprs, hexprs => by
      simp only [DecimalArbNames.anyIsDecimal, Bool.or_eq_true] at hexprs ⊢
      exact hexprs.imp (h.isDecimal expr) (h.anyIsDecimal exprs)

theorem Below.firstIsDecimal
    (h : scope.Below wider) : ∀ exprs : List SqlExpr,
      scope.firstIsDecimal exprs = true → wider.firstIsDecimal exprs = true
  | [], hexprs => by simp [DecimalArbNames.firstIsDecimal] at hexprs
  | expr :: exprs, hexprs => by
      simp only [DecimalArbNames.firstIsDecimal] at hexprs ⊢
      exact h.isDecimal expr hexprs

theorem Below.optionIsDecimal
    (h : scope.Below wider) : ∀ option : Option SqlExpr,
      scope.optionIsDecimal option = true →
        wider.optionIsDecimal option = true
  | none, hoption => by simp [DecimalArbNames.optionIsDecimal] at hoption
  | some expr, hoption => by
      simp only [DecimalArbNames.optionIsDecimal] at hoption ⊢
      exact h.isDecimal expr hoption

theorem Below.resultIsDecimal
    (h : scope.Below wider) : ∀ conditions : List CaseWhen,
      scope.resultIsDecimal conditions = true →
        wider.resultIsDecimal conditions = true
  | [], hresults => by simp [DecimalArbNames.resultIsDecimal] at hresults
  | .mk condition result :: conditions, hresults => by
      simp only [DecimalArbNames.resultIsDecimal, Bool.or_eq_true]
        at hresults ⊢
      exact hresults.imp (h.isDecimal result) (h.resultIsDecimal conditions)

theorem Below.queryIsDecimal
    (h : scope.Below wider) : ∀ query : Query,
      scope.queryIsDecimal query = true → wider.queryIsDecimal query = true
  | .mk recursive cteTables body rest, hquery => by
      simp only [DecimalArbNames.queryIsDecimal] at hquery ⊢
      exact h.setExprIsDecimal body hquery

theorem Below.setExprIsDecimal
    (h : scope.Below wider) : ∀ expr : SetExpr,
      scope.setExprIsDecimal expr = true →
        wider.setExprIsDecimal expr = true
  | .select select, hexpr => by
      simp only [DecimalArbNames.setExprIsDecimal] at hexpr ⊢
      exact h.selectIsDecimal select hexpr
  | .setOperation left right, hexpr => by
      simp only [DecimalArbNames.setExprIsDecimal] at hexpr ⊢
      exact h.setExprIsDecimal left hexpr
  | .query query, hexpr => by
      simp only [DecimalArbNames.setExprIsDecimal] at hexpr ⊢
      exact h.queryIsDecimal query hexpr
  | .other exprs, hexpr => by
      simp [DecimalArbNames.setExprIsDecimal] at hexpr

theorem Below.selectIsDecimal
    (h : scope.Below wider) : ∀ select : Select,
      scope.selectIsDecimal select = true →
        wider.selectIsDecimal select = true
  | .mk projection tables selection having rest, hselect => by
      simp only [DecimalArbNames.selectIsDecimal] at hselect ⊢
      exact h.firstItemIsDecimal projection hselect

theorem Below.firstItemIsDecimal
    (h : scope.Below wider) : ∀ items : List SelectItem,
      scope.firstItemIsDecimal items = true →
        wider.firstItemIsDecimal items = true
  | [], hitems => by simp [DecimalArbNames.firstItemIsDecimal] at hitems
  | .unnamedExpr expr :: items, hitems => by
      simp only [DecimalArbNames.firstItemIsDecimal] at hitems ⊢
      exact h.isDecimal expr hitems
  | .exprWithAlias expr aliasName :: items, hitems => by
      simp only [DecimalArbNames.firstItemIsDecimal] at hitems ⊢
      exact h.isDecimal expr hitems
  | .wildcard exprs :: items, hitems => by
      simp [DecimalArbNames.firstItemIsDecimal] at hitems

end

/-! ## The alias collector -/

/-- The scope with other names. -/
def withNames (scope : DecimalArbNames) (names : Finset String) :
    DecimalArbNames :=
  { scope with names := names }

/-- The scope with other rebound names. -/
def withRebound (scope : DecimalArbNames) (rebound : Finset String) :
    DecimalArbNames :=
  { scope with rebound := rebound }

/-- Each binding of a projection as a rule on the recorded names. -/
def aliasRules (stmt : Statement) (scope : DecimalArbNames) :
    List (Rule String) :=
  stmt.aliasBindings.map fun binding =>
    (binding.1, fun names => (scope.withNames names).isDecimal binding.2)

theorem below_withNames
    (scope : DecimalArbNames) {small large : Finset String}
    (h : small ⊆ large) :
    (scope.withNames small).Below (scope.withNames large) :=
  ⟨h, Finset.Subset.refl _, rfl, rfl, rfl⟩

theorem monotoneTests_aliasRules
    (stmt : Statement) (scope : DecimalArbNames) :
    MonotoneTests (aliasRules stmt scope) := by
  intro rule hrule small large hle htest
  obtain ⟨binding, -, rfl⟩ := List.mem_map.mp hrule
  exact (scope.below_withNames hle).isDecimal binding.2 htest

theorem aliasRules_withNames
    (stmt : Statement) (scope : DecimalArbNames) (names : Finset String) :
    aliasRules stmt (scope.withNames names) = aliasRules stmt scope := rfl

theorem keys_aliasRules (stmt : Statement) (scope : DecimalArbNames) :
    keys (aliasRules stmt scope) =
      (stmt.aliasBindings.map Prod.fst).toFinset := by
  simp [keys, aliasRules, Function.comp_def]

theorem recordAliases_eq_pass
    (stmt : Statement) (scope : DecimalArbNames) (names : Finset String) :
    (scope.withNames names).recordAliases stmt =
      scope.withNames (RuleClosure.pass (aliasRules stmt scope) names) := by
  unfold recordAliases RuleClosure.pass aliasRules
  induction stmt.aliasBindings generalizing names with
  | nil => rfl
  | cons binding bindings ih =>
      simp only [List.foldl_cons, List.map_cons, Rule.apply]
      split_ifs
      · exact ih (insert binding.1 names)
      · exact ih names

theorem collectAliases_eq_saturate
    (stmt : Statement) (scope : DecimalArbNames) (fuel : ℕ)
    (names : Finset String) :
    collectAliases stmt fuel (scope.withNames names) =
      scope.withNames (saturate (aliasRules stmt scope) fuel names) := by
  induction fuel generalizing names with
  | zero => rfl
  | succ fuel ih =>
      simp only [collectAliases, saturate, recordAliases_eq_pass]
      by_cases hcard :
          (RuleClosure.pass (aliasRules stmt scope) names).card = names.card
      · rw [if_pos hcard]
        exact if_pos hcard
      · rw [if_neg hcard, ← ih]
        exact if_neg hcard

/-- The names that hold over `base` while `rebound` are rebound. -/
def leastNames (stmt : Statement) (scope : DecimalArbNames)
    (base rebound : Finset String) : Finset String :=
  saturate (aliasRules stmt (scope.withRebound rebound)) (aliasFuel stmt)
    base

theorem isLeast_leastNames
    (stmt : Statement) (scope : DecimalArbNames)
    (base rebound : Finset String) :
    IsLeast
      {names | base ⊆ names ∧
        Closed (aliasRules stmt (scope.withRebound rebound)) names}
      (leastNames stmt scope base rebound) := by
  apply isLeast_saturate (monotoneTests_aliasRules stmt _)
  rw [keys_aliasRules, aliasFuel]
  exact Nat.lt_succ_self _

/-- Fewer rebound names leave no fewer names. -/
theorem leastNames_anti
    (stmt : Statement) (scope : DecimalArbNames) (base : Finset String)
    {small large : Finset String} (h : small ⊆ large) :
    leastNames stmt scope base large ⊆ leastNames stmt scope base small := by
  apply (isLeast_leastNames stmt scope base large).2
  have hsmall := (isLeast_leastNames stmt scope base small).1
  refine ⟨hsmall.1, fun rule hrule htest => ?_⟩
  obtain ⟨binding, hbinding, rfl⟩ := List.mem_map.mp hrule
  have hbelow :
      ((scope.withRebound large).withNames
        (leastNames stmt scope base small)).Below
        ((scope.withRebound small).withNames
          (leastNames stmt scope base small)) :=
    ⟨Finset.Subset.refl _, h, rfl, rfl, rfl⟩
  exact hsmall.2
    (binding.1, fun names =>
      ((scope.withRebound small).withNames names).isDecimal binding.2)
    (List.mem_map.mpr ⟨binding, hbinding, rfl⟩)
    (hbelow.isDecimal binding.2 htest)

/-- The scope of one round. -/
def roundScope (stmt : Statement) (scope : DecimalArbNames)
    (base rebound : Finset String) : DecimalArbNames :=
  (scope.withRebound rebound).withNames (leastNames stmt scope base rebound)

theorem below_roundScope
    (stmt : Statement) (scope : DecimalArbNames) (base : Finset String)
    {small large : Finset String} (h : small ⊆ large) :
    (roundScope stmt scope base large).Below
      (roundScope stmt scope base small) where
  names := leastNames_anti stmt scope base h
  rebound := h
  byQualifier := by simp only [roundScope, withNames, withRebound]
  columns := by simp only [roundScope, withNames, withRebound]
  structLeaves := by simp only [roundScope, withNames, withRebound]

/-- The rebound names that the names of one round leave. -/
def nextRebound (stmt : Statement) (scope : DecimalArbNames)
    (base rebound : Finset String) : Finset String :=
  (roundScope stmt scope base rebound).collectRebound stmt

theorem nextRebound_mono
    (stmt : Statement) (scope : DecimalArbNames) (base : Finset String)
    ⦃small large : Finset String⦄ (h : small ⊆ large) :
    nextRebound stmt scope base small ⊆
      nextRebound stmt scope base large := by
  have hbelow := below_roundScope stmt scope base h
  intro name hname
  simp only [nextRebound, collectRebound, List.mem_toFinset, List.mem_map,
    List.mem_filter, Bool.not_eq_true'] at hname ⊢
  obtain ⟨binding, ⟨hbinding, hnot⟩, rfl⟩ := hname
  refine ⟨binding, ⟨hbinding, ?_⟩, rfl⟩
  by_contra hdecimal
  rw [Bool.not_eq_false] at hdecimal
  rw [hbelow.isDecimal binding.2 hdecimal] at hnot
  exact Bool.noConfusion hnot

/-- Names and rebound names that agree: the names are the least ones while
`scope.rebound` are rebound, and these are what the names leave rebound. -/
structure Settled (stmt : Statement) (base : Finset String)
    (scope : DecimalArbNames) : Prop where
  least : IsLeast
    {names | base ⊆ names ∧ Closed (aliasRules stmt scope) names}
    scope.names
  rebound : scope.rebound = scope.collectRebound stmt

theorem settled_roundScope
    {stmt : Statement} {scope : DecimalArbNames} {base rebound : Finset String}
    (h : nextRebound stmt scope base rebound = rebound) :
    Settled stmt base (roundScope stmt scope base rebound) := by
  refine ⟨?_, h.symm⟩
  rw [roundScope, aliasRules_withNames]
  exact isLeast_leastNames stmt scope base rebound

theorem collectAliases_roundScope
    (stmt : Statement) (scope : DecimalArbNames)
    (base rebound : Finset String) :
    collectAliases stmt (aliasFuel stmt)
        ((scope.withRebound rebound).withNames base) =
      roundScope stmt scope base rebound :=
  collectAliases_eq_saturate stmt (scope.withRebound rebound) _ base

/-- Another scope over the same tables. -/
def SameTables (scope other : DecimalArbNames) : Prop :=
  other = (scope.withRebound other.rebound).withNames other.names

section Rounds

variable (stmt : Statement) (scope : DecimalArbNames) (base : Finset String)

theorem collectRounds_succ (rounds : ℕ) (names rebound : Finset String) :
    collectRounds stmt base (rounds + 1)
        ((scope.withRebound rebound).withNames names) =
      if nextRebound stmt scope base rebound = rebound then
        roundScope stmt scope base rebound
      else
        collectRounds stmt base rounds
          ((scope.withRebound (nextRebound stmt scope base rebound)).withNames
            (leastNames stmt scope base rebound)) := by
  have hrecorded : collectAliases stmt (aliasFuel stmt)
      { (scope.withRebound rebound).withNames names with names := base } =
      roundScope stmt scope base rebound :=
    collectAliases_roundScope stmt scope base rebound
  simp only [collectRounds, hrecorded]
  rfl

/-- The rounds follow the iteration of `nextRebound`: they stop at its first
fixed point, or end after the last round with the names of that round and the
rebound names that these leave. -/
theorem collectRounds_spec (rounds : ℕ) :
    ∀ names rebound : Finset String,
      let next := nextRebound stmt scope base
      let result := collectRounds stmt base rounds
        ((scope.withRebound rebound).withNames names)
      scope.SameTables result ∧
      ((∃ k < rounds, next^[k + 1] rebound = next^[k] rebound ∧
          result = roundScope stmt scope base (next^[k] rebound)) ∨
        (∀ k < rounds, next^[k + 1] rebound ≠ next^[k] rebound) ∧
          result.rebound = next^[rounds] rebound ∧
          ∀ last, rounds = last + 1 →
            result.names =
              leastNames stmt scope base (next^[last] rebound)) := by
  induction rounds with
  | zero => exact fun names rebound =>
      ⟨rfl, Or.inr ⟨nofun, rfl, nofun⟩⟩
  | succ rounds ih =>
      intro names rebound next result
      by_cases hfixed : next rebound = rebound
      · have hstop : result = roundScope stmt scope base rebound :=
          (collectRounds_succ stmt scope base rounds names rebound).trans
            (if_pos hfixed)
        rw [hstop]
        exact ⟨rfl, Or.inl ⟨0, Nat.succ_pos _, hfixed, rfl⟩⟩
      · have hgo : result = collectRounds stmt base rounds
            ((scope.withRebound (next rebound)).withNames
              (leastNames stmt scope base rebound)) :=
          (collectRounds_succ stmt scope base rounds names rebound).trans
            (if_neg hfixed)
        obtain ⟨hsame, hends⟩ :=
          ih (leastNames stmt scope base rebound) (next rebound)
        rw [hgo]
        refine ⟨hsame, ?_⟩
        rcases hends with ⟨k, hk, hstops, hresult⟩ | ⟨hmoves, hrest, hnames⟩
        · exact Or.inl ⟨k + 1, Nat.succ_lt_succ hk, hstops, hresult⟩
        · refine Or.inr ⟨?_, hrest, ?_⟩
          · intro k hk
            cases k with
            | zero => exact hfixed
            | succ k => exact hmoves k (Nat.lt_of_succ_lt_succ hk)
          · intro last hlast
            obtain rfl : rounds = last := Nat.succ.inj hlast
            cases rounds with
            | zero => rfl
            | succ last => exact hnames last rfl

end Rounds

theorem Settled.eq_roundScope
    {stmt : Statement} {scope other : DecimalArbNames} {base : Finset String}
    (hsame : scope.SameTables other) (h : Settled stmt base other) :
    other = roundScope stmt scope base other.rebound := by
  have hnames : other.names =
      leastNames stmt scope base other.rebound := by
    apply h.least.unique
    rw [hsame]
    exact isLeast_leastNames stmt scope base other.rebound
  rw [roundScope, ← hnames]
  exact hsame

theorem Settled.nextRebound_eq
    {stmt : Statement} {scope other : DecimalArbNames} {base : Finset String}
    (hsame : scope.SameTables other) (h : Settled stmt base other) :
    nextRebound stmt scope base other.rebound = other.rebound := by
  rw [nextRebound, ← h.eq_roundScope hsame]
  exact h.rebound.symm

/-- Every scope that is settled has at least the rebound names of the rounds
and at most their names. -/
theorem collectRounds_bounds
    {stmt : Statement} {scope other : DecimalArbNames} {base : Finset String}
    (hsame : scope.SameTables other) (h : Settled stmt base other)
    (rounds : ℕ) :
    ∀ (names rebound : Finset String), rebound ⊆ other.rebound →
      (rounds = 0 → other.names ⊆ names) →
        let result := collectRounds stmt base rounds
          ((scope.withRebound rebound).withNames names)
        result.rebound ⊆ other.rebound ∧ other.names ⊆ result.names := by
  induction rounds with
  | zero => exact fun names rebound hle hnames => ⟨hle, hnames rfl⟩
  | succ rounds ih =>
      intro names rebound hle _
      have hnames : other.names ⊆ leastNames stmt scope base rebound := by
        have hother := congrArg DecimalArbNames.names (h.eq_roundScope hsame)
        rw [hother]
        exact leastNames_anti stmt scope base hle
      have hnext : nextRebound stmt scope base rebound ⊆ other.rebound := by
        rw [← h.nextRebound_eq hsame]
        exact nextRebound_mono stmt scope base hle
      rw [collectRounds_succ]
      split_ifs
      · exact ⟨hle, hnames⟩
      · exact ih (leastNames stmt scope base rebound)
          (nextRebound stmt scope base rebound) hnext (fun _ => hnames)

/-- The names collected for a statement agree with their own rebound names,
unless each of the eight rounds has added a rebound name; then they are the
names of the last round, with the rebound names these leave.  No names that
agree have fewer rebound names or more names. -/
theorem collect_settles
    (stmt : Statement) (scope : DecimalArbNames)
    (hrebound : scope.rebound = ∅) :
    let next := nextRebound stmt scope scope.names
    scope.SameTables (collect stmt scope) ∧
      (Settled stmt scope.names (collect stmt scope) ∨
        (∀ round < 8, next^[round] ∅ ⊂ next^[round + 1] ∅) ∧
          (collect stmt scope).rebound = next^[8] ∅ ∧
          IsLeast
            {names | scope.names ⊆ names ∧
              Closed (aliasRules stmt (scope.withRebound (next^[7] ∅))) names}
            (collect stmt scope).names) ∧
      ∀ other, scope.SameTables other → Settled stmt scope.names other →
        (collect stmt scope).rebound ⊆ other.rebound ∧
          other.names ⊆ (collect stmt scope).names := by
  intro next
  have hstart : scope = (scope.withRebound ∅).withNames scope.names := by
    rw [← hrebound]
    rfl
  have hcollect : collect stmt scope =
      collectRounds stmt scope.names 8
        ((scope.withRebound ∅).withNames scope.names) := by
    rw [← hstart]
    rfl
  obtain ⟨hsame, hends⟩ :=
    collectRounds_spec stmt scope scope.names 8 scope.names ∅
  rw [← hcollect] at hsame hends
  refine ⟨hsame, ?_, ?_⟩
  · rcases hends with ⟨k, -, hstops, hresult⟩ | ⟨hmoves, hrest, hnames⟩
    · left
      rw [hresult]
      apply settled_roundScope
      rw [Function.iterate_succ_apply' next k ∅] at hstops
      exact hstops
    · refine Or.inr ⟨?_, hrest, ?_⟩
      · intro round hround
        have hmono : Monotone fun n => next^[n] (∅ : Finset String) :=
          Monotone.monotone_iterate_of_le_map
            (fun _ _ h => nextRebound_mono stmt scope scope.names h)
            (Finset.empty_subset _)
        exact Finset.ssubset_iff_subset_ne.mpr
          ⟨hmono (Nat.le_succ round), (hmoves round hround).symm⟩
      · rw [hnames 7 rfl]
        exact isLeast_leastNames stmt scope scope.names _
  · intro other hother hsettled
    rw [hcollect]
    exact collectRounds_bounds hother hsettled 8 scope.names ∅
      (Finset.empty_subset _) (fun h => absurd h (by decide))

/-- `SELECT column AS aliasName FROM table`. -/
def selectAs (column aliasName table : String) : SetExpr :=
  .select
    (.mk
      [.exprWithAlias (.identifier ⟨column, none⟩) ⟨aliasName, none⟩]
      [.mk (.table [⟨table, none⟩] none []) [] []] none none [])

/-- `amount` is `decimal_arb`, and a common table calls it `a`. -/
theorem collect_settles_of_alias :
    let stmt := Statement.query
      (.mk false [.mk ⟨⟨"c", none⟩, []⟩
        (.mk false [] (selectAs "amount" "a" "t") [])]
        (selectAs "a" "b" "c") [])
    let scope : DecimalArbNames := ⟨{"amount"}, fun _ => none, ∅, ∅, ∅⟩
    Settled stmt {"amount"} (collect stmt scope) ∧
      (collect stmt scope).names = {"amount", "a", "b"} := by
  intro stmt scope
  constructor
  · apply (collect_settles stmt scope rfl).2.1.resolve_right
    rintro ⟨hgrows, -⟩
    exact absurd (hgrows 0 (by decide)) (by decide +kernel)
  · decide +kernel

end DecimalArbNames

end SqlTree

end Streamling
