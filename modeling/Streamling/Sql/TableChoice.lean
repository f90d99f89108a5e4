import Mathlib
import Streamling.Sql.DecimalArbRewrite

/-!
# The choice of a base table

Which tables the preprocessor may return, over all orders of its hash sets.
An order can be made to prefer one table, or to avoid one, and with these two
every table that a name may stand for is reached, and every table that is not
read alone is missed.
-/

namespace Streamling

namespace SqlTree

open ArrowTree (ArrowField)

/-! ## Extraction and names -/

/-- An extraction either fails in one way or resolves the names. -/
def Extracts
    (extract : (String → String) → List String →
      Except ParserError (List String))
    (names : List String) : Prop :=
  (∃ cause, ∀ resolve tables, extract resolve tables = .error cause) ∨
    (names ≠ [] ∧ ∀ resolve tables,
      extract resolve tables = .ok (tables ++ names.map resolve))

mutual

theorem extracts_setExpr (expr : SetExpr) :
    Extracts (fun resolve tables => extractFrom resolve expr tables)
      expr.fromNames := by
  cases expr with
  | select select =>
      simp only [extractFrom, SetExpr.fromNames]
      exact extracts_select select
  | setOperation left right =>
      simp only [extractFrom, SetExpr.fromNames]
      rcases extracts_setExpr left with ⟨cause, hleft⟩ | ⟨hne, hleft⟩
      · exact Or.inl ⟨cause, fun resolve tables => by
          simp only [hleft, bind, Except.bind]⟩
      rcases extracts_setExpr right with ⟨cause, hright⟩ | ⟨-, hright⟩
      · exact Or.inl ⟨cause, fun resolve tables => by
          simp only [hleft, hright, bind, Except.bind]⟩
      · refine Or.inr ⟨by simp [hne], fun resolve tables => ?_⟩
        simp only [hleft, hright, bind, Except.bind, List.map_append,
          List.append_assoc]
  | query query =>
      exact Or.inl ⟨"Only SELECT query supported", fun _ _ => rfl⟩
  | other exprs =>
      exact Or.inl ⟨"Only SELECT query supported", fun _ _ => rfl⟩

theorem extracts_select (select : Select) :
    Extracts (fun resolve tables => extractFromSelect resolve select tables)
      select.fromNames := by
  rcases select with ⟨projection, tables, selection, having, rest⟩
  rcases tables with _ | ⟨⟨relation, joins, constraints⟩, _ | ⟨next, more⟩⟩
  · exact Or.inl ⟨"Expected single query with FROM", fun _ _ => rfl⟩
  · rcases joins with _ | ⟨joined, joins⟩
    · simp only [extractFromSelect, Select.fromNames, tablesFromNames,
        List.append_nil]
      exact extracts_factor relation
    · exact Or.inl ⟨"JOIN queries not supported", fun _ _ => rfl⟩
  · refine Or.inl ⟨"Expected single query with FROM", fun _ _ => ?_⟩
    cases joins <;> rfl

theorem extracts_factor (factor : TableFactor) :
    Extracts (fun resolve tables => extractFromFactor resolve factor tables)
      factor.fromNames := by
  cases factor with
  | table name tableAlias args =>
      refine Or.inr ⟨by simp [TableFactor.fromNames], fun resolve tables => ?_⟩
      simp only [extractFromFactor, TableFactor.fromNames, List.map_cons,
        List.map_nil]
  | derived subquery tableAlias =>
      simp only [extractFromFactor, TableFactor.fromNames]
      exact extracts_query subquery
  | other factors exprs =>
      exact Or.inl
        ⟨"Only tables with from <table_name> is supported", fun _ _ => rfl⟩

theorem extracts_query (query : Query) :
    Extracts (fun resolve tables => extractFromQuery resolve query tables)
      query.fromNames := by
  rcases query with ⟨recursive, cteTables, body, rest⟩
  simp only [extractFromQuery, Query.fromNames]
  exact extracts_setExpr body

end

/-! ## Values of common tables -/

theorem lookup_cons_getD
    {α : Type} (key : String) (value : α) (pairs : List (String × α))
    (name : String) (default : α) :
    (((key, value) :: pairs).lookup name).getD default =
      if name = key then value else (pairs.lookup name).getD default := by
  by_cases h : name = key
  · simp [List.lookup, h]
  · have hne : (name == key) = false := by simpa using h
    simp [List.lookup, h, hne]

theorem mem_union_iff {x : String} {sets : List (Finset String)} :
    x ∈ sets.foldr (· ∪ ·) ∅ ↔ ∃ set ∈ sets, x ∈ set := by
  induction sets with
  | nil => simp
  | cons set sets ih => simp [ih]

/-- What relates a table that was taken to all that could be, kept by the
choice that `order` makes. -/
structure ChoiceRelation (order : HashOrder)
    (R : String → Finset String → Prop) : Prop where
  name : ∀ name, R name {name}
  choose : ∀ (n : ℕ) (names : List String) (value : String → String)
    (sets : String → Finset String) (base : String),
    (∀ name ∈ names, R (value name) (sets name)) →
      (order.iter n (names.map value).toFinset).head? = some base →
        R base ((names.map sets).foldr (· ∪ ·) ∅)

/-- The tables taken so far are related to the candidates. -/
def Related (R : String → Finset String → Prop)
    (ctes : CteBaseTables) (scope : CteScope) : Prop :=
  ∀ name, R (ctes.resolve name) (scope.candidates name)

theorem ChoiceRelation.related_nil
    {order : HashOrder} {R : String → Finset String → Prop}
    (hR : ChoiceRelation order R) :
    Related R [] [] :=
  fun name => hR.name name

theorem exists_head_of_ne_nil
    (order : HashOrder) (n : ℕ) {tables : List String} (h : tables ≠ []) :
    ∃ base ∈ tables, (order.iter n tables.toFinset).head? = some base := by
  cases hiter : order.iter n tables.toFinset with
  | nil =>
      obtain ⟨table, htable⟩ := List.exists_mem_of_ne_nil tables h
      have hmem : table ∈ order.iter n tables.toFinset :=
        (order.mem_iter n _ table).mpr (List.mem_toFinset.mpr htable)
      rw [hiter] at hmem
      exact absurd hmem List.not_mem_nil
  | cons base rest =>
      have hmem : base ∈ order.iter n tables.toFinset := by
        rw [hiter]
        exact List.mem_cons_self
      exact ⟨base, List.mem_toFinset.mp ((order.mem_iter n _ base).mp hmem),
        rfl⟩

theorem ChoiceRelation.related_insertCte
    {order : HashOrder} {R : String → Finset String → Prop}
    (hR : ChoiceRelation order R)
    {ctes : CteBaseTables} {scope : CteScope} (h : Related R ctes scope)
    (n : ℕ) (tableAlias : TableAlias) {names : List String}
    (hne : names ≠ []) :
    Related R
      (insertCte order n tableAlias (names.map ctes.resolve) ctes)
      ((tableAlias.name.display,
        (names.map scope.candidates).foldr (· ∪ ·) ∅) :: scope) := by
  obtain ⟨base, -, hbase⟩ :=
    exists_head_of_ne_nil order n
      (show names.map ctes.resolve ≠ [] by simpa using hne)
  intro name
  simp only [insertCte, hbase, CteBaseTables.resolve, CteScope.candidates,
    lookup_cons_getD]
  split_ifs
  · exact hR.choose n names ctes.resolve scope.candidates base
      (fun name _ => h name) hbase
  · exact h name

/-- Every common table is related to its candidates, and whether a list of
them is accepted does not depend on the order. -/
theorem ChoiceRelation.related_resolveCtes
    {order : HashOrder} {R : String → Finset String → Prop}
    (hR : ChoiceRelation order R) (cteTables : List Cte) :
    ∀ {n : ℕ} {ctes result : CteBaseTables} {scope : CteScope},
      Related R ctes scope →
        resolveCtes order n cteTables ctes = .ok result →
          Related R result (candidateCtes cteTables scope) := by
  induction cteTables with
  | nil =>
      intro n ctes result scope h hok
      simp only [resolveCtes, Except.ok.injEq] at hok
      exact hok ▸ h
  | cons cte cteTables ih =>
      rcases cte with ⟨tableAlias, recursive, nested, body, rest⟩
      intro n ctes result scope h hok
      simp only [resolveCtes, extractFromSetExprWithCtes] at hok
      rcases extracts_setExpr body with ⟨cause, hbody⟩ | ⟨hne, hbody⟩
      · simp only [hbody, bind, Except.bind, reduceCtorEq] at hok
      · simp only [hbody, bind, Except.bind, List.nil_append] at hok
        exact ih (hR.related_insertCte h n tableAlias hne) hok

theorem exists_resolveCtes
    {order order' : HashOrder} (cteTables : List Cte) :
    ∀ {n : ℕ} {ctes ctes' result : CteBaseTables},
      resolveCtes order n cteTables ctes = .ok result →
        ∃ result', resolveCtes order' n cteTables ctes' = .ok result' := by
  induction cteTables with
  | nil => exact fun _ => ⟨_, rfl⟩
  | cons cte cteTables ih =>
      rcases cte with ⟨tableAlias, recursive, nested, body, rest⟩
      intro n ctes ctes' result hok
      simp only [resolveCtes, extractFromSetExprWithCtes] at hok ⊢
      rcases extracts_setExpr body with ⟨cause, hbody⟩ | ⟨-, hbody⟩
      · simp only [hbody, bind, Except.bind, reduceCtorEq] at hok
      · simp only [hbody, bind, Except.bind] at hok ⊢
        exact ih hok

/-! ## The tables of an accepted query -/

/-- The candidates of the names of the main query. -/
def Query.cteScope : Query → CteScope
  | .mk _ cteTables _ _ => candidateCtes cteTables []

theorem Query.expansions_eq (query : Query) :
    query.expansions = query.fromNames.map query.cteScope.candidates := by
  rcases query with ⟨recursive, cteTables, body, rest⟩
  rfl

def Query.Accepted (query : Query) : Prop :=
  ∃ order tables,
    extractTableReferencesFromStmt order (.query query) = .ok tables

theorem Query.Accepted.tables_eq
    {query : Query} (h : query.Accepted) (order : HashOrder) :
    query.fromNames ≠ [] ∧ ∃ ctes : CteBaseTables,
      extractTableReferencesFromStmt order (.query query) =
          .ok (query.fromNames.map ctes.resolve) ∧
        ∀ R, ChoiceRelation order R → Related R ctes query.cteScope := by
  obtain ⟨order₀, tables, hok⟩ := h
  rcases query with ⟨recursive, cteTables, body, rest⟩
  cases recursive with
  | true => cases hok
  | false =>
      simp only [extractTableReferencesFromStmt,
        extractTableReferencesFromQuery, Bool.false_eq_true, if_false, bind,
        Except.bind] at hok ⊢
      cases hctes : resolveCtes order₀ 0 cteTables [] with
      | error cause => simp [hctes] at hok
      | ok ctes₀ =>
          obtain ⟨ctes, hresolved⟩ :
              ∃ result, resolveCtes order 0 cteTables [] = .ok result :=
            exists_resolveCtes cteTables hctes
          simp only [hctes, hresolved, extractFromSetExpr,
            extractFromSetExprWithCtes] at hok ⊢
          rcases extracts_setExpr body with ⟨cause, hbody⟩ | ⟨hne, hbody⟩
          · simp [hbody] at hok
          · refine ⟨hne, ctes, ?_, fun R hR =>
              hR.related_resolveCtes cteTables hR.related_nil hresolved⟩
            simp only [hbody, List.nil_append, Query.fromNames]
            split_ifs with hempty
            · rw [List.isEmpty_iff.mp hempty]
              rfl
            · rfl

/-! ## Orders that prefer and avoid a table -/

/-- Every set begins with `table` where it holds it. -/
def HashOrder.preferring (table : String) : HashOrder where
  iter _ s :=
    if table ∈ s then table :: (s.erase table).sort else s.sort
  nodup _ s := by split_ifs <;> simp
  mem_iter _ s x := by
    split_ifs with h
    · by_cases hx : x = table <;> simp [hx, h]
    · simp

/-- Every set ends with `table` where it holds it. -/
def HashOrder.avoiding (table : String) : HashOrder where
  iter _ s :=
    if table ∈ s then (s.erase table).sort ++ [table] else s.sort
  nodup _ s := by
    split_ifs
    · simp +contextual [List.nodup_append]
    · simp
  mem_iter _ s x := by
    split_ifs with h
    · by_cases hx : x = table <;> simp [hx, h]
    · simp

theorem choiceRelation_mem (order : HashOrder) :
    ChoiceRelation order (fun table tables => table ∈ tables) := by
  refine ⟨fun name => by simp, fun n names value sets base h hbase => ?_⟩
  have hmem : base ∈ (names.map value).toFinset :=
    (order.mem_iter n _ base).mp (List.mem_of_mem_head? hbase)
  simp only [List.mem_toFinset, List.mem_map] at hmem
  obtain ⟨name, hname, rfl⟩ := hmem
  exact mem_union_iff.mpr
    ⟨sets name, List.mem_map_of_mem hname, h name hname⟩

theorem choiceRelation_preferring (table : String) :
    ChoiceRelation (.preferring table)
      (fun taken tables => table ∈ tables → taken = table) := by
  refine ⟨fun name h => (Finset.mem_singleton.mp h).symm,
    fun n names value sets base h hbase hmem => ?_⟩
  obtain ⟨set, hset, hin⟩ := mem_union_iff.mp hmem
  obtain ⟨name, hname, rfl⟩ := List.mem_map.mp hset
  have htable : table ∈ (names.map value).toFinset :=
    List.mem_toFinset.mpr
      (List.mem_map.mpr ⟨name, hname, h name hname hin⟩)
  simp only [HashOrder.preferring, htable, if_true, List.head?_cons,
    Option.some.injEq] at hbase
  exact hbase.symm

theorem choiceRelation_avoiding (table : String) :
    ChoiceRelation (.avoiding table)
      (fun taken tables => taken = table → tables ⊆ {table}) := by
  refine ⟨fun name h => by simp [h], fun n names value sets base h hbase
    heq => ?_⟩
  subst heq
  have hall : ∀ name ∈ names, value name = base := by
    by_contra hother
    push Not at hother
    obtain ⟨name, hname, hne⟩ := hother
    have hvalue :
        value name ∈ ((names.map value).toFinset.erase base).sort := by
      simp only [Finset.mem_sort, Finset.mem_erase, List.mem_toFinset]
      exact ⟨hne, List.mem_map_of_mem hname⟩
    cases hsort : ((names.map value).toFinset.erase base).sort with
    | nil => simp [hsort] at hvalue
    | cons first rest =>
        have hfirst : first ∈ ((names.map value).toFinset.erase base).sort := by
          simp [hsort]
        have hne' : first ≠ base := by
          simp only [Finset.mem_sort, Finset.mem_erase] at hfirst
          exact hfirst.1
        apply hne'
        by_cases hin : base ∈ (names.map value).toFinset
        · simpa [HashOrder.avoiding, hin, hsort] using hbase
        · rw [Finset.erase_eq_of_notMem hin] at hsort
          simpa [HashOrder.avoiding, hin, hsort] using hbase
  intro x hx
  obtain ⟨set, hset, hin⟩ := mem_union_iff.mp hx
  obtain ⟨name, hname, rfl⟩ := List.mem_map.mp hset
  exact h name hname (hall name hname) hin

/-! ## Which tables are returned -/

/-- Whatever the order, the tables returned are those that the query reads. -/
def Query.TablesExact (query : Query) : Prop :=
  ∀ order tables,
    extractTableReferencesFromStmt order (.query query) = .ok tables →
      tables.toFinset = query.baseTables

theorem Query.Accepted.tablesExact_iff
    {query : Query} (h : query.Accepted) :
    query.TablesExact ↔ query.ReadsAlone := by
  simp only [Query.ReadsAlone, query.expansions_eq, List.mem_map,
    forall_exists_index, and_imp, forall_apply_eq_imp_iff₂]
  constructor
  · intro hexact
    refine ⟨fun name hname table htable => ?_, fun table htable => ?_⟩
    · obtain ⟨-, ctes, htables, hrelated⟩ := h.tables_eq (.preferring table)
      have htaken : ctes.resolve name = table :=
        hrelated _ (choiceRelation_preferring table) name htable
      rw [← hexact _ _ htables, List.mem_toFinset, ← htaken]
      exact List.mem_map_of_mem hname
    · obtain ⟨-, ctes, htables, hrelated⟩ := h.tables_eq (.avoiding table)
      rw [← hexact _ _ htables, List.mem_toFinset] at htable
      obtain ⟨name, hname, htaken⟩ := List.mem_map.mp htable
      refine ⟨name, hname, ?_⟩
      apply Finset.Subset.antisymm
      · exact hrelated _ (choiceRelation_avoiding table) name htaken
      · rw [Finset.singleton_subset_iff, ← htaken]
        exact hrelated _ (choiceRelation_mem _) name
  · rintro ⟨hreads, halone⟩ order tables htables
    obtain ⟨-, ctes, htables', hrelated⟩ := h.tables_eq order
    rw [htables'] at htables
    obtain rfl := Except.ok.inj htables
    ext table
    simp only [List.mem_toFinset, List.mem_map]
    constructor
    · rintro ⟨name, hname, rfl⟩
      exact hreads name hname (hrelated _ (choiceRelation_mem _) name)
    · intro htable
      obtain ⟨name, hname, hset⟩ := halone table htable
      have htaken : ctes.resolve name ∈ query.cteScope.candidates name :=
        hrelated _ (choiceRelation_mem _) name
      rw [hset, Finset.mem_singleton] at htaken
      exact ⟨name, hname, htaken⟩

end SqlTree

end Streamling
