import Mathlib
import Streamling.Support.ExceptLists
import Streamling.Sql.Statements

/-!
# The tables of a statement

The preprocessor asks which tables a statement reads, since their columns
decide what is rewritten.  A common table expression is replaced by one of
the tables below it, taken from a hash set.

`Query.baseTables` says what the statement reads under the scoping of SQL:
every query sees the common tables of the queries around it and its own.
`Query.expansions` keeps, for every table of the main query, all that the
preprocessor may take it for.
-/

namespace Streamling

namespace SqlTree

/-! ## Extraction -/

abbrev ParserError : Type := String

section Extract

variable (resolve : String → String)

mutual

/-- The tables of a set expression, each replaced as `resolve` says. -/
def extractFrom :
    SetExpr → List String → Except ParserError (List String)
  | .select select, tables => extractFromSelect select tables
  | .setOperation left right, tables => do
      let tables ← extractFrom left tables
      extractFrom right tables
  | .query _, _ => .error "Only SELECT query supported"
  | .other _, _ => .error "Only SELECT query supported"

def extractFromSelect :
    Select → List String → Except ParserError (List String)
  | .mk _ [.mk relation [] _] _ _ _, tables =>
      extractFromFactor relation tables
  | .mk _ [.mk _ (_ :: _) _] _ _ _, _ =>
      .error "JOIN queries not supported"
  | .mk _ [] _ _ _, _ => .error "Expected single query with FROM"
  | .mk _ (_ :: _ :: _) _ _ _, _ =>
      .error "Expected single query with FROM"

def extractFromFactor :
    TableFactor → List String → Except ParserError (List String)
  | .table name _ _, tables =>
      .ok (tables ++ [resolve (ObjectName.display name)])
  | .derived subquery _, tables => extractFromQuery subquery tables
  | .other _ _, _ =>
      .error "Only tables with from <table_name> is supported"

/-- Only the body of a subquery is looked into. -/
def extractFromQuery :
    Query → List String → Except ParserError (List String)
  | .mk _ _ body _, tables => extractFrom body tables

end

end Extract

def extractFromSetExpr
    (expr : SetExpr) (tables : List String) :
    Except ParserError (List String) :=
  extractFrom id expr tables

/-- The base table of each common table, the latest first. -/
abbrev CteBaseTables : Type := List (String × String)

def CteBaseTables.resolve (ctes : CteBaseTables) (name : String) : String :=
  (ctes.lookup name).getD name

def extractFromSetExprWithCtes
    (expr : SetExpr) (ctes : CteBaseTables) (tables : List String) :
    Except ParserError (List String) :=
  extractFrom ctes.resolve expr tables

/-- The order in which each hash set of a run is iterated, by the number of
the set. -/
structure HashOrder where
  iter : ℕ → Finset String → List String
  nodup : ∀ n s, (iter n s).Nodup
  mem_iter : ∀ n s x, x ∈ iter n s ↔ x ∈ s

section References

variable (order : HashOrder)

/-- One common table, the `n`-th: the first of its distinct tables in the
order of the hash set, whether there is one or more of them. -/
def insertCte (n : ℕ) (tableAlias : TableAlias) (cteTables : List String)
    (ctes : CteBaseTables) : CteBaseTables :=
  match (order.iter n cteTables.toFinset).head? with
  | some base => (tableAlias.name.display, base) :: ctes
  | none => ctes

def resolveCtes :
    ℕ → List Cte → CteBaseTables → Except ParserError CteBaseTables
  | _, [], ctes => .ok ctes
  | n, .mk tableAlias (.mk _ _ body _) :: cteTables, ctes => do
      let tables ← extractFromSetExprWithCtes body ctes []
      resolveCtes (n + 1) cteTables (insertCte order n tableAlias tables ctes)

def extractTableReferencesFromQuery :
    Query → Except ParserError (List String)
  | .mk recursive cteTables body _ => do
      if recursive then
        .error "Recursive CTEs are not supported"
      let ctes ← resolveCtes order 0 cteTables []
      if ctes.isEmpty then
        extractFromSetExpr body []
      else
        extractFromSetExprWithCtes body ctes []

def extractTableReferencesFromStmt :
    Statement → Except ParserError (List String)
  | .query q => extractTableReferencesFromQuery order q
  | .other _ => .error "Only SELECT query supported"

end References

/-! ## What a query reads -/

/-- A name as SQL compares it: unquoted ones in lower case. -/
def Ident.normalized (ident : Ident) : String :=
  if ident.quoteStyle.isNone then ident.value.toLower else ident.value

/-- The base tables of the common tables in scope, the innermost first. -/
abbrev CteScope : Type := List (String × Finset String)

mutual

def Query.readsIn (scope : CteScope) : Query → Finset String
  | .mk recursive cteTables body _ =>
      body.readsIn (scopeOf recursive scope cteTables)

/-- The scope after a `WITH` list.  A recursive table adds nothing by reading
itself. -/
def scopeOf (recursive : Bool) (scope : CteScope) : List Cte → CteScope
  | [] => scope
  | .mk tableAlias query :: cteTables =>
      scopeOf recursive
        ((tableAlias.name.normalized,
          query.readsIn
            (if recursive then
              (tableAlias.name.normalized, ∅) :: scope
            else scope)) :: scope)
        cteTables

def SetExpr.readsIn (scope : CteScope) : SetExpr → Finset String
  | .select select => select.readsIn scope
  | .setOperation left right => left.readsIn scope ∪ right.readsIn scope
  | .query query => query.readsIn scope
  | .other _ => ∅

def Select.readsIn (scope : CteScope) : Select → Finset String
  | .mk _ tables _ _ _ => tablesRead scope tables

def tablesRead (scope : CteScope) : List TableWithJoins → Finset String
  | [] => ∅
  | .mk relation joins _ :: tables =>
      relation.readsIn scope ∪ factorsRead scope joins ∪
        tablesRead scope tables

def TableFactor.readsIn (scope : CteScope) : TableFactor → Finset String
  | .table [ident] _ _ =>
      (scope.lookup ident.normalized).getD {ObjectName.display [ident]}
  | .table name _ _ => {ObjectName.display name}
  | .derived subquery _ => subquery.readsIn scope
  | .other factors _ => factorsRead scope factors

def factorsRead (scope : CteScope) : List TableFactor → Finset String
  | [] => ∅
  | factor :: factors => factor.readsIn scope ∪ factorsRead scope factors

end

/-- The tables that a query reads through its common tables, derived tables
and set operations. -/
def Query.baseTables (query : Query) : Finset String :=
  query.readsIn []

/-! ## What the preprocessor may take the tables for -/

mutual

/-- The tables of a set expression as written. -/
def SetExpr.fromNames : SetExpr → List String
  | .select select => select.fromNames
  | .setOperation left right => left.fromNames ++ right.fromNames
  | .query _ | .other _ => []

def Select.fromNames : Select → List String
  | .mk _ tables _ _ _ => tablesFromNames tables

def tablesFromNames : List TableWithJoins → List String
  | [] => []
  | .mk relation _ _ :: tables =>
      relation.fromNames ++ tablesFromNames tables

def TableFactor.fromNames : TableFactor → List String
  | .table name _ _ => [ObjectName.display name]
  | .derived subquery _ => subquery.fromNames
  | .other _ _ => []

def Query.fromNames : Query → List String
  | .mk _ _ body _ => body.fromNames

end

/-- All the tables that a name may stand for. -/
def CteScope.candidates (scope : CteScope) (name : String) : Finset String :=
  (scope.lookup name).getD {name}

/-- The common tables of a `WITH` list, by their names as written. -/
def candidateCtes : List Cte → CteScope → CteScope
  | [], scope => scope
  | .mk tableAlias (.mk _ _ body _) :: cteTables, scope =>
      candidateCtes cteTables
        ((tableAlias.name.display,
          (body.fromNames.map scope.candidates).foldr (· ∪ ·) ∅) :: scope)

/-- For every table of the main query, all that it may be taken for when
the names are read as written and only the statement's own `WITH` list is
expanded. -/
def Query.expansions : Query → List (Finset String)
  | .mk _ cteTables body _ =>
      body.fromNames.map (candidateCtes cteTables []).candidates

/-- Every table of the main query stands for tables that the query reads, and
every one of these is all that some table of the main query stands for. -/
def Query.ReadsAlone (query : Query) : Prop :=
  (∀ tables ∈ query.expansions, tables ⊆ query.baseTables) ∧
    ∀ table ∈ query.baseTables, {table} ∈ query.expansions

end SqlTree

end Streamling
