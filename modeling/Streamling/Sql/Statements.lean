import Mathlib
import Streamling.Sql.NumberLiterals

/-!
# SQL statements

The parsed statements that the preprocessor reads and rewrites: expressions,
queries with their `WITH` lists, and what a `SELECT` reads from.  A part that
no pass looks into keeps the expressions and the queries below it, since the
visitors go through them.

The two ways the preprocessor walks a statement are here as well: the nodes
that a read-only visitor is shown, and the rewriting of every expression after
the expressions below it.  The parts that no pass looks into are shown after
the others of their `SELECT`, and the constraints of joins after the joins.
-/

namespace Streamling

namespace SqlTree

open Sql (Value UnaryOperator CastKind SqlDataType)

/-! ## Names -/

structure Ident where
  value : String
  quoteStyle : Option Char
  deriving DecidableEq, Repr

/-- Doubles each quote of a quoted identifier. -/
def escapeQuoted (quote : Char) (cs : List Char) : List Char :=
  cs.flatMap fun c => if c = quote then [c, c] else [c]

def Ident.display (ident : Ident) : String :=
  match ident.quoteStyle with
  | none => ident.value
  | some '[' => "[" ++ ident.value ++ "]"
  | some quote =>
      String.ofList
        (quote :: escapeQuoted quote ident.value.toList ++ [quote])

abbrev ObjectName : Type := List Ident

def ObjectName.display (name : ObjectName) : String :=
  ".".intercalate (name.map Ident.display)

structure TableAlias where
  name : Ident
  columns : List Ident
  deriving DecidableEq, Repr

/-! ## Statements -/

inductive BinaryOperator where
  | plus | minus | multiply | divide | modulo
  | eq | notEq | lt | ltEq | gt | gtEq | spaceship
  | other (text : String)
  deriving DecidableEq, Repr

/-- The type a cast names: one of the spellings of the character types, or
another type. -/
inductive CastTarget where
  | text (spelling : String)
  | ofType (dataType : SqlDataType)
  deriving DecidableEq

mutual

inductive SqlExpr where
  | identifier (ident : Ident)
  | compoundIdentifier (idents : List Ident)
  | nested (inner : SqlExpr)
  | value (v : Value)
  | unaryOp (op : UnaryOperator) (expr : SqlExpr)
  | binaryOp (left : SqlExpr) (op : BinaryOperator) (right : SqlExpr)
  | cast (kind : CastKind) (expr : SqlExpr) (target : CastTarget)
  | case (operand : Option SqlExpr) (conditions : List CaseWhen)
      (elseResult : Option SqlExpr)
  | between (expr : SqlExpr) (negated : Bool) (low high : SqlExpr)
  | inList (expr : SqlExpr) (list : List SqlExpr) (negated : Bool)
  | function (name : ObjectName) (args : List SqlExpr) (rest : List SqlExpr)
  | array (elem : List SqlExpr)
  | subquery (query : Query)
  | other (text : String) (exprs : List SqlExpr) (queries : List Query)

inductive CaseWhen where
  | mk (condition result : SqlExpr)

inductive SelectItem where
  | unnamedExpr (expr : SqlExpr)
  | exprWithAlias (expr : SqlExpr) (aliasName : Ident)
  | wildcard (exprs : List SqlExpr)

/-- A query; `recursive` is of its `WITH` list, which may be empty. -/
inductive Query where
  | mk (recursive : Bool) (cteTables : List Cte) (body : SetExpr)
      (rest : List SqlExpr)

inductive Cte where
  | mk (tableAlias : TableAlias) (query : Query)

inductive SetExpr where
  | select (select : Select)
  | setOperation (left right : SetExpr)
  | query (query : Query)
  | other (exprs : List SqlExpr)

inductive Select where
  | mk (projection : List SelectItem) (tables : List TableWithJoins)
      (selection having : Option SqlExpr) (rest : List SqlExpr)

inductive TableWithJoins where
  | mk (relation : TableFactor) (joins : List TableFactor)
      (constraints : List SqlExpr)

inductive TableFactor where
  | table (name : ObjectName) (tableAlias : Option TableAlias)
      (args : List SqlExpr)
  | derived (subquery : Query) (tableAlias : Option TableAlias)
  | other (factors : List TableFactor) (exprs : List SqlExpr)

end

inductive Statement where
  | query (query : Query)
  | other (text : String)

/-! ## Read-only visits -/

/-- What a visitor is shown before the parts of it. -/
inductive VisitedNode where
  | query (query : Query)
  | select (select : Select)
  | tableFactor (factor : TableFactor)

mutual

def SqlExpr.visited : SqlExpr → List VisitedNode
  | .identifier _ | .compoundIdentifier _ | .value _ => []
  | .nested inner => inner.visited
  | .unaryOp _ expr => expr.visited
  | .binaryOp left _ right => left.visited ++ right.visited
  | .cast _ expr _ => expr.visited
  | .case operand conditions elseResult =>
      visitedOption operand ++ visitedWhens conditions ++
        visitedOption elseResult
  | .between expr _ low high => expr.visited ++ low.visited ++ high.visited
  | .inList expr list _ => expr.visited ++ visitedExprs list
  | .function _ args rest => visitedExprs args ++ visitedExprs rest
  | .array elem => visitedExprs elem
  | .subquery query => query.visited
  | .other _ exprs queries => visitedExprs exprs ++ visitedQueries queries

def visitedOption : Option SqlExpr → List VisitedNode
  | none => []
  | some expr => expr.visited

def visitedExprs : List SqlExpr → List VisitedNode
  | [] => []
  | expr :: exprs => expr.visited ++ visitedExprs exprs

def visitedWhens : List CaseWhen → List VisitedNode
  | [] => []
  | .mk condition result :: conditions =>
      condition.visited ++ result.visited ++ visitedWhens conditions

def visitedItems : List SelectItem → List VisitedNode
  | [] => []
  | .unnamedExpr expr :: items => expr.visited ++ visitedItems items
  | .exprWithAlias expr _ :: items => expr.visited ++ visitedItems items
  | .wildcard exprs :: items => visitedExprs exprs ++ visitedItems items

def Query.visited : Query → List VisitedNode
  | .mk recursive cteTables body rest =>
      .query (.mk recursive cteTables body rest) ::
        (visitedCtes cteTables ++ body.visited ++ visitedExprs rest)

def visitedQueries : List Query → List VisitedNode
  | [] => []
  | query :: queries => query.visited ++ visitedQueries queries

def visitedCtes : List Cte → List VisitedNode
  | [] => []
  | .mk _ query :: cteTables => query.visited ++ visitedCtes cteTables

def SetExpr.visited : SetExpr → List VisitedNode
  | .select select => select.visited
  | .setOperation left right => left.visited ++ right.visited
  | .query query => query.visited
  | .other exprs => visitedExprs exprs

def Select.visited : Select → List VisitedNode
  | .mk projection tables selection having rest =>
      .select (.mk projection tables selection having rest) ::
        (visitedItems projection ++ visitedTables tables ++
          visitedOption selection ++ visitedOption having ++
          visitedExprs rest)

def visitedTables : List TableWithJoins → List VisitedNode
  | [] => []
  | .mk relation joins constraints :: tables =>
      relation.visited ++ visitedFactors joins ++
        visitedExprs constraints ++ visitedTables tables

def TableFactor.visited : TableFactor → List VisitedNode
  | .table name tableAlias args =>
      .tableFactor (.table name tableAlias args) :: visitedExprs args
  | .derived subquery tableAlias =>
      .tableFactor (.derived subquery tableAlias) :: subquery.visited
  | .other factors exprs =>
      .tableFactor (.other factors exprs) ::
        (visitedFactors factors ++ visitedExprs exprs)

def visitedFactors : List TableFactor → List VisitedNode
  | [] => []
  | factor :: factors => factor.visited ++ visitedFactors factors

end

def Statement.visited : Statement → List VisitedNode
  | .query q => q.visited
  | .other _ => []

/-! ## Rewriting every expression -/

section MapExprs

variable (f : SqlExpr → SqlExpr)

mutual

/-- `f` at every expression, after the expressions below it. -/
def SqlExpr.mapExprs : SqlExpr → SqlExpr
  | .identifier ident => f (.identifier ident)
  | .compoundIdentifier idents => f (.compoundIdentifier idents)
  | .nested inner => f (.nested inner.mapExprs)
  | .value v => f (.value v)
  | .unaryOp op expr => f (.unaryOp op expr.mapExprs)
  | .binaryOp left op right =>
      f (.binaryOp left.mapExprs op right.mapExprs)
  | .cast kind expr target => f (.cast kind expr.mapExprs target)
  | .case operand conditions elseResult =>
      f (.case (mapOption operand) (mapWhens conditions)
        (mapOption elseResult))
  | .between expr negated low high =>
      f (.between expr.mapExprs negated low.mapExprs high.mapExprs)
  | .inList expr list negated =>
      f (.inList expr.mapExprs (mapExprList list) negated)
  | .function name args rest =>
      f (.function name (mapExprList args) (mapExprList rest))
  | .array elem => f (.array (mapExprList elem))
  | .subquery query => f (.subquery query.mapExprs)
  | .other text exprs queries =>
      f (.other text (mapExprList exprs) (mapQueries queries))

def mapOption : Option SqlExpr → Option SqlExpr
  | none => none
  | some expr => some expr.mapExprs

def mapExprList : List SqlExpr → List SqlExpr
  | [] => []
  | expr :: exprs => expr.mapExprs :: mapExprList exprs

def mapWhens : List CaseWhen → List CaseWhen
  | [] => []
  | .mk condition result :: conditions =>
      .mk condition.mapExprs result.mapExprs :: mapWhens conditions

def mapItems : List SelectItem → List SelectItem
  | [] => []
  | .unnamedExpr expr :: items =>
      .unnamedExpr expr.mapExprs :: mapItems items
  | .exprWithAlias expr aliasName :: items =>
      .exprWithAlias expr.mapExprs aliasName :: mapItems items
  | .wildcard exprs :: items =>
      .wildcard (mapExprList exprs) :: mapItems items

def Query.mapExprs : Query → Query
  | .mk recursive cteTables body rest =>
      .mk recursive (mapCtes cteTables) body.mapExprs (mapExprList rest)

def mapQueries : List Query → List Query
  | [] => []
  | query :: queries => query.mapExprs :: mapQueries queries

def mapCtes : List Cte → List Cte
  | [] => []
  | .mk tableAlias query :: cteTables =>
      .mk tableAlias query.mapExprs :: mapCtes cteTables

def SetExpr.mapExprs : SetExpr → SetExpr
  | .select select => .select select.mapExprs
  | .setOperation left right =>
      .setOperation left.mapExprs right.mapExprs
  | .query query => .query query.mapExprs
  | .other exprs => .other (mapExprList exprs)

def Select.mapExprs : Select → Select
  | .mk projection tables selection having rest =>
      .mk (mapItems projection) (mapTables tables) (mapOption selection)
        (mapOption having) (mapExprList rest)

def mapTables : List TableWithJoins → List TableWithJoins
  | [] => []
  | .mk relation joins constraints :: tables =>
      .mk relation.mapExprs (mapFactors joins)
        (mapExprList constraints) :: mapTables tables

def TableFactor.mapExprs : TableFactor → TableFactor
  | .table name tableAlias args => .table name tableAlias (mapExprList args)
  | .derived subquery tableAlias => .derived subquery.mapExprs tableAlias
  | .other factors exprs => .other (mapFactors factors) (mapExprList exprs)

def mapFactors : List TableFactor → List TableFactor
  | [] => []
  | factor :: factors => factor.mapExprs :: mapFactors factors

end

def Statement.mapExprs : Statement → Statement
  | .query q => .query (q.mapExprs f)
  | .other text => .other text

end MapExprs

end SqlTree

end Streamling
