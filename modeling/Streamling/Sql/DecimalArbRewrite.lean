import Mathlib
import Streamling.Sql.DecimalArbNames
import Streamling.Sql.TableReferences

/-!
# Rewriting around `decimal_arb` columns

Casts of `decimal_arb` columns to text become calls, and numeric literals
that would be read as binary floats become strings where they meet a
`decimal_arb` expression.  The parser and the printer of SQL are parameters.
-/

namespace Streamling

namespace SqlTree

open ArrowTree (ArrowField)
open Sql (Value UnaryOperator isInexactNumber)

/-! ## Casts to text -/

def stripNested : SqlExpr → SqlExpr
  | .nested inner => stripNested inner
  | expr => expr

def buildDecimalArbToStringCall (inner : SqlExpr) : SqlExpr :=
  .function [⟨"decimal_arb_to_string", none⟩] [inner] []

def CastTarget.isText : CastTarget → Bool
  | text _ => true
  | ofType _ => false

namespace DecimalArbNames

variable (scope : DecimalArbNames)

def isDecimalColumn : SqlExpr → Bool
  | .identifier ident => scope.columnIsDecimal [ident]
  | .compoundIdentifier idents => scope.columnIsDecimal idents
  | _ => false

mutual

def rewriteExprForDecimalArbCast : SqlExpr → SqlExpr
  | .cast kind expr target =>
      if target.isText && scope.isDecimalColumn (stripNested expr) then
        buildDecimalArbToStringCall (stripNested expr)
      else
        .cast kind (rewriteExprForDecimalArbCast expr) target
  | .binaryOp left op right =>
      .binaryOp (rewriteExprForDecimalArbCast left) op
        (rewriteExprForDecimalArbCast right)
  | .unaryOp op expr => .unaryOp op (rewriteExprForDecimalArbCast expr)
  | .nested inner => .nested (rewriteExprForDecimalArbCast inner)
  | .case operand conditions elseResult =>
      .case (rewriteCastsInOption operand) (rewriteCastsInWhens conditions)
        (rewriteCastsInOption elseResult)
  | .between expr negated low high =>
      .between (rewriteExprForDecimalArbCast expr) negated
        (rewriteExprForDecimalArbCast low)
        (rewriteExprForDecimalArbCast high)
  | .inList expr list negated =>
      .inList (rewriteExprForDecimalArbCast expr) (rewriteCastsInList list)
        negated
  | .function name args rest =>
      .function name (rewriteCastsInList args) rest
  | .identifier ident => .identifier ident
  | .compoundIdentifier idents => .compoundIdentifier idents
  | .value v => .value v
  | .array elem => .array elem
  | .subquery query => .subquery query
  | .other text exprs queries => .other text exprs queries

def rewriteCastsInOption : Option SqlExpr → Option SqlExpr
  | none => none
  | some expr => some (rewriteExprForDecimalArbCast expr)

def rewriteCastsInList : List SqlExpr → List SqlExpr
  | [] => []
  | expr :: exprs =>
      rewriteExprForDecimalArbCast expr :: rewriteCastsInList exprs

def rewriteCastsInWhens : List CaseWhen → List CaseWhen
  | [] => []
  | .mk condition result :: conditions =>
      .mk (rewriteExprForDecimalArbCast condition)
        (rewriteExprForDecimalArbCast result) ::
        rewriteCastsInWhens conditions

end

def rewriteItem : SelectItem → SelectItem
  | .unnamedExpr expr =>
      .unnamedExpr (scope.rewriteExprForDecimalArbCast expr)
  | .exprWithAlias expr aliasName =>
      .exprWithAlias (scope.rewriteExprForDecimalArbCast expr) aliasName
  | .wildcard exprs => .wildcard exprs

def rewriteSelect : Select → Select
  | .mk projection tables selection having rest =>
      .mk (projection.map scope.rewriteItem) tables
        (scope.rewriteCastsInOption selection)
        (scope.rewriteCastsInOption having) rest

/-- Neither derived tables nor nested queries are entered. -/
def rewriteSetExpr : SetExpr → SetExpr
  | .select select => .select (scope.rewriteSelect select)
  | .setOperation left right =>
      .setOperation (rewriteSetExpr left) (rewriteSetExpr right)
  | .query query => .query query
  | .other exprs => .other exprs

def rewriteCte : Cte → Cte
  | .mk tableAlias (.mk recursive cteTables body rest) =>
      .mk tableAlias
        (.mk recursive cteTables (scope.rewriteSetExpr body) rest)

def rewriteStatement : Statement → Statement
  | .query (.mk recursive cteTables body rest) =>
      .query
        (.mk recursive (cteTables.map scope.rewriteCte)
          (scope.rewriteSetExpr body) rest)
  | .other text => .other text

end DecimalArbNames

/-! ## Inexact literals -/

/-- The digits of a numeric literal under signs and parentheses. -/
def numberLiteralText : SqlExpr → Option String
  | .nested inner => numberLiteralText inner
  | .value (.number text _) => some text
  | .unaryOp .minus expr => (numberLiteralText expr).map ("-" ++ ·)
  | .unaryOp .plus expr => numberLiteralText expr
  | _ => none

def quoteInexactLiteral (expr : SqlExpr) : SqlExpr :=
  match numberLiteralText expr with
  | some text =>
      if isInexactNumber text then .value (.singleQuotedString text)
      else expr
  | none => expr

mutual

/-- The expressions that the cast rewrite looks into, as expressions of a
statement. -/
def ofCastExpr : Sql.SqlExpr → SqlExpr
  | .value v => .value v
  | .nested inner => .nested (ofCastExpr inner)
  | .unaryOp op expr => .unaryOp op (ofCastExpr expr)
  | .cast kind expr .varchar =>
      .cast kind (ofCastExpr expr) (.text "VARCHAR")
  | .cast kind expr dataType => .cast kind (ofCastExpr expr) (.ofType dataType)
  | .function name args => .function [⟨name, none⟩] (ofCastExprs args) []
  | .other text => .other text [] []

def ofCastExprs : List Sql.SqlExpr → List SqlExpr
  | [] => []
  | expr :: exprs => ofCastExpr expr :: ofCastExprs exprs

end

/-- The two passes read the same literals. -/
theorem numberLiteralText_ofCastExpr (expr : Sql.SqlExpr) :
    numberLiteralText (ofCastExpr expr) = Sql.numberLiteralText expr := by
  induction expr using Sql.numberLiteralText.induct with
  | case1 inner ih =>
      simpa [ofCastExpr, numberLiteralText, Sql.numberLiteralText] using ih
  | case2 text long =>
      simp [ofCastExpr, numberLiteralText, Sql.numberLiteralText]
  | case3 expr ih =>
      simpa [ofCastExpr, numberLiteralText, Sql.numberLiteralText] using
        congrArg (Option.map ("-" ++ ·)) ih
  | case4 expr ih =>
      simpa [ofCastExpr, numberLiteralText, Sql.numberLiteralText] using ih
  | case5 expr hnested hnumber hminus hplus =>
      cases expr with
      | nested inner => exact absurd rfl (hnested inner)
      | value v =>
          cases v with
          | number text long => exact absurd rfl (hnumber text long)
          | _ => rfl
      | unaryOp op inner =>
          cases op with
          | minus => exact absurd rfl (hminus inner)
          | plus => exact absurd rfl (hplus inner)
          | other name => rfl
      | cast kind inner dataType => cases dataType <;> rfl
      | function name args => rfl
      | other text => rfl

/-- The two passes replace the same literals by the same strings. -/
theorem quoteInexactLiteral_ofCastExpr (expr : Sql.SqlExpr) :
    quoteInexactLiteral (ofCastExpr expr) =
      ofCastExpr (Sql.quoteInexactLiteral expr) := by
  unfold quoteInexactLiteral Sql.quoteInexactLiteral
  rw [numberLiteralText_ofCastExpr]
  cases Sql.numberLiteralText expr with
  | none => rfl
  | some text =>
      by_cases hinexact : isInexactNumber text = true
      · simp only [hinexact, if_true, ofCastExpr]
      · simp only [hinexact, Bool.false_eq_true, if_false]

/-- The string that stands for a literal near a `decimal_arb` expression is
read at the value of the literal. -/
theorem readsAs_of_quoteInexactLiteral
    {parse : String → Option BigDecimal} (hparse : DecimalParser parse)
    {e : Sql.NumberExpr} {text : String} (hminuses : e.minuses ≤ 1)
    (hscale : e.ScaleInRange)
    (h : quoteInexactLiteral (ofCastExpr e.expr) =
      .value (.singleQuotedString text)) :
    Sql.ReadsAs parse text e.value := by
  rw [quoteInexactLiteral_ofCastExpr] at h
  have hquoted : Sql.quoteInexactLiteral e.expr =
      .value (.singleQuotedString text) := by
    cases hexpr : Sql.quoteInexactLiteral e.expr with
    | value v => simpa [hexpr, ofCastExpr] using h
    | cast kind inner dataType =>
        cases dataType <;> simp [hexpr, ofCastExpr] at h
    | _ => simp [hexpr, ofCastExpr] at h
  rw [Sql.text_of_quoteInexactLiteral hquoted]
  exact (Sql.readsAs_iff hparse e).mpr ⟨hminuses, hscale⟩

namespace DecimalArbNames

variable (scope : DecimalArbNames)

def conditionIsDecimal : CaseWhen → Bool
  | .mk condition _ => scope.isDecimal condition

def quoteCondition : CaseWhen → CaseWhen
  | .mk condition result => .mk (quoteInexactLiteral condition) result

def quoteResult : CaseWhen → CaseWhen
  | .mk condition result => .mk condition (quoteInexactLiteral result)

/-- What the operand of a `CASE` is compared with. -/
def quoteConditions
    (operand : Option SqlExpr) (conditions : List CaseWhen) :
    Option SqlExpr × List CaseWhen :=
  match operand with
  | some subject =>
      if scope.isDecimal subject ||
          conditions.any scope.conditionIsDecimal then
        (some (quoteInexactLiteral subject), conditions.map quoteCondition)
      else (some subject, conditions)
  | none => (none, conditions)

/-- The branches of a `CASE`. -/
def quoteResults
    (conditions : List CaseWhen) (elseResult : Option SqlExpr) :
    List CaseWhen × Option SqlExpr :=
  if scope.resultIsDecimal conditions ||
      scope.optionIsDecimal elseResult then
    (conditions.map quoteResult, elseResult.map quoteInexactLiteral)
  else (conditions, elseResult)

/-- What is quoted at one expression, its parts having been visited. -/
def quoteAt : SqlExpr → SqlExpr
  | .binaryOp left op right =>
      if isArithmetic op || isComparison op then
        if scope.isDecimal left then
          .binaryOp left op (quoteInexactLiteral right)
        else if scope.isDecimal right then
          .binaryOp (quoteInexactLiteral left) op right
        else .binaryOp left op right
      else .binaryOp left op right
  | .between expr negated low high =>
      if scope.isDecimal expr || scope.isDecimal low ||
          scope.isDecimal high then
        .between (quoteInexactLiteral expr) negated
          (quoteInexactLiteral low) (quoteInexactLiteral high)
      else .between expr negated low high
  | .inList expr list negated =>
      if scope.isDecimal expr || scope.anyIsDecimal list then
        .inList (quoteInexactLiteral expr) (list.map quoteInexactLiteral)
          negated
      else .inList expr list negated
  | .case operand conditions elseResult =>
      let (operand, conditions) := scope.quoteConditions operand conditions
      let (conditions, elseResult) :=
        scope.quoteResults conditions elseResult
      .case operand conditions elseResult
  | .array elem =>
      if scope.anyIsDecimal elem then .array (elem.map quoteInexactLiteral)
      else .array elem
  | .function name args rest =>
      if ((functionName name).any fun name =>
          decide (name ∈ decimalArbArgumentFunctions)) &&
          scope.anyIsDecimal args then
        .function name (args.map quoteInexactLiteral) rest
      else .function name args rest
  | expr => expr

end DecimalArbNames

def quoteInexactLiteralsNearDecimalArb
    (stmt : Statement) (scope : DecimalArbNames) : Statement :=
  stmt.mapExprs scope.quoteAt

/-! ## Tables in scope -/

/-- A schema of the catalog: the fields of each table, or why a table cannot
be looked up. -/
abbrev SchemaProvider : Type :=
  String → Except String (Option (List ArrowField))

/-- The default catalog of the session. -/
abbrev Catalog : Type := String → Option SchemaProvider

def defaultCatalogName : String := "default"

def defaultSchemaName : String := "default"

/-- The part before the first dot, or the default schema, and the rest. -/
def extractSchemaAndTableNames (fullTableName : String) : String × String :=
  let cs := fullTableName.toList
  if '.' ∈ cs then
    (String.ofList (cs.takeWhile (· ≠ '.')),
      String.ofList (cs.dropWhile (· ≠ '.')).tail)
  else (defaultSchemaName, fullTableName)

def lastSegment (table : String) : String :=
  String.ofList (table.toList.reverse.takeWhile (· ≠ '.')).reverse

def recordTable
    (scope : DecimalArbNames) (table : String) (columns : TableColumns) :
    DecimalArbNames :=
  { scope with
    names := scope.names ∪ columns.decimalArb
    columns := scope.columns ∪ columns.all
    structLeaves := scope.structLeaves ∪ columns.structLeaves
    byQualifier :=
      Function.update
        (Function.update scope.byQualifier table (some columns.decimalArb))
        (lastSegment table) (some columns.decimalArb) }

def emptyScope : DecimalArbNames where
  names := ∅
  byQualifier := fun _ => none
  columns := ∅
  structLeaves := ∅
  rebound := ∅

/-- Every table but the first; one that is not found is left out. -/
def recordIfFound
    (catalog : Catalog) (scope : DecimalArbNames) (table : String) :
    DecimalArbNames :=
  match catalog (extractSchemaAndTableNames table).1 with
  | none => scope
  | some schema =>
      match schema (extractSchemaAndTableNames table).2 with
      | .ok (some fields) => recordTable scope table (.ofSchema fields)
      | _ => scope

/-- The alias of a table stands for the columns of that table. -/
def recordTableAlias (scope : DecimalArbNames) : VisitedNode →
    DecimalArbNames
  | .tableFactor (.table name (some tableAlias) _) =>
      match (scope.byQualifier (ObjectName.display name)).or
          (scope.byQualifier (lastSegment (ObjectName.display name))) with
      | some columns =>
          { scope with
            byQualifier :=
              Function.update scope.byQualifier tableAlias.name.value
                (some columns) }
      | none => scope
  | _ => scope

/-! ## The preprocessor -/

inductive PreprocessError where
  | user (message : String)
  | context (message : String) (cause : String)
  deriving DecidableEq, Repr

/-- The fields of the first table, which must be found. -/
def firstTableFields
    (ctx : Option Catalog) (sql : String) (table : String) :
    Except PreprocessError (Catalog × List ArrowField) :=
  let schemaName := (extractSchemaAndTableNames table).1
  let tableName := (extractSchemaAndTableNames table).2
  match ctx with
  | none =>
      .error (.user
        s!"catalog '{defaultCatalogName}' not found for SQL: {sql}")
  | some catalog =>
      match catalog schemaName with
      | none =>
          .error (.user s!"schema '{schemaName}' not found for SQL: {sql}")
      | some schema =>
          match schema tableName with
          | .error cause =>
              .error (.context
                s!"failed to look up table '{schemaName}.{tableName}'" cause)
          | .ok none =>
              .error (.user
                s!"table '{schemaName}.{tableName}' not found for SQL: {sql}")
          | .ok (some fields) => .ok (catalog, fields)

/-- The names that hold for the tables of a statement and their aliases. -/
def tableScope
    (stmt : Statement) (catalog : Catalog) (fields : List ArrowField)
    (table : String) (others : List String) : DecimalArbNames :=
  stmt.visited.foldl recordTableAlias
    (others.foldl (recordIfFound catalog)
      (recordTable emptyScope table (.ofSchema fields)))

/-- The statement rewritten under the names of its tables. -/
def rewriteUnder (stmt : Statement) (scope : DecimalArbNames) : Statement :=
  let rewritten := scope.rewriteStatement stmt
  quoteInexactLiteralsNearDecimalArb rewritten
    (DecimalArbNames.collect rewritten scope)

/-- From a parsed statement to the rewritten one. -/
def preprocessStatement
    (order : HashOrder) (ctx : Option Catalog) (sql : String)
    (stmt : Statement) : Except PreprocessError Statement :=
  match extractTableReferencesFromStmt order stmt with
  | .error cause =>
      .error (.context
        s!"failed to extract table references from SQL: {sql}" cause)
  | .ok [] =>
      .error (.user s!"no table references found in SQL statement: {sql}")
  | .ok (table :: others) =>
      (firstTableFields ctx sql table).map fun found =>
        rewriteUnder stmt (tableScope stmt found.1 found.2 table others)

section Preprocess

variable (parse : String → Option Statement) (print : Statement → String)

def preprocessBigintBinaryOpsWithSchema
    (order : HashOrder) (ctx : Option Catalog) (sql : String) :
    Except PreprocessError String :=
  match parse sql with
  | none => .error (.user s!"failed to parse SQL statement: {sql}")
  | some stmt => (preprocessStatement order ctx sql stmt).map print

/-- The cast rewrite, a function of the text alone, comes first. -/
def preprocessBigintSql
    (preprocessBigintDecimalCasts : String → String)
    (order : HashOrder) (ctx : Option Catalog) (sql : String) :
    Except PreprocessError String :=
  preprocessBigintBinaryOpsWithSchema parse print order ctx
    (preprocessBigintDecimalCasts sql)

end Preprocess

end SqlTree

end Streamling
