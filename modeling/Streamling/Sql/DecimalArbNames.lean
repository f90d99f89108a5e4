import Mathlib
import Streamling.Types.ArrowTree
import Streamling.Sql.Statements

/-!
# Names of `decimal_arb` values

What the preprocessor takes for a `decimal_arb` value: columns by the tables
that a statement reads, other expressions by their shape, and the aliases of
projections by what they stand for.  The names are one set for the whole
statement.

Hash sets are finite sets here, and a hash map is a function, so that nothing
can depend on the order of their elements.
-/

namespace Streamling

namespace SqlTree

open ArrowTree (ArrowField DataType)
open Sql (UnaryOperator SqlDataType wideDecimalPrecisionScale
  wideDecimalCast tryWideDecimalCast)

/-! ## Columns of a table -/

def isDecimalArbField : ArrowField → Bool
  | .wide _ _ _ (.decimalArb _ _) => true
  | _ => false

mutual

/-- The dotted paths of the `decimal_arb` fields below a field. -/
def leavesOfField : ArrowField → String → Finset String
  | .plain _ _ _ dataType, path => leavesOfType dataType path
  | .wide _ _ _ _, _ => ∅

def leavesOfType : DataType → String → Finset String
  | .struct fields, path => leavesOfFields fields path
  | _, _ => ∅

def leavesOfFields : List ArrowField → String → Finset String
  | [], _ => ∅
  | child :: children, path =>
      (if isDecimalArbField child then {path ++ "." ++ child.name} else ∅) ∪
        leavesOfField child (path ++ "." ++ child.name) ∪
        leavesOfFields children path

end

structure TableColumns where
  decimalArb : Finset String
  all : Finset String
  structLeaves : Finset String

def TableColumns.ofSchema (fields : List ArrowField) : TableColumns where
  decimalArb :=
    ((fields.filter isDecimalArbField).map ArrowField.name).toFinset
  all := (fields.map ArrowField.name).toFinset
  structLeaves :=
    (fields.map fun field => leavesOfField field field.name).foldr
      (· ∪ ·) ∅

/-! ## Shapes -/

def isArithmetic : BinaryOperator → Bool
  | .plus | .minus | .multiply | .divide | .modulo => true
  | _ => false

def isComparison : BinaryOperator → Bool
  | .eq | .notEq | .lt | .ltEq | .gt | .gtEq | .spaceship => true
  | _ => false

def functionName (name : ObjectName) : Option String :=
  name.getLast?.map fun ident => ident.value.toLower

def unboundedNumericCast : String := "decimal_arb_cast_numeric"

/-- Functions that yield `decimal_arb` whatever their arguments. -/
def decimalArbConstructors : List String :=
  ["to_decimal_arb_from_string", "try_to_decimal_arb_from_string",
    "to_decimal_arb_from_int", "to_decimal_arb_from_decimal128",
    "to_decimal_arb_from_decimal256", "legacy_wide_int_to_decimal_arb",
    "decimal_arb_add", "decimal_arb_sub", "decimal_arb_mul",
    "decimal_arb_div", "decimal_arb_mod", "decimal_arb_neg",
    "decimal_arb_abs", "decimal_arb_rescale", "decimal_arb_with_meta",
    "decimal_arb_restamp", "decimal_arb_greatest", "decimal_arb_least",
    "decimal_arb_array_min", "decimal_arb_array_max", wideDecimalCast,
    tryWideDecimalCast]

/-- Functions that yield `decimal_arb` from a `decimal_arb` argument. -/
def decimalArbPreserving : List String :=
  ["coalesce", "nvl", "nvl2", "ifnull", "nullif", "greatest", "least",
    "abs", "sum", "min", "max", "avg", "first_value", "last_value", "lag",
    "lead", "nth_value", "any_value", "array_element", "array_extract",
    "list_element", "list_extract", "array_min", "array_max"]

/-- Functions whose arguments are compared or combined with each other. -/
def decimalArbArgumentFunctions : List String :=
  ["coalesce", "nvl", "nvl2", "ifnull", "nullif", "greatest", "least",
    "decimal_arb_greatest", "decimal_arb_least", "make_array", "make_list",
    "array_has", "array_has_any", "array_has_all", "array_position",
    "array_positions", "array_remove", "array_remove_n", "array_remove_all",
    "array_replace", "array_replace_n", "array_replace_all", "array_append",
    "array_prepend", "list_append", "list_prepend"]

def isWideDecimalType : CastTarget → Bool
  | .text _ => false
  | .ofType dataType => (wideDecimalPrecisionScale dataType).isSome

/-! ## Names -/

@[ext]
structure DecimalArbNames where
  names : Finset String
  byQualifier : String → Option (Finset String)
  columns : Finset String
  structLeaves : Finset String
  rebound : Finset String

namespace DecimalArbNames

variable (scope : DecimalArbNames)

/-- Where the struct column of a dotted path stands, alone or after a
qualifier. -/
def structStart (parts : List String) : Option ℕ :=
  (List.range (parts.length - 1)).find? fun i =>
    parts[i]?.any (· ∈ scope.columns) &&
      (i == 0 ||
        parts[i - 1]?.any fun qualifier =>
          (scope.byQualifier qualifier).isSome)

def columnIsDecimal (idents : List Ident) : Bool :=
  let parts := idents.map Ident.value
  match parts.reverse with
  | [] => false
  | [column] => column ∈ scope.names
  | column :: qualifier :: _ =>
      match scope.byQualifier qualifier with
      | some columns => column ∈ columns
      | none =>
          match scope.structStart parts with
          | some start =>
              ".".intercalate (parts.drop start) ∈ scope.structLeaves
          | none => column ∈ scope.names

/-- A reference to a name that some projection binds to a value which is not
`decimal_arb`. -/
def isRebound : SqlExpr → Bool
  | .identifier ident => ident.value ∈ scope.rebound
  | .compoundIdentifier idents =>
      match (idents.map Ident.value).reverse with
      | [] => false
      | [column] => column ∈ scope.rebound
      | column :: qualifier :: _ =>
          (scope.byQualifier qualifier).isNone && column ∈ scope.rebound
  | .nested inner => isRebound inner
  | _ => false

mutual

/-- Whether an expression is `decimal_arb`, as far as names and shapes can
tell. -/
def isDecimal : SqlExpr → Bool
  | .identifier ident => scope.columnIsDecimal [ident]
  | .compoundIdentifier idents => scope.columnIsDecimal idents
  | .nested inner => isDecimal inner
  | .unaryOp .minus expr => isDecimal expr
  | .unaryOp .plus expr => isDecimal expr
  | .unaryOp (.other _) _ => false
  | .binaryOp left op right =>
      isArithmetic op && (isDecimal left || isDecimal right)
  | .cast _ _ target => isWideDecimalType target
  | .case _ conditions elseResult =>
      resultIsDecimal conditions || optionIsDecimal elseResult
  | .function name args _ =>
      match functionName name with
      | none => false
      | some name =>
          if name ∈ decimalArbConstructors then true
          else if name = unboundedNumericCast then
            firstIsDecimal args && !args.head?.any scope.isRebound
          else
            decide (name ∈ decimalArbPreserving) && anyIsDecimal args
  | .array elem => anyIsDecimal elem
  | .subquery query => queryIsDecimal query
  | .value _ | .between _ _ _ _ | .inList _ _ _ | .other _ _ _ => false

def anyIsDecimal : List SqlExpr → Bool
  | [] => false
  | expr :: exprs => isDecimal expr || anyIsDecimal exprs

def firstIsDecimal : List SqlExpr → Bool
  | [] => false
  | expr :: _ => isDecimal expr

def optionIsDecimal : Option SqlExpr → Bool
  | none => false
  | some expr => isDecimal expr

def resultIsDecimal : List CaseWhen → Bool
  | [] => false
  | .mk _ result :: conditions =>
      isDecimal result || resultIsDecimal conditions

/-- The first projection of the leftmost `SELECT`. -/
def queryIsDecimal : Query → Bool
  | .mk _ _ body _ => setExprIsDecimal body

def setExprIsDecimal : SetExpr → Bool
  | .select select => selectIsDecimal select
  | .setOperation left _ => setExprIsDecimal left
  | .query query => queryIsDecimal query
  | .other _ => false

def selectIsDecimal : Select → Bool
  | .mk projection _ _ _ _ => firstItemIsDecimal projection

def firstItemIsDecimal : List SelectItem → Bool
  | [] => false
  | .unnamedExpr expr :: _ => isDecimal expr
  | .exprWithAlias expr _ :: _ => isDecimal expr
  | .wildcard _ :: _ => false

end

end DecimalArbNames

/-! ## Projection names -/

mutual

def leftmostSelect : SetExpr → Option Select
  | .select select => some select
  | .setOperation left _ => leftmostSelect left
  | .query query => leftmostSelectOfQuery query
  | .other _ => none

def leftmostSelectOfQuery : Query → Option Select
  | .mk _ _ body _ => leftmostSelect body

end

/-- The names that a projection gives to expressions: its aliases, and the
columns `columns` of the alias of the whole, by position. -/
def projectionBindings :
    List SelectItem → List Ident → List (String × SqlExpr)
  | [], _ => []
  | item :: items, columns =>
      (match item with
        | .unnamedExpr expr =>
            columns.head?.toList.map fun column => (column.value, expr)
        | .exprWithAlias expr aliasName =>
            (aliasName.value, expr) ::
              columns.head?.toList.map fun column => (column.value, expr)
        | .wildcard _ => []) ++
        projectionBindings items columns.tail

def Select.bindings : Select → List Ident → List (String × SqlExpr)
  | .mk projection _ _ _ _, columns => projectionBindings projection columns

/-- The names bound by a common table or an aliased derived table. -/
def subqueryBindings (tableAlias : TableAlias) (query : Query) :
    List (String × SqlExpr) :=
  (leftmostSelectOfQuery query).elim [] (·.bindings tableAlias.columns)

/-- The names that other query blocks read. -/
def VisitedNode.reboundBindings : VisitedNode → List (String × SqlExpr)
  | .query (.mk _ cteTables _ _) =>
      cteTables.flatMap fun
        | .mk tableAlias q => subqueryBindings tableAlias q
  | .tableFactor (.derived subquery (some tableAlias)) =>
      subqueryBindings tableAlias subquery
  | _ => []

/-- The names that any projection binds. -/
def VisitedNode.aliasBindings : VisitedNode → List (String × SqlExpr)
  | .select s => s.bindings []
  | node => node.reboundBindings

def Statement.reboundBindings (stmt : Statement) : List (String × SqlExpr) :=
  stmt.visited.flatMap VisitedNode.reboundBindings

def Statement.aliasBindings (stmt : Statement) : List (String × SqlExpr) :=
  stmt.visited.flatMap VisitedNode.aliasBindings

namespace DecimalArbNames

/-- One pass of the alias collector: each name whose expression is
`decimal_arb` by the names recorded so far. -/
def recordAliases (stmt : Statement) (scope : DecimalArbNames) :
    DecimalArbNames :=
  stmt.aliasBindings.foldl
    (fun scope binding =>
      if scope.isDecimal binding.2 then
        { scope with names := insert binding.1 scope.names }
      else scope)
    scope

/-- Passes of the alias collector until no name appears.  Every pass but the
last adds a name of the statement, so `fuel` can be the number of these. -/
def collectAliases (stmt : Statement) :
    ℕ → DecimalArbNames → DecimalArbNames
  | 0, scope => scope
  | fuel + 1, scope =>
      let recorded := scope.recordAliases stmt
      if recorded.names.card = scope.names.card then recorded
      else collectAliases stmt fuel recorded

def aliasFuel (stmt : Statement) : ℕ :=
  (stmt.aliasBindings.map Prod.fst).toFinset.card + 1

def collectRebound (stmt : Statement) (scope : DecimalArbNames) :
    Finset String :=
  ((stmt.reboundBindings.filter fun binding =>
    !scope.isDecimal binding.2).map Prod.fst).toFinset

/-- At most `rounds` alternations of names and rebound names, the names
starting anew from `base` in each. -/
def collectRounds (stmt : Statement) (base : Finset String) :
    ℕ → DecimalArbNames → DecimalArbNames
  | 0, scope => scope
  | rounds + 1, scope =>
      let recorded :=
        collectAliases stmt (aliasFuel stmt) { scope with names := base }
      let rebound := recorded.collectRebound stmt
      if rebound = recorded.rebound then recorded
      else collectRounds stmt base rounds { recorded with rebound := rebound }

def collect (stmt : Statement) (scope : DecimalArbNames) : DecimalArbNames :=
  collectRounds stmt scope.names 8 scope

end DecimalArbNames

end SqlTree

end Streamling
