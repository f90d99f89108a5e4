import Mathlib
import Streamling.Sql.TableChoice

/-!
# Preprocessing under every hash order

The columns of all the tables go into sets, which do not depend on the order
of the tables.  Qualifiers do: where two tables share the last segment of
their names, the later one holds.  The first table must also be found.  So
the rewritten statement is the same for every hash order once the tables
returned are the same set, the first of them is settled, and tables that
share a segment are read alone.
-/

namespace Streamling

namespace SqlTree

open ArrowTree (ArrowField)

/-! ## Parts of table names -/

theorem lastSegment_lastSegment (table : String) :
    lastSegment (lastSegment table) = lastSegment table := by
  simp [lastSegment, List.takeWhile_idem]

theorem takeWhile_reverse_append
    (front rest : List Char) :
    ((front ++ '.' :: rest).reverse.takeWhile (· ≠ '.')) =
      rest.reverse.takeWhile (· ≠ '.') := by
  have hsplit : (front ++ '.' :: rest).reverse =
      rest.reverse ++ '.' :: front.reverse := by
    simp
  rw [hsplit, List.takeWhile_append]
  split_ifs with h
  · have hall : rest.reverse.takeWhile (· ≠ '.') = rest.reverse :=
      (List.takeWhile_prefix _).eq_of_length h
    rw [hall]
    simp
  · rfl

/-- A table name and the name that is looked up end alike. -/
theorem lastSegment_extract (table : String) :
    lastSegment (extractSchemaAndTableNames table).2 = lastSegment table := by
  simp only [extractSchemaAndTableNames]
  split_ifs with h
  · have hdrop : table.toList.dropWhile (· ≠ '.') =
        '.' :: (table.toList.dropWhile (· ≠ '.')).tail := by
      cases hrest : table.toList.dropWhile (· ≠ '.') with
      | nil =>
          have hall := List.dropWhile_eq_nil_iff.mp hrest '.' h
          simp at hall
      | cons c rest =>
          have hhead := List.head?_dropWhile_not (· ≠ '.') table.toList
          rw [hrest] at hhead
          have hdot : c = '.' := by simpa using hhead
          rw [hdot]
          rfl
    have hsplit : table.toList =
        table.toList.takeWhile (· ≠ '.') ++
          '.' :: (table.toList.dropWhile (· ≠ '.')).tail := by
      rw [← hdrop, List.takeWhile_append_dropWhile]
    simp only [lastSegment, String.toList_ofList]
    rw [← takeWhile_reverse_append (table.toList.takeWhile (· ≠ '.')),
      ← hsplit]
  · rfl

/-! ## Recorded tables -/

/-- The columns of a table that is found in the catalog. -/
def columnsOf (catalog : Catalog) (table : String) : Option TableColumns :=
  match catalog (extractSchemaAndTableNames table).1 with
  | none => none
  | some schema =>
      match schema (extractSchemaAndTableNames table).2 with
      | .ok (some fields) => some (.ofSchema fields)
      | _ => none

theorem recordIfFound_eq
    (catalog : Catalog) (scope : DecimalArbNames) (table : String) :
    recordIfFound catalog scope table =
      match columnsOf catalog table with
      | some columns => recordTable scope table columns
      | none => scope := by
  unfold recordIfFound columnsOf
  cases catalog (extractSchemaAndTableNames table).1 with
  | none => rfl
  | some schema =>
      rcases hlookup : schema (extractSchemaAndTableNames table).2 with
        cause | _ | fields <;> simp [hlookup]

/-- A table writes the qualifier `key`. -/
def Writes (catalog : Catalog) (key table : String) : Prop :=
  (columnsOf catalog table).isSome ∧ (table = key ∨ lastSegment table = key)

theorem Writes.lastSegment_eq
    {catalog : Catalog} {key table other : String}
    (h : Writes catalog key table) (hother : Writes catalog key other) :
    lastSegment table = lastSegment other := by
  rcases h.2 with rfl | htable
  · rcases hother.2 with rfl | hkey
    · rfl
    · rw [← hkey, lastSegment_lastSegment]
  · rcases hother.2 with rfl | hkey
    · rw [← htable, lastSegment_lastSegment]
    · rw [htable, hkey]

theorem byQualifier_recordIfFound_of_not_writes
    {catalog : Catalog} {key table : String} (scope : DecimalArbNames)
    (h : ¬ Writes catalog key table) :
    (recordIfFound catalog scope table).byQualifier key =
      scope.byQualifier key := by
  rw [recordIfFound_eq]
  cases hcolumns : columnsOf catalog table with
  | none => rfl
  | some columns =>
      have hne : table ≠ key ∧ lastSegment table ≠ key := by
        constructor
        · exact fun heq => h ⟨by simp [hcolumns], Or.inl heq⟩
        · exact fun heq => h ⟨by simp [hcolumns], Or.inr heq⟩
      simp [recordTable, Function.update, hne.1.symm, hne.2.symm]

theorem byQualifier_recordIfFound_of_writes
    {catalog : Catalog} {key table : String} (scope : DecimalArbNames)
    (h : Writes catalog key table) :
    (recordIfFound catalog scope table).byQualifier key =
      (columnsOf catalog table).map TableColumns.decimalArb := by
  obtain ⟨hsome, hkey⟩ := h
  obtain ⟨columns, hcolumns⟩ := Option.isSome_iff_exists.mp hsome
  rw [recordIfFound_eq, hcolumns]
  rcases hkey with rfl | rfl
  · by_cases hseg : table = lastSegment table
    · simp [recordTable, Function.update, ← hseg]
    · simp [recordTable, Function.update, hseg]
  · simp [recordTable, Function.update]

def recordAll
    (catalog : Catalog) (scope : DecimalArbNames) (tables : List String) :
    DecimalArbNames :=
  tables.foldl (recordIfFound catalog) scope

section Recorded

variable {catalog : Catalog}

/-- What `field` of the tables found adds up to. -/
def gathered
    (catalog : Catalog) (field : TableColumns → Finset String)
    (tables : List String) : Finset String :=
  tables.toFinset.biUnion fun table =>
    ((columnsOf catalog table).map field).getD ∅

/-- The sets of a scope that the tables are added to. -/
def addsUp
    (get : DecimalArbNames → Finset String)
    (field : TableColumns → Finset String) : Prop :=
  ∀ scope table columns,
    get (recordTable scope table columns) = get scope ∪ field columns

theorem get_recordAll
    (get : DecimalArbNames → Finset String)
    (field : TableColumns → Finset String) (h : addsUp get field)
    (tables : List String) (scope : DecimalArbNames) :
    get (recordAll catalog scope tables) =
      get scope ∪ gathered catalog field tables := by
  induction tables generalizing scope with
  | nil => simp [recordAll, gathered]
  | cons table tables ih =>
      have hstep : get (recordIfFound catalog scope table) =
          get scope ∪ ((columnsOf catalog table).map field).getD ∅ := by
        rw [recordIfFound_eq]
        cases columnsOf catalog table with
        | none => simp
        | some columns => simpa using h scope table columns
      have htail := ih (recordIfFound catalog scope table)
      rw [hstep] at htail
      simp only [recordAll, List.foldl_cons, gathered, List.toFinset_cons,
        Finset.biUnion_insert] at htail ⊢
      rw [htail, Finset.union_assoc]

theorem rebound_recordAll
    (tables : List String) (scope : DecimalArbNames) :
    (recordAll catalog scope tables).rebound = scope.rebound := by
  induction tables generalizing scope with
  | nil => rfl
  | cons table tables ih =>
      have hstep : (recordIfFound catalog scope table).rebound =
          scope.rebound := by
        rw [recordIfFound_eq]
        cases columnsOf catalog table <;> rfl
      exact (ih _).trans hstep

/-- Only one table writes `key`, and it is the one that holds. -/
theorem byQualifier_recordAll_of_one
    {key table : String} (hwrites : Writes catalog key table)
    {tables : List String}
    (hone : ∀ other ∈ tables, Writes catalog key other → other = table)
    (scope : DecimalArbNames) :
    (recordAll catalog scope tables).byQualifier key =
      if table ∈ tables then
        (columnsOf catalog table).map TableColumns.decimalArb
      else scope.byQualifier key := by
  induction tables generalizing scope with
  | nil => rfl
  | cons first tables ih =>
      have htail := ih (fun other hother => hone other
        (List.mem_cons_of_mem _ hother)) (recordIfFound catalog scope first)
      simp only [recordAll, List.foldl_cons] at htail ⊢
      rw [htail]
      by_cases hmem : table ∈ tables
      · simp [hmem]
      · by_cases hfirst : first = table
        · subst hfirst
          simp [hmem, byQualifier_recordIfFound_of_writes scope hwrites]
        · have hnot : ¬ Writes catalog key first := fun h =>
            hfirst (hone first List.mem_cons_self h)
          simp [hmem, Ne.symm hfirst,
            byQualifier_recordIfFound_of_not_writes scope hnot]

/-- The tables that write `key` stand at the same places of two lists. -/
theorem byQualifier_recordAll_congr
    {key : String} {tables others : List String}
    (h : List.Forall₂
      (fun table other =>
        Writes catalog key table ∨ Writes catalog key other →
          table = other)
      tables others)
    {scope scope' : DecimalArbNames}
    (hscope : scope.byQualifier key = scope'.byQualifier key) :
    (recordAll catalog scope tables).byQualifier key =
      (recordAll catalog scope' others).byQualifier key := by
  induction h generalizing scope scope' with
  | nil => exact hscope
  | @cons table other tables others hhead _ ih =>
      apply ih
      by_cases hwrites : Writes catalog key table ∨ Writes catalog key other
      · obtain rfl := hhead hwrites
        have hwrites' : Writes catalog key table := by
          rcases hwrites with h | h <;> exact h
        rw [byQualifier_recordIfFound_of_writes scope hwrites',
          byQualifier_recordIfFound_of_writes scope' hwrites']
      · push Not at hwrites
        rw [byQualifier_recordIfFound_of_not_writes scope hwrites.1,
          byQualifier_recordIfFound_of_not_writes scope' hwrites.2, hscope]

end Recorded

/-! ## Every order -/

/-- All that the first table may be taken for is one table of the catalog. -/
def Query.FirstSettled (query : Query) : Prop :=
  ∀ tables ∈ query.expansions.head?, ∀ x ∈ tables, ∀ y ∈ tables,
    extractSchemaAndTableNames x = extractSchemaAndTableNames y

/-- A table that shares the last segment of its name with another is read
alone wherever it may be read. -/
def Query.SegmentsApart (query : Query) : Prop :=
  ∀ tables ∈ query.expansions, ∀ x ∈ tables,
    ∀ others ∈ query.expansions, ∀ y ∈ others,
      lastSegment x = lastSegment y → x ≠ y → tables = {x}

section Steady

variable (parse : String → Option Statement) (print : Statement → String)
  (preprocessBigintDecimalCasts : String → String)

/-- A text that the cast rewrite leads to the query. -/
def Query.WrittenAs (query : Query) (sql : String) : Prop :=
  parse (preprocessBigintDecimalCasts sql) = some (.query query)

/-- Every text of the query is rewritten to the same one for every order of
the hash sets, whatever the catalog. -/
def Query.SameRewriting (query : Query) : Prop :=
  ∀ (ctx : Option Catalog) (sql : String),
    query.WrittenAs parse preprocessBigintDecimalCasts sql →
      ∀ order order',
        preprocessBigintSql parse print preprocessBigintDecimalCasts order
            ctx sql =
          preprocessBigintSql parse print preprocessBigintDecimalCasts
            order' ctx sql

/-- The tables returned are the tables read, and the order of the hash sets
changes nothing. -/
structure Query.PreprocessedSteadily (query : Query) : Prop where
  tablesExact : query.TablesExact
  sameRewriting :
    query.SameRewriting parse print preprocessBigintDecimalCasts

end Steady

variable {parse : String → Option Statement} {print : Statement → String}
  {casts : String → String}

theorem columnsOf_of_firstTableFields
    {ctx : Option Catalog} {sql table : String}
    {found : Catalog × List ArrowField}
    (h : firstTableFields ctx sql table = .ok found) :
    columnsOf found.1 table = some (.ofSchema found.2) := by
  unfold firstTableFields at h
  cases ctx with
  | none => cases h
  | some catalog =>
      cases hschema : catalog (extractSchemaAndTableNames table).1 with
      | none => simp [hschema] at h
      | some schema =>
          rcases hlookup : schema (extractSchemaAndTableNames table).2 with
            cause | _ | fields
          · simp [hschema, hlookup] at h
          · simp [hschema, hlookup] at h
          · simp only [hschema, hlookup, Except.ok.injEq] at h
            subst h
            simp [columnsOf, hschema, hlookup]

theorem tableScope_eq
    {ctx : Option Catalog} {sql table : String}
    {found : Catalog × List ArrowField}
    (h : firstTableFields ctx sql table = .ok found)
    (stmt : Statement) (others : List String) :
    tableScope stmt found.1 found.2 table others =
      stmt.visited.foldl recordTableAlias
        (recordAll found.1 emptyScope (table :: others)) := by
  simp only [tableScope, recordAll, List.foldl_cons, recordIfFound_eq,
    columnsOf_of_firstTableFields h]

theorem preprocessStatement_of_ok
    {order : HashOrder} {stmt : Statement} {table : String}
    {others : List String}
    (h : extractTableReferencesFromStmt order stmt = .ok (table :: others))
    (ctx : Option Catalog) (sql : String) :
    preprocessStatement order ctx sql stmt =
      (firstTableFields ctx sql table).map fun found =>
        rewriteUnder stmt (tableScope stmt found.1 found.2 table others) := by
  rw [preprocessStatement, h]

/-- Without the first table the preprocessor fails, so it must be settled. -/
theorem Query.Accepted.firstSettled
    {query : Query} (h : query.Accepted) {sql : String}
    (hsql : query.WrittenAs parse casts sql)
    (hsame : query.SameRewriting parse print casts) :
    query.FirstSettled := by
  intro tables htables x hx y hy
  by_contra hne
  obtain ⟨hnames, ctesX, hokX, hrelatedX⟩ := h.tables_eq (.preferring x)
  obtain ⟨-, ctesY, hokY, hrelatedY⟩ := h.tables_eq (.preferring y)
  obtain ⟨name, names, hcons⟩ := List.exists_cons_of_ne_nil hnames
  rw [query.expansions_eq, hcons, List.map_cons, List.head?_cons,
    Option.mem_some_iff] at htables
  subst htables
  have htakenX : ctesX.resolve name = x :=
    hrelatedX _ (choiceRelation_preferring x) name hx
  have htakenY : ctesY.resolve name = y :=
    hrelatedY _ (choiceRelation_preferring y) name hy
  rw [hcons, List.map_cons, htakenX] at hokX
  rw [hcons, List.map_cons, htakenY] at hokY
  -- a catalog that has the first candidate only
  let catalog : Catalog := fun schemaName => some fun tableName =>
    .ok (if (schemaName, tableName) = extractSchemaAndTableNames x then
      some [] else none)
  have hfirstX : firstTableFields (some catalog) (casts sql) x =
      .ok (catalog, []) := by
    simp [firstTableFields, catalog]
  have hmiss : ¬ ((extractSchemaAndTableNames y).1,
      (extractSchemaAndTableNames y).2) = extractSchemaAndTableNames x :=
    fun heq => hne heq.symm
  have heq := hsame (some catalog) sql hsql (.preferring x) (.preferring y)
  have hparse : parse (casts sql) = some (.query query) := hsql
  simp only [preprocessBigintSql, preprocessBigintBinaryOpsWithSchema, hparse,
    preprocessStatement_of_ok hokX, preprocessStatement_of_ok hokY] at heq
  cases hfirstY : firstTableFields (some catalog) (casts sql) y with
  | ok found => simp [firstTableFields, catalog, if_neg hmiss] at hfirstY
  | error error => simp [hfirstX, hfirstY, Except.map] at heq

/-- Lists of tables with one set, taken from the same names, give the same
names to `decimal_arb` columns. -/
theorem recordAll_eq
    {query : Query} (hapart : query.SegmentsApart)
    {first second : CteBaseTables} {names : List String}
    (hnames : ∀ name ∈ names,
      query.cteScope.candidates name ∈ query.expansions)
    (hfirst : Related (fun table tables => table ∈ tables) first
      query.cteScope)
    (hsecond : Related (fun table tables => table ∈ tables) second
      query.cteScope)
    (hset : (names.map first.resolve).toFinset =
      (names.map second.resolve).toFinset)
    (catalog : Catalog) (scope : DecimalArbNames) :
    recordAll catalog scope (names.map first.resolve) =
      recordAll catalog scope (names.map second.resolve) := by
  have hmem : ∀ table, table ∈ names.map first.resolve ↔
      table ∈ names.map second.resolve := by
    intro table
    rw [← List.mem_toFinset, hset, List.mem_toFinset]
  have hgathered : ∀ field,
      gathered catalog field (names.map first.resolve) =
        gathered catalog field (names.map second.resolve) := by
    intro field
    rw [gathered, hset, gathered]
  have hplaces : ∀ key,
      (∀ name ∈ names,
        Writes catalog key (first.resolve name) ∨
            Writes catalog key (second.resolve name) →
          first.resolve name = second.resolve name) →
        (recordAll catalog scope (names.map first.resolve)).byQualifier key =
          (recordAll catalog scope
            (names.map second.resolve)).byQualifier key := by
    intro key hall
    refine byQualifier_recordAll_congr ?_ rfl
    rw [List.forall₂_map_left_iff, List.forall₂_map_right_iff,
      List.forall₂_same]
    exact hall
  apply DecimalArbNames.ext
  · rw [get_recordAll DecimalArbNames.names TableColumns.decimalArb
        (fun _ _ _ => rfl),
      get_recordAll DecimalArbNames.names TableColumns.decimalArb
        (fun _ _ _ => rfl), hgathered]
  · funext key
    by_cases hmany : ∃ x ∈ names.map first.resolve,
        ∃ y ∈ names.map first.resolve,
          x ≠ y ∧ Writes catalog key x ∧ Writes catalog key y
    · -- tables that share a segment are read alone
      obtain ⟨x, hx, y, hy, hne, hwritesX, hwritesY⟩ := hmany
      have hother : ∀ table, Writes catalog key table →
          ∃ other ∈ names.map first.resolve, table ≠ other ∧
            lastSegment table = lastSegment other := by
        intro table htable
        by_cases hx' : table = x
        · exact ⟨y, hy, hx' ▸ hne, htable.lastSegment_eq hwritesY⟩
        · exact ⟨x, hx, hx', htable.lastSegment_eq hwritesX⟩
      have hsingle : ∀ name ∈ names, ∀ table ∈
          query.cteScope.candidates name, Writes catalog key table →
            query.cteScope.candidates name = {table} := by
        intro name hname table htable hwrites
        obtain ⟨other, hin, hne, hseg⟩ := hother table hwrites
        obtain ⟨name', hname', rfl⟩ := List.mem_map.mp hin
        exact hapart _ (hnames name hname) table htable _
          (hnames name' hname') _ (hfirst name') hseg hne
      apply hplaces
      rintro name hname (hwrites | hwrites)
      · have hin := hsecond name
        rw [hsingle name hname _ (hfirst name) hwrites] at hin
        exact (Finset.mem_singleton.mp hin).symm
      · have hin := hfirst name
        rw [hsingle name hname _ (hsecond name) hwrites] at hin
        exact Finset.mem_singleton.mp hin
    · push Not at hmany
      by_cases hwriter : ∃ x ∈ names.map first.resolve, Writes catalog key x
      · obtain ⟨x, hx, hwritesX⟩ := hwriter
        have hone : ∀ other ∈ names.map first.resolve,
            Writes catalog key other → other = x := by
          intro other hother hwrites
          by_contra hne
          exact hmany x hx other hother (Ne.symm hne) hwritesX hwrites
        rw [byQualifier_recordAll_of_one hwritesX hone,
          byQualifier_recordAll_of_one hwritesX
            (fun other hother => hone other ((hmem other).mpr hother)),
          if_pos hx, if_pos ((hmem x).mp hx)]
      · push Not at hwriter
        apply hplaces
        rintro name hname (hwrites | hwrites)
        · exact absurd hwrites
            (hwriter _ (List.mem_map_of_mem hname))
        · exact absurd hwrites
            (hwriter _ ((hmem _).mpr (List.mem_map_of_mem hname)))
  · rw [get_recordAll DecimalArbNames.columns TableColumns.all
        (fun _ _ _ => rfl),
      get_recordAll DecimalArbNames.columns TableColumns.all
        (fun _ _ _ => rfl), hgathered]
  · rw [get_recordAll DecimalArbNames.structLeaves TableColumns.structLeaves
        (fun _ _ _ => rfl),
      get_recordAll DecimalArbNames.structLeaves TableColumns.structLeaves
        (fun _ _ _ => rfl), hgathered]
  · rw [rebound_recordAll, rebound_recordAll]

theorem Query.Accepted.sameRewriting
    {query : Query} (h : query.Accepted) (hexact : query.TablesExact)
    (hsettled : query.FirstSettled) (hapart : query.SegmentsApart) :
    query.SameRewriting parse print casts := by
  intro ctx sql hsql order order'
  have hparse : parse (casts sql) = some (.query query) := hsql
  obtain ⟨hne, first, hok, hrelated⟩ := h.tables_eq order
  obtain ⟨-, second, hok', hrelated'⟩ := h.tables_eq order'
  have hfirst := hrelated _ (choiceRelation_mem order)
  have hsecond := hrelated' _ (choiceRelation_mem order')
  have hset : (query.fromNames.map first.resolve).toFinset =
      (query.fromNames.map second.resolve).toFinset :=
    (hexact _ _ hok).trans (hexact _ _ hok').symm
  have hnames : ∀ name ∈ query.fromNames,
      query.cteScope.candidates name ∈ query.expansions := by
    intro name hname
    rw [query.expansions_eq]
    exact List.mem_map_of_mem hname
  have hall := recordAll_eq hapart hnames hfirst hsecond hset
  obtain ⟨name, names, hcons⟩ := List.exists_cons_of_ne_nil hne
  have hhead : query.cteScope.candidates name ∈ query.expansions.head? := by
    rw [query.expansions_eq, hcons]
    rfl
  have hsame : first.resolve name = second.resolve name := by
    by_contra hdiff
    have hlookup := hsettled _ hhead _ (hfirst name) _ (hsecond name)
    have hseg : lastSegment (first.resolve name) =
        lastSegment (second.resolve name) := by
      rw [← lastSegment_extract, hlookup, lastSegment_extract]
    have hmem := List.mem_of_mem_head? hhead
    have hsingle := hapart _ hmem _ (hfirst name) _ hmem _ (hsecond name)
      hseg hdiff
    have hin := hsecond name
    rw [hsingle] at hin
    exact hdiff (Finset.mem_singleton.mp hin).symm
  rw [hcons, List.map_cons] at hok hok'
  rw [hcons, List.map_cons, List.map_cons] at hall
  rw [← hsame] at hok' hall
  simp only [preprocessBigintSql, preprocessBigintBinaryOpsWithSchema,
    hparse, preprocessStatement_of_ok hok, preprocessStatement_of_ok hok']
  cases hfields : firstTableFields ctx (casts sql) (first.resolve name) with
  | error cause => simp only [Except.map]
  | ok found => simp only [Except.map, tableScope_eq hfields, hall]

/-- Tables and rewriting do not depend on the order of the hash sets when
every table read is read alone by some table of the main query, the first
table is settled, and tables that share a segment are read alone; the first
two of these are also needed. -/
theorem preprocessing_steady_iff
    (parse : String → Option Statement) (print : Statement → String)
    (preprocessBigintDecimalCasts : String → String)
    {query : Query} (h : query.Accepted) {sql : String}
    (hsql : query.WrittenAs parse preprocessBigintDecimalCasts sql) :
    (query.PreprocessedSteadily parse print preprocessBigintDecimalCasts →
        query.ReadsAlone ∧ query.FirstSettled) ∧
      (query.SegmentsApart →
        (query.PreprocessedSteadily parse print
            preprocessBigintDecimalCasts ↔
          query.ReadsAlone ∧ query.FirstSettled)) := by
  have hforward :
      query.PreprocessedSteadily parse print preprocessBigintDecimalCasts →
        query.ReadsAlone ∧ query.FirstSettled := by
    intro hsteady
    exact ⟨h.tablesExact_iff.mp hsteady.tablesExact,
      h.firstSettled hsql hsteady.sameRewriting⟩
  refine ⟨hforward, fun hapart => ⟨hforward, ?_⟩⟩
  rintro ⟨halone, hsettled⟩
  have hexact := h.tablesExact_iff.mpr halone
  exact ⟨hexact, h.sameRewriting hexact hsettled hapart⟩

/-- `SELECT * FROM name`. -/
def selectAll (name : String) : SetExpr :=
  .select
    (.mk [.wildcard []] [.mk (.table [⟨name, none⟩] none []) [] []] none
      none [])

/-- The common table `c` over `body`, read once. -/
def overOneCte (body : SetExpr) : Query :=
  .mk false [.mk ⟨⟨"c", none⟩, []⟩ (.mk false [] body [])]
    (selectAll "c") []

/-- A parser that knows the text of one query. -/
def parseOne (text : String) (query : Query) (sql : String) :
    Option Statement :=
  if sql = text then some (.query query) else none

theorem writtenAs_parseOne (text : String) (query : Query) :
    query.WrittenAs (parseOne text query) id text :=
  if_pos rfl

/-- A common table over one table is preprocessed steadily, one over two
tables is not. -/
theorem preprocessing_steady_of_one_table :
    (∀ print : Statement → String,
      (overOneCte (selectAll "a")).PreprocessedSteadily
        (parseOne "WITH c AS (SELECT * FROM a) SELECT * FROM c"
          (overOneCte (selectAll "a"))) print id) ∧
      ∀ print : Statement → String,
        ¬ (overOneCte (.setOperation (selectAll "a")
          (selectAll "b"))).PreprocessedSteadily
          (parseOne
            "WITH c AS (SELECT * FROM a UNION SELECT * FROM b) SELECT * FROM c"
            (overOneCte (.setOperation (selectAll "a") (selectAll "b"))))
          print id := by
  have hone : (overOneCte (selectAll "a")).Accepted :=
    ⟨.preferring "a", ["a"], by decide +kernel⟩
  have htwo : (overOneCte
      (.setOperation (selectAll "a") (selectAll "b"))).Accepted :=
    ⟨.preferring "a", ["a"], by decide +kernel⟩
  have hexpansions : (overOneCte (selectAll "a")).expansions = [{"a"}] := by
    decide +kernel
  have hbase : (overOneCte (selectAll "a")).baseTables = {"a"} := by
    decide +kernel
  constructor
  · intro print
    apply ((preprocessing_steady_iff _ print id hone
      (writtenAs_parseOne _ _)).2 ?_).mpr
    · simp [Query.ReadsAlone, Query.FirstSettled, hexpansions, hbase]
    · simp [Query.SegmentsApart, hexpansions]
  · intro print hsteady
    have halone := ((preprocessing_steady_iff _ print id htwo
      (writtenAs_parseOne _ _)).1 hsteady).1.2 "a" (by decide +kernel)
    revert halone
    decide +kernel

end SqlTree

end Streamling
