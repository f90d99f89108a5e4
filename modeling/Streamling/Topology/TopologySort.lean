import Mathlib.Data.List.Sort
import Mathlib.Data.String.Basic
import Mathlib.Data.Set.Finite.Basic
import Streamling.Support.Kahn
import Streamling.Topology.SqlTokens

/-!
# Sorting transforms

The transforms of a pipeline are planned in an order in which each comes after
those it reads.  What a query reads is found by matching the words of the
query with the names of the transforms, so a column, an alias or a keyword
with the name of a transform counts as well.
-/

namespace Streamling

namespace TopologySort

/-- A transform, with its query or its `from` field. -/
inductive Transform where
  | dynamicTable (sql : Option String)
  | sql (sql : String)
  | handler (source : String)
  | script (source : String)
  | plugin (source : String)
  deriving DecidableEq, Repr

/-- The transforms of a pipeline by name, in the order of a hash map. -/
structure Transforms where
  entries : List (String × Transform)
  nodup : (entries.map Prod.fst).Nodup

def Transforms.names (transforms : Transforms) : List String :=
  transforms.entries.map Prod.fst

theorem Transforms.nodup_names
    (transforms : Transforms) :
    transforms.names.Nodup :=
  transforms.nodup

def Transforms.get? (transforms : Transforms) (name : String) :
    Option Transform :=
  transforms.entries.lookup name

def getTransformPriority : Transform → ℕ
  | .dynamicTable _ => 0
  | .plugin _ => 1
  | .sql _ => 2
  | _ => 3

/-- The in-degree of each transform, and the transforms that depend on it. -/
structure Graph where
  inDegree : String → ℤ
  dependencies : String → List String

section Sorting

variable (toLowercase : String → String)
  (tokenize : String → Option (List Token))

def extractSqlDependencies (sql : String) (names : List String) :
    List String :=
  let tokens := extractSqlTokens toLowercase (tokenize sql)
  names.filter fun name =>
    let lower := toLowercase name
    if '.' ∈ lower.toList then
      lower ∈ tokens.dottedSequences
    else
      lower ∈ tokens.standaloneWords

def transformDependencies (names : List String) : Transform → List String
  | .sql sql => extractSqlDependencies toLowercase tokenize sql names
  | .dynamicTable (some query) =>
      extractSqlDependencies toLowercase tokenize query names
  | .dynamicTable none => []
  | .handler source => [source]
  | .script source => [source]
  | .plugin source => [source]

/-- Count a dependency of a transform on another one. -/
def addDependency (names : List String) (name : String) (g : Graph)
    (dep : String) : Graph :=
  if dep = name then
    g
  else if dep ∈ names then
    ⟨Function.update g.inDegree name (g.inDegree name + 1),
      Function.update g.dependencies dep (g.dependencies dep ++ [name])⟩
  else
    g

def addTransform (names : List String) (g : Graph)
    (entry : String × Transform) : Graph :=
  (transformDependencies toLowercase tokenize names entry.2).foldl
    (addDependency names entry.1) g

def buildGraph (transforms : Transforms) : Graph :=
  transforms.entries.foldl
    (addTransform toLowercase tokenize transforms.names)
    ⟨fun _ => 0, fun _ => []⟩

/-- A waiting transform has a priority; the lookup never fails. -/
def priorityOf (transforms : Transforms) (name : String) : ℕ :=
  (transforms.get? name).elim 0 getTransformPriority

/-- The order of transforms that become ready together. -/
def Ahead (rank : String → ℕ) (a b : String) : Prop :=
  rank a < rank b ∨ rank a = rank b ∧ a ≤ b

instance (rank : String → ℕ) : DecidableRel (Ahead rank) :=
  fun _ _ => inferInstanceAs (Decidable (_ ∨ _ ∧ _))

def sortReady (transforms : Transforms) (ready : List String) :
    List String :=
  ready.insertionSort (Ahead (priorityOf transforms))

/-- Sort the transforms; the order of the in-degrees is that of their hash
map.  The error is the panic, with the transforms it names. -/
def sortTransforms (transforms : Transforms) (degrees : List String) :
    Except (List String) (List String) :=
  let g := buildGraph toLowercase tokenize transforms
  let s := Kahn.run g.dependencies (sortReady transforms)
    transforms.names.length
    (Kahn.start g.inDegree (sortReady transforms) degrees)
  if s.result.length ≠ transforms.entries.length then
    .error (degrees.filter fun name => 0 < s.degree name)
  else
    .ok s.result

/-! ## References and reads -/

/-- A transform refers to another one, by any of its words. -/
def RefersTo (transforms : Transforms) (name source : String) : Prop :=
  ∃ t, (name, t) ∈ transforms.entries ∧ source ∈ transforms.names ∧
    source ≠ name ∧
    source ∈ transformDependencies toLowercase tokenize transforms.names t

/-- A name in a query is the name of a transform, which has a period exactly
if it has a schema. -/
def NamesTransform (parts : List String) (name : String) : Prop :=
  ".".intercalate (parts.map toLowercase) = toLowercase name ∧
    (1 < parts.length ↔ '.' ∈ (toLowercase name).toList)

/-- A query has a table reference with the name of a transform. -/
def ReadsTable (source query : String) : Prop :=
  ∃ tokens, tokenize query = some tokens ∧
    ∃ parts ∈ tableReferences toLowercase false [] tokens,
      NamesTransform toLowercase parts source

/-- A transform reads another one, at a table reference of its query or by its
`from` field. -/
def Reads (source : String) : Transform → Prop
  | .sql query => ReadsTable toLowercase tokenize source query
  | .dynamicTable (some query) => ReadsTable toLowercase tokenize source query
  | .dynamicTable none => False
  | .handler name | .script name | .plugin name => source = name

def ReadsFrom (transforms : Transforms) (name source : String) : Prop :=
  ∃ t, (name, t) ∈ transforms.entries ∧ source ∈ transforms.names ∧
    Reads toLowercase tokenize source t

end Sorting

/-! ## The graph -/

section Graph

variable (toLowercase : String → String)
  (tokenize : String → Option (List Token))

theorem nodup_transformDependencies
    {names : List String} (hnames : names.Nodup) (t : Transform) :
    (transformDependencies toLowercase tokenize names t).Nodup := by
  unfold transformDependencies
  split
  · exact hnames.filter _
  · exact hnames.filter _
  · exact List.nodup_nil
  · exact List.nodup_singleton _
  · exact List.nodup_singleton _
  · exact List.nodup_singleton _

theorem perm_transformDependencies
    {names names' : List String} (h : names.Perm names') (t : Transform) :
    (transformDependencies toLowercase tokenize names t).Perm
      (transformDependencies toLowercase tokenize names' t) := by
  unfold transformDependencies
  split
  · exact h.filter _
  · exact h.filter _
  · exact List.Perm.refl _
  · exact List.Perm.refl _
  · exact List.Perm.refl _
  · exact List.Perm.refl _

/-- The dependencies that are counted. -/
def counted (names : List String) (name : String) (deps : List String) :
    List String :=
  deps.filter fun dep => dep ≠ name ∧ dep ∈ names

theorem foldl_addDependency
    {names : List String} {name : String} {deps : List String}
    (hdeps : deps.Nodup) (g : Graph) :
    deps.foldl (addDependency names name) g =
      ⟨fun v =>
          if v = name then
            g.inDegree v + (counted names name deps).length
          else g.inDegree v,
        fun u =>
          if u ∈ counted names name deps then g.dependencies u ++ [name]
          else g.dependencies u⟩ := by
  induction deps generalizing g with
  | nil => simp [counted]
  | cons dep deps ih =>
      obtain ⟨hnot, hnodup⟩ := List.nodup_cons.mp hdeps
      have hnot' : dep ∉ counted names name deps := fun h =>
        hnot (List.mem_filter.mp h).1
      rw [List.foldl_cons, ih hnodup]
      by_cases hcount : dep ≠ name ∧ dep ∈ names
      · have hcons : counted names name (dep :: deps) =
            dep :: counted names name deps := by
          rw [counted, List.filter_cons_of_pos (by simpa using hcount)]
          rfl
        have hadd : addDependency names name g dep =
            ⟨Function.update g.inDegree name (g.inDegree name + 1),
              Function.update g.dependencies dep
                (g.dependencies dep ++ [name])⟩ := by
          rw [addDependency, if_neg hcount.1, if_pos hcount.2]
        rw [hadd, hcons]
        congr 1
        · funext v
          by_cases hv : v = name
          · subst hv
            simp only [if_true, Function.update_self, List.length_cons]
            push_cast
            omega
          · simp [hv]
        · funext u
          by_cases hu : u = dep
          · subst hu
            simp [hnot']
          · simp [hu]
      · have hcons : counted names name (dep :: deps) =
            counted names name deps := by
          rw [counted, List.filter_cons_of_neg (by simpa using hcount)]
          rfl
        have hadd : addDependency names name g dep = g := by
          unfold addDependency
          split_ifs with hself hmem
          · rfl
          · exact absurd ⟨hself, hmem⟩ hcount
          · rfl
        rw [hadd, hcons]

section Build

variable {names : List String} (hnames : names.Nodup)

include hnames

theorem foldl_addTransform_dependencies
    (entries : List (String × Transform)) (g : Graph) (u : String) :
    (entries.foldl (addTransform toLowercase tokenize names) g).dependencies
        u =
      g.dependencies u ++
        (entries.filter fun entry =>
          u ∈ counted names entry.1
            (transformDependencies toLowercase tokenize names
              entry.2)).map Prod.fst := by
  induction entries generalizing g with
  | nil => simp
  | cons entry entries ih =>
      have hdeps := nodup_transformDependencies toLowercase tokenize
        hnames entry.2
      rw [List.foldl_cons, ih, addTransform, foldl_addDependency hdeps]
      by_cases hu : u ∈ counted names entry.1
          (transformDependencies toLowercase tokenize names entry.2)
      · simp [hu]
      · simp [hu]

theorem foldl_addTransform_inDegree
    {entries : List (String × Transform)}
    (hentries : (entries.map Prod.fst).Nodup) (g : Graph) (v : String) :
    (∀ t, (v, t) ∈ entries →
      (entries.foldl (addTransform toLowercase tokenize names) g).inDegree v =
        g.inDegree v + (counted names v
          (transformDependencies toLowercase tokenize names t)).length) ∧
      (v ∉ entries.map Prod.fst →
        (entries.foldl (addTransform toLowercase tokenize names) g).inDegree
          v = g.inDegree v) := by
  induction entries generalizing g with
  | nil => simp
  | cons entry entries ih =>
      have hdeps := nodup_transformDependencies toLowercase tokenize
        hnames entry.2
      rw [List.map_cons, List.nodup_cons] at hentries
      obtain ⟨ihmem, ihnot⟩ := ih hentries.2
        (addTransform toLowercase tokenize names g entry)
      rw [List.foldl_cons]
      have hentry : (addTransform toLowercase tokenize names g entry).inDegree
          v =
          if v = entry.1 then
            g.inDegree v + (counted names entry.1
              (transformDependencies toLowercase tokenize names
                entry.2)).length
          else g.inDegree v := by
        rw [addTransform, foldl_addDependency hdeps]
      constructor
      · intro t ht
        rcases List.mem_cons.mp ht with rfl | ht
        · rw [ihnot hentries.1, hentry, if_pos rfl]
        · have hne : v ≠ entry.1 := fun h =>
            hentries.1 (h ▸ List.mem_map_of_mem ht)
          rw [ihmem t ht, hentry, if_neg hne]
      · intro hnot
        rw [List.map_cons, List.mem_cons, not_or] at hnot
        rw [ihnot hnot.2, hentry, if_neg hnot.1]

end Build

variable (transforms : Transforms)

theorem mem_dependencies_iff
    {u v : String} :
    v ∈ (buildGraph toLowercase tokenize transforms).dependencies u ↔
      RefersTo toLowercase tokenize transforms v u := by
  rw [buildGraph, foldl_addTransform_dependencies toLowercase tokenize
    transforms.nodup_names]
  simp only [List.nil_append, List.mem_map, List.mem_filter,
    decide_eq_true_eq, counted]
  constructor
  · rintro ⟨⟨name, t⟩, ⟨hentry, hdep, hne, hmem⟩, rfl⟩
    exact ⟨t, hentry, hmem, hne, hdep⟩
  · rintro ⟨t, hentry, hmem, hne, hdep⟩
    exact ⟨(v, t), ⟨hentry, hdep, hne, hmem⟩, rfl⟩

theorem nodup_dependencies
    (u : String) :
    ((buildGraph toLowercase tokenize transforms).dependencies u).Nodup := by
  rw [buildGraph, foldl_addTransform_dependencies toLowercase tokenize
    transforms.nodup_names]
  exact transforms.nodup.sublist (List.filter_sublist.map _)

/-- The in-degree of a transform is the number of transforms it refers to. -/
theorem inDegree_eq_card
    {v : String} (hv : v ∈ transforms.names.toFinset) :
    (buildGraph toLowercase tokenize transforms).inDegree v =
      (Kahn.remaining transforms.names.toFinset
        (buildGraph toLowercase tokenize transforms).dependencies [] v).card :=
    by
  obtain ⟨⟨name, t⟩, hentry, rfl⟩ := List.mem_map.mp (List.mem_toFinset.mp hv)
  have hdegree := (foldl_addTransform_inDegree toLowercase tokenize
    transforms.nodup_names transforms.nodup ⟨fun _ => 0, fun _ => []⟩ name).1 t
    hentry
  have hnodup : (counted transforms.names name
      (transformDependencies toLowercase tokenize transforms.names
        t)).Nodup :=
    (nodup_transformDependencies toLowercase tokenize
      transforms.nodup_names t).filter _
  have hset : (counted transforms.names name
      (transformDependencies toLowercase tokenize transforms.names
        t)).toFinset =
      Kahn.remaining transforms.names.toFinset
        (buildGraph toLowercase tokenize transforms).dependencies [] name := by
    ext u
    simp only [Kahn.remaining, Finset.mem_filter, List.mem_toFinset,
      mem_dependencies_iff, counted, List.mem_filter, decide_eq_true_eq,
      List.not_mem_nil, not_false_eq_true, true_and]
    constructor
    · rintro ⟨hdep, hne, hmem⟩
      exact ⟨hmem, t, hentry, hmem, hne, hdep⟩
    · rintro ⟨hmem, t', hentry', -, hne, hdep⟩
      have hsame : t = t' := by
        have hinj := List.inj_on_of_nodup_map transforms.nodup hentry hentry'
          rfl
        exact (Prod.mk.inj hinj).2
      rw [hsame]
      exact ⟨hdep, hne, hmem⟩
  rw [buildGraph, hdegree, Int.zero_add,
    ← List.toFinset_card_of_nodup hnodup, hset]
  rfl

end Graph

/-! ## The order of ready transforms -/

section Ready

variable (transforms : Transforms)

theorem perm_sortReady
    (ready : List String) :
    (sortReady transforms ready).Perm ready :=
  List.perm_insertionSort _ ready

theorem ahead_total
    (rank : String → ℕ) (a b : String) :
    Ahead rank a b ∨ Ahead rank b a := by
  unfold Ahead
  rcases Nat.lt_trichotomy (rank a) (rank b) with hlt | heq | hgt
  · exact Or.inl (Or.inl hlt)
  · exact (le_total a b).imp (fun h => Or.inr ⟨heq, h⟩)
      fun h => Or.inr ⟨heq.symm, h⟩
  · exact Or.inr (Or.inl hgt)

theorem ahead_trans
    {rank : String → ℕ} {a b c : String} (hab : Ahead rank a b)
    (hbc : Ahead rank b c) :
    Ahead rank a c := by
  unfold Ahead at *
  rcases hab with hab | ⟨hab, hle⟩
  · rcases hbc with hbc | ⟨hbc, -⟩
    · exact Or.inl (hab.trans hbc)
    · exact Or.inl (hbc ▸ hab)
  · rcases hbc with hbc | ⟨hbc, hle'⟩
    · exact Or.inl (hab ▸ hbc)
    · exact Or.inr ⟨hab.trans hbc, hle.trans hle'⟩

theorem ahead_antisymm
    {rank : String → ℕ} {a b : String} (hab : Ahead rank a b)
    (hba : Ahead rank b a) :
    a = b := by
  unfold Ahead at *
  rcases hab with hab | ⟨hab, hle⟩
  · omega
  · rcases hba with hba | ⟨-, hle'⟩
    · omega
    · exact le_antisymm hle hle'

/-- Sorting forgets the order in which transforms became ready. -/
theorem sortReady_congr
    (ready ready' : List String) (h : ready.Perm ready') :
    sortReady transforms ready = sortReady transforms ready' := by
  have : Std.Total (Ahead (priorityOf transforms)) :=
    ⟨ahead_total (priorityOf transforms)⟩
  have : IsTrans String (Ahead (priorityOf transforms)) :=
    ⟨fun _ _ _ => ahead_trans⟩
  refine List.Perm.eq_of_pairwise (fun _ _ _ _ => ahead_antisymm)
    (List.pairwise_insertionSort _ ready)
    (List.pairwise_insertionSort _ ready') ?_
  exact ((perm_sortReady transforms ready).trans h).trans
    (perm_sortReady transforms ready').symm

end Ready

/-! ## Words that are reads -/

section Reads

variable {toLowercase : String → String}
  {tokenize : String → Option (List Token)}

theorem mem_extractSqlDependencies_of_readsTable
    {names : List String} {source query : String} (hsource : source ∈ names)
    (h : ReadsTable toLowercase tokenize source query) :
    source ∈ extractSqlDependencies toLowercase tokenize query names := by
  obtain ⟨tokens, htokens, parts, hparts, hname, hdotted⟩ := h
  have hfound := TokenScan.found_of_mem_tableReferences toLowercase hparts
    (s := TokenScan.start) fun _ => rfl
  refine List.mem_filter.mpr ⟨hsource, ?_⟩
  simp only [htokens, extractSqlTokens]
  unfold TokenScan.Found at hfound
  by_cases hperiod : '.' ∈ (toLowercase source).toList
  · have hlength := hdotted.mpr hperiod
    rw [if_pos hperiod, decide_eq_true_eq, ← hname]
    split at hfound
    case h_1 hnil => simp [List.map_eq_nil_iff.mp hnil] at hlength
    case h_2 part hsingle =>
      have hone := congrArg List.length hsingle
      simp only [List.length_map, List.length_singleton] at hone
      omega
    case h_3 => exact hfound
  · have hlength : ¬ 1 < parts.length := fun h => hperiod (hdotted.mp h)
    rw [if_neg hperiod, decide_eq_true_eq, ← hname]
    match parts with
    | [] => exact absurd rfl (ne_nil_of_mem_tableReferences hparts)
    | [part] => exact hfound
    | _ :: _ :: _ => simp at hlength

theorem refersTo_of_readsFrom
    {transforms : Transforms} {name source : String}
    (h : ReadsFrom toLowercase tokenize transforms name source)
    (hne : source ≠ name) :
    RefersTo toLowercase tokenize transforms name source := by
  obtain ⟨t, hentry, hsource, hreads⟩ := h
  refine ⟨t, hentry, hsource, hne, ?_⟩
  unfold Reads at hreads
  unfold transformDependencies
  split at hreads
  · exact mem_extractSqlDependencies_of_readsTable hsource hreads
  · exact mem_extractSqlDependencies_of_readsTable hsource hreads
  · exact absurd hreads id
  · exact List.mem_singleton.mpr hreads
  · exact List.mem_singleton.mpr hreads
  · exact List.mem_singleton.mpr hreads

end Reads

/-! ## Sorted transforms -/

section Sorted

variable (toLowercase : String → String)
  (tokenize : String → Option (List Token)) (transforms : Transforms)

/-- The state in which the sort ends. -/
def finalState (degrees : List String) : Kahn.State String :=
  let g := buildGraph toLowercase tokenize transforms
  Kahn.run g.dependencies (sortReady transforms) transforms.names.length
    (Kahn.start g.inDegree (sortReady transforms) degrees)

theorem sortTransforms_eq
    (degrees : List String) :
    sortTransforms toLowercase tokenize transforms degrees =
      if (finalState toLowercase tokenize transforms degrees).result.length ≠
          transforms.entries.length then
        .error (degrees.filter fun name =>
          0 < (finalState toLowercase tokenize transforms degrees).degree
            name)
      else
        .ok (finalState toLowercase tokenize transforms degrees).result :=
  rfl

variable {degrees : List String} (hdegrees : degrees.Perm transforms.names)

include hdegrees

theorem inv_finalState :
    Kahn.Inv transforms.names.toFinset
      (buildGraph toLowercase tokenize transforms).dependencies
      (finalState toLowercase tokenize transforms degrees) := by
  refine Kahn.inv_run (nodup_dependencies toLowercase tokenize transforms) ?_
    (perm_sortReady transforms) _ ?_
  · intro u v hv
    obtain ⟨t, hentry, -⟩ :=
      (mem_dependencies_iff toLowercase tokenize transforms).mp hv
    exact List.mem_toFinset.mpr (List.mem_map_of_mem hentry)
  · refine Kahn.inv_start (perm_sortReady transforms)
      (hdegrees.nodup_iff.mpr transforms.nodup) ?_ ?_
    · intro v
      rw [hdegrees.mem_iff, List.mem_toFinset]
    · intro v hv
      exact inDegree_eq_card toLowercase tokenize transforms hv

theorem queue_finalState :
    (finalState toLowercase tokenize transforms degrees).queue = [] := by
  have hinv := inv_finalState toLowercase tokenize transforms hdegrees
  have hcard : transforms.names.toFinset.card = transforms.names.length :=
    List.toFinset_card_of_nodup transforms.nodup
  unfold finalState at hinv ⊢
  rw [← hcard] at hinv ⊢
  exact Kahn.run_card_queue rfl hinv

omit hdegrees in
/-- No transform refers to itself through others. -/
theorem acyclic_iff :
    Kahn.Acyclic transforms.names.toFinset
        (buildGraph toLowercase tokenize transforms).dependencies ↔
      ∀ name, ¬ Relation.TransGen (RefersTo toLowercase tokenize transforms)
        name name := by
  have hedge : Kahn.Edge transforms.names.toFinset
      (buildGraph toLowercase tokenize transforms).dependencies =
      Function.swap (RefersTo toLowercase tokenize transforms) := by
    funext u v
    refine propext ?_
    rw [Kahn.Edge, mem_dependencies_iff, List.mem_toFinset]
    constructor
    · exact fun h => h.2
    · rintro ⟨t, hentry, hmem, hrest⟩
      exact ⟨hmem, t, hentry, hmem, hrest⟩
  rw [Kahn.Acyclic, hedge]
  simp only [Relation.transGen_swap]

theorem length_result_iff :
    (finalState toLowercase tokenize transforms degrees).result.length =
        transforms.entries.length ↔
      ∀ name, ¬ Relation.TransGen (RefersTo toLowercase tokenize transforms)
        name name := by
  have hcard : transforms.names.toFinset.card = transforms.entries.length :=
    (List.toFinset_card_of_nodup transforms.nodup).trans
      (List.length_map _)
  rw [← acyclic_iff, ← hcard]
  refine (inv_finalState toLowercase tokenize transforms
    hdegrees).length_eq_iff ?_
    (queue_finalState toLowercase tokenize transforms hdegrees)
  intro u v hv
  obtain ⟨t, hentry, -⟩ :=
    (mem_dependencies_iff toLowercase tokenize transforms).mp hv
  exact List.mem_toFinset.mpr (List.mem_map_of_mem hentry)

/-- The sort succeeds exactly if no transform refers to itself through
others. -/
theorem sorted_iff_acyclic :
    (∃ result,
      sortTransforms toLowercase tokenize transforms degrees = .ok result) ↔
      ∀ name, ¬ Relation.TransGen (RefersTo toLowercase tokenize transforms)
        name name := by
  rw [← length_result_iff toLowercase tokenize transforms hdegrees,
    sortTransforms_eq]
  constructor
  · rintro ⟨result, h⟩
    by_contra hne
    rw [if_pos hne] at h
    cases h
  · intro heq
    exact ⟨_, if_neg (not_not_intro heq)⟩

/-- Every transform is listed once, after those it refers to. -/
theorem sorted_result
    {result : List String}
    (h : sortTransforms toLowercase tokenize transforms degrees =
      .ok result) :
    result.Perm transforms.names ∧
      ∀ name source, RefersTo toLowercase tokenize transforms name source →
        result.idxOf source < result.idxOf name := by
  have hinv := inv_finalState toLowercase tokenize transforms hdegrees
  have hqueue := queue_finalState toLowercase tokenize transforms hdegrees
  have hacyclic := (sorted_iff_acyclic toLowercase tokenize transforms
    hdegrees).mp ⟨result, h⟩
  have hlength := (length_result_iff toLowercase tokenize transforms
    hdegrees).mpr hacyclic
  rw [sortTransforms_eq, if_neg (not_not_intro hlength)] at h
  obtain rfl := Except.ok.inj h
  have hall := hinv.complete hqueue
    ((acyclic_iff toLowercase tokenize transforms).mpr hacyclic)
  constructor
  · refine (List.perm_ext_iff_of_nodup (List.nodup_append.mp hinv.nodup).1
      transforms.nodup_names).mpr ?_
    intro name
    rw [← List.mem_toFinset (l := transforms.names)]
    constructor
    · exact fun hmem => hinv.subset name (List.mem_append_left _ hmem)
    · exact hall name
  · intro name source hrefers
    have hdependent := (mem_dependencies_iff toLowercase tokenize
      transforms).mpr hrefers
    obtain ⟨t, hentry, hsource, -⟩ := hrefers
    refine hinv.ordered name (hall name ?_) source
      (List.mem_toFinset.mpr hsource) hdependent
    exact List.mem_toFinset.mpr (List.mem_map_of_mem hentry)

end Sorted

/-! ## Independence of the hash map -/

section Order

variable {toLowercase : String → String}
  {tokenize : String → Option (List Token)} {transforms other : Transforms}
  (hperm : transforms.entries.Perm other.entries)

theorem Transforms.get?_eq_some_iff
    (transforms : Transforms) (name : String) (t : Transform) :
    transforms.get? name = some t ↔ (name, t) ∈ transforms.entries := by
  obtain ⟨entries, hnodup⟩ := transforms
  change entries.lookup name = some t ↔ (name, t) ∈ entries
  induction entries with
  | nil => simp
  | cons entry entries ih =>
      obtain ⟨first, u⟩ := entry
      rw [List.map_cons, List.nodup_cons] at hnodup
      rw [List.lookup_cons, List.mem_cons]
      by_cases hname : name = first
      · subst hname
        have hnot : (name, t) ∉ entries := fun hmem =>
          hnodup.1 (List.mem_map.mpr ⟨(name, t), hmem, rfl⟩)
        simp [hnot, eq_comm]
      · have hbeq : (name == first) = false := by simpa using hname
        simp [hbeq, hname, ih hnodup.2]

include hperm

theorem perm_names :
    transforms.names.Perm other.names :=
  hperm.map _

theorem priorityOf_congr :
    priorityOf transforms = priorityOf other := by
  have hget (name : String) : transforms.get? name = other.get? name := by
    refine Option.ext ?_
    intro t
    rw [Transforms.get?_eq_some_iff, Transforms.get?_eq_some_iff,
      hperm.mem_iff]
  funext name
  rw [priorityOf, priorityOf, hget]

theorem refersTo_congr :
    RefersTo toLowercase tokenize transforms =
      RefersTo toLowercase tokenize other := by
  funext name source
  simp only [RefersTo, hperm.mem_iff, (perm_names hperm).mem_iff,
    (perm_transformDependencies toLowercase tokenize
      (perm_names hperm) _).mem_iff]

theorem perm_dependencies
    (u : String) :
    ((buildGraph toLowercase tokenize transforms).dependencies u).Perm
      ((buildGraph toLowercase tokenize other).dependencies u) := by
  refine (List.perm_ext_iff_of_nodup (nodup_dependencies _ _ _ u)
    (nodup_dependencies _ _ _ u)).mpr ?_
  intro v
  rw [mem_dependencies_iff, mem_dependencies_iff, refersTo_congr hperm]

theorem inDegree_congr :
    (buildGraph toLowercase tokenize transforms).inDegree =
      (buildGraph toLowercase tokenize other).inDegree := by
  funext v
  have hnames : transforms.names.toFinset = other.names.toFinset :=
    List.toFinset_eq_of_perm _ _ (perm_names hperm)
  by_cases hv : v ∈ transforms.names.toFinset
  · rw [inDegree_eq_card _ _ _ hv, inDegree_eq_card _ _ _ (hnames ▸ hv),
      Kahn.remaining, Kahn.remaining, hnames]
    simp only [(perm_dependencies hperm _).mem_iff]
  · have hleft : v ∉ transforms.names := by simpa using hv
    have hright : v ∉ other.names := by simpa [hnames] using hv
    rw [buildGraph, buildGraph,
      (foldl_addTransform_inDegree toLowercase tokenize
        transforms.nodup_names transforms.nodup _ v).2 hleft,
      (foldl_addTransform_inDegree toLowercase tokenize other.nodup_names
        other.nodup _ v).2 hright]

theorem finalState_congr
    {degrees degrees' : List String} (hdegrees : degrees.Perm degrees') :
    finalState toLowercase tokenize transforms degrees =
      finalState toLowercase tokenize other degrees' := by
  have hready : sortReady transforms = sortReady other := by
    funext ready
    rw [sortReady, sortReady, priorityOf_congr hperm]
  have hcongr := sortReady_congr other
  have hlength := (perm_names hperm).length_eq
  simp only [finalState, hready, inDegree_congr hperm, hlength]
  rw [Kahn.start_congr hcongr _ hdegrees]
  exact Kahn.run_congr hcongr (nodup_dependencies _ _ _)
    (perm_dependencies hperm) _ _

/-- The list does not depend on the order of a hash map. -/
theorem sortTransforms_congr
    {degrees degrees' : List String} (hdegrees : degrees.Perm degrees') :
    (sortTransforms toLowercase tokenize transforms degrees).toOption =
      (sortTransforms toLowercase tokenize other degrees').toOption := by
  rw [sortTransforms_eq, sortTransforms_eq,
    finalState_congr hperm hdegrees, hperm.length_eq]
  split_ifs <;> rfl

end Order

/-! ## The order of a pipeline -/

/-- Two transforms; `transfers` reads `logs`, and `logs` selects a column
named `transfers` of a source. -/
def crossedTransforms : Transforms where
  entries :=
    [("logs", .sql "select transfers from chain"),
      ("transfers", .sql "select amount from logs")]
  nodup := by decide

/-- The tokens of `select column from table`. -/
def selectTokens (column table : String) : List Token :=
  [.word "select" false, .whitespace, .word column false, .whitespace,
    .word "from" false, .whitespace, .word table false]

def crossedTokens (query : String) : Option (List Token) :=
  if query = "select transfers from chain" then
    some (selectTokens "transfers" "chain")
  else if query = "select amount from logs" then
    some (selectTokens "amount" "logs")
  else if query = "select topic from chain" then
    some (selectTokens "topic" "chain")
  else
    none

/-- The same two transforms, without that column. -/
def chainedTransforms : Transforms where
  entries :=
    [("transfers", .sql "select amount from logs"),
      ("logs", .sql "select topic from chain")]
  nodup := by decide

end TopologySort

end Streamling
