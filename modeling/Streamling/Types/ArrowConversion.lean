import Mathlib
import Streamling.Types.ArrowTree

/-!
# Converting the leaves of an array

What it is to convert the leaves of an extension type everywhere in an array,
with the rest as it was, and what the conversion of a container has from those
of the arrays below it.
-/

namespace Streamling

namespace ArrowTree

/-! ## Converted arrays -/

section

variable (p : WideType → Bool) (leaf : WideType → Column → Column → Prop)
  (unwraps : ArrowField → Column → ArrowField → Column → Prop)

mutual

/-- Every leaf with the property is converted, and nothing else is.  An
encoding may be taken off on the way. -/
inductive Converted : ArrowField → Column → Column → Prop
  | leaf {name nullable metadata type a a'} :
      p type = true → leaf type a a' →
      Converted (.wide name nullable metadata type) a a'
  | same {field a} :
      field.contains p = false → Converted field a a
  | list {name nullable metadata layout child c c' offsets validity values
      values'} :
      layout.plain = true → Converted child values values' →
      Converted (.plain name nullable metadata (.list layout child))
        (.list layout c offsets validity values)
        (.list layout c' offsets validity values')
  | map {name nullable metadata entries fields sorted cs cs' offsets validity
      fs fs' rows columns columns'} :
      AllConverted fields columns columns' →
      Converted (.plain name nullable metadata (.map entries fields sorted))
        (.map entries cs sorted offsets validity (.struct fs rows columns))
        (.map entries cs' sorted offsets validity (.struct fs' rows columns'))
  | struct {name nullable metadata fields cs cs' validity columns columns'} :
      AllConverted fields columns columns' →
      Converted (.plain name nullable metadata (.struct fields))
        (.struct cs validity columns) (.struct cs' validity columns')
  | unwrapped {field a field' b a'} :
      unwraps field a field' b → Converted field' b a' →
      Converted field a a'

inductive AllConverted : List ArrowField → List Column → List Column → Prop
  | nil : AllConverted [] [] []
  | cons {field a a' fields columns columns'} :
      Converted field a a' → AllConverted fields columns columns' →
      AllConverted (field :: fields) (a :: columns) (a' :: columns')

end

end

/-- No encoding is taken off. -/
def NoUnwrap (_ : ArrowField) (_ : Column) (_ : ArrowField) (_ : Column) :
    Prop :=
  False

section

variable {p : WideType → Bool} {leaf : WideType → Column → Column → Prop}
  {unwraps : ArrowField → Column → ArrowField → Column → Prop}
  {name : String} {nullable : Bool} {metadata : FieldMetadata}

theorem allConverted_cons
    {field : ArrowField} {a a' : Column} {fields : List ArrowField}
    {columns columns' : List Column} :
    AllConverted p leaf unwraps (field :: fields) (a :: columns)
        (a' :: columns') ↔
      Converted p leaf unwraps field a a' ∧
        AllConverted p leaf unwraps fields columns columns' := by
  constructor
  · intro h
    cases h with
    | cons hfirst hrest => exact ⟨hfirst, hrest⟩
  · intro h
    exact .cons h.1 h.2

theorem converted_list
    {layout : ListLayout} {child c c' : ArrowField} {offsets : List ℕ}
    {validity : List Bool} {values values' : Column}
    (hplain : layout.plain = true)
    (hcontains : (DataType.list layout child).contains p = true)
    (hunwraps : ∀ a field b, ¬ unwraps
      (.plain name nullable metadata (.list layout child)) a field b) :
    Converted p leaf unwraps
        (.plain name nullable metadata (.list layout child))
        (.list layout c offsets validity values)
        (.list layout c' offsets validity values') ↔
      Converted p leaf unwraps child values values' := by
  constructor
  · intro h
    cases h with
    | same hnot => simp [ArrowField.contains, hcontains] at hnot
    | list _ hvalues => exact hvalues
    | unwrapped hunwrap _ => exact absurd hunwrap (hunwraps _ _ _)
  · intro h
    exact .list hplain h

theorem converted_struct
    {fields cs cs' : List ArrowField} {validity : List Bool}
    {columns columns' : List Column}
    (hcontains : (DataType.struct fields).contains p = true)
    (hunwraps : ∀ a field b, ¬ unwraps
      (.plain name nullable metadata (.struct fields)) a field b) :
    Converted p leaf unwraps (.plain name nullable metadata (.struct fields))
        (.struct cs validity columns) (.struct cs' validity columns') ↔
      AllConverted p leaf unwraps fields columns columns' := by
  constructor
  · intro h
    cases h with
    | same hnot => simp [ArrowField.contains, hcontains] at hnot
    | struct hcolumns => exact hcolumns
    | unwrapped hunwrap _ => exact absurd hunwrap (hunwraps _ _ _)
  · intro h
    exact .struct h

theorem converted_map
    {entries : EntriesHeader} {fields cs cs' fs fs' : List ArrowField}
    {sorted : Bool} {offsets : List ℕ} {validity rows : List Bool}
    {columns columns' : List Column}
    (hcontains : (DataType.map entries fields sorted).contains p = true)
    (hunwraps : ∀ a field b, ¬ unwraps
      (.plain name nullable metadata (.map entries fields sorted)) a field
        b) :
    Converted p leaf unwraps
        (.plain name nullable metadata (.map entries fields sorted))
        (.map entries cs sorted offsets validity (.struct fs rows columns))
        (.map entries cs' sorted offsets validity
          (.struct fs' rows columns')) ↔
      AllConverted p leaf unwraps fields columns columns' := by
  constructor
  · intro h
    cases h with
    | same hnot => simp [ArrowField.contains, hcontains] at hnot
    | map hcolumns => exact hcolumns
    | unwrapped hunwrap _ => exact absurd hunwrap (hunwraps _ _ _)
  · intro h
    exact .map h

end

/-! ## Conversions -/

theorem bind_return_pair
    {α β γ ε : Type} {x : Except ε (α × β)} (wrap : α → γ) :
    (x >>= fun out => pure (wrap out.1, out.2)) =
      x.map fun out => (wrap out.1, out.2) := by
  cases x with
  | error e => rfl
  | ok out => rfl

theorem bind_return_const
    {α β ε : Type} {x : Except ε α} {c : β} :
    (x >>= fun out => pure (c, out)) = x.map fun out => (c, out) := by
  cases x with
  | error e => rfl
  | ok out => rfl

theorem bind_return_snd
    {α β ε : Type} {x : Except ε (α × β)} :
    (x >>= fun out => pure out.2) = x.map Prod.snd := by
  cases x with
  | error e => rfl
  | ok out => rfl

theorem bind_return
    {α β ε : Type} {x : Except ε α} (f : α → β) :
    (x >>= fun out => pure (f out)) = x.map f := by
  cases x with
  | error e => rfl
  | ok out => rfl

/-- What is known of a conversion: it fails with a reported error, on an array
without rows only if it may, and otherwise converts the whole array under a
condition. -/
structure Walked (fails passes whole : Prop) (converted : Column → Prop)
    (field : ArrowField) (a : Column)
    (result : Except TreeError (ArrowField × Column)) : Prop where
  error : ∀ e, result = .error e → e.Reported ∧ (a.Empty → fails)
  ok : ∀ field' a', result = .ok (field', a') →
    passes ∧ Keeps field a field' a' ∧ (converted a' ↔ whole)

structure AllWalked (fails passes whole : Prop)
    (converted : List Column → Prop) (fields : List ArrowField)
    (columns : List Column)
    (result : Except TreeError (List ArrowField × List Column)) :
    Prop where
  error : ∀ e, result = .error e → e.Reported ∧ (AllEmpty columns → fails)
  ok : ∀ fields' columns', result = .ok (fields', columns') →
    passes ∧ AllKeep fields columns fields' columns' ∧
      (converted columns' ↔ whole)

section

variable {fails passes whole : Prop}

theorem Walked.of_error
    {converted : Column → Prop} {field : ArrowField} {a : Column}
    {e : TreeError} (hreported : e.Reported) (hempty : a.Empty → fails) :
    Walked fails passes whole converted field a (.error e) := by
  constructor
  · rintro e' he
    obtain rfl := Except.error.inj he
    exact ⟨hreported, hempty⟩
  · intro field' a' h
    exact absurd h (by simp)

theorem Walked.of_ok
    {converted : Column → Prop} {field field' : ArrowField} {a a' : Column}
    (hpasses : passes) (hkeeps : Keeps field a field' a')
    (hwhole : converted a' ↔ whole) :
    Walked fails passes whole converted field a (.ok (field', a')) := by
  constructor
  · intro e h
    exact absurd h (by simp)
  · intro field'' a'' h
    obtain ⟨rfl, rfl⟩ := Prod.mk.inj (Except.ok.inj h)
    exact ⟨hpasses, hkeeps, hwhole⟩

theorem AllWalked.of_error
    {converted : List Column → Prop} {fields : List ArrowField}
    {columns : List Column} {e : TreeError} (hreported : e.Reported)
    (hempty : AllEmpty columns → fails) :
    AllWalked fails passes whole converted fields columns (.error e) := by
  constructor
  · rintro e' he
    obtain rfl := Except.error.inj he
    exact ⟨hreported, hempty⟩
  · intro fields' columns' h
    exact absurd h (by simp)

theorem AllWalked.of_ok
    {converted : List Column → Prop} {fields fields' : List ArrowField}
    {columns columns' : List Column} (hpasses : passes)
    (hkeeps : AllKeep fields columns fields' columns')
    (hwhole : converted columns' ↔ whole) :
    AllWalked fails passes whole converted fields columns
      (.ok (fields', columns')) := by
  constructor
  · intro e h
    exact absurd h (by simp)
  · intro fields'' columns'' h
    obtain ⟨rfl, rfl⟩ := Prod.mk.inj (Except.ok.inj h)
    exact ⟨hpasses, hkeeps, hwhole⟩

/-- The conversions of children one after the other. -/
theorem AllWalked.cons
    {fails₁ passes₁ whole₁ fails₂ passes₂ whole₂ : Prop}
    {converted₁ : Column → Prop} {converted₂ converted : List Column → Prop}
    {field : ArrowField} {a : Column} {fields : List ArrowField}
    {columns : List Column} {first : Except TreeError (ArrowField × Column)}
    {rest : Except TreeError (List ArrowField × List Column)}
    (hfirst : Walked fails₁ passes₁ whole₁ converted₁ field a first)
    (hrest : AllWalked fails₂ passes₂ whole₂ converted₂ fields columns rest)
    (hfails : fails₁ ∨ fails₂ → fails)
    (hpasses : passes₁ ∧ passes₂ → passes) (hwhole : whole₁ ∧ whole₂ ↔ whole)
    (hconverted : ∀ a' columns', converted (a' :: columns') ↔
      converted₁ a' ∧ converted₂ columns') :
    AllWalked fails passes whole converted (field :: fields) (a :: columns)
      (first.bind fun out => rest.bind fun outs =>
        .ok (out.1 :: outs.1, out.2 :: outs.2)) := by
  cases first with
  | error e =>
      have herror := hfirst.error e rfl
      exact .of_error herror.1 fun hempty => hfails (.inl (herror.2 hempty.1))
  | ok out =>
      obtain ⟨field', a'⟩ := out
      obtain ⟨hpass₁, hkeeps₁, hwhole₁⟩ := hfirst.ok field' a' rfl
      cases rest with
      | error e =>
          have herror := hrest.error e rfl
          exact .of_error herror.1
            fun hempty => hfails (.inr (herror.2 hempty.2))
      | ok outs =>
          obtain ⟨fields', columns'⟩ := outs
          obtain ⟨hpass₂, hkeeps₂, hwhole₂⟩ := hrest.ok fields' columns' rfl
          refine .of_ok (hpasses ⟨hpass₁, hpass₂⟩) (.cons hkeeps₁ hkeeps₂) ?_
          rw [hconverted, hwhole₁, hwhole₂, hwhole]

/-- The conversion of a list, from that of its values. -/
theorem Walked.list
    {layout : ListLayout} {child field : ArrowField} {offsets : List ℕ}
    {validity : List Bool} {values : Column} {convert : Conversion}
    {name : String} {converted converted' : Column → Prop}
    (wrap : ArrowField → ArrowField)
    (hvalid : (Column.list layout child offsets validity values).Valid)
    (hwalked : Walked fails passes whole converted child values
      (convert values))
    (hconverted : ∀ child' values',
      converted' (.list layout child' offsets validity values') ↔
        converted values')
    (hnullable : ∀ child', (wrap child').nullable = field.nullable)
    (htype : ∀ child', (wrap child').dataType = .list layout child') :
    Walked fails passes whole converted' field
      (.list layout child offsets validity values)
      ((rebuildList name layout convert
        (.list layout child offsets validity values)).map
          fun out => (wrap out.1, out.2)) := by
  obtain ⟨hplain, hok, -⟩ := hvalid
  cases hresult : convert values with
  | error e =>
      have herror := hwalked.error e hresult
      rw [rebuildList_eq_error hresult]
      exact .of_error herror.1 fun hempty => herror.2 hempty.2
  | ok out =>
      obtain ⟨child', values'⟩ := out
      obtain ⟨hpasses, hkeeps, hwhole⟩ := hwalked.ok child' values' hresult
      rw [rebuildList_eq_ok hok hresult hkeeps]
      refine .of_ok hpasses ⟨hnullable _, (htype _).symm, rfl, ?_⟩
        ((hconverted _ _).trans hwhole)
      exact ⟨hplain, hok.of_keeps hkeeps, hkeeps.valid⟩

/-- The conversion of a struct, from that of its columns. -/
theorem AllWalked.struct
    {fields : List ArrowField} {field : ArrowField} {validity : List Bool}
    {columns : List Column} {name : String}
    {convert : List Column →
      Except TreeError (List ArrowField × List Column)}
    {converted : List Column → Prop} {converted' : Column → Prop}
    (wrap : List ArrowField → ArrowField)
    (hvalid : (Column.struct fields validity columns).Valid)
    (hwalked : AllWalked fails passes whole converted fields columns
      (convert columns))
    (hconverted : ∀ fields' columns',
      converted' (.struct fields' validity columns') ↔ converted columns')
    (hnullable : ∀ fields', (wrap fields').nullable = field.nullable)
    (htype : ∀ fields', (wrap fields').dataType = .struct fields') :
    Walked fails passes whole converted' field
      (.struct fields validity columns)
      ((rebuildStruct name convert (.struct fields validity columns)).map
        fun out => (wrap out.1, out.2)) := by
  obtain ⟨hok, -⟩ := hvalid
  cases hresult : convert columns with
  | error e =>
      have herror := hwalked.error e hresult
      rw [rebuildStruct_eq_error hresult]
      exact .of_error herror.1 fun hempty => herror.2 hempty.2
  | ok out =>
      obtain ⟨fields', columns'⟩ := out
      obtain ⟨hpasses, hkeeps, hwhole⟩ :=
        hwalked.ok fields' columns' hresult
      rw [rebuildStruct_eq_ok hok hresult hkeeps]
      refine .of_ok hpasses ⟨hnullable _, (htype _).symm, rfl, ?_⟩
        ((hconverted _ _).trans hwhole)
      exact ⟨hkeeps.structOk hok, hkeeps.valid⟩

/-- The conversion of a map, from that of the columns of its entries. -/
theorem AllWalked.map
    {entries : EntriesHeader} {fields : List ArrowField} {sorted : Bool}
    {field : ArrowField} {offsets : List ℕ} {validity rows : List Bool}
    {columns : List Column} {name : String}
    {convert : List Column →
      Except TreeError (List ArrowField × List Column)}
    {converted : List Column → Prop} {converted' : Column → Prop}
    (wrap : List ArrowField → ArrowField)
    (hvalid : (Column.map entries fields sorted offsets validity
      (.struct fields rows columns)).Valid)
    (hwalked : AllWalked fails passes whole converted fields columns
      (convert columns))
    (hconverted : ∀ fields' columns',
      converted' (.map entries fields' sorted offsets validity
        (.struct fields' rows columns')) ↔ converted columns')
    (hnullable : ∀ fields', (wrap fields').nullable = field.nullable)
    (htype : ∀ fields',
      (wrap fields').dataType = .map entries fields' sorted) :
    Walked fails passes whole converted' field
      (.map entries fields sorted offsets validity
        (.struct fields rows columns))
      ((rebuildMap name entries sorted convert
        (.map entries fields sorted offsets validity
          (.struct fields rows columns))).map
            fun out => (wrap out.1, out.2)) := by
  obtain ⟨hmap, hok, -⟩ := hvalid
  have hmap : MapOk fields offsets validity (.struct fields) rows := hmap
  cases hresult : convert columns with
  | error e =>
      have herror := hwalked.error e hresult
      rw [rebuildMap_eq_error hresult]
      exact .of_error herror.1 fun hempty => herror.2 hempty.2.2
  | ok out =>
      obtain ⟨fields', columns'⟩ := out
      obtain ⟨hpasses, hkeeps, hwhole⟩ :=
        hwalked.ok fields' columns' hresult
      rw [rebuildMap_eq_ok hmap hok hresult hkeeps]
      refine .of_ok hpasses ⟨hnullable _, (htype _).symm, rfl, ?_⟩
        ((hconverted _ _).trans hwhole)
      exact ⟨⟨hmap.1, rfl, hmap.2.2⟩, hkeeps.structOk hok, hkeeps.valid⟩

end

end ArrowTree

end Streamling
