import Mathlib.Algebra.Order.BigOperators.Group.List
import Mathlib.Data.List.Basic
import Mathlib.Data.List.MinMax

/-!
# Arrow arrays and their offsets

An array is a window into buffers that slices share.  Of the buffers the
`i32` offsets matter here: those of strings, binaries, lists and maps, and
those of dense unions, which index each child.  The largest payload of an
array bounds the payload of every such buffer below it, and slicing an array
does not enlarge any of them.
-/

namespace Streamling

namespace Arrow

/-- An array with the offsets of its window.  Slicing a struct, a sparse union
or a fixed-size list slices the children; the children of other arrays are
shared as they are.  Wrappers have no `i32` offsets of their own: large lists,
dictionaries, run-end encoded arrays. -/
inductive ArrowArray where
  | scalar (len : ℕ)
  | utf8 (offsets : List ℕ)
  | binary (offsets : List ℕ)
  | list (offsets : List ℕ) (values : ArrowArray)
  | map (offsets : List ℕ) (entries : ArrowArray)
  | denseUnion (len : ℕ) (children : List ArrowArray)
  | sparseUnion (len : ℕ) (children : List ArrowArray)
  | struct (len : ℕ) (children : List ArrowArray)
  | fixedSizeList (size len : ℕ) (values : ArrowArray)
  | wrapper (len : ℕ) (children : List ArrowArray)

namespace ArrowArray

def len : ArrowArray → ℕ
  | .utf8 offsets | .binary offsets => offsets.length - 1
  | .list offsets _ | .map offsets _ => offsets.length - 1
  | .scalar len | .denseUnion len _ | .sparseUnion len _ => len
  | .struct len _ | .fixedSizeList _ len _ | .wrapper len _ => len

def children : ArrowArray → List ArrowArray
  | .scalar _ | .utf8 _ | .binary _ => []
  | .list _ values | .map _ values | .fixedSizeList _ _ values => [values]
  | .denseUnion _ children | .sparseUnion _ children => children
  | .struct _ children | .wrapper _ children => children

/-- The `i32` offsets of a string, binary, list or map. -/
def valueOffsets : ArrowArray → List ℕ
  | .utf8 offsets | .binary offsets => offsets
  | .list offsets _ | .map offsets _ => offsets
  | _ => []

/-- What the offsets of a window span. -/
def span (offsets : List ℕ) : ℕ :=
  offsets.getLast?.getD 0 - offsets.head?.getD 0

mutual

/-- The largest payload that an array feeds into a single buffer of `i32`
offsets.  Shared children are counted at their full length. -/
def maxI32OffsetPayloadSize : ArrowArray → ℕ
  | .utf8 offsets => span offsets
  | .binary offsets => span offsets
  | .list offsets values =>
      max (span offsets) (maxI32OffsetPayloadSize values)
  | .map offsets entries =>
      max (span offsets) (maxI32OffsetPayloadSize entries)
  | .denseUnion _ children => maxUnionChildSize children
  | .scalar _ => 0
  | .sparseUnion _ children => maxChildSize children
  | .struct _ children => maxChildSize children
  | .fixedSizeList _ _ values => maxI32OffsetPayloadSize values
  | .wrapper _ children => maxChildSize children

def maxUnionChildSize : List ArrowArray → ℕ
  | [] => 0
  | child :: rest =>
      max (max child.len (maxI32OffsetPayloadSize child))
        (maxUnionChildSize rest)

def maxChildSize : List ArrowArray → ℕ
  | [] => 0
  | child :: rest =>
      max (maxI32OffsetPayloadSize child) (maxChildSize rest)

end

/-- The offsets of the rows from `offset` on. -/
def sliceOffsets (offset length : ℕ) (offsets : List ℕ) : List ℕ :=
  (offsets.drop offset).take (length + 1)

mutual

def slice (offset length : ℕ) : ArrowArray → ArrowArray
  | .scalar len => .scalar (min length (len - offset))
  | .utf8 offsets => .utf8 (sliceOffsets offset length offsets)
  | .binary offsets => .binary (sliceOffsets offset length offsets)
  | .list offsets values => .list (sliceOffsets offset length offsets) values
  | .map offsets entries => .map (sliceOffsets offset length offsets) entries
  | .denseUnion len children =>
      .denseUnion (min length (len - offset)) children
  | .sparseUnion len children =>
      .sparseUnion (min length (len - offset))
        (sliceAll offset length children)
  | .struct len children =>
      .struct (min length (len - offset)) (sliceAll offset length children)
  | .fixedSizeList size len values =>
      .fixedSizeList size (min length (len - offset))
        (slice (offset * size) (length * size) values)
  | .wrapper len children => .wrapper (min length (len - offset)) children

def sliceAll (offset length : ℕ) : List ArrowArray → List ArrowArray
  | [] => []
  | child :: rest => slice offset length child :: sliceAll offset length rest

end

/-! ## Buffers of offsets -/

/-- A place for `i32` offsets in an array: its own offsets, the offsets of a
dense union into a child, or a place in a child. -/
inductive Buffer where
  | offsets
  | unionChild (i : ℕ)
  | child (i : ℕ) (buffer : Buffer)
  deriving DecidableEq, Repr

/-- The payload of a buffer: the value bytes of strings and binaries, the
elements of lists and maps, the length of a dense union's child. -/
def payload : Buffer → ArrowArray → ℕ
  | .offsets, array => span array.valueOffsets
  | .unionChild i, .denseUnion _ children =>
      (children[i]?.map len).getD 0
  | .unionChild _, _ => 0
  | .child i buffer, array =>
      (array.children[i]?.map (payload buffer)).getD 0

theorem size_le_maxChildSize
    {child : ArrowArray} {children : List ArrowArray}
    (h : child ∈ children) :
    maxI32OffsetPayloadSize child ≤ maxChildSize children := by
  induction children with
  | nil => cases h
  | cons first rest ih =>
      rw [maxChildSize]
      rcases List.mem_cons.mp h with rfl | h
      · exact le_max_left _ _
      · exact (ih h).trans (le_max_right _ _)

theorem size_le_maxUnionChildSize
    {child : ArrowArray} {children : List ArrowArray}
    (h : child ∈ children) :
    max child.len (maxI32OffsetPayloadSize child) ≤
      maxUnionChildSize children := by
  induction children with
  | nil => cases h
  | cons first rest ih =>
      rw [maxUnionChildSize]
      rcases List.mem_cons.mp h with rfl | h
      · exact le_max_left _ _
      · exact (ih h).trans (le_max_right _ _)

theorem span_valueOffsets_le
    (array : ArrowArray) :
    span array.valueOffsets ≤ maxI32OffsetPayloadSize array := by
  cases array with
  | utf8 offsets => exact le_refl _
  | binary offsets => exact le_refl _
  | list offsets values => exact le_max_left _ _
  | map offsets entries => exact le_max_left _ _
  | _ => exact Nat.zero_le _

theorem child_size_le
    {child array : ArrowArray} (h : child ∈ array.children) :
    maxI32OffsetPayloadSize child ≤ maxI32OffsetPayloadSize array := by
  cases array with
  | scalar len => cases h
  | utf8 offsets => cases h
  | binary offsets => cases h
  | list offsets values =>
      obtain rfl := List.mem_singleton.mp h
      exact le_max_right _ _
  | map offsets entries =>
      obtain rfl := List.mem_singleton.mp h
      exact le_max_right _ _
  | denseUnion len children =>
      exact (le_max_right _ _).trans (size_le_maxUnionChildSize h)
  | sparseUnion len children => exact size_le_maxChildSize h
  | struct len children => exact size_le_maxChildSize h
  | fixedSizeList size len values =>
      obtain rfl := List.mem_singleton.mp h
      exact le_refl _
  | wrapper len children => exact size_le_maxChildSize h

/-- The largest payload bounds the payload of every buffer. -/
theorem payload_le
    (buffer : Buffer) (array : ArrowArray) :
    payload buffer array ≤ maxI32OffsetPayloadSize array := by
  induction buffer generalizing array with
  | offsets => exact span_valueOffsets_le array
  | unionChild i =>
      cases array with
      | denseUnion length children =>
          rw [payload]
          cases hchild : children[i]? with
          | none => exact Nat.zero_le _
          | some child =>
              exact (le_max_left _ _).trans
                (size_le_maxUnionChildSize (List.mem_of_getElem? hchild))
      | _ => exact Nat.zero_le _
  | child i buffer ih =>
      rw [payload]
      cases hchild : array.children[i]? with
      | none => exact Nat.zero_le _
      | some child =>
          exact (ih child).trans
            (child_size_le (List.mem_of_getElem? hchild))

/-! ## Slices -/

/-- What is used of the validity of an array: its offsets do not decrease, at
every depth. -/
inductive Ordered : ArrowArray → Prop
  | mk {array : ArrowArray}
      (offsets : array.valueOffsets.Pairwise (· ≤ ·))
      (children : ∀ child ∈ array.children, Ordered child) : Ordered array

theorem head_le_of_mem
    {offsets : List ℕ} (hordered : offsets.Pairwise (· ≤ ·)) {x : ℕ}
    (h : x ∈ offsets) :
    offsets.head?.getD 0 ≤ x := by
  cases offsets with
  | nil => cases h
  | cons first rest =>
      rcases List.mem_cons.mp h with rfl | h
      · exact le_refl _
      · exact List.rel_of_pairwise_cons hordered h

theorem le_last_of_mem
    {offsets : List ℕ} (hordered : offsets.Pairwise (· ≤ ·)) {x : ℕ}
    (h : x ∈ offsets) :
    x ≤ offsets.getLast?.getD 0 := by
  obtain rfl | ⟨init, last, rfl⟩ := List.eq_nil_or_concat' offsets
  · cases h
  · rw [List.getLast?_concat, Option.getD_some]
    rcases List.mem_append.mp h with h | h
    · exact (List.pairwise_append.mp hordered).2.2 x h last
        List.mem_cons_self
    · exact (List.mem_singleton.mp h).le

theorem span_le_of_sublist
    {offsets offsets' : List ℕ} (hordered : offsets.Pairwise (· ≤ ·))
    (h : offsets'.Sublist offsets) :
    span offsets' ≤ span offsets := by
  obtain rfl | ⟨init, last, rfl⟩ := List.eq_nil_or_concat' offsets'
  · exact Nat.zero_le _
  · have hlast := le_last_of_mem hordered (h.subset (by simp : last ∈ _))
    cases hhead : (init ++ [last]).head? with
    | none => simp at hhead
    | some first =>
        have hfirst := head_le_of_mem hordered
          (h.subset (List.mem_of_head? hhead))
        rw [span, span, hhead, List.getLast?_concat, Option.getD_some,
          Option.getD_some]
        omega

theorem sliceAll_eq_map
    (offset length : ℕ) (children : List ArrowArray) :
    sliceAll offset length children = children.map (slice offset length) := by
  induction children with
  | nil => rfl
  | cons child rest ih => rw [sliceAll, ih, List.map_cons]

theorem valueOffsets_slice
    (offset length : ℕ) (array : ArrowArray) :
    (slice offset length array).valueOffsets.Sublist array.valueOffsets := by
  have hsub (offsets : List ℕ) :
      (sliceOffsets offset length offsets).Sublist offsets :=
    (List.take_sublist _ _).trans (List.drop_sublist _ _)
  cases array with
  | utf8 offsets => exact hsub offsets
  | binary offsets => exact hsub offsets
  | list offsets values => exact hsub offsets
  | map offsets entries => exact hsub offsets
  | _ => exact List.Sublist.refl _

/-- A child of a slice is the child, or a slice of it. -/
theorem children_slice
    {offset length : ℕ} {array child : ArrowArray} {i : ℕ}
    (h : (slice offset length array).children[i]? = some child) :
    ∃ whole, array.children[i]? = some whole ∧
      (child = whole ∨ ∃ o l, child = slice o l whole) := by
  cases array with
  | sparseUnion len children =>
      rw [slice, ArrowArray.children, sliceAll_eq_map, List.getElem?_map,
        Option.map_eq_some_iff] at h
      obtain ⟨whole, hwhole, rfl⟩ := h
      exact ⟨whole, hwhole, Or.inr ⟨offset, length, rfl⟩⟩
  | struct len children =>
      rw [slice, ArrowArray.children, sliceAll_eq_map, List.getElem?_map,
        Option.map_eq_some_iff] at h
      obtain ⟨whole, hwhole, rfl⟩ := h
      exact ⟨whole, hwhole, Or.inr ⟨offset, length, rfl⟩⟩
  | fixedSizeList size len values =>
      cases i with
      | zero =>
          obtain rfl := Option.some.inj h
          exact ⟨values, rfl, Or.inr ⟨_, _, rfl⟩⟩
      | succ i => cases h
  | _ => exact ⟨child, h, Or.inl rfl⟩

theorem Ordered.slice
    {array : ArrowArray} (h : Ordered array) (offset length : ℕ) :
    Ordered (slice offset length array) := by
  induction h generalizing offset length with
  | @mk array hoffsets hchildren ih =>
      refine ⟨hoffsets.sublist (valueOffsets_slice offset length array), ?_⟩
      intro child hchild
      obtain ⟨i, hi⟩ := List.mem_iff_getElem?.mp hchild
      obtain ⟨whole, hwhole, rfl | ⟨o, l, rfl⟩⟩ := children_slice hi
      · exact hchildren child (List.mem_of_getElem? hwhole)
      · exact ih whole (List.mem_of_getElem? hwhole) o l

/-- A slice feeds no more into any buffer than the array does. -/
theorem payload_slice_le
    (buffer : Buffer) {array : ArrowArray} (h : Ordered array)
    (offset length : ℕ) :
    payload buffer (slice offset length array) ≤ payload buffer array := by
  induction buffer generalizing array offset length with
  | offsets =>
      obtain ⟨hoffsets, -⟩ := h
      exact span_le_of_sublist hoffsets
        (valueOffsets_slice offset length array)
  | unionChild i =>
      cases array with
      | denseUnion len children => exact le_refl _
      | _ => exact Nat.zero_le _
  | child i buffer ih =>
      obtain ⟨-, hchildren⟩ := h
      rw [payload, payload]
      cases hchild : (slice offset length array).children[i]? with
      | none => exact Nat.zero_le _
      | some child =>
          obtain ⟨whole, hwhole, rfl | ⟨o, l, rfl⟩⟩ := children_slice hchild
          · rw [hwhole]
          · rw [hwhole]
            exact ih (hchildren whole (List.mem_of_getElem? hwhole)) o l

end ArrowArray

end Arrow

end Streamling
