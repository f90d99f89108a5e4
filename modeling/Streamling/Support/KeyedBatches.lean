import Mathlib.Data.List.Basic
import Mathlib.Data.List.Induction
import Mathlib.Logic.Function.Basic

/-!
# Batches of events that keep the last event of each key

Each event has a key and acts on the state of that key.  A batch applies, to
each key, only the last of its events.  Whether the outcome depends on how a
sequence is cut into batches is decided key by key: what has to agree is the
action of the last event on every state that the events before it can leave
behind when some of them are dropped.
-/

namespace KeyedBatches

variable {ε κ σ : Type*} [DecidableEq κ]

section

variable (key : ε → κ) (act : ε → σ → σ)

/-- The events of a key. -/
def eventsOf (k : κ) (events : List ε) : List ε :=
  events.filter fun e => key e = k

/-- What a batch does to the state of a key. -/
def batchAt (k : κ) (s : σ) (batch : List ε) : σ :=
  match (eventsOf key k batch).getLast? with
  | none => s
  | some e => act e s

/-- What a sequence of batches does to the state of a key. -/
def batchesAt (k : κ) (s : σ) (batches : List (List ε)) : σ :=
  batches.foldl (batchAt key act k) s

end

/-- Keep the last event of each key, in the order of the events. -/
def keepLast (key : ε → κ) : List ε → List ε
  | [] => []
  | e :: events =>
      if key e ∈ events.map key then keepLast key events
      else e :: keepLast key events

/-- Is there no later event of the same key? -/
def IsLast (key : ε → κ) (events : List ε) (i : ℕ) : Prop :=
  ∀ j < events.length, i < j →
    (events[j]?).map key ≠ (events[i]?).map key

instance (key : ε → κ) (events : List ε) :
    DecidablePred (IsLast key events) := fun i =>
  inferInstanceAs (Decidable (∀ j < events.length, i < j →
    (events[j]?).map key ≠ (events[i]?).map key))

/-- The states that events can leave behind when some of them are dropped. -/
def reachable (act : ε → σ → σ) (s : σ) (events : List ε) : List σ :=
  events.foldl (fun states e => states ++ states.map (act e)) [s]

/-- The last of the events does the same to every state that those before it
can leave behind. -/
def Settled (act : ε → σ → σ) (s : σ) (events : List ε) : Prop :=
  ∀ e ∈ events.getLast?, ∀ x ∈ reachable act s events.dropLast,
    act e x = act e s

section Reachable

variable {act : ε → σ → σ} {s x : σ} {e : ε} {events more : List ε}

theorem mem_reachable_snoc :
    x ∈ reachable act s (events ++ [e]) ↔
      x ∈ reachable act s events ∨
        ∃ y ∈ reachable act s events, act e y = x := by
  simp [reachable, List.foldl_append]

theorem mem_reachable_append
    (h : x ∈ reachable act s events) :
    x ∈ reachable act s (events ++ more) := by
  induction more using List.reverseRecOn with
  | nil => simpa using h
  | append_singleton more e ih =>
      rw [← List.append_assoc, mem_reachable_snoc]
      exact .inl ih

theorem self_mem_reachable (act : ε → σ → σ) (s : σ) (events : List ε) :
    s ∈ reachable act s events := by
  have hnil : s ∈ reachable act s [] := by simp [reachable]
  exact mem_reachable_append hnil

/-- A property of the state that the events keep holds of every state they
can leave behind. -/
theorem reachable_induction
    {P : σ → Prop} (hs : P s) (hact : ∀ e ∈ events, ∀ x, P x → P (act e x)) :
    ∀ x ∈ reachable act s events, P x := by
  induction events using List.reverseRecOn with
  | nil =>
      intro x hx
      obtain rfl : x = s := by simpa [reachable] using hx
      exact hs
  | append_singleton events e ih =>
      have hbefore := ih fun d hd => hact d (List.mem_append_left _ hd)
      intro x hx
      rcases mem_reachable_snoc.mp hx with hx | ⟨y, hy, rfl⟩
      · exact hbefore x hx
      · exact hact e (by simp) y (hbefore y hy)

end Reachable

section Cuts

variable {key : ε → κ} {act : ε → σ → σ} {k : κ} {s x : σ} {e : ε}
variable {events batch : List ε} {batches : List (List ε)}

@[simp] theorem eventsOf_append (events more : List ε) :
    eventsOf key k (events ++ more) =
      eventsOf key k events ++ eventsOf key k more :=
  List.filter_append ..

theorem eventsOf_singleton_of_eq (h : key e = k) :
    eventsOf key k [e] = [e] := by
  simp [eventsOf, h]

theorem eventsOf_singleton_of_ne (h : key e ≠ k) :
    eventsOf key k [e] = [] := by
  simp [eventsOf, h]

theorem eventsOf_eq_nil_iff :
    eventsOf key k events = [] ↔ k ∉ events.map key := by
  simp [eventsOf]

/-- Of each key, the last event is kept. -/
theorem eventsOf_keepLast (events : List ε) :
    eventsOf key k (keepLast key events) =
      (eventsOf key k events).getLast?.toList := by
  induction events with
  | nil => rfl
  | cons e events ih =>
      have hsplit : eventsOf key k (e :: events) =
          eventsOf key k [e] ++ eventsOf key k events :=
        eventsOf_append [e] events
      rw [keepLast, hsplit]
      by_cases hkey : key e = k
      · rw [eventsOf_singleton_of_eq hkey]
        split_ifs with hlater
        · have hne : eventsOf key k events ≠ [] := by
            rw [ne_eq, eventsOf_eq_nil_iff, not_not, ← hkey]
            exact hlater
          rw [ih, List.getLast?_append_of_ne_nil _ hne]
        · have hnil : eventsOf key k events = [] := by
            rw [eventsOf_eq_nil_iff, ← hkey]
            exact hlater
          have hkept : eventsOf key k (e :: keepLast key events) =
              [e] ++ eventsOf key k (keepLast key events) := by
            rw [← eventsOf_singleton_of_eq hkey]
            exact eventsOf_append [e] (keepLast key events)
          rw [hkept, ih, hnil]
          rfl
      · rw [eventsOf_singleton_of_ne hkey, List.nil_append, ← ih]
        split_ifs
        · rfl
        · simp [eventsOf, hkey]

theorem mem_map_keepLast :
    k ∈ (keepLast key events).map key ↔ k ∈ events.map key := by
  rw [← not_iff_not, ← eventsOf_eq_nil_iff, ← eventsOf_eq_nil_iff,
    eventsOf_keepLast, Option.toList_eq_nil_iff, List.getLast?_eq_none_iff]

/-- Events of different keys are all kept. -/
theorem keepLast_of_nodup
    (h : (events.map key).Nodup) : keepLast key events = events := by
  induction events with
  | nil => rfl
  | cons e events ih =>
      obtain ⟨hfirst, hrest⟩ := List.nodup_cons.mp h
      rw [keepLast, if_neg hfirst, ih hrest]

theorem nodup_keepLast (key : ε → κ) (events : List ε) :
    ((keepLast key events).map key).Nodup := by
  induction events with
  | nil => exact List.nodup_nil
  | cons e events ih =>
      rw [keepLast]
      split_ifs with hlater
      · exact ih
      · rw [List.map_cons, List.nodup_cons]
        exact ⟨fun hmem => hlater (mem_map_keepLast.mp hmem), ih⟩

theorem keepLast_keepLast (events : List ε) :
    keepLast key (keepLast key events) = keepLast key events :=
  keepLast_of_nodup (nodup_keepLast key events)

/-- Of the earlier events, those stay whose key does not come later. -/
theorem keepLast_append (events more : List ε) :
    keepLast key (events ++ more) =
      (keepLast key events).filter (fun e => key e ∉ more.map key) ++
        keepLast key more := by
  induction events with
  | nil => rfl
  | cons e events ih =>
      rw [List.cons_append, keepLast, keepLast, ih]
      by_cases hhere : key e ∈ events.map key
      · rw [if_pos hhere, if_pos]
        rw [List.map_append]
        exact List.mem_append_left _ hhere
      · rw [if_neg hhere]
        by_cases hlater : key e ∈ more.map key
        · rw [if_pos, List.filter_cons_of_neg]
          · simpa using hlater
          · rw [List.map_append]
            exact List.mem_append_right _ hlater
        · rw [if_neg, List.filter_cons_of_pos]
          · rfl
          · simpa using hlater
          · rw [List.map_append, List.mem_append]
            exact not_or.mpr ⟨hhere, hlater⟩

/-- Keeping the last events early changes nothing. -/
theorem keepLast_keepLast_append (events more : List ε) :
    keepLast key (keepLast key events ++ more) =
      keepLast key (events ++ more) := by
  rw [keepLast_append, keepLast_append, keepLast_keepLast]

omit [DecidableEq κ] in
theorem isLast_zero :
    IsLast key (e :: events) 0 ↔ key e ∉ events.map key := by
  constructor
  · intro hall hmem
    obtain ⟨d, hd, hkey⟩ := List.mem_map.mp hmem
    obtain ⟨i, hi, rfl⟩ := List.getElem_of_mem hd
    refine hall (i + 1) (by simpa using hi) (Nat.succ_pos i) ?_
    simp [hi, hkey]
  · rintro hnot (_ | j) hj hpos heq
    · exact absurd hpos (Nat.lt_irrefl 0)
    · have hlt : j < events.length := by simpa using hj
      rw [List.getElem?_cons_succ, List.getElem?_eq_getElem hlt] at heq
      refine hnot (List.mem_map.mpr ⟨events[j], by simp, ?_⟩)
      simpa using heq

omit [DecidableEq κ] in
theorem isLast_succ {i : ℕ} :
    IsLast key (e :: events) (i + 1) ↔ IsLast key events i := by
  constructor
  · intro hall j hj hlt
    simpa using hall (j + 1) (by simpa using hj) (by omega)
  · rintro hall (_ | j) hj hlt
    · omega
    · simpa using hall j (by simpa using hj) (by omega)

/-- The kept events are those at the last position of their key. -/
theorem filterMap_isLast (key : ε → κ) (events : List ε) :
    ((List.range events.length).filter (IsLast key events)).filterMap
        (fun i => events[i]?) =
      keepLast key events := by
  induction events with
  | nil => rfl
  | cons e events ih =>
      have htail : (((List.range events.length).map Nat.succ).filter
            (IsLast key (e :: events))).filterMap
            (fun i => (e :: events)[i]?) = keepLast key events := by
        rw [← ih, List.filter_map, List.filterMap_map]
        congr 1
        apply List.filter_congr
        intro i _
        simpa using isLast_succ
      rw [List.length_cons, List.range_succ_eq_map, keepLast]
      by_cases hlater : key e ∈ events.map key
      · rw [List.filter_cons_of_neg, if_pos hlater]
        · exact htail
        · simpa using fun h => (isLast_zero.mp h) hlater
      · rw [List.filter_cons_of_pos, if_neg hlater]
        · rw [List.filterMap_cons_some (List.getElem?_cons_zero ..), htail]
        · simpa using isLast_zero.mpr hlater

/-- A fold that updates the entry of one key after the other acts on each
entry by the events of its key. -/
theorem foldl_update_apply (act : ε → σ → σ) (table : κ → σ) (k : κ)
    (events : List ε) :
    events.foldl
        (fun table e => Function.update table (key e) (act e (table (key e))))
        table k =
      (eventsOf key k events).foldl (fun s e => act e s) (table k) := by
  induction events generalizing table with
  | nil => rfl
  | cons e events ih =>
      rw [List.foldl_cons, ih]
      by_cases hkey : key e = k
      · subst hkey
        simp [eventsOf]
      · simp [eventsOf, hkey, Function.update_of_ne (Ne.symm hkey)]

theorem batchAt_of_eventsOf_eq_nil (h : eventsOf key k batch = []) :
    batchAt key act k s batch = s := by
  simp [batchAt, h]

theorem batchAt_of_eventsOf_eq_snoc
    (h : eventsOf key k batch = events ++ [e]) :
    batchAt key act k s batch = act e s := by
  simp [batchAt, h]

theorem batchesAt_snoc :
    batchesAt key act k s (batches ++ [batch]) =
      batchAt key act k (batchesAt key act k s batches) batch := by
  simp [batchesAt, List.foldl_append]

/-- Whatever the cut, the state of a key is one that its events can leave
behind; if it has events, the last of them was applied. -/
theorem batchesAt_reachable
    (key : ε → κ) (act : ε → σ → σ) (k : κ) (s : σ)
    (batches : List (List ε)) :
    (eventsOf key k batches.flatten = [] ∧
        batchesAt key act k s batches = s) ∨
      ∃ front e, eventsOf key k batches.flatten = front ++ [e] ∧
        ∃ x ∈ reachable act s front,
          batchesAt key act k s batches = act e x := by
  induction batches using List.reverseRecOn with
  | nil => exact .inl ⟨rfl, rfl⟩
  | append_singleton batches batch ih =>
      have hflat : eventsOf key k (batches ++ [batch]).flatten =
          eventsOf key k batches.flatten ++ eventsOf key k batch := by
        simp
      rw [hflat, batchesAt_snoc]
      rcases List.eq_nil_or_concat (eventsOf key k batch) with
        hnone | ⟨front, e, hlast⟩
      · rw [hnone, List.append_nil, batchAt_of_eventsOf_eq_nil hnone]
        exact ih
      · rw [List.concat_eq_append] at hlast
        right
        rw [batchAt_of_eventsOf_eq_snoc hlast, hlast]
        refine ⟨eventsOf key k batches.flatten ++ front, e,
          (List.append_assoc ..).symm, _, ?_, rfl⟩
        apply mem_reachable_append
        rcases ih with ⟨hempty, hstate⟩ | ⟨before, d, hevents, x, hx, hstate⟩
        · rw [hstate]
          exact self_mem_reachable ..
        · rw [hstate, hevents, mem_reachable_snoc]
          exact .inr ⟨x, hx, rfl⟩

/-- Every state that the events of a key can leave behind is the outcome of
some cut, with a last batch still open. -/
theorem exists_cut_of_mem_reachable
    (hx : x ∈ reachable act s (eventsOf key k events)) :
    ∃ batches pending, batches.flatten ++ pending = events ∧
      batchesAt key act k s batches = x := by
  induction events using List.reverseRecOn generalizing x with
  | nil =>
      have heq : x = s := by simpa [eventsOf, reachable] using hx
      exact ⟨[], [], rfl, heq.symm⟩
  | append_singleton events e ih =>
      rw [eventsOf_append] at hx
      by_cases hkey : key e = k
      · rw [eventsOf_singleton_of_eq hkey, mem_reachable_snoc] at hx
        rcases hx with hx | ⟨y, hy, rfl⟩
        · -- the event is dropped: the batch stays open
          obtain ⟨batches, pending, rfl, hstate⟩ := ih hx
          exact ⟨batches, pending ++ [e], by simp, hstate⟩
        · -- the event is kept: it closes the batch
          obtain ⟨batches, pending, rfl, hstate⟩ := ih hy
          refine ⟨batches ++ [pending ++ [e]], [], by simp, ?_⟩
          have hevents : eventsOf key k (pending ++ [e]) =
              eventsOf key k pending ++ [e] := by
            rw [eventsOf_append, eventsOf_singleton_of_eq hkey]
          rw [batchesAt_snoc, batchAt_of_eventsOf_eq_snoc hevents, hstate]
      · rw [eventsOf_singleton_of_ne hkey, List.append_nil] at hx
        obtain ⟨batches, pending, rfl, hstate⟩ := ih hx
        exact ⟨batches, pending ++ [e], by simp, hstate⟩

/-- If the key has events, some cut applies the last of them to any state the
others can leave behind. -/
theorem exists_cut_of_last
    {front : List ε} (hevents : eventsOf key k events = front ++ [e])
    (hx : x ∈ reachable act s front) :
    ∃ batches, batches.flatten = events ∧
      batchesAt key act k s batches = act e x := by
  induction events using List.reverseRecOn with
  | nil => simp [eventsOf] at hevents
  | append_singleton events d ih =>
      rw [eventsOf_append] at hevents
      by_cases hkey : key d = k
      · rw [eventsOf_singleton_of_eq hkey] at hevents
        obtain ⟨hfront, hlast⟩ := List.append_inj' hevents rfl
        obtain rfl : d = e := by simpa using hlast
        rw [← hfront] at hx
        obtain ⟨batches, pending, rfl, hstate⟩ :=
          exists_cut_of_mem_reachable hx
        refine ⟨batches ++ [pending ++ [d]], by simp, ?_⟩
        have hbatch : eventsOf key k (pending ++ [d]) =
            eventsOf key k pending ++ [d] := by
          rw [eventsOf_append, eventsOf_singleton_of_eq hkey]
        rw [batchesAt_snoc, batchAt_of_eventsOf_eq_snoc hbatch, hstate]
      · have hnone := eventsOf_singleton_of_ne hkey
        rw [hnone, List.append_nil] at hevents
        obtain ⟨batches, rfl, hstate⟩ := ih hevents
        refine ⟨batches ++ [[d]], by simp, ?_⟩
        rw [batchesAt_snoc, batchAt_of_eventsOf_eq_nil hnone, hstate]

/-- All cuts of a sequence leave a key in the same state exactly if its
events are settled. -/
theorem batchesAt_eq_iff_settled (events : List ε) :
    (∀ batches, batches.flatten = events →
        batchesAt key act k s batches =
          batchesAt key act k s (events.map fun e => [e])) ↔
      Settled act s (eventsOf key k events) := by
  constructor
  · intro hall e he x hx
    obtain ⟨front, hevents⟩ := List.getLast?_eq_some_iff.mp he
    rw [hevents, List.dropLast_concat] at hx
    obtain ⟨first, hfirst, hx'⟩ := exists_cut_of_last hevents hx
    obtain ⟨second, hsecond, hs'⟩ :=
      exists_cut_of_last hevents (self_mem_reachable act s front)
    rw [← hx', hall first hfirst, ← hall second hsecond, hs']
  · intro hsettled batches hbatches
    have hcut : ∀ batches : List (List ε), batches.flatten = events →
        batchesAt key act k s batches =
          match (eventsOf key k events).getLast? with
          | none => s
          | some e => act e s := by
      intro batches hflat
      rcases batchesAt_reachable key act k s batches with
        ⟨hnone, hstate⟩ | ⟨front, e, hevents, x, hx, hstate⟩
      · rw [← hflat, hnone, hstate]
        rfl
      · rw [hflat] at hevents
        have hlast : (eventsOf key k events).getLast? = some e := by
          simp [hevents]
        have hx' : x ∈ reachable act s (eventsOf key k events).dropLast := by
          rwa [hevents, List.dropLast_concat]
        rw [hstate, hlast]
        exact hsettled e hlast x hx'
    have hsingle : (events.map fun e => [e]).flatten = events := by
      rw [← List.flatMap_def, List.flatMap_singleton']
    rw [hcut batches hbatches, hcut _ hsingle]

end Cuts

end KeyedBatches
