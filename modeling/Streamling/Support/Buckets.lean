import Mathlib
import Streamling.Support.KeyedBatches

/-!
# Buckets of winners

Events are filed in buckets by the hash of their key.  A bucket holds one
event for each key, the winner so far, and a new event of the key replaces it
or not.  Different keys may share a hash: then they share a bucket, where the
keys themselves are compared.  What is filed under a key depends only on the
events of the key, whatever the hash.

If the new event wins exactly when it ranks at least as high, the winner is
the last event of the highest rank.
-/

namespace Buckets

open KeyedBatches

variable {ε κ η : Type*} [DecidableEq κ] [DecidableEq η]

section

variable (key : ε → κ) (hash : κ → η) (wins : ε → ε → Bool)

/-- The winner after `e` has met the winner so far. -/
def challenge (x e : ε) : ε :=
  if wins x e then e else x

/-- File `e` in a bucket. -/
def touch (e : ε) : List ε → List ε
  | [] => [e]
  | x :: bucket =>
      if key x = key e then challenge wins x e :: bucket
      else x :: touch e bucket

/-- File `e` in the bucket of its hash. -/
def insert (e : ε) : List (η × List ε) → List (η × List ε)
  | [] => [(hash (key e), touch key wins e [])]
  | (h, bucket) :: buckets =>
      if h = hash (key e) then (h, touch key wins e bucket) :: buckets
      else (h, bucket) :: insert e buckets

/-- File the events one after the other. -/
def fill (events : List ε) : List (η × List ε) :=
  events.foldl (fun buckets e => insert key hash wins e buckets) []

/-- The event filed under `k`. -/
def find? (k : κ) (buckets : List (η × List ε)) : Option ε :=
  (buckets.find? fun p => p.1 = hash k).bind fun p =>
    p.2.find? fun x => key x = k

/-- The outcome when `e` meets the winner so far, if there is one. -/
def meet (best : Option ε) (e : ε) : Option ε :=
  some (best.elim e fun x => challenge wins x e)

/-- The winner among the events of `k`. -/
def winner (k : κ) (events : List ε) : Option ε :=
  (eventsOf key k events).foldl (meet wins) none

/-- Every bucket is filed once, holds only keys of its hash, and each of them
once. -/
structure Filed (buckets : List (η × List ε)) : Prop where
  hashes : (buckets.map Prod.fst).Nodup
  hash_eq : ∀ p ∈ buckets, ∀ x ∈ p.2, hash (key x) = p.1
  keys : ∀ p ∈ buckets, (p.2.map key).Nodup

end

variable {key : ε → κ} {hash : κ → η} {wins : ε → ε → Bool}
variable {x e : ε} {k : κ} {bucket : List ε} {buckets : List (η × List ε)}
variable {events : List ε}

/-! ## Lookup -/

omit [DecidableEq κ] in
theorem key_challenge
    (h : key x = key e) : key (challenge wins x e) = key e := by
  unfold challenge
  split_ifs
  · rfl
  · exact h

theorem find?_touch :
    (touch key wins e bucket).find? (fun x => key x = k) =
      if key e = k then meet wins (bucket.find? fun x => key x = k) e
      else bucket.find? fun x => key x = k := by
  induction bucket with
  | nil => by_cases hk : key e = k <;> simp [touch, meet, hk]
  | cons x bucket ih =>
      unfold touch
      by_cases hx : key x = key e
      · rw [if_pos hx]
        have hkey : key (challenge wins x e) = key e := key_challenge hx
        by_cases hk : key e = k
        · simp [hkey, hx, hk, meet]
        · simp [hkey, hx, hk]
      · rw [if_neg hx, List.find?_cons, ih, List.find?_cons]
        by_cases hk : key x = k
        · have hne : key e ≠ k := fun heq => hx (hk.trans heq.symm)
          simp [hk, hne]
        · simp [hk]

theorem find?_insert :
    find? key hash k (insert key hash wins e buckets) =
      if key e = k then meet wins (find? key hash k buckets) e
      else find? key hash k buckets := by
  induction buckets with
  | nil => by_cases hk : key e = k <;> simp [insert, find?, touch, meet, hk]
  | cons p buckets ih =>
      obtain ⟨h, bucket⟩ := p
      unfold insert
      by_cases hh : h = hash (key e)
      · subst hh
        rw [if_pos rfl]
        by_cases hk : hash (key e) = hash k
        · simp [find?, hk, find?_touch]
        · have hne : key e ≠ k := fun heq => hk (congrArg hash heq)
          simp [find?, hk, hne]
      · rw [if_neg hh]
        by_cases hk : h = hash k
        · have hne : key e ≠ k := fun heq => hh (by rw [hk, heq])
          simp [find?, hk, hne]
        · simpa [find?, hk] using ih

/-- What is filed under a key is the winner among the events of the key. -/
theorem find?_fill (k : κ) (events : List ε) :
    find? key hash k (fill key hash wins events) =
      winner key wins k events := by
  induction events using List.reverseRecOn with
  | nil => rfl
  | append_singleton events e ih =>
      have hstep : fill key hash wins (events ++ [e]) =
          insert key hash wins e (fill key hash wins events) := by
        simp [fill, List.foldl_append]
      have hwinner : winner key wins k (events ++ [e]) =
          (eventsOf key k [e]).foldl (meet wins)
            (winner key wins k events) := by
        simp only [winner, eventsOf_append, List.foldl_append]
      rw [hstep, find?_insert, ih, hwinner]
      by_cases hk : key e = k
      · rw [if_pos hk, eventsOf_singleton_of_eq hk]
        rfl
      · rw [if_neg hk, eventsOf_singleton_of_ne hk]
        rfl

/-! ## Every key is filed once -/

theorem mem_touch
    (h : x ∈ touch key wins e bucket) : x = e ∨ x ∈ bucket := by
  induction bucket with
  | nil => exact .inl (List.mem_singleton.mp h)
  | cons y bucket ih =>
      unfold touch at h
      split_ifs at h
      · rcases List.mem_cons.mp h with rfl | h
        · unfold challenge
          split_ifs
          · exact .inl rfl
          · exact .inr List.mem_cons_self
        · exact .inr (List.mem_cons_of_mem _ h)
      · rcases List.mem_cons.mp h with rfl | h
        · exact .inr List.mem_cons_self
        · exact (ih h).imp_right (List.mem_cons_of_mem _)

theorem nodup_touch
    (h : (bucket.map key).Nodup) :
    ((touch key wins e bucket).map key).Nodup := by
  induction bucket with
  | nil => exact List.nodup_singleton _
  | cons y bucket ih =>
      obtain ⟨hfirst, hrest⟩ := List.nodup_cons.mp h
      unfold touch
      split_ifs with hy
      · rw [List.map_cons, key_challenge hy, ← hy]
        exact h
      · refine List.nodup_cons.mpr ⟨fun hmem => ?_, ih hrest⟩
        obtain ⟨x, hx, hkey⟩ := List.mem_map.mp hmem
        rcases mem_touch hx with rfl | hx
        · exact hy hkey.symm
        · exact hfirst (List.mem_map.mpr ⟨x, hx, hkey⟩)

theorem hash_mem_insert {h : η}
    (hmem : h ∈ (insert key hash wins e buckets).map Prod.fst) :
    h = hash (key e) ∨ h ∈ buckets.map Prod.fst := by
  induction buckets with
  | nil => exact .inl (by simpa [insert] using hmem)
  | cons p buckets ih =>
      obtain ⟨h', bucket⟩ := p
      unfold insert at hmem
      split_ifs at hmem
      · exact .inr hmem
      · rcases List.mem_cons.mp hmem with rfl | hmem
        · exact .inr List.mem_cons_self
        · exact (ih hmem).imp_right (List.mem_cons_of_mem _)

/-- Filing an event changes at most the bucket of its hash. -/
theorem mem_insert {p : η × List ε}
    (h : p ∈ insert key hash wins e buckets) :
    p ∈ buckets ∨ p = (hash (key e), [e]) ∨
      ∃ bucket, (hash (key e), bucket) ∈ buckets ∧
        p = (hash (key e), touch key wins e bucket) := by
  induction buckets with
  | nil => exact .inr (.inl (List.mem_singleton.mp h))
  | cons q buckets ih =>
      obtain ⟨h', bucket⟩ := q
      unfold insert at h
      split_ifs at h with hh
      · subst hh
        rcases List.mem_cons.mp h with rfl | h
        · exact .inr (.inr ⟨bucket, List.mem_cons_self, rfl⟩)
        · exact .inl (List.mem_cons_of_mem _ h)
      · rcases List.mem_cons.mp h with rfl | h
        · exact .inl List.mem_cons_self
        · rcases ih h with h | h | ⟨bucket', hmem, rfl⟩
          · exact .inl (List.mem_cons_of_mem _ h)
          · exact .inr (.inl h)
          · exact .inr (.inr ⟨bucket', List.mem_cons_of_mem _ hmem, rfl⟩)

theorem nodup_hashes_insert
    (h : (buckets.map Prod.fst).Nodup) :
    ((insert key hash wins e buckets).map Prod.fst).Nodup := by
  induction buckets with
  | nil => exact List.nodup_singleton _
  | cons p buckets ih =>
      obtain ⟨h', bucket⟩ := p
      obtain ⟨hfirst, hrest⟩ := List.nodup_cons.mp h
      unfold insert
      split_ifs with hh
      · exact h
      · refine List.nodup_cons.mpr ⟨fun hmem => ?_, ih hrest⟩
        rcases hash_mem_insert hmem with heq | hmem
        · exact hh heq
        · exact hfirst hmem

theorem Filed.insert
    (h : Filed key hash buckets) (wins : ε → ε → Bool) (e : ε) :
    Filed key hash (insert key hash wins e buckets) where
  hashes := nodup_hashes_insert h.hashes
  hash_eq := by
    intro p hp x hx
    rcases mem_insert hp with hp | rfl | ⟨bucket, hmem, rfl⟩
    · exact h.hash_eq p hp x hx
    · rw [List.mem_singleton.mp hx]
    · rcases mem_touch hx with rfl | hx
      · rfl
      · exact h.hash_eq _ hmem x hx
  keys := by
    intro p hp
    rcases mem_insert hp with hp | rfl | ⟨bucket, hmem, rfl⟩
    · exact h.keys p hp
    · exact List.nodup_singleton _
    · exact nodup_touch (h.keys _ hmem)

theorem filed_fill (events : List ε) :
    Filed key hash (fill key hash wins events) := by
  induction events using List.reverseRecOn with
  | nil => exact ⟨List.nodup_nil, by simp [fill], by simp [fill]⟩
  | append_singleton events e ih =>
      have hstep : fill key hash wins (events ++ [e]) =
          Buckets.insert key hash wins e (fill key hash wins events) := by
        simp [fill, List.foldl_append]
      rw [hstep]
      exact ih.insert wins e

omit [DecidableEq κ] [DecidableEq η] in
theorem Filed.tail {p : η × List ε}
    (h : Filed key hash (p :: buckets)) : Filed key hash buckets where
  hashes := (List.nodup_cons.mp h.hashes).2
  hash_eq := fun q hq => h.hash_eq q (List.mem_cons_of_mem _ hq)
  keys := fun q hq => h.keys q (List.mem_cons_of_mem _ hq)

theorem find?_eq_some_iff_of_nodup
    (h : (bucket.map key).Nodup) :
    bucket.find? (fun y => key y = k) = some x ↔ x ∈ bucket ∧ key x = k := by
  induction bucket with
  | nil => simp
  | cons y bucket ih =>
      obtain ⟨hfirst, hrest⟩ := List.nodup_cons.mp h
      rw [List.find?_cons]
      by_cases hy : key y = k
      · simp only [hy, decide_true, Option.some.injEq, List.mem_cons]
        constructor
        · rintro rfl
          exact ⟨.inl rfl, hy⟩
        · rintro ⟨rfl | hx, hkey⟩
          · rfl
          · exact absurd (List.mem_map.mpr ⟨x, hx, hkey.trans hy.symm⟩) hfirst
      · simp only [hy, decide_false, ih hrest, List.mem_cons]
        constructor
        · rintro ⟨hx, hkey⟩
          exact ⟨.inr hx, hkey⟩
        · rintro ⟨rfl | hx, hkey⟩
          · exact absurd hkey hy
          · exact ⟨hx, hkey⟩

/-- The events in the buckets are those found under their keys. -/
theorem Filed.mem_flatMap_iff
    (h : Filed key hash buckets) :
    x ∈ buckets.flatMap Prod.snd ↔
      find? key hash (key x) buckets = some x := by
  induction buckets with
  | nil => simp [find?]
  | cons p buckets ih =>
      have hp := h.hash_eq p List.mem_cons_self
      have hothers : p.1 ∉ buckets.map Prod.fst :=
        (List.nodup_cons.mp h.hashes).1
      rw [List.flatMap_cons, List.mem_append]
      by_cases hhash : p.1 = hash (key x)
      · have hrest : x ∉ buckets.flatMap Prod.snd := by
          intro hx
          obtain ⟨q, hq, hxq⟩ := List.mem_flatMap.mp hx
          have heq : q.1 = p.1 :=
            (h.tail.hash_eq q hq x hxq).symm.trans hhash.symm
          exact hothers (List.mem_map.mpr ⟨q, hq, heq⟩)
        simp [find?, hhash, hrest,
          find?_eq_some_iff_of_nodup (h.keys p List.mem_cons_self)]
      · have hnot : x ∉ p.2 := fun hx => hhash (hp x hx).symm
        rw [or_iff_right hnot, ih h.tail]
        simp [find?, hhash]

omit [DecidableEq κ] [DecidableEq η] in
theorem Filed.nodup_flatMap
    (h : Filed key hash buckets) :
    (buckets.flatMap Prod.snd).Nodup := by
  induction buckets with
  | nil => exact List.nodup_nil
  | cons p buckets ih =>
      rw [List.flatMap_cons]
      refine List.Nodup.append ?_ (ih h.tail) ?_
      · exact List.Nodup.of_map _ (h.keys p List.mem_cons_self)
      · intro x hx hrest
        obtain ⟨q, hq, hxq⟩ := List.mem_flatMap.mp hrest
        have heq : q.1 = p.1 := (h.tail.hash_eq q hq x hxq).symm.trans
          (h.hash_eq p List.mem_cons_self x hx)
        exact (List.nodup_cons.mp h.hashes).1 (List.mem_map.mpr ⟨q, hq, heq⟩)

/-- The buckets hold exactly the winners of the keys. -/
theorem mem_fill_iff :
    x ∈ (fill key hash wins events).flatMap Prod.snd ↔
      winner key wins (key x) events = some x := by
  rw [(filed_fill events).mem_flatMap_iff, find?_fill]

theorem nodup_fill (events : List ε) :
    ((fill key hash wins events).flatMap Prod.snd).Nodup :=
  (filed_fill events).nodup_flatMap

/-! ## Winners by rank -/

section Ranks

variable {ρ : Type*} [LinearOrder ρ] {rank : ε → ρ} {position : ε → ℕ}

/-- `x` ranks higher than `y`, or as high and not before it. -/
def Outranks (rank : ε → ρ) (position : ε → ℕ) (x y : ε) : Prop :=
  rank y < rank x ∨ rank y = rank x ∧ position y ≤ position x

theorem Outranks.refl : Outranks rank position x x :=
  .inr ⟨rfl, le_rfl⟩

theorem winner_spec
    (key : ε → κ) (k : κ)
    (hwins : ∀ x e, wins x e = true ↔ rank x ≤ rank e)
    (hpos : events.Pairwise fun x y => position x < position y) :
    (winner key wins k events = none ∧ eventsOf key k events = []) ∨
      ∃ x ∈ eventsOf key k events, winner key wins k events = some x ∧
        ∀ y ∈ eventsOf key k events, Outranks rank position x y := by
  have hsorted : (eventsOf key k events).Pairwise
      fun x y => position x < position y := hpos.filter _
  unfold winner
  generalize eventsOf key k events = own at hsorted ⊢
  induction own using List.reverseRecOn with
  | nil => exact .inl ⟨rfl, rfl⟩
  | append_singleton front e ih =>
      obtain ⟨hfront, -, hlast⟩ := List.pairwise_append.mp hsorted
      right
      rw [List.foldl_append]
      rcases ih hfront with ⟨hnone, rfl⟩ | ⟨x, hx, hbest, hmax⟩
      · refine ⟨e, by simp, rfl, fun y hy => ?_⟩
        rw [List.nil_append, List.mem_singleton] at hy
        rw [hy]
        exact Outranks.refl
      · have hbefore : position x < position e := hlast x hx e (by simp)
        rw [hbest]
        by_cases hrank : rank x ≤ rank e
        · refine ⟨e, by simp, ?_, fun y hy => ?_⟩
          · simp [meet, challenge, (hwins x e).mpr hrank]
          · rcases List.mem_append.mp hy with hy | hy
            · have hyfront := hlast y hy e (by simp)
              rcases hmax y hy with hlt | ⟨heq, -⟩
              · exact .inl (lt_of_lt_of_le hlt hrank)
              · rcases lt_or_eq_of_le hrank with hlt | heq'
                · exact .inl (heq.trans_lt hlt)
                · exact .inr ⟨heq.trans heq', hyfront.le⟩
            · rw [List.mem_singleton.mp hy]
              exact Outranks.refl
        · have hkeep : wins x e = false :=
            Bool.eq_false_iff.mpr fun h => hrank ((hwins x e).mp h)
          refine ⟨x, List.mem_append_left _ hx, ?_, fun y hy => ?_⟩
          · simp [meet, challenge, hkeep]
          · rcases List.mem_append.mp hy with hy | hy
            · exact hmax y hy
            · rw [List.mem_singleton.mp hy]
              exact .inl (lt_of_not_ge hrank)

theorem Outranks.eq_of_position_eq {y : ε}
    (hxy : Outranks rank position x y) (hyx : Outranks rank position y x) :
    position x = position y := by
  rcases hxy with hlt | ⟨heq, hle⟩
  · rcases hyx with hlt' | ⟨heq', -⟩
    · exact absurd hlt (lt_asymm hlt')
    · exact absurd heq' hlt.ne'
  · rcases hyx with hlt' | ⟨-, hle'⟩
    · exact absurd heq hlt'.ne'
    · exact le_antisymm hle' hle

/-- If the new event wins exactly when it ranks at least as high, the winner
is the last event of the highest rank. -/
theorem winner_eq_some_iff
    (hwins : ∀ x e, wins x e = true ↔ rank x ≤ rank e)
    (hpos : events.Pairwise fun x y => position x < position y) :
    winner key wins k events = some x ↔
      x ∈ events ∧ key x = k ∧
        ∀ y ∈ events, key y = k → Outranks rank position x y := by
  have hmem : ∀ y, y ∈ eventsOf key k events ↔ y ∈ events ∧ key y = k := by
    simp [eventsOf]
  have hinj : ∀ y ∈ events, ∀ z ∈ events,
      position y = position z → y = z := by
    intro y hy z hz heq
    by_contra hne
    rcases List.pairwise_iff_getElem.mp hpos with hpos
    obtain ⟨i, hi, rfl⟩ := List.getElem_of_mem hy
    obtain ⟨j, hj, rfl⟩ := List.getElem_of_mem hz
    rcases lt_trichotomy i j with hlt | rfl | hgt
    · exact absurd heq (hpos i j hi hj hlt).ne
    · exact hne rfl
    · exact absurd heq (hpos j i hj hi hgt).ne'
  rcases winner_spec key k hwins hpos with
    ⟨hnone, hempty⟩ | ⟨w, hw, hsome, hmax⟩
  · rw [hnone]
    refine iff_of_false (by simp) ?_
    rintro ⟨hx, hkey, -⟩
    have hx' := (hmem x).mpr ⟨hx, hkey⟩
    rw [hempty] at hx'
    exact List.not_mem_nil hx'
  · rw [hsome, Option.some.injEq]
    constructor
    · rintro rfl
      obtain ⟨hw, hkey⟩ := (hmem w).mp hw
      exact ⟨hw, hkey, fun y hy hyk => hmax y ((hmem y).mpr ⟨hy, hyk⟩)⟩
    · rintro ⟨hx, hkey, hbest⟩
      obtain ⟨hw', hwkey⟩ := (hmem w).mp hw
      have hwx := hmax x ((hmem x).mpr ⟨hx, hkey⟩)
      exact hinj w hw' x hx (hwx.eq_of_position_eq (hbest w hw' hwkey))

end Ranks

end Buckets
