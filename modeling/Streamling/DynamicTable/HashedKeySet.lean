import Mathlib
import Streamling.DynamicTable.KeySet
import Streamling.Support.HashIndex

/-!
# The key set with its hashes

The buffer of keys, the hashes beside it and the table of indices.  A probe
hashes the needles and compares strings; an extension probes first, appends
the keys that are not held and enters them in the table.  The table files its
indices anew from the hashes beside the keys when it grows.

The hashes of an array are a parameter: those of the strings in it, and
anything at its nulls.
-/

namespace Streamling

namespace DynamicTable

open HashIndex

/-- Reading outside an array is a panic of the source. -/
inductive KeySetError where
  | tooManyKeys (index : ℕ)
  | panicked
  deriving DecidableEq, Repr

structure HashedKeySet where
  keys : List (Option String)
  hashes : List UInt64
  table : HashTable ℕ
  deriving DecidableEq

variable (layout : Layout) (withHashes : List (Option String) → List UInt64)

/-- The comparison of a stored key with a needle; a null slot has no bytes. -/
def keyMatches (keys : List (Option String)) (needle : String) (i : ℕ) :
    Option Bool :=
  (keys[i]?).map fun slot => slot.getD "" == needle

/-- Enter the indices of a range one after the other. -/
def insertRange (keys : List (Option String)) (hashes : List UInt64) :
    HashTable ℕ → List ℕ → HashTable ℕ × Option KeySetError
  | table, [] => (table, none)
  | table, i :: range =>
      match keys[i]? with
      | none => (table, some .panicked)
      | some none => insertRange keys hashes table range
      | some (some key) =>
          match hashes[i]? with
          | none => (table, some .panicked)
          | some hash =>
              if maxIndex < i then (table, some (.tooManyKeys i))
              else
                match table.find layout hash (keyMatches keys key) with
                | none => (table, some .panicked)
                | some true => insertRange keys hashes table range
                | some false =>
                    match table.insertUnique layout hash i
                      (fun j => hashes[j]?) with
                    | none => (table, some .panicked)
                    | some grown => insertRange keys hashes grown range

namespace HashedKeySet

/-- The answers to the needles; null for a null. -/
def probe (set : HashedKeySet) (needles : List (Option String)) :
    Option (List (Option Bool)) :=
  (needles.zip (withHashes needles)).mapM fun (needle, hash) =>
    match needle with
    | none => some none
    | some key => do
        let found ← set.table.find layout hash (keyMatches set.keys key)
        return some found

def containsArray (set : HashedKeySet) (needles : List (Option String)) :
    Option (List (Option Bool)) :=
  set.probe layout withHashes needles

def len (set : HashedKeySet) : ℕ :=
  set.table.entries.length

def hashAndInsertRange (set : HashedKeySet) (start : ℕ) :
    HashedKeySet × Option KeySetError :=
  let stop := set.keys.length
  if start = stop then (set, none)
  else
    let newHashes := withHashes (set.keys.drop start)
    if newHashes.length ≠ stop - start then (set, some .panicked)
    else
      let hashes := set.hashes.take start ++ newHashes
      let inserted := insertRange layout set.keys hashes set.table
        (List.range' start (stop - start))
      (⟨set.keys, hashes, inserted.1⟩, inserted.2)

def fromKeys (keys : List (Option String)) :
    Except KeySetError HashedKeySet :=
  let set : HashedKeySet := ⟨keys, List.replicate keys.length 0, ⟨[]⟩⟩
  match set.hashAndInsertRange layout withHashes 0 with
  | (set, none) => .ok set
  | (_, some e) => .error e

/-- Only the keys that a probe does not find are appended. -/
def extendFrom (set : HashedKeySet) (extra : List (Option String)) :
    HashedKeySet × Option KeySetError :=
  if extra.isEmpty then (set, none)
  else
    match set.probe layout withHashes extra with
    | none => (set, some .panicked)
    | some present =>
        if ¬ present.any (· = some false) then (set, none)
        else
          let misses := ((extra.zip present).filter
            fun (_, answer) => answer = some false).map Prod.fst
          let start := set.keys.length
          let keys := set.keys ++ misses
          let hashes := set.hashes.take keys.length ++
            List.replicate (keys.length - set.hashes.length) 0
          (⟨keys, hashes, set.table⟩ : HashedKeySet).hashAndInsertRange layout
            withHashes start

/-- A sequence of extensions, and whether all of them succeeded. -/
def extendAll :
    HashedKeySet → List (List (Option String)) → HashedKeySet × Bool
  | set, [] => (set, true)
  | set, extra :: extras =>
      let extended := set.extendFrom layout withHashes extra
      let rest := extendAll extended.1 extras
      (rest.1, extended.2.isNone && rest.2)

end HashedKeySet

end DynamicTable

end Streamling
