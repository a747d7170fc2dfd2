import Mathlib.Order.Lattice
import Mathlib.Data.List.Basic

/-! Finite maps kept as a list of entries in the strict order of their keys. -/

structure SortedMap (κ β : Type) [LT κ] where
  entries : List (κ × β)
  sorted : (entries.map Prod.fst).Pairwise (· < ·)

namespace SortedMap

variable {κ β : Type} [LinearOrder κ]

def empty : SortedMap κ β := ⟨[], .nil⟩

def firstKey? (map : SortedMap κ β) : Option κ := map.entries.head?.map Prod.fst

def lastKey? (map : SortedMap κ β) : Option κ := map.entries.getLast?.map Prod.fst

def upsertIn (key : κ) (write : Option β → β) : List (κ × β) → List (κ × β)
  | [] => [(key, write none)]
  | (other, value) :: rest =>
    if key < other then (key, write none) :: (other, value) :: rest
    else if key = other then (other, write (some value)) :: rest
    else (other, value) :: upsertIn key write rest

theorem upsertIn_key {key : κ} {write : Option β → β} {entries : List (κ × β)} {other : κ}
    (member : other ∈ (upsertIn key write entries).map Prod.fst) : other = key ∨ other ∈ entries.map Prod.fst := by
  induction entries with
  | nil => simpa [upsertIn] using member
  | cons entry rest ih =>
    obtain ⟨first, value⟩ := entry
    simp only [upsertIn] at member
    split at member
    next => simpa using member
    next =>
      split at member
      next => exact .inr (by simpa using member)
      next =>
        rcases List.mem_cons.mp member with rfl | later
        · exact .inr (by simp)
        · rcases ih later with same | inside
          · exact .inl same
          · exact .inr (by simp only [List.map_cons, List.mem_cons]; exact .inr inside)

theorem upsertIn_sorted {key : κ} {write : Option β → β} {entries : List (κ × β)}
    (sorted : (entries.map Prod.fst).Pairwise (· < ·)) :
    ((upsertIn key write entries).map Prod.fst).Pairwise (· < ·) := by
  induction entries with
  | nil => simp [upsertIn]
  | cons entry rest ih =>
    obtain ⟨first, value⟩ := entry
    obtain ⟨below, tail⟩ := List.pairwise_cons.mp sorted
    simp only [upsertIn]
    split
    next before =>
      refine List.pairwise_cons.mpr ⟨fun other member => ?_, sorted⟩
      rcases List.mem_cons.mp member with rfl | later
      · exact before
      · exact before.trans (below other later)
    next notBefore =>
      split
      next => exact sorted
      next different =>
        refine List.pairwise_cons.mpr ⟨fun other member => ?_, ih tail⟩
        rcases upsertIn_key member with rfl | later
        · exact lt_of_le_of_ne (not_lt.mp notBefore) (Ne.symm different)
        · exact below other later

def upsert (map : SortedMap κ β) (key : κ) (write : Option β → β) : SortedMap κ β :=
  ⟨upsertIn key write map.entries, upsertIn_sorted map.sorted⟩

/-- Replace the entries by others under some of the same keys. -/
def narrow (map : SortedMap κ β) (entries : List (κ × β))
    (kept : (entries.map Prod.fst).Sublist (map.entries.map Prod.fst)) : SortedMap κ β :=
  ⟨entries, map.sorted.sublist kept⟩

def mapValues (map : SortedMap κ β) (write : β → β) : SortedMap κ β :=
  map.narrow (map.entries.map fun entry => (entry.1, write entry.2)) (by simp [Function.comp_def])

def retain (map : SortedMap κ β) (keep : β → Bool) : SortedMap κ β :=
  map.narrow (map.entries.filter fun entry => keep entry.2) (List.filter_sublist.map _)

theorem ext_entries {map other : SortedMap κ β} (same : map.entries = other.entries) : map = other := by
  cases map
  cases other
  cases same
  rfl

theorem firstKey?_le {map : SortedMap κ β} {first : κ} (found : map.firstKey? = some first)
    {entry : κ × β} (member : entry ∈ map.entries) : first ≤ entry.1 := by
  obtain ⟨entries, sorted⟩ := map
  cases entries with
  | nil => cases member
  | cons head rest =>
    obtain rfl : head.1 = first := by simpa [firstKey?] using found
    rcases List.mem_cons.mp member with rfl | later
    · exact le_refl _
    · exact ((List.pairwise_cons.mp sorted).1 _ (List.mem_map_of_mem later)).le

theorem firstKey?_mem {map : SortedMap κ β} {first : κ} (found : map.firstKey? = some first) :
    ∃ value, (first, value) ∈ map.entries := by
  obtain ⟨entry, head, rfl⟩ := Option.map_eq_some_iff.mp found
  exact ⟨entry.2, List.mem_of_head? head⟩

theorem le_lastKey? {map : SortedMap κ β} {last : κ} (found : map.lastKey? = some last)
    {entry : κ × β} (member : entry ∈ map.entries) : entry.1 ≤ last := by
  obtain ⟨entries, sorted⟩ := map
  obtain ⟨final, tail, rfl⟩ := Option.map_eq_some_iff.mp found
  obtain ⟨init, rfl⟩ := List.getLast?_eq_some_iff.mp tail
  rw [List.map_append, List.pairwise_append] at sorted
  rcases List.mem_append.mp member with earlier | same
  · exact (sorted.2.2 _ (List.mem_map_of_mem earlier) _ (by simp)).le
  · rw [List.mem_singleton.mp same]

theorem lastKey?_mem {map : SortedMap κ β} {last : κ} (found : map.lastKey? = some last) :
    ∃ value, (last, value) ∈ map.entries := by
  obtain ⟨entry, tail, rfl⟩ := Option.map_eq_some_iff.mp found
  exact ⟨entry.2, List.mem_of_getLast? tail⟩

theorem mem_upsertIn {key : κ} {write : Option β → β} {entries : List (κ × β)} {entry : κ × β}
    (member : entry ∈ upsertIn key write entries) :
    entry = (key, write none) ∨ (∃ value, (key, value) ∈ entries ∧ entry = (key, write (some value))) ∨
      entry ∈ entries := by
  induction entries with
  | nil => exact .inl (by simpa [upsertIn] using member)
  | cons head rest ih =>
    obtain ⟨first, value⟩ := head
    simp only [upsertIn] at member
    split at member
    next =>
      rcases List.mem_cons.mp member with rfl | later
      · exact .inl rfl
      · exact .inr (.inr later)
    next =>
      split at member
      next same =>
        subst same
        rcases List.mem_cons.mp member with rfl | later
        · exact .inr (.inl ⟨value, List.mem_cons_self, rfl⟩)
        · exact .inr (.inr (List.mem_cons_of_mem _ later))
      next =>
        rcases List.mem_cons.mp member with rfl | later
        · exact .inr (.inr List.mem_cons_self)
        · rcases ih later with new | ⟨old, inside, written⟩ | kept
          · exact .inl new
          · exact .inr (.inl ⟨old, List.mem_cons_of_mem _ inside, written⟩)
          · exact .inr (.inr (List.mem_cons_of_mem _ kept))

end SortedMap
