import Mathlib.Data.List.Basic
import Mathlib.Data.List.Nodup
import Mathlib.Tactic.Ring

/-! JSON values, with integers as their only numbers, and the readers of a derived
deserialization: primitive values, and the members of a struct. -/

inductive Json where
  | null
  | bool (value : Bool)
  | number (value : Int)
  | string (text : String)
  | array (items : List Json)
  | object (fields : List (String × Json))

namespace Json

inductive Error where
  | invalidType (expected : String)
  | invalidLength (length : Nat)
  | outOfRange (value : Int)
  | missingField (name : String)
  | duplicateField (name : String)
  | custom (message : String)
  deriving DecidableEq, Repr

def readString : Json → Except Error String
  | .string text => .ok text
  | _ => .error (.invalidType "a string")

def readUnsigned (bits : Nat) : Json → Except Error Nat
  | .number value => if 0 ≤ value ∧ value < 2 ^ bits then .ok value.toNat else .error (.outOfRange value)
  | _ => .error (.invalidType "an unsigned integer")

def field (fields : List (String × Json)) (name : String) : Except Error Json :=
  match fields.filter fun entry => entry.1 = name with
  | [] => .error (.missingField name)
  | [(_, value)] => .ok value
  | _ => .error (.duplicateField name)

/-- The members of a struct in the order of its declaration: by name from an object,
whose other fields are ignored, or by position from an array. -/
def members (names : List String) : Json → Except Error (List Json)
  | .object fields => names.mapM (field fields)
  | .array items => if items.length = names.length then .ok items else .error (.invalidLength items.length)
  | _ => .error (.invalidType "a struct")

theorem readUnsigned_fits {bits value : Nat} (fits : value < 2 ^ bits) :
    readUnsigned bits (.number value) = .ok value := by
  have range : (0 : Int) ≤ value ∧ (value : Int) < 2 ^ bits := ⟨Int.natCast_nonneg _, by exact_mod_cast fits⟩
  rw [readUnsigned, if_pos range, Int.toNat_natCast]

theorem field_found {fields : List (String × Json)} {name : String} {value : Json}
    (distinct : (fields.map Prod.fst).Nodup) (member : (name, value) ∈ fields) : field fields name = .ok value := by
  have only : (fields.filter fun entry => entry.1 = name) = [(name, value)] := by
    induction fields with
    | nil => cases member
    | cons first rest ih =>
      obtain ⟨fresh, later⟩ := List.nodup_cons.mp distinct
      rcases List.mem_cons.mp member with rfl | below
      · have none : (rest.filter fun entry => entry.1 = name) = [] := by
          refine List.filter_eq_nil_iff.mpr fun entry inside same => fresh ?_
          exact List.mem_map.mpr ⟨entry, inside, of_decide_eq_true same⟩
        rw [List.filter_cons_of_pos (by simp), none]
      · have other : first.1 ≠ name := fun same => fresh (same ▸ List.mem_map_of_mem below)
        rw [List.filter_cons_of_neg (by simpa using other), ih later below]
  rw [field, only]

theorem members_object {fields : List (String × Json)} (distinct : (fields.map Prod.fst).Nodup) :
    members (fields.map Prod.fst) (.object fields) = .ok (fields.map Prod.snd) := by
  have each : ∀ part : List (String × Json), (∀ entry ∈ part, entry ∈ fields) →
      (part.map Prod.fst).mapM (field fields) = .ok (part.map Prod.snd) := by
    intro part inside
    induction part with
    | nil => rfl
    | cons first rest ih =>
      have found := field_found distinct (inside first List.mem_cons_self)
      rw [List.map_cons, List.mapM_cons, found, ih fun entry below => inside entry (List.mem_cons_of_mem _ below)]
      rfl
  exact each fields fun entry inside => inside

end Json
