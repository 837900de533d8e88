import ExprLang.Json

/-! The objects in a structured value.

    A value is walked from the top: an object comes in front of the objects that its fields hold, and
    these come in the order of the fields, each with all that lies below it. The walk counts the
    objects and keeps in mind how deep an object lies, which object holds it and under what name. -/

namespace ExprLang.Json

/-- An object on its turn in a walk: its number, how deep it lies, the number of the object that
    holds it with the name of the field, and its own fields. -/
structure Entry where
  index : Nat
  depth : Nat
  holder : Option (Nat × String)
  fields : List (String × Json)

mutual

/-- The objects of a value, counted on from `index`. -/
def entries (index depth : Nat) (holder : Option (Nat × String)) : Json → List Entry
  | null | integer _ | text _ => []
  | object fields => ⟨index, depth, holder, fields⟩ :: fieldEntries (index + 1) (depth + 1) index fields

/-- The objects in some fields of the object numbered `holder`, counted on from `index`. -/
def fieldEntries (index depth holder : Nat) : List (String × Json) → List Entry
  | [] => []
  | (key, value) :: rest =>
    entries index depth (some (holder, key)) value ++
      fieldEntries (index + (entries index depth (some (holder, key)) value).length) depth holder rest

end

/-- The objects of a value, each in front of those that it holds. -/
def objects (value : Json) : List Entry := entries 0 0 none value

/-- A value that is an object. -/
def isObject : Json → Bool
  | object _ => true
  | _ => false

/-- A value that is no object as plain text. -/
def plain? : Json → Option String
  | null => some (Value.plain .absent)
  | integer n => some (Value.plain (.number n))
  | text s => some s
  | object _ => none

theorem plain?_ofValue (v : Value) : (ofValue v).plain? = some v.plain := by cases v <;> rfl

@[simp] theorem isObject_text (s : String) : (text s).isObject = false := rfl

@[simp] theorem isObject_integer (n : Int) : (integer n).isObject = false := rfl

@[simp] theorem isObject_object (fields : List (String × Json)) : (object fields).isObject = true :=
  rfl

@[simp] theorem isObject_ofValue (v : Value) : (ofValue v).isObject = false := by cases v <;> rfl

section Fields

variable (index depth holder : Nat)

/-- There are no objects in fields that hold none. -/
theorem fieldEntries_append {own : List (String × Json)} (h : ∀ f ∈ own, f.2.isObject = false)
    (rest : List (String × Json)) : fieldEntries index depth holder (own ++ rest) =
      fieldEntries index depth holder rest := by
  induction own with
  | nil => rfl
  | cons f own ih =>
    obtain ⟨key, value⟩ := f
    obtain ⟨hvalue, hown⟩ := List.forall_mem_cons.mp h
    have hnone : entries index depth (some (holder, key)) value = [] := by
      cases value with
      | object fields => cases hvalue
      | _ => rw [entries]
    rw [List.cons_append, fieldEntries, hnone, List.nil_append, List.length_nil, Nat.add_zero]
    exact ih hown

end Fields
end ExprLang.Json
