/-!
# Entries by name

A list of named entries in the order in which the names were first used. Setting an entry changes what its name is found
under and nothing else (`get?_put`).
-/

namespace Systolic

abbrev Keyed (α : Type) := List (String × α)

namespace Keyed

variable {α : Type}

/-- The first entry of that name. -/
def get? (name : String) : Keyed α → Option α
  | [] => none
  | e :: rest => if e.1 = name then some e.2 else get? name rest

/-- Change the entry of that name, or add one at the end. -/
def put (name : String) (a : α) : Keyed α → Keyed α
  | [] => [(name, a)]
  | e :: rest => if e.1 = name then (name, a) :: rest else e :: put name a rest

theorem get?_put (name other : String) (a : α) (entries : Keyed α) :
    get? other (put name a entries) = if name = other then some a else get? other entries := by
  induction entries with
  | nil => simp [put, get?]
  | cons e rest ih =>
    by_cases he : e.1 = name
    · by_cases h : name = other <;> simp [put, get?, he, h]
    · by_cases h : name = other
      · subst h; simp [put, get?, he, ih]
      · simp [put, get?, he, ih, h]

end Keyed

end Systolic
