/-! Maps that remember the order in which their keys came. A key that comes
again gets the new value and keeps its place. -/
namespace Debugger

abbrev OrderedMap (α : Type) := List (String × α)

namespace OrderedMap
variable {α : Type}

def insert (key : String) (value : α) : OrderedMap α → OrderedMap α
  | [] => [(key, value)]
  | (k, v) :: rest => if k = key then (k, value) :: rest else (k, v) :: insert key value rest

def ofList (entries : List (String × α)) : OrderedMap α :=
  entries.foldl (fun map entry => insert entry.1 entry.2 map) []

def get? (map : OrderedMap α) (key : String) : Option α :=
  (map.find? (·.1 = key)).map (·.2)

theorem get?_of_mem {map : OrderedMap α} {entry : String × α}
    (distinct : (map.map (·.1)).Nodup) (member : entry ∈ map) :
    map.get? entry.1 = some entry.2 := by
  induction map with
  | nil => exact absurd member List.not_mem_nil
  | cons first rest ih =>
      obtain ⟨new, distinct⟩ := List.nodup_cons.mp distinct
      obtain rfl | later := List.mem_cons.mp member
      · simp [get?]
      · have other : first.1 ≠ entry.1 := fun same =>
          new (List.mem_map.mpr ⟨entry, later, same.symm⟩)
        rw [get?, List.find?_cons_of_neg (by simpa using other)]
        exact ih distinct later

end OrderedMap
end Debugger
