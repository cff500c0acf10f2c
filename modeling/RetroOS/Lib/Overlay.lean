import Mathlib.Tactic

/-!
# Overlays

A layer gives values at some points and none at the others.  Laid over a
function one after the other, the last layer that has a value at a point
decides it, and the function does where none has.
-/

namespace RetroOS.Lib

variable {ω α β : Type} (value : ω → α → Option β)

/-- A function with the values of a layer over it. -/
def overlay (base : α → β) (layer : ω) : α → β := fun point => (value layer point).getD (base point)

/-- The value of the last layer that has one. -/
def topmost (layers : List ω) (point : α) : Option β :=
  layers.reverse.findSome? fun layer => value layer point

variable {value} {layers : List ω} {point : α}

@[simp]
theorem topmost_nil : topmost value [] point = none := rfl

@[simp]
theorem topmost_cons (layer : ω) (rest : List ω) :
    topmost value (layer :: rest) point = (topmost value rest point).or (value layer point) := by
  simp [topmost, List.findSome?_append]

/-- The topmost layer decides. -/
theorem foldl_overlay (layers : List ω) (base : α → β) (point : α) :
    layers.foldl (overlay value) base point = (topmost value layers point).getD (base point) := by
  induction layers generalizing base with
  | nil => rfl
  | cons layer rest induction =>
    rw [List.foldl_cons, induction, topmost_cons]
    cases topmost value rest point <;> simp [overlay]

theorem topmost_isSome :
    (topmost value layers point).isSome ↔ ∃ layer ∈ layers, (value layer point).isSome := by
  simp [topmost, List.findSome?_isSome_iff]

/-- The value on top when all layers that have one have the same. -/
theorem topmost_eq_some {layer : ω} {found : β} (member : layer ∈ layers)
    (here : value layer point = some found)
    (only : ∀ other ∈ layers, (value other point).isSome → value other point = some found) :
    topmost value layers point = some found := by
  have present : (topmost value layers point).isSome :=
    topmost_isSome.mpr ⟨layer, member, by rw [here]; rfl⟩
  obtain ⟨top, known⟩ := Option.isSome_iff_exists.mp present
  obtain ⟨other, listed, there⟩ := List.exists_of_findSome?_eq_some known
  have same := only other (List.mem_reverse.mp listed) (by rw [there]; rfl)
  rw [known, ← there, same]

theorem topmost_eq_none (absent : ∀ layer ∈ layers, value layer point = none) :
    topmost value layers point = none := by
  simpa [topmost] using absent

theorem topmost_append (lower upper : List ω) (point : α) :
    topmost value (lower ++ upper) point =
      (topmost value upper point).or (topmost value lower point) := by
  simp [topmost, List.findSome?_append]

/-- Layers made of layers. -/
theorem topmost_flatMap {ι : Type} (parts : ι → List ω) (items : List ι) (point : α) :
    topmost value (items.flatMap parts) point =
      topmost (fun item => topmost value (parts item)) items point := by
  induction items with
  | nil => rfl
  | cons item rest induction => rw [List.flatMap_cons, topmost_append, induction, topmost_cons]

/-- Layers that agree at a point have the same value on top. -/
theorem topmost_congr {other : ω → α → Option β}
    (agree : ∀ layer ∈ layers, value layer point = other layer point) :
    topmost value layers point = topmost other layers point := by
  induction layers with
  | nil => rfl
  | cons layer rest induction =>
    rw [topmost_cons, topmost_cons, agree layer List.mem_cons_self,
      induction fun later member => agree later (List.mem_cons_of_mem _ member)]

end RetroOS.Lib
