import RetroOS.Lib.Bytes

/-!
# Fields of a record

A record is edited field by field.  `AgreeOutside` says what an edit leaves
alone: every range that no window of the edit touches.
-/

namespace RetroOS.Lib.Bytes

variable {windows : List (Nat × Nat)} {before after bytes : Bytes} {width offset : Nat}

theorem length_putLe (value : Nat) (fits : offset + width ≤ bytes.length) :
    (putLe width bytes offset value).length = bytes.length :=
  length_put (by simpa using fits)

theorem leAt_putLe_same (value : Nat) (fits : offset + width ≤ bytes.length) :
    leAt width (putLe width bytes offset value) offset = value % 256 ^ width := by
  rw [leAt, putLe, slice_put_of_length (length_leBytes width value) fits, leNat_leBytes]

/-- The range from `offset` on meets none of the windows (start and length). -/
def Apart (windows : List (Nat × Nat)) (offset width : Nat) : Prop :=
  ∀ window ∈ windows, offset + width ≤ window.1 ∨ window.1 + window.2 ≤ offset

instance : Decidable (Apart windows offset width) :=
  inferInstanceAs (Decidable (∀ window ∈ windows, _))

/-- Two records of one length that differ at most in the windows. -/
structure AgreeOutside (windows : List (Nat × Nat)) (before after : Bytes) : Prop where
  length : after.length = before.length
  slice : ∀ offset width, Apart windows offset width →
    slice after offset width = slice before offset width

namespace AgreeOutside

theorem refl (windows : List (Nat × Nat)) (bytes : Bytes) : AgreeOutside windows bytes bytes :=
  ⟨rfl, fun _ _ _ => rfl⟩

theorem trans {last : Bytes} (first : AgreeOutside windows before after)
    (second : AgreeOutside windows after last) : AgreeOutside windows before last :=
  ⟨second.length.trans first.length, fun offset width apart =>
    (second.slice offset width apart).trans (first.slice offset width apart)⟩

theorem leAt (agree : AgreeOutside windows before after) (apart : Apart windows offset width) :
    leAt width after offset = leAt width before offset := by
  rw [Bytes.leAt, agree.slice offset width apart, Bytes.leAt]

/-- One more field inside the windows. -/
theorem putLe (agree : AgreeOutside windows before after) (member : (offset, width) ∈ windows)
    (fits : offset + width ≤ before.length) (value : Nat) :
    AgreeOutside windows before (putLe width after offset value) := by
  have fits : offset + width ≤ after.length := by
    rw [agree.length]
    exact fits
  refine ⟨(length_putLe value fits).trans agree.length, fun other length apart => ?_⟩
  rw [Bytes.putLe, slice_put_of_disjoint (by simpa using fits), agree.slice other length apart]
  simpa using apart _ member

end AgreeOutside

end RetroOS.Lib.Bytes
