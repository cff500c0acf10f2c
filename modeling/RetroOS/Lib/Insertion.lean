import Mathlib.Tactic

/-!
# Insertion into a sorted list

An item goes behind the first entries that pass a test.  The list then has
the same entries and the item, and it stays sorted when the item stands right
to every entry on its side.
-/

namespace RetroOS.Lib

variable {α : Type} {entries : List α} {test : α → Bool} {item : α}

theorem insertion_perm :
    (entries.takeWhile test ++ item :: entries.dropWhile test).Perm (item :: entries) := by
  refine List.perm_middle.trans ?_
  rw [List.takeWhile_append_dropWhile]

theorem insertion_pairwise {ordered : α → α → Prop}
    (trans : ∀ {first second third}, ordered first second → ordered second third →
      ordered first third)
    (before : ∀ entry ∈ entries, test entry = true → ordered entry item)
    (after : ∀ entry ∈ entries, test entry = false → ordered item entry)
    (sorted : entries.Pairwise ordered) :
    (entries.takeWhile test ++ item :: entries.dropWhile test).Pairwise ordered := by
  induction entries with
  | nil => exact List.pairwise_singleton _ _
  | cons head rest induction =>
    obtain ⟨first, others⟩ := List.pairwise_cons.mp sorted
    obtain ⟨own, earlier⟩ := List.forall_mem_cons.mp before
    obtain ⟨here, later⟩ := List.forall_mem_cons.mp after
    cases passed : test head with
    | true =>
      rw [List.takeWhile_cons_of_pos passed, List.dropWhile_cons_of_pos passed]
      refine List.pairwise_cons.mpr ⟨fun entry member => ?_, induction earlier later others⟩
      rcases List.mem_cons.mp (insertion_perm.mem_iff.mp member) with rfl | old
      · exact own passed
      · exact first entry old
    | false =>
      have failed : ¬ test head = true := by simp [passed]
      rw [List.takeWhile_cons_of_neg failed, List.dropWhile_cons_of_neg failed]
      refine List.pairwise_cons.mpr ⟨List.forall_mem_cons.mpr ⟨here passed, fun entry member => ?_⟩,
        sorted⟩
      exact trans (here passed) (first entry member)

end RetroOS.Lib
