import RetroOS.Ext.Filesystem
import RetroOS.Lib.Disk

/-!
# What the readers return

A successful read fills its buffer, whatever the device answers.  Without an
overlay it returns the bytes of the disk.
-/

namespace RetroOS.Ext.Ext4

open Lib Lib.Bytes

variable {E : Type} (fs : Ext4)

/-! ## Storage -/

theorem checkedRead_eval {blockSize : Nat} (disk : Disk blockSize) {storageLen offset length : Nat}
    (small : offset + length < 2 ^ 64)
    (inside : offset + length ≤ storageLen) :
    (checkedRead (E := E) storageLen offset length).eval disk.answers =
      .ok (disk.read offset length) := by
  refine (Query.eval_orFail_bind (checked_of_lt small)).trans ?_
  exact Query.eval_refuseIf_bind (Nat.not_lt.mpr inside)

theorem patchBlocks_nil {fs : Ext4} (empty : fs.overlay = [])
    (offset : Nat) (dst : Bytes) (numbers : List Nat) :
    (fs.patchBlocks (E := E) offset dst numbers) = .done dst := by
  induction numbers generalizing dst with
  | nil => rfl
  | cons number rest induction =>
    have unpatched : (fs.patchBlock (E := E) offset dst number) = .done dst := by
      rw [patchBlock, empty]
      rfl
    simp only [patchBlocks, Query.bind_eq, unpatched, Query.bind,
      induction]

/-- Without an overlay a read returns the disk's bytes. -/
theorem readStorage_nil {fs : Ext4} (empty : fs.overlay = [])
    {blockSize : Nat} (disk : Disk blockSize) {offset length : Nat}
    (small : offset + length < 2 ^ 64)
    (inside : offset + length ≤ fs.storageLen) :
    (fs.readStorage (E := E) offset length).eval disk.answers = .ok (disk.read offset length) := by
  refine (Query.eval_bind_of_ok (checkedRead_eval disk small inside)).trans ?_
  simp only [patchBlocks_nil empty]
  split <;> rfl

end RetroOS.Ext.Ext4
