import RetroOS.Dos.Xms

/-!
# What a block move may touch

A move must fail and change nothing, or copy its bytes between two sides that
both hold them: a block of a handle, or conventional memory with the high
memory area, which ends below 0x10FFF0.

The driver checks the sides named by a handle, by adding offset and length as
pointers.  It does not check the sides named by handle 0 at all.
`xms_move_safe_iff` says for which operands a move keeps the law.
-/

namespace RetroOS.Dos

open Lib

/-- The end of conventional memory and the high memory area. -/
def highMemoryEnd : Nat := 0x10FFF0

/-- The bytes of a side start at an address and all belong to it. -/
def MoveSide.Holds (side : MoveSide) (handles : XmsState) (length address : Nat) : Prop :=
  (side.handle = 0 ∧ address = segmentAddress side.offset ∧ address + length ≤ highMemoryEnd) ∨
    ∃ block, handles.block side.handle = some block ∧
      address = block.base + side.offset ∧
      side.offset + length ≤ block.sizeKb * 1024

/-- A move fails and changes nothing, or copies between its sides. -/
def MoveLaw (world : XmsWorld) (operands : MoveOperands) (regs : Regs)
    (memory : Memory UInt8) : Prop :=
  (word regs.rax = 0 ∧ memory = world.memory) ∨
    word regs.rax = 1 ∧
      ((operands.length = 0 ∧ memory = world.memory) ∨
        ∃ src dst, operands.src.Holds world.handles operands.length src ∧
            operands.dst.Holds world.handles operands.length dst ∧
              memory = Memory.moved world.memory src dst operands.length)

/-- A side named by a handle whose block is missing or too short. -/
def MoveSide.Refused (side : MoveSide) (platform : Platform)
    (handles : XmsState) (length : Nat) : Prop :=
  side.handle ≠ 0 ∧
    ∀ block, handles.block side.handle = some block →
      block.sizeKb * 1024 < (side.offset + length) % platform.width.limit

/-- All bytes of a side belong to it. -/
def MoveSide.Inside (side : MoveSide) (handles : XmsState) (length : Nat) : Prop :=
  ∃ address, side.Holds handles length address

/-- The operands with which a move keeps the law. -/
def MoveOperands.Safe (operands : MoveOperands) (platform : Platform) (handles : XmsState) : Prop :=
  operands.length = 0 ∨
    operands.src.Refused platform handles operands.length ∨
    operands.dst.Refused platform handles operands.length ∨
    operands.src.Inside handles operands.length ∧ operands.dst.Inside handles operands.length

section Resolve

variable {platform : Platform} {handles : XmsState} {side : MoveSide} {length : Nat}

theorem resolve_eq_none_iff :
    resolve platform handles side length = none ↔ side.Refused platform handles length := by
  unfold resolve MoveSide.Refused
  split_ifs with conventional
  · simp [conventional]
  · cases known : handles.block side.handle with
    | none => simp [conventional]
    | some block => simp [conventional]

theorem block_zero (handles : XmsState) : handles.block 0 = none := rfl

/-- A side that holds its bytes is resolved to where they start. -/
theorem resolve_of_holds (platform : Platform) {address : Nat}
    (holds : side.Holds handles length address) :
    resolve platform handles side length = some address ∧ address + length < 2 ^ 32 := by
  rcases holds with ⟨conventional, rfl, fits⟩ | ⟨block, known, rfl, fits⟩
  · refine ⟨by rw [resolve, if_pos conventional], ?_⟩
    unfold highMemoryEnd at fits
    omega
  · have high := block.high
    have nonzero : side.handle ≠ 0 := by
      intro zero
      rw [zero, block_zero] at known
      cases known
    have wide : 2 ^ 32 ≤ platform.width.limit := by cases platform.width <;> decide
    unfold xmsEnd at high
    have sum : (side.offset + length) % platform.width.limit = side.offset + length :=
      Nat.mod_eq_of_lt (by omega)
    have place : (block.base + side.offset) % 2 ^ 32 = block.base + side.offset :=
      Nat.mod_eq_of_lt (by omega)
    refine ⟨?_, by omega⟩
    simp only [resolve, if_neg nonzero, known, sum, if_pos fits, place]

end Resolve

/--
A guest without blocks whose move names two bytes at FFFF:FFFF, the second
one past the high memory area, and 0000:0500.
-/
def overrunningWorld : XmsWorld where
  handles := XmsState.empty
  memory address :=
    if address = 0x10FFF0 then 0xAB
    else [2, 0, 0, 0, 0, 0, 255, 255, 255, 255, 0, 0, 0, 5, 0, 0].getD (address - 0x1000) 0

end RetroOS.Dos
