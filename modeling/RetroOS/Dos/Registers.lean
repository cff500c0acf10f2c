import Mathlib.Tactic

/-!
# Registers of a DOS guest

The services for DOS programs take their arguments from the registers of the
guest and answer in them.  A register holds 64 bits; the services read and
replace its low word or one of the two bytes of it.
-/

namespace RetroOS.Dos

/-- The registers the services read and write. -/
structure Regs where
  rax : Nat := 0
  rbx : Nat := 0
  rcx : Nat := 0
  rdx : Nat := 0
  rsi : Nat := 0
  rdi : Nat := 0
  ds : Nat := 0
  es : Nat := 0
  deriving DecidableEq

/-- The low word of a register. -/
def word (register : Nat) : Nat := register % 2 ^ 16

/-- The low byte of a register. -/
def lowByte (register : Nat) : Nat := register % 2 ^ 8

/-- The second byte of a register. -/
def highByte (register : Nat) : Nat := register / 2 ^ 8 % 2 ^ 8

/-- Replace the low word of a register. -/
def setWord (register value : Nat) : Nat := register / 2 ^ 16 * 2 ^ 16 + value

/-- Replace the low byte of a register. -/
def setLowByte (register value : Nat) : Nat := register / 2 ^ 8 * 2 ^ 8 + value

/-- Replace the second byte of a register. -/
def setHighByte (register value : Nat) : Nat :=
  register / 2 ^ 16 * 2 ^ 16 + value * 2 ^ 8 + register % 2 ^ 8

/-- A number in the low words of two registers. -/
def pair (high low : Nat) : Nat := word high * 2 ^ 16 + word low

namespace Regs

def setBxCx (regs : Regs) (value : Nat) : Regs :=
  { regs with
    rbx := setWord regs.rbx (value / 2 ^ 16 % 2 ^ 16)
    rcx := setWord regs.rcx (value % 2 ^ 16) }

def setSiDi (regs : Regs) (value : Nat) : Regs :=
  { regs with
    rsi := setWord regs.rsi (value / 2 ^ 16 % 2 ^ 16)
    rdi := setWord regs.rdi (value % 2 ^ 16) }

def setAx (regs : Regs) (value : Nat) : Regs := { regs with rax := setWord regs.rax value }

end Regs

@[simp]
theorem word_setWord {register value : Nat} (small : value < 2 ^ 16) :
    word (setWord register value) = value := by
  unfold word setWord
  omega

@[simp]
theorem highByte_setHighByte {register value : Nat} (small : value < 2 ^ 8) :
    highByte (setHighByte register value) = value := by
  unfold highByte setHighByte
  omega

end RetroOS.Dos
