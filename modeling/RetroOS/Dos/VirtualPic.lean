import RetroOS.Lib.Machine

/-!
# The virtual interrupt controller

Two controllers of eight lines each, with the slave on line 2 of the master.
On each of them the line with the lowest number comes first, so that the
lines of the slave come between the lines 1 and 3 of the master.

A request on line 2 itself stands for no device.  `VirtualPic.peek` takes it
for one of the slave and finds nothing, even if a later line could be
delivered; unless that line is raised, what is found is what comes first.
-/

namespace RetroOS.Dos

open Lib

/-- The lowest bit that is set. -/
def lowestSet (bits : BitVec 8) : Option Nat := (List.range 8).find? bits.getLsbD

def bit (line : Nat) : BitVec 8 := .twoPow 8 line

structure Pic8259 where
  /-- Requests that are not delivered. -/
  irr : BitVec 8 := 0
  /-- Lines in service. -/
  isr : BitVec 8 := 0
  /-- Lines that are masked. -/
  imr : BitVec 8 := 0

namespace Pic8259

def peek (chip : Pic8259) : Option Nat :=
  match lowestSet (chip.irr &&& ~~~chip.imr) with
  | none => none
  | some win => if (lowestSet chip.isr).any (· ≤ win) then none else some win

/-- End the service of a line; the line, if it was in service. -/
def writeOcw2 (chip : Pic8259) (val : BitVec 8) : Option Nat × Pic8259 :=
  let command := val &&& 0xE0
  if command = 0x20 ∨ command = 0xA0 then
    match lowestSet chip.isr with
    | none => (none, chip)
    | some line => (some line, { chip with isr := chip.isr &&& ~~~ bit line })
  else if command = 0x60 ∨ command = 0xE0 then
    let line := (val &&& 7).toNat
    (if chip.isr.getLsbD line then some line else none,
      { chip with isr := chip.isr &&& ~~~ bit line })
  else (none, chip)

end Pic8259

structure VirtualPic where
  master : Pic8259 := {}
  slave : Pic8259 := {}

def cascadeLine : Nat := 2

namespace VirtualPic

variable (pic : VirtualPic) (irq : Nat)

/-- Change the controller of a line. -/
def onChip (change : Pic8259 → Nat → Pic8259) : VirtualPic :=
  if irq < 8 then { pic with master := change pic.master irq }
  else if irq < 16 then { pic with slave := change pic.slave (irq - 8) }
  else pic

def raise : VirtualPic := pic.onChip irq fun chip line => { chip with irr := chip.irr ||| bit line }

def clearRequest : VirtualPic :=
  pic.onChip irq fun chip line => { chip with irr := chip.irr &&& ~~~ bit line }

def inService : Bool :=
  if irq < 8 then pic.master.isr.getLsbD irq
  else if irq < 16 then pic.slave.isr.getLsbD (irq - 8)
  else false

/-- The lines of the master that are requested, by the slave too, and not masked. -/
def candidates : BitVec 8 :=
  let cascade := if pic.slave.peek.isSome then bit cascadeLine else 0
  (pic.master.irr ||| cascade) &&& ~~~pic.master.imr

def peek : Option Nat :=
  match lowestSet pic.candidates with
  | none => none
  | some win =>
    if (lowestSet pic.master.isr).any (· ≤ win) then none
    else if win = cascadeLine then pic.slave.peek.map (8 + ·)
    else some win

def ack : VirtualPic :=
  let served (chip : Pic8259) (line : Nat) : Pic8259 :=
    { chip with irr := chip.irr &&& ~~~ bit line, isr := chip.isr ||| bit line }
  if irq < 8 then { pic with master := served pic.master irq }
  else if irq < 16 then
    { master := { pic.master with isr := pic.master.isr ||| bit cascadeLine }
      slave := served pic.slave (irq - 8) }
  else pic

end VirtualPic

inductive PicCall where
  | raise (irq : Nat)
  | clearRequest (irq : Nat)
  | peek
  | ack (irq : Nat)
  | masterOcw2 (val : BitVec 8)
  | slaveOcw2 (val : BitVec 8)
  | setMasterImr (val : BitVec 8)
  | setSlaveImr (val : BitVec 8)
  | masterIsr
  | masterImr
  | slaveIsr
  | slaveImr
  deriving DecidableEq

/-- The controller as a machine; the answer is a line or the value of a register. -/
def picMachine : Machine VirtualPic PicCall (Option Nat)
  | pic, .raise irq => (none, pic.raise irq)
  | pic, .clearRequest irq => (none, pic.clearRequest irq)
  | pic, .peek => (pic.peek, pic)
  | pic, .ack irq => (none, pic.ack irq)
  | pic, .masterOcw2 val =>
    let (line, master) := pic.master.writeOcw2 val
    (line, { pic with master })
  | pic, .slaveOcw2 val =>
    let (line, slave) := pic.slave.writeOcw2 val
    (line.map (8 + ·), { pic with slave })
  | pic, .setMasterImr imr => (none, { pic with master.imr := imr })
  | pic, .setSlaveImr imr => (none, { pic with slave.imr := imr })
  | pic, .masterIsr => (some pic.master.isr.toNat, pic)
  | pic, .masterImr => (some pic.master.imr.toNat, pic)
  | pic, .slaveIsr => (some pic.slave.isr.toNat, pic)
  | pic, .slaveImr => (some pic.slave.imr.toNat, pic)

/-! ## What may be delivered -/

/-- Every line in service on a controller comes after a line. -/
def Pic8259.Yields (chip : Pic8259) (line : Nat) : Prop :=
  ∀ served < 8, chip.isr.getLsbD served = true → line < served

instance (chip : Pic8259) (line : Nat) : Decidable (chip.Yields line) :=
  inferInstanceAs (Decidable (∀ served < 8, _))

/-- A line is requested, not masked and before all lines in service. -/
def Pic8259.Offers (chip : Pic8259) (line : Nat) : Prop :=
  chip.irr.getLsbD line = true ∧ chip.imr.getLsbD line = false ∧ chip.Yields line

instance (chip : Pic8259) (line : Nat) : Decidable (chip.Offers line) :=
  inferInstanceAs (Decidable (_ ∧ _))

/-- A line of the slave also needs the line of the master it hangs on. -/
def VirtualPic.Deliverable (pic : VirtualPic) (irq : Nat) : Prop :=
  if irq < 8 then irq ≠ cascadeLine ∧ pic.master.Offers irq
  else
    pic.slave.Offers (irq - 8) ∧ pic.master.imr.getLsbD cascadeLine = false ∧
      pic.master.Yields cascadeLine

instance (pic : VirtualPic) (irq : Nat) : Decidable (pic.Deliverable irq) :=
  inferInstanceAs (Decidable (ite ..))

/-- The lines of devices by their priority. -/
def deliveryOrder : List Nat := [0, 1, 8, 9, 10, 11, 12, 13, 14, 15, 3, 4, 5, 6, 7]

/-! ## Searches -/

section Searches

variable {α β : Type} {items : List α}

/-- What is found must pass a gate that later items do not pass before earlier ones. -/
theorem find?_filter_of_pairwise {test gate : α → Bool}
    (closed : items.Pairwise fun first later => gate later = true → gate first = true) :
    (items.find? test).filter gate = items.find? fun item => test item && gate item := by
  induction items with
  | nil => rfl
  | cons item rest induction =>
    obtain ⟨first, closed⟩ := List.pairwise_cons.mp closed
    cases tested : test item with
    | false => simpa [tested] using induction closed
    | true =>
      cases passed : gate item with
      | true => simp [tested, passed]
      | false =>
        have none : rest.find? (fun item => test item && gate item) = none := by
          refine List.find?_eq_none.mpr fun later member found => ?_
          rw [first later member (by simpa using (Bool.and_eq_true_iff.mp found).2)] at passed
          cases passed
        simp [tested, passed, none]

/-- A search through lists of which each is searched at once. -/
theorem find?_flatMap_eq_bind {expand : α → List β} {wanted : β → Bool} {test : α → Bool}
    {deliver : α → Option β}
    (finds :
      ∀ item ∈ items, (expand item).find? wanted = if test item then deliver item else none)
    (delivers : ∀ item ∈ items, test item = true → (deliver item).isSome = true) :
    (items.flatMap expand).find? wanted = (items.find? test).bind deliver := by
  induction items with
  | nil => rfl
  | cons item rest induction =>
    have later := induction (fun other member => finds other (List.mem_cons_of_mem _ member))
      fun other member => delivers other (List.mem_cons_of_mem _ member)
    rw [List.flatMap_cons, List.find?_append, finds item List.mem_cons_self, later]
    cases tested : test item with
    | false => simp [tested]
    | true =>
      obtain ⟨found, known⟩ :=
        Option.isSome_iff_exists.mp (delivers item List.mem_cons_self tested)
      simp [tested, known]

end Searches

theorem any_lowestSet_eq_false {chip : Pic8259} {line : Nat} :
    (lowestSet chip.isr).any (· ≤ line) = false ↔ chip.Yields line := by
  unfold lowestSet Pic8259.Yields
  cases found : (List.range 8).find? chip.isr.getLsbD with
  | none =>
    have idle := List.find?_eq_none.mp found
    refine iff_of_true rfl fun served inside busy => ?_
    exact absurd busy (idle served (List.mem_range.mpr inside))
  | some first =>
    obtain ⟨busy, inside, least⟩ := List.find?_range_eq_some.mp found
    simp only [Option.any_some, decide_eq_false_iff_not, not_le]
    refine ⟨fun before served _ other => ?_, fun yields => ?_⟩
    · by_contra early
      have idle := least served (by omega)
      simp [other] at idle
    · exact yields first (List.mem_range.mp inside) busy

theorem Pic8259.Yields.pairwise (chip : Pic8259) :
    (List.range 8).Pairwise fun first later =>
      decide (chip.Yields later) = true → decide (chip.Yields first) = true := by
  refine List.pairwise_lt_range.imp fun before => ?_
  simp only [decide_eq_true_eq]
  exact fun yields served inside busy => before.trans (yields served inside busy)

/-- The lowest candidate is delivered if it comes before all lines in service. -/
theorem gated_lowestSet (chip : Pic8259) (bits : BitVec 8) :
    (match lowestSet bits with
      | none => none
      | some win => if (lowestSet chip.isr).any (· ≤ win) then none else some win) =
      (List.range 8).find? fun line => bits.getLsbD line && decide (chip.Yields line) := by
  rw [← find?_filter_of_pairwise (Pic8259.Yields.pairwise chip)]
  change _ = Option.filter _ (lowestSet bits)
  cases lowestSet bits with
  | none => rfl
  | some win =>
    rw [Option.filter_some]
    cases gate : (lowestSet chip.isr).any (· ≤ win) with
    | false => simp [gate, any_lowestSet_eq_false.mp gate]
    | true =>
      have blocked : ¬ chip.Yields win := by simp [← any_lowestSet_eq_false, gate]
      simp [gate, blocked]

theorem getLsbD_bit {line other : Nat} (inside : line < 8) :
    (bit line).getLsbD other = decide (line = other) := by
  simp [bit, BitVec.getLsbD_twoPow, inside]

theorem getLsbD_and_not {bits mask : BitVec 8} {line : Nat} (inside : line < 8) :
    (bits &&& ~~~mask).getLsbD line = (bits.getLsbD line && !mask.getLsbD line) := by
  simp [inside]

theorem Pic8259.decide_offers (chip : Pic8259) (line : Nat) :
    decide (chip.Offers line) =
      (chip.irr.getLsbD line && !chip.imr.getLsbD line && decide (chip.Yields line)) := by
  rw [Bool.eq_iff_iff, decide_eq_true_iff]
  simp [Pic8259.Offers, and_assoc]

theorem Pic8259.peek_eq (chip : Pic8259) :
    chip.peek = (List.range 8).find? fun line => chip.Offers line := by
  rw [Pic8259.peek, gated_lowestSet]
  refine List.find?_congr fun line member => ?_
  rw [getLsbD_and_not (List.mem_range.mp member), Pic8259.decide_offers]

namespace VirtualPic

variable {pic : VirtualPic}

/-- The lines of devices on a line of the master. -/
def devices (line : Nat) : List Nat :=
  if line = cascadeLine then (List.range 8).map (8 + ·) else [line]

theorem find?_devices {line : Nat} (inside : line < 8) :
    (devices line).find? (pic.Deliverable ·) =
      if line = cascadeLine then
        if pic.master.imr.getLsbD line = false ∧ pic.master.Yields line then
          pic.slave.peek.map (8 + ·)
        else none
      else if pic.master.Offers line then some line else none := by
  unfold devices
  split_ifs with cascade gate offers
  · have slave (other : Nat) : pic.Deliverable (8 + other) ↔ pic.slave.Offers other := by
      simp [Deliverable, ← cascade, gate]
    simp [List.find?_map, slave, Pic8259.peek_eq]
  · have slave (other : Nat) : ¬ pic.Deliverable (8 + other) := by
      simpa [Deliverable, ← cascade] using fun _ => not_and.mp gate
    simp [List.find?_map, slave]
  · simp [Deliverable, inside, cascade, offers]
  · simp [Deliverable, inside, cascade, offers]

theorem getLsbD_candidates {line : Nat} (inside : line < 8) :
    pic.candidates.getLsbD line =
      ((pic.master.irr.getLsbD line || pic.slave.peek.isSome && decide (cascadeLine = line)) &&
        !pic.master.imr.getLsbD line) := by
  rw [candidates, getLsbD_and_not inside, BitVec.getLsbD_or]
  cases pic.slave.peek.isSome <;> simp [getLsbD_bit (by decide : cascadeLine < 8)]

/-- Without a request on the cascade line, what is found is what comes first. -/
theorem peek_eq (quiet : pic.master.irr.getLsbD cascadeLine = false) :
    pic.peek = deliveryOrder.find? (pic.Deliverable ·) := by
  have found :
      pic.peek =
        ((List.range 8).find? fun line =>
          pic.candidates.getLsbD line && decide (pic.master.Yields line)).bind fun win =>
            if win = cascadeLine then pic.slave.peek.map (8 + ·) else some win := by
    rw [← gated_lowestSet, peek]
    cases lowestSet pic.candidates with
    | none => rfl
    | some win =>
      dsimp only
      split_ifs <;> simp_all
  rw [found, show deliveryOrder = (List.range 8).flatMap devices from rfl]
  refine (find?_flatMap_eq_bind (fun line member => ?_) fun line member tested => ?_).symm
  · have inside := List.mem_range.mp member
    rw [find?_devices inside, getLsbD_candidates inside]
    by_cases cascade : line = cascadeLine
    · subst cascade
      cases known : pic.slave.peek <;> simp [quiet]
    · simp only [cascade, Ne.symm cascade, decide_false, Bool.and_false, Bool.or_false,
        ← Pic8259.decide_offers, decide_eq_true_eq, if_false]
  · rw [getLsbD_candidates (List.mem_range.mp member)] at tested
    split_ifs with cascade
    · subst cascade
      simp only [quiet, Bool.false_or, Bool.and_eq_true] at tested
      simpa using tested.1.1.1
    · rfl

end VirtualPic

/-! ## Runs -/

/-- What is delivered and what a delivery does. -/
structure PicLaw (move : Move VirtualPic PicCall (Option Nat)) : Prop where
  peeks : move.before.peek = deliveryOrder.find? (move.before.Deliverable ·)
  acks :
    ∀ irq < 16, move.input = .ack irq → ∀ line < 16,
      (move.after.inService line ↔
        move.before.inService line ∨ line = irq ∨ 8 ≤ irq ∧ line = cascadeLine)

theorem inService_ack (pic : VirtualPic) {irq line : Nat} (inside : irq < 16) (known : line < 16) :
    (pic.ack irq).inService line ↔
      pic.inService line ∨ line = irq ∨ 8 ≤ irq ∧ line = cascadeLine := by
  have served {bits : BitVec 8} {own other : Nat} (inside : own < 8) :
      (bits ||| bit own).getLsbD other = true ↔ bits.getLsbD other = true ∨ own = other := by
    rw [BitVec.getLsbD_or, Bool.or_eq_true, getLsbD_bit inside, decide_eq_true_iff]
  unfold VirtualPic.ack VirtualPic.inService cascadeLine
  split_ifs with here low low
  · exact (served low).trans (or_congr_right (by omega))
  · exact (served (by decide)).trans (or_congr_right (by omega))
  · exact (or_iff_left (by omega)).symm
  · exact (served (by omega)).trans (or_congr_right (by omega))

theorem quiet_step {pic : VirtualPic} {call : PicCall}
    (quiet : pic.master.irr.getLsbD cascadeLine = false) (other : call ≠ .raise cascadeLine) :
    (picMachine pic call).2.master.irr.getLsbD cascadeLine = false := by
  cases call with
  | raise irq =>
    have apart : irq ≠ cascadeLine := fun same => other (same ▸ rfl)
    simp only [picMachine, VirtualPic.raise, VirtualPic.onChip]
    split_ifs with inside
    · simp [quiet, getLsbD_bit inside, apart]
    all_goals exact quiet
  | clearRequest irq =>
    simp only [picMachine, VirtualPic.clearRequest, VirtualPic.onChip]
    split_ifs <;> simp [quiet]
  | ack irq =>
    simp only [picMachine, VirtualPic.ack]
    split_ifs <;> simp [quiet]
  | masterOcw2 val =>
    simp only [picMachine, Pic8259.writeOcw2]
    split_ifs
    · split <;> exact quiet
    all_goals exact quiet
  | _ => exact quiet

/-- As long as nobody raises the cascade line, the first line comes first. -/
theorem pic_delivers_first (calls : List PicCall)
    (devices : picMachine.Meets (fun _ call => call ≠ .raise cascadeLine) {} calls) :
    ∀ move ∈ picMachine.run {} calls, PicLaw move := by
  have step :
      ∀ (pic : VirtualPic) (call : PicCall), pic.master.irr.getLsbD cascadeLine = false →
        call ≠ .raise cascadeLine →
        (picMachine pic call).2.master.irr.getLsbD cascadeLine = false :=
    fun _ _ => quiet_step
  refine Machine.forall_run step (fun pic call quiet _ => ?_) rfl devices
  refine ⟨pic.peek_eq quiet, ?_⟩
  rintro irq inside ⟨⟩ line known
  exact inService_ack pic inside known

/-- A line of the slave goes before one of the master and is served first. -/
def nestedCalls : List PicCall :=
  [.raise 5, .raise 12, .peek, .ack 12, .raise 1, .peek, .ack 1, .masterOcw2 0x20, .peek,
    .slaveOcw2 0x64, .masterOcw2 0x62, .peek]

theorem nested_calls_first :
    (picMachine.run {} nestedCalls).map Move.answer =
        [none, none, some 12, none, none, some 1, none, some 1, none, some 12, some 2, some 5] ∧
      ∀ move ∈ picMachine.run {} nestedCalls, PicLaw move :=
  ⟨by decide +kernel, pic_delivers_first nestedCalls (by decide +kernel)⟩

/-- A request on the cascade line hides the lines behind it. -/
theorem cascade_hides_line :
    ¬ ∀ move ∈ picMachine.run {} [.raise 2, .raise 5, .peek], PicLaw move := by
  intro law
  have last := law _ (Machine.last_mem_run picMachine {} [.raise 2, .raise 5] .peek)
  exact absurd last.peeks (by decide +kernel)

end RetroOS.Dos
