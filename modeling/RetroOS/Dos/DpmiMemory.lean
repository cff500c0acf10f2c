import RetroOS.Dos.EmsPages
import RetroOS.Lib.Regions

/-!
# Memory of DPMI clients

A DPMI client gets memory blocks from a cursor that only goes up, and mappings
of physical addresses from a window that is filled from its top.  Blocks are
resized where they are.  The pages of expanded memory, which the same DOS
machine may have handed out before, lie where the first blocks begin.

The calls are those of INT 31h, functions 0501h, 0502h, 0503h, 0800h and 0801h.
All that is live is kept apart exactly when the pages of expanded memory are
apart to begin with and every new range fits (`dpmi_memory_apart`).
-/

namespace RetroOS.Dos

open Lib

def maxMemBlocks : Nat := 256

def maxPhysMappings : Nat := 32

def memBase : Nat := 0x00500000

def physMapTop : Nat := 0xB0000000

def physMapFloor : Nat := 0xA0000000

structure PhysicalMapping where
  physicalPageBase : Nat
  returnedLinear : Nat
  virtualPageBase : Nat
  pageCount : Nat

def PhysicalMapping.range (mapping : PhysicalMapping) : Region where
  addr := mapping.virtualPageBase
  size := mapping.pageCount * 2 ^ 12

/-- The memory of a client and what the DOS machine keeps of it. -/
structure DpmiMemory where
  blocks : Fin maxMemBlocks → Option Region
  memNext : Nat
  mappings : Fin maxPhysMappings → Option PhysicalMapping
  /-- The cursor that the next client starts from. -/
  dosMemNext : Nat
  physNext : Nat
  ems : EmsState

namespace DpmiMemory

/-- A client that has just entered a new DOS machine. -/
def enter (ems : EmsState) : DpmiMemory where
  blocks _ := none
  memNext := (memBase + 0xFFFFF) / 2 ^ 20 * 2 ^ 20
  mappings _ := none
  dosMemNext := (memBase + 0xFFFFF) / 2 ^ 20 * 2 ^ 20
  physNext := physMapTop
  ems

end DpmiMemory

inductive MemoryFunction where
  | allocate
  | free
  | resize
  | mapPhysical
  | unmapPhysical

structure MemoryCall where
  function : MemoryFunction
  regs : Regs

structure MemoryAnswer where
  regs : Regs
  carry : Bool

/-- A size in whole pages, as 32 bits hold it. -/
def pageAligned (size : Nat) : Nat := (size + 0xFFF) % 2 ^ 32 / 2 ^ 12 * 2 ^ 12

/-- Base, page count and returned address of a mapping below a cursor. -/
def physicalMappingLayout (cursor physical size : Nat) : Option (Nat × Nat × Nat) :=
  let offset := physical % 2 ^ 12
  let pageCount := (offset + size + 0xFFF) / 2 ^ 12
  let virtualBase := (cursor - pageCount * 2 ^ 12) / 2 ^ 12 * 2 ^ 12
  if size = 0 ∨ 2 ^ 32 ≤ physical + (size - 1) ∨ 2 ^ 32 ≤ offset + size ∨
      2 ^ 32 ≤ offset + size + 0xFFF ∨ 2 ^ 32 ≤ pageCount * 2 ^ 12 ∨
      cursor < pageCount * 2 ^ 12 ∨ virtualBase < physMapFloor ∨
      2 ^ 32 ≤ virtualBase + offset then
    none
  else some (virtualBase, pageCount, virtualBase + offset)

namespace DpmiMemory

variable (memory : DpmiMemory)

/-! ## The calls -/

def setBlock (slot : Fin maxMemBlocks) (block : Option Region) : DpmiMemory :=
  { memory with blocks := Function.update memory.blocks slot block }

def setMapping (slot : Fin maxPhysMappings) (mapping : Option PhysicalMapping) : DpmiMemory :=
  { memory with mappings := Function.update memory.mappings slot mapping }

/-- Set both cursors of the blocks. -/
def setMemNext (next : Nat) : DpmiMemory :=
  { memory with memNext := next, dosMemNext := max memory.dosMemNext next }

def freeBlock : Option (Fin maxMemBlocks) :=
  (List.finRange maxMemBlocks).find? fun slot => (memory.blocks slot).isNone

def blockAt (handle : Nat) : Option (Fin maxMemBlocks) :=
  (List.finRange maxMemBlocks).find? fun slot =>
    (memory.blocks slot).any fun block => block.addr = handle

def freePhysSlot : Option (Fin maxPhysMappings) :=
  (List.finRange maxPhysMappings).find? fun slot => (memory.mappings slot).isNone

def physicalMapping (returnedLinear : Nat) : Option (Fin maxPhysMappings) :=
  (List.finRange maxPhysMappings).find? fun slot =>
    (memory.mappings slot).any fun mapping => mapping.returnedLinear = returnedLinear

def allocate (regs : Regs) : MemoryAnswer × DpmiMemory :=
  if pair regs.rbx regs.rcx = 0 then ({ regs, carry := true }, memory)
  else
    -- The cursor has moved before a slot is looked for.
    match memory.freeBlock with
    | none =>
      ({ regs, carry := true }, memory.setMemNext
          ((memory.memNext + pageAligned (pair regs.rbx regs.rcx)) % 2 ^ 32))
    | some slot =>
      ({ regs := (regs.setBxCx memory.memNext).setSiDi memory.memNext, carry := false },
        (memory.setMemNext ((memory.memNext + pageAligned (pair regs.rbx regs.rcx)) %
            2 ^ 32)).setBlock slot
          (some { addr := memory.memNext, size := pageAligned (pair regs.rbx regs.rcx) }))

def free (regs : Regs) : MemoryAnswer × DpmiMemory :=
  match memory.blockAt (pair regs.rsi regs.rdi) with
  | none => ({ regs, carry := false }, memory)
  | some slot => ({ regs, carry := false }, memory.setBlock slot none)

def resize (regs : Regs) : MemoryAnswer × DpmiMemory :=
  match memory.blockAt (pair regs.rsi regs.rdi) with
  | none => ({ regs, carry := true }, memory)
  | some slot =>
    ({ regs :=
         (regs.setBxCx (pair regs.rsi regs.rdi)).setSiDi (pair regs.rsi regs.rdi)
       carry := false },
      (memory.setMemNext (max memory.memNext ((pair regs.rsi regs.rdi +
            pageAligned (pair regs.rbx regs.rcx)) % 2 ^ 32))).setBlock slot
        (some { addr := pair regs.rsi regs.rdi, size := pageAligned (pair regs.rbx regs.rcx) }))

def mapPhysical (regs : Regs) : MemoryAnswer × DpmiMemory :=
  match memory.freePhysSlot, physicalMappingLayout memory.physNext (pair regs.rbx regs.rcx)
        (pair regs.rsi regs.rdi) with
  | some slot, some (virtualBase, pageCount, returnedLinear) =>
    ({ regs := regs.setBxCx returnedLinear, carry := false },
      { memory.setMapping slot
          (some
            { physicalPageBase :=
                pair regs.rbx regs.rcx / 2 ^ 12 * 2 ^ 12
              returnedLinear
              virtualPageBase := virtualBase
              pageCount }) with
        physNext := virtualBase })
  | _, _ => ({ regs := regs.setAx 0x8012, carry := true }, memory)

def unmapPhysical (regs : Regs) : MemoryAnswer × DpmiMemory :=
  match memory.physicalMapping (pair regs.rbx regs.rcx) with
  | none => ({ regs := regs.setAx 0x8021, carry := true }, memory)
  | some slot => ({ regs, carry := false }, memory.setMapping slot none)

/-! ## What is live -/

end DpmiMemory

def dpmiMemoryMachine : Machine DpmiMemory MemoryCall MemoryAnswer
  | memory, ⟨.allocate, regs⟩ => memory.allocate regs
  | memory, ⟨.free, regs⟩ => memory.free regs
  | memory, ⟨.resize, regs⟩ => memory.resize regs
  | memory, ⟨.mapPhysical, regs⟩ => memory.mapPhysical regs
  | memory, ⟨.unmapPhysical, regs⟩ => memory.unmapPhysical regs

/-- Who holds a range of linear memory. -/
inductive Holder where
  | block (slot : Fin maxMemBlocks)
  | mapping (slot : Fin maxPhysMappings)
  | page (handle : Fin maxEmsHandles) (index : Nat)
  deriving DecidableEq

/-- The 16 KiB behind a logical page. -/
def emsRange (vpage : Nat) : Region where
  addr := vpage * 2 ^ 12
  size := 2 ^ 14

namespace DpmiMemory

def range (memory : DpmiMemory) : Holder → Option Region
  | .block slot => memory.blocks slot
  | .mapping slot => (memory.mappings slot).map PhysicalMapping.range
  | .page handle index => ((memory.ems.handles handle).bind (·[index]?)).map emsRange

/-- All live ranges are pairwise disjoint. -/
def RangesApart (memory : DpmiMemory) : Prop :=
  ∀ first second region other, first ≠ second →
    memory.range first = some region → memory.range second = some other →
    Disjoint region.extent other.extent

/-- Blocks below the window of the mappings, and mappings in it. -/
structure Inside (memory : DpmiMemory) : Prop where
  blocks :
    ∀ slot block, memory.blocks slot = some block → memBase ≤ block.addr ∧ block.stop ≤ physMapFloor
  mappings :
    ∀ slot mapping, memory.mappings slot = some mapping →
      physMapFloor ≤ mapping.range.addr ∧ mapping.range.stop ≤ physMapTop

/-- Nothing has changed that a client can notice. -/
structure Unchanged (before after : DpmiMemory) : Prop where
  blocks : after.blocks = before.blocks
  mappings : after.mappings = before.mappings
  memNext : after.memNext = before.memNext
  dosMemNext : after.dosMemNext = before.dosMemNext
  physNext : after.physNext = before.physNext

end DpmiMemory

structure MemoryLaw (move : Move DpmiMemory MemoryCall MemoryAnswer) :
    Prop where
  apart : move.after.RangesApart
  inside : move.after.Inside
  failed : move.answer.carry = true → move.before.Unchanged move.after

/-! ## When new ranges fit -/

/-- No two places of the handles have the same backing memory. -/
def EmsState.PagesApart (ems : EmsState) : Prop :=
  ∀ (handle another : Fin maxEmsHandles) (index other page shown : Nat),
    (handle, index) ≠ (another, other) →
    (ems.handles handle).bind (·[index]?) = some page →
    (ems.handles another).bind (·[other]?) = some shown →
    (emsRange page).Apart (emsRange shown)

theorem emsRange_below {page : Nat} (near : page < emsBackingVpage + 2 ^ 18) :
    (emsRange page).stop ≤ physMapFloor := by
  simp only [Region.stop, emsRange, physMapFloor, emsBackingVpage] at *
  omega

namespace DpmiMemory

variable (memory : DpmiMemory)

/-- A range below the window, and away from the pages of expanded memory. -/
def FitsPages (region : Region) : Prop :=
  region.stop ≤ physMapFloor ∧
    ∀ slot, ∀ page ∈ (memory.ems.handles slot).getD [], region.Apart (emsRange page)

instance (region : Region) : Decidable (memory.FitsPages region) := by
  unfold FitsPages
  infer_instance

/-- When a call has room for what it makes. -/
def Fits (call : MemoryCall) : Prop :=
  match call.function with
  | .allocate =>
    pair call.regs.rbx call.regs.rcx = 0 ∨
      match memory.freeBlock with
      | none => pageAligned (pair call.regs.rbx call.regs.rcx) = 0
      | some _ =>
        memory.FitsPages
          { addr := memory.memNext, size := pageAligned (pair call.regs.rbx call.regs.rcx) }
  | .resize =>
    match memory.blockAt (pair call.regs.rsi call.regs.rdi) with
    | none => True
    | some slot =>
      memory.FitsPages
          { addr := pair call.regs.rsi call.regs.rdi
            size := pageAligned (pair call.regs.rbx call.regs.rcx) } ∧
        ∀ other, other ≠ slot → ∀ block ∈ memory.blocks other, Region.Apart
            { addr := pair call.regs.rsi call.regs.rdi
              size := pageAligned (pair call.regs.rbx call.regs.rcx) }
            block
  | _ => True

instance (call : MemoryCall) : Decidable (memory.Fits call) := by
  unfold Fits
  split
  · refine @instDecidableOr _ _ inferInstance ?_
    split <;> infer_instance
  · split <;> infer_instance
  · infer_instance

end DpmiMemory

/-! ## Ranges that are replaced -/

namespace DpmiMemory

variable {memory after : DpmiMemory}

/-- When the range of one holder changes, only that one has to be compared. -/
theorem RangesApart.replace (known : memory.RangesApart) {holder : Holder}
    (frame : ∀ other, other ≠ holder → after.range other = memory.range other)
    (fresh :
      ∀ region, after.range holder = some region →
        ∀ other held, other ≠ holder → memory.range other = some held →
          Disjoint region.extent held.extent) :
    after.RangesApart := by
  intro first second region other distinct ofFirst ofSecond
  by_cases isFirst : first = holder
  · subst isFirst
    rw [frame second distinct.symm] at ofSecond
    exact fresh region ofFirst second other distinct.symm ofSecond
  rw [frame first isFirst] at ofFirst
  by_cases isSecond : second = holder
  · subst isSecond
    exact (fresh other ofSecond first region distinct ofFirst).symm
  rw [frame second isSecond] at ofSecond
  exact known first second region other distinct ofFirst ofSecond

/-- An entry of a table after a slot was set is the new one or an old one. -/
theorem entry_cases {ι α : Type} [DecidableEq ι] {table : ι → Option α} {slot other : ι}
    {value : Option α} {entry : α} (known : Function.update table slot value other = some entry) :
    value = some entry ∨ table other = some entry := by
  rcases eq_or_ne other slot with rfl | apart
  · exact .inl (by simpa using known)
  · exact .inr (by simpa [apart] using known)

theorem mem_of_page {handle : Fin maxEmsHandles} {index page : Nat}
    (live : (memory.ems.handles handle).bind (·[index]?) = some page) :
    page ∈ (memory.ems.handles handle).getD [] := by
  obtain ⟨list, known, found⟩ := Option.bind_eq_some_iff.mp live
  rw [known]
  exact List.mem_of_getElem? found

theorem page_of_mem {handle : Fin maxEmsHandles} {page : Nat}
    (member : page ∈ (memory.ems.handles handle).getD []) :
    ∃ index, memory.range (.page handle index) = some (emsRange page) := by
  cases known : memory.ems.handles handle with
  | none =>
    rw [known] at member
    cases member
  | some list =>
    rw [known] at member
    obtain ⟨index, found⟩ := List.getElem?_of_mem member
    have placed : list[index]? = some page := found
    refine ⟨index, ?_⟩
    simp only [range, known, Option.bind_some, placed, Option.map_some]

/-! ## The invariant -/

/-- What holds between calls. -/
structure Formed (memory : DpmiMemory) : Prop where
  apart : memory.RangesApart
  inside : memory.Inside
  below : ∀ slot block, memory.blocks slot = some block → block.stop ≤ memory.memNext
  memNext : memBase ≤ memory.memNext ∧ memory.memNext ≤ physMapFloor
  dosMemNext : memory.memNext ≤ memory.dosMemNext
  above : ∀ slot mapping, memory.mappings slot = some mapping → memory.physNext ≤ mapping.range.addr
  physNext : physMapFloor ≤ memory.physNext ∧ memory.physNext ≤ physMapTop
  pages :
    ∀ handle, ∀ page ∈ (memory.ems.handles handle).getD [], (emsRange page).stop ≤ physMapFloor

theorem rangesApart_enter {ems : EmsState} : (enter ems).RangesApart ↔ ems.PagesApart := by
  constructor
  · intro apart handle another index other page shown distinct live too
    apply Region.disjoint_extent_iff.mp
    apply apart (.page handle index) (.page another other)
    · rintro ⟨⟩
      exact distinct rfl
    · exact Option.map_eq_some_iff.mpr ⟨page, live, rfl⟩
    · exact Option.map_eq_some_iff.mpr ⟨shown, too, rfl⟩
  · intro apart first second region other distinct ofFirst ofSecond
    -- nothing but pages is live at first
    cases first with
    | block slot => cases ofFirst
    | mapping slot => cases ofFirst
    | page handle index =>
      cases second with
      | block slot => cases ofSecond
      | mapping slot => cases ofSecond
      | page another place =>
        obtain ⟨page, live, rfl⟩ := Option.map_eq_some_iff.mp ofFirst
        obtain ⟨shown, too, rfl⟩ := Option.map_eq_some_iff.mp ofSecond
        apply Region.disjoint_extent_iff.mpr
        apply apart handle another index place page shown _ live too
        rintro ⟨⟩
        exact distinct rfl

theorem formed_enter {ems : EmsState} (apart : ems.PagesApart) (reach : ems.InReach) :
    (enter ems).Formed where
  apart := rangesApart_enter.mpr apart
  inside :=
    { blocks := fun _ _ absurd => by cases absurd
      mappings := fun _ _ absurd => by cases absurd }
  below _ _ absurd := by cases absurd
  memNext := by norm_num [enter, memBase, physMapFloor]
  dosMemNext := le_rfl
  above _ _ absurd := by cases absurd
  physNext := by norm_num [enter, physMapTop, physMapFloor]
  pages handle page member := emsRange_below (reach handle page member)

variable {slot : Fin maxMemBlocks}

/-- The block of a slot is given up or replaced by one that fits. -/
theorem Formed.setBlock (formed : memory.Formed) {held : Option Region} {next : Nat}
    (fits :
      ∀ region ∈ held, memBase ≤ region.addr ∧ region.stop ≤ next ∧ memory.FitsPages region ∧
        ∀ other, other ≠ slot → ∀ block ∈ memory.blocks other, region.Apart block)
    (grown : memory.memNext ≤ next) (room : next ≤ physMapFloor) :
    ((memory.setMemNext next).setBlock slot held).Formed where
  apart := by
    have frame (other : Holder) (distinct : other ≠ .block slot) :
        ((memory.setMemNext next).setBlock slot held).range other = memory.range other := by
      cases other with
      | block another => exact Function.update_of_ne (fun same => distinct (by rw [same])) ..
      | _ => rfl
    apply formed.apart.replace frame
    intro region own other range distinct known
    have own : held = some region := by simpa [DpmiMemory.range, DpmiMemory.setBlock] using own
    obtain ⟨-, -, ⟨below, pages⟩, others⟩ := fits region own
    apply Region.disjoint_extent_iff.mpr
    cases other with
    | block another => exact others another (fun same => distinct (by rw [same])) range known
    | mapping another =>
      obtain ⟨mapping, live, rfl⟩ := Option.map_eq_some_iff.mp known
      exact Or.inl (below.trans (formed.inside.mappings another mapping live).1)
    | page handle index =>
      obtain ⟨page, live, rfl⟩ := Option.map_eq_some_iff.mp known
      exact pages handle page (mem_of_page live)
  inside :=
    { blocks := by
        intro other block known
        rcases entry_cases known with own | old
        · obtain ⟨lower, -, ⟨below, -⟩, -⟩ := fits block own
          exact ⟨lower, below⟩
        · exact formed.inside.blocks other block old
      mappings := formed.inside.mappings }
  below := by
    intro other block known
    rcases entry_cases known with own | old
    · exact (fits block own).2.1
    · exact (formed.below other block old).trans grown
  memNext := ⟨formed.memNext.1.trans grown, room⟩
  dosMemNext := le_max_right _ _
  above := formed.above
  physNext := formed.physNext
  pages := formed.pages

/-- A mapping is given up or put below the cursor. -/
theorem Formed.setMapping (formed : memory.Formed)
    {slot : Fin maxPhysMappings} {held : Option PhysicalMapping} {next : Nat}
    (fits :
      ∀ mapping ∈ held, next ≤ mapping.range.addr ∧ mapping.range.stop ≤ memory.physNext)
    (lower : physMapFloor ≤ next) (upper : next ≤ memory.physNext) :
    Formed { memory.setMapping slot held with physNext := next } where
  apart := by
    have frame (other : Holder) (distinct : other ≠ .mapping slot) :
        DpmiMemory.range { memory.setMapping slot held with physNext := next } other =
          memory.range other := by
      cases other with
      | mapping another =>
        refine congrArg (Option.map _) (Function.update_of_ne ?_ ..)
        exact fun same => distinct (by rw [same])
      | _ => rfl
    apply formed.apart.replace frame
    intro fresh own other range distinct known
    obtain ⟨mapping, placed, rfl⟩ := Option.map_eq_some_iff.mp own
    have placed : held = some mapping := by simpa [DpmiMemory.setMapping] using placed
    obtain ⟨above, below⟩ := fits mapping placed
    apply Region.disjoint_extent_iff.mpr
    cases other with
    | block another =>
      have far := (formed.inside.blocks another range known).2
      exact Or.inr (Or.inl (far.trans (lower.trans above)))
    | mapping another =>
      obtain ⟨held, live, rfl⟩ := Option.map_eq_some_iff.mp known
      exact Or.inl (below.trans (formed.above another held live))
    | page handle index =>
      obtain ⟨page, live, rfl⟩ := Option.map_eq_some_iff.mp known
      have far := formed.pages handle page (mem_of_page live)
      exact Or.inr (Or.inl (far.trans (lower.trans above)))
  inside :=
    { blocks := formed.inside.blocks
      mappings := by
        intro other mapping known
        rcases entry_cases known with own | old
        · obtain ⟨above, below⟩ := fits mapping own
          exact ⟨lower.trans above, below.trans formed.physNext.2⟩
        · exact formed.inside.mappings other mapping old }
  below := formed.below
  memNext := formed.memNext
  dosMemNext := formed.dosMemNext
  above := by
    intro other mapping known
    rcases entry_cases known with own | old
    · exact (fits mapping own).1
    · exact upper.trans (formed.above other mapping old)
  physNext := ⟨lower, upper.trans formed.physNext.2⟩
  pages := formed.pages

/-! ## Calls -/

theorem pageAligned_lt (size : Nat) : pageAligned size < 2 ^ 32 := by
  unfold pageAligned
  omega

theorem blockAt_spec {handle : Nat} (found : memory.blockAt handle = some slot) :
    ∃ block, memory.blocks slot = some block ∧ block.addr = handle := by
  have matched := List.find?_some found
  cases known : memory.blocks slot with
  | none => simp [known] at matched
  | some block => exact ⟨block, rfl, by simpa [known] using matched⟩

theorem Formed.setMemNext_self (formed : memory.Formed) :
    memory.setMemNext memory.memNext = memory := by
  rw [setMemNext, max_eq_left formed.dosMemNext]

variable {regs : Regs} {call : MemoryCall} {answer : MemoryAnswer} {region : Region}

/-- A call keeps the invariant when it fits, and is lawful just then. -/
def Settles (memory : DpmiMemory) (call : MemoryCall)
    (result : MemoryAnswer × DpmiMemory) (fits : Prop) : Prop :=
  (fits → result.2.Formed) ∧ (MemoryLaw ⟨memory, call, result.1, result.2⟩ ↔ fits)

theorem Settles.of_formed {fits : Prop} (formed : after.Formed) (holds : fits)
    (failed : answer.carry = true → after = memory) :
    Settles memory call (answer, after) fits :=
  ⟨fun _ => formed, iff_of_true ⟨formed.apart, formed.inside, fun carry => by
    rw [failed carry]
    exact ⟨rfl, rfl, rfl, rfl, rfl⟩⟩ holds⟩

/-- A block is placed, with the cursor behind it as far as the cursor can go. -/
theorem Formed.settles_place (formed : memory.Formed) {next : Nat} (done : answer.carry = false)
    (lower : memBase ≤ region.addr)
    (cursor :
      region.stop ≤ physMapFloor →
        memory.memNext ≤ next ∧ region.stop ≤ next ∧ next ≤ physMapFloor) :
    Settles memory call (answer, (memory.setMemNext next).setBlock slot (some region))
      (memory.FitsPages region ∧
        ∀ other, other ≠ slot → ∀ block ∈ memory.blocks other, region.Apart block) := by
  have kept (fits : memory.FitsPages region ∧
      ∀ other, other ≠ slot → ∀ block ∈ memory.blocks other, region.Apart block) :
      ((memory.setMemNext next).setBlock slot (some region)).Formed := by
    obtain ⟨grown, behind, room⟩ := cursor fits.1.1
    refine formed.setBlock ?_ grown room
    rintro _ ⟨⟩
    exact ⟨lower, behind, fits⟩
  refine ⟨kept, fun law => ?_, fun fits => ⟨(kept fits).apart, (kept fits).inside, by simp [done]⟩⟩
  have own :
      ((memory.setMemNext next).setBlock slot (some region)).range (.block slot) = some region :=
    Function.update_self ..
  refine ⟨⟨(law.inside.blocks slot region own).2, fun handle page member => ?_⟩,
    fun other distinct block known => ?_⟩
  · obtain ⟨index, held⟩ := page_of_mem member
    apply Region.disjoint_extent_iff.mp
    exact law.apart (.block slot) (.page handle index) region (emsRange page) (by rintro ⟨⟩) own held
  · apply Region.disjoint_extent_iff.mp
    apply law.apart (.block slot) (.block other) region block _ own
    · exact (Function.update_of_ne distinct ..).trans known
    · rintro ⟨⟩
      exact distinct rfl

theorem Formed.allocate (formed : memory.Formed) (regs : Regs) :
    Settles memory ⟨.allocate, regs⟩ (memory.allocate regs) (memory.Fits ⟨.allocate, regs⟩) := by
  have bound := formed.memNext
  have floor : physMapFloor < 2 ^ 32 := by decide
  have small := pageAligned_lt (pair regs.rbx regs.rcx)
  unfold DpmiMemory.allocate Fits
  dsimp only
  split_ifs with empty
  · exact .of_formed formed (.inl empty) fun _ => rfl
  · simp only [empty, false_or]
    cases found : memory.freeBlock with
    | none =>
      -- The cursor comes back to where it was only with an empty block.
      have cursor :
          (memory.memNext + pageAligned (pair regs.rbx regs.rcx)) % 2 ^ 32 = memory.memNext ↔
            pageAligned (pair regs.rbx regs.rcx) = 0 := by
        omega
      by_cases same : pageAligned (pair regs.rbx regs.rcx) = 0
      · simp only [cursor.mpr same, formed.setMemNext_self]
        exact .of_formed formed same fun _ => rfl
      · exact ⟨fun fits => absurd fits same, fun law => cursor.mp (law.failed rfl).memNext,
          fun fits => absurd fits same⟩
    | some slot =>
      have settles :=
        @Formed.settles_place memory slot ⟨.allocate, regs⟩
          ⟨(regs.setBxCx memory.memNext).setSiDi memory.memNext, false⟩
          ⟨memory.memNext, pageAligned (pair regs.rbx regs.rcx)⟩ formed
          ((memory.memNext + pageAligned (pair regs.rbx regs.rcx)) % 2 ^ 32) rfl bound.1
          fun room => by
            simp only [Region.stop] at room ⊢
            omega
      rwa [and_iff_left] at settles
      exact fun other _ block known => .inr (.inl (formed.below other block known))

theorem Formed.resize (formed : memory.Formed) (regs : Regs) :
    Settles memory ⟨.resize, regs⟩ (memory.resize regs) (memory.Fits ⟨.resize, regs⟩) := by
  have bound := formed.memNext
  have floor : physMapFloor < 2 ^ 32 := by decide
  unfold DpmiMemory.resize Fits
  dsimp only
  cases found : memory.blockAt (pair regs.rsi regs.rdi) with
  | none => exact .of_formed formed trivial fun _ => rfl
  | some slot =>
    obtain ⟨block, known, base⟩ := blockAt_spec found
    have lower := (formed.inside.blocks slot block known).1
    rw [base] at lower
    refine formed.settles_place rfl lower fun room => ?_
    simp only [Region.stop] at room ⊢
    omega

/-- A layout is below the cursor and in the window. -/
theorem layout_spec {cursor physical size virtualBase pageCount linear : Nat} (layout :
      physicalMappingLayout cursor physical size = some (virtualBase, pageCount, linear)) :
    physMapFloor ≤ virtualBase ∧ virtualBase + pageCount * 2 ^ 12 ≤ cursor := by
  unfold physicalMappingLayout at layout
  simp only at layout
  split_ifs at layout with refused
  cases layout
  push Not at refused
  omega

theorem Formed.settles (formed : memory.Formed) (call : MemoryCall) :
    Settles memory call (dpmiMemoryMachine memory call) (memory.Fits call) := by
  obtain ⟨function, regs⟩ := call
  cases function with
  | allocate => exact formed.allocate regs
  | resize => exact formed.resize regs
  | free =>
    simp only [dpmiMemoryMachine, DpmiMemory.free]
    split
    · exact .of_formed formed trivial fun _ => rfl
    · next slot _ =>
        have dropped := @Formed.setBlock memory slot formed none memory.memNext nofun le_rfl
          formed.memNext.2
        rw [formed.setMemNext_self] at dropped
        exact .of_formed dropped trivial nofun
  | mapPhysical =>
    simp only [dpmiMemoryMachine, DpmiMemory.mapPhysical]
    split
    · next slot virtualBase pageCount linear found layout =>
        obtain ⟨lower, upper⟩ := layout_spec layout
        refine .of_formed (formed.setMapping ?_ lower (by omega)) trivial nofun
        rintro _ ⟨⟩
        exact ⟨le_rfl, upper⟩
    · exact .of_formed formed trivial fun _ => rfl
  | unmapPhysical =>
    simp only [dpmiMemoryMachine, DpmiMemory.unmapPhysical]
    split
    · exact .of_formed formed trivial fun _ => rfl
    · exact .of_formed (formed.setMapping nofun formed.physNext.1 le_rfl) trivial nofun

end DpmiMemory

theorem run_law_iff {ems : EmsState} (apart : ems.PagesApart)
    (reach : ems.InReach) {calls : List MemoryCall} :
    (∀ move ∈ dpmiMemoryMachine.run (DpmiMemory.enter ems) calls, MemoryLaw move) ↔
      dpmiMemoryMachine.Meets DpmiMemory.Fits (DpmiMemory.enter ems)
        calls := by
  have step :
      ∀ (memory : DpmiMemory) (call : MemoryCall), memory.Formed →
        memory.Fits call → (dpmiMemoryMachine memory call).2.Formed :=
    fun _ call formed => (formed.settles call).1
  exact Machine.forall_run_iff_meets step (fun _ call formed => (formed.settles call).2)
    (DpmiMemory.formed_enter apart reach)

/-- Expanded memory as a DPMI client finds it after calls of INT 67h. -/
def emsAtEntry (basePage : Nat) (pages : GuestPages) (requests : List EmsCall) : EmsState :=
  ((emsMachine basePage).final ⟨.new, pages⟩ requests).ems

/--
All live memory is apart when a client enters, and a run keeps it apart and in
its place and fails without a trace, exactly when the pages of expanded memory
are apart and every call has room.
-/
theorem dpmi_memory_apart (basePage : Nat) (pages : GuestPages)
    (requests : List EmsCall) (calls : List MemoryCall) :
    ((DpmiMemory.enter (emsAtEntry basePage pages requests)).RangesApart ∧
        ∀ move ∈ dpmiMemoryMachine.run
            (DpmiMemory.enter (emsAtEntry basePage pages requests)) calls,
          MemoryLaw move) ↔
      (emsAtEntry basePage pages requests).PagesApart ∧
        dpmiMemoryMachine.Meets DpmiMemory.Fits
          (DpmiMemory.enter (emsAtEntry basePage pages requests)) calls := by
  rw [DpmiMemory.rangesApart_enter]
  apply and_congr_right
  intro apart
  exact run_law_iff apart (final_inReach basePage pages requests)

section Runs

def firstHandle : Fin maxEmsHandles := ⟨0, by decide⟩

def firstBlock : Fin maxMemBlocks := ⟨0, by decide⟩

/-- Ask for a number of pages of expanded memory. -/
def emsAllocateCall (count : Nat) : EmsCall where
  regs := { rax := 0x4300, rbx := count }
  dpmi := false

def allocateCall (size : Nat) : MemoryCall where
  function := .allocate
  regs := { rbx := size / 2 ^ 16, rcx := size % 2 ^ 16 }

def resizeCall (handle size : Nat) : MemoryCall where
  function := .resize
  regs :=
    { rbx := size / 2 ^ 16, rcx := size % 2 ^ 16, rsi := handle / 2 ^ 16, rdi := handle % 2 ^ 16 }

/-- A guest whose memory holds zeros only. -/
def blankPages : GuestPages := fun _ _ => 0

theorem not_rangesApart {memory : DpmiMemory} (first second : Holder)
    (region other : Region) (ofFirst : memory.range first = some region)
    (ofSecond : memory.range second = some other) (distinct : first ≠ second)
    (meet : ¬ region.Apart other) :
    ¬ memory.RangesApart := by
  intro apart
  apply meet
  apply Region.disjoint_extent_iff.mp
  exact apart first second region other distinct ofFirst ofSecond

theorem pagesApart_new : EmsState.new.PagesApart := by
  intro handle another index other page shown _ live _
  cases live

/--
A first block over a page of expanded memory, a block grown over the next one,
a block that reaches into the window of the mappings, and expanded memory that
hands out its first page twice.
-/
theorem dpmi_memory_collides :
    (¬ ∀ move ∈ dpmiMemoryMachine.run
          (DpmiMemory.enter (emsAtEntry 0xE0 blankPages [emsAllocateCall 1]))
          [allocateCall 0x1000],
        MemoryLaw move) ∧
      (¬ ∀ move ∈ dpmiMemoryMachine.run (DpmiMemory.enter (emsAtEntry 0xE0 blankPages []))
          [allocateCall 0x1000, allocateCall 0x1000, resizeCall 0x500000 0x2000],
        MemoryLaw move) ∧
      (¬ ∀ move ∈ dpmiMemoryMachine.run (DpmiMemory.enter (emsAtEntry 0xE0 blankPages []))
          [allocateCall 0xA0000000],
        MemoryLaw move) ∧
      ¬ (DpmiMemory.enter (emsAtEntry 0xE0 blankPages [emsAllocateCall 1, emsAllocateCall 0xFFFF,
              emsAllocateCall 1])).RangesApart := by
  refine ⟨fun law => ?_, fun law => ?_, fun law => ?_, ?_⟩
  · have apart := (law _ List.mem_cons_self).apart
    revert apart
    exact not_rangesApart (.block firstBlock) (.page firstHandle 0)
      ⟨0x500000, 0x1000⟩ ⟨0x500000, 0x4000⟩
      (by decide +kernel) (by decide +kernel) (by decide) (by decide)
  · exact absurd ((run_law_iff pagesApart_new .new).mp law) (by decide +kernel)
  · exact absurd ((run_law_iff pagesApart_new .new).mp law) (by decide +kernel)
  · exact not_rangesApart (.page firstHandle 0) (.page ⟨2, by decide⟩ 0)
      ⟨0x500000, 0x4000⟩ ⟨0x500000, 0x4000⟩
      (by decide +kernel) (by decide +kernel) (by decide) (by decide)

/-- A block grown in its room, a second block above it, and a mapping. -/
theorem orderly_client_apart :
    dpmiMemoryMachine.Meets DpmiMemory.Fits (DpmiMemory.enter (emsAtEntry 0xE0 blankPages []))
        [allocateCall 0x1234, resizeCall 0x500000 0x3000, allocateCall 0x10,
          ⟨.mapPhysical, { rbx := 0xE000, rsi := 0x10 }⟩] ∧
      ∀ move ∈ dpmiMemoryMachine.run (DpmiMemory.enter (emsAtEntry 0xE0 blankPages []))
          [allocateCall 0x1234, resizeCall 0x500000 0x3000, allocateCall 0x10,
            ⟨.mapPhysical, { rbx := 0xE000, rsi := 0x10 }⟩],
        MemoryLaw move := by
  refine (and_iff_left_of_imp fun fits => ?_).mpr (by decide +kernel)
  exact ((dpmi_memory_apart 0xE0 blankPages [] _).mpr ⟨pagesApart_new, fits⟩).2

end Runs

end RetroOS.Dos
