import Mathlib.Data.BitVec

/-!
# Copy-on-write faults of the metal backend

A page-table entry is a word with flag bits and a frame number.  A write to a
page whose entry is present, not hardware-writable and not read-only by
software is resolved by `cowEntry`: a frame with one owner becomes writable,
any other frame is copied, and the entry is built anew from the new frame
number and the user bit.

The words of a frame are entries of the same width, so one view serves data
pages and page tables.  A page table is copied with its own frames shared:
each entry that owns a frame loses its hardware write bit in both copies.

The rebuilt entry drops every other bit, the no-execute bit among them;
`cow_keeps_entry_iff` says exactly when a fault keeps the entry and the
contents of its frame.
-/

namespace RetroOS.Metal

open Function (update update_self)

/-! ## Entries -/

/-- Entries of 32 bits (legacy paging) or of 64 bits (PAE and long mode). -/
inductive Format where
  | legacy
  | pae
  deriving DecidableEq

namespace Format

def width : Format → Nat
  | legacy => 32
  | pae => 64

/-- The frame number stands in the bits from 12 to here. -/
def frameEnd : Format → Nat
  | legacy => 32
  | pae => 52

def entriesPerPage (format : Format) : Nat := 4096 / (format.width / 8)

end Format

abbrev Entry (format : Format) : Type := BitVec format.width

def presentBit : Nat := 0
def readWriteBit : Nat := 1
def userBit : Nat := 2
def cacheDisableBit : Nat := 4
def accessedBit : Nat := 5
def dirtyBit : Nat := 6
def softRoBit : Nat := 9
def redirectedAliasBit : Nat := 10
def foreignBit : Nat := 11

namespace Entry

variable {format : Format} (entry : Entry format)

/-- The frame number. -/
def page : Nat := (entry.extractLsb' 12 (format.frameEnd - 12)).toNat

def has (bit : Nat) : Bool := entry.getLsbD bit

def setFlag (bit : Nat) (value : Bool) : Entry format :=
  if value then entry ||| BitVec.twoPow format.width bit
  else entry &&& ~~~BitVec.twoPow format.width bit

def new (page : Nat) (hwWritable user : Bool) : Entry format :=
  setFlag (setFlag (BitVec.ofNat format.width page <<< 12 ||| BitVec.twoPow format.width presentBit)
    readWriteBit hwWritable) userBit user

/-- The address space that maps the frame owns it. -/
def ownsFrame : Bool :=
  has entry presentBit &&
    (has entry redirectedAliasBit || !(has entry cacheDisableBit || has entry foreignBit))

variable {entry}

theorem has_setFlag {bit other : Nat} (inside : other < format.width) (value : Bool) :
    has (setFlag entry bit value) other = if other = bit then value else has entry other := by
  unfold has setFlag
  by_cases same : bit = other
  · subst same
    cases value <;> simp [inside]
  · cases value <;> simp [inside, Ne.symm same]

theorem has_new {bit : Nat} (inside : bit < format.width) (page : Nat) (hwWritable user : Bool) :
    has (new page hwWritable user : Entry format) bit =
      if bit = userBit then user
      else if bit = readWriteBit then hwWritable
      else (!decide (bit < 12) && page.testBit (bit - 12)) || decide (bit = presentBit) := by
  rw [new, has_setFlag inside, has_setFlag inside]
  have below : bit - 12 < format.width := by omega
  have positive : presentBit < format.width := Nat.zero_lt_of_lt inside
  have shifted : has
      (BitVec.ofNat format.width page <<< 12 ||| BitVec.twoPow format.width presentBit : Entry format)
        bit =
        ((!decide (bit < 12) && page.testBit (bit - 12)) || decide (bit = presentBit)) := by
    unfold has
    rw [BitVec.getLsbD_or, BitVec.getLsbD_shiftLeft, BitVec.getLsbD_ofNat, BitVec.getLsbD_twoPow,
      decide_eq_true inside, decide_eq_true below, decide_eq_true positive]
    simp [eq_comm (a := presentBit)]
  rw [shifted]

theorem frame_inside {bit : Nat} (below : bit < format.frameEnd - 12) : 12 + bit < format.width := by
  cases format <;> simp only [Format.frameEnd, Format.width] at * <;> omega

theorem page_setFlag {bit : Nat} (low : bit < 12) (value : Bool) :
    page (setFlag entry bit value) = page entry := by
  unfold page
  congr 1
  refine BitVec.eq_of_getLsbD_eq fun index below => ?_
  rw [BitVec.getLsbD_extractLsb', BitVec.getLsbD_extractLsb']
  congr 1
  exact (has_setFlag (frame_inside below) value).trans (if_neg (by omega))

theorem page_new {page : Nat} (small : page < 2 ^ (format.frameEnd - 12)) (hwWritable user : Bool) :
    Entry.page (new page hwWritable user : Entry format) = page := by
  have same : (new page hwWritable user : Entry format).extractLsb' 12 (format.frameEnd - 12) =
      BitVec.ofNat _ page := by
    refine BitVec.eq_of_getLsbD_eq fun bit below => ?_
    rw [BitVec.getLsbD_extractLsb', decide_eq_true below, Bool.true_and, BitVec.getLsbD_ofNat,
      decide_eq_true below, Bool.true_and]
    refine (has_new (frame_inside below) page hwWritable user).trans ?_
    rw [if_neg (by simp only [userBit]; omega), if_neg (by simp only [readWriteBit]; omega)]
    simp [presentBit]
  rw [Entry.page, same, BitVec.toNat_ofNat, Nat.mod_eq_of_lt small]

end Entry

/-! ## Frames -/

def maxPages : Nat := 64 * 1024

/-- The count of a frame that is never given out. -/
def reserved : Nat := 255

/-- The entry at fault, the words of all frames and the counts of the allocator. -/
structure Machine (format : Format) where
  entry : Entry format
  frames : Nat → Nat → Entry format
  refs : Nat → Nat
  nextFree : Nat
  zeroPage : Nat

namespace Machine

variable {format : Format} (machine : Machine format)

def refCount (page : Nat) : Nat :=
  if page = machine.zeroPage then reserved
  else if maxPages ≤ page then reserved
  else machine.refs page

/-- Search for a free frame; `fuel` bounds the rounds, a wrap to the start ends them. -/
def searchFree (start : Nat) : (fuel page : Nat) → Option Nat
  | 0, _ => none
  | fuel + 1, page =>
    let page := if maxPages ≤ page then 256 else page
    if machine.refs page = 0 then some page
    else if page + 1 = start then none
    else searchFree start fuel (page + 1)

def allocPhysPage : Option (Nat × Machine format) := do
  let page ← machine.searchFree machine.nextFree (2 * maxPages) machine.nextFree
  return (page, { machine with refs := update machine.refs page 1, nextFree := page + 1 })

/-- Drop a reference; an invalid or free frame is a panic. -/
def freePhysPage (page : Nat) : Option (Machine format) :=
  if maxPages ≤ page then none
  else if page = machine.zeroPage then some machine
  else if machine.refs page = 0 then none
  else if machine.refs page = reserved then some machine
  else some { machine with refs := update machine.refs page (machine.refs page - 1) }

/-- Count one more owner; the last count before `reserved` is a panic. -/
def incSharedCount (page : Nat) : Option (Machine format) :=
  if page = machine.zeroPage ∨ maxPages ≤ page then some machine
  else if machine.refs page = 0 ∨ machine.refs page = reserved then some machine
  else if machine.refs page + 1 = reserved then none
  else some { machine with refs := update machine.refs page (machine.refs page + 1) }

/-- What both tables hold for an entry of a shared table. -/
def shareEntry (entry : Entry format) : Entry format :=
  if entry.ownsFrame then entry.setFlag readWriteBit false else entry

/-- Count the frame of an entry, when the entry owns it. -/
def countOwner (entry : Entry format) : Option (Machine format) :=
  if entry.ownsFrame then machine.incSharedCount entry.page else some machine

/-- Count the frames that the entries of a table own, from an index on. -/
def countShared (table : Nat → Entry format) : (left index : Nat) → Machine format →
    Option (Machine format)
  | 0, _, machine => some machine
  | left + 1, index, machine => do
    let machine ← machine.countOwner (table index)
    countShared table left (index + 1) machine

/-- Copy a page table into a fresh frame; both tables share what they point to. -/
def shareAndCopy (old fresh : Nat) : Option (Machine format) := do
  let table := machine.frames old
  let machine ← countShared table format.entriesPerPage 0 machine
  let shared := fun index => shareEntry (table index)
  return { machine with frames := update (update machine.frames old shared) fresh shared }

/-- Resolve a write fault at a leaf entry or at the entry of a page table. -/
def cowEntry (leaf : Bool) : Option (Machine format) :=
  let old := machine.entry.page
  if machine.refCount old = 1 then
    some { machine with entry := machine.entry.setFlag readWriteBit true }
  else do
    let user := machine.entry.has userBit
    let (fresh, machine) ← machine.allocPhysPage
    let outgoing := machine.entry
    if leaf then
      let machine := { machine with
        frames := update machine.frames fresh (machine.frames old)
        entry := Entry.new fresh true user }
      if outgoing.ownsFrame then machine.freePhysPage old else some machine
    else do
      let machine ← { machine with entry := Entry.new fresh true user }.shareAndCopy old fresh
      machine.freePhysPage old

/-- The faults that reach `cowEntry`: present, and writable by software only. -/
def Faults : Prop :=
  machine.entry.has presentBit = true ∧ machine.entry.has readWriteBit = false ∧
    machine.entry.has softRoBit = false

instance : Decidable machine.Faults := inferInstanceAs (Decidable (_ ∧ _))

/-- Bits that a fault may change: the frame number, the write bit, accessed and dirty. -/
def MayChange (format : Format) (bit : Nat) : Prop :=
  bit = readWriteBit ∨ bit = accessedBit ∨ bit = dirtyBit ∨ (12 ≤ bit ∧ bit < format.frameEnd)

instance (format : Format) (bit : Nat) : Decidable (MayChange format bit) :=
  inferInstanceAs (Decidable (_ ∨ _))

/-- The entry keeps its other bits, and its frame holds the same words. -/
structure Keeps (before after : Machine format) : Prop where
  bits : ∀ bit < format.width, ¬ MayChange format bit → after.entry.has bit = before.entry.has bit
  words : ∀ index < format.entriesPerPage,
    after.frames after.entry.page index = before.frames before.entry.page index

section Kept

variable {machine}

theorem searchFree_lt {start fuel page found : Nat}
    (ok : machine.searchFree start fuel page = some found) : found < maxPages := by
  induction fuel generalizing page with
  | zero => cases ok
  | succ fuel induction =>
    simp only [searchFree] at ok
    split_ifs at ok with wrapped free last
    all_goals
      first
      | exact induction ok
      | cases ok
        first
        | decide
        | omega

theorem freePhysPage_keeps {page : Nat} {after : Machine format}
    (ok : machine.freePhysPage page = some after) :
    after.entry = machine.entry ∧ after.frames = machine.frames := by
  unfold freePhysPage at ok
  split_ifs at ok <;> cases ok <;> exact ⟨rfl, rfl⟩

theorem countShared_keeps {table : Nat → Entry format} {left index : Nat} {after : Machine format}
    (ok : countShared table left index machine = some after) :
    after.entry = machine.entry ∧ after.frames = machine.frames := by
  induction left generalizing index machine with
  | zero =>
    cases ok
    exact ⟨rfl, rfl⟩
  | succ left induction =>
    unfold countShared at ok
    obtain ⟨next, counted, ok⟩ := Option.bind_eq_some_iff.mp ok
    have kept : next.entry = machine.entry ∧ next.frames = machine.frames := by
      unfold countOwner incSharedCount at counted
      split_ifs at counted <;> cases counted <;> exact ⟨rfl, rfl⟩
    obtain ⟨entry, frames⟩ := induction ok
    exact ⟨entry.trans kept.1, frames.trans kept.2⟩

/-- A copied frame: the entry is new, and its words are shared or the old ones. -/
theorem cowEntry_copied {leaf : Bool} {after : Machine format}
    (shared : machine.refCount machine.entry.page ≠ 1) (ok : machine.cowEntry leaf = some after) :
    ∃ fresh < maxPages, after.entry = Entry.new fresh true (machine.entry.has userBit) ∧
      after.frames fresh = if leaf then machine.frames machine.entry.page
        else fun index => shareEntry (machine.frames machine.entry.page index) := by
  simp only [cowEntry, if_neg shared] at ok
  obtain ⟨⟨fresh, next⟩, allocated, ok⟩ := Option.bind_eq_some_iff.mp ok
  obtain ⟨found, searched, made⟩ := Option.bind_eq_some_iff.mp allocated
  cases made
  refine ⟨fresh, searchFree_lt searched, ?_⟩
  cases leaf with
  | true =>
    simp only [if_true] at ok ⊢
    split_ifs at ok
    · obtain ⟨entry, frames⟩ := freePhysPage_keeps ok
      rw [entry, frames]
      exact ⟨rfl, update_self ..⟩
    · cases ok
      exact ⟨rfl, update_self ..⟩
  | false =>
    obtain ⟨copied, made, ok⟩ := Option.bind_eq_some_iff.mp ok
    obtain ⟨entry, frames⟩ := freePhysPage_keeps ok
    obtain ⟨counted, counts, made⟩ := Option.bind_eq_some_iff.mp made
    obtain ⟨same, -⟩ := countShared_keeps counts
    cases made
    rw [entry, frames]
    exact ⟨same, update_self ..⟩

theorem shareEntry_eq_iff {entry : Entry format} :
    shareEntry entry = entry ↔ ¬ (entry.ownsFrame = true ∧ entry.has readWriteBit = true) := by
  unfold shareEntry
  split_ifs with owned
  · have inside : readWriteBit < format.width := by cases format <;> decide
    rw [owned]
    constructor
    · rintro same ⟨-, writable⟩
      rw [← same, Entry.has_setFlag inside] at writable
      simp at writable
    · intro clear
      refine BitVec.eq_of_getLsbD_eq fun bit below => (Entry.has_setFlag below false).trans ?_
      split_ifs with same
      · subst same
        exact (by simpa using clear : entry.has readWriteBit = false).symm
      · rfl
  · simp [owned]

/--
A fault keeps the entry and the contents of its frame exactly when the frame
has one owner, or the entry has no bit beside present, user, accessed and
dirty and the frame is a data page or a table without an owned writable entry.
-/
theorem cow_keeps_entry_iff {leaf : Bool} {after : Machine format} (faults : machine.Faults)
    (ok : machine.cowEntry leaf = some after) :
    Keeps machine after ↔
      machine.refCount machine.entry.page = 1 ∨
        (∀ bit < format.width, ¬ MayChange format bit → bit ≠ presentBit → bit ≠ userBit →
          machine.entry.has bit = false) ∧
        (leaf = true ∨ ∀ index < format.entriesPerPage,
          ¬ ((machine.frames machine.entry.page index).ownsFrame = true ∧
            (machine.frames machine.entry.page index).has readWriteBit = true)) := by
  by_cases sole : machine.refCount machine.entry.page = 1
  · simp only [cowEntry, if_pos sole] at ok
    cases ok
    refine iff_of_true ⟨fun bit inside kept => ?_, fun index _ => ?_⟩ (.inl sole)
    · have apart : bit ≠ readWriteBit := fun same => kept (.inl same)
      rw [Entry.has_setFlag inside, if_neg apart]
    · rw [Entry.page_setFlag (by decide)]
  · obtain ⟨fresh, small, entry, words⟩ := cowEntry_copied sole ok
    have fits : fresh < 2 ^ (format.frameEnd - 12) :=
      lt_of_lt_of_le small (by cases format <;> decide)
    have page : after.entry.page = fresh := by rw [entry, Entry.page_new fits]
    have bit_new {bit : Nat} (inside : bit < format.width) (kept : ¬ MayChange format bit) :
        after.entry.has bit = if bit = userBit then machine.entry.has userBit
          else decide (bit = presentBit) := by
      simp only [MayChange, not_or, not_and, not_lt] at kept
      have framed : (!decide (bit < 12) && fresh.testBit (bit - 12)) = false := by
        by_cases low : bit < 12
        · simp [low]
        · have beyond := kept.2.2.2 (Nat.le_of_not_lt low)
          have above : fresh < 2 ^ (bit - 12) :=
            lt_of_lt_of_le fits (Nat.pow_le_pow_right (by decide) (by omega))
          simp [Nat.testBit_lt_two_pow above]
      rw [entry, Entry.has_new inside, if_neg kept.1, framed, Bool.false_or]
    rw [or_iff_right sole]
    constructor
    · intro keeps
      refine ⟨fun bit inside kept apart own => ?_, ?_⟩
      · have same := keeps.bits bit inside kept
        rw [bit_new inside kept, if_neg own, decide_eq_false apart] at same
        exact same.symm
      · cases leaf with
        | true => exact .inl rfl
        | false =>
          refine .inr fun index inside => shareEntry_eq_iff.mp ?_
          have same := keeps.words index inside
          rw [page, words] at same
          exact same
    · rintro ⟨plain, contents⟩
      refine ⟨fun bit inside kept => ?_, fun index inside => ?_⟩
      · rw [bit_new inside kept]
        split_ifs with own
        · rw [own]
        · by_cases present : bit = presentBit
          · rw [decide_eq_true present, present, faults.1]
          · rw [decide_eq_false present, plain bit inside kept present own]
      · rw [page, words]
        cases leaf with
        | true => rfl
        | false => exact shareEntry_eq_iff.mpr (contents.resolve_left (by decide) index inside)

end Kept

/-! ## Two write faults -/

/-- A user page without the no-execute bit, or with it, on the shared zero page. -/
def onZeroPage (noExecute : Bool) : Machine .pae where
  entry := Entry.setFlag (Entry.new 300 false true) 63 noExecute
  frames := fun _ _ => 0
  refs := fun _ => 0
  nextFree := 512
  zeroPage := 300

/-- A page that may be executed keeps its bits when it is copied. -/
theorem executable_page_kept :
    ∃ after, (onZeroPage false).cowEntry true = some after ∧ Keeps (onZeroPage false) after := by
  refine ⟨_, rfl, (cow_keeps_entry_iff (by decide +kernel) rfl).mpr (.inr ⟨?_, .inl rfl⟩)⟩
  intro bit inside
  revert bit
  decide +kernel

/-- A page that must not be executed can be executed after the first write. -/
theorem no_execute_lost :
    ∃ after, (onZeroPage true).Faults ∧ (onZeroPage true).cowEntry true = some after ∧
      (onZeroPage true).entry.has 63 = true ∧ after.entry.has 63 = false ∧
      ¬ Keeps (onZeroPage true) after := by
  refine ⟨_, by decide +kernel, rfl, by decide +kernel, by decide +kernel, fun keeps => ?_⟩
  have kept := keeps.bits 63 (by decide) (by decide)
  revert kept
  decide +kernel

end Machine

end RetroOS.Metal
