import RetroOS.Linux.Elf

/-!
# What loading an executable leaves in memory

A loaded image stays below the kernel and inside the segments of the file,
holds at every segment the bytes of the file and then zeros, and gives each
page the rights of all segments that touch it: `Loads`.

The loader checks none of this.  Where headers overlap, the last one decides
a byte, and the last one, executable ones counted last, decides the rights of
a page.  `LoadsWhen` says of the headers and of the guest before the load
when that comes out right, and `load_elf_iff` that it does so in just these
cases.
-/

namespace RetroOS.Linux

open Lib Lib.Bytes
open Kernel

/-- Where the kernel starts. -/
structure KernelBase where
  page : Nat
  fits : page * pageSize < 2 ^ 32

/-- The first address of the kernel. -/
def KernelBase.addr (kernel : KernelBase) : Nat := kernel.page * pageSize

theorem KernelBase.addr_lt (kernel : KernelBase) (width : PointerWidth) :
    kernel.addr < 2 ^ width.bits :=
  kernel.fits.trans_le (by cases width <;> decide)

theorem KernelBase.page_lt {kernel : KernelBase} {address : Nat}
    (below : address < kernel.addr) : address / pageSize < kernel.page :=
  Nat.div_lt_of_lt_mul (by rwa [Nat.mul_comm])

/-- The headers of the loadable segments of a file. -/
def fileHeaders (width : PointerWidth) (file : Bytes) : List ProgramHeader :=
  match Elf.parse file with
  | .error _ => []
  | .ok elf => (elf.loadHeaders width).getD []

namespace ProgramHeader

/-- The addresses a segment is meant to have. -/
def range (header : ProgramHeader) (bias : Nat) : Region where
  addr := header.vaddr + bias
  size := header.memsz

def Touches (header : ProgramHeader) (bias page : Nat) : Prop :=
  ∃ address ∈ (header.range bias).extent, address / pageSize = page

/-- The byte a segment is meant to hold: of the file, and then zero. -/
def fileByte (file : Bytes) (header : ProgramHeader) (index : Nat) : Option UInt8 :=
  if index < header.filesz then file[header.off + index]? else some 0

theorem mem_range {header : ProgramHeader} {bias address : Nat} :
    address ∈ (header.range bias).extent ↔
      header.vaddr + bias ≤ address ∧ address < header.vaddr + bias + header.memsz :=
  Region.mem_extent

end ProgramHeader

/-- The rights of all segments that touch a page. -/
structure UnionOn (headers : List ProgramHeader) (bias page : Nat)
    (rights : Rights) : Prop where
  writable :
    rights.writable = true ↔ ∃ header ∈ headers, header.Touches bias page ∧ header.isWritable
  executable :
    rights.executable = true ↔ ∃ header ∈ headers, header.Touches bias page ∧ header.isExecutable

/-- What a load may do, and what it has to leave. -/
structure Loads (kernel : KernelBase) (file : Bytes) (bias : Nat)
    (guest : Guest) (headers : List ProgramHeader) (calls : List ArchCall) :
    Prop where
  written :
    ∀ call ∈ calls, ∀ address, (call.byteAt address).isSome →
      address < kernel.addr ∧ ∃ header ∈ headers, address ∈ (header.range bias).extent
  flagged :
    ∀ call ∈ calls, ∀ page, (call.rightsOn page).isSome →
      page < kernel.page ∧ ∃ header ∈ headers, header.Touches bias page
  contents :
    ∀ header ∈ headers, ∀ index < header.memsz, header.vaddr + bias + index < kernel.addr ∧
        some ((guest.applyAll calls).bytes (header.vaddr + bias + index)) =
          header.fileByte file index
  rights :
    ∀ page, (∃ header ∈ headers, header.Touches bias page) →
      UnionOn headers bias page ((guest.applyAll calls).rights page)

/-! ## What the headers say -/

section Headers

variable (width : PointerWidth) (file : Bytes) (bias : Nat)

namespace ProgramHeader

/-- The byte that the load of a header puts at an address. -/
def puts (header : ProgramHeader) (address : Nat) : Option UInt8 :=
  (header.segment width file).data.bind fun data =>
    if (header.segment width file).place width bias ≤ address ∧
        address < (header.segment width file).place width bias +
          max data.length (header.segment width file).memsz then
      some (data.getD (address - (header.segment width file).place width bias) 0)
    else none

/-- The rights that the load of a header gives a page. -/
def marks (header : ProgramHeader) (page : Nat) : Option Rights :=
  if (header.segment width file).startPage width bias ≤ page ∧
      page < divCeil ((header.segment width file).place width bias +
        (header.segment width file).memsz) then
    some { writable := header.isWritable, executable := header.isExecutable }
  else none

end ProgramHeader

/-- Executable headers come last. -/
def markOrder (headers : List ProgramHeader) : List ProgramHeader :=
  headers.filter (!·.isExecutable) ++ headers.filter (·.isExecutable)

/-- A page is there before the load, or gets a byte from it. -/
def PagePresent (guest : Guest) (headers : List ProgramHeader) (page : Nat) : Prop :=
  (guest.entries page).isSome ∨
    ∃ header ∈ headers, ∃ address, address / pageSize = page ∧
      (header.puts width file bias address).isSome

/-- When a file loads as it should. -/
structure LoadsWhen (kernel : KernelBase) (guest : Guest)
    (headers : List ProgramHeader) : Prop where
  low : ∀ header ∈ headers, 0 < header.memsz → header.vaddr + bias + header.memsz ≤ kernel.addr
  surplus :
    ∀ header ∈ headers, ∀ address, (header.puts width file bias address).isSome →
        (header.segment width file).place width bias + header.memsz ≤ address →
          ∃ other ∈ headers, address ∈ (other.range bias).extent
  hollow :
    ∀ header ∈ headers, header.memsz = 0 →
      ∀ page, (header.marks width file bias page).isSome →
        ∃ other ∈ headers, other.Touches bias page
  lastByte :
    ∀ header ∈ headers, ∀ index < header.memsz,
      some ((topmost (ProgramHeader.puts width file bias) headers
          (header.vaddr + bias + index)).getD
        (guest.bytes (header.vaddr + bias + index))) =
        header.fileByte file index
  lastRights :
    ∀ page, (∃ header ∈ headers, header.Touches bias page) →
      PagePresent width file bias guest headers page →
        UnionOn headers bias page ((topmost (ProgramHeader.marks width file bias)
            (markOrder headers) page).getD .demanded)
  absentRights :
    ∀ page, (∃ header ∈ headers, header.Touches bias page) →
      ¬ PagePresent width file bias guest headers page → UnionOn headers bias page .demanded

end Headers

/-! ## The calls of one header -/

variable {page : Nat}

section Calls

variable (width : PointerWidth) (file : Bytes) {bias : Nat}
    {kernel : KernelBase} {header : ProgramHeader}

/-- A segment that ends below the kernel is loaded where it should be. -/
theorem place_eq (some : 0 < header.memsz)
    (low : header.vaddr + bias + header.memsz ≤ kernel.addr) :
    (header.segment width file).place width bias = header.vaddr + bias := by
  have limit := kernel.addr_lt width
  have vaddr : header.vaddr % 2 ^ width.bits = header.vaddr := Nat.mod_eq_of_lt (by omega)
  simp only [Segment.place, ProgramHeader.segment, vaddr]
  exact Nat.mod_eq_of_lt (by omega)

variable (low : 0 < header.memsz → header.vaddr + bias + header.memsz ≤ kernel.addr)

include low

/-- No sum wraps where a segment is empty or ends below the kernel. -/
theorem stop_eq :
    (header.segment width file).memsz = header.memsz ∧
      (header.segment width file).place width bias + header.memsz < 2 ^ width.bits := by
  have limit := kernel.addr_lt width
  rcases Nat.eq_zero_or_pos header.memsz with empty | some
  · have small : (header.segment width file).place width bias <
        2 ^ width.bits := Nat.mod_lt _ (Nat.two_pow_pos _)
    exact ⟨by simp [ProgramHeader.segment, empty], by omega⟩
  · have below := low some
    refine ⟨Nat.mod_eq_of_lt (by omega), ?_⟩
    rw [place_eq width file some below]
    omega

/-- The first pass puts the bytes of the header. -/
theorem topmost_copyCalls (address : Nat) :
    topmost ArchCall.byteAt ((header.segment width file).copyCalls width bias) address =
      header.puts width file bias address := by
  obtain ⟨size, small⟩ := stop_eq width file low
  unfold Segment.copyCalls ProgramHeader.puts
  cases found : (header.segment width file).data with
  | none => rfl
  | some data =>
    rw [size]
    simp only [Option.bind_some]
    by_cases short : data.length < header.memsz
    · rw [if_pos short, Nat.mod_eq_of_lt (by omega)]
      simp only [topmost_cons, topmost_nil, ArchCall.byteAt]
      split_ifs <;> grind
    · rw [if_neg short]
      simp only [topmost_cons, topmost_nil, ArchCall.byteAt]
      split_ifs <;> grind

/-- The number of pages of a header, which does not wrap either. -/
theorem pageCount_eq :
    (header.segment width file).pageCount width bias =
      divCeil ((header.segment width file).place width bias + header.memsz) -
        (header.segment width file).startPage width bias := by
  obtain ⟨size, small⟩ := stop_eq width file low
  unfold Segment.pageCount Segment.stop Segment.startPage
  rw [size, Nat.mod_eq_of_lt small]
  generalize (header.segment width file).place width bias = place at small ⊢
  have wide : 1 < 2 ^ width.bits := by cases width <;> decide
  unfold divCeil pageSize
  rw [show (place + header.memsz + (0x1000 - 1)) / 0x1000 + (2 ^ width.bits - place / 0x1000) =
      (place + header.memsz + (0x1000 - 1)) / 0x1000 - place / 0x1000 + 2 ^ width.bits by omega,
    Nat.add_mod_right, Nat.mod_eq_of_lt (by omega)]

/-- The second pass marks the pages of the header. -/
theorem topmost_flagCalls (page : Nat) :
    topmost ArchCall.rightsOn ((header.segment width file).flagCalls width bias) page =
      header.marks width file bias page := by
  have count := pageCount_eq width file low
  obtain ⟨size, small⟩ := stop_eq width file low
  unfold Segment.flagCalls ProgramHeader.marks
  rw [count, size]
  split_ifs with some inside inside
  · simp only [topmost_cons, topmost_nil, ArchCall.rightsOn]
    rw [if_pos (by omega)]
    rfl
  · simp only [topmost_cons, topmost_nil, ArchCall.rightsOn]
    rw [if_neg (by omega)]
    rfl
  · omega
  · rfl

/-- A segment marks every page that it touches. -/
theorem marks_of_touches (touches : header.Touches bias page) :
    (header.marks width file bias page).isSome := by
  obtain ⟨address, inside, rfl⟩ := touches
  obtain ⟨lower, upper⟩ := ProgramHeader.mem_range.mp inside
  have some : 0 < header.memsz := by omega
  obtain ⟨size, small⟩ := stop_eq width file low
  unfold ProgramHeader.marks Segment.startPage divCeil pageSize
  rw [place_eq width file some (low some), size, if_pos (by omega)]
  rfl

/-- A segment that is not empty touches every page it marks. -/
theorem touches_of_marks (some : 0 < header.memsz)
    (marked : (header.marks width file bias page).isSome) :
    header.Touches bias page := by
  obtain ⟨size, small⟩ := stop_eq width file low
  unfold ProgramHeader.marks Segment.startPage divCeil pageSize at marked
  rw [place_eq width file some (low some), size] at marked
  split_ifs at marked with inside
  · refine ⟨max (header.vaddr + bias) (page * 0x1000), ?_, ?_⟩
    · refine Region.mem_extent.mpr ⟨le_max_left _ _, ?_⟩
      change max (header.vaddr + bias) (page * 0x1000) < header.vaddr + bias + header.memsz
      omega
    · unfold pageSize
      omega
  · cases marked

end Calls

/-! ## All calls of a load -/

section Guests

variable {guest : Guest} {calls : List ArchCall}

/-- The last call that puts a byte at an address decides it. -/
theorem bytes_applyAll (guest : Guest) (calls : List ArchCall) (address : Nat) :
    (guest.applyAll calls).bytes address =
      (topmost ArchCall.byteAt calls address).getD (guest.bytes address) := by
  rw [← foldl_overlay]
  induction calls generalizing guest with
  | nil => rfl
  | cons call rest induction => exact induction (guest.apply call)

/-- Calls that mark nothing make the pages present that they fill. -/
theorem entries_of_unmarked (unmarked : ∀ call ∈ calls, call.rightsOn page = none) :
    (guest.applyAll calls).entries page =
      if calls.any (·.fills page) then some ((guest.entries page).getD .demanded)
      else
        guest.entries page := by
  induction calls generalizing guest with
  | nil => rfl
  | cons call rest induction =>
    have here := unmarked call List.mem_cons_self
    have step : (guest.apply call).entries page =
        if call.fills page then some ((guest.entries page).getD .demanded)
        else
          guest.entries page := by
      simp [Guest.apply, here]
    change ((guest.apply call).applyAll rest).entries page = _
    rw [induction fun later member => unmarked later (List.mem_cons_of_mem _ member), step]
    by_cases fills : call.fills page <;>
      by_cases later : rest.any (·.fills page) <;> simp [fills, later]

/-- Calls that fill nothing mark the pages that are present. -/
theorem entries_of_unfilled (unfilled : ∀ call ∈ calls, call.fills page = false) :
    (guest.applyAll calls).entries page =
      (guest.entries page).map fun old =>
        (topmost ArchCall.rightsOn calls page).getD old := by
  induction calls generalizing guest with
  | nil => simp [Guest.applyAll, topmost]
  | cons call rest induction =>
    have here := unfilled call List.mem_cons_self
    have step : (guest.apply call).entries page =
        (guest.entries page).map fun old =>
          (call.rightsOn page).getD old := by
      simp [Guest.apply, here]
    change ((guest.apply call).applyAll rest).entries page = _
    rw [induction fun later member => unfilled later (List.mem_cons_of_mem _ member), step,
      topmost_cons, Option.map_map]
    congr 1
    funext old
    cases topmost ArchCall.rightsOn rest page <;> simp

end Guests

section Load

variable {width : PointerWidth} {file : Bytes} {bias : Nat} {headers : List ProgramHeader}

/-- The calls of the first pass, header by header. -/
def copyPass (width : PointerWidth) (file : Bytes) (bias : Nat) (headers : List ProgramHeader) :
    List ArchCall :=
  headers.flatMap fun header => (header.segment width file).copyCalls width bias

/-- The calls of the second pass. -/
def flagPass (width : PointerWidth) (file : Bytes) (bias : Nat) (headers : List ProgramHeader) :
    List ArchCall :=
  (markOrder headers).flatMap fun header => (header.segment width file).flagCalls width bias

theorem loadCalls_eq :
    loadCalls width (headers.map (·.segment width file)) bias =
      copyPass width file bias headers ++ flagPass width file bias headers := by
  have order : flagOrder (headers.map (·.segment width file)) =
      (markOrder headers).map (·.segment width file) := by
    simp only [flagOrder, markOrder, List.filter_map, List.map_append]
    rfl
  rw [loadCalls, order, List.flatMap_map, List.flatMap_map, copyPass, flagPass]

theorem mem_markOrder {header : ProgramHeader} : header ∈ markOrder headers ↔ header ∈ headers := by
  cases executable : header.isExecutable <;>
    simp [markOrder, executable]

theorem rightsOn_of_copyPass {call : ArchCall} (member : call ∈ copyPass width file bias headers)
    (page : Nat) : call.rightsOn page = none := by
  obtain ⟨header, _, made⟩ := List.mem_flatMap.mp member
  unfold Segment.copyCalls at made
  split at made
  · cases made
  · split_ifs at made <;> simp at made
    · rcases made with rfl | rfl <;> rfl
    · rw [made]
      rfl

theorem byteAt_of_flagPass {call : ArchCall} (member : call ∈ flagPass width file bias headers)
    (address : Nat) : call.byteAt address = none ∧ call.fills address = false := by
  obtain ⟨header, _, made⟩ := List.mem_flatMap.mp member
  unfold Segment.flagCalls at made
  split_ifs at made
  · rw [List.mem_singleton.mp made]
    exact ⟨rfl, rfl⟩
  · cases made

variable {kernel : KernelBase} {guest : Guest} (low :
      ∀ header ∈ headers, 0 < header.memsz → header.vaddr + bias + header.memsz ≤ kernel.addr)

include low

/-- The first pass puts the bytes of the headers. -/
theorem byteAt_copyPass (address : Nat) :
    topmost ArchCall.byteAt (copyPass width file bias headers) address =
      topmost (ProgramHeader.puts width file bias) headers address := by
  rw [copyPass, topmost_flatMap]
  exact topmost_congr fun header member => topmost_copyCalls width file (low header member) address

/-- The second pass marks their pages. -/
theorem rightsOn_flagPass (page : Nat) :
    topmost ArchCall.rightsOn (flagPass width file bias headers) page =
      topmost (ProgramHeader.marks width file bias) (markOrder headers) page := by
  rw [flagPass, topmost_flatMap]
  exact topmost_congr fun header member =>
    topmost_flagCalls width file (low header (mem_markOrder.mp member)) page

theorem byteAt_loadCalls (address : Nat) :
    topmost ArchCall.byteAt (loadCalls width (headers.map (·.segment width file)) bias) address =
      topmost (ProgramHeader.puts width file bias) headers address := by
  rw [loadCalls_eq, topmost_append, byteAt_copyPass low,
    topmost_eq_none fun _ member => (byteAt_of_flagPass member address).1, Option.none_or]

theorem rightsOn_loadCalls (page : Nat) :
    topmost ArchCall.rightsOn (loadCalls width (headers.map (·.segment width file)) bias) page =
      topmost (ProgramHeader.marks width file bias) (markOrder headers) page := by
  rw [loadCalls_eq, topmost_append, rightsOn_flagPass low,
    topmost_eq_none fun _ member => rightsOn_of_copyPass member page, Option.or_none]

/-- A load puts a byte where a header does. -/
theorem exists_byteAt_iff {address : Nat} :
    (∃ call ∈ loadCalls width (headers.map (·.segment width file)) bias,
        (call.byteAt address).isSome) ↔
      ∃ header ∈ headers, (header.puts width file bias address).isSome := by
  rw [← topmost_isSome, byteAt_loadCalls low, topmost_isSome]

/-- A load marks the pages that a header marks. -/
theorem exists_rightsOn_iff :
    (∃ call ∈ loadCalls width (headers.map (·.segment width file)) bias,
        (call.rightsOn page).isSome) ↔
      ∃ header ∈ headers, (header.marks width file bias page).isSome := by
  rw [← topmost_isSome, rightsOn_loadCalls low, topmost_isSome]
  simp only [mem_markOrder]

/-- After a load the last header that reaches a byte decides it. -/
theorem bytes_load (address : Nat) :
    (guest.applyAll (loadCalls width (headers.map (·.segment width file)) bias)).bytes address =
      (topmost (ProgramHeader.puts width file bias) headers address).getD
        (guest.bytes address) := by
  rw [bytes_applyAll, byteAt_loadCalls low]

/-- The page entries between the two passes. -/
theorem entries_load (page : Nat) :
    (guest.applyAll (loadCalls width (headers.map (·.segment width file)) bias)).entries page =
      ((guest.applyAll (copyPass width file bias headers)).entries page).map fun old =>
          (topmost (ProgramHeader.marks width file bias) (markOrder headers) page).getD old := by
  rw [loadCalls_eq, Guest.applyAll, List.foldl_append, ← rightsOn_flagPass low]
  exact entries_of_unfilled fun _ member => (byteAt_of_flagPass member page).2

/-- A page is filled in the first pass when a header puts a byte on it. -/
theorem any_fills_iff :
    (copyPass width file bias headers).any (·.fills page) = true ↔
      ∃ header ∈ headers, ∃ address, address / pageSize = page ∧
        (header.puts width file bias address).isSome := by
  have puts (address : Nat) :
      (∃ call ∈ copyPass width file bias headers, (call.byteAt address).isSome) ↔
        ∃ header ∈ headers, (header.puts width file bias address).isSome := by
    rw [← topmost_isSome, byteAt_copyPass low, topmost_isSome]
  simp only [List.any_eq_true, ArchCall.fills_iff]
  constructor
  · rintro ⟨call, member, address, here, found⟩
    obtain ⟨header, inside, put⟩ := (puts address).mp ⟨call, member, found⟩
    exact ⟨header, inside, address, here, put⟩
  · rintro ⟨header, inside, address, here, put⟩
    obtain ⟨call, member, found⟩ := (puts address).mpr ⟨header, inside, put⟩
    exact ⟨call, member, address, here, found⟩

omit low in
/-- The page entries after the first pass. -/
theorem entries_copied (page : Nat) :
    (guest.applyAll (copyPass width file bias headers)).entries page =
      if (copyPass width file bias headers).any (·.fills page) then
        some ((guest.entries page).getD .demanded)
      else guest.entries page :=
  entries_of_unmarked fun _ member => rightsOn_of_copyPass member page

/-- After a load the last header that marks a present page decides it. -/
theorem rights_present (touched : ∃ header ∈ headers, header.Touches bias page)
    (present : PagePresent width file bias guest headers page) :
    (guest.applyAll (loadCalls width (headers.map (·.segment width file)) bias)).rights page =
      (topmost (ProgramHeader.marks width file bias) (markOrder headers) page).getD .demanded := by
  obtain ⟨header, member, touches⟩ := touched
  have marked : (topmost (ProgramHeader.marks width file bias) (markOrder headers) page).isSome :=
    topmost_isSome.mpr ⟨header, mem_markOrder.mpr member,
      marks_of_touches width file (low header member) touches⟩
  obtain ⟨rights, top⟩ := Option.isSome_iff_exists.mp marked
  rw [Guest.rights, entries_load low, entries_copied, top]
  rcases present with there | filled
  · obtain ⟨old, known⟩ := Option.isSome_iff_exists.mp there
    simp [known]
  · rw [if_pos ((any_fills_iff low).mpr filled)]
    rfl

theorem rights_absent (absent : ¬ PagePresent width file bias guest headers page) :
    (guest.applyAll (loadCalls width (headers.map (·.segment width file)) bias)).rights
        page = .demanded := by
  obtain ⟨missing, unfilled⟩ := not_or.mp absent
  rw [Guest.rights, entries_load low, entries_copied, if_neg (mt (any_fills_iff low).mp unfilled),
    Option.not_isSome_iff_eq_none.mp missing]
  rfl

end Load

/-! ## The image -/

section Image

variable {width : PointerWidth} {file : Bytes} {bias : Nat}
    {headers : List ProgramHeader} {kernel : KernelBase} {guest : Guest}

theorem Loads.loadsWhen (loads :
      Loads kernel file bias guest headers
        (loadCalls width (headers.map (·.segment width file)) bias)) :
    LoadsWhen width file bias kernel guest headers := by
  have low : ∀ header ∈ headers, 0 < header.memsz →
      header.vaddr + bias + header.memsz ≤ kernel.addr := by
    intro header member some
    have last := (loads.contents header member (header.memsz - 1) (by omega)).1
    omega
  refine ⟨low, ?_, ?_, ?_, ?_, ?_⟩
  · intro header member address found _
    obtain ⟨call, call_mem, here⟩ := (exists_byteAt_iff low).mpr ⟨header, member, found⟩
    exact (loads.written call call_mem address here).2
  · intro header member _ page found
    obtain ⟨call, call_mem, here⟩ := (exists_rightsOn_iff low).mpr ⟨header, member, found⟩
    exact (loads.flagged call call_mem page here).2
  · intro header member index inside
    rw [← bytes_load low]
    exact (loads.contents header member index inside).2
  · intro page touched present
    rw [← rights_present low touched present]
    exact loads.rights page touched
  · intro page touched absent
    rw [← rights_absent low absent]
    exact loads.rights page touched

/-- An address of a segment lies below the kernel. -/
theorem LoadsWhen.below (when : LoadsWhen width file bias kernel guest headers)
    {header : ProgramHeader} (member : header ∈ headers) {address : Nat}
    (inside : address ∈ (header.range bias).extent) :
    address < kernel.addr := by
  obtain ⟨lower, upper⟩ := ProgramHeader.mem_range.mp inside
  have low := when.low header member (by omega)
  omega

theorem LoadsWhen.loads (when : LoadsWhen width file bias kernel guest headers) :
    Loads kernel file bias guest headers
      (loadCalls width (headers.map (·.segment width file)) bias) := by
  refine ⟨?_, ?_, ?_, ?_⟩
  · intro call call_mem address here
    obtain ⟨header, member, found⟩ := (exists_byteAt_iff when.low).mp ⟨call, call_mem, here⟩
    have covered : ∃ other ∈ headers, address ∈ (other.range bias).extent := by
      by_cases own : address < (header.segment width file).place width bias + header.memsz
      · have lower : (header.segment width file).place width bias ≤ address := by
          obtain ⟨byte, value⟩ := Option.isSome_iff_exists.mp found
          obtain ⟨data, _, value⟩ := Option.bind_eq_some_iff.mp value
          split_ifs at value with range
          exact range.1
        have some : 0 < header.memsz := by omega
        have place := place_eq width file some (when.low header member some)
        rw [place] at own lower
        exact ⟨header, member, Region.mem_extent.mpr ⟨lower, own⟩⟩
      · exact when.surplus header member address found (Nat.le_of_not_lt own)
    obtain ⟨other, listed, inside⟩ := covered
    exact ⟨when.below listed inside, other, listed, inside⟩
  · intro call call_mem page here
    obtain ⟨header, member, found⟩ := (exists_rightsOn_iff when.low).mp ⟨call, call_mem, here⟩
    have touched : ∃ other ∈ headers, other.Touches bias page := by
      rcases Nat.eq_zero_or_pos header.memsz with empty | some
      · exact when.hollow header member empty page found
      · exact ⟨header, member, touches_of_marks width file (when.low header member) some found⟩
    obtain ⟨other, listed, address, inside, rfl⟩ := touched
    exact ⟨KernelBase.page_lt (when.below listed inside), other, listed, address, inside, rfl⟩
  · intro header member index inside
    refine ⟨?_, ?_⟩
    · have low := when.low header member (by omega)
      omega
    · rw [bytes_load when.low]
      exact when.lastByte header member index inside
  · intro page touched
    by_cases present : PagePresent width file bias guest headers page
    · rw [rights_present when.low touched present]
      exact when.lastRights page touched present
    · rw [rights_absent when.low present]
      exact when.absentRights page touched present

end Image

/-- The calls of a load that succeeds are those of the file's headers. -/
theorem loadElf_loaded {width : PointerWidth} {file : Bytes} {bias : Nat}
    {info : LoadedElf} {calls : List ArchCall}
    (success : loadElf width file bias = .loaded info calls) :
    calls = loadCalls width ((fileHeaders width file).map (·.segment width file)) bias := by
  unfold loadElf at success
  unfold fileHeaders
  cases parsed : Elf.parse file with
  | error error => rw [parsed] at success; cases success
  | ok elf =>
    rw [parsed] at success
    dsimp only at success ⊢
    cases found : elf.loadHeaders width with
    | none => rw [found] at success; cases success
    | some headers =>
      rw [found] at success
      dsimp only at success
      split_ifs at success
      exact (LoadOutcome.loaded.inj success).2.symm

/-- A load that succeeds is right in just these cases. -/
theorem load_elf_iff (width : PointerWidth) (kernel : KernelBase)
    (file : Bytes) (bias : Nat) (guest : Guest) (info : LoadedElf)
    (calls : List ArchCall)
    (success : loadElf width file bias = .loaded info calls) :
    Loads kernel file bias guest (fileHeaders width file) calls ↔
      LoadsWhen width file bias kernel guest (fileHeaders width file) := by
  rw [loadElf_loaded success]
  exact ⟨Loads.loadsWhen, LoadsWhen.loads⟩

/-! ## Tidy files -/

/-- A segment with file bytes of its own, not more than it has room for. -/
structure ProgramHeader.Tidy (kernel : KernelBase) (file : Bytes) (bias : Nat)
    (header : ProgramHeader) : Prop where
  some : 0 < header.filesz
  room : header.filesz ≤ header.memsz
  inFile : header.off + header.filesz ≤ file.length
  low : header.vaddr + bias + header.memsz ≤ kernel.addr

section Tidy

variable {width : PointerWidth} {file : Bytes} {bias : Nat}
    {kernel : KernelBase} {header : ProgramHeader}

namespace ProgramHeader.Tidy

variable (tidy : header.Tidy kernel file bias)

include tidy

theorem pos : 0 < header.memsz := tidy.some.trans_le tidy.room

theorem fileByte_isSome (index : Nat) : (header.fileByte file index).isSome := by
  unfold fileByte
  split_ifs with early
  · have inFile := tidy.inFile
    rw [List.getElem?_eq_getElem (by omega)]
    rfl
  · rfl

/-- The file bytes of a tidy segment. -/
theorem segment_data (short : file.length < 2 ^ width.bits) :
    (header.segment width file).data = Option.some (slice file header.off header.filesz) := by
  have room := tidy.inFile
  have off : header.off % 2 ^ width.bits = header.off := Nat.mod_eq_of_lt (by omega)
  have size : header.filesz % 2 ^ width.bits = header.filesz := Nat.mod_eq_of_lt (by omega)
  have stop : header.fileEnd width = header.off + header.filesz := by
    rw [fileEnd, off, size, Nat.mod_eq_of_lt (by omega)]
  have taken : header.hasData width file = true := by
    unfold hasData
    rw [stop, size]
    exact decide_eq_true ⟨tidy.some, room⟩
  simp [segment, taken, stop, off]

/-- A tidy segment puts the bytes that it is meant to hold. -/
theorem puts_inside (short : file.length < 2 ^ width.bits) {index : Nat}
    (inside : index < header.memsz) :
    header.puts width file bias (header.vaddr + bias + index) = header.fileByte file index := by
  have place := place_eq width file tidy.pos tidy.low
  have size := (stop_eq width file fun _ => tidy.low).1
  have length : (slice file header.off header.filesz).length =
      header.filesz := length_slice_of_le tidy.inFile
  have room := tidy.room
  rw [puts, tidy.segment_data short, Option.bind_some, place, size, length,
    if_pos (by omega), Nat.add_sub_cancel_left, List.getD_eq_getElem?_getD]
  unfold fileByte
  by_cases early : index < header.filesz
  · have known : header.off + index < file.length := by
      have inFile := tidy.inFile
      omega
    rw [if_pos early, slice, List.getElem?_take_of_lt early,
      List.getElem?_drop, List.getElem?_eq_getElem known]
    rfl
  · rw [if_neg early, List.getElem?_eq_none (by omega)]
    rfl

/-- A tidy segment puts bytes into its own range only. -/
theorem range_of_puts (short : file.length < 2 ^ width.bits) {address : Nat}
    (found : (header.puts width file bias address).isSome) :
    address ∈ (header.range bias).extent := by
  have place := place_eq width file tidy.pos tidy.low
  have size := (stop_eq width file fun _ => tidy.low).1
  have length : (slice file header.off header.filesz).length =
      header.filesz := length_slice_of_le tidy.inFile
  have room := tidy.room
  rw [puts, tidy.segment_data short, Option.bind_some, place, size, length] at found
  split_ifs at found with inside
  · refine Region.mem_extent.mpr ⟨inside.1, ?_⟩
    change address < header.vaddr + bias + header.memsz
    omega
  · cases found

end ProgramHeader.Tidy

/-- Tidy segments on pages of their own load as they should. -/
theorem LoadsWhen.of_tidy {headers : List ProgramHeader} (short : file.length < 2 ^ width.bits)
    (tidy : ∀ header ∈ headers, header.Tidy kernel file bias)
    (apart :
      ∀ header ∈ headers, ∀ other ∈ headers, ∀ page,
        header.Touches bias page → other.Touches bias page → header = other)
    (guest : Guest) :
    LoadsWhen width file bias kernel guest headers := by
  have low : ∀ header ∈ headers, 0 < header.memsz →
      header.vaddr + bias + header.memsz ≤ kernel.addr :=
    fun header member _ => (tidy header member).low
  -- What reaches a byte or a page of a segment is the segment itself.
  have marker : ∀ header ∈ headers, ∀ other ∈ headers, ∀ page, header.Touches bias page →
        (other.marks width file bias page).isSome → other = header := by
    intro header member other listed page touches marked
    exact apart other listed header member page (touches_of_marks width file (low other listed)
        (tidy other listed).pos marked) touches
  refine ⟨low, ?_, ?_, ?_, ?_, ?_⟩
  · intro header member address found _
    exact ⟨header, member, (tidy header member).range_of_puts short found⟩
  · intro header member empty
    exact absurd empty (tidy header member).pos.ne'
  · intro header member index inside
    have own := (tidy header member).puts_inside short inside
    have within : header.vaddr + bias + index ∈ (header.range bias).extent :=
      Region.mem_extent.mpr ⟨Nat.le_add_right _ _, Nat.add_lt_add_left inside _⟩
    obtain ⟨byte, known⟩ := Option.isSome_iff_exists.mp ((tidy header member).fileByte_isSome index)
    have top : topmost (ProgramHeader.puts width file bias) headers
        (header.vaddr + bias + index) = Option.some byte := by
      refine topmost_eq_some member (own.trans known) ?_
      intro other listed found
      have same := apart other listed header member _
        ⟨_, (tidy other listed).range_of_puts short found, rfl⟩
        ⟨_, within, rfl⟩
      rw [same, own, known]
    rw [top, known]
    rfl
  · rintro page ⟨header, member, touches⟩ _
    have marked := marks_of_touches width file (low header member) touches
    have value : header.marks width file bias page =
        Option.some ⟨header.isWritable, header.isExecutable⟩ := by
      unfold ProgramHeader.marks at marked ⊢
      split_ifs at marked ⊢ with inside
      · rfl
      · cases marked
    have top : topmost (ProgramHeader.marks width file bias) (markOrder headers) page =
          Option.some ⟨header.isWritable, header.isExecutable⟩ := by
      refine topmost_eq_some (mem_markOrder.mpr member) value ?_
      intro other listed found
      rw [marker header member other (mem_markOrder.mp listed) page touches found, value]
    rw [top]
    constructor
    · refine ⟨fun writes => ⟨header, member, touches, writes⟩, ?_⟩
      rintro ⟨other, listed, there, writes⟩
      exact apart other listed header member page there touches ▸ writes
    · refine ⟨fun runs => ⟨header, member, touches, runs⟩, ?_⟩
      rintro ⟨other, listed, there, runs⟩
      exact apart other listed header member page there touches ▸ runs
  · -- Every page that a tidy segment touches gets a byte of it.
    rintro page ⟨header, member, address, inside, rfl⟩ absent
    refine absurd (.inr ⟨header, member, address, rfl, ?_⟩) absent
    obtain ⟨lower, upper⟩ := ProgramHeader.mem_range.mp inside
    obtain ⟨index, rfl⟩ := Nat.exists_eq_add_of_le lower
    rw [(tidy header member).puts_inside short (by omega)]
    exact (tidy header member).fileByte_isSome index

end Tidy

/-! ## Files -/

/-- The kernel of the metal backend. -/
def kernelBase : KernelBase where
  page := 0xC0B00
  fits := by decide

/-- The bytes of a program header of the 32-bit class. -/
def headerBytes (header : ProgramHeader) : Bytes :=
  [header.typ, header.off, header.vaddr, 0, header.filesz, header.memsz,
    header.flags, 0].flatMap (leBytes 4)

/-- A 32-bit executable: its header, program headers and other bytes. -/
def image32 (headers : List ProgramHeader) (payload : Bytes) : Bytes :=
  leBytes 4 elfMagic ++ [1, 1] ++ zeros 10 ++ leBytes 2 2 ++ leBytes 2 3 ++
    zeros 8 ++ leBytes 4 52 ++ zeros 10 ++ leBytes 2 32 ++
    leBytes 2 headers.length ++ zeros 6 ++ headers.flatMap headerBytes ++
    payload

/-- A guest with nothing in it. -/
def emptyGuest : Guest where
  bytes _ := 0
  entries _ := none
  blank _ _ := rfl

/-- A guest in which every page is there and holds ones. -/
def usedGuest : Guest where
  bytes _ := 1
  entries _ := some .demanded
  blank _ absent := nomatch absent

def codeHeader : ProgramHeader where
  typ := ptLoad
  flags := 5
  off := 116
  vaddr := 0x1000
  filesz := 2
  memsz := 4

def dataHeader : ProgramHeader where
  typ := ptLoad
  flags := 6
  off := 118
  vaddr := 0x2000
  filesz := 1
  memsz := 3

/-- Code and data on pages of their own. -/
def tidyImage : Bytes := image32 [codeHeader, dataHeader] [0x90, 0xC3, 0x2A]

theorem tidy_image_loads :
    loadElf .bits32 tidyImage 0x10000 =
        .loaded
          { entry := 0x10000, elfClass := .elf32, maxVaddr := 0x13000,
            phdrVaddr := 0x10034, phentsize := 32, phnum := 2 }
          [.copyTo 0x11000 [0x90, 0xC3], .zero 0x11002 2, .copyTo 0x12000 [0x2A], .zero 0x12001 2,
            .setPageFlags 0x12 1 true false,
            .setPageFlags 0x11 1 false true] ∧
      Loads kernelBase tidyImage 0x10000 usedGuest (fileHeaders .bits32 tidyImage)
        [.copyTo 0x11000 [0x90, 0xC3], .zero 0x11002 2, .copyTo 0x12000 [0x2A], .zero 0x12001 2,
          .setPageFlags 0x12 1 true false,
          .setPageFlags 0x11 1 false true] := by
  have headers : fileHeaders .bits32 tidyImage = [codeHeader, dataHeader] := by decide +kernel
  refine (and_iff_left_of_imp fun loaded => ?_).mpr (by decide +kernel)
  apply (load_elf_iff .bits32 kernelBase tidyImage 0x10000 usedGuest _ _ loaded).mpr
  rw [headers]
  refine LoadsWhen.of_tidy (by decide +kernel) ?_ ?_ usedGuest
  · intro header member
    rcases List.mem_pair.mp member with rfl | rfl <;>
      exact ⟨by decide, by decide, by decide +kernel, by decide⟩
  · rintro header member other listed page ⟨address, inside, rfl⟩ ⟨second, within, same⟩
    obtain ⟨lower, upper⟩ := Region.mem_extent.mp inside
    obtain ⟨start, stop⟩ := Region.mem_extent.mp within
    unfold pageSize at same
    rcases List.mem_pair.mp member with rfl | rfl <;>
      rcases List.mem_pair.mp listed with rfl | rfl
    · rfl
    · change 0x11000 ≤ address at lower
      change address < 0x11004 at upper
      change 0x12000 ≤ second at start
      omega
    · change 0x12000 ≤ address at lower
      change 0x11000 ≤ second at start
      change second < 0x11004 at stop
      omega
    · rfl

/-- A segment of the file bytes from offset 84 on. -/
def loneHeader (vaddr filesz memsz : Nat) : ProgramHeader where
  typ := ptLoad
  flags := 6
  off := 84
  vaddr
  filesz
  memsz

/-- A file that is loaded, and not as it should be. -/
def LoadsBadly (file : Bytes) (guest : Guest) : Prop :=
  ∃ info calls, loadElf .bits32 file 0 = .loaded info calls ∧
      ¬ Loads kernelBase file 0 guest (fileHeaders .bits32 file) calls

/-- A data segment on the page of the code. -/
def sharingHeader : ProgramHeader := { dataHeader with vaddr := 0x1800 }

/--
A segment is loaded over the kernel; file bytes spill out of a segment; a
segment without file bytes keeps what the memory held; and a page of code and
data loses the right to write.
-/
theorem loads_go_wrong :
    LoadsBadly (image32 [loneHeader 0xC0B00000 1 1] [0x2A]) emptyGuest ∧
      LoadsBadly (image32 [loneHeader 0x1000 2 1] [0x2A, 0x2B]) emptyGuest ∧
      LoadsBadly (image32 [loneHeader 0x1000 0 1] []) usedGuest ∧
      LoadsBadly (image32 [codeHeader, sharingHeader] [0x90, 0xC3, 0x2A])
        emptyGuest := by
  refine ⟨⟨⟨0, .elf32, 0xC0B01000, 52, 32, 1⟩,
      [.copyTo 0xC0B00000 [0x2A], .setPageFlags 0xC0B00 1 true false],
      by decide +kernel, fun loads => ?_⟩,
    ⟨⟨0, .elf32, 0x2000, 52, 32, 1⟩, [.copyTo 0x1000 [0x2A, 0x2B], .setPageFlags 1 1 true false],
      by decide +kernel, fun loads => ?_⟩,
    ⟨⟨0, .elf32, 0x2000, 52, 32, 1⟩, [.setPageFlags 1 1 true false],
      by decide +kernel, fun loads => ?_⟩,
    ⟨⟨0, .elf32, 0x2000, 52, 32, 2⟩,
      [.copyTo 0x1000 [0x90, 0xC3], .zero 0x1002 2, .copyTo 0x1800 [0x2A],
        .zero 0x1801 2, .setPageFlags 1 1 true false,
        .setPageFlags 1 1 false true],
      by decide +kernel, fun loads => ?_⟩⟩
  · have below := (loads.written _ List.mem_cons_self 0xC0B00000 (by decide)).1
    revert below
    decide
  · have headers : fileHeaders .bits32 (image32 [loneHeader 0x1000 2 1] [0x2A, 0x2B]) =
          [loneHeader 0x1000 2 1] := by decide +kernel
    rw [headers] at loads
    obtain ⟨header, member, inside⟩ := (loads.written _ List.mem_cons_self 0x1001 (by decide)).2
    obtain rfl := List.mem_singleton.mp member
    have upper := (Region.mem_extent.mp inside).2
    revert upper
    decide
  · have headers : fileHeaders .bits32
        (image32 [loneHeader 0x1000 0 1] []) = [loneHeader 0x1000 0 1] := by
      decide +kernel
    rw [headers] at loads
    have zero := (loads.contents _ List.mem_cons_self 0 (by decide)).2
    revert zero
    decide +kernel
  · have headers : fileHeaders .bits32 (image32 [codeHeader, sharingHeader] [0x90, 0xC3, 0x2A]) =
          [codeHeader, sharingHeader] := by decide +kernel
    rw [headers] at loads
    have touches : sharingHeader.Touches 0 1 :=
      ⟨0x1800, Region.mem_extent.mpr (by decide), by decide⟩
    have member : sharingHeader ∈ [codeHeader, sharingHeader] := by simp
    have writes := (loads.rights 1 ⟨_, member, touches⟩).writable.mpr
      ⟨_, member, touches, by decide⟩
    revert writes
    decide +kernel

end RetroOS.Linux
