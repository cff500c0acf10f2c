import RetroOS.Kernel.Descriptors
import RetroOS.Kernel.Pending

/-!
# Listing a directory

A descriptor of a directory names an entry of the table of open directories,
which has its path, and counts the entries handed out.  `getdents64` goes on
from there and writes records into a buffer while they fit.

`Lists` says what a listing is: each call hands out the next of what is left,
nothing is the answer at the end only, and a buffer without room for one record
is an error.  The last is what the call does not do: it answers 0 there as well,
so that a listing is right exactly when every buffer has room for the next
record.  The root is recorded as an empty path, which reads as no path, and the
working directory is listed instead.
-/

namespace RetroOS.Linux

open Lib Lib.Bytes
open Kernel (FdKind asI32 asI32_of_lt dirHandles eBadf maxFds)
open Function (update update_self)

/-- What the filesystem tells of an entry. -/
structure DirEntry where
  name : Bytes
  isDir : Bool
  isSymlink : Bool
  short : name.length ≤ 100

namespace DirEntry

variable (entry : DirEntry)

/-- The length of the record: the header, the name and a NUL, in eights. -/
def reclen : Nat := (19 + entry.name.length + 1 + 7) / 8 * 8

def fileType : Nat := if entry.isDir then 4 else if entry.isSymlink then 10 else 8

end DirEntry

/-! ## Open directories -/

def dirPathMax : Nat := 164

structure DirHandle where
  path : Bytes
  refcount : Nat

/-- The path of a directory, in the buffer of the caller. -/
abbrev ResolvedPath : Type := { path : Bytes // path.length ≤ dirPathMax }

/-- A thread with its memory, and the table of open directories. -/
structure Lister where
  fds : Nat → FdKind
  dirs : Nat → DirHandle
  cwd : Bytes
  memory : Memory UInt8

namespace Lister

variable (lister : Lister)

def allocFd (first : Nat) : Option Nat :=
  (List.range maxFds).find? fun fd => decide (first ≤ fd) && lister.fds fd == .none

/-- The first free entry of the table gets the path. -/
def openDirHandle (path : Bytes) : Option (Nat × Lister) :=
  ((List.range dirHandles).find? fun idx => (lister.dirs idx).refcount == 0).map fun idx =>
    (idx, { lister with dirs := update lister.dirs idx ⟨path.take dirPathMax, 1⟩ })

/-- The path of an open directory; empty for any other handle. -/
def dirHandlePath (idx : Nat) : Bytes :=
  if idx < dirHandles ∧ (lister.dirs idx).refcount ≠ 0 then (lister.dirs idx).path else []

/-- `open` of a directory. -/
def sysOpenDir (path : ResolvedPath) : Int × Lister :=
  match lister.allocFd 3 with
  | none => (-24, lister)
  | some fd =>
    match lister.openDirHandle path with
    | none => (-24, lister)
    | some (handle, opened) =>
      ((fd : Int), { opened with fds := update opened.fds fd (.dir handle 0) })

end Lister

/-! ## The call -/

/-- Write one record. -/
def putDirent (memory : Memory UInt8) (base index : Nat) (entry : DirEntry) : Memory UInt8 :=
  let memory := memory.store base (zeros entry.reclen)
  let memory := memory.store base (leBytes 8 index)
  let memory := memory.store (base + 8) (leBytes 8 index)
  let memory := memory.store (base + 16) (leBytes 2 entry.reclen)
  let memory := memory.store (base + 18) (leBytes 1 entry.fileType)
  memory.store (base + 19) entry.name

/-- Write records from an index on while they fit. -/
def fillDirents (dirp count : Nat) :
    List DirEntry → (index offset : Nat) → Memory UInt8 → Nat × Nat × Memory UInt8
  | [], index, offset, memory => (index, offset, memory)
  | entry :: rest, index, offset, memory =>
    if offset + entry.reclen > count then (index, offset, memory)
    else
      fillDirents dirp count rest (index + 1) (offset + entry.reclen)
        (putDirent memory (dirp + offset) (index + 1) entry)

/-- `getdents64`; `listing` is what the filesystem enumerates for a path. -/
def Lister.sysGetdents64 (listing : Bytes → List DirEntry) (lister : Lister)
    (fd dirp count : Nat) : Int × Lister :=
  if maxFds ≤ fd then (-eBadf, lister)
  else
    -- Any other descriptor reads the working directory from its start.
    let (dir, next) :=
      match lister.fds fd with
      | .dir handle next => (lister.dirHandlePath handle, next)
      | _ => ([], 0)
    let cwd := if 0 < dir.length then dir else lister.cwd
    let (index, offset, memory) :=
      fillDirents dirp count ((listing cwd).drop next) next 0 lister.memory
    let fds :=
      match lister.fds fd with
      | .dir handle _ => update lister.fds fd (.dir handle (index % 2 ^ 32))
      | _ => lister.fds
    (asI32 offset, { lister with fds, memory })

/-- Calls with a buffer and its size; the answer and the bytes it counts. -/
def getdents (listing : Bytes → List DirEntry) (fd : Nat) :
    Machine Lister (Nat × Nat) (Int × Bytes) :=
  fun lister call =>
    let (code, lister) := lister.sysGetdents64 listing fd call.1 call.2
    ((code, lister.memory.load call.1 code.toNat), lister)

/-! ## What a listing is -/

/-- A record for an entry: its length, its kind, and the name with a NUL. -/
structure RecordOf (entry : DirEntry) (record : Bytes) : Prop where
  size : record.length = entry.reclen
  length : leAt 2 record 16 = record.length
  kind : byteAt record 18 = entry.fileType
  name : ∃ pad, 0 < pad ∧ record.drop 19 = entry.name ++ zeros pad

/-- Bytes made of one record for each entry. -/
def Records (entries : List DirEntry) (bytes : Bytes) : Prop :=
  ∃ records, List.Forall₂ RecordOf entries records ∧ bytes = records.flatten

/-- Calls that list what is left of a directory. -/
def Lists : List DirEntry → List (Move Lister (Nat × Nat) (Int × Bytes)) → Prop
  | _, [] => True
  | [], move :: later => move.answer.1 = 0 ∧ Lists [] later
  | entry :: rest, move :: later =>
    if move.input.2 < entry.reclen then move.answer.1 < 0 ∧ Lists (entry :: rest) later
    else
      ∃ given left, given ≠ [] ∧ entry :: rest = given ++ left ∧
        move.answer.1 = move.answer.2.length ∧ Records given move.answer.2 ∧ Lists left later

/-- The entries a descriptor has handed out. -/
def Lister.cursor (lister : Lister) (fd : Nat) : Nat :=
  match lister.fds fd with
  | .dir _ next => next
  | _ => 0

/-- The buffer has room for the record of the next entry. -/
def HasRoom (entries : List DirEntry) (fd : Nat) (lister : Lister) (call : Nat × Nat) : Prop :=
  ∀ entry ∈ (entries.drop (lister.cursor fd)).head?, entry.reclen ≤ call.2

instance (entries : List DirEntry) (fd : Nat) (lister : Lister) (call : Nat × Nat) :
    Decidable (HasRoom entries fd lister call) :=
  inferInstanceAs (Decidable (∀ entry ∈ (entries.drop (lister.cursor fd)).head?, _))

/-- The bytes of the records of some entries. -/
def direntsSize (entries : List DirEntry) : Nat := (entries.map DirEntry.reclen).sum

/-! ## The records of one call -/

/-- The bytes of a record. -/
def direntBytes (index : Nat) (entry : DirEntry) : Bytes :=
  leBytes 8 index ++ leBytes 8 index ++ leBytes 2 entry.reclen ++ leBytes 1 entry.fileType ++
    entry.name ++ zeros (entry.reclen - (19 + entry.name.length))

theorem DirEntry.reclen_bounds (entry : DirEntry) :
    19 + entry.name.length < entry.reclen ∧ entry.reclen < 2 ^ 16 := by
  have short := entry.short
  unfold reclen
  omega

@[simp]
theorem length_direntBytes (index : Nat) (entry : DirEntry) :
    (direntBytes index entry).length = entry.reclen := by
  have bounds := entry.reclen_bounds
  simp only [direntBytes, List.length_append, length_leBytes, length_zeros]
  omega

theorem recordOf_direntBytes (index : Nat) (entry : DirEntry) :
    RecordOf entry (direntBytes index entry) where
  size := length_direntBytes index entry
  length := by
    have bounds := entry.reclen_bounds
    have field : slice (direntBytes index entry) 16 2 = leBytes 2 entry.reclen := by
      simp [direntBytes, slice, List.drop_append, List.drop_of_length_le]
    rw [length_direntBytes, leAt, field, leNat_leBytes]
    exact Nat.mod_eq_of_lt bounds.2
  kind := by
    have kinds : entry.fileType < 256 := by
      unfold DirEntry.fileType
      split_ifs <;> decide
    simp [direntBytes, byteAt, leBytes, Nat.mod_eq_of_lt kinds]
  name := by
    have bounds := entry.reclen_bounds
    refine ⟨entry.reclen - (19 + entry.name.length), by omega, ?_⟩
    simp [direntBytes, List.drop_append, List.drop_of_length_le]

/-- A store over zeros leaves the zeros behind it. -/
theorem store_over_zeros (memory : Memory UInt8) {base offset room : Nat} {first values : Bytes}
    (place : first.length = offset) :
    (memory.store base (first ++ zeros room)).store (base + offset) values =
      memory.store base (first ++ values ++ zeros (room - values.length)) := by
  rw [← place, Memory.store_store, zeros, List.drop_replicate, List.append_assoc, zeros]

theorem putDirent_eq (memory : Memory UInt8) (base index : Nat) (entry : DirEntry) :
    putDirent memory base index entry = memory.store base (direntBytes index entry) := by
  have cleared :
      (memory.store base (zeros entry.reclen)).store base (leBytes 8 index) =
        memory.store base (leBytes 8 index ++ zeros (entry.reclen - 8)) := by
    simpa [zeros] using memory.store_store base [] (zeros entry.reclen) (leBytes 8 index)
  have inode : (leBytes 8 index).length = 8 := by simp
  have cookie : (leBytes 8 index ++ leBytes 8 index).length = 16 := by simp
  have length : (leBytes 8 index ++ leBytes 8 index ++ leBytes 2 entry.reclen).length = 18 := by
    simp
  have kind :
      (leBytes 8 index ++ leBytes 8 index ++ leBytes 2 entry.reclen ++
        leBytes 1 entry.fileType).length = 19 := by
    simp
  simp only [putDirent]
  rw [cleared, store_over_zeros memory inode, store_over_zeros memory cookie,
    store_over_zeros memory length, store_over_zeros memory kind]
  simp only [direntBytes, length_leBytes]
  congr 3
  omega

/-- The records of some entries, the first of them the one of `index`. -/
def recordsFrom : (index : Nat) → List DirEntry → List Bytes
  | _, [] => []
  | index, entry :: rest => direntBytes (index + 1) entry :: recordsFrom (index + 1) rest

theorem records_recordsFrom (index : Nat) (entries : List DirEntry) :
    List.Forall₂ RecordOf entries (recordsFrom index entries) := by
  induction entries generalizing index with
  | nil => exact .nil
  | cons entry rest induction => exact .cons (recordOf_direntBytes _ entry) (induction _)

theorem length_recordsFrom (index : Nat) (entries : List DirEntry) :
    (recordsFrom index entries).flatten.length = direntsSize entries := by
  induction entries generalizing index with
  | nil => rfl
  | cons entry rest induction =>
    simp only [recordsFrom, List.flatten_cons, List.length_append, length_direntBytes, induction,
      direntsSize, List.map_cons, List.sum_cons]

theorem direntsSize_cons (entry : DirEntry) (rest : List DirEntry) :
    direntsSize (entry :: rest) = entry.reclen + direntsSize rest := rfl

theorem direntsSize_append (first second : List DirEntry) :
    direntsSize (first ++ second) = direntsSize first + direntsSize second := by
  simp [direntsSize]

theorem length_le_direntsSize (entries : List DirEntry) :
    entries.length ≤ direntsSize entries := by
  induction entries with
  | nil => exact Nat.le_refl 0
  | cons entry rest induction =>
    have bounds := entry.reclen_bounds
    rw [direntsSize_cons, List.length_cons]
    omega

/-- What fits is written, and the first record that does not fit is where it stops. -/
theorem fillDirents_eq (dirp count : Nat) (entries : List DirEntry) (index offset : Nat)
    (memory : Memory UInt8) :
    ∃ given left, entries = given ++ left ∧
      (given ≠ [] → offset + direntsSize given ≤ count) ∧
      (∀ entry ∈ left.head?, count < offset + direntsSize given + entry.reclen) ∧
      fillDirents dirp count entries index offset memory =
        (index + given.length, offset + direntsSize given,
          memory.store (dirp + offset) (recordsFrom index given).flatten) := by
  induction entries generalizing index offset memory with
  | nil => exact ⟨[], [], rfl, by simp, by simp, by simp [fillDirents, recordsFrom, direntsSize]⟩
  | cons entry rest induction =>
    rw [fillDirents]
    split_ifs with full
    · refine ⟨[], entry :: rest, rfl, by simp, by simpa [direntsSize] using full, ?_⟩
      simp [recordsFrom, direntsSize]
    · obtain ⟨given, left, rfl, fits, stops, filled⟩ := induction (index + 1)
        (offset + entry.reclen) (putDirent memory (dirp + offset) (index + 1) entry)
      refine ⟨entry :: given, left, rfl, fun _ => ?_, fun next member => ?_, ?_⟩
      · rw [direntsSize_cons, ← Nat.add_assoc]
        by_cases more : given = []
        · rw [more]
          exact not_lt.mp full
        · exact fits more
      · have stop := stops next member
        rw [direntsSize_cons]
        omega
      · rw [filled, putDirent_eq, ← Nat.add_assoc, ← length_direntBytes (index + 1) entry,
          Memory.store_append]
        simp only [direntsSize_cons, List.length_cons, recordsFrom, List.flatten_cons,
          length_direntBytes]
        refine Prod.ext ?_ (Prod.ext ?_ rfl)
        · exact Nat.add_right_comm index 1 given.length
        · exact Nat.add_assoc offset entry.reclen _

/-! ## A run of calls -/

/-- A descriptor of a directory that lists some entries, at a place in them. -/
structure Lister.OpenAt (listing : Bytes → List DirEntry) (entries : List DirEntry)
    (fd next : Nat) (lister : Lister) : Prop where
  slot : fd < maxFds
  descriptor :
    ∃ handle, lister.fds fd = .dir handle next ∧
      listing (if 0 < (lister.dirHandlePath handle).length then lister.dirHandlePath handle
        else lister.cwd) = entries

variable {listing : Bytes → List DirEntry} {entries : List DirEntry} {fd : Nat}

/-- One call: the records of the next entries that fit, and the cursor behind them. -/
theorem getdents_step {lister : Lister} {past left : List DirEntry}
    (opened : lister.OpenAt listing (past ++ left) fd past.length)
    (small : direntsSize (past ++ left) < 2 ^ 31) (call : Nat × Nat) :
    ∃ given rest, left = given ++ rest ∧
      (given ≠ [] → direntsSize given ≤ call.2) ∧
      (∀ entry ∈ rest.head?, call.2 < direntsSize given + entry.reclen) ∧
      (getdents listing fd lister call).1 =
        ((direntsSize given : Int), (recordsFrom past.length given).flatten) ∧
      (getdents listing fd lister call).2.OpenAt listing (past ++ left) fd
        (past ++ given).length := by
  obtain ⟨slot, handle, known, shown⟩ := opened
  obtain ⟨given, rest, rfl, fits, stops, filled⟩ :=
    fillDirents_eq call.1 call.2 left past.length 0 lister.memory
  simp only [Nat.zero_add, Nat.add_zero] at fits stops filled
  have short := length_le_direntsSize (past ++ (given ++ rest))
  simp only [direntsSize_append, List.length_append] at short small
  have counted : asI32 (direntsSize given) = direntsSize given := asI32_of_lt (by omega)
  have wrapped : (past.length + given.length) % 2 ^ 32 = past.length + given.length :=
    Nat.mod_eq_of_lt (by omega)
  refine ⟨given, rest, rfl, fits, stops, ?_⟩
  simp only [getdents, Lister.sysGetdents64, if_neg (not_le.mpr slot), known, shown,
    List.drop_left, filled, counted, wrapped, Int.toNat_natCast, List.length_append]
  constructor
  · rw [← length_recordsFrom past.length given, Memory.load_store]
  · exact ⟨slot, handle, update_self fd _ lister.fds, shown⟩

theorem Records.length_eq {given : List DirEntry} {bytes : Bytes} (records : Records given bytes) :
    bytes.length = direntsSize given := by
  obtain ⟨parts, each, rfl⟩ := records
  induction each with
  | nil => rfl
  | cons own others induction =>
    rw [List.flatten_cons, List.length_append, own.size, induction, direntsSize_cons]

/-- The size of the records tells how many entries they are for. -/
theorem given_unique {given other rest left : List DirEntry}
    (same : given ++ rest = other ++ left) (size : direntsSize given = direntsSize other) :
    given = other := by
  have empty (more : List DirEntry) (none : direntsSize more = 0) : more = [] := by
    have short := length_le_direntsSize more
    exact List.eq_nil_of_length_eq_zero (by omega)
  rcases List.append_eq_append_iff.mp same with ⟨more, rfl, -⟩ | ⟨more, rfl, -⟩
  · rw [direntsSize_append] at size
    rw [empty more (by omega), List.append_nil]
  · rw [direntsSize_append] at size
    rw [empty more (by omega), List.append_nil]

theorem lists_iff_hasRoom {lister : Lister} (past left : List DirEntry)
    (opened : lister.OpenAt listing (past ++ left) fd past.length)
    (small : direntsSize (past ++ left) < 2 ^ 31) (calls : List (Nat × Nat)) :
    Lists left ((getdents listing fd).run lister calls) ↔
      (getdents listing fd).Meets (HasRoom (past ++ left) fd) lister calls := by
  induction calls generalizing lister past left with
  | nil => simp [Machine.run, Machine.Meets, Lists]
  | cons call later induction =>
    have cursor : lister.cursor fd = past.length := by
      obtain ⟨-, handle, known, -⟩ := opened
      simp [Lister.cursor, known]
    obtain ⟨given, rest, rfl, fits, stops, answer, next⟩ := getdents_step opened small call
    rw [← List.append_assoc] at next small
    have others := induction (past ++ given) rest next small
    rw [List.append_assoc] at others
    simp only [Machine.run, Machine.Meets, HasRoom, cursor, List.drop_left, Machine.move]
    cases given with
    | nil =>
      cases rest with
      | nil => simpa [Lists, answer, direntsSize] using others
      | cons entry rest =>
        have full := stops entry rfl
        simp only [direntsSize, List.map_nil, List.sum_nil, Nat.zero_add] at full
        simp [Lists, answer, direntsSize, full]
    | cons entry given =>
      have room := fits (List.cons_ne_nil _ _)
      rw [direntsSize_cons] at room
      have enough : ¬ call.2 < entry.reclen := by omega
      simp only [List.cons_append, List.head?_cons, Option.mem_some_iff, forall_eq',
        not_lt.mp enough, true_and]
      rw [← List.cons_append, ← others]
      simp only [List.cons_append, Lists, if_neg enough, answer]
      constructor
      · rintro ⟨other, left, -, same, -, records, lists⟩
        have equal : entry :: given = other := by
          refine given_unique same ?_
          rw [← records.length_eq, length_recordsFrom]
        obtain rfl := equal
        have behind : entry :: given ++ rest = entry :: given ++ left := same
        rwa [List.append_cancel_left behind]
      · intro lists
        exact ⟨entry :: given, rest, List.cons_ne_nil _ _, rfl, by rw [length_recordsFrom],
          ⟨_, records_recordsFrom _ _, rfl⟩, lists⟩

/-- `open` leaves a descriptor at the start of the directory it named. -/
theorem openAt_sysOpenDir {lister after : Lister} {path : ResolvedPath}
    (opened : lister.sysOpenDir path = ((fd : Int), after))
    (named : path.val = [] → listing lister.cwd = listing []) :
    after.OpenAt listing (listing path) fd 0 := by
  unfold Lister.sysOpenDir at opened
  split at opened
  · cases (Prod.ext_iff.mp opened).1
  · next slot found =>
    split at opened
    · cases (Prod.ext_iff.mp opened).1
    · next handle table granted =>
      obtain ⟨same, rfl⟩ := Prod.ext_iff.mp opened
      obtain rfl := Int.ofNat.inj same
      obtain ⟨idx, free, made⟩ := Option.map_eq_some_iff.mp granted
      obtain ⟨rfl, rfl⟩ := Prod.ext_iff.mp made
      have inTable := List.mem_range.mp (List.mem_of_find?_eq_some free)
      have inFds := List.mem_range.mp (List.mem_of_find?_eq_some found)
      refine ⟨inFds, idx, update_self _ _ _, ?_⟩
      have whole : path.val.take dirPathMax = path.val := List.take_of_length_le path.property
      simp only [Lister.dirHandlePath, update_self, whole, inTable]
      by_cases root : path.val = []
      · simpa [root] using named root
      · simp [List.length_pos_iff, root]

def plainEntry (name : Bytes) (short : name.length ≤ 100) : DirEntry where
  name
  isDir := false
  isSymlink := false
  short

/-- A directory "d" with the files "a" and "b", the one in a root without "b". -/
def sampleListing (path : Bytes) : List DirEntry :=
  if path = [100] then [plainEntry [97] (by decide), plainEntry [98] (by decide)]
  else [plainEntry [100] (by decide)]

/-- A thread in the directory "d" with nothing open. -/
def sampleLister : Lister where
  fds := fun _ => .none
  dirs := fun _ => { path := [], refcount := 0 }
  cwd := [100]
  memory := fun _ => 0xFF

def sampleDir : ResolvedPath := ⟨[100], by decide⟩

def sampleRoot : ResolvedPath := ⟨[], by decide⟩

/-- The state after `open`. -/
def opened (path : ResolvedPath) : Lister := (sampleLister.sysOpenDir path).2

end RetroOS.Linux
