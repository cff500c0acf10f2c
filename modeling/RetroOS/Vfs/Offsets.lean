import RetroOS.Vfs.OverlayObjects

/-!
# File offsets

A handle keeps its offset in 32 bits, and for a file below the overlay also
the size that the file had when the handle last saw it.  Beside it stands the
file model: offsets are numbers, a seek from the end starts at the end of the
file, and a seek that leads outside 32 bits is refused.

A filesystem below the overlay may answer a read or a write as it likes; its
answer comes with the request.  What it reports as written is in its file.
-/

namespace RetroOS.Vfs

open Lib Lib.Bytes
open Kernel (asI32 asI32_of_lt)

/-- What a handle is open on. -/
inductive OpenNode where
  | ram (key : Bytes)
  /-- A file below the overlay.  Every handle of the file has its number. -/
  | backend (file : Nat)

def OpenNode.file? : OpenNode → Option Nat
  | .ram _ => none
  | .backend file => some file

inductive HandleRequest where
  | read (handle : Int) (count : Nat) (reply : Int × Bytes)
  | write (handle : Int) (data : Bytes) (reply : Int)
  | seek (handle : Int) (offset : BitVec 32) (whence : Int)
  | llseek (handle : Int) (high low : BitVec 32) (whence : Int)

inductive HandleAnswer where
  | code (value : Int)
  | bytes (code : Int) (data : Bytes)
  /-- The code, and the offset stored for the caller. -/
  | stored (code : Int) (offset : Int)
  deriving DecidableEq

/-- The entry of a handle, which may be any number. -/
def entryAt {α : Type} (table : Nat → Option α) (handle : Int) : Option α :=
  if handle < 0 then none else handleEntry table handle.toNat

theorem entryAt_map {α β : Type} (table : Nat → Option α) (view : α → β) (handle : Int) :
    entryAt (fun idx => (table idx).map view) handle = (entryAt table handle).map view := by
  unfold entryAt handleEntry
  split_ifs <;> rfl

/-- How long a file is. -/
def nodeLength (ramFiles : Assoc Bytes Bytes) (lengths : Nat → Nat) : OpenNode → Nat
  | .ram key => ((ramFiles.find key).getD []).length
  | .backend file => lengths file

/-- The lengths of files after one was written to. -/
def lengthsAfter (lengths : Nat → Nat) (file offset : Nat) (reply : Int) : Nat → Nat :=
  if 0 < reply then Function.update lengths file (max (lengths file) (offset + reply.toNat))
  else lengths

/-- What a wide seek returns, from what the seek returned. -/
def llseekAnswer (code : Int) : HandleAnswer := if code < 0 then .code code else .stored 0 code

/-! ## The table -/

structure OpenHandle where
  node : OpenNode
  offset : Nat
  /-- The size in the handle's vnode. -/
  size : Nat
  writable : Bool

/-- The handles, and the files that they are open on. -/
structure FileTable where
  ramFiles : Assoc Bytes Bytes
  lengths : Nat → Nat
  entries : Nat → Option OpenHandle

namespace FileTable

def setEntry (table : FileTable) (handle : Int) (entry : OpenHandle) : FileTable :=
  { table with entries := Function.update table.entries handle.toNat (some entry) }

def readByHandle (table : FileTable) (handle : Int) (count : Nat) (reply : Int × Bytes) :
    HandleAnswer × FileTable :=
  match entryAt table.entries handle with
  | none => (.code (-9), table)
  | some entry =>
    match entry.node with
    | .ram key =>
      match table.ramFiles.find key with
      | none => (.bytes 0 [], table)
      | some contents =>
        if contents.length ≤ entry.offset then (.bytes 0 [], table)
        else
          let got := min count (contents.length - entry.offset)
          (.bytes (asI32 got) (slice contents entry.offset got), table.setEntry handle
              { entry with offset := (entry.offset + got) % 2 ^ 32 })
    | .backend _ =>
      if 0 < reply.1 then
        (.bytes reply.1 reply.2, table.setEntry handle
            { entry with offset := (entry.offset + reply.1.toNat) % 2 ^ 32 })
      else (.bytes reply.1 reply.2, table)

def writeByHandle (table : FileTable) (handle : Int) (data : Bytes) (reply : Int) :
    HandleAnswer × FileTable :=
  match entryAt table.entries handle with
  | none => (.code (-9), table)
  | some entry =>
    match entry.node with
    | .ram key =>
      match table.ramFiles.find key with
      | none => (.code (-9), table)
      | some contents =>
        let written := writeBytes contents entry.offset data
        (.code (asI32 data.length), setEntry
            { table with ramFiles := table.ramFiles.modify key fun _ => written } handle
            { entry with
              offset := (entry.offset + data.length) % 2 ^ 32
              size := written.length % 2 ^ 32 })
    | .backend file =>
      if entry.writable = false then (.code (-30), table)
      else if 0 < reply then
        let offset := (entry.offset + reply.toNat) % 2 ^ 32
        (.code reply, setEntry
            { table with lengths := lengthsAfter table.lengths file entry.offset reply } handle
            { entry with offset, size := max entry.size offset })
      else (.code reply, table)

/-- The size that a seek from the end starts at. -/
def sizeOf (table : FileTable) (entry : OpenHandle) : Nat :=
  match entry.node with
  | .ram key => ((table.ramFiles.find key).map fun contents => contents.length % 2 ^ 32).getD 0
  | .backend _ => entry.size

def seekByHandle (table : FileTable) (handle offset whence : Int) : Int × FileTable :=
  match entryAt table.entries handle with
  | none => (-9, table)
  | some entry =>
    match seekTarget entry.offset (table.sizeOf entry) offset whence with
    | none => (-22, table)
    | some target =>
      if target < 0 then (-22, table)
      else
        (asI32 (target.toNat % 2 ^ 32), table.setEntry handle
            { entry with offset := target.toNat % 2 ^ 32 })

end FileTable

def fileTableMachine : Machine FileTable HandleRequest HandleAnswer
  | table, .read handle count reply => table.readByHandle handle count reply
  | table, .write handle data reply => table.writeByHandle handle data reply
  | table, .seek handle offset whence =>
    let (code, after) := table.seekByHandle handle offset.toInt whence
    (.code code, after)
  | table, .llseek handle high low whence =>
    let (code, after) := table.seekByHandle handle ((high ++ low).setWidth 32).toInt whence
    (llseekAnswer code, after)

/-! ## The file model -/

structure Cursor where
  node : OpenNode
  offset : Nat
  writable : Bool

/-- Files and where their handles stand. -/
structure FileModel where
  ramFiles : Assoc Bytes Bytes
  lengths : Nat → Nat
  cursors : Nat → Option Cursor

namespace FileModel

def moveTo (model : FileModel) (handle : Int) (cursor : Cursor) (offset : Nat) : FileModel :=
  { model with cursors := Function.update model.cursors handle.toNat (some { cursor with offset }) }

def read (model : FileModel) (handle : Int) (count : Nat) (reply : Int × Bytes) :
    HandleAnswer × FileModel :=
  match entryAt model.cursors handle with
  | none => (.code (-9), model)
  | some cursor =>
    match cursor.node with
    | .ram key =>
      let data := slice ((model.ramFiles.find key).getD []) cursor.offset count
      (.bytes (asI32 data.length) data, model.moveTo handle cursor (cursor.offset + data.length))
    | .backend _ =>
      (.bytes reply.1 reply.2, model.moveTo handle cursor (cursor.offset + reply.1.toNat))

def write (model : FileModel) (handle : Int) (data : Bytes) (reply : Int) :
    HandleAnswer × FileModel :=
  match entryAt model.cursors handle with
  | none => (.code (-9), model)
  | some cursor =>
    match cursor.node with
    | .ram key =>
      match model.ramFiles.find key with
      | none => (.code (-9), model)
      | some contents =>
        (.code (asI32 data.length), moveTo
            { model with
              ramFiles :=
                model.ramFiles.modify key fun _ => writeBytes contents cursor.offset data }
            handle cursor (cursor.offset + data.length))
    | .backend file =>
      if cursor.writable = false then (.code (-30), model)
      else
        (.code reply, moveTo
            { model with lengths := lengthsAfter model.lengths file cursor.offset reply }
            handle cursor (cursor.offset + reply.toNat))

/-- A seek to an offset of 32 bits returns it; any other changes nothing. -/
def seek (model : FileModel) (handle offset whence : Int) : Int × FileModel :=
  match entryAt model.cursors handle with
  | none => (-9, model)
  | some cursor =>
    match seekTarget cursor.offset (nodeLength model.ramFiles model.lengths cursor.node) offset
        whence with
    | none => (-22, model)
    | some target =>
      if target < 0 ∨ 2 ^ 32 ≤ target then (-22, model)
      else (target, model.moveTo handle cursor target.toNat)

end FileModel

def fileModelMachine : Machine FileModel HandleRequest HandleAnswer
  | model, .read handle count reply => model.read handle count reply
  | model, .write handle data reply => model.write handle data reply
  | model, .seek handle offset whence =>
    let (code, after) := model.seek handle offset.toInt whence
    (.code code, after)
  | model, .llseek handle high low whence =>
    let (code, after) := model.seek handle (high ++ low).toInt whence
    (llseekAnswer code, after)

/-! ## The table as a file model -/

def OpenHandle.cursor (entry : OpenHandle) : Cursor where
  node := entry.node
  offset := entry.offset
  writable := entry.writable

/-- The file model that a table stands for. -/
def FileTable.model (table : FileTable) : FileModel where
  ramFiles := table.ramFiles
  lengths := table.lengths
  cursors idx := (table.entries idx).map OpenHandle.cursor

section Step

variable (table : FileTable) (handle : Int)

theorem model_setEntry (node : OpenNode) (before after size : Nat) (writable : Bool) :
    (table.setEntry handle { node, offset := after, size, writable }).model =
      table.model.moveTo handle { node, offset := before, writable } after := by
  unfold FileTable.setEntry FileTable.model FileModel.moveTo
  congr 1
  funext idx
  by_cases same : idx = handle.toNat
  · subst same
    simp [OpenHandle.cursor]
  · simp [Function.update_of_ne same]

theorem model_cursor : entryAt table.model.cursors handle =
    (entryAt table.entries handle).map OpenHandle.cursor :=
  entryAt_map table.entries OpenHandle.cursor handle

/-- A cursor that stays where it is. -/
theorem moveTo_same {entry : OpenHandle} (found : entryAt table.entries handle = some entry) :
    table.model.moveTo handle entry.cursor entry.offset = table.model := by
  have stored : table.model.cursors handle.toNat = some entry.cursor := by
    unfold entryAt handleEntry at found
    split_ifs at found
    simp only [FileTable.model, found, Option.map_some]
  have same : { entry.cursor with offset := entry.offset } = entry.cursor := rfl
  rw [FileModel.moveTo, same, ← stored, Function.update_eq_self]

/-- What a request moves through a handle. -/
def transferred (entry : OpenHandle) : HandleRequest → Nat
  | .read _ count reply =>
    match entry.node with
    | .ram key => (slice ((table.ramFiles.find key).getD []) entry.offset count).length
    | .backend _ => reply.1.toNat
  | .write _ data reply =>
    match entry.node with
    | .ram _ => data.length
    | .backend _ => reply.toNat
  | _ => 0

/-- A seek from a current size to an offset of 31 bits, or to none at all. -/
def SeekOrderly (offset whence : Int) : Prop :=
  ∀ entry ∈ entryAt table.entries handle,
    (whence = 2 → ∀ file ∈ entry.node.file?, entry.size = table.lengths file) ∧
      ∀ target ∈ seekTarget entry.offset (nodeLength table.ramFiles table.lengths entry.node)
        offset whence, target < 2 ^ 31

/--
Reads and writes stay below 4 GiB and seeks below 2 GiB.  A handle whose file
was written to by another one is not sought from the end, and a wide seek has
an offset of 32 bits.
-/
def OffsetOrderly (table : FileTable) : HandleRequest → Prop
  | .seek handle offset whence => SeekOrderly table handle offset.toInt whence
  | .llseek handle high low whence =>
    (high ++ low).toInt = low.toInt ∧ SeekOrderly table handle low.toInt whence
  | request@(.read handle ..) | request@(.write handle ..) =>
    ∀ entry ∈ entryAt table.entries handle, entry.offset + transferred table entry request < 2 ^ 32

instance (offset whence : Int) : Decidable (SeekOrderly table handle offset whence) :=
  inferInstanceAs (Decidable (∀ _ ∈ _, (_ → ∀ _ ∈ _, _) ∧ ∀ _ ∈ _, _))

instance : (request : HandleRequest) → Decidable (OffsetOrderly table request)
  | .seek .. => inferInstanceAs (Decidable (SeekOrderly ..))
  | .llseek .. => inferInstanceAs (Decidable (_ ∧ SeekOrderly ..))
  | .read .. => inferInstanceAs (Decidable (∀ _ ∈ _, _))
  | .write .. => inferInstanceAs (Decidable (∀ _ ∈ _, _))

variable {table handle}

theorem readByHandle_exact {count : Nat} {reply : Int × Bytes}
    (orderly : OffsetOrderly table (.read handle count reply)) :
    (table.readByHandle handle count reply).1 = (table.model.read handle count reply).1 ∧
      (table.readByHandle handle count reply).2.model =
        (table.model.read handle count reply).2 := by
  unfold FileTable.readByHandle FileModel.read
  rw [model_cursor]
  cases found : entryAt table.entries handle with
  | none => exact ⟨rfl, rfl⟩
  | some entry =>
    have limit := orderly entry (Option.mem_def.mpr found)
    have still := moveTo_same table handle found
    obtain ⟨key | file, offset, size, writable⟩ := entry
    · simp only [transferred, OpenHandle.cursor, Option.map_some] at limit still ⊢
      rw [show table.model.ramFiles = table.ramFiles from rfl]
      cases stored : table.ramFiles.find key with
      | none =>
        have nothing : slice [] offset count = [] := by simp [slice]
        rw [Option.getD_none, nothing, List.length_nil, Nat.add_zero, still]
        exact ⟨rfl, rfl⟩
      | some contents =>
        simp only [stored, Option.getD_some] at limit ⊢
        have got : min count (contents.length - offset) = (slice contents offset count).length := by
          rw [slice, List.length_take, List.length_drop]
        have data : slice contents offset (slice contents offset count).length =
            slice contents offset count := by
          rw [← got, slice, slice, ← List.length_drop, ← List.take_eq_take_min]
        by_cases ended : contents.length ≤ offset
        · have nothing : slice contents offset count = [] := by
            rw [slice, List.drop_eq_nil_of_le ended, List.take_nil]
          rw [if_pos ended, nothing, List.length_nil, Nat.add_zero, still]
          exact ⟨rfl, rfl⟩
        · rw [if_neg ended, got, data, Nat.mod_eq_of_lt limit]
          exact ⟨rfl, model_setEntry ..⟩
    · simp only [transferred, OpenHandle.cursor, Option.map_some] at limit still ⊢
      by_cases more : 0 < reply.1
      · rw [if_pos more, Nat.mod_eq_of_lt limit]
        exact ⟨rfl, model_setEntry ..⟩
      · have nothing : reply.1.toNat = 0 := by omega
        rw [if_neg more, nothing, Nat.add_zero, still]
        exact ⟨rfl, rfl⟩

theorem writeByHandle_exact {data : Bytes} {reply : Int}
    (orderly : OffsetOrderly table (.write handle data reply)) :
    (table.writeByHandle handle data reply).1 = (table.model.write handle data reply).1 ∧
      (table.writeByHandle handle data reply).2.model =
        (table.model.write handle data reply).2 := by
  unfold FileTable.writeByHandle FileModel.write
  rw [model_cursor]
  cases found : entryAt table.entries handle with
  | none => exact ⟨rfl, rfl⟩
  | some entry =>
    have limit := orderly entry (Option.mem_def.mpr found)
    have still := moveTo_same table handle found
    obtain ⟨key | file, offset, size, writable⟩ := entry
    · simp only [transferred, OpenHandle.cursor, Option.map_some] at limit still ⊢
      rw [show table.model.ramFiles = table.ramFiles from rfl]
      cases stored : table.ramFiles.find key with
      | none => exact ⟨rfl, rfl⟩
      | some contents =>
        dsimp only
        rw [Nat.mod_eq_of_lt limit]
        exact ⟨rfl, model_setEntry ..⟩
    · simp only [transferred, OpenHandle.cursor, Option.map_some] at limit still ⊢
      cases writable with
      | false => exact ⟨rfl, rfl⟩
      | true =>
        simp only [Bool.true_eq_false, if_false]
        by_cases more : 0 < reply
        · rw [if_pos more, Nat.mod_eq_of_lt limit]
          exact ⟨rfl, model_setEntry ..⟩
        · have nothing : reply.toNat = 0 := by omega
          rw [if_neg more, nothing, Nat.add_zero, lengthsAfter, if_neg more]
          exact ⟨rfl, still.symm⟩

/-- A size above 32 bits would put the target above 31. -/
theorem seekTarget_sizeOf {entry : OpenHandle} {offset whence : Int} (narrow : -2 ^ 31 ≤ offset)
    (current : whence = 2 → ∀ file ∈ entry.node.file?, entry.size = table.lengths file)
    (limit :
      ∀ target ∈ seekTarget entry.offset (nodeLength table.ramFiles table.lengths entry.node)
        offset whence, target < 2 ^ 31) :
    seekTarget entry.offset (table.sizeOf entry) offset whence =
      seekTarget entry.offset (nodeLength table.ramFiles table.lengths entry.node) offset
        whence := by
  unfold seekTarget at limit ⊢
  by_cases ended : whence = 2
  · subst ended
    have below := limit _ rfl
    obtain ⟨key | file, position, size, writable⟩ := entry
    · simp only [nodeLength, FileTable.sizeOf] at below ⊢
      cases stored : table.ramFiles.find key with
      | none => rfl
      | some contents =>
        simp only [stored, Option.getD_some, Option.map_some] at below ⊢
        rw [Nat.mod_eq_of_lt (by omega)]
    · have size : size = table.lengths file := current rfl file rfl
      simp only [nodeLength, FileTable.sizeOf, size]
  · rw [if_neg ended, if_neg ended]

theorem seekByHandle_exact {offset whence : Int} (narrow : -2 ^ 31 ≤ offset)
    (orderly : SeekOrderly table handle offset whence) :
    (table.seekByHandle handle offset whence).1 = (table.model.seek handle offset whence).1 ∧
      (table.seekByHandle handle offset whence).2.model =
        (table.model.seek handle offset whence).2 := by
  unfold FileTable.seekByHandle FileModel.seek
  rw [model_cursor]
  cases found : entryAt table.entries handle with
  | none => exact ⟨rfl, rfl⟩
  | some entry =>
    obtain ⟨current, limit⟩ := orderly entry (Option.mem_def.mpr found)
    have target := seekTarget_sizeOf narrow current limit
    obtain ⟨node, position, size, writable⟩ := entry
    simp only [OpenHandle.cursor, Option.map_some] at target limit ⊢
    rw [target, show table.model.ramFiles = table.ramFiles from rfl,
      show table.model.lengths = table.lengths from rfl]
    cases reached : seekTarget position (nodeLength table.ramFiles table.lengths node) offset
        whence with
    | none => exact ⟨rfl, rfl⟩
    | some target =>
      have below := limit target (Option.mem_def.mpr reached)
      dsimp only
      by_cases negative : target < 0
      · rw [if_pos negative, if_pos (.inl negative)]
        exact ⟨rfl, rfl⟩
      · rw [if_neg negative, if_neg (by omega), Nat.mod_eq_of_lt (by omega), asI32_of_lt (by omega)]
        exact ⟨Int.toNat_of_nonneg (by omega), model_setEntry ..⟩

/-- One request, answered alike. -/
theorem fileTableMachine_exact (request : HandleRequest) (orderly : OffsetOrderly table request) :
    (fileTableMachine table request).1 = (fileModelMachine table.model request).1 ∧
      (fileTableMachine table request).2.model = (fileModelMachine table.model request).2 := by
  cases request with
  | read handle count reply => exact readByHandle_exact orderly
  | write handle data reply => exact writeByHandle_exact orderly
  | seek handle offset whence =>
    obtain ⟨code, after⟩ := seekByHandle_exact (BitVec.le_toInt offset) orderly
    exact ⟨congrArg HandleAnswer.code code, after⟩
  | llseek handle high low whence =>
    obtain ⟨narrow, orderly⟩ := orderly
    obtain ⟨code, after⟩ := seekByHandle_exact (BitVec.le_toInt low) orderly
    have truncated : (high ++ low).setWidth 32 = low := by
      ext index bound
      rw [BitVec.getElem_setWidth, BitVec.getLsbD_append, if_pos bound, BitVec.getLsbD_eq_getElem]
    simp only [fileTableMachine, fileModelMachine, truncated, narrow]
    exact ⟨congrArg llseekAnswer code, after⟩

end Step

/-! ## Runs -/

/-- In every orderly run, offsets and answers are those of the file model. -/
theorem offsets_exact (table : FileTable) (requests : List HandleRequest)
    (orderly : fileTableMachine.Meets OffsetOrderly table requests) :
    (fileTableMachine.run table requests).map Move.answer =
        (fileModelMachine.run table.model requests).map Move.answer ∧
      (fileTableMachine.final table requests).model =
        fileModelMachine.final table.model requests := by
  have step : ∀ table model request, FileTable.model table = model → OffsetOrderly table request →
      (fileTableMachine table request).1 = (fileModelMachine model request).1 ∧
        (fileTableMachine table request).2.model = (fileModelMachine model request).2 := by
    rintro table _ request rfl meets
    exact fileTableMachine_exact request meets
  exact Machine.run_simulates step rfl orderly

/-- A file in memory and two handles of a file below it, which is 10 bytes long. -/
def smallFiles : FileTable where
  ramFiles := [([0x61], [1, 2, 3])]
  lengths _ := 10
  entries idx :=
    if idx = 0 then some { node := .ram [0x61], offset := 0, size := 3, writable := true }
    else if idx < 3 then some { node := .backend 0, offset := 0, size := 10, writable := true }
    else none

/-- Files are read, written and sought. -/
def smallRequests : List HandleRequest :=
  [.read 0 2 (0, []), .seek 0 (-1) 1, .write 0 [7, 8, 9] 0, .seek 0 (-4) 2,
    .seek 1 2 2, .write 1 [5] 1, .seek 1 (-14) 2, .llseek 1 0 4 0, .read 1 3 (2, [0, 0]),
    .seek 1 0 1]

theorem small_offsets_exact :
    (fileTableMachine.run smallFiles smallRequests).map Move.answer =
        [.bytes 2 [1, 2], .code 1, .code 3, .code 0, .code 12, .code 1, .code (-22), .stored 0 4,
          .bytes 2 [0, 0], .code 6] ∧
      (fileTableMachine.run smallFiles smallRequests).map Move.answer =
          (fileModelMachine.run smallFiles.model smallRequests).map Move.answer ∧
        (fileTableMachine.final smallFiles smallRequests).model =
          fileModelMachine.final smallFiles.model smallRequests :=
  ⟨by decide +kernel, offsets_exact smallFiles smallRequests (by decide +kernel)⟩

/--
A seek past 4 GiB succeeds and leads to the start, and one past 2 GiB returns a
negative number.  A write that ends past 4 GiB leaves the offset near the
start.  After a write by another handle, the end of the file is where it was.
A wide seek past 4 GiB leads to the start.
-/
theorem offsets_wrap :
    (fileTableMachine.run smallFiles
          [.seek 0 0x7fffffff 0, .seek 0 0x7fffffff 1, .seek 0 2 1]).map Move.answer =
        [.code 0x7fffffff, .code (-2), .code 0] ∧
      (fileModelMachine.run smallFiles.model
          [.seek 0 0x7fffffff 0, .seek 0 0x7fffffff 1, .seek 0 2 1]).map Move.answer =
        [.code 0x7fffffff, .code 0xfffffffe, .code (-22)] ∧
      (fileTableMachine.run smallFiles
          [.seek 1 0x7fffffff 0, .seek 1 0x7fffffff 1, .write 1 [1, 2, 3] 3,
            .seek 1 0 1]).map Move.answer =
        [.code 0x7fffffff, .code (-2), .code 3, .code 1] ∧
      (fileTableMachine.run smallFiles
          [.seek 1 0 2, .write 1 [1, 2, 3] 3, .seek 2 0 2]).map Move.answer =
        [.code 10, .code 3, .code 10] ∧
      (fileModelMachine.run smallFiles.model
          [.seek 1 0 2, .write 1 [1, 2, 3] 3, .seek 2 0 2]).map Move.answer =
        [.code 10, .code 3, .code 13] ∧
      (fileTableMachine.run smallFiles [.llseek 0 1 0 0]).map Move.answer = [.stored 0 0] ∧
      (fileModelMachine.run smallFiles.model [.llseek 0 1 0 0]).map Move.answer =
        [.code (-22)] := by
  decide +kernel

end RetroOS.Vfs
