import RetroOS.Block.Nesting
import RetroOS.Lib.Machine
import Mathlib.Logic.Relation

/-!
# Requests through volumes

A request comes in through a volume, which may lie on further volumes, on the
outermost disk of a nest.  Its sector and its length are arbitrary.  A
session serves requests and keeps, beside the disk, what was last written at
every byte of the outermost disk.

`volumes_and_overlays_contain`: every access to the device lies inside the
volume of its request, the disk below an overlay is only read, and a read
through an overlay gives at every byte what was last written there, or the
byte below when nothing was; past the end of the volume it gives zeros.
-/

namespace RetroOS.Block

open Lib Lib.Bytes
open RamOverlay
open Function (update update_of_ne update_self)

/-! ## Volumes on volumes -/

/-- Where a volume is asked for. -/
structure Extent where
  start : Nat
  sectors : Nat

section Paths

variable {τ : Type}

/-- The volume of a disk at an extent. -/
def Extent.volume (extent : Extent) (disk : Disk τ) : Volume τ :=
  Volume.new disk extent.start extent.sectors

@[simp]
theorem Extent.volume_start (extent : Extent) (disk : Disk τ) :
    (extent.volume disk).start = extent.start :=
  rfl

/-- A disk seen through volumes, the outermost one first. -/
def Disk.through (disk : Disk τ) : List Extent → Disk τ
  | [] => disk
  | extent :: rest => (extent.volume (disk.through rest)).toDisk

/-- The first sector of a disk that volumes show. -/
def base : List Extent → Nat
  | [] => 0
  | extent :: rest => base rest + extent.start

/-- The byte of a disk that a byte of a volume stands for, if it has one. -/
def Disk.place (disk : Disk τ) : List Extent → Nat → Option Nat
  | [], position => some position
  | extent :: rest, position =>
    if position < 512 * (disk.through (extent :: rest)).sectors then
      disk.place rest (extent.start * 512 + position)
    else none

/-- A volume on a disk lies on it, unless it is empty. -/
theorem Volume.end_le (volume : Volume τ) {sector : Nat} (inside : sector < volume.sectors) :
    volume.start + sector < volume.disk.sectors := by
  have fits := volume.inside
  omega

theorem Disk.place_inside (disk : Disk τ) (path : List Extent)
    {position : Nat} (inside : position < 512 * (disk.through path).sectors) :
    disk.place path position = some (base path * 512 + position) := by
  induction path generalizing position with
  | nil => simp [place, base]
  | cons extent rest induction =>
    have sector : position / 512 < (disk.through (extent :: rest)).sectors := by omega
    have below : extent.start + position / 512 < (disk.through rest).sectors :=
      Volume.end_le (extent.volume (disk.through rest)) sector
    have next : extent.start * 512 + position < 512 * (disk.through rest).sectors := by omega
    simp only [place, if_pos inside, induction next, base]
    rw [Nat.add_mul, Nat.add_assoc]

theorem Disk.place_cons (disk : Disk τ) (extent : Extent) (rest : List Extent) (position : Nat) :
    disk.place (extent :: rest) position =
      if position < 512 * (disk.through (extent :: rest)).sectors then
        some (base (extent :: rest) * 512 + position)
      else
        none := by
  split_ifs with inside
  · exact disk.place_inside _ inside
  · rw [place, if_neg inside]

variable {disk : Disk τ}

theorem Disk.through_reaches {log : τ → List Access} {capacity offset : Nat} {dry : Bool}
    (reaches : disk.Reaches log capacity offset dry) (path : List Extent) :
    (disk.through path).Reaches log capacity (offset + base path) dry := by
  induction path with
  | nil => exact reaches
  | cons extent rest induction =>
    rw [base, ← Nat.add_assoc]
    exact Volume.toDisk_reaches induction

variable {image : τ → Nat → UInt8}

theorem Disk.through_shows (shows : disk.Shows image) (path : List Extent) :
    (disk.through path).Shows fun state position =>
      image state (base path * 512 + position) := by
  induction path with
  | nil => simpa [through, base] using shows
  | cons extent rest induction =>
    have outer : (extent.volume (disk.through rest)).toDisk.Shows _ := Volume.toDisk_shows induction
    unfold Volume.contents at outer
    simp only [Extent.volume_start, ← Nat.add_assoc, ← Nat.add_mul] at outer
    exact outer

/-- A write on the disk replaces the bytes of an image from a sector on. -/
def Disk.Splices (disk : Disk τ) (image : τ → Nat → UInt8) (offset : Nat) : Prop :=
  ∀ state lba buffer, lba + sectorsOf buffer.length ≤ disk.sectors →
    image (disk.write state lba buffer).2 = spliced (image state) ((offset + lba) * 512) buffer

theorem Volume.write_splices {volume : Volume τ}
    {offset : Nat} (splices : volume.disk.Splices image offset) (state : τ)
    (lba : Nat) (buffer : Bytes) :
    image (volume.write state lba buffer).2 =
      spliced (image state) ((offset + volume.start + lba) * 512)
        (buffer.take (volume.clamp lba buffer.length)) := by
  unfold Volume.write
  dsimp only
  split_ifs with nothing
  · rw [nothing, List.take_zero, spliced_nil]
  · rw [splices state _ _ (Volume.take_fits nothing), Nat.add_assoc]

theorem Disk.through_splices (splices : disk.Splices image 0) (path : List Extent) :
    (disk.through path).Splices image (base path) := by
  induction path with
  | nil => exact splices
  | cons extent rest induction =>
    intro state lba buffer fits
    have cut : image ((extent.volume (disk.through rest)).write state lba buffer).2 = _ :=
      Volume.write_splices induction state lba buffer
    rw [Volume.clamp_of_le fits, List.take_length] at cut
    exact cut

/-- Reads move the state of a disk along a relation. -/
def Disk.ReadsMove (disk : Disk τ) (relation : τ → τ → Prop) : Prop :=
  ∀ state lba buffer, relation state (disk.read state lba buffer).2

/-- Writes move the state of a disk along a relation. -/
def Disk.WritesMove (disk : Disk τ) (relation : τ → τ → Prop) : Prop :=
  ∀ state lba buffer, relation state (disk.write state lba buffer).2

section Moves

variable {relation : τ → τ → Prop} (refl : ∀ state, relation state state)

include refl

theorem Disk.through_readsMove (moves : disk.ReadsMove relation) (path : List Extent) :
    (disk.through path).ReadsMove relation := by
  induction path with
  | nil => exact moves
  | cons extent rest induction =>
    intro state lba buffer
    change relation state ((extent.volume (disk.through rest)).read state lba buffer).2
    unfold Volume.read
    dsimp only
    split_ifs
    · exact refl state
    · exact induction _ _ _

theorem Disk.through_writesMove (moves : disk.WritesMove relation) (path : List Extent) :
    (disk.through path).WritesMove relation := by
  induction path with
  | nil => exact moves
  | cons extent rest induction =>
    intro state lba buffer
    change relation state ((extent.volume (disk.through rest)).write state lba buffer).2
    unfold Volume.write
    dsimp only
    split_ifs
    · exact refl state
    · exact induction _ _ _

end Moves

/-- One read of a disk. -/
def Disk.ReadStep (disk : Disk τ) (before after : τ) : Prop :=
  ∃ lba buffer, after = (disk.read before lba buffer).2

/-- A disk that received reads only. -/
def Disk.OnlyRead (disk : Disk τ) : τ → τ → Prop := Relation.ReflTransGen disk.ReadStep

theorem RamOverlay.absorb_onlyRead (inner : Disk τ) (lba : Nat)
    (buffer : Bytes) (state : τ × Shadow) (indices : List Nat) :
    inner.OnlyRead state.1 (indices.foldl (absorb inner lba buffer) state).1 := by
  induction indices generalizing state with
  | nil => exact .refl
  | cons index rest induction =>
    refine Relation.ReflTransGen.trans ?_ (induction _)
    simp only [absorb]
    split_ifs
    · exact .refl
    · exact .single ⟨_, _, rfl⟩

end Paths

/-! ## Sessions -/

inductive Operation where
  | read (buffer : Bytes)
  | write (buffer : Bytes)
  deriving DecidableEq

/-- A request through a volume, at a sector of it. -/
structure Request where
  volume : Extent
  path : List Extent
  lba : Nat
  operation : Operation

inductive Reply where
  | read (sectors : Nat) (buffer : Bytes)
  | wrote (sectors : Nat)
  deriving DecidableEq

section Sessions

variable {σ : Type}

/-- A nest, and the byte last written at a position of its outermost disk. -/
structure Session (σ : Type) (layers : List Layer) where
  disk : NestState σ layers
  written : Nat → Option UInt8

/-- The volume a request is made through. -/
def Request.target {τ : Type} (request : Request) (disk : Disk τ) : Volume τ :=
  request.volume.volume (disk.through request.path)

/-- The byte of the disk that a byte of the buffer of a request belongs to. -/
def Request.place {τ : Type} (request : Request) (disk : Disk τ) (index : Nat) : Option Nat :=
  disk.place (request.volume :: request.path) (request.lba * 512 + index)

/-- Note the bytes of a buffer at their places. -/
def record (place : Nat → Option Nat) (buffer : Bytes)
    (written : Nat → Option UInt8) : Nat → Option UInt8 :=
  (List.range buffer.length).foldl (fun written index =>
      match place index with
      | some position => update written position buffer[index]?
      | none => written)
    written

def serve (device : Disk σ) (layers : List Layer) : Machine (Session σ layers) Request Reply :=
  fun session request =>
    let disk := nest device layers
    let volume := request.target disk
    match request.operation with
    | .read buffer =>
      let ((count, bytes), after) := volume.read session.disk request.lba buffer
      (.read count bytes, { session with disk := after })
    | .write buffer =>
      let (count, after) := volume.write session.disk request.lba buffer
      (.wrote count,
        { disk := after, written := record (request.place disk) buffer session.written })

/-- The disk below the outermost overlay received reads only. -/
def BelowOnlyRead (device : Disk σ) :
    (layers : List Layer) → NestState σ layers → NestState σ layers → Prop
  | [], _, _ => True
  | .extent _ _ :: rest, before, after => BelowOnlyRead device rest before after
  | .overlay :: rest, before, after => (nest device rest).OnlyRead before.1 after.1

/-- Where the accesses of a request may go. -/
structure Contained (device : Disk σ) (layers : List Layer)
    (move : Move (Session σ layers) Request Reply) : Prop where
  inside :
    Grown (accesses layers move.before.disk) (accesses layers move.after.disk) fun access =>
        (shielded layers = true → access.writes = false) ∧
          access.Within device.sectors (offset layers + base (move.input.volume :: move.input.path))
            (move.input.target (nest device layers)).sectors
  below : BelowOnlyRead device layers move.before.disk move.after.disk

/-- A read gives the bytes last written, or else those below. -/
def ReadsBack (device : Disk σ) (image : σ → Nat → UInt8) :
    (layers : List Layer) → Move (Session σ layers) Request Reply → Prop
  | .overlay :: rest, move =>
    ∀ buffer count bytes, move.input.operation = .read buffer →
      move.answer = .read count bytes →
        bytes = (List.range buffer.length).map fun index =>
          match move.input.place (nest device (.overlay :: rest)) index
          with
          | some position =>
            (move.before.written position).getD (contents image rest move.before.disk.1 position)
          | none => 0
  | _, _ => True

/-- An outermost overlay that was just made. -/
def Session.Fresh : (layers : List Layer) → Session σ layers → Prop
  | .overlay :: _, session => session.disk.2 = (fun _ => none) ∧ session.written = fun _ => none
  | _, _ => True

/-! ## Accesses of a request -/

/-- Requests through volumes keep what requests on the nest keep. -/
theorem belowOnlyRead_refl (device : Disk σ) (layers : List Layer)
    (state : NestState σ layers) : BelowOnlyRead device layers state state := by
  induction layers with
  | nil => trivial
  | cons layer rest induction =>
    cases layer with
    | extent start sectors => exact induction state
    | overlay => exact .refl

theorem nest_readsMove (device : Disk σ) (layers : List Layer) :
    (nest device layers).ReadsMove (BelowOnlyRead device layers) := by
  induction layers with
  | nil => exact fun _ _ _ => trivial
  | cons layer rest induction =>
    cases layer with
    | extent start sectors =>
      exact Disk.through_readsMove (belowOnlyRead_refl device rest)
        induction [⟨start, sectors⟩]
    | overlay => exact fun _ lba buffer => .single ⟨lba, buffer, rfl⟩

theorem nest_writesMove (device : Disk σ) (layers : List Layer) :
    (nest device layers).WritesMove (BelowOnlyRead device layers) := by
  induction layers with
  | nil => exact fun _ _ _ => trivial
  | cons layer rest induction =>
    cases layer with
    | extent start sectors =>
      exact Disk.through_writesMove (belowOnlyRead_refl device rest)
        induction [⟨start, sectors⟩]
    | overlay => exact fun state lba buffer => absorb_onlyRead (nest device rest) lba buffer state _

theorem serve_contained (device : Disk σ) (small : device.sectors ≤ 2 ^ 64)
    (layers : List Layer) (session : Session σ layers) (request : Request) :
    Contained device layers ((serve device layers).move session request) := by
  have reaches : (request.target (nest device layers)).disk.Reaches _ _ _ _ :=
    Disk.through_reaches (nest_reaches device small layers) request.path
  have start : offset layers + base request.path + (request.target (nest device layers)).start =
        offset layers + base (request.volume :: request.path) :=
    Nat.add_assoc _ _ _
  obtain ⟨volume, path, lba, operation⟩ := request
  cases operation with
  | read buffer =>
    constructor
    · refine (Volume.read_reaches reaches session.disk lba buffer).mono ?_
      rintro access ⟨reads, _, within⟩
      rw [start] at within
      exact ⟨fun _ => reads, within⟩
    · exact Disk.through_readsMove (belowOnlyRead_refl device layers)
        (nest_readsMove device layers) (volume :: path) _ _ _
  | write buffer =>
    constructor
    · refine (Volume.write_reaches reaches session.disk lba buffer).mono ?_
      rintro access ⟨dries, _, within⟩
      rw [start] at within
      exact ⟨dries, within⟩
    · exact Disk.through_writesMove (belowOnlyRead_refl device layers)
        (nest_writesMove device layers) (volume :: path) _ _ _

/-! ## Bytes of a request -/

/-- The bytes of a buffer inside the volume are the ones it is cut to. -/
theorem Volume.lt_clamp_iff {τ : Type} (volume : Volume τ) (lba : Nat)
    {length index : Nat} (inside : index < length) :
    index < volume.clamp lba length ↔ lba * 512 + index < 512 * volume.sectors := by
  have covered := le_sectorsOf length
  unfold Volume.clamp
  dsimp only
  rw [lt_min_iff]
  constructor
  · rintro ⟨cut, _⟩
    have fewer : min (volume.sectors - lba) (sectorsOf length) ≤ volume.sectors - lba :=
      min_le_left _ _
    generalize min (volume.sectors - lba) (sectorsOf length) = count at *
    omega
  · intro below
    refine ⟨?_, inside⟩
    rcases Nat.le_total (volume.sectors - lba) (sectorsOf length) with
      less | more
    · rw [min_eq_left less]
      omega
    · rw [min_eq_right more]
      omega

/-- Where the bytes of a request go. -/
theorem Request.place_eq {τ : Type} (request : Request) (disk : Disk τ)
    {length index : Nat} (inside : index < length) :
    request.place disk index =
      if index < (request.target disk).clamp request.lba length then
        some ((base (request.volume :: request.path) + request.lba) * 512 + index)
      else
        none := by
  have cut := (request.target disk).lt_clamp_iff request.lba inside
  rw [Request.place, Disk.place_cons]
  rw [Nat.add_mul, Nat.add_assoc]
  exact if_congr cut.symm rfl rfl

theorem spliced_singleton (image : Nat → UInt8) (start : Nat) (byte : UInt8) :
    spliced image start [byte] = update image start byte := by
  funext position
  rcases Nat.lt_trichotomy position start with before | rfl | behind
  · rw [update_of_ne (by omega), spliced, if_neg (by omega)]
  · rw [update_self, spliced, if_pos le_rfl, Nat.sub_self]
    rfl
  · rw [update_of_ne (by omega), spliced, if_pos (by omega),
      List.getD_eq_default _ _ (by simp; omega)]

/-- Noting bytes from a position on replaces what is known of them. -/
theorem getD_record {place : Nat → Option Nat} {buffer : Bytes}
    {written : Nat → Option UInt8} {start amount : Nat}
    (known :
      ∀ index < buffer.length, place index = if index < amount then some (start + index) else none)
    (below : Nat → UInt8) :
    (fun position =>
        (record place buffer written position).getD (below position)) =
      spliced (fun position => (written position).getD (below position)) start
        (buffer.take amount) := by
  -- the invariant of the loop: the first `count` bytes are replaced
  have first : ∀ count ≤ buffer.length, (fun position =>
        ((List.range count).foldl (fun written index =>
            match place index with
            | some position => update written position buffer[index]?
            | none => written)
          written position).getD (below position)) =
        spliced (fun position => (written position).getD (below position))
          start (buffer.take (min count amount)) := by
    intro count
    induction count with
    | zero => simp
    | succ count induction =>
      intro fits
      have before := induction (by omega)
      have bound : count < buffer.length := by omega
      have here : buffer[count]? = some buffer[count] := List.getElem?_eq_getElem bound
      rw [List.range_succ, List.foldl_append, List.foldl_cons,
        List.foldl_nil, known count (by omega)]
      split_ifs with inside
      · have size : (buffer.take count).length = count := List.length_take_of_le (by omega)
        have next : buffer.take (count + 1) = buffer.take count ++ [buffer[count]] := by
          rw [List.take_add_one, here]
          rfl
        rw [min_eq_left inside, next, ← spliced_append, size, spliced_singleton]
        rw [min_eq_left (Nat.le_of_lt inside)] at before
        rw [← before]
        funext position
        dsimp only
        rw [here]
        rcases eq_or_ne position (start + count) with rfl | apart
        · rw [update_self, update_self]
          rfl
        · rw [update_of_ne apart, update_of_ne apart]
      · rw [min_eq_right (by omega)]
        rw [min_eq_right (by omega)] at before
        exact before
  have all := first buffer.length le_rfl
  rw [List.take_eq_take_min, Nat.min_comm]
  exact all

/-- A read through a volume, byte by byte. -/
theorem Request.holds_eq {τ : Type} (request : Request) (disk : Disk τ)
    (image : τ → Nat → UInt8) (state : τ) (length : Nat) :
    (request.target disk).holds (fun state position =>
          image state (base request.path * 512 + position))
        state request.lba length =
      (List.range length).map fun index =>
        match request.place disk index with
        | some position => image state position
        | none => 0 := by
  have cut := (request.target disk).clamp_le request.lba length
  have place : ∀ index < length, request.place disk index = _ :=
    fun index inside => request.place_eq disk inside
  unfold Volume.holds
  generalize (request.target disk).clamp request.lba length = amount at *
  have parts : length = amount + (length - amount) := by omega
  conv_rhs => rw [parts]
  rw [List.range_add, List.map_append, List.map_map]
  congr 1
  · refine List.map_congr_left fun index member => ?_
    have inside := List.mem_range.mp member
    rw [place index (by omega), if_pos inside]
    simp only [Volume.contents, base, Request.target, Extent.volume_start,
      Nat.add_mul, Nat.add_assoc]
  · have zero : ∀ index ∈ List.range (length - amount), ((fun index =>
          match request.place disk index with
          | some position => image state position
          | none => 0) ∘ fun index => amount + index) index = 0 := by
      intro index member
      have inside := List.mem_range.mp member
      simp only [Function.comp_apply]
      rw [place _ (by omega), if_neg (by omega)]
    rw [List.map_congr_left zero, List.map_const', List.length_range]
    rfl

/-! ## Sessions over an overlay -/

section Overlays

variable {device : Disk σ} {image : σ → Nat → UInt8} {rest : List Layer}

/-- What the overlay shows is what was written over what lies below. -/
def Agrees (image : σ → Nat → UInt8) (rest : List Layer)
    (session : Session σ (.overlay :: rest)) : Prop :=
  contents image (.overlay :: rest) session.disk =
    fun position => (session.written position).getD (contents image rest session.disk.1 position)

variable (shows : device.Shows image) (small : device.sectors ≤ 2 ^ 64)

include shows small

theorem onlyRead_contents {before after : NestState σ rest}
    (only : (nest device rest).OnlyRead before after) :
    contents image rest after = contents image rest before := by
  have nested := nest_shows shows small rest
  induction only with
  | refl => rfl
  | tail _ step same =>
    obtain ⟨lba, buffer, rfl⟩ := step
    rw [nested.read_image, same]

theorem overlay_splices :
    (nest device (.overlay :: rest)).Splices (contents image (.overlay :: rest)) 0 := by
  intro state lba buffer fits
  have nested := nest_shows shows small rest
  obtain ⟨kept, changed⟩ :=
    write_spliced nested ((nest_sectors_le device rest).trans small) state fits
  rw [Nat.zero_add]
  change overlaid _ (contents image rest _) = _
  exact (congrArg _ kept).trans changed

theorem serve_readsBack {session : Session σ (.overlay :: rest)}
    (agrees : Agrees image rest session) (request : Request) :
    ReadsBack device image (.overlay :: rest)
      ((serve device (.overlay :: rest)).move session request) := by
  have nested := nest_shows shows small (.overlay :: rest)
  have through : (request.target (nest device (.overlay :: rest))).disk.Shows _ :=
    Disk.through_shows nested request.path
  have seen : contents image (.overlay :: rest) session.disk = _ := agrees
  intro buffer count bytes operation answer
  simp only [Machine.move, serve] at operation answer ⊢
  rw [operation] at answer
  simp only [Reply.read.injEq] at answer
  rw [← answer.2, Volume.read_shows through]
  refine (request.holds_eq _ _ _ _).trans ?_
  rw [seen]

theorem serve_agrees {session : Session σ (.overlay :: rest)}
    (agrees : Agrees image rest session) (request : Request) :
    Agrees image rest (serve device (.overlay :: rest) session request).2 := by
  have nested := nest_shows shows small (.overlay :: rest)
  have kept :
      contents image rest (serve device (.overlay :: rest) session request).2.disk.1 =
        contents image rest session.disk.1 :=
    onlyRead_contents shows small
      (serve_contained device small (.overlay :: rest) session request).below
  have seen : contents image (.overlay :: rest) session.disk = _ := agrees
  -- it suffices to compare with the bytes below before the request
  suffices now :
      contents image (.overlay :: rest) (serve device (.overlay :: rest) session request).2.disk =
        fun position =>
          ((serve device (.overlay :: rest) session request).2.written
            position).getD (contents image rest session.disk.1 position) by
    refine now.trans (funext fun position => ?_)
    exact congrArg _ (congrFun kept.symm position)
  obtain ⟨volume, path, lba, operation⟩ := request
  cases operation with
  | read buffer =>
    have keeps :
        (nest device (.overlay :: rest)).ReadsMove fun before after =>
          contents image (.overlay :: rest) after = contents image (.overlay :: rest) before :=
      nested.read_image
    have through := Disk.through_readsMove ?_ keeps (volume :: path)
    · exact (through session.disk lba buffer).trans seen
    · exact fun _ => rfl
  | write buffer =>
    let request : Request := ⟨volume, path, lba, .write buffer⟩
    have splices : (nest device (.overlay :: rest)).Splices (contents image (.overlay :: rest)) 0 :=
      overlay_splices shows small
    have changed :
        contents image (.overlay :: rest) ((request.target (nest device (.overlay :: rest))).write
              session.disk lba buffer).2 = _ :=
      Volume.write_splices (Disk.through_splices splices path) session.disk lba buffer
    refine changed.trans ?_
    rw [seen]
    exact (getD_record (fun _ inside => request.place_eq _ inside) _).symm

theorem run_readsBack {start : Session σ (.overlay :: rest)}
    (fresh : start.Fresh) (requests : List Request) :
    ∀ move ∈ (serve device (.overlay :: rest)).run start requests,
      ReadsBack device image (.overlay :: rest) move := by
  have agrees : Agrees image rest start := by
    obtain ⟨unshadowed, unwritten⟩ := fresh
    rw [Agrees, unwritten]
    change overlaid start.disk.2 _ = _
    rw [unshadowed]
    rfl
  exact Machine.forall_run_always (fun _ request known => serve_agrees shows small known request)
    (fun _ request known => serve_readsBack shows small known request)
    agrees requests

end Overlays

/--
Through any nest of volumes and overlays, accesses stay inside the volume of
their request, the disk below an overlay is only read, and reads through an
overlay give what was written last.
-/
theorem volumes_and_overlays_contain (device : Disk σ)
    (small : device.sectors < 2 ^ 64) (layers : List Layer)
    (start : Session σ layers) (requests : List Request) :
    ∀ move ∈ (serve device layers).run start requests, Contained device layers move ∧
        ∀ image, device.Shows image → start.Fresh → ReadsBack device image layers move := by
  have contained :
      ∀ move ∈ (serve device layers).run start requests, Contained device layers move :=
    Machine.forall_run_always (fun _ _ _ => trivial) (fun session request (_ : True) =>
        serve_contained device small.le layers session request)
      trivial requests
  refine fun move member => ⟨contained move member, ?_⟩
  intro image shows fresh
  match layers, start, fresh, move, member with
  | [], _, _, _, _ => trivial
  | .extent _ _ :: _, _, _, _, _ => trivial
  | .overlay :: rest, start, fresh, move, member =>
    exact run_readsBack shows small.le fresh requests move member

/-- A device of four sectors with a fixed pattern on it. -/
def patternDevice : Disk Unit where
  sectors := 4
  read _ lba buffer :=
    ((sectorsOf buffer.length, window (fun position => UInt8.ofNat position) (lba * 512)
        buffer.length), ())
  write _ _ _ := (0, ())

theorem patternDevice_shows : patternDevice.Shows fun _ position => UInt8.ofNat position where
  read_image _ _ _ := rfl
  read_shows _ _ _ _ := rfl

/-- Two bytes written at the end of a volume, and reads around them. -/
def shadowedRequests : List Request :=
  [⟨⟨0, 9⟩, [], 1, .write [7, 8]⟩, ⟨⟨0, 9⟩, [], 2 ^ 64 - 1, .write [9]⟩,
    ⟨⟨1, 1⟩, [⟨0, 2⟩], 0, .read (zeros 4)⟩]

/-- An overlay over the two middle sectors of the device, just made. -/
def freshOverlay : Session Unit [.overlay, .extent 1 2] where
  disk := (((), []), fun _ => none)
  written := fun _ => none

theorem shadowed_requests_contained :
    ((serve patternDevice [.overlay, .extent 1 2]).run freshOverlay
          shadowedRequests).map Move.answer =
        [.wrote 1, .wrote 0, .read 1 [7, 8, 2, 3]] ∧
      ∀ move ∈ (serve patternDevice [.overlay, .extent 1 2]).run freshOverlay shadowedRequests,
        Contained patternDevice [.overlay, .extent 1 2] move ∧
          ReadsBack patternDevice (fun _ position => UInt8.ofNat position)
            [.overlay, .extent 1 2] move := by
  refine ⟨by decide +kernel, fun move member => ?_⟩
  obtain ⟨contained, reads⟩ :=
    volumes_and_overlays_contain patternDevice (by decide) _ freshOverlay
      shadowedRequests move member
  exact ⟨contained, reads _ patternDevice_shows ⟨rfl, rfl⟩⟩

end Sessions

end RetroOS.Block
