import RetroOS.Block.Disk
import RetroOS.Lib.Assoc
import RetroOS.Lib.Machine

/-!
# The block cache

A cached disk keeps up to 512 pages of 4096 bytes of the disk below it.  A
page that is asked for again becomes protected; at most 384 pages are.  The
victim of an eviction or of a demotion is the page with the fewest hits, the
least recently used one among those.  A write drops every page it touches
and goes straight to the disk.

`Coherent` is what the cache keeps: every page shows the current contents,
and the limits hold.  A cached volume of fewer than 2^64 bytes serves the
contents of the volume below it.  For a larger volume the byte count of the
cache saturates one short, and the last byte of page 2^52 - 1 reads as zero.
-/

namespace RetroOS.Block

open Lib Lib.Bytes

def pageSize : Nat := 4096

def pageSectors : Nat := 8

def pageLimit : Nat := 512

def protectedLimit : Nat := 384

def frequencyAgeInterval : Nat := 512

/-- Multiplication of `u64` values that stops at the largest one. -/
def saturatingMul (left right : Nat) : Nat := min (left * right) (2 ^ 64 - 1)

/-- Addition of `u64` values that stops at the largest one. -/
def saturatingAdd (left right : Nat) : Nat := min (left + right) (2 ^ 64 - 1)

structure Page where
  data : Bytes
  used : Nat
  hits : Nat
  isProtected : Bool
  deriving DecidableEq

/-- The pages of a cache by number, and its clock. -/
structure Cache where
  pages : Assoc Nat Page
  clock : Nat
  deriving DecidableEq

namespace Cache

def empty : Cache where
  pages := []
  clock := 0

/-- Halve every hit count. -/
def age (pages : Assoc Nat Page) : Assoc Nat Page :=
  List.map (fun entry =>
      (entry.1, { entry.2 with hits := max (entry.2.hits / 2) 1 }))
    pages

/-- The first page with the fewest hits, the oldest among those. -/
def coldest (pages : Assoc Nat Page) : Option Nat :=
  (List.argmin (fun entry : Nat × Page => toLex (entry.2.hits, entry.2.used)) pages).map Prod.fst

/-- The number of protected pages. -/
def protectedCount (pages : Assoc Nat Page) : Nat :=
  List.countP (fun entry => entry.2.isProtected) pages

/-- Make room among the protected pages for one more. -/
def demote (pages : Assoc Nat Page) (page : Nat) : Assoc Nat Page :=
  let promote := ¬ (pages.find page).any Page.isProtected
  if promote ∧ protectedCount pages ≥ protectedLimit then
    match coldest (List.filter (fun entry => entry.1 ≠ page && entry.2.isProtected) pages)
    with
    | some oldest => pages.modify oldest fun cached => { cached with isProtected := false }
    | none => pages
  else pages

/-- A page that is asked for again. -/
def touch (pages : Assoc Nat Page) (page now : Nat) : Assoc Nat Page :=
  (demote pages page).modify page fun cached =>
    { cached with used := now, hits := min (cached.hits + 1) (2 ^ 16 - 1), isProtected := true }

/-- Drop a page when the cache is full, a protected one only as a last resort. -/
def evict (pages : Assoc Nat Page) : Assoc Nat Page :=
  if pages.length = pageLimit then
    match
      (coldest (List.filter (fun entry => !entry.2.isProtected) pages)).orElse
        fun _ => coldest pages
    with
    | some oldest => pages.remove oldest
    | none => pages
  else pages

end Cache

/-! ## The cached disk -/

section Cached

variable {σ : Type} (inner : Disk σ)

/-- Bytes of a page that lie on the disk. -/
def available (page : Nat) : Nat :=
  min (saturatingMul inner.sectors 512 - saturatingMul page pageSize) pageSize

/-- Have a page in the cache; whether it is there. -/
def loadPage (state : σ × Cache) (page : Nat) : Bool × σ × Cache :=
  let now := (state.2.clock + 1) % 2 ^ 64
  let pages :=
    if now % frequencyAgeInterval = 0 then Cache.age state.2.pages
    else state.2.pages
  if pages.contains page then (true, state.1, { pages := Cache.touch pages page now, clock := now })
  else if available inner page = 0 then (false, state.1, { pages, clock := now })
  else
    let ((count, bytes), device) :=
      inner.read state.1 (saturatingMul page pageSectors) (zeros (available inner page))
    if count ≠ sectorsOf (available inner page) then (false, device, { pages, clock := now })
    else
      let data := bytes ++ zeros (pageSize - available inner page)
      let fresh : Page := { data, used := now, hits := 1, isProtected := false }
      (true, device, { pages := (Cache.evict pages).insert page fresh, clock := now })

/-- Copy from page after page, until `valid` bytes are copied. -/
def copyPages (valid : Nat) : Nat → σ × Cache → Nat → Nat → Bytes → (Nat × Bytes) × σ × Cache
  | 0, state, _, _, buffer => ((sectorsOf valid % 2 ^ 32, buffer), state)
  | fuel + 1, state, position, copied, buffer =>
    if copied < valid then
      let page := position / pageSize
      let (loaded, state) := loadPage inner state page
      if ¬ loaded then ((sectorsOf copied % 2 ^ 32, buffer), state)
      else
        let within := position % pageSize
        let amount := min (valid - copied) (pageSize - within)
        match state.2.pages.find page with
        | none => ((sectorsOf copied % 2 ^ 32, buffer), state)
        | some cached =>
          copyPages valid fuel state (position + amount) (copied + amount)
            (put buffer copied (slice cached.data within amount))
    else ((sectorsOf valid % 2 ^ 32, buffer), state)

/-- Every turn of the loop copies at least one byte. -/
def cachedRead (state : σ × Cache) (lba : Nat) (buffer : Bytes) : (Nat × Bytes) × σ × Cache :=
  let start := saturatingMul lba 512
  let valid := min (saturatingMul inner.sectors 512 - start) buffer.length
  let buffer := buffer.take valid ++ zeros (buffer.length - valid)
  copyPages inner valid (valid + 1) state start 0 buffer

/-- Drop the pages of a range of sectors. -/
def invalidate (cache : Cache) (lba length : Nat) : Cache :=
  if length = 0 then cache
  else
    let first := lba / pageSectors
    let lastSector := saturatingAdd lba (sectorsOf length) - 1
    let last := lastSector / pageSectors
    { cache with
      pages := List.filter (fun entry => ¬ (first ≤ entry.1 ∧ entry.1 ≤ last)) cache.pages }

/-- A failed write may have changed something, so the pages go first. -/
def cachedWrite (state : σ × Cache) (lba : Nat) (buffer : Bytes) : Nat × σ × Cache :=
  let cache := invalidate state.2 lba buffer.length
  let (count, device) := inner.write state.1 lba buffer
  (count, device, cache)

/-- A cache over a disk. -/
def cachedDisk : Disk (σ × Cache) where
  sectors := inner.sectors
  read := cachedRead inner
  write := cachedWrite inner

end Cached

/-- A volume with a cache of its own. -/
def cachedVolume {σ : Type} (volume : Volume σ) : Volume (σ × Cache) :=
  .whole (cachedDisk volume.toDisk)

/-! ## Coherence -/

/-- A page shows the contents as far as the disk goes. -/
structure Page.Shows (sectors : Nat) (contents : Nat → UInt8) (number : Nat)
    (page : Page) : Prop where
  whole : page.data.length = pageSize
  bytes :
    slice page.data 0 (min (sectors * 512 - number * pageSize) pageSize) =
      window contents (number * pageSize) (min (sectors * 512 - number * pageSize) pageSize)

/-- The limits hold and no page is there twice. -/
structure Cache.Bounded (pages : Assoc Nat Page) : Prop where
  keyed : pages.Keyed
  length_le : pages.length ≤ pageLimit
  protectedCount_le : protectedCount pages ≤ protectedLimit

variable {pages : Assoc Nat Page}

namespace Cache

/-- The same pages with other bookkeeping. -/
def SameData (before after : Assoc Nat Page) : Prop :=
  ∀ number page, (number, page) ∈ after → ∃ old, (number, old) ∈ before ∧ page.data = old.data

theorem SameData.trans {first second third : Assoc Nat Page}
    (left : SameData first second) (right : SameData second third) :
    SameData first third := by
  intro number page member
  obtain ⟨middle, inside, same⟩ := right number page member
  obtain ⟨old, before, equal⟩ := left number middle inside
  exact ⟨old, before, same.trans equal⟩

theorem modify_sameData {number : Nat}
    {change : Page → Page} (keeps : ∀ page, (change page).data = page.data) :
    SameData pages (pages.modify number change) := by
  intro other page member
  rcases Assoc.mem_modify.mp member with kept | ⟨rfl, old, inside, rfl⟩
  · exact ⟨page, kept.2, rfl⟩
  · exact ⟨old, inside, keeps old⟩

theorem coldest_mem {number : Nat} (found : coldest pages = some number) :
    ∃ page, (number, page) ∈ pages := by
  obtain ⟨entry, known, rfl⟩ := Option.map_eq_some_iff.mp found
  exact ⟨entry.2, List.argmin_mem known⟩

theorem coldest_ne_none (nonempty : pages ≠ []) : coldest pages ≠ none := by
  intro none
  exact nonempty (List.argmin_eq_none.mp (Option.map_eq_none_iff.mp none))

/-! ### Bookkeeping keeps the limits -/

theorem Bounded.age (bounded : Bounded pages) :
    Bounded (age pages) ∧ SameData pages (Cache.age pages) := by
  obtain ⟨keyed, length_le, protected_le⟩ := bounded
  refine ⟨⟨?_, ?_, ?_⟩, ?_⟩
  · simpa [Assoc.Keyed, Assoc.keys, Cache.age, Function.comp_def] using keyed
  · simpa [Cache.age] using length_le
  · simpa [Cache.age, protectedCount, List.countP_map, Function.comp_def] using protected_le
  · intro number page member
    obtain ⟨entry, inside, same⟩ := List.mem_map.mp member
    cases same
    exact ⟨entry.2, inside, rfl⟩

/-- A count of protected pages that leaves out an unprotected one. -/
theorem exists_protected {page : Nat} {cached : Page}
    (keyed : pages.Keyed) (member : (page, cached) ∈ pages)
    (plain : cached.isProtected = false)
    (some : 0 < protectedCount pages) :
    List.filter (fun entry : Nat × Page =>
      entry.1 ≠ page && entry.2.isProtected) pages ≠ [] := by
  obtain ⟨entry, inside, guarded⟩ := List.countP_pos_iff.mp some
  have other : entry.1 ≠ page := by
    rintro rfl
    have equal := (Assoc.find_of_mem keyed member).symm.trans (Assoc.find_of_mem keyed inside)
    rw [Option.some.inj equal, guarded] at plain
    cases plain
  refine List.ne_nil_of_mem (List.mem_filter.mpr ⟨inside, ?_⟩)
  simp [other, guarded]

/-- Demotion leaves room for a page that is not protected yet. -/
theorem demote_bounded {page : Nat} {cached : Page}
    (bounded : Bounded pages) (member : (page, cached) ∈ pages) :
    Bounded (demote pages page) ∧ SameData pages (demote pages page) ∧
      (page, cached) ∈ demote pages page ∧
      (cached.isProtected = false → protectedCount (demote pages page) < protectedLimit) := by
  have identity : SameData pages pages := fun _ found inside => ⟨found, inside, rfl⟩
  have asked : pages.find page = some cached := Assoc.find_of_mem bounded.keyed member
  unfold demote
  simp only [asked, Option.any_some, Bool.not_eq_true]
  split
  · rename_i crowded
    obtain ⟨plain, full⟩ := crowded
    have others :=
      exists_protected bounded.keyed member plain (by unfold protectedLimit at full; omega)
    split
    · rename_i oldest found
      obtain ⟨victim, chosen⟩ := coldest_mem found
      obtain ⟨inside, test⟩ := List.mem_filter.mp chosen
      simp only [ne_eq, decide_not, Bool.and_eq_true, Bool.not_eq_true',
        decide_eq_false_iff_not] at test
      have moved :=
        Assoc.countP_modify (fun entry : Nat × Page => entry.2.isProtected)
          (fun cached => { cached with isProtected := false })
          bounded.keyed inside
      have limit := bounded.protectedCount_le
      simp only [test.2, if_true, Bool.false_eq_true, if_false] at moved
      refine ⟨⟨bounded.keyed.modify _, ?_, ?_⟩, modify_sameData fun _ => rfl, ?_, fun _ => ?_⟩
      · rw [Assoc.length_modify]
        exact bounded.length_le
      · unfold protectedCount at limit ⊢
        omega
      · exact Assoc.mem_modify.mpr (.inl ⟨Ne.symm test.1, member⟩)
      · unfold protectedCount at limit ⊢
        omega
    · rename_i none
      exact absurd none (coldest_ne_none others)
  · rename_i roomy
    refine ⟨bounded, identity, member, fun plain => ?_⟩
    by_contra full
    exact roomy ⟨plain, by omega⟩

theorem touch_bounded {page : Nat} {cached : Page} (now : Nat) (bounded : Bounded pages)
    (member : (page, cached) ∈ pages) :
    Bounded (touch pages page now) ∧ SameData pages (touch pages page now) ∧
      ∃ found, (page, found) ∈ touch pages page now := by
  obtain ⟨demoted, same, kept, room⟩ := demote_bounded bounded member
  have moved :=
    Assoc.countP_modify (fun entry : Nat × Page => entry.2.isProtected) (fun cached =>
        { cached with
          used := now
          hits := min (cached.hits + 1) (2 ^ 16 - 1)
          isProtected := true })
      demoted.keyed kept
  have limit := demoted.protectedCount_le
  simp only [if_true] at moved
  refine ⟨⟨demoted.keyed.modify _, ?_, ?_⟩, same.trans (modify_sameData fun _ => rfl), ?_⟩
  · unfold touch
    rw [Assoc.length_modify]
    exact demoted.length_le
  · unfold touch
    cases plain : cached.isProtected with
    | true =>
      simp only [plain, if_true] at moved
      unfold protectedCount at limit ⊢
      omega
    | false =>
      have below := room plain
      simp only [plain, Bool.false_eq_true, if_false] at moved
      unfold protectedCount at below ⊢
      omega
  · exact ⟨_, Assoc.mem_modify.mpr (.inr ⟨rfl, cached, kept, rfl⟩)⟩

/-- A full cache has a page to drop. -/
theorem exists_victim (nonempty : pages ≠ []) :
    ∃ oldest page, (oldest, page) ∈ pages ∧
      ((coldest (List.filter (fun entry => !entry.2.isProtected) pages)).orElse
        fun _ => coldest pages) = some oldest := by
  cases plain : coldest (List.filter (fun entry => !entry.2.isProtected) pages) with
  | some oldest =>
    obtain ⟨page, member⟩ := coldest_mem plain
    exact ⟨oldest, page, (List.mem_filter.mp member).1, rfl⟩
  | none =>
    obtain ⟨oldest, found⟩ := Option.ne_none_iff_exists'.mp (coldest_ne_none nonempty)
    obtain ⟨page, member⟩ := coldest_mem found
    exact ⟨oldest, page, member, found⟩

theorem evict_bounded (bounded : Bounded pages) :
    (evict pages).Keyed ∧ (evict pages).length < pageLimit ∧
      protectedCount (evict pages) ≤ protectedLimit ∧
      List.Sublist (evict pages) pages := by
  have fits := bounded.length_le
  unfold evict
  split_ifs with full
  · have nonempty : pages ≠ [] := by
      rintro rfl
      simp [pageLimit] at full
    obtain ⟨oldest, page, member, chosen⟩ := exists_victim nonempty
    rw [chosen]
    exact ⟨bounded.keyed.remove oldest, (Assoc.length_remove_lt member).trans_le fits,
      (List.filter_sublist.countP_le).trans bounded.protectedCount_le, List.filter_sublist⟩
  · exact ⟨bounded.keyed, by omega, bounded.protectedCount_le, List.Sublist.refl pages⟩

end Cache

/-- Every page shows the contents, and the limits hold. -/
structure Coherent (sectors : Nat) (contents : Nat → UInt8) (cache : Cache) :
    Prop where
  bounded : Cache.Bounded cache.pages
  shows : ∀ number page, (number, page) ∈ cache.pages → page.Shows sectors contents number

theorem empty_coherent (sectors : Nat) (contents : Nat → UInt8) :
    Coherent sectors contents .empty where
  bounded := ⟨List.nodup_nil, Nat.zero_le _, Nat.zero_le _⟩
  shows _ _ member := by cases member

theorem Coherent.sameData {sectors : Nat} {contents : Nat → UInt8} {cache : Cache} (clock : Nat)
    (coherent : Coherent sectors contents cache)
    (bounded : Cache.Bounded pages)
    (same : Cache.SameData cache.pages pages) :
    Coherent sectors contents { pages, clock } where
  bounded := bounded
  shows number page member := by
    obtain ⟨old, before, equal⟩ := same number page member
    have shown := coherent.shows number old before
    exact ⟨equal ▸ shown.whole, equal ▸ shown.bytes⟩

/-- A fresh page takes the place of an evicted one. -/
theorem Coherent.insert {sectors : Nat} {contents : Nat → UInt8}
    {cache : Cache} {number : Nat} {fresh : Page} (clock : Nat)
    (coherent : Coherent sectors contents cache)
    (absent : ∀ page, (number, page) ∉ cache.pages)
    (shown : fresh.Shows sectors contents number)
    (plain : fresh.isProtected = false) :
    Coherent sectors contents
      { pages := (Cache.evict cache.pages).insert number fresh, clock } := by
  obtain ⟨keyed, room, protected_le, kept⟩ := Cache.evict_bounded coherent.bounded
  have gone : ∀ page, (number, page) ∉ Cache.evict cache.pages :=
    fun page member => absent page (kept.subset member)
  refine ⟨⟨keyed.insert number fresh, ?_, ?_⟩, ?_⟩
  · simp only [Assoc.length_insert gone]
    omega
  · unfold Cache.protectedCount at protected_le ⊢
    simp only [(Assoc.insert_perm fresh).countP_eq, List.countP_cons, plain,
      Assoc.remove_of_absent gone]
    exact protected_le
  · intro other page member
    rcases Assoc.mem_insert.mp member with ⟨rfl, rfl⟩ | ⟨-, old⟩
    · exact shown
    · exact coherent.shows other page (kept.subset old)

section Load

variable {σ : Type} {inner : Disk σ} {valid : σ → Prop}
    {contents : σ → Nat → UInt8} (serves : inner.Serves valid contents)
    (small : inner.sectors * 512 < 2 ^ 64)

/-- The states in which a cached disk serves the contents of the disk below. -/
def CachedValid (inner : Disk σ) (valid : σ → Prop)
    (contents : σ → Nat → UInt8) (state : σ × Cache) : Prop :=
  valid state.1 ∧ Coherent inner.sectors (contents state.1) state.2

/-- A page that was loaded. -/
def Loaded (inner : Disk σ) (contents : σ → Nat → UInt8) (state : σ × Cache) (page : Nat) : Prop :=
  ∃ cached, state.2.pages.find page = some cached ∧
    cached.Shows inner.sectors (contents state.1) page

theorem Coherent.loaded {state : σ × Cache} {page : Nat} {cached : Page}
    (coherent : Coherent inner.sectors (contents state.1) state.2)
    (member : (page, cached) ∈ state.2.pages) :
    Loaded inner contents state page :=
  ⟨cached, Assoc.find_of_mem coherent.bounded.keyed member, coherent.shows page cached member⟩

include small in
theorem available_eq (page : Nat) :
    available inner page = min (inner.sectors * 512 - page * pageSize) pageSize := by
  unfold available saturatingMul
  rw [min_eq_left (show inner.sectors * 512 ≤ 2 ^ 64 - 1 by omega)]
  rcases Nat.lt_or_ge (page * pageSize) (2 ^ 64) with below | above
  · rw [min_eq_left (show page * pageSize ≤ 2 ^ 64 - 1 by omega)]
  · rw [min_eq_right (show 2 ^ 64 - 1 ≤ page * pageSize by omega)]
    omega

include serves small in
/-- What a whole read of a page gives, filled up with zeros. -/
theorem loaded_shows {device : σ} {page : Nat} (valid_device : valid device)
    (some : available inner page ≠ 0)
    (whole :
      (inner.read device (saturatingMul page pageSectors) (zeros (available inner page))).1.1 =
        sectorsOf (available inner page))
    (now : Nat) :
    Page.Shows inner.sectors (contents device) page
      { data :=
          (inner.read device (saturatingMul page pageSectors) (zeros (available inner page))).1.2 ++
              zeros (pageSize - available inner page)
        used := now
        hits := 1
        isProtected := false } := by
  have bytes := available_eq small page
  have on_disk : page * pageSize < inner.sectors * 512 := by omega
  have sector : saturatingMul page pageSectors = page * pageSectors := by
    unfold saturatingMul pageSectors
    unfold pageSize at on_disk
    exact min_eq_left (by omega)
  have fits :
      page * pageSectors + sectorsOf (available inner page) ≤
        inner.sectors := by
    have covered : sectorsOf (available inner page) ≤ inner.sectors - page * pageSectors := by
      refine sectorsOf_le ?_
      unfold pageSize at bytes
      unfold pageSectors
      omega
    unfold pageSize at on_disk
    unfold pageSectors at covered ⊢
    omega
  rw [sector] at whole ⊢
  have read :=
    serves.read_ok valid_device
      (by rw [length_zeros]; exact fits) (by rw [length_zeros]; exact whole)
  rw [length_zeros] at read
  have place : page * pageSectors * 512 = page * pageSize := by
    unfold pageSectors pageSize
    omega
  refine ⟨?_, ?_⟩
  · rw [read, List.length_append, length_window, length_zeros]
    omega
  · rw [← bytes, read, slice_append_of_le (by simp), slice_all_of_length
      (length_window _ _ _), place]

include serves small in
theorem loadPage_valid {state : σ × Cache}
    (valid_state : CachedValid inner valid contents state) (page : Nat) :
    CachedValid inner valid contents (loadPage inner state page).2 ∧
      contents (loadPage inner state page).2.1 = contents state.1 ∧
      ((loadPage inner state page).1 = true →
        Loaded inner contents (loadPage inner state page).2 page) := by
  obtain ⟨device, cache⟩ := state
  obtain ⟨valid_device, coherent⟩ := valid_state
  -- Ageing is only bookkeeping.
  have aged :
      ∀ now, Cache.Bounded (if now % frequencyAgeInterval = 0 then Cache.age cache.pages
            else cache.pages) ∧
        Cache.SameData cache.pages (if now % frequencyAgeInterval = 0 then Cache.age cache.pages
            else cache.pages) := by
    intro now
    split
    · exact coherent.bounded.age
    · exact ⟨coherent.bounded, fun _ found inside => ⟨found, inside, rfl⟩⟩
  unfold loadPage
  dsimp only at valid_device coherent ⊢
  generalize (cache.clock + 1) % 2 ^ 64 = now
  obtain ⟨bounded, same⟩ := aged now
  generalize (if now % frequencyAgeInterval = 0 then Cache.age cache.pages
    else cache.pages) = pages at bounded same ⊢
  have current := coherent.sameData now bounded same
  split
  · rename_i present
    obtain ⟨cached, found⟩ := Option.isSome_iff_exists.mp present
    obtain ⟨touched, unchanged, again, member⟩ :=
      Cache.touch_bounded now bounded (Assoc.mem_of_find found)
    have coherent := current.sameData now touched unchanged
    exact ⟨⟨valid_device, coherent⟩, rfl, fun _ => coherent.loaded member⟩
  · rename_i missing
    have absent := Assoc.contains_eq_false bounded.keyed (Bool.not_eq_true _ ▸ missing)
    split
    · exact ⟨⟨valid_device, current⟩, rfl, by simp⟩
    · rename_i some
      have kept := serves.read_contents valid_device
        (saturatingMul page pageSectors) (zeros (available inner page))
      have valid_after := serves.read_valid valid_device
        (saturatingMul page pageSectors) (zeros (available inner page))
      have shown := loaded_shows serves small valid_device some
      rw [← kept] at current shown
      split
      · exact ⟨⟨valid_after, current⟩, kept, by simp⟩
      · rename_i whole
        have coherent := current.insert now absent (shown (not_not.mp whole) now) rfl
        exact ⟨⟨valid_after, coherent⟩, kept, fun _ =>
          coherent.loaded (Assoc.mem_insert.mpr (.inl ⟨rfl, rfl⟩))⟩

/-- Where a page shows the contents, a copy from it copies them. -/
theorem Page.Shows.slice {sectors : Nat} {contents : Nat → UInt8}
    {position amount : Nat} {page : Page}
    (shown : page.Shows sectors contents (position / pageSize))
    (inside : position % pageSize + amount ≤ pageSize)
    (on_disk : position + amount ≤ sectors * 512) :
    Bytes.slice page.data (position % pageSize) amount = window contents position amount := by
  have parts : position / pageSize * pageSize + position % pageSize = position := by
    rw [Nat.mul_comm]
    exact Nat.div_add_mod position pageSize
  have covered :
      position % pageSize + amount ≤
        min (sectors * 512 - position / pageSize * pageSize) pageSize := by
    omega
  calc
    _ = Bytes.slice (Bytes.slice page.data 0
            (min (sectors * 512 - position / pageSize * pageSize) pageSize))
          (position % pageSize) amount := by
        rw [slice_slice page.data covered, Nat.zero_add]
    _ = window contents (position / pageSize * pageSize + position % pageSize) amount := by
        rw [shown.bytes, slice_window contents covered]
    _ = _ := by rw [parts]

/--
What copying leaves: the contents as they were, and in the buffer the image
when all sectors are reported.
-/
structure Copies (inner : Disk σ) (valid : σ → Prop)
    (contents : σ → Nat → UInt8) (image : Nat → UInt8)
    (start bytes length : Nat) (result : (Nat × Bytes) × σ × Cache) :
    Prop where
  valid_state : CachedValid inner valid contents result.2
  same : contents result.2.1 = image
  length_eq : result.1.2.length = length
  copied : result.1.1 = sectorsOf bytes → result.1.2.take bytes = window image start bytes

omit serves small in
/-- Copying ends early only with fewer sectors than asked for. -/
theorem sectorsOf_short {copied bytes : Nat} (short : copied < bytes) (aligned : copied % 512 = 0) :
    sectorsOf copied % 2 ^ 32 ≠ sectorsOf bytes := by
  have less : sectorsOf copied < sectorsOf bytes := by
    unfold sectorsOf
    omega
  exact ((Nat.mod_le _ _).trans_lt less).ne

/-- Appending a piece to what was copied. -/
theorem take_put {buffer piece : Bytes} {copied : Nat}
    (fits : copied + piece.length ≤ buffer.length) :
    (put buffer copied piece).take (copied + piece.length) = buffer.take copied ++ piece := by
  have front : (buffer.take copied ++ piece).length = copied + piece.length := by
    rw [List.length_append, List.length_take, min_eq_left (by omega)]
  rw [put, ← List.append_assoc, List.take_left' front]

include serves small in
theorem copyPages_copies {image : Nat → UInt8} {start bytes length : Nat}
    (aligned : start % 512 = 0)
    (on_disk : start + bytes ≤ inner.sectors * 512)
    (fits : bytes ≤ length) (fuel : Nat) {state : σ × Cache} {copied : Nat}
    {buffer : Bytes} (valid_state : CachedValid inner valid contents state)
    (same : contents state.1 = image) (long : buffer.length = length)
    (progress : copied = bytes ∨ copied < bytes ∧ copied % 512 = 0)
    (taken : buffer.take copied = window image start copied)
    (enough : bytes - copied < fuel) :
    Copies inner valid contents image start bytes length
      (copyPages inner bytes fuel state (start + copied) copied buffer) := by
  induction fuel generalizing state copied buffer with
  | zero => omega
  | succ fuel induction =>
    rw [copyPages]
    dsimp only
    split
    · rename_i short
      obtain ⟨valid_after, kept, loaded⟩ :=
        loadPage_valid serves small valid_state ((start + copied) / pageSize)
      have early : sectorsOf copied % 2 ^ 32 ≠ sectorsOf bytes := sectorsOf_short short (by omega)
      split
      · exact ⟨valid_after, kept.trans same, long, fun all => absurd all early⟩
      · rename_i present
        obtain ⟨cached, found, shown⟩ := loaded (by simpa using present)
        rw [found]
        dsimp only
        generalize amount_eq :
          min (bytes - copied) (pageSize - (start + copied) % pageSize) = amount
        have place := Nat.mod_lt (start + copied) (show 0 < pageSize by decide)
        have piece :=
          shown.slice (show (start + copied) % pageSize + amount ≤ pageSize by omega) (by omega)
        rw [kept, same] at piece
        have room :
            copied + (window image (start + copied) amount).length ≤
              buffer.length := by
          rw [length_window]
          omega
        rw [piece, Nat.add_assoc]
        refine induction valid_after (kept.trans same) ((length_put room).trans long) ?_ ?_ ?_
        · -- A piece ends at a page, which is a whole number of sectors.
          unfold pageSize at amount_eq place
          omega
        · have step := take_put room
          rw [length_window] at step
          rw [step, taken, window_append]
        · omega
    · have all : copied = bytes := by omega
      exact ⟨valid_state, same, long, fun _ => all ▸ taken⟩

/-- The bytes of a read that lie on the disk. -/
def readBytes (inner : Disk σ) (lba length : Nat) : Nat :=
  min (saturatingMul inner.sectors 512 - saturatingMul lba 512) length

include small in
theorem readBytes_on_disk (lba length : Nat) :
    readBytes inner lba length = 0 ∨
      (saturatingMul lba 512 = lba * 512 ∧
        lba * 512 + readBytes inner lba length ≤ inner.sectors * 512) := by
  unfold readBytes saturatingMul
  rw [min_eq_left (show inner.sectors * 512 ≤ 2 ^ 64 - 1 by omega)]
  omega

include serves small in
theorem cachedRead_copies {state : σ × Cache}
    (valid_state : CachedValid inner valid contents state) (lba : Nat)
    (buffer : Bytes) :
    Copies inner valid contents (contents state.1) (lba * 512)
      (readBytes inner lba buffer.length) buffer.length
      (cachedRead inner state lba buffer) := by
  have short : readBytes inner lba buffer.length ≤ buffer.length := min_le_right _ _
  have placed := readBytes_on_disk small lba buffer.length
  unfold cachedRead
  dsimp only
  rw [← readBytes]
  generalize readBytes inner lba buffer.length = bytes at *
  have long : (buffer.take bytes ++ zeros (buffer.length - bytes)).length = buffer.length := by
    rw [List.length_append, List.length_take, length_zeros]
    omega
  rcases placed with rfl | ⟨start, on_disk⟩
  · rw [copyPages, if_neg (Nat.lt_irrefl 0)]
    refine ⟨valid_state, rfl, long, fun _ => ?_⟩
    rw [window_zero, List.take_zero]
  · have progress : 0 = bytes ∨ 0 < bytes ∧ 0 % 512 = 0 := by omega
    have copies := copyPages_copies serves small (Nat.mul_mod_left lba 512) on_disk short (bytes + 1)
      valid_state rfl long progress (by rw [window_zero, List.take_zero]) (by omega)
    rw [start]
    rwa [Nat.add_zero (lba * 512)] at copies

end Load

/-! ## What a cached disk serves -/

section Serves

variable {σ : Type} {inner : Disk σ} {valid : σ → Prop}
    {contents : σ → Nat → UInt8} (serves : inner.Serves valid contents)
    (small : inner.sectors * 512 < 2 ^ 64)

include serves small

/-- The pages a write leaves show what it left. -/
theorem invalidate_coherent {state : σ × Cache}
    (valid_state : CachedValid inner valid contents state) (lba : Nat)
    (buffer : Bytes) :
    Coherent inner.sectors (contents (inner.write state.1 lba buffer).2)
      (invalidate state.2 lba buffer.length) := by
  obtain ⟨valid_device, ⟨bounded, shows⟩⟩ := valid_state
  have untouched (number : Nat) (page : Page) (member : (number, page) ∈ state.2.pages) (outside :
        buffer.length = 0 ∨
          ¬ (lba / pageSectors ≤ number ∧
            number ≤ (saturatingAdd lba (sectorsOf buffer.length) - 1) / pageSectors)) :
      page.Shows inner.sectors (contents (inner.write state.1 lba buffer).2) number := by
    obtain ⟨whole, bytes⟩ := shows number page member
    refine ⟨whole, bytes.trans (window_congr fun position lower upper => ?_)⟩
    refine (serves.write_frame valid_device ?_).symm
    by_contra touched
    unfold saturatingAdd pageSectors at outside
    unfold pageSize at lower upper
    unfold sectorsOf at outside touched
    omega
  unfold invalidate
  split
  · rename_i nothing
    exact ⟨bounded, fun number page member => untouched number page member (.inl nothing)⟩
  · refine ⟨⟨?_, ?_, ?_⟩, ?_⟩
    · exact bounded.keyed.sublist (List.filter_sublist.map Prod.fst)
    · exact (List.length_filter_le _ _).trans bounded.length_le
    · exact (List.filter_sublist.countP_le).trans bounded.protectedCount_le
    · intro number page member
      obtain ⟨old, kept⟩ := List.mem_filter.mp member
      exact untouched number page old (.inr (of_decide_eq_true kept))

/--
A cache over a disk of fewer than 2^64 bytes serves the contents of the disk.
-/
theorem cachedDisk_serves :
    (cachedDisk inner).Serves (CachedValid inner valid contents) fun state => contents state.1 where
  read_valid valid_state lba buffer :=
    (cachedRead_copies serves small valid_state lba buffer).valid_state
  read_contents valid_state lba buffer :=
    (cachedRead_copies serves small valid_state lba buffer).same
  read_length valid_state lba buffer :=
    (cachedRead_copies serves small valid_state lba buffer).length_eq
  read_ok := by
    intro state valid_state lba buffer fits whole
    have copies := cachedRead_copies serves small valid_state lba buffer
    have all : readBytes inner lba buffer.length = buffer.length := by
      have capacity : lba + sectorsOf buffer.length ≤ inner.sectors := fits
      have room := le_sectorsOf buffer.length
      unfold readBytes saturatingMul
      rw [min_eq_left (show inner.sectors * 512 ≤ 2 ^ 64 - 1 by omega),
        min_eq_left (show lba * 512 ≤ 2 ^ 64 - 1 by omega)]
      omega
    have copied := copies.copied (by rw [all]; exact whole)
    have length := copies.length_eq
    rw [all, ← length, List.take_length, length] at copied
    exact copied
  write_valid valid_state lba buffer :=
    ⟨serves.write_valid valid_state.1 lba buffer,
      invalidate_coherent serves small valid_state lba buffer⟩
  write_frame valid_state := serves.write_frame valid_state.1
  write_ok valid_state := serves.write_ok valid_state.1

end Serves

/-! ## Runs -/

inductive BlockCall where
  | read (lba : Nat) (buffer : Bytes)
  | write (lba : Nat) (buffer : Bytes)
  deriving DecidableEq

/-- The sectors reported, and the buffer a read left. -/
inductive BlockAnswer where
  | read (count : Nat) (buffer : Bytes)
  | write (count : Nat)
  deriving DecidableEq

section Runs

variable {σ : Type}

/-- A volume under a sequence of requests. -/
def volumeMachine (volume : Volume σ) : Machine σ BlockCall BlockAnswer
  | state, .read lba buffer =>
    let ((count, buffer), state) := volume.read state lba buffer
    (.read count buffer, state)
  | state, .write lba buffer =>
    let (count, state) := volume.write state lba buffer
    (.write count, state)

/--
One request on a cached volume: a read that reports all its sectors gave what
the volume holds, as would any uncached read that reports them; a write that
reports all its sectors is on the disk; the limits hold.
-/
structure Transparent (volume : Volume σ) (valid : σ → Prop)
    (image : σ → Nat → UInt8)
    (move : Move (σ × Cache) BlockCall BlockAnswer) : Prop where
  read :
    ∀ lba buffer count bytes, move.input = .read lba buffer → move.answer = .read count bytes →
        count = sectorsOf (volume.clamp lba buffer.length) →
          bytes = volume.holds image move.before.1 lba buffer.length ∧
          ∀ device, valid device → image device = image move.before.1 →
            (volume.read device lba buffer).1.1 = sectorsOf (volume.clamp lba buffer.length) →
              (volume.read device lba buffer).1 = (count, bytes)
  write :
    ∀ lba buffer count, move.input = .write lba buffer → move.answer = .write count →
        count = sectorsOf (volume.clamp lba buffer.length) →
          window (volume.contents image move.after.1) (lba * 512) (volume.clamp lba buffer.length) =
            buffer.take (volume.clamp lba buffer.length)
  pages_le : move.after.2.pages.length ≤ pageLimit
  protected_le : Cache.protectedCount move.after.2.pages ≤ protectedLimit

variable {volume : Volume σ} {valid : σ → Prop} {image : σ → Nat → UInt8}
    (serves : volume.disk.Serves valid image)
    (small : volume.sectors * 512 < 2 ^ 64)

include serves small

/-- The disk below a cached volume, with its cache. -/
theorem cachedVolume_serves :
    (cachedVolume volume).disk.Serves (CachedValid volume.toDisk valid (volume.contents image))
      fun state => volume.contents image state.1 :=
  cachedDisk_serves (Volume.toDisk_serves serves) small

omit serves small in
/-- A cached volume covers what the volume covers. -/
@[simp]
theorem cachedVolume_clamp (lba length : Nat) :
    (cachedVolume volume).clamp lba length = volume.clamp lba length :=
  rfl

omit serves small in
@[simp]
theorem cachedVolume_contents (state : σ × Cache) :
    (cachedVolume volume).contents (fun state => volume.contents image state.1) state =
      volume.contents image state.1 := by
  funext position
  simp [Volume.contents, cachedVolume, Volume.whole]

theorem volumeMachine_valid {state : σ × Cache} (valid_state :
      CachedValid volume.toDisk valid (volume.contents image) state)
    (call : BlockCall) :
    CachedValid volume.toDisk valid (volume.contents image)
      (volumeMachine (cachedVolume volume) state call).2 := by
  cases call with
  | read lba buffer =>
    exact Volume.read_valid (cachedVolume_serves serves small) valid_state lba buffer
  | write lba buffer =>
    exact Volume.write_valid (cachedVolume_serves serves small) valid_state lba buffer

theorem volumeMachine_transparent {state : σ × Cache} (valid_state :
      CachedValid volume.toDisk valid (volume.contents image) state)
    (call : BlockCall) :
    Transparent volume valid image ((volumeMachine (cachedVolume volume)).move state call) := by
  have cached := cachedVolume_serves serves small
  have after := volumeMachine_valid serves small valid_state call
  refine ⟨?_, ?_, after.2.bounded.length_le, after.2.bounded.protectedCount_le⟩
  · intro lba buffer count bytes input answer all
    cases input
    cases answer
    have held := Volume.read_holds cached valid_state all
    simp only [Volume.holds, cachedVolume_contents, cachedVolume_clamp] at held
    refine ⟨held, fun device valid_device equal uncached => ?_⟩
    have direct := Volume.read_holds serves valid_device uncached
    have same : volume.contents image device = volume.contents image state.1 := by
      unfold Volume.contents
      rw [equal]
      rfl
    refine Prod.ext (uncached.trans all.symm) (direct.trans ?_)
    rw [Volume.holds, same]
    exact held.symm
  · intro lba buffer count input answer all
    cases input
    cases answer
    have stored := Volume.write_holds cached valid_state all
    simp only [cachedVolume_contents, cachedVolume_clamp] at stored
    exact stored

/--
The cache is transparent on every run on a volume of fewer than 2^64 bytes,
whatever the disk fails.
-/
theorem cache_transparent {device : σ} (valid_device : valid device) (calls : List BlockCall) :
    ∀ move ∈ (volumeMachine (cachedVolume volume)).run (device, .empty) calls,
      Transparent volume valid image move :=
  Machine.forall_run_always (fun _ call valid_state =>
      volumeMachine_valid serves small valid_state call)
    (fun _ call valid_state => volumeMachine_transparent serves small valid_state call)
    ⟨valid_device, empty_coherent _ _⟩ calls

end Runs

/-! ## Two volumes -/

/-- A disk of one byte value that fails reads while its state says so. -/
def patternDisk (sectors : Nat) (byte : UInt8) : Disk Bool where
  sectors
  read failing _ buffer :=
    if failing then ((0, buffer), false)
    else ((sectorsOf buffer.length, List.replicate buffer.length byte), false)
  write failing _ _ := (0, failing)

theorem sectorsOf_eq_zero {buffer : Bytes} : sectorsOf buffer.length = 0 ↔ buffer = [] := by
  rw [← List.length_eq_zero_iff]
  unfold sectorsOf
  omega

theorem patternDisk_serves (sectors : Nat) (byte : UInt8) :
    (patternDisk sectors byte).Serves (fun _ => True) fun _ _ => byte where
  read_valid _ _ _ := trivial
  read_contents _ _ _ := rfl
  read_length := by
    intro state _ lba buffer
    cases state <;> simp [patternDisk]
  read_ok := by
    intro state _ lba buffer _ all
    cases state with
    | false => simp [patternDisk, window, List.map_const']
    | true =>
      have zero : sectorsOf buffer.length = 0 := all.symm
      rw [sectorsOf_eq_zero.mp zero]
      rfl
  write_valid _ _ _ := trivial
  write_frame _ _ _ _ _ := rfl
  write_ok := by
    intro state _ lba buffer _ all
    have zero : sectorsOf buffer.length = 0 := all.symm
    rw [sectorsOf_eq_zero.mp zero]
    rfl

/-- A read fails once, is repeated, and is then served by the cache. -/
theorem repeated_read_is_transparent :
    let volume := Volume.new (patternDisk 20 7) 4 16
    let calls := List.replicate 3 (BlockCall.read 15 (zeros 600))
    ((volumeMachine (cachedVolume volume)).run (true, .empty) calls).map Move.answer =
      [.read 0 (zeros 600), .read 1 (List.replicate 512 7 ++ zeros 88),
        .read 1 (List.replicate 512 7 ++ zeros 88)] ∧
    ∀ move ∈ (volumeMachine (cachedVolume volume)).run (true, .empty) calls,
      Transparent volume (fun _ => True) (fun _ _ => 7) move := by
  intro volume calls
  refine ⟨by decide +kernel, ?_⟩
  exact cache_transparent (patternDisk_serves 20 7) (by decide) trivial calls

/--
A disk of 2^55 sectors full of ones.  The cached read of its last sector
reports the sector and ends with a zero.
-/
theorem last_byte_of_huge_volume_reads_zero :
    let volume := Volume.whole (patternDisk (2 ^ 55) 1)
    let call := BlockCall.read (2 ^ 55 - 1) (zeros 512)
    ((volumeMachine (cachedVolume volume)).move (false, .empty) call).answer =
        .read 1 (List.replicate 511 1 ++ [0]) ∧
      (volume.read false (2 ^ 55 - 1) (zeros 512)).1 = (1, List.replicate 512 1) ∧
      volume.disk.Serves (fun _ => True) (fun _ _ => 1) ∧
      ¬ Transparent volume (fun _ => True) (fun _ _ => 1)
        ((volumeMachine (cachedVolume volume)).move (false, .empty) call) := by
  intro volume call
  have answered :
      ((volumeMachine (cachedVolume volume)).move (false, .empty) call).answer =
        .read 1 (List.replicate 511 1 ++ [0]) := by
    decide +kernel
  have uncached : (volume.read false (2 ^ 55 - 1) (zeros 512)).1 = (1, List.replicate 512 1) := by
    decide +kernel
  have whole : 1 = sectorsOf (volume.clamp (2 ^ 55 - 1) (zeros 512).length) := by decide +kernel
  have serves := patternDisk_serves (2 ^ 55) 1
  refine ⟨answered, uncached, serves, ?_⟩
  intro transparent
  have read :=
    transparent.read (2 ^ 55 - 1) (zeros 512) 1 (List.replicate 511 1 ++ [0]) rfl answered whole
  have agreed := read.2 false trivial rfl (by rw [uncached]; exact whole)
  rw [uncached] at agreed
  have last := congrArg (fun answer : Nat × Bytes => answer.2[511]?) agreed
  revert last
  decide +kernel

end RetroOS.Block
