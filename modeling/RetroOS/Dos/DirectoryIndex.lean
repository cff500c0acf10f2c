import RetroOS.Dos.Alias
import RetroOS.Lib.Assoc
import RetroOS.Lib.Machine

/-!
# The directory index

For every directory the DOS layer keeps the aliases of its entries, sorted, and
finds a path component among them by binary search.  The aliases are given out
one entry at a time in the order of the listing.  The indexes are cached until
the generation of the file system changes.

An entry whose name fits is not compared with the aliases before it, so it can
share one: with an entry whose name differs in case only, and with an earlier
entry whose generated alias is that very name (`index_goes_wrong`).  All other
entries get an alias of their own, up to the number of tails.
-/

namespace RetroOS.Dos

open Lib Lib.Bytes

def slash : UInt8 := 0x2f

/-! ## Listings -/

/-- An entry as the file system lists it. -/
structure DirEntry where
  name : Bytes
  size : Nat
  isDir : Bool
  isSymlink : Bool
  mtime : Nat
  deriving DecidableEq

/-- An entry as the index has it. -/
structure Entry where
  original : Bytes
  size : Nat
  isDir : Bool
  mtime : Nat
  deriving DecidableEq

/-- Aliases and their entries. -/
abbrev DirCi : Type := List (Bytes × Entry)

/-- What the index asks the file system. -/
structure Namespace where
  generation : Nat
  readdir : Bytes → List DirEntry
  dirExists : Bytes → Bool
  /-- Where other file systems are mounted. -/
  mounts : List Bytes

/-- A directory with a slash behind it, unless it is the root. -/
def readdirKey (dir : Bytes) : Bytes :=
  if dir ≠ [] ∧ dir.getLast? ≠ some slash then dir ++ [slash] else dir

/-- A link to a directory is shown as a directory. -/
def shownAsDir (ns : Namespace) (key : Bytes) (listed : DirEntry) : Bool :=
  listed.isDir || (listed.isSymlink && ns.dirExists (key ++ listed.name))

def pushEntry (ns : Namespace) (key : Bytes) (entries : DirCi) (listed : DirEntry) : DirCi :=
  entries ++ [(computeAlias83 listed.name (entries.map Prod.fst),
      { original := listed.name
        size := listed.size
        isDir := shownAsDir ns key listed
        mtime := listed.mtime })]

/-- The entries with their aliases, in the order of the listing. -/
def collect (ns : Namespace) (dir : Bytes) : DirCi :=
  (ns.readdir (readdirKey dir)).foldl (pushEntry ns (readdirKey dir)) []

def build (ns : Namespace) (dir : Bytes) : DirCi :=
  (collect ns dir).mergeSort fun first second => first.1 ≤ second.1

/-! ## The cache -/

structure Ci where
  generation : Nat
  cache : Assoc Bytes DirCi

namespace Ci

def boot : Ci where
  generation := 2 ^ 64 - 1
  cache := []

/-- A directory without the slash behind it. -/
def norm (dir : Bytes) : Bytes := if dir.getLast? = some slash then dir.dropLast else dir

/-- Drop everything when the file system has changed. -/
def refresh (ci : Ci) (ns : Namespace) : Ci :=
  if ci.generation ≠ ns.generation then { generation := ns.generation, cache := [] }
  else ci

def ensureCached (ci : Ci) (ns : Namespace) (dir : Bytes) : DirCi × Ci :=
  match (ci.refresh ns).cache.find (norm dir) with
  | some index => (index, ci.refresh ns)
  | none =>
    (build ns (norm dir),
      { ci.refresh ns with cache := (ci.refresh ns).cache.insert (norm dir) (build ns (norm dir)) })

end Ci

/-! ## Mount points -/

def eqIgnoreCase (first second : Bytes) : Bool := upper first = upper second

/-- A path without slashes at its ends. -/
def stripSlashes (path : Bytes) : Bytes :=
  ((path.dropWhile (· = slash)).reverse.dropWhile (· = slash)).reverse

/-- What stands before and behind the last slash. -/
def splitParent (path : Bytes) : Bytes × Bytes :=
  match path.reverse.findIdx? (· = slash) with
  | some back => (path.take (path.length - 1 - back), path.drop (path.length - back))
  | none => ([], path)

/-- The name of a mount point in a directory. -/
def mountChild (mounts : List Bytes) (parent name : Bytes) : Option Bytes :=
  mounts.findSome? fun mount =>
    let path := Ci.norm mount
    if path = [] then none
    else if eqIgnoreCase (splitParent path).1 (stripSlashes parent) &&
        eqIgnoreCase (splitParent path).2 name then
      some (splitParent path).2
    else none

/-! ## Lookups -/

namespace Ci

/-- The name of the entry with an alias, or of a mount point. -/
def lookup (ci : Ci) (ns : Namespace) (dir wanted : Bytes) : Option Bytes × Ci :=
  let (index, after) := ci.ensureCached ns dir
  match binarySearch (index.map Prod.fst) wanted with
  | some position => ((index[position]?).map fun entry => entry.2.original, after)
  | none => (mountChild ns.mounts dir wanted, after)

/-- The entry at a place in the order of the aliases. -/
def entryAt (ci : Ci) (ns : Namespace) (dir : Bytes) (position : Nat) :
    Option (Bytes × Entry) × Ci :=
  let (index, after) := ci.ensureCached ns dir
  (index[position]?, after)

def invalidate (ci : Ci) (dir : Bytes) : Ci := { ci with cache := ci.cache.remove (norm dir) }

end Ci

inductive CiRequest where
  | lookup (dir wanted : Bytes)
  | entryAt (dir : Bytes) (position : Nat)
  | invalidate (dir : Bytes)

def ciMachine (ns : Namespace) : Machine Ci CiRequest (Option Bytes)
  | ci, .lookup dir wanted => ci.lookup ns dir wanted
  | ci, .entryAt dir position =>
    (((ci.entryAt ns dir position).1).map Prod.fst, (ci.entryAt ns dir position).2)
  | ci, .invalidate dir => (none, ci.invalidate dir)

/-! ## Aliases in the order of the listing -/

/-- Every entry has the alias computed from those before it. -/
def Assigned (entries : DirCi) : Prop :=
  ∀ position entry, entries[position]? = some entry →
    entry.1 = computeAlias83 entry.2.original ((entries.take position).map Prod.fst)

theorem Assigned.pushEntry {entries : DirCi} (assigned : Assigned entries)
    (ns : Namespace) (key : Bytes) (listed : DirEntry) :
    Assigned (pushEntry ns key entries listed) := by
  intro position entry found
  have below := (List.getElem?_eq_some_iff.mp found).1
  simp only [Dos.pushEntry, List.length_append, List.length_singleton] at below
  rcases Nat.lt_succ_iff_lt_or_eq.mp below with earlier | rfl
  · rw [Dos.pushEntry, List.getElem?_append_left earlier] at found
    rw [Dos.pushEntry, List.take_append_of_le_length earlier.le]
    exact assigned position entry found
  · rw [Dos.pushEntry, List.getElem?_concat_length] at found
    rw [Dos.pushEntry, List.take_left, ← Option.some.inj found]

theorem foldl_pushEntry (ns : Namespace) (key : Bytes) (listing : List DirEntry) {entries : DirCi}
    (assigned : Assigned entries) :
    Assigned (listing.foldl (pushEntry ns key) entries) ∧
      (listing.foldl (pushEntry ns key) entries).length = entries.length + listing.length := by
  induction listing generalizing entries with
  | nil => exact ⟨assigned, rfl⟩
  | cons listed rest induction =>
    obtain ⟨later, count⟩ := induction (assigned.pushEntry ns key listed)
    refine ⟨later, ?_⟩
    rw [List.foldl_cons, count]
    simp only [pushEntry, List.length_append, List.length_cons, List.length_nil]
    omega

theorem collect_assigned (ns : Namespace) (dir : Bytes) : Assigned (collect ns dir) :=
  (foldl_pushEntry ns _ _ fun _ _ found => by cases found).1

section Entries

variable {entries : DirCi} (assigned : Assigned entries) {position : Nat}
    {entry : Bytes × Entry} (found : entries[position]? = some entry)

include assigned found

theorem Assigned.uppercase : upper entry.1 = entry.1 := by
  rw [assigned position entry found]
  exact upper_computeAlias83 _ _

theorem Assigned.keeps (fits : fits83 entry.2.original = true) :
    entry.1 = upper entry.2.original := by
  rw [assigned position entry found]
  exact computeAlias83_of_fits fits _

/-- A generated alias is valid and none of those before it. -/
theorem Assigned.generated (long : fits83 entry.2.original = false) (few : position < maxTail) :
    Valid83 entry.1 ∧ ∀ other ∈ entries.take position, other.1 ≠ entry.1 := by
  have fewer : ((entries.take position).map Prod.fst).length < maxTail := by
    rw [List.length_map, List.length_take]
    omega
  obtain ⟨valid, free⟩ := computeAlias83_spec long fewer
  rw [← assigned position entry found] at valid free
  refine ⟨valid, fun other member same => free ?_⟩
  rw [← same]
  exact List.mem_map_of_mem member

/-- An alias that is the name of an entry in upper case. -/
theorem Assigned.fits_of_alias (few : position < maxTail) {name : Bytes}
    (same : entry.1 = upper name) : fits83 name = true := by
  rw [← fits83_upper, ← same]
  cases fits : fits83 entry.2.original with
  | true =>
    rw [assigned.keeps found fits, fits83_upper]
    exact fits
  | false => exact (assigned.generated found fits few).1.fits

end Entries

/-- Two entries share an alias only by the name of the later one. -/
theorem Assigned.shared_iff {entries : DirCi} (assigned : Assigned entries)
    {earlier later : Nat} {first second : Bytes × Entry}
    (before : earlier < later) (few : later < maxTail)
    (foundFirst : entries[earlier]? = some first)
    (foundSecond : entries[later]? = some second) :
    upper first.1 = upper second.1 ↔
      fits83 second.2.original = true ∧ first.1 = upper second.2.original := by
  rw [assigned.uppercase foundFirst, assigned.uppercase foundSecond]
  cases fits : fits83 second.2.original with
  | true => simp [assigned.keeps foundSecond fits]
  | false =>
    have member : first ∈ entries.take later := by
      refine List.mem_iff_getElem?.mpr ⟨earlier, ?_⟩
      rw [List.getElem?_take_of_lt before]
      exact foundFirst
    simpa using (assigned.generated foundSecond fits few).2 first member

/-! ## What the cache returns -/

theorem mem_build {ns : Namespace} {dir : Bytes} {entry : Bytes × Entry} :
    entry ∈ build ns dir ↔ entry ∈ collect ns dir :=
  (List.mergeSort_perm _ _).mem_iff

theorem build_sorted (ns : Namespace) (dir : Bytes) :
    ((build ns dir).map Prod.fst).Pairwise (· ≤ ·) := by
  rw [List.pairwise_map]
  have sorted := @List.pairwise_mergeSort _
    (fun first second : Bytes × Entry => decide (first.1 ≤ second.1))
    (fun a b c ab bc => decide_eq_true ((of_decide_eq_true ab).trans (of_decide_eq_true bc)))
    (fun a b => by simpa using le_total a.1 b.1) (collect ns dir)
  exact sorted.imp fun le => of_decide_eq_true le

/-- Indexes of the present generation are those of the file system. -/
def Ci.Coherent (ci : Ci) (ns : Namespace) : Prop :=
  ci.generation = ns.generation → ∀ dir index, (dir, index) ∈ ci.cache → index = build ns dir

section Cache

variable {ci : Ci} {ns : Namespace}

theorem boot_coherent (ns : Namespace) : Ci.boot.Coherent ns :=
  fun _ _ _ member => absurd member List.not_mem_nil

theorem refresh_coherent (coherent : ci.Coherent ns) :
    ∀ dir index, (dir, index) ∈ (ci.refresh ns).cache → index = build ns dir := by
  unfold Ci.refresh
  split_ifs with changed
  · exact fun _ _ member => absurd member List.not_mem_nil
  · exact coherent (not_not.mp changed)

theorem ensureCached_spec (coherent : ci.Coherent ns) (dir : Bytes) :
    (ci.ensureCached ns dir).1 = build ns (Ci.norm dir) ∧
      (ci.ensureCached ns dir).2.Coherent ns := by
  have known := refresh_coherent coherent
  unfold Ci.ensureCached
  split
  · rename_i index found
    exact ⟨known _ _ (Assoc.mem_of_find found), fun _ => known⟩
  · refine ⟨rfl, fun _ other index member => ?_⟩
    rcases Assoc.mem_insert.mp member with ⟨rfl, rfl⟩ | ⟨_, earlier⟩
    · rfl
    · exact known other index earlier

theorem ciMachine_coherent (coherent : ci.Coherent ns)
    (request : CiRequest) : (ciMachine ns ci request).2.Coherent ns := by
  cases request with
  | lookup dir wanted =>
    have kept := (ensureCached_spec coherent dir).2
    simp only [ciMachine, Ci.lookup]
    split <;> exact kept
  | entryAt dir position => exact (ensureCached_spec coherent dir).2
  | invalidate dir =>
    exact fun same other index member => coherent same other index (Assoc.mem_remove.mp member).2

/-- A lookup finds an entry with the alias, if there is one. -/
theorem lookup_spec (coherent : ci.Coherent ns) (dir wanted : Bytes) :
    (∃ entry ∈ collect ns (Ci.norm dir), entry.1 = wanted ∧
        (ci.lookup ns dir wanted).1 = some entry.2.original) ∨
      (∀ entry ∈ collect ns (Ci.norm dir), entry.1 ≠ wanted) ∧
        (ci.lookup ns dir wanted).1 = mountChild ns.mounts dir wanted := by
  have index := (ensureCached_spec coherent dir).1
  unfold Ci.lookup
  dsimp only
  rw [index]
  cases found : binarySearch ((build ns (Ci.norm dir)).map Prod.fst) wanted with
  | some position =>
    have there := getElem?_of_binarySearch found
    rw [List.getElem?_map] at there
    obtain ⟨entry, atPosition, rfl⟩ := Option.map_eq_some_iff.mp there
    refine .inl ⟨entry, mem_build.mp (List.mem_of_getElem? atPosition), rfl, ?_⟩
    simp [atPosition]
  | none =>
    refine .inr ⟨fun entry member same => ?_, rfl⟩
    obtain ⟨position, other⟩ := binarySearch_of_mem (build_sorted ns (Ci.norm dir))
      (List.mem_map_of_mem (f := Prod.fst) (mem_build.mpr member))
    rw [same, found] at other
    cases other

end Cache

/-! ## The law of the index -/

/-- What holds of the aliases of a directory and of lookups in it. -/
structure IndexLaw (ns : Namespace) (ci : Ci) (dir : Bytes) : Prop where
  keeps :
    ∀ entry ∈ collect ns (Ci.norm dir),
      fits83 entry.2.original = true → entry.1 = upper entry.2.original
  /-- Only a dot at an end of a name that fits makes its alias invalid. -/
  valid :
    ∀ position entry, (collect ns (Ci.norm dir))[position]? = some entry →
      position < maxTail →
      (Valid83 entry.1 ↔
        (fits83 entry.2.original = true →
          entry.2.original.head? ≠ some dot ∧ entry.2.original.getLast? ≠ some dot))
  /-- Aliases are shared only with a later entry whose name fits. -/
  shared :
    ∀ earlier later first second, earlier < later → later < maxTail →
      (collect ns (Ci.norm dir))[earlier]? = some first →
      (collect ns (Ci.norm dir))[later]? = some second →
      (upper first.1 = upper second.1 ↔
        fits83 second.2.original = true ∧ first.1 = upper second.2.original)
  /-- An alias leads to an entry that has it. -/
  found :
    ∀ entry ∈ collect ns (Ci.norm dir), ∃ other ∈ collect ns (Ci.norm dir), other.1 = entry.1 ∧
        (ci.lookup ns dir entry.1).1 = some other.2.original
  /-- A name that fits leads to its entry, if no other has the alias. -/
  byName :
    ∀ entry ∈ collect ns (Ci.norm dir), ∀ name, upper name = upper entry.2.original →
      fits83 entry.2.original = true →
      (∀ other ∈ collect ns (Ci.norm dir), other.1 = entry.1 → other = entry) →
      (ci.lookup ns dir (upper name)).1 = some entry.2.original
  /-- A name that does not fit leads to no entry. -/
  longName :
    ∀ entry ∈ collect ns (Ci.norm dir), (collect ns (Ci.norm dir)).length ≤ maxTail →
      fits83 entry.2.original = false →
      (ci.lookup ns dir (upper entry.2.original)).1 =
        mountChild ns.mounts dir (upper entry.2.original)

section Law

variable {ci : Ci} {ns : Namespace}

theorem lookup_of_mem (coherent : ci.Coherent ns) (dir : Bytes)
    {entry : Bytes × Entry} (member : entry ∈ collect ns (Ci.norm dir)) :
    ∃ other ∈ collect ns (Ci.norm dir), other.1 = entry.1 ∧
      (ci.lookup ns dir entry.1).1 = some other.2.original := by
  rcases lookup_spec coherent dir entry.1 with there | ⟨none, _⟩
  · exact there
  · exact absurd rfl (none entry member)

theorem indexLaw (coherent : ci.Coherent ns) (dir : Bytes) : IndexLaw ns ci dir := by
  have assigned := collect_assigned ns (Ci.norm dir)
  have keeps : ∀ entry ∈ collect ns (Ci.norm dir), fits83 entry.2.original = true →
        entry.1 = upper entry.2.original := by
    intro entry member fits
    obtain ⟨position, found⟩ := List.mem_iff_getElem?.mp member
    exact assigned.keeps found fits
  refine
    { keeps
      valid := fun position entry found few => ?_
      shared := fun earlier later first second before few => assigned.shared_iff before few
      found := fun entry member => lookup_of_mem coherent dir member
      byName := fun entry member name same fits only => ?_
      longName := fun entry member few long => ?_ }
  · cases fits : fits83 entry.2.original with
    | true =>
      rw [assigned.keeps found fits, valid83_upper_iff fits]
      simp
    | false =>
      exact iff_of_true (assigned.generated found fits few).1
        (fun impossible => by cases impossible)
  · obtain ⟨other, there, sameAlias, result⟩ := lookup_of_mem coherent dir member
    rw [same, ← keeps entry member fits, result, only other there sameAlias]
  · rcases lookup_spec coherent dir (upper entry.2.original) with
      ⟨other, there, same, _⟩ | ⟨_, result⟩
    · obtain ⟨position, found⟩ := List.mem_iff_getElem?.mp there
      have below := (List.getElem?_eq_some_iff.mp found).1
      rw [assigned.fits_of_alias found (by omega) same] at long
      cases long
    · exact result

end Law

/-- An empty file. -/
def plainFile (name : Bytes) : DirEntry where
  name
  size := 0
  isDir := false
  isSymlink := false
  mtime := 0

/-- A file system with the same files in every directory. -/
def plainDirectory (names : List Bytes) : Namespace where
  generation := 0
  readdir _ := names.map plainFile
  dirExists _ := false
  mounts := []

theorem collect_plain (names : List Bytes) (dir : Bytes) :
    collect (plainDirectory names) dir =
      (names.map plainFile).foldl (pushEntry (plainDirectory []) (readdirKey dir)) [] :=
  rfl

def spell (characters : List Char) : Bytes := characters.map Char.toUInt8

/-- A name of 20 illegal characters. -/
def blankName (number : Nat) : Bytes :=
  (List.range 20).map fun bit => if number.testBit bit then 0x2b else 0x20

theorem mem_blankName {number : Nat} {byte : UInt8}
    (member : byte ∈ blankName number) : byte = 0x2b ∨ byte = 0x20 := by
  obtain ⟨bit, _, rfl⟩ := List.mem_map.mp member
  split_ifs
  · exact .inl rfl
  · exact .inr rfl

theorem blankName_spec (number : Nat) :
    stem (blankName number) = blankName number ∧
      fits83 (blankName number) = false ∧
      tailAlias (baseClean (blankName number)) (extClean (blankName number)) = tailAlias [] [] := by
  have illegal : ∀ byte ∈ blankName number, isDosLegal byte = false := by
    intro byte member
    rcases mem_blankName member with rfl | rfl <;> decide
  have noDot : ∀ byte ∈ blankName number, byte ≠ dot := by
    intro byte member
    rcases mem_blankName member with rfl | rfl <;> decide
  have cleaned : ∀ part : Bytes, part ⊆ blankName number → clean part = [] := by
    intro part inside
    rw [clean, List.filter_eq_nil_iff.mpr fun byte member => by
      simp [illegal byte (inside member)]]
    rfl
  have stemEq := (stem_of_no_dot noDot).1
  refine ⟨stemEq, ?_, ?_⟩
  · have short : ¬ 1 < (blankName number).count dot := by
      rw [List.count_eq_zero.mpr fun member => noDot dot member rfl]
      decide
    have long : 8 < (stem (blankName number)).length ∨
        3 < (extension (blankName number)).length := by
      left
      rw [stemEq]
      simp [blankName]
    rw [fits83, if_neg short, if_pos long]
  · rw [baseClean, extClean, cleaned _ (List.take_subset _ _), cleaned _ (List.drop_subset _ _)]
    rfl

theorem blankName_injective {first second : Nat} (firstSmall : first < 2 ^ 20)
    (secondSmall : second < 2 ^ 20)
    (same : blankName first = blankName second) : first = second := by
  refine Nat.eq_of_testBit_eq fun bit => ?_
  by_cases small : bit < 20
  · have here := List.map_inj_left.mp same bit (List.mem_range.mpr small)
    revert here
    cases first.testBit bit <;> cases second.testBit bit <;> simp
  · have large : 2 ^ 20 ≤ 2 ^ bit := Nat.pow_le_pow_right (by decide) (by omega)
    rw [Nat.testBit_lt_two_pow (firstSmall.trans_le large),
      Nat.testBit_lt_two_pow (secondSmall.trans_le large)]

def crowded (count : Nat) : List Bytes := (List.range count).map blankName

theorem collect_crowded_succ (count : Nat) (dir : Bytes) :
    (collect (plainDirectory (crowded (count + 1))) dir).map Prod.fst =
      (collect (plainDirectory (crowded count)) dir).map Prod.fst ++
        [computeAlias83 (blankName count) ((collect (plainDirectory (crowded count)) dir).map
            Prod.fst)] := by
  rw [collect_plain, collect_plain, crowded, List.range_succ,
    List.map_append, List.map_append, List.foldl_append]
  exact List.map_append

/-- The names take one number after the other. -/
theorem collect_crowded {count : Nat} (few : count ≤ maxTail) (dir : Bytes) :
    (collect (plainDirectory (crowded count)) dir).map Prod.fst =
      (List.range' 1 count).map (tailAlias [] []) := by
  induction count with
  | zero => rfl
  | succ count induction =>
    obtain ⟨_, long, tails⟩ := blankName_spec count
    rw [collect_crowded_succ, induction (by omega), computeAlias83, long,
      tails, firstFree_succ (fun _ _ => tailAlias_injective) few,
      List.range'_1_concat, List.map_append, Nat.add_comm 1 count]
    rfl

/-- The name after the last number keeps its illegal characters. -/
theorem crowded_last (dir : Bytes) :
    ∃ entry, (collect (plainDirectory (crowded (maxTail + 1))) dir)[maxTail]?
        = some entry ∧ ¬ Valid83 entry.1 := by
  have aliases : (collect (plainDirectory (crowded (maxTail + 1))) dir).map
      Prod.fst = (List.range' 1 maxTail).map (tailAlias [] []) ++ [upper (blankName maxTail)] := by
    obtain ⟨_, long, tails⟩ := blankName_spec maxTail
    rw [collect_crowded_succ, collect_crowded le_rfl, computeAlias83, long,
      tails, firstFree_eq_none]
    rfl
  have last : ((collect (plainDirectory (crowded (maxTail + 1))) dir).map
      Prod.fst)[maxTail]? = some (upper (blankName maxTail)) := by
    rw [aliases, List.getElem?_append_right (by simp)]
    simp
  rw [List.getElem?_map] at last
  obtain ⟨entry, found, same⟩ := Option.map_eq_some_iff.mp last
  refine ⟨entry, found, fun valid => ?_⟩
  have short := valid.stemLength
  rw [same, stem_upper, (blankName_spec maxTail).1, length_upper] at short
  simp [blankName] at short

theorem crowded_nodup : (crowded (maxTail + 1)).Nodup := by
  refine List.Nodup.map_on (fun first inFirst second inSecond => ?_) List.nodup_range
  rw [List.mem_range, maxTail] at inFirst inSecond
  exact blankName_injective (by omega) (by omega)

end RetroOS.Dos
