import RetroOS.Dos.Mcb

/-!
# The chain of memory control blocks

Blocks must lie apart, each behind its own header, between the heap start and
segment 0xA000; the headers in guest memory must lead from the heap start to
exactly 0xA000 and tell of every block and every gap; a call that fails must
change nothing and report a size that can be had.

Two calls break this.  Keeping a block resident records whatever segment and
size it is given.  A request on a heap without a free paragraph reports 0 as
the largest size, but a request for 0 paragraphs fails as well.
`mcb_chain_sound`: the law holds in every run in which blocks are kept apart
from the others and requests find a free paragraph.
-/

namespace RetroOS.Dos

open Lib

/-! ## Blocks -/

/-- Two blocks with their headers do not meet. -/
def Apart (left right : DosMemBlock) : Prop :=
  left.seg + left.paras < right.seg ∨ right.seg + right.paras < left.seg

instance (left right : DosMemBlock) : Decidable (Apart left right) :=
  inferInstanceAs (Decidable (_ ∨ _))

theorem Apart.symm {left right : DosMemBlock} (apart : Apart left right) : Apart right left :=
  Or.symm apart

/-- A block lies with its header between the heap start and the end. -/
structure DosMemBlock.Inside (base : Nat) (block : DosMemBlock) : Prop where
  low : base < block.seg
  seg_lt : block.seg < conventionalEnd
  high : block.seg + block.paras ≤ conventionalEnd
  owner_lt : block.owner < 2 ^ 16

structure DosHeap.Sound (heap : DosHeap) : Prop where
  low : heap.heapBaseSeg < conventionalEnd
  psp_lt : heap.currentPsp < 2 ^ 16
  inside : ∀ block ∈ heap.blocks, block.Inside heap.heapBaseSeg
  apart : heap.blocks.Pairwise Apart

/-- Blocks one behind the other from a paragraph on. -/
def Ordered : Nat → List DosMemBlock → Prop
  | walk, [] => walk ≤ conventionalEnd
  | walk, block :: rest => walk < block.seg ∧ Ordered (block.seg + block.paras) rest

variable {block : DosMemBlock}

namespace Ordered

variable {walk : Nat} {sorted : List DosMemBlock}

theorem le_end (ordered : Ordered walk sorted) : walk ≤ conventionalEnd := by
  induction sorted generalizing walk with
  | nil => exact ordered
  | cons block rest induction =>
    have next := induction ordered.2
    have here := ordered.1
    omega

theorem lt_seg (ordered : Ordered walk sorted) : ∀ block ∈ sorted, walk < block.seg := by
  induction sorted generalizing walk with
  | nil => simp
  | cons first rest induction =>
    intro block member
    rcases List.mem_cons.mp member with rfl | later
    · exact ordered.1
    · have next := induction ordered.2 block later
      have here := ordered.1
      omega

theorem stop_eq {rest : List DosMemBlock} (ordered : Ordered walk (block :: rest)) :
    block.stop = block.seg + block.paras := by
  have small := ordered.2.le_end
  unfold conventionalEnd at small
  exact min_eq_left (by omega)

end Ordered

variable {sorted : List DosMemBlock}

theorem ordered_of_pairwise {base walk : Nat} (start : walk ≤ conventionalEnd)
    (behind : ∀ block ∈ sorted, walk < block.seg)
    (inside : ∀ block ∈ sorted, block.Inside base)
    (apart : sorted.Pairwise fun left right => left.seg + left.paras < right.seg) :
    Ordered walk sorted := by
  induction sorted generalizing walk with
  | nil => exact start
  | cons block rest induction =>
    obtain ⟨first, others⟩ := List.pairwise_cons.mp apart
    refine ⟨behind block List.mem_cons_self, induction ?_ first ?_ others⟩
    · exact (inside block List.mem_cons_self).high
    · exact fun other member => inside other (List.mem_cons_of_mem _ member)

theorem mem_sortedBlocks {blocks : List DosMemBlock} :
    block ∈ sortedBlocks blocks ↔ block ∈ blocks :=
  (List.perm_insertionSort _ blocks).mem_iff

variable {heap : DosHeap}

/-- The sorted blocks of a sound heap lie one behind the other. -/
theorem DosHeap.Sound.ordered (sound : heap.Sound) :
    Ordered heap.heapBaseSeg (sortedBlocks heap.blocks) := by
  have inside : ∀ block ∈ sortedBlocks heap.blocks, block.Inside heap.heapBaseSeg :=
    fun block member => sound.inside block (mem_sortedBlocks.mp member)
  have apart : (sortedBlocks heap.blocks).Pairwise Apart :=
    (List.perm_insertionSort _ heap.blocks).symm.pairwise sound.apart Apart.symm
  have sorted : (sortedBlocks heap.blocks).Pairwise fun left right =>
      left.seg ≤ right.seg :=
    List.pairwise_insertionSort _ _
  refine ordered_of_pairwise sound.low.le (fun block member => (inside block member).low) inside ?_
  refine (apart.and sorted).imp fun {left right} both => ?_
  rcases both.1 with before | behind
  · exact before
  · have order := both.2
    omega

/-! ## Headers -/

/-- The header of a block. -/
def DosMemBlock.entry (block : DosMemBlock) : McbEntry where
  seg := block.mcb
  owner := block.owner
  paras := block.paras

/-- Headers that lead from a paragraph to the end. -/
def Linked : Nat → List McbEntry → Prop
  | start, [] => start = conventionalEnd
  | start, entry :: rest => entry.seg = start ∧ Linked (start + 1 + entry.paras) rest

/-- A header of a gap: no block meets it. -/
def McbEntry.Free (entry : McbEntry) (blocks : List DosMemBlock) : Prop :=
  entry.owner = 0 ∧
    ∀ block ∈ blocks, entry.seg + entry.paras < block.mcb ∨ block.seg + block.paras ≤ entry.seg

theorem chainEntries_linked {walk : Nat} (ordered : Ordered walk sorted) :
    Linked walk (chainEntries walk sorted) := by
  induction sorted generalizing walk with
  | nil =>
    have start := ordered.le_end
    unfold chainEntries
    split_ifs with room
    · refine ⟨rfl, ?_⟩
      change walk + 1 + (conventionalEnd - walk - 1) = conventionalEnd
      omega
    · change walk = conventionalEnd
      omega
  | cons block rest induction =>
    have here := ordered.1
    have next := induction ordered.2
    have header : block.mcb + 1 = block.seg := by
      unfold DosMemBlock.mcb
      omega
    have linked : Linked block.mcb (block.entry :: chainEntries block.stop rest) := by
      refine ⟨rfl, ?_⟩
      change Linked (block.mcb + 1 + block.paras) _
      rw [header, ordered.stop_eq]
      exact next
    unfold chainEntries
    split_ifs with gap
    · refine ⟨rfl, ?_⟩
      change Linked (walk + 1 + (block.mcb - walk - 1)) _
      rw [show walk + 1 + (block.mcb - walk - 1) = block.mcb by omega]
      exact linked
    · rw [List.nil_append, show walk = block.mcb by omega]
      exact linked

/-- The gaps from a paragraph on: where each starts, and its size with a header. -/
def gaps : Nat → List DosMemBlock → List (Nat × Nat)
  | walk, [] => if walk < conventionalEnd then [(walk, conventionalEnd - walk)] else []
  | walk, block :: rest =>
    (if walk < block.mcb then [(walk, block.mcb - walk)] else []) ++ gaps block.stop rest

def DosHeap.gaps (heap : DosHeap) : List (Nat × Nat) :=
  Dos.gaps heap.heapBaseSeg (sortedBlocks heap.blocks)

/-- A gap touches no block. -/
theorem gaps_spec {walk : Nat} (ordered : Ordered walk sorted) :
    ∀ gap ∈ gaps walk sorted, walk ≤ gap.1 ∧ 0 < gap.2 ∧ gap.1 + gap.2 ≤ conventionalEnd ∧
      ∀ block ∈ sorted, gap.1 + gap.2 ≤ block.mcb ∨ block.seg + block.paras ≤ gap.1 := by
  induction sorted generalizing walk with
  | nil =>
    intro gap member
    unfold gaps at member
    split_ifs at member with room
    · cases List.mem_singleton.mp member
      exact ⟨le_rfl, by omega, by omega, by simp⟩
    · cases member
  | cons block rest induction =>
    have here := ordered.1
    have last := ordered.2.le_end
    have below := ordered.2.lt_seg
    rw [gaps, ordered.stop_eq]
    intro gap member
    rcases List.mem_append.mp member with own | later
    · split_ifs at own with room
      · cases List.mem_singleton.mp own
        unfold DosMemBlock.mcb at *
        refine ⟨le_rfl, by omega, by omega, List.forall_mem_cons.mpr
          ⟨.inl (by omega), fun other behind => .inl ?_⟩⟩
        have order := below other behind
        omega
      · cases own
    · obtain ⟨least, some, most, free⟩ := induction ordered.2 gap later
      exact ⟨by omega, some, most, List.forall_mem_cons.mpr ⟨.inr least, free⟩⟩

/-- A free paragraph lies in a gap. -/
theorem exists_gap {walk paragraph : Nat} (ordered : Ordered walk sorted)
    (least : walk ≤ paragraph) (most : paragraph < conventionalEnd)
    (free : ∀ block ∈ sorted, paragraph < block.mcb ∨ block.seg + block.paras ≤ paragraph) :
    ∃ gap, gap ∈ gaps walk sorted := by
  induction sorted generalizing walk with
  | nil => exact ⟨_, by rw [gaps, if_pos (by omega)]; exact List.mem_singleton_self _⟩
  | cons block rest induction =>
    rw [gaps, ordered.stop_eq]
    obtain ⟨own, others⟩ := List.forall_mem_cons.mp free
    rcases own with before | behind
    · exact ⟨_, List.mem_append_left _ (by rw [if_pos (by omega)]; exact List.mem_singleton_self _)⟩
    · obtain ⟨gap, member⟩ := induction ordered.2 behind others
      exact ⟨gap, List.mem_append_right _ member⟩

/-- Every header belongs to a block or to a gap. -/
theorem mem_chainEntries {walk : Nat} {entry : McbEntry} :
    entry ∈ chainEntries walk sorted ↔
      (∃ block ∈ sorted, entry = block.entry) ∨
        ∃ gap ∈ gaps walk sorted, entry = { seg := gap.1, owner := 0, paras := gap.2 - 1 } := by
  induction sorted generalizing walk with
  | nil =>
    unfold chainEntries gaps
    split_ifs <;> simp
  | cons block rest induction =>
    rw [chainEntries, gaps, List.mem_append, List.mem_cons, induction]
    simp only [List.mem_append, List.mem_cons, or_and_right, exists_or, exists_eq_left,
      DosMemBlock.entry]
    split_ifs <;> simp [or_assoc, or_left_comm]

theorem chainEntries_cases {walk : Nat} (ordered : Ordered walk sorted) :
    ∀ entry ∈ chainEntries walk sorted,
      (∃ block ∈ sorted, entry = block.entry) ∨ entry.Free sorted := by
  intro entry member
  refine (mem_chainEntries.mp member).imp_right ?_
  rintro ⟨gap, inside, rfl⟩
  obtain ⟨-, some, -, free⟩ := gaps_spec ordered gap inside
  refine ⟨rfl, fun block inside => (free block inside).imp_left fun before => ?_⟩
  change gap.1 + (gap.2 - 1) < block.mcb
  omega

/-! ## The chain in memory -/

/-- Read a number of two bytes. -/
def readWord (memory : Memory UInt8) (address : Nat) : Nat :=
  (memory address).toNat + (memory (address + 1)).toNat * 2 ^ 8

/-- The header at a paragraph. -/
def readEntry (memory : Memory UInt8) (seg : Nat) : McbEntry where
  seg
  owner := readWord memory (seg * 16 + 1)
  paras := readWord memory (seg * 16 + 3)

/-- The headers a guest finds from a paragraph on. -/
def walkChain (memory : Memory UInt8) : Nat → Nat → Option (List McbEntry)
  | 0, _ => none
  | fuel + 1, seg =>
    let entry := readEntry memory seg
    if memory (seg * 16) = markLast then some [entry]
    else if memory (seg * 16) = markMore then
      (walkChain memory fuel (seg + 1 + entry.paras)).map (entry :: ·)
    else none

variable {seg : Nat}

theorem readEntry_congr {memory other : Memory UInt8}
    (same : ∀ address < (seg + 1) * 16, memory address = other address) :
    readEntry memory seg = readEntry other seg := by
  simp only [readEntry, readWord]
  iterate 4 rw [same _ (by omega)]

section Entry

variable (memory : Memory UInt8) (mark : UInt8) {entry : McbEntry}

theorem writeEntry_before {address : Nat} (before : address < entry.seg * 16) :
    writeEntry memory mark entry address = memory address := by
  unfold writeEntry writeWord
  iterate 5 rw [Function.update_of_ne (by omega)]

theorem writeEntry_mark (entry : McbEntry) :
    writeEntry memory mark entry (entry.seg * 16) = mark := by
  unfold writeEntry writeWord
  iterate 4 rw [Function.update_of_ne (by omega)]
  exact Function.update_self _ _ _

theorem readEntry_writeEntry (owner : entry.owner < 2 ^ 16) (paras : entry.paras < 2 ^ 16) :
    readEntry (writeEntry memory mark entry) entry.seg = entry := by
  have bytes {value : Nat} (small : value < 2 ^ 16) :
      value % 256 + value / 256 % 256 * 256 = value := by omega
  simp [readEntry, readWord, writeEntry, writeWord, bytes owner, bytes paras]

end Entry

variable {entries : List McbEntry}

variable {start : Nat}

/-- Headers from a paragraph on leave what lies before it. -/
theorem writeEntries_before {address : Nat} (linked : Linked start entries)
    (before : address < start * 16) (memory : Memory UInt8) :
    writeEntries entries memory address = memory address := by
  induction entries generalizing start memory with
  | nil => rfl
  | cons entry rest induction =>
    obtain ⟨rfl, next⟩ := linked
    cases rest with
    | nil => exact writeEntry_before _ _ before
    | cons second others =>
      unfold writeEntries
      rw [induction next (by omega), writeEntry_before _ _ before]

/-- Each header takes a paragraph. -/
theorem Linked.length_le (linked : Linked start entries) :
    start + entries.length ≤ conventionalEnd := by
  induction entries generalizing start with
  | nil =>
    have reached : start = conventionalEnd := linked
    simp [reached]
  | cons entry rest induction =>
    have next := induction linked.2
    rw [List.length_cons]
    omega

/-- A guest finds the headers that were written. -/
theorem walkChain_writeEntries {fuel : Nat} (linked : Linked start entries) (some : entries ≠ [])
    (small : ∀ entry ∈ entries, entry.owner < 2 ^ 16 ∧ entry.paras < 2 ^ 16)
    (enough : entries.length ≤ fuel) (memory : Memory UInt8) :
    walkChain (writeEntries entries memory) fuel start = Option.some entries := by
  induction entries generalizing start fuel memory with
  | nil => exact absurd rfl some
  | cons entry rest induction =>
    obtain ⟨rfl, next⟩ := linked
    obtain ⟨owner, paras⟩ := small entry List.mem_cons_self
    obtain ⟨fuel, rfl⟩ : ∃ less, fuel = less + 1 :=
      Nat.exists_eq_add_of_le' (by simp at enough; omega)
    cases rest with
    | nil =>
      unfold walkChain writeEntries
      dsimp only
      rw [if_pos (writeEntry_mark _ _ _), readEntry_writeEntry _ _ owner paras]
    | cons second others =>
      -- later headers leave this one as it was written
      have kept : ∀ address < (entry.seg + 1) * 16,
          writeEntries (entry :: second :: others) memory address =
            writeEntry memory markMore entry address :=
        fun address before => writeEntries_before next (by omega) _
      have mark : writeEntries (entry :: second :: others) memory (entry.seg * 16) = markMore :=
        (kept _ (by omega)).trans (writeEntry_mark _ _ _)
      have read : readEntry (writeEntries (entry :: second :: others) memory) entry.seg =
            entry := by
        rw [readEntry_congr kept, readEntry_writeEntry memory markMore owner paras]
      have rest := induction next (by simp)
        (fun other member => small other (List.mem_cons_of_mem _ member))
        (by simp at enough ⊢; omega) (writeEntry memory markMore entry)
      unfold walkChain
      dsimp only
      rw [read, mark, if_neg (by decide), if_pos rfl]
      unfold writeEntries
      rw [rest, Option.map_some]

/-- What a guest must find in memory. -/
def ChainShows (heap : DosHeap) (memory : Memory UInt8) : Prop :=
  ∃ entries, walkChain memory conventionalEnd heap.heapBaseSeg = some entries ∧
      Linked heap.heapBaseSeg entries ∧
      (∀ block ∈ heap.blocks, block.entry ∈ entries) ∧
      ∀ entry ∈ entries, (∃ block ∈ heap.blocks, entry = block.entry) ∨ entry.Free heap.blocks

theorem Linked.paras_lt (linked : Linked start entries) :
    ∀ entry ∈ entries, entry.paras < conventionalEnd := by
  induction entries generalizing start with
  | nil => simp
  | cons first rest induction =>
    intro entry member
    have next := linked.2.length_le
    rcases List.mem_cons.mp member with rfl | later
    · omega
    · exact induction linked.2 entry later

/-- The chain of a sound heap is written as it must be. -/
theorem syncMcbChain_shows (firstMcb : Nat) (sound : heap.Sound) (memory : Memory UInt8) :
    ChainShows heap (syncMcbChain firstMcb heap memory) := by
  have ordered := sound.ordered
  have linked := chainEntries_linked ordered
  have cases := chainEntries_cases ordered
  refine ⟨chainEntries heap.heapBaseSeg (sortedBlocks heap.blocks), ?_, linked, ?_, ?_⟩
  · refine walkChain_writeEntries linked ?_ ?_ ?_ _
    · intro none
      rw [none] at linked
      have low := sound.low
      have reached : heap.heapBaseSeg = conventionalEnd := linked
      omega
    · intro entry member
      have paras := linked.paras_lt entry member
      refine ⟨?_, paras.trans (by decide)⟩
      rcases cases entry member with ⟨block, inside, rfl⟩ | ⟨free, _⟩
      · exact (sound.inside block (mem_sortedBlocks.mp inside)).owner_lt
      · rw [free]
        decide
    · have length := linked.length_le
      omega
  · intro block member
    exact mem_chainEntries.mpr (.inl ⟨block, mem_sortedBlocks.mpr member, rfl⟩)
  · intro entry member
    rcases cases entry member with ⟨block, inside, same⟩ | ⟨free, apart⟩
    · exact .inl ⟨block, mem_sortedBlocks.mp inside, same⟩
    · exact .inr ⟨free, fun block inside => apart block (mem_sortedBlocks.mpr inside)⟩

/-! ## Searching -/

/-- What a search may answer: a gap that is large enough, or the size of one. -/
def Finds (total maxData : Nat) (gaps : List (Nat × Nat)) : Except Nat Nat → Prop
  | .ok seg => ∃ gap ∈ gaps, total ≤ gap.2 ∧ seg = min (gap.1 + 1) 0xFFFF
  | .error largest =>
    (∀ gap ∈ gaps, gap.2 < total) ∧ (largest = maxData ∨ ∃ gap ∈ gaps, largest = gap.2 - 1)

theorem findDosGap_finds {total cur maxData : Nat} {result : Except Nat Nat}
    (search : findDosGap total cur maxData sorted = result) :
    Finds total maxData (gaps cur sorted) result := by
  induction sorted generalizing cur maxData with
  | nil =>
    unfold findDosGap at search
    unfold gaps
    dsimp only at search
    split_ifs at search ⊢ with room fits <;> subst search
    · exact ⟨_, List.mem_singleton_self _, fits, rfl⟩
    · exact ⟨by simpa using fits, (max_choice _ _).imp_right fun same =>
        ⟨_, List.mem_singleton_self _, same⟩⟩
    · exact ⟨by simp, .inl rfl⟩
  | cons block rest induction =>
    unfold findDosGap at search
    unfold gaps
    dsimp only at search
    split_ifs at search ⊢ with room fits
    · subst search
      exact ⟨_, List.mem_cons_self, fits, rfl⟩
    · have later := induction search
      cases result with
      | ok seg =>
        obtain ⟨gap, member, found⟩ := later
        exact ⟨gap, List.mem_cons_of_mem _ member, found⟩
      | error largest =>
        refine ⟨List.forall_mem_cons.mpr ⟨Nat.lt_of_not_le fits, later.1⟩, ?_⟩
        rcases later.2 with rfl | ⟨gap, member, same⟩
        · exact (max_choice _ _).imp_right fun same => ⟨_, List.mem_cons_self, same⟩
        · exact .inr ⟨gap, List.mem_cons_of_mem _ member, same⟩
    · exact induction search

/-! ## Changes of the block list -/

/-- A block in a free place. -/
theorem DosHeap.Sound.push (sound : heap.Sound) (inside : block.Inside heap.heapBaseSeg)
    (apart : ∀ other ∈ heap.blocks, Apart other block) :
    ({ heap with blocks := heap.blocks ++ [block] } : DosHeap).Sound where
  low := sound.low
  psp_lt := sound.psp_lt
  inside := by
    intro other member
    rcases List.mem_append.mp member with old | new
    · exact sound.inside other old
    · rw [List.mem_singleton.mp new]
      exact inside
  apart := by
    refine List.pairwise_append.mpr ⟨sound.apart, by simp, ?_⟩
    intro other old new member
    rw [List.mem_singleton.mp member]
    exact apart other old

theorem DosHeap.Sound.erase (sound : heap.Sound) (test : DosMemBlock → Bool) :
    ({ heap with blocks := heap.blocks.eraseP test } : DosHeap).Sound where
  low := sound.low
  psp_lt := sound.psp_lt
  inside block member := sound.inside block (List.mem_of_mem_eraseP member)
  apart := sound.apart.sublist List.eraseP_sublist

/-- The limit lies behind a segment and before every later block. -/
theorem nextDosBlockLimit_spec (blocks : List DosMemBlock) (seg : Nat) :
    nextDosBlockLimit blocks seg ≤ conventionalEnd ∧
      (seg < conventionalEnd → seg < nextDosBlockLimit blocks seg) ∧
      ∀ block ∈ blocks, seg < block.seg → nextDosBlockLimit blocks seg ≤ block.seg := by
  unfold nextDosBlockLimit
  generalize conventionalEnd = limit
  induction blocks generalizing limit with
  | nil => simp
  | cons first rest induction =>
    rw [List.foldl_cons]
    obtain ⟨less, behind, below⟩ := induction (if first.seg = seg ∨ first.seg < seg then limit
        else if first.seg < limit then first.seg
        else limit)
    refine ⟨less.trans ?_, fun low => behind ?_, ?_⟩
    · split_ifs <;> omega
    · split_ifs <;> omega
    · intro block member later
      rcases List.mem_cons.mp member with rfl | further
      · refine less.trans ?_
        rw [if_neg (by omega)]
        split_ifs <;> omega
      · exact below block further later

/-- Blocks that lie apart have segments of their own. -/
theorem setParas_eq_map {blocks : List DosMemBlock} (seg paras : Nat)
    (apart : blocks.Pairwise Apart) :
    setParas seg paras blocks =
      blocks.map fun block =>
        if block.seg = seg then { block with paras } else block := by
  induction blocks with
  | nil => rfl
  | cons block rest induction =>
    obtain ⟨first, others⟩ := List.pairwise_cons.mp apart
    unfold setParas
    rw [List.map_cons]
    split_ifs with here
    · congr 1
      refine ((List.map_congr_left fun other member => ?_).trans (List.map_id rest)).symm
      have distinct : other.seg ≠ seg := by rcases first other member with less | more <;> omega
      rw [if_neg distinct]
      rfl
    · rw [induction others]

variable {paras : Nat}

/-- The limit of a resize keeps a block apart from the later ones. -/
theorem resizeLimit_spec (sound : heap.Sound) (low : seg < conventionalEnd)
    (fits : paras ≤ resizeLimit heap.blocks seg) :
    seg + paras ≤ conventionalEnd ∧
      ∀ block ∈ heap.blocks, seg < block.seg → seg + paras < block.seg := by
  obtain ⟨limit_le, limit_behind, limit_below⟩ := nextDosBlockLimit_spec heap.blocks seg
  have behind := limit_behind low
  unfold resizeLimit at fits
  dsimp only at fits
  split_ifs at fits with next
  · refine ⟨by omega, fun block member later => ?_⟩
    have bound := limit_below block member later
    omega
  · refine ⟨by omega, fun block member later => ?_⟩
    have bound := limit_below block member later
    have inside := (sound.inside block member).seg_lt
    omega

theorem DosHeap.Sound.resize (sound : heap.Sound) (fits : paras ≤ resizeLimit heap.blocks seg) :
    ({ heap with blocks := setParas seg paras heap.blocks } : DosHeap).Sound := by
  refine ⟨sound.low, sound.psp_lt, ?_, ?_⟩
  · intro block member
    change block ∈ setParas seg paras heap.blocks at member
    rw [setParas_eq_map seg paras sound.apart] at member
    obtain ⟨old, old_member, rfl⟩ := List.mem_map.mp member
    have inside := sound.inside old old_member
    split_ifs with here
    · subst here
      exact ⟨inside.low, inside.seg_lt,
        (resizeLimit_spec sound inside.seg_lt fits).1, inside.owner_lt⟩
    · exact inside
  · change (setParas seg paras heap.blocks).Pairwise Apart
    rw [setParas_eq_map seg paras sound.apart, List.pairwise_map]
    refine sound.apart.imp_of_mem fun {left right} old new apart => ?_
    split_ifs with left_here right_here right_here
    · rcases apart with before | behind <;> omega
    · have bound := resizeLimit_spec sound (left_here ▸ (sound.inside left old).seg_lt) fits
      rcases apart with before | behind
      · refine .inl ?_
        have later := bound.2 right new (by omega)
        change left.seg + paras < right.seg
        omega
      · exact .inr behind
    · have bound := resizeLimit_spec sound (right_here ▸ (sound.inside right new).seg_lt) fits
      rcases apart with before | behind
      · exact .inl before
      · refine .inr ?_
        have later := bound.2 left old (by omega)
        change right.seg + paras < left.seg
        omega
    · exact apart

/-! ## The law -/

/-- What a call may do. -/
structure McbLaw (firstMcb : Nat)
    (move : Move McbWorld McbCall McbAnswer) : Prop where
  inside :
    ∀ block ∈ move.after.heap.blocks,
      move.after.heap.heapBaseSeg ≤ block.mcb ∧ block.mcb + 1 = block.seg ∧
        block.seg + block.paras ≤ conventionalEnd
  apart : move.after.heap.blocks.Pairwise Apart
  chain : ChainShows move.after.heap move.after.memory
  invalid : move.answer = .invalidBlock → move.after = move.before
  insufficient : ∀ largest, move.answer = .insufficient largest → move.after = move.before
  retry :
    ∀ largest, move.answer = .insufficient largest →
      match move.input with
      | .alloc _ => ∃ seg, (dosAllocBlock firstMcb move.before largest).1 = .segment seg
      | .resize seg _ => (dosResizeBlock firstMcb move.before seg.toNat largest).1 = .done
      | _ => True

/-- Some paragraph of the heap belongs to no block. -/
def DosHeap.Room (heap : DosHeap) : Prop :=
  ∃ paragraph < conventionalEnd, heap.heapBaseSeg ≤ paragraph ∧
    ∀ block ∈ heap.blocks, paragraph < block.mcb ∨ block.seg + block.paras ≤ paragraph

/-- A block that is to be kept lies apart from the others. -/
def DosHeap.Keeps (heap : DosHeap) (seg paras : Nat) : Prop :=
  min paras (conventionalEnd - seg) = 0 ∨
    (heap.heapBaseSeg < seg ∧
      ∀ block ∈ heap.blocks, Apart block
          { seg, paras := min paras (conventionalEnd - seg), owner := 0 })

/-- The calls that keep the law. -/
def McbOrderly (world : McbWorld) : McbCall → Prop
  | .alloc _ => world.heap.Room
  | .keepResident seg paras _ => world.heap.Keeps seg.toNat paras.toNat
  | _ => True

/-! ## Calls -/

/-- A sound heap whose chain is in memory. -/
structure McbWorld.Ready (world : McbWorld) : Prop where
  sound : world.heap.Sound
  chain : ChainShows world.heap world.memory

section Calls

variable {firstMcb : Nat} {world : McbWorld}

theorem synced_ready (sound : heap.Sound)
    (memory : Memory UInt8) : (synced firstMcb heap memory).Ready := by
  have kept : (syncHeapSeg heap).Sound := ⟨sound.low, sound.psp_lt, sound.inside, sound.apart⟩
  exact ⟨kept, syncMcbChain_shows firstMcb kept memory⟩

theorem dosResetBlocks_ready {baseSeg psp : Nat}
    (low : baseSeg < conventionalEnd) (small : psp < 2 ^ 16)
    (memory : Memory UInt8) :
    (dosResetBlocks firstMcb baseSeg psp memory).Ready := by
  have sound : (dosResetBlocks firstMcb baseSeg psp memory).heap.Sound :=
    ⟨low, small, by simp [dosResetBlocks], by simp [dosResetBlocks]⟩
  exact ⟨sound, syncMcbChain_shows firstMcb sound memory⟩

variable {need : Nat}

theorem allocTotal_ge (small : need < 2 ^ 16) :
    ¬ (need ≠ 0 ∧ allocTotal need < need) := by
  rintro ⟨some, less⟩
  rw [allocTotal, if_neg some] at less
  omega

/-- The search of a request. -/
def DosHeap.search (heap : DosHeap) (need : Nat) : Except Nat Nat :=
  findDosGap (allocTotal need) heap.heapBaseSeg 0 (sortedBlocks heap.blocks)

/-- A block that was allocated lies in a gap. -/
theorem alloc_sound (sound : heap.Sound) (some : need ≠ 0) (found : heap.search need = .ok seg) :
    ({ heap with blocks := heap.blocks ++ [{ seg, paras := need, owner := heap.currentPsp }] } :
      DosHeap).Sound := by
  obtain ⟨⟨walk, size⟩, member, enough, rfl⟩ := findDosGap_finds found
  obtain ⟨least, -, most, free⟩ := gaps_spec sound.ordered _ member
  rw [allocTotal, if_neg some] at enough
  dsimp only at least most free enough ⊢
  have place : min (walk + 1) 0xFFFF = walk + 1 ∧ need < size := by
    unfold conventionalEnd at most
    omega
  rw [place.1]
  refine sound.push ⟨Nat.lt_succ_of_le least, show walk + 1 < _ by omega,
    show walk + 1 + need ≤ _ by omega, sound.psp_lt⟩ ?_
  intro other member
  rcases free other (mem_sortedBlocks.mpr member) with before | behind
  · unfold DosMemBlock.mcb at before
    exact .inr (show walk + 1 + need < _ by omega)
  · exact .inl (Nat.lt_succ_of_le behind)

/-- The size a failed request reports can be had. -/
theorem alloc_retry (sound : world.heap.Sound) (room : world.heap.Room) {largest : Nat}
    (failed : world.heap.search need = .error largest) :
    ∃ seg, (dosAllocBlock firstMcb world largest).1 = .segment seg := by
  have ordered := sound.ordered
  obtain ⟨gap, member, enough⟩ : ∃ gap ∈ world.heap.gaps, largest + 1 ≤ gap.2 := by
    rcases (findDosGap_finds failed).2 with rfl | ⟨gap, member, rfl⟩
    · obtain ⟨paragraph, most, least, free⟩ := room
      obtain ⟨gap, member⟩ := exists_gap ordered least most fun block member =>
        free block (mem_sortedBlocks.mp member)
      exact ⟨gap, member, (gaps_spec ordered gap member).2.1⟩
    · have some := (gaps_spec ordered gap member).2.1
      exact ⟨gap, member, by omega⟩
  have small : largest < 2 ^ 16 := by
    have most := (gaps_spec ordered gap member).2.2.1
    unfold conventionalEnd at most
    omega
  have total : allocTotal largest ≤ largest + 1 := by
    unfold allocTotal
    split_ifs <;> omega
  unfold dosAllocBlock
  rw [if_neg (allocTotal_ge small), ← DosHeap.search]
  cases found : world.heap.search largest with
  | ok seg => exact ⟨seg, rfl⟩
  | error less =>
    have short := (findDosGap_finds found).1 gap member
    omega

/-- A call that keeps the law and leaves a ready heap. -/
def Lawful (firstMcb : Nat) (world : McbWorld) (call : McbCall)
    (result : McbAnswer × McbWorld) : Prop :=
  result.2.Ready ∧ McbLaw firstMcb ⟨world, call, result.1, result.2⟩

theorem McbWorld.Ready.inside (ready : world.Ready) :
    ∀ block ∈ world.heap.blocks,
      world.heap.heapBaseSeg ≤ block.mcb ∧ block.mcb + 1 = block.seg ∧
        block.seg + block.paras ≤ conventionalEnd := by
  intro block member
  have inside := ready.sound.inside block member
  have low := inside.low
  unfold DosMemBlock.mcb
  exact ⟨by omega, by omega, inside.high⟩

/-- A call that succeeds and leaves a ready heap. -/
theorem Lawful.succeed {call : McbCall} {answer : McbAnswer}
    {after : McbWorld} (ready : after.Ready) (valid : answer ≠ .invalidBlock)
    (sufficient : ∀ largest, answer ≠ .insufficient largest) :
    Lawful firstMcb world call (answer, after) :=
  ⟨ready, ready.inside, ready.sound.apart, ready.chain, fun same => absurd same valid,
    fun largest same => absurd same (sufficient largest),
    fun largest same => absurd same (sufficient largest)⟩

theorem Lawful.invalid (ready : world.Ready) (call : McbCall) :
    Lawful firstMcb world call (.invalidBlock, world) :=
  ⟨ready, ready.inside, ready.sound.apart, ready.chain, fun _ => rfl, fun _ _ => rfl, nofun⟩

theorem dosAllocBlock_lawful (ready : world.Ready) (room : world.heap.Room) (need : UInt16) :
    Lawful firstMcb world (.alloc need) (dosAllocBlock firstMcb world need.toNat) := by
  unfold dosAllocBlock
  rw [if_neg (allocTotal_ge need.toNat_lt), ← DosHeap.search]
  cases result : world.heap.search need.toNat with
  | ok seg =>
    refine .succeed (synced_ready ?_ _) (by simp) (by simp)
    split_ifs with some
    · exact alloc_sound ready.sound some result
    · exact ready.sound
  | error largest =>
    refine ⟨ready, ready.inside, ready.sound.apart, ready.chain, fun _ => rfl, fun _ _ => rfl, ?_⟩
    intro other same
    cases same
    exact alloc_retry ready.sound room result

theorem dosFreeBlock_lawful (ready : world.Ready) (seg : UInt16) :
    Lawful firstMcb world (.free seg) (dosFreeBlock firstMcb world seg.toNat) := by
  unfold dosFreeBlock
  split_ifs
  · exact .succeed (synced_ready (ready.sound.erase _) _) (by simp) (by simp)
  · exact .invalid ready _

theorem dosResizeBlock_lawful (ready : world.Ready) (seg paras : UInt16) :
    Lawful firstMcb world (.resize seg paras)
      (dosResizeBlock firstMcb world seg.toNat paras.toNat) := by
  unfold dosResizeBlock
  split_ifs with known fits
  · exact .succeed (synced_ready (ready.sound.resize fits) _) (by simp) (by simp)
  · refine ⟨ready, ready.inside, ready.sound.apart, ready.chain, fun _ => rfl, fun _ _ => rfl, ?_⟩
    intro largest same
    cases same
    simp only [dosResizeBlock, if_pos known, le_refl, if_true]
  · exact .invalid ready _

theorem dosKeepResidentBlock_ready (ready : world.Ready) {owner : Nat} (small : owner < 2 ^ 16)
    (keeps : world.heap.Keeps seg paras) :
    (dosKeepResidentBlock firstMcb world seg paras owner).Ready := by
  unfold dosKeepResidentBlock
  dsimp only
  split_ifs with nothing
  · exact ⟨ready.sound, syncMcbChain_shows firstMcb ready.sound _⟩
  · obtain ⟨low, apart⟩ := keeps.resolve_left nothing
    refine synced_ready (DosHeap.Sound.push ready.sound ?_ ?_) _
    · exact
        { low
          seg_lt := show seg < _ by omega
          high := show seg + min _ _ ≤ _ by omega
          owner_lt := small }
    · exact apart

theorem mcbMachine_step (ready : world.Ready) {call : McbCall} (orderly : McbOrderly world call) :
    Lawful firstMcb world call (mcbMachine firstMcb world call) := by
  cases call with
  | alloc need => exact dosAllocBlock_lawful ready orderly need
  | free seg => exact dosFreeBlock_lawful ready seg
  | resize seg paras => exact dosResizeBlock_lawful ready seg paras
  | keepResident seg paras owner =>
    exact .succeed (dosKeepResidentBlock_ready ready owner.toNat_lt orderly) (by simp) (by simp)

/-- The law holds in every run of orderly calls. -/
theorem mcb_chain_sound (firstMcb : Nat) (start : McbWorld)
    (ready : start.Ready) (calls : List McbCall)
    (orderly : (mcbMachine firstMcb).Meets McbOrderly start calls) :
    ∀ move ∈ (mcbMachine firstMcb).run start calls, McbLaw firstMcb move :=
  Machine.forall_run (fun _ _ kept meets => (mcbMachine_step kept meets).1)
    (fun _ _ kept meets => (mcbMachine_step kept meets).2) ready orderly

end Calls

/-- Allocate, free, allocate in the gap, resize, keep, and ask too much. -/
def tidyCalls : List McbCall :=
  [.alloc 4, .alloc 2, .free 0x61, .alloc 1, .resize 0x66 8,
    .keepResident 0x90 3 0x90, .alloc 0xFFFF]

/-- A heap from paragraph 0x60 on. -/
def smallHeap : McbWorld := dosResetBlocks 0x1000 0x60 0x50 fun _ => 0

theorem tidy_calls_sound :
    ((mcbMachine 0x1000).run smallHeap tidyCalls).map Move.answer =
        [.segment 0x61, .segment 0x66, .done, .segment 0x61, .done, .done, .insufficient 0x9F6C] ∧
      ∀ move ∈ (mcbMachine 0x1000).run smallHeap tidyCalls, McbLaw 0x1000 move := by
  refine ⟨by decide +kernel, ?_⟩
  refine mcb_chain_sound 0x1000 smallHeap
    (dosResetBlocks_ready (by decide) (by decide) _) tidyCalls ?_
  have room : ∀ {world : McbWorld}, world.heap.heapBaseSeg ≤ 0x9FFF →
      (∀ block ∈ world.heap.blocks, 0x9FFF < block.mcb ∨ block.seg + block.paras ≤ 0x9FFF) →
        world.heap.Room :=
    fun low free => ⟨0x9FFF, by decide, low, free⟩
  refine ⟨room ?_ ?_, room ?_ ?_, trivial, room ?_ ?_, trivial,
    .inr ⟨?_, ?_⟩, room ?_ ?_, trivial⟩ <;> decide +kernel

/--
A block kept inside another one, and a full heap that reports a size it does
not have.
-/
theorem kept_block_overlaps :
    (¬ ∀ move ∈ (mcbMachine 0x1000).run smallHeap [.alloc 0x10, .keepResident 0x65 4 0x65],
        McbLaw 0x1000 move) ∧
      ¬ ∀ move ∈ (mcbMachine 0x1000).run (dosResetBlocks 0x1000 0x9FFE 0x50 fun _ => 0)
            [.alloc 1, .alloc 1],
          McbLaw 0x1000 move := by
  constructor
  · intro sound
    have last := sound _ (Machine.last_mem_run (mcbMachine 0x1000) smallHeap
      [.alloc 0x10] (.keepResident 0x65 4 0x65))
    have apart := last.apart
    revert apart
    decide +kernel
  · intro sound
    have last := sound _ (Machine.last_mem_run (mcbMachine 0x1000)
      (dosResetBlocks 0x1000 0x9FFE 0x50 fun _ => 0) [.alloc 1] (.alloc 1))
    obtain ⟨seg, granted⟩ := last.retry 0 (by decide +kernel)
    have refused :
        (dosAllocBlock 0x1000 ((mcbMachine 0x1000).final
            (dosResetBlocks 0x1000 0x9FFE 0x50 fun _ => 0) [.alloc 1])
          0).1 = .insufficient 0 := by
      decide +kernel
    cases refused.symm.trans granted

end RetroOS.Dos
