import RetroOS.Hosted.Confinement
import RetroOS.Hosted.FrameCounts

/-!
# Isolation of forked spaces

Two spaces share a frame only through entries that are not writable, so a
store of the guest faults and copies the frame first.  Then no step of one
space changes what another one reads, whatever forks they came from.

A write of the kernel goes straight to the frame, shared or not, and the call
that makes pages writable takes no copy either.
-/

namespace RetroOS.Hosted

open Lib
open Finset (range mem_range)
open Function (update update_of_ne update_self update_eq_self)

/-! ## What a space reads -/

/-- What is read at a page: its frame, a device, or zero when absent. -/
def Backend.view (backend : Backend) (id page offset : Nat) : Option UInt8 :=
  (backend.spaces id).bind fun space =>
    if (space.pteRaw page).present then
      some (backend.frames.memory (space.pteRaw page).frame offset)
    else if (space.pteRaw page).cacheDisable then none
    else some 0

/-- The space a step is applied to. -/
def HostStep.subject (backend : Backend) : HostStep → Option Nat
  | .active _ => some backend.active
  | .spaceDestroy id => some id
  | .spaceNew | .spaceSwitch _ | .spaceFork _ => none

/--
A step leaves what other spaces read at user addresses, and a fork reads what
its source does.  Pages on exempt frames are shared on purpose, and device
pages are not inherited.
-/
structure IsolatedMove (exempt : Nat → Prop)
    (move : Move Backend HostStep HostAnswer) : Prop where
  others :
    ∀ id, move.input.subject move.before ≠ some id →
      ∀ space ∈ move.before.spaces id, ∀ page < userPages,
        (∀ frame ∈ space.translate page, ¬ exempt frame) →
          ∀ offset, move.after.view id page offset = move.before.view id page offset
  forked :
    ∀ src, move.input = .spaceFork src →
      ∀ source ∈ move.before.spaces src, ∀ page < userPages,
        (source.pteRaw page).cacheDisable = false →
          ∀ offset, move.after.view move.before.next page offset = move.before.view src page offset

/-! ## Isolated spaces -/

section Isolated

variable (exempt : Nat → Prop) (windows : KernelWindows)

/-- A frame that another space maps. -/
def Backend.Foreign (backend : Backend) (id frame : Nat) : Prop :=
  ¬ exempt frame ∧
    ∃ other space, other ≠ id ∧ backend.spaces other = some space ∧
        ∃ page < pageCount, space.translate page = some frame

/-- What one space may write, no other one maps. -/
structure Backend.Isolated (backend : Backend) : Prop where
  mine : ∀ id space, backend.spaces id = some space → space.Private (backend.Foreign exempt id)
  windowed : ∀ id space, backend.spaces id = some space → space.Windowed exempt windows

variable {exempt windows} {backend : Backend} {id : Nat} {space : Space}

/-- Another space refers to a foreign frame. -/
theorem Backend.Counted.linked [DecidablePred exempt] {held : Nat → Nat}
    (known : backend.Counted exempt held) {frame : Nat}
    (foreign : backend.Foreign exempt id frame) :
    0 < backend.others exempt held id frame ∧ ¬ exempt frame := by
  obtain ⟨plain, other, space, apart, live, page, inside, found⟩ := foreign
  refine ⟨?_, plain⟩
  have row : other ∈ (range backend.next).erase id :=
    Finset.mem_erase.mpr ⟨apart, mem_range.mpr (known.lt_next live)⟩
  have entry : backend.table exempt other (.page page) = some frame := by
    rw [Backend.Counted.table_of_live live, Space.refers, counted_eq_some]
    exact ⟨found, plain⟩
  have referred : refsOver ((range backend.next).erase id) roles (backend.table exempt) frame ≠ 0 :=
    fun zero => refsOver_eq_zero.mp zero other row (.page page) (page_mem_roles inside) entry
  unfold Backend.others
  omega

/-- The frames another space may be reading. -/
theorem Backend.foreign_of_live {other page frame : Nat}
    (apart : other ≠ id) (live : backend.spaces other = some space)
    (inside : page < pageCount)
    (found : space.translate page = some frame) (plain : ¬ exempt frame) :
    backend.Foreign exempt id frame :=
  ⟨plain, other, space, apart, live, page, inside, found⟩

theorem user_lt_pageCount {page : Nat} (user : page < userPages) : page < pageCount :=
  user.trans (by decide)

/-- Memory of foreign frames is all another space reads. -/
theorem Backend.view_congr {after : Backend} (live : backend.spaces id = some space)
    (same : after.spaces id = some space) {page : Nat}
    (memory :
      ∀ frame ∈ space.translate page, after.frames.memory frame = backend.frames.memory frame)
    (offset : Nat) :
    after.view id page offset = backend.view id page offset := by
  simp only [view, live, same, Option.bind_some]
  split_ifs with present
  · rw [memory _ (Space.translate_eq_some.mpr ⟨present, rfl⟩)]
  · rfl
  · rfl

/-- A live space of a changed table is the new one, or an old one. -/
theorem live_update {spaces : Nat → Option Space} {key other : Nat} {fresh found : Space}
    (live : update spaces key (some fresh) other = some found) :
    other = key ∧ found = fresh ∨ other ≠ key ∧ spaces other = some found := by
  rcases eq_or_ne other key with rfl | apart
  · rw [update_self] at live
    exact .inl ⟨rfl, (Option.some.inj live).symm⟩
  · rw [update_of_ne apart] at live
    exact .inr ⟨apart, live⟩

namespace Backend.Isolated

variable {cell : Cell}

/-- A confined change of one space. -/
theorem put (known : backend.Isolated exempt windows) (live : backend.spaces id = some space)
    (confined :
      Cell.Confined exempt windows (backend.Foreign exempt id) ⟨backend.frames, space⟩ cell) :
    (backend.put id cell).Isolated exempt windows where
  mine other found liveOther page inside present writable := by
    rintro ⟨plain, third, map, apart, liveThird, place, placeIn, maps⟩
    rcases live_update liveOther with ⟨rfl, rfl⟩ | ⟨here, before⟩
    · simp only [Backend.put, update_of_ne apart] at liveThird
      exact confined.private_after (known.mine other space live) page inside present writable
        (Backend.foreign_of_live apart liveThird placeIn maps plain)
    · have mine := known.mine other found before page inside present writable
      rcases live_update liveThird with ⟨rfl, rfl⟩ | ⟨-, liveThird⟩
      · -- the changed space maps a frame of this one: it did so before
        have own : backend.Foreign exempt third (found.pteRaw page).frame :=
          Backend.foreign_of_live here before inside
            (Space.translate_eq_some.mpr ⟨present, rfl⟩) plain
        obtain ⟨presentPlace, same⟩ := Space.translate_eq_some.mp maps
        obtain ⟨source, sourceIn, presentSource, equal, -⟩ :=
          confined.entries place placeIn presentPlace (same ▸ own)
        exact mine (Backend.foreign_of_live apart live sourceIn
            (Space.translate_eq_some.mpr ⟨presentSource, equal.trans same⟩)
            plain)
      · exact mine (Backend.foreign_of_live apart liveThird placeIn maps plain)
  windowed other found liveOther := by
    rcases live_update liveOther with ⟨rfl, rfl⟩ | ⟨-, liveOther⟩
    · exact confined.windowed (known.windowed other space live)
    · exact known.windowed other found liveOther

/-- What another space reads after a confined change. -/
theorem view_put (confined :
      Cell.Confined exempt windows (backend.Foreign exempt id) ⟨backend.frames, space⟩ cell)
    {other : Nat} (apart : other ≠ id) {found : Space}
    (liveOther : backend.spaces other = some found) {page : Nat}
    (user : page < userPages)
    (plain : ∀ frame ∈ found.translate page, ¬ exempt frame)
    {after : Backend} (memory : after.frames = cell.frames)
    (same : after.spaces other = some found) (offset : Nat) :
    after.view other page offset = backend.view other page offset := by
  refine Backend.view_congr liveOther same (fun frame maps => ?_) offset
  rw [memory]
  exact confined.memory frame (Backend.foreign_of_live apart liveOther (user_lt_pageCount user) maps
      (plain frame maps))

end Backend.Isolated

/-! ## Forks -/

/-- How far a fork of `start` has come, with the pages still to share. -/
structure Fork.Sharing (exempt : Nat → Prop) (windows : KernelWindows)
    (start : Space) (pending : List Nat) (fork : Fork) : Prop where
  shape :
    ∀ page, (fork.source.pteRaw page).present = (start.pteRaw page).present ∧
        (fork.source.pteRaw page).frame = (start.pteRaw page).frame ∧
        ((start.pteRaw page).present = false → fork.source.pteRaw page = start.pteRaw page)
  demoted :
    ∀ page < pageCount, (fork.source.pteRaw page).present →
        (fork.source.pteRaw page).writable → exempt (fork.source.pteRaw page).frame ∨ page ∈ pending
  windowed : fork.source.Windowed exempt windows
  targetWindowed : fork.target.space.Windowed exempt windows
  target :
    ∀ page, (∀ window ∈ windows.pages, window.1 ≠ page) →
      fork.target.space.pteRaw page = .zero ∨
        (start.pteRaw page).present ∧
          (fork.target.space.pteRaw page).present ∧
          (fork.target.space.pteRaw page).writable = false ∧
          (fork.target.space.pteRaw page).frame = (start.pteRaw page).frame ∧
          (fork.source.pteRaw page).writable = false
  shared :
    ∀ page, page < pageCount → (start.pteRaw page).present →
      page ∉ pending → (fork.target.space.pteRaw page).present

namespace Fork.Sharing

variable {start : Space} {pending : List Nat} {fork : Fork} {page : Nat}

/-- A page that has been shared, or is a window, is passed over. -/
theorem skip (known : fork.Sharing exempt windows start (page :: pending))
    (mapped : (fork.target.space.pteRaw page).present) :
    fork.Sharing exempt windows start pending where
  shape := known.shape
  windowed := known.windowed
  targetWindowed := known.targetWindowed
  target := known.target
  demoted other inside present writable := by
    rcases known.demoted other inside present writable with spared | member
    · exact .inl spared
    rcases List.mem_cons.mp member with rfl | later
    · by_cases high : ∀ window ∈ windows.pages, window.1 ≠ other
      · rcases known.target other high with zero | ⟨-, -, -, -, plain⟩
        · rw [zero] at mapped
          cases mapped
        · rw [plain] at writable
          cases writable
      · push Not at high
        obtain ⟨window, high, rfl⟩ := high
        exact .inl (known.windowed window high).2.1
    · exact .inr later
  shared other inside present passed := by
    rcases eq_or_ne other page with rfl | apart
    · exact mapped
    · exact known.shared other inside present (by simp [apart, passed])

/-- A page is shared, by entries that are not writable. -/
theorem share {after : Fork} {sourcePte targetPte : Pte}
    (known : fork.Sharing exempt windows start (page :: pending))
    (present : (fork.source.pteRaw page).present)
    (absent : (fork.target.space.pteRaw page).present = false)
    (source : after.source.pteRaw = update fork.source.pteRaw page sourcePte)
    (target : after.target.space.pteRaw = update fork.target.space.pteRaw page targetPte)
    (sourceShape :
      sourcePte.present ∧ sourcePte.writable = false ∧
        sourcePte.frame = (fork.source.pteRaw page).frame)
    (targetShape :
      targetPte.present ∧ targetPte.writable = false ∧
        targetPte.frame = (fork.source.pteRaw page).frame) :
    after.Sharing exempt windows start pending := by
  obtain ⟨samePresent, sameFrame, -⟩ := known.shape page
  have low : ∀ window ∈ windows.pages, window.1 ≠ page := by
    rintro window member rfl
    have mapped := (known.targetWindowed window member).1
    rw [absent] at mapped
    cases mapped
  refine ⟨fun other => ?_, fun other inside => ?_, fun window member => ?_,
    fun window member => ?_, fun other high => ?_,
    fun other inside was passed => ?_⟩
  · rw [source]
    rcases eq_or_ne other page with rfl | apart
    · rw [update_self, sourceShape.1, sourceShape.2.2, ← samePresent, present]
      exact ⟨rfl, sameFrame, by simp⟩
    · rw [update_of_ne apart]
      exact known.shape other
  · rw [source]
    rcases eq_or_ne other page with rfl | apart
    · rw [update_self, sourceShape.2.1]
      simp
    · rw [update_of_ne apart]
      intro presentOther writable
      rcases known.demoted other inside presentOther writable with
        spared | member
      · exact .inl spared
      · exact .inr ((List.mem_cons.mp member).resolve_left apart)
  · rw [source, update_of_ne (low window member)]
    exact known.windowed window member
  · rw [target, update_of_ne (low window member)]
    exact known.targetWindowed window member
  · rw [target, source]
    rcases eq_or_ne other page with rfl | apart
    · rw [update_self, update_self]
      refine .inr ⟨?_, targetShape.1, targetShape.2.1, ?_, sourceShape.2.1⟩
      · rw [← samePresent, present]
      · rw [targetShape.2.2, sameFrame]
    · rw [update_of_ne apart, update_of_ne apart]
      exact known.target other high
  · rw [target]
    rcases eq_or_ne other page with rfl | apart
    · rw [update_self]
      exact targetShape.1
    · rw [update_of_ne apart]
      exact known.shared other inside was (by simp [apart, passed])

theorem sharePage (known : fork.Sharing exempt windows start (page :: pending))
    (present : (fork.source.pteRaw page).present) :
    (fork.sharePage page).Sharing exempt windows start pending := by
  have table := Space.hasTable_of_present present
  simp only [Fork.sharePage]
  split_ifs with mapped demote
  · refine known.skip ?_
    rw [Option.isSome_iff_exists] at mapped
    obtain ⟨frame, mapped⟩ := mapped
    exact (Space.translate_eq_some.mp mapped).1
  · exact known.share present (Space.translate_eq_none.mp (by simpa using mapped))
      (Space.pteRaw_writeEntry (.inl table)) (Cell.pteRaw_mapEntry _ _ _)
      ⟨rfl, rfl, rfl⟩ ⟨rfl, rfl, rfl⟩
  · rw [not_or, Bool.not_eq_true] at demote
    refine known.share present (Space.translate_eq_none.mp (by simpa using mapped))
      (update_eq_self page _).symm (Cell.pteRaw_mapEntry _ _ _)
      ⟨present, demote.1, rfl⟩ ⟨rfl, rfl, rfl⟩

theorem sharePages (pages : List Nat) (known : fork.Sharing exempt windows start pages)
    (present : ∀ page ∈ pages, (start.pteRaw page).present) :
    (pages.foldl Fork.sharePage fork).Sharing exempt windows start [] := by
  induction pages generalizing fork with
  | nil => exact known
  | cons page rest induction =>
    have here : (fork.source.pteRaw page).present := by
      rw [(known.shape page).1]
      exact present page List.mem_cons_self
    exact induction (known.sharePage here)
      fun other later => present other (List.mem_cons_of_mem _ later)

/-- A new space with its windows shares nothing yet. -/
theorem begin (frames : Frames) (windowed : start.Windowed exempt windows)
    (covered : ∀ window ∈ windows.pages, exempt window.2) :
    Fork.Sharing exempt windows start start.presentPages ⟨start, windows.newCell frames⟩ where
  shape _ := ⟨rfl, rfl, fun _ => rfl⟩
  demoted page inside present _ := .inr (Space.mem_presentPages.mpr ⟨inside, present⟩)
  windowed := windowed
  targetWindowed window member := by
    rcases windows.pteRaw_newCell frames window.1 with
      ⟨other, mapped, -, entry⟩ | ⟨none, -⟩
    · rw [entry]
      exact ⟨rfl, covered other mapped, rfl⟩
    · exact absurd rfl (none window member)
  target page high := by
    rcases windows.pteRaw_newCell frames page with
      ⟨window, member, same, -⟩ | ⟨-, zero⟩
    · exact absurd same (high window member)
    · exact .inl zero
  shared page inside present passed := absurd (Space.mem_presentPages.mpr ⟨inside, present⟩) passed

/-- The target maps what the source did. -/
theorem translate_target (known : fork.Sharing exempt windows start pending)
    {frame : Nat} (maps : fork.target.space.translate page = some frame)
    (plain : ¬ exempt frame) :
    start.translate page = some frame ∧ (fork.target.space.pteRaw page).writable = false := by
  obtain ⟨present, same⟩ := Space.translate_eq_some.mp maps
  by_cases high : ∀ window ∈ windows.pages, window.1 ≠ page
  · rcases known.target page high with zero | ⟨was, -, sealed, equal, -⟩
    · rw [zero] at present
      cases present
    · exact ⟨Space.translate_eq_some.mpr ⟨was, equal.symm.trans same⟩, sealed⟩
  · push Not at high
    obtain ⟨window, member, rfl⟩ := high
    rw [← same] at plain
    exact absurd (known.targetWindowed window member).2.1 plain

theorem translate_source (known : fork.Sharing exempt windows start pending)
    (page : Nat) : fork.source.translate page = start.translate page := by
  obtain ⟨present, frame, -⟩ := known.shape page
  simp only [Space.translate, present, frame]

/-- A fork that is done reads what its source read. -/
theorem view_new {src : Nat} (live : backend.spaces src = some start)
    (sharing : fork.Sharing exempt windows start [])
    (memory : fork.target.frames.memory = backend.frames.memory)
    (user : page < userPages)
    (ram : (start.pteRaw page).cacheDisable = false) (offset : Nat) :
    (backend.putFork src fork).view backend.next page offset = backend.view src page offset := by
  have high : ∀ window ∈ windows.pages, window.1 ≠ page := by
    intro window member
    have above := (windows.high window member).1
    omega
  simp only [Backend.view, Backend.putFork, update_self, live, Option.bind_some, memory]
  rcases sharing.target page high with zero | ⟨was, present, -, frame, -⟩
  · have absent : (start.pteRaw page).present = false := by
      by_contra present
      have mapped :=
        sharing.shared page (user_lt_pageCount user) (by simpa using present) List.not_mem_nil
      rw [zero] at mapped
      cases mapped
    simp [zero, absent, ram, Pte.zero]
  · simp [was, present, frame]

/-- The spaces that were there read on as before. -/
theorem view_old {src : Nat} (live : backend.spaces src = some start)
    (sharing : fork.Sharing exempt windows start [])
    (memory : fork.target.frames.memory = backend.frames.memory)
    {id : Nat} (old : id ≠ backend.next) (page offset : Nat) :
    (backend.putFork src fork).view id page offset = backend.view id page offset := by
  simp only [Backend.view, Backend.putFork, update_of_ne old, memory]
  rcases eq_or_ne id src with rfl | other
  · obtain ⟨present, frame, absent⟩ := sharing.shape page
    rw [update_self, live, Option.bind_some, Option.bind_some, present, frame]
    cases was : (start.pteRaw page).present with
    | true => rfl
    | false => rw [absent was]
  · rw [update_of_ne other]

end Fork.Sharing

namespace Backend.Isolated

/-- The spaces after a fork. -/
theorem fork {fork : Fork} {start : Space} {src : Nat} (known : backend.Isolated exempt windows)
    (sharing : fork.Sharing exempt windows start [])
    (live : backend.spaces src = some start)
    (apart : src ≠ backend.next) :
    (backend.putFork src fork).Isolated exempt windows := by
  -- a frame is foreign to an old space only if it was before
  have foreign (id frame : Nat) (old : id ≠ backend.next) (notSource : id ≠ src)
      (shared : (backend.putFork src fork).Foreign exempt id frame) :
      backend.Foreign exempt id frame := by
    obtain ⟨plain, other, space, differs, liveOther, page, inside, maps⟩ := shared
    rcases live_update liveOther with ⟨rfl, rfl⟩ | ⟨-, liveOther⟩
    · exact Backend.foreign_of_live (Ne.symm notSource) live inside
        (sharing.translate_target maps plain).1 plain
    · rcases live_update liveOther with ⟨rfl, rfl⟩ | ⟨-, liveOther⟩
      · rw [sharing.translate_source] at maps
        exact Backend.foreign_of_live differs live inside maps plain
      · exact Backend.foreign_of_live differs liveOther inside maps plain
  refine ⟨fun id space liveId page inside present writable => ?_, fun id space liveId => ?_⟩
  · rcases live_update liveId with ⟨rfl, rfl⟩ | ⟨old, liveId⟩
    · rintro ⟨plain, -⟩
      have sealed := (sharing.translate_target (Space.translate_eq_some.mpr ⟨present, rfl⟩) plain).2
      rw [sealed] at writable
      cases writable
    · rcases live_update liveId with ⟨rfl, rfl⟩ | ⟨notSource, liveId⟩
      · rintro ⟨plain, -⟩
        rcases sharing.demoted page inside present writable with
          spared | member
        · exact plain spared
        · cases member
      · intro shared
        exact known.mine id space liveId page inside present writable
          (foreign id _ old notSource shared)
  · rcases live_update liveId with ⟨rfl, rfl⟩ | ⟨-, liveId⟩
    · exact sharing.targetWindowed
    · rcases live_update liveId with ⟨rfl, rfl⟩ | ⟨-, liveId⟩
      · exact sharing.windowed
      · exact known.windowed id space liveId

/-- A new space maps the windows only. -/
theorem spaceNew (known : backend.Isolated exempt windows)
    (covered : ∀ window ∈ windows.pages, exempt window.2) :
    (backend.spaceNew windows).Isolated exempt windows := by
  have exemptOnly (page frame : Nat) (maps :
        (windows.newCell backend.frames).space.translate page = some frame) : exempt frame := by
    obtain ⟨present, same⟩ := Space.translate_eq_some.mp maps
    rcases windows.pteRaw_newCell backend.frames page with
      ⟨window, member, -, entry⟩ | ⟨-, zero⟩
    · rw [← same, entry]
      exact covered window member
    · rw [zero] at present
      cases present
  have windowed : (windows.newCell backend.frames).space.Windowed exempt windows := by
    intro window member
    rcases windows.pteRaw_newCell backend.frames window.1 with
      ⟨other, mapped, -, entry⟩ | ⟨none, -⟩
    · rw [entry]
      exact ⟨rfl, covered other mapped, rfl⟩
    · exact absurd rfl (none window member)
  refine ⟨fun id space liveId page inside present writable => ?_, fun id space liveId => ?_⟩
  · rintro ⟨plain, other, map, differs, liveOther, place, placeIn, maps⟩
    rcases live_update liveId with ⟨rfl, rfl⟩ | ⟨-, liveId⟩
    · exact plain (exemptOnly page _ (Space.translate_eq_some.mpr ⟨present, rfl⟩))
    · rcases live_update liveOther with ⟨rfl, rfl⟩ | ⟨-, liveOther⟩
      · exact plain (exemptOnly place _ maps)
      · exact known.mine id space liveId page inside present writable
          (Backend.foreign_of_live differs liveOther placeIn maps plain)
  · rcases live_update liveId with ⟨rfl, rfl⟩ | ⟨-, liveId⟩
    · exact windowed
    · exact known.windowed id space liveId

/-- A space is forgotten. -/
theorem forget (known : backend.Isolated exempt windows) (frames : Frames) (active : Nat) :
    Backend.Isolated exempt windows
      { backend with
        frames
        spaces := update backend.spaces id none
        active } := by
  have before {other : Nat} {space : Space}
      (live : update backend.spaces id none other = some space) :
      backend.spaces other = some space := by
    rcases eq_or_ne other id with rfl | apart
    · simp at live
    · rwa [update_of_ne apart] at live
  refine ⟨fun other space live page inside present writable => ?_,
    fun other space live => known.windowed other space (before live)⟩
  rintro ⟨plain, third, map, differs, liveThird, place, placeIn, maps⟩
  exact known.mine other space (before live) page inside present writable
    (Backend.foreign_of_live differs (before liveThird) placeIn maps plain)

end Backend.Isolated

end Isolated

/-! ## Runs -/

/-- What a step asks, beside sparing the exempt frames. -/
def HostStep.Confining (exempt : Nat → Prop) (windows : KernelWindows)
    (backend : Backend) : HostStep → Prop
  | .active step =>
    ∀ space ∈ backend.spaces backend.active, step.Confining exempt windows ⟨backend.frames, space⟩
  | .spaceNew | .spaceSwitch _ | .spaceFork _ | .spaceDestroy _ => True

/-- Steps that write no frame another space may be reading. -/
def Separate (exempt : Nat → Prop) (windows : KernelWindows)
    (backend : Backend) (step : HostStep) : Prop :=
  step.Sparing exempt backend ∧ step.Confining exempt windows backend

instance Cell.Unshared.decidable (exempt : Nat → Prop)
    [DecidablePred exempt] (cell : Cell) (page : Nat) :
    Decidable (cell.Unshared exempt page) :=
  inferInstanceAs (Decidable (∀ frame ∈ cell.space.translate page,
        exempt frame ∨ (cell.space.pteRaw page).writable ∨ ¬ cell.frames.isShared frame))

instance CellStep.Confining.decidable (exempt : Nat → Prop)
    [DecidablePred exempt] (windows : KernelWindows) (cell : Cell) :
    (step : CellStep) → Decidable (step.Confining exempt windows cell)
  | .mapFresh vpage | .mapPhys vpage _ _ | .mapMmio vpage | .unmap vpage
  | .copyEntry _ vpage =>
    inferInstanceAs (Decidable (∀ window ∈ windows.pages, window.1 ≠ pageAt vpage))
  | .swapEntries a b =>
    inferInstanceAs (Decidable (∀ window ∈ windows.pages,
          window.1 ≠ pageAt a ∧ window.1 ≠ pageAt b))
  | .setWritable vpage writable =>
    inferInstanceAs (Decidable (writable → cell.Unshared exempt (pageAt vpage)))
  | .writeByte vaddr _ | .copyByte _ vaddr =>
    inferInstanceAs (Decidable (cell.Unshared exempt (addressAt vaddr / pageSize)))
  | .spaceClean | .demand _ | .cowFault _ | .store _ _ | .readByte _ => .isTrue trivial

instance Separate.decidable (exempt : Nat → Prop) [DecidablePred exempt]
    (windows : KernelWindows) (backend : Backend) :
    (step : HostStep) → Decidable (Separate exempt windows backend step)
  | .active step =>
    inferInstanceAs (Decidable (HostStep.Sparing exempt backend (.active step) ∧
          ∀ space ∈ backend.spaces backend.active,
            step.Confining exempt windows ⟨backend.frames, space⟩))
  | .spaceNew => inferInstanceAs (Decidable (HostStep.Sparing exempt backend .spaceNew ∧ True))
  | .spaceSwitch id =>
    inferInstanceAs (Decidable (HostStep.Sparing exempt backend (.spaceSwitch id) ∧ True))
  | .spaceFork src =>
    inferInstanceAs (Decidable (HostStep.Sparing exempt backend (.spaceFork src) ∧ True))
  | .spaceDestroy id =>
    inferInstanceAs (Decidable (HostStep.Sparing exempt backend (.spaceDestroy id) ∧ True))

/-- The counts cover all references, and writable pages are private. -/
def Settled (exempt : Nat → Prop) [DecidablePred exempt]
    (windows : KernelWindows) (backend : Backend) : Prop :=
  (∃ held, backend.Counted exempt held) ∧ backend.Isolated exempt windows

section Runs

variable {exempt : Nat → Prop} [DecidablePred exempt] {windows : KernelWindows} (reserved : ∀ frame,
      windows.Reserved frame → exempt frame)

include reserved

omit [DecidablePred exempt] in
theorem covered_of_reserved : ∀ window ∈ windows.pages, exempt window.2 := fun window member =>
  reserved window.2 (.inr ⟨window, member, rfl⟩)

theorem Settled.step (backend : Backend) (step : HostStep) (known : Settled exempt windows backend)
    (separate : Separate exempt windows backend step) :
    Settled exempt windows (hostMachine windows backend step).2 := by
  obtain ⟨⟨held, counted⟩, isolated⟩ := known
  have covered := covered_of_reserved reserved
  have zero := reserved 0 (.inl rfl)
  obtain ⟨beside, after, -⟩ := counted.step zero covered step separate.1
  refine ⟨⟨beside, after⟩, ?_⟩
  cases step with
  | spaceNew => exact isolated.spaceNew covered
  | spaceSwitch id => exact ⟨isolated.mine, isolated.windowed⟩
  | spaceFork src =>
    simp only [hostMachine, Backend.spaceFork]
    cases live : backend.spaces src with
    | none => exact isolated
    | some start =>
      have sharing :=
        (Fork.Sharing.begin backend.frames (isolated.windowed src start live) covered).sharePages
          start.presentPages
          fun page member => (Space.mem_presentPages.mp member).2
      exact isolated.fork sharing live (counted.lt_next live).ne
  | spaceDestroy id =>
    simp only [hostMachine, Backend.spaceDestroy]
    by_cases boot : id = 0
    · rw [if_pos boot]
      exact isolated
    · rw [if_neg boot]
      exact isolated.forget _ _
  | active step =>
    simp only [hostMachine]
    cases live : backend.spaces backend.active with
    | none => exact isolated
    | some space =>
      exact isolated.put live (step.confined (fun _ => counted.linked) (counted.cell live) zero
          (isolated.mine _ space live) (separate.1 space live)
          (separate.2 space live))

theorem Settled.isolatedMove (backend : Backend) (step : HostStep)
    (known : Settled exempt windows backend)
    (separate : Separate exempt windows backend step) :
    IsolatedMove exempt ((hostMachine windows).move backend step) := by
  obtain ⟨⟨held, counted⟩, isolated⟩ := known
  have covered := covered_of_reserved reserved
  have zero := reserved 0 (.inl rfl)
  cases step with
  | spaceNew =>
    refine ⟨fun id _ space live page _ _ offset => ?_, by
      simp [Machine.move]⟩
    have old : id ≠ backend.next := (counted.lt_next live).ne
    have memory := (windows.newCell_counted counted.sound counted.spared counted.exact covered).2
    refine Backend.view_congr live ?_ (fun frame _ => ?_) offset
    · simp only [Machine.move, hostMachine, Backend.spaceNew, Backend.put, update_of_ne old]
      exact live
    · exact congrFun memory frame
  | spaceSwitch id => exact ⟨fun _ _ _ _ _ _ _ _ => rfl, by simp [Machine.move]⟩
  | spaceFork src =>
    simp only [Machine.move, hostMachine, Backend.spaceFork]
    cases source : backend.spaces src with
    | none =>
      refine ⟨fun _ _ _ _ _ _ _ _ => rfl, ?_⟩
      rintro other same space live
      cases same
      rw [Option.mem_def, source] at live
      cases live
    | some start =>
      have sharing :=
        (Fork.Sharing.begin backend.frames (isolated.windowed src start source) covered).sharePages
          start.presentPages
          fun page member => (Space.mem_presentPages.mp member).2
      have memory := (counted.forked covered source).2.2
      refine ⟨fun id _ space live page _ _ offset => ?_, ?_⟩
      · exact sharing.view_old source memory (counted.lt_next live).ne page offset
      · rintro other same space live page user ram offset
        cases same
        obtain rfl : start = space := Option.some.inj (source.symm.trans live)
        exact sharing.view_new source memory user ram offset
  | spaceDestroy id =>
    refine ⟨fun other notSubject space live page user plain offset => ?_, by simp [Machine.move]⟩
    have apart : other ≠ id := by
      rintro rfl
      exact notSubject rfl
    replace live : backend.spaces other = some space := live
    simp only [Machine.move, hostMachine, Backend.spaceDestroy]
    by_cases boot : id = 0
    · rw [if_pos boot]
    · rw [if_neg boot]
      have kept : update backend.spaces id none other = some space := by rwa [update_of_ne apart]
      cases gone : backend.spaces id with
      | none =>
        have same : update backend.spaces id none = backend.spaces := by rw [← gone, update_eq_self]
        rw [same]
        rfl
      | some dying =>
        have confined :
            Cell.Confined exempt windows (backend.Foreign exempt id) ⟨backend.frames, dying⟩
              (Cell.freeUserFrames ⟨backend.frames, dying⟩) :=
          Cell.confined_freeUserFrames (fun _ => counted.linked) (counted.cell gone) zero
            (separate.1.resolve_left boot dying gone)
        dsimp only
        generalize Cell.freeUserFrames ⟨backend.frames, dying⟩ = freed at confined ⊢
        exact Backend.Isolated.view_put confined apart live user plain rfl kept offset
  | active step =>
    refine ⟨fun other notSubject space live page user plain offset => ?_, by simp [Machine.move]⟩
    have apart : other ≠ backend.active := by
      rintro rfl
      exact notSubject rfl
    simp only [Machine.move, hostMachine]
    cases acting : backend.spaces backend.active with
    | none => rfl
    | some own =>
      have confined :=
        step.confined (fun _ => counted.linked) (counted.cell acting)
          zero (isolated.mine _ own acting) (separate.1 own acting)
          (separate.2 own acting)
      refine Backend.Isolated.view_put confined apart live user plain rfl ?_ offset
      simp only [Backend.put, update_of_ne apart]
      exact live

end Runs

/--
Over every sequence of calls: while the kernel writes no page that shares its
frame, no step changes what another space reads.
-/
theorem hosted_forks_isolated (exempt : Nat → Prop) [DecidablePred exempt] (windows : KernelWindows)
    (reserved : ∀ frame, windows.Reserved frame → exempt frame)
    (start : Backend) (settled : Settled exempt windows start)
    (calls : List HostCall)
    (separate : (hostMachine windows).Meets (Separate exempt windows) start (allSteps calls)) :
    ∀ move ∈ (hostMachine windows).run start (allSteps calls), IsolatedMove exempt move :=
  Machine.forall_run (Settled.step reserved) (Settled.isolatedMove reserved) settled separate

/-- The first space is alone. -/
theorem boot_settled {windows : KernelWindows} {exempt : Nat → Prop}
    [DecidablePred exempt] {first : Nat}
    (low : ∀ frame, exempt frame ↔ frame < first)
    (covered : ∀ window ∈ windows.pages, exempt window.2) :
    Settled exempt windows (boot windows first) := by
  refine ⟨⟨_, boot_counted low covered⟩, Backend.Isolated.spaceNew ?_ covered⟩
  exact ⟨by simp, by simp⟩

namespace Sample

/-- Frame 2 is the memory of a device. -/
def device (frame : Nat) : Prop := frame < 3

instance device.decidable : DecidablePred device := fun frame =>
  inferInstanceAs (Decidable (frame < 3))

/-- Two generations of forks and stores to all of them. -/
def generations : List HostCall :=
  [.spaceMapFresh 0x100 2, .spaceMapPhys 0x300 1 2 true,
    .copyTo 0x100FFF [1, 2], .single (.spaceFork 0),
    .single (.active (.store 0x100FFF 3)), .single (.spaceSwitch 1),
    .single (.spaceFork 1), .single (.active (.store 0x100FFF 4)),
    .copyTo 0x100FFF [5], .spaceSetWritable 0x100 1 false,
    .spaceUnmap 0x300 1, .single (.spaceSwitch 2), .single (.active (.store 0x101000 6)),
    .copyWithin 0x101000 0x101001 2, .single (.spaceDestroy 1)]

/-- A byte is written and the space forked. -/
def forking : List HostStep := [.active (.writeByte 0x100000 1), .spaceFork 0]

theorem forked_live : (((hostMachine windows).final (boot windows 2) forking).spaces 1).isSome := by
  decide +kernel

theorem forked_plain :
    ∀ space ∈ ((hostMachine windows).final (boot windows 2) forking).spaces 1,
      ∀ frame ∈ space.translate 0x100, ¬ windows.Reserved frame := by
  decide +kernel

end Sample

theorem generations_are_isolated :
    (hostMachine Sample.windows).Meets
        (Separate Sample.device Sample.windows) (boot Sample.windows 3)
        (allSteps Sample.generations) ∧
      ∀ move ∈ (hostMachine Sample.windows).run (boot Sample.windows 3)
          (allSteps Sample.generations),
        IsolatedMove Sample.device move := by
  refine (and_iff_left_of_imp fun separate => ?_).mpr (by decide +kernel)
  exact hosted_forks_isolated Sample.device Sample.windows (fun frame reserved =>
      Nat.lt_succ_of_lt ((Sample.reserved_iff frame).mp reserved))
    (boot Sample.windows 3)
    (boot_settled (fun _ => Iff.rfl) (by decide)) Sample.generations
    separate

/--
The kernel writes a byte, forks, and writes again to the same address of the
first space: the second write shows in the new one.
-/
theorem kernel_write_reaches_fork :
    ∃ move ∈ (hostMachine Sample.windows).run (boot Sample.windows 2) (allSteps
          [.copyTo 0x100000 [1], .single (.spaceFork 0), .copyTo 0x100000 [2]]),
      ¬ IsolatedMove Sample.windows.Reserved move := by
  refine ⟨_, Machine.last_mem_run (hostMachine Sample.windows)
    (boot Sample.windows 2) Sample.forking
    (.active (.writeByte 0x100000 2)), fun isolated => ?_⟩
  obtain ⟨space, live⟩ := Option.isSome_iff_exists.mp Sample.forked_live
  have same :=
    isolated.others 1 (by decide +kernel) space live 0x100 (by decide)
      (Sample.forked_plain space live) 0
  exact absurd same (by decide +kernel)

end RetroOS.Hosted
