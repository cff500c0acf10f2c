import RetroOS.Lib.RefCount

/-!
# Guest physical memory of the hosted backend

Frames come from a list of freed ones or else from the end of what was ever
used.  A frame with more than one reference has an entry in a side table;
without an entry an allocated frame has one.  Freeing takes a reference away,
and the last one returns the frame to the list with its bytes cleared.

The panic of an exhausted memory is left out: the frames go on.
-/

namespace RetroOS.Hosted

open Lib
open Function (update update_of_ne update_self)

structure Frames where
  nextFrame : Nat
  freeList : List Nat
  shared : Nat → Option Nat
  memory : Nat → Nat → UInt8

namespace Frames

/-- Take one frame, a freed one if there is any. -/
def alloc (frames : Frames) : Nat × Frames :=
  match frames.freeList with
  | frame :: rest => (frame, { frames with freeList := rest })
  | [] => (frames.nextFrame, { frames with nextFrame := frames.nextFrame + 1 })

def incRef (frames : Frames) (frame : Nat) : Frames :=
  { frames with shared := update frames.shared frame (some ((frames.shared frame).getD 1 + 1)) }

def isShared (frames : Frames) (frame : Nat) : Bool := (frames.shared frame).isSome

/-- Write zeros over a frame. -/
def zeroFrame (frames : Frames) (frame : Nat) : Frames :=
  { frames with memory := update frames.memory frame fun _ => 0 }

/-- Give one reference back; frame 0 is never freed. -/
def freeFrame (frames : Frames) (frame : Nat) : Frames :=
  if frame = 0 then frames
  else
    match frames.shared frame with
    | some count =>
      { frames with
        shared := update frames.shared frame (if count - 1 ≤ 1 then none else some (count - 1)) }
    | none => { frames.zeroFrame frame with freeList := frame :: frames.freeList }

def setByte (frames : Frames) (frame offset : Nat) (byte : UInt8) : Frames :=
  { frames with memory := update frames.memory frame (update (frames.memory frame) offset byte) }

def copyFrame (frames : Frames) (source target : Nat) : Frames :=
  { frames with memory := update frames.memory target (frames.memory source) }

/-! ## The count of a frame -/

/-- A frame that the allocator may hand out. -/
def Free (frames : Frames) (frame : Nat) : Prop :=
  frame ∈ frames.freeList ∨ frames.nextFrame ≤ frame

instance Free.decidable (frames : Frames) (frame : Nat) : Decidable (frames.Free frame) :=
  inferInstanceAs (Decidable (_ ∨ _))

/-- The references a frame has according to the allocator. -/
def count (frames : Frames) (frame : Nat) : Nat :=
  if frames.Free frame then 0 else (frames.shared frame).getD 1

/-- What holds of the allocator's tables at any time. -/
structure Sound (frames : Frames) : Prop where
  nodup : frames.freeList.Nodup
  below : ∀ frame ∈ frames.freeList, frame < frames.nextFrame
  plain : ∀ frame, frames.Free frame → frames.shared frame = none
  several : ∀ frame count, frames.shared frame = some count → 2 ≤ count
  blank : ∀ frame, frames.Free frame → frames.memory frame = fun _ => 0

variable {frames : Frames}

variable {frame : Nat}

theorem count_congr {other : Frames} (free : other.Free frame ↔ frames.Free frame)
    (shared : other.shared frame = frames.shared frame) :
    other.count frame = frames.count frame := by
  simp only [count, free, shared]

section

variable (sound : frames.Sound)

include sound

theorem count_eq_zero : frames.count frame = 0 ↔ frames.Free frame := by
  unfold count
  split_ifs with free
  · simp [free]
  · simp only [free, iff_false]
    cases known : frames.shared frame with
    | none => simp
    | some count =>
      have several := sound.several frame count known
      simp only [Option.getD_some]
      omega

theorem Sound.not_free (taken : 0 < frames.count frame) : ¬ frames.Free frame := by
  intro free
  rw [(count_eq_zero sound).mpr free] at taken
  omega

/-- A frame with an entry in the side table has more than one reference. -/
theorem isShared_iff : frames.isShared frame ↔ 2 ≤ frames.count frame := by
  unfold isShared count
  cases known : frames.shared frame with
  | none => split_ifs <;> simp
  | some count =>
    have several := sound.several frame count known
    have taken : ¬ frames.Free frame := by
      intro free
      rw [sound.plain frame free] at known
      cases known
    simpa [taken] using several

theorem free_alloc (frame : Nat) :
    frames.alloc.2.Free frame ↔ frames.Free frame ∧ frame ≠ frames.alloc.1 := by
  unfold alloc Free
  cases known : frames.freeList with
  | nil =>
    simp only [List.not_mem_nil, false_or]
    omega
  | cons first rest =>
    have nodup := sound.nodup
    have below := sound.below first
    rw [known] at nodup below
    have outside := (List.nodup_cons.mp nodup).1
    have inside := below List.mem_cons_self
    simp only [List.mem_cons]
    constructor
    · rintro (later | beyond)
      · refine ⟨.inl (.inr later), ?_⟩
        rintro rfl
        exact outside later
      · exact ⟨.inr beyond, by omega⟩
    · rintro ⟨(rfl | later) | beyond, other⟩
      · exact absurd rfl other
      · exact .inl later
      · exact .inr beyond

omit sound in
theorem alloc_free (frames : Frames) : frames.Free frames.alloc.1 := by
  unfold alloc Free
  cases known : frames.freeList with
  | nil => exact .inr le_rfl
  | cons first rest => exact .inl List.mem_cons_self

omit sound in
theorem alloc_same (frames : Frames) :
    frames.alloc.2.memory = frames.memory ∧ frames.alloc.2.shared = frames.shared := by
  unfold alloc
  cases frames.freeList <;> exact ⟨rfl, rfl⟩

theorem alloc_sound : frames.alloc.2.Sound := by
  obtain ⟨memory, shared⟩ := alloc_same frames
  refine ⟨?_, ?_, ?_, ?_, ?_⟩
  · unfold alloc
    cases known : frames.freeList with
    | nil => simp
    | cons first rest =>
      have nodup := sound.nodup
      rw [known] at nodup
      exact (List.nodup_cons.mp nodup).2
  · unfold alloc
    cases known : frames.freeList with
    | nil => simp
    | cons first rest =>
      intro frame member
      refine sound.below frame ?_
      rw [known]
      exact List.mem_cons_of_mem _ member
  · intro frame free
    rw [shared]
    exact sound.plain frame ((free_alloc sound frame).mp free).1
  · rw [shared]
    exact sound.several
  · intro frame free
    rw [memory]
    exact sound.blank frame ((free_alloc sound frame).mp free).1

/-- The frame that is handed out has its first reference. -/
theorem count_alloc (frame : Nat) :
    frames.alloc.2.count frame = frames.count frame + refersTo (some frames.alloc.1) frame := by
  have free := free_alloc sound frame
  have shared := (alloc_same frames).2
  by_cases same : frames.alloc.1 = frame
  · subst same
    have taken : ¬ frames.alloc.2.Free frames.alloc.1 := by simp [free]
    simp [count, taken, alloc_free, shared, sound.plain _ (alloc_free frames)]
  · have other : frame ≠ frames.alloc.1 := Ne.symm same
    have iff : frames.alloc.2.Free frame ↔ frames.Free frame := by simp [free, other]
    rw [refersTo_some, if_neg same, Nat.add_zero]
    exact count_congr iff (congrFun shared frame)

theorem incRef_sound (taken : 0 < frames.count frame) : (frames.incRef frame).Sound := by
  have notFree := sound.not_free taken
  refine ⟨sound.nodup, sound.below, ?_, ?_, sound.blank⟩
  · intro other free
    have apart : other ≠ frame := by
      rintro rfl
      exact notFree free
    simpa [incRef, apart] using sound.plain other free
  · intro other count known
    by_cases same : other = frame
    · subst same
      simp only [incRef, update_self, Option.some.injEq] at known
      cases before : frames.shared other with
      | none => simp [before] at known; omega
      | some old =>
        have several := sound.several other old before
        simp only [before, Option.getD_some] at known
        omega
    · simp only [incRef, update_of_ne same] at known
      exact sound.several other count known

theorem count_incRef (taken : 0 < frames.count frame) (other : Nat) :
    (frames.incRef frame).count other = frames.count other + refersTo (some frame) other := by
  have notFree := sound.not_free taken
  simp only [Free] at notFree
  by_cases here : frame = other
  · subst here
    simp [count, Free, notFree, incRef]
  · rw [refersTo_some, if_neg here, Nat.add_zero]
    exact count_congr Iff.rfl (update_of_ne (Ne.symm here) _ _)

omit sound in
/-- What freeing the last reference of a frame leaves. -/
theorem freeFrame_last (natural : frame ≠ 0) (last : frames.shared frame = none) :
    frames.freeFrame frame =
      { frames.zeroFrame frame with
        freeList := frame :: frames.freeList } := by
  simp [freeFrame, natural, last]

omit sound in
/-- What freeing one of several references leaves. -/
theorem freeFrame_shared {frame count : Nat} (natural : frame ≠ 0)
    (known : frames.shared frame = some count) :
    frames.freeFrame frame =
      { frames with
        shared :=
          update frames.shared frame (if count - 1 ≤ 1 then none else some (count - 1)) } := by
  simp [freeFrame, natural, known]

/-- The bytes of a frame go with its last reference only. -/
theorem memory_freeFrame {frame other : Nat} (kept : other = frame → 2 ≤ frames.count frame) :
    (frames.freeFrame frame).memory other = frames.memory other := by
  by_cases zero : frame = 0
  · simp [freeFrame, zero]
  · cases known : frames.shared frame with
    | some count => rw [freeFrame_shared zero known]
    | none =>
      rw [freeFrame_last zero known]
      have apart : other ≠ frame := by
        intro same
        have several := (isShared_iff sound).mpr (kept same)
        simp [isShared, known] at several
      simp [zeroFrame, apart]

theorem freeFrame_sound (taken : 0 < frames.count frame) : (frames.freeFrame frame).Sound := by
  have notFree := sound.not_free taken
  by_cases zero : frame = 0
  · simpa [freeFrame, zero] using sound
  · cases known : frames.shared frame with
    | some count =>
      have several := sound.several frame count known
      rw [freeFrame_shared zero known]
      refine ⟨sound.nodup, sound.below, ?_, ?_, sound.blank⟩
      · intro other free
        have apart : other ≠ frame := by
          rintro rfl
          exact notFree free
        simpa [apart] using sound.plain other free
      · intro other found entry
        by_cases same : other = frame
        · subst same
          simp only [update_self] at entry
          split_ifs at entry with one
          obtain rfl := Option.some.inj entry
          omega
        · simp only [update_of_ne same] at entry
          exact sound.several other found entry
    | none =>
      rw [freeFrame_last zero known]
      unfold Free at notFree
      rw [not_or] at notFree
      refine ⟨List.nodup_cons.mpr ⟨notFree.1, sound.nodup⟩, ?_, ?_, sound.several, ?_⟩
      · intro other member
        rcases List.mem_cons.mp member with rfl | earlier
        · exact Nat.lt_of_not_le notFree.2
        · exact sound.below other earlier
      · rintro other (member | beyond)
        · rcases List.mem_cons.mp member with rfl | earlier
          · exact known
          · exact sound.plain other (.inl earlier)
        · exact sound.plain other (.inr beyond)
      · intro other free
        by_cases same : other = frame
        · simp [zeroFrame, same]
        · have before : frames.Free other := by
            rcases free with member | beyond
            · exact .inl ((List.mem_cons.mp member).resolve_left same)
            · exact .inr beyond
          simpa [zeroFrame, same] using sound.blank other before

theorem count_freeFrame (natural : frame ≠ 0) (taken : 0 < frames.count frame) (other : Nat) :
    (frames.freeFrame frame).count other + refersTo (some frame) other = frames.count other := by
  have notFree := sound.not_free taken
  cases known : frames.shared frame with
  | some count =>
    have several := sound.several frame count known
    rw [freeFrame_shared natural known]
    by_cases here : frame = other
    · subst here
      simp only [Frames.count, Free] at notFree ⊢
      simp only [notFree, if_false, update_self, known, refersTo_some, if_true, Option.getD_some]
      split_ifs with one
      · simp only [Option.getD_none]
        omega
      · simp only [Option.getD_some]
        omega
    · rw [refersTo_some, if_neg here, Nat.add_zero]
      exact count_congr Iff.rfl (update_of_ne (Ne.symm here) _ _)
  | none =>
    rw [freeFrame_last natural known]
    by_cases here : frame = other
    · subst here
      simp only [Frames.count, Free] at notFree ⊢
      simp [notFree, known]
    · rw [refersTo_some, if_neg here, Nat.add_zero]
      refine count_congr ?_ rfl
      simp [Free, zeroFrame, Ne.symm here]

end

end Frames

end RetroOS.Hosted
