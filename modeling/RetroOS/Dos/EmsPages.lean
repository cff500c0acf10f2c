import RetroOS.Dos.Ems

/-!
# Where the pages of expanded memory lie

A call works on the page list of one handle: it leaves a part of the list, or
adds the pages that come next.  `EmsState.Turns` says so, and what holds of
the pages in every run follows from it.

The numbers of backing pages come from a counter of sixteen bits, so that they
all lie in one window above the first backing page, whatever the guest asks of
the driver.  Nothing is said of two handles here: once the counter has gone
around, it numbers pages that other handles may still hold.
-/

namespace RetroOS.Dos

open Lib

namespace EmsState

/-- The pages of all handles lie in the reach of the counter. -/
def InReach (state : EmsState) : Prop :=
  ∀ slot, ∀ page ∈ (state.handles slot).getD [], page < emsBackingVpage + 2 ^ 18

/-- The backing pages of a handle. -/
def pagesOf (state : EmsState) (slot : Fin maxEmsHandles) : List Nat :=
  (state.handles slot).getD []

@[simp]
theorem pagesOf_setHandle (state : EmsState) (slot other : Fin maxEmsHandles)
    (held : Option (List Nat)) :
    (state.setHandle slot held).pagesOf other =
      if other = slot then held.getD [] else state.pagesOf other := by
  simp only [pagesOf, setHandle, Function.update_apply, apply_ite (Option.getD · [])]

/-- What a call does to the pages of the handles and to the counter. -/
inductive Turns (regs : Regs) (before after : EmsState) : Prop where
  | keeps (part : ∀ slot, after.pagesOf slot <+: before.pagesOf slot)
      (free : ∀ slot, before.handles slot = none → after.handles slot = none)
      (next : after.nextPage = before.nextPage)
  | takes (slot : Fin maxEmsHandles) (count : Nat)
      (asks : EmsFunction.ofAh (highByte regs.rax) ∈ [.allocate, .reallocate])
      (few : count ≤ word regs.rbx)
      (own : after.pagesOf slot = before.pagesOf slot ++ (before.takePages count).1)
      (others : ∀ other ≠ slot, after.pagesOf other = before.pagesOf other)
      (next : after.nextPage = (before.nextPage + count) % 2 ^ 16)
      (fits : after.nextPage ≤ emsTotalPages)

variable {regs : Regs} {before after : EmsState}

theorem Turns.same (handles : after.handles = before.handles)
    (next : after.nextPage = before.nextPage) : Turns regs before after := by
  refine .keeps (fun slot => ?_) (fun slot free => handles ▸ free) next
  rw [pagesOf, handles, pagesOf]

theorem InReach.new : new.InReach := by
  intro slot page member
  cases member

theorem mem_pagesOf_takes {slot other : Fin maxEmsHandles} {count page : Nat}
    (own : after.pagesOf slot = before.pagesOf slot ++ (before.takePages count).1)
    (others : ∀ other ≠ slot, after.pagesOf other = before.pagesOf other)
    (member : page ∈ after.pagesOf other) :
    page ∈ before.pagesOf other ∨ other = slot ∧ page ∈ (before.takePages count).1 := by
  rcases eq_or_ne other slot with rfl | apart
  · rw [own] at member
    exact (List.mem_append.mp member).imp_right fun fresh => ⟨rfl, fresh⟩
  · rw [others other apart] at member
    exact .inl member

theorem Turns.inReach (turns : Turns regs before after) (reach : before.InReach) :
    after.InReach := by
  intro other page member
  cases turns with
  | keeps part free next => exact reach other page ((part other).subset member)
  | takes slot count asks few own others next fits =>
    rcases mem_pagesOf_takes own others member with old | ⟨_, fresh⟩
    · exact reach other page old
    · obtain ⟨index, _, rfl⟩ := List.mem_map.mp fresh
      have small := Nat.mod_lt (before.nextPage + index) (by decide : 0 < 2 ^ 16)
      omega

end EmsState

/-! ## Calls -/

section Driver

variable {basePage : Nat} {world after : EmsWorld}

theorem saveWindow_ems {window : Fin 4} (saved : saveWindow basePage world window = some after) :
    after.ems = world.ems := by
  unfold saveWindow at saved
  split at saved
  · split at saved
    · split at saved
      · cases saved
        rfl
      · cases saved
    · cases saved
      rfl
  · cases saved
    rfl

/-- Handles and counter are as before. -/
def Remapped (world after : EmsWorld) : Prop :=
  after.ems.handles = world.ems.handles ∧ after.ems.nextPage = world.ems.nextPage

theorem Remapped.of_saved {window : Fin 4} {saved : EmsWorld}
    (known : saveWindow basePage world window = some saved)
    (later : Remapped saved after) : Remapped world after := by
  unfold Remapped at later ⊢
  rwa [saveWindow_ems known] at later

theorem unmapWindows_remapped {slot : Fin maxEmsHandles} {windows : List (Fin 4)}
    (unmapped : unmapWindows basePage slot windows world = some after) : Remapped world after := by
  induction windows generalizing world with
  | nil =>
    cases unmapped
    exact ⟨rfl, rfl⟩
  | cons window rest induction =>
    unfold unmapWindows at unmapped
    split at unmapped
    · split_ifs at unmapped
      · split at unmapped
        · next saved known =>
            have later := induction unmapped
            exact .of_saved known later
        · cases unmapped
      · exact induction unmapped
    · exact induction unmapped

theorem mapEntries_remapped {al base code : Nat} {slot : Fin maxEmsHandles} {indices : List Nat}
    (mapped : mapEntries basePage al base slot indices world = some (code, after)) :
    Remapped world after := by
  induction indices generalizing world with
  | nil =>
    cases mapped
    exact ⟨rfl, rfl⟩
  | cons index rest induction =>
    unfold mapEntries at mapped
    dsimp only at mapped
    split at mapped
    · cases mapped
      exact ⟨rfl, rfl⟩
    · split at mapped
      · cases mapped
      · next saved known =>
          split_ifs at mapped
          · have later := induction mapped
            exact .of_saved known later
          · split at mapped
            · have later := induction mapped
              exact .of_saved known later
            · cases mapped
              exact .of_saved known ⟨rfl, rfl⟩

variable {regs answer : Regs}

theorem emsMap_remapped (mapped : emsMap basePage world regs = some (answer, after)) :
    Remapped world after := by
  unfold emsMap at mapped
  dsimp only at mapped
  split at mapped
  · cases mapped
    exact ⟨rfl, rfl⟩
  · split_ifs at mapped
    · split at mapped
      · next saved known =>
          cases mapped
          exact .of_saved known ⟨rfl, rfl⟩
      · cases mapped
    · split at mapped
      · cases mapped
        exact ⟨rfl, rfl⟩
      · split at mapped
        · split at mapped
          · split at mapped
            · next saved known =>
                cases mapped
                exact .of_saved known ⟨rfl, rfl⟩
            · cases mapped
          · cases mapped
            exact ⟨rfl, rfl⟩
        · cases mapped
          exact ⟨rfl, rfl⟩

theorem emsMapMultiple_remapped
    (mapped : emsMapMultiple basePage world regs = some (answer, after)) :
    Remapped world after := by
  unfold emsMapMultiple at mapped
  split at mapped
  · cases mapped
    exact ⟨rfl, rfl⟩
  · split at mapped
    · cases mapped
      exact ⟨rfl, rfl⟩
    · split at mapped
      · next code shown known =>
          cases mapped
          exact mapEntries_remapped known
      · cases mapped

theorem emsRelease_turns (released : emsRelease basePage world regs = some (answer, after)) :
    EmsState.Turns regs world.ems after.ems := by
  unfold emsRelease at released
  split at released
  · cases released
    exact .same rfl rfl
  · next slot _ =>
      split at released
      · cases released
        exact .same rfl rfl
      · split at released
        · next unmapped known =>
            cases released
            obtain ⟨handles, next⟩ := unmapWindows_remapped known
            refine .keeps (fun other => ?_) (fun other free => ?_) next
            · rw [EmsState.pagesOf_setHandle]
              split_ifs
              · exact List.nil_prefix
              · rw [EmsState.pagesOf, handles, EmsState.pagesOf]
            · simp [EmsState.setHandle, Function.update_apply, handles, free]
        · cases released

theorem emsAllocate_turns (function : EmsFunction.ofAh (highByte regs.rax) = .allocate) :
    EmsState.Turns regs world.ems (emsAllocate world regs).2.ems := by
  unfold emsAllocate
  dsimp only
  split
  · next slot found =>
      have free : world.ems.handles slot = none := by simpa using List.find?_some found
      split_ifs with full
      · exact .same rfl rfl
      · refine .takes slot (word regs.rbx) (by simp [function]) le_rfl ?_ ?_ rfl (not_lt.mp full)
        · simp [EmsState.pagesOf, free]
        · exact fun other apart => (EmsState.pagesOf_setHandle _ _ _ _).trans (if_neg apart)
  · exact .same rfl rfl

theorem emsReallocate_turns (function : EmsFunction.ofAh (highByte regs.rax) = .reallocate) :
    EmsState.Turns regs world.ems (emsReallocate world regs).2.ems := by
  unfold emsReallocate
  dsimp only
  split
  · exact .same rfl rfl
  · next slot _ =>
      split
      · exact .same rfl rfl
      · next list known =>
          split_ifs with more full
          · exact .same rfl rfl
          · refine .takes slot (word regs.rbx - list.length) (by simp [function])
              (Nat.sub_le _ _) ?_ ?_ rfl (not_lt.mp full)
            · simp [EmsState.pagesOf, known]
            · exact fun other apart => (EmsState.pagesOf_setHandle _ _ _ _).trans (if_neg apart)
          · refine .keeps (fun other => ?_) (fun other free => ?_) rfl
            · rw [EmsState.pagesOf_setHandle]
              split_ifs with here
              · simpa [here, EmsState.pagesOf, known] using List.take_prefix _ _
              · exact List.prefix_refl _
            · have apart : other ≠ slot := by
                rintro rfl
                rw [known] at free
                cases free
              exact (EmsState.handles_setHandle_of_ne _ apart _).trans free

theorem int67hInner_turns (answered : int67hInner basePage world regs = some (answer, after)) :
    EmsState.Turns regs world.ems after.ems := by
  unfold int67hInner at answered
  cases function : EmsFunction.ofAh (highByte regs.rax) with
  | allocate =>
    rw [function] at answered
    have turns := @emsAllocate_turns world regs function
    rwa [Option.some.inj answered] at turns
  | map =>
    rw [function] at answered
    exact .same (emsMap_remapped answered).1 (emsMap_remapped answered).2
  | release =>
    rw [function] at answered
    exact emsRelease_turns answered
  | mapMultiple =>
    rw [function] at answered
    exact .same (emsMapMultiple_remapped answered).1 (emsMapMultiple_remapped answered).2
  | reallocate =>
    rw [function] at answered
    have turns := @emsReallocate_turns world regs function
    rwa [Option.some.inj answered] at turns
  | mappable =>
    rw [function] at answered
    have same : (emsMappable basePage world regs).2.ems = world.ems := by
      unfold emsMappable
      dsimp only
      split_ifs <;> rfl
    rw [Option.some.inj answered] at same
    rw [same]
    exact .same rfl rfl
  | _ =>
    -- the other calls only report
    rw [function] at answered
    cases answered
    exact .same rfl rfl

theorem emsMachine_turns (world : EmsWorld) (call : EmsCall) :
    EmsState.Turns call.regs world.ems (emsMachine basePage world call).2.ems := by
  unfold emsMachine int67h
  split
  · next answer after answered =>
      split_ifs at answered
      · cases answered
        exact .same rfl rfl
      · exact int67hInner_turns answered
  · exact .same rfl rfl

/-- Whatever the guest asks for, its pages stay in the reach. -/
theorem final_inReach (basePage : Nat) (pages : GuestPages) (calls : List EmsCall) :
    ((emsMachine basePage).final ⟨.new, pages⟩ calls).ems.InReach := by
  have step :
      ∀ (world : EmsWorld) (call : EmsCall), world.ems.InReach → True →
        (emsMachine basePage world call).2.ems.InReach :=
    fun world call reach _ => (emsMachine_turns world call).inReach reach
  exact Machine.invariant_final step .new (Machine.meets_of_forall (fun _ _ => trivial) _ calls)

end Driver

end RetroOS.Dos
