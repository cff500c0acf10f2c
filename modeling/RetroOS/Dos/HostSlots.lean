import RetroOS.Dos.Descriptors

/-!
# The host's slots of the descriptor table

A descriptor call does one of five things to the table: nothing, hand out a
slot that maps the segment already, take free slots in a row, free the slot it
names, or edit the slot it names (`Effect`).  Slots below 16 are never taken
and never freed, so the slots of the host stay allocated whatever the client
does, and only an edit that names one of them can change its descriptor.
-/

namespace RetroOS.Dos

open Lib

def ClientRegs.function (regs : ClientRegs) : DescriptorFunction := .ofAx (word regs.rax)

/-- How many slots a call asks for. -/
def ClientRegs.requested (regs : ClientRegs) : Option Nat :=
  match regs.function with
  | .allocate => some (word regs.rcx)
  | .segmentToDescriptor => some 1
  | .createAlias => some 1
  | _ => none

/-- Whether a call edits the descriptor of a selector in BX. -/
def ClientRegs.Edits (regs : ClientRegs) : Prop :=
  regs.function = .setBase ∨ regs.function = .setLimit ∨
    regs.function = .setRights ∨ regs.function = .setDescriptor

instance (regs : ClientRegs) : Decidable regs.Edits := inferInstanceAs (Decidable (_ ∨ _ ∨ _ ∨ _))

/-- Whether the selector in BX is one of a slot of the local table. -/
def ClientRegs.Names (regs : ClientRegs) (idx : Nat) : Prop :=
  isLocal (word regs.rbx) = true ∧ selToIdx (word regs.rbx) = idx

instance (regs : ClientRegs) (idx : Nat) : Decidable (regs.Names idx) :=
  inferInstanceAs (Decidable (_ ∧ _))

/-- Slots in a row that were free and now are taken. -/
structure Takes (before after : DescriptorState) (first count : Nat) :
    Prop where
  inside : first + count ≤ ldtEntries
  free : ∀ idx, first ≤ idx → idx < first + count → before.ldtAlloc idx = false
  taken : ∀ idx, first ≤ idx → idx < first + count → after.ldtAlloc idx = true

/-- What a descriptor call does to the table, and what it answers. -/
inductive Effect (before : DescriptorState) (regs : ClientRegs) :
    DescriptorAnswer → DescriptorState → Prop where
  | same {answer : DescriptorAnswer} {after : DescriptorState} (ldt : after.ldt = before.ldt)
      (ldtAlloc : after.ldtAlloc = before.ldtAlloc)
      (quiet : regs.requested = none ∨ answer.carry = true) :
      Effect before regs answer after
  | reused (idx : Nat) (asked : regs.function = .segmentToDescriptor)
      (allocated : before.ldtAlloc idx = true) (inside : idx < ldtEntries)
      (maps : descIsSegAlias (before.ldt idx) (BitVec.ofNat 32 (word regs.rbx) <<< 4) = true) :
      Effect before regs ⟨regs.setAx (idxToSel idx), false⟩ before
  | taken (first count : Nat) (desc : BitVec 64)
      (asked : regs.requested = some count) (high : 16 ≤ first)
      (inside : first + count ≤ ldtEntries)
      (free : ∀ idx, first ≤ idx → idx < first + count → before.ldtAlloc idx = false) :
      Effect before regs ⟨regs.setAx (idxToSel first), false⟩ (before.install first count desc)
  | freed {answer : DescriptorAnswer} (idx : Nat)
      (asked : regs.function = .free) (named : regs.Names idx)
      (high : 16 ≤ idx) :
      Effect before regs answer (before.freeLdt idx)
  | edited {answer : DescriptorAnswer} (idx : Nat) (desc : BitVec 64)
      (asked : regs.Edits) (named : regs.Names idx) :
      Effect before regs answer (before.setDesc idx desc)

namespace DescriptorState

variable (state : DescriptorState) {idx other : Nat}

theorem freeLdt_ldtAlloc_of_ne (apart : other ≠ idx) :
    (state.freeLdt idx).ldtAlloc other = state.ldtAlloc other := by
  unfold freeLdt
  split_ifs
  · exact Function.update_of_ne apart _ _
  · rfl

theorem freeLdt_ldt_of_ne (apart : other ≠ idx) :
    (state.freeLdt idx).ldt other = state.ldt other := by
  unfold freeLdt
  split_ifs
  · exact Function.update_of_ne apart _ _
  · rfl

end DescriptorState

/-! ## What the calls do -/

variable {ldtAlloc : Nat → Bool} {idx : Nat}

theorem allocLdt_spec (found : allocLdt ldtAlloc = some idx) :
    16 ≤ idx ∧ idx < ldtEntries ∧ ldtAlloc idx = false := by
  have inside := List.mem_range'_1.mp (List.mem_of_find?_eq_some found)
  have free := List.find?_some found
  unfold ldtEntries at *
  exact ⟨inside.1, by omega, by simpa using free⟩

theorem allocLdtRange_spec {count first : Nat} (found : allocLdtRange ldtAlloc count = some first) :
    16 ≤ first ∧ first + count ≤ ldtEntries ∧
      ∀ idx, first ≤ idx → idx < first + count → ldtAlloc idx = false := by
  unfold allocLdtRange at found
  split_ifs at found with refused
  have inside := List.mem_range'_1.mp (List.mem_of_find?_eq_some found)
  have free := List.find?_some found
  refine ⟨inside.1, by omega, ?_⟩
  intro idx lower upper
  have here := List.all_eq_true.mp free idx (List.mem_range'_1.mpr ⟨lower, upper⟩)
  simpa using here

theorem validLdtSelectorIdx_spec {sel idx : Nat}
    (valid : validLdtSelectorIdx ldtAlloc sel = some idx) :
    isLocal sel = true ∧ selToIdx sel = idx := by
  unfold validLdtSelectorIdx at valid
  split_ifs at valid with here allocated
  exact ⟨here, Option.some.inj valid⟩

namespace DescriptorState

variable {state : DescriptorState} {client : DpmiClient} {regs : ClientRegs}

theorem refuse_effect : Effect state regs (state.refuse regs).1 (state.refuse regs).2 :=
  .same rfl rfl (Or.inr rfl)

/-- A call that takes the first free slot. -/
theorem takeOne_effect (asked : regs.requested = some 1)
    (found : allocLdt state.ldtAlloc = some idx) {desc : BitVec 64} :
    Effect state regs ⟨regs.setAx (idxToSel idx), false⟩ (state.install idx 1 desc) := by
  obtain ⟨high, inside, free⟩ := allocLdt_spec found
  apply Effect.taken idx 1 desc asked high inside
  intro other lower upper
  have only : other = idx := by omega
  rw [only]
  exact free

theorem allocate_effect (asked : regs.function = .allocate) :
    Effect state regs (state.allocate client regs).1 (state.allocate client regs).2 := by
  unfold allocate
  cases found : allocLdtRange state.ldtAlloc (word regs.rcx) with
  | none => exact refuse_effect
  | some first =>
    obtain ⟨high, inside, free⟩ := allocLdtRange_spec found
    apply Effect.taken first _ _ _ high inside free
    simp only [ClientRegs.requested, asked]

theorem free_effect (asked : regs.function = .free) :
    Effect state regs (state.free regs).1 (state.free regs).2 := by
  unfold free
  split_ifs with ignored
  · exact .same rfl rfl (Or.inl (by simp only [ClientRegs.requested, asked]))
  · push Not at ignored
    exact .freed _ asked ⟨ignored.1, rfl⟩ ignored.2.1

theorem segmentToDescriptor_effect (asked : regs.function = .segmentToDescriptor) :
    Effect state regs (state.segmentToDescriptor regs).1 (state.segmentToDescriptor regs).2 := by
  unfold segmentToDescriptor
  cases mapped : state.segAlias (BitVec.ofNat 32 (word regs.rbx) <<< 4) with
  | some idx =>
    have fits := List.find?_some mapped
    rw [Bool.and_eq_true] at fits
    obtain ⟨allocated, maps⟩ := fits
    unfold ldtIsAllocated at allocated
    split_ifs at allocated with outside
    exact .reused idx asked allocated (Nat.lt_of_not_le outside) maps
  | none =>
    cases found : allocLdt state.ldtAlloc with
    | none => exact refuse_effect
    | some idx =>
      apply takeOne_effect _ found
      simp only [ClientRegs.requested, asked]

theorem createAlias_effect (asked : regs.function = .createAlias) :
    Effect state regs (state.createAlias regs).1 (state.createAlias regs).2 := by
  unfold createAlias
  cases validLdtSelectorIdx state.ldtAlloc (word regs.rbx) with
  | none => exact refuse_effect
  | some source =>
    cases found : allocLdt state.ldtAlloc with
    | none => exact refuse_effect
    | some idx =>
      apply takeOne_effect _ found
      simp only [ClientRegs.requested, asked]

theorem edit_effect (asked : regs.Edits) (change : BitVec 64 → BitVec 64) :
    Effect state regs (state.edit regs change).1 (state.edit regs change).2 := by
  unfold edit
  cases valid : validLdtSelectorIdx state.ldtAlloc (word regs.rbx) with
  | none => exact refuse_effect
  | some idx => exact .edited idx _ asked (validLdtSelectorIdx_spec valid)

theorem getBase_effect (asked : regs.function = .getBase) :
    Effect state regs (state.getBase regs).1 (state.getBase regs).2 := by
  unfold getBase
  split
  · exact .same rfl rfl (Or.inl (by simp only [ClientRegs.requested, asked]))
  · exact refuse_effect

theorem getDescriptor_effect (asked : regs.function = .getDescriptor) :
    Effect state regs (state.getDescriptor client regs).1 (state.getDescriptor client regs).2 := by
  unfold getDescriptor
  split
  · exact .same rfl rfl (Or.inl (by simp only [ClientRegs.requested, asked]))
  · exact refuse_effect

theorem dpmiApiInner_effect :
    Effect state regs (state.dpmiApiInner client regs).1 (state.dpmiApiInner client regs).2 := by
  unfold dpmiApiInner
  cases asked : DescriptorFunction.ofAx (word regs.rax) with
  | allocate => exact allocate_effect asked
  | free => exact free_effect asked
  | segmentToDescriptor => exact segmentToDescriptor_effect asked
  | getBase => exact getBase_effect asked
  | createAlias => exact createAlias_effect asked
  | getDescriptor => exact getDescriptor_effect asked
  | setBase => exact edit_effect (Or.inl asked) _
  | setLimit => exact edit_effect (Or.inr (Or.inl asked)) _
  | setRights => exact edit_effect (Or.inr (Or.inr (Or.inl asked))) _
  | setDescriptor => exact edit_effect (Or.inr (Or.inr (Or.inr asked))) _
  | unsupported => exact .same rfl rfl (Or.inr rfl)
  | selectorIncrement =>
    have none_asked : regs.requested = none := by
      simp only [ClientRegs.requested, ClientRegs.function, asked]
    exact .same rfl rfl (Or.inl none_asked)

end DescriptorState

theorem dpmiApi_effect (state : DescriptorState) (regs : ClientRegs) :
    Effect state regs (dpmiApi state regs).1 (dpmiApi state regs).2 := by
  unfold dpmiApi
  split
  · exact DescriptorState.dpmiApiInner_effect
  · exact DescriptorState.refuse_effect

/-! ## What a run keeps -/

/-- The slots of the host. -/
def hostIdxs : List Nat :=
  [vectorStubLdtIdx, specialStubLdtIdx, lowMemLdtIdx, hostStackPm16LdtIdx, hostStackPm32LdtIdx]

/-- A call edits no slot of the host. -/
def ClientRegs.SparesHost (regs : ClientRegs) : Prop :=
  regs.Edits → ∀ idx ∈ hostIdxs, ¬ regs.Names idx

instance (regs : ClientRegs) : Decidable regs.SparesHost :=
  inferInstanceAs (Decidable (_ → ∀ idx ∈ hostIdxs, _))

/-- A slot that maps a segment already is handed out once more. -/
structure Reuses (before after : DescriptorState) (regs : ClientRegs)
    (idx : Nat) : Prop where
  asked : regs.function = .segmentToDescriptor
  inside : idx < ldtEntries
  allocated : before.ldtAlloc idx = true
  maps : descIsSegAlias (before.ldt idx) (BitVec.ofNat 32 (word regs.rbx) <<< 4) = true
  same : after = before

/-- How slots change hands. -/
structure SlotLaw (move : Move DescriptorState ClientRegs DescriptorAnswer) :
    Prop where
  host : ∀ idx ∈ hostIdxs, move.after.ldtAlloc idx = true
  allocated :
    ∀ count, move.input.requested = some count →
      move.answer.carry = false →
      ∃ first, word move.answer.regs.rax = idxToSel first ∧
        (Takes move.before move.after first count ∨ Reuses move.before move.after move.input first)
  freed :
    ∀ idx, move.before.ldtAlloc idx = true →
      move.after.ldtAlloc idx = false →
      move.input.function = .free ∧ move.input.Names idx

theorem hostIdxs_lt (host : idx ∈ hostIdxs) : idx < 16 := by
  revert idx
  decide

namespace Effect

variable {before after : DescriptorState} {regs : ClientRegs} {answer : DescriptorAnswer}

/-- Slots below 16 are neither taken nor freed. -/
theorem ldtAlloc_low (effect : Effect before regs answer after)
    (low : idx < 16) : after.ldtAlloc idx = before.ldtAlloc idx := by
  cases effect with
  | same ldt ldtAlloc quiet => rw [ldtAlloc]
  | reused => rfl
  | taken first count desc asked high inside free =>
    apply if_neg
    omega
  | freed slot asked named high => exact before.freeLdt_ldtAlloc_of_ne (by omega)
  | edited => rfl

/-- A slot below 16 keeps its descriptor unless it is edited. -/
theorem ldt_low (effect : Effect before regs answer after)
    (low : idx < 16) (spared : regs.Edits → ¬ regs.Names idx) :
    after.ldt idx = before.ldt idx := by
  cases effect with
  | same ldt ldtAlloc quiet => rw [ldt]
  | reused => rfl
  | taken first count desc asked high inside free =>
    apply if_neg
    omega
  | freed slot asked named high => exact before.freeLdt_ldt_of_ne (by omega)
  | edited slot desc asked named =>
    apply Function.update_of_ne
    rintro rfl
    exact spared asked named

theorem word_setAx {regs : ClientRegs} : word (regs.setAx (idxToSel idx)).rax = idxToSel idx := by
  apply word_setWord
  unfold idxToSel
  omega

theorem slots_allocated (effect : Effect before regs answer after)
    {count : Nat} (requested : regs.requested = some count)
    (succeeded : answer.carry = false) :
    ∃ first, word answer.regs.rax = idxToSel first ∧
      (Takes before after first count ∨ Reuses before after regs first) := by
  cases effect with
  | same ldt ldtAlloc quiet =>
    rcases quiet with unasked | failed
    · rw [unasked] at requested
      cases requested
    · rw [failed] at succeeded
      cases succeeded
  | reused idx asked allocated inside maps =>
    exact ⟨idx, word_setAx, Or.inr ⟨asked, inside, allocated, maps, rfl⟩⟩
  | taken first number desc asked high inside free =>
    rw [requested] at asked
    cases asked
    refine ⟨first, word_setAx, Or.inl ⟨inside, free, ?_⟩⟩
    intro idx lower upper
    exact if_pos ⟨lower, upper⟩
  | freed idx asked named high =>
    simp only [ClientRegs.requested, asked] at requested
    cases requested
  | edited idx desc asked named =>
    -- an edit asks for no slot
    rcases asked with asked | asked | asked | asked <;>
      (simp only [ClientRegs.requested, asked] at requested
       cases requested)

theorem slots_freed (effect : Effect before regs answer after)
    (was : before.ldtAlloc idx = true) (now : after.ldtAlloc idx = false) :
    regs.function = .free ∧ regs.Names idx := by
  cases effect with
  | same ldt ldtAlloc quiet =>
    rw [ldtAlloc, was] at now
    cases now
  | reused =>
    rw [was] at now
    cases now
  | taken first count desc asked high inside free =>
    simp only [DescriptorState.install, was, ite_self] at now
    cases now
  | edited =>
    simp only [DescriptorState.setDesc, was] at now
    cases now
  | freed slot asked named high =>
    rcases eq_or_ne idx slot with rfl | other
    · exact ⟨asked, named⟩
    · rw [before.freeLdt_ldtAlloc_of_ne other, was] at now
      cases now

end Effect

section Host

variable (hostBase hostSize : BitVec 32)

/-- The slots of the host hold the descriptors it has put there. -/
def HostKept (state : DescriptorState) : Prop :=
  ∀ slot ∈ hostSlots hostBase hostSize, state.ldt slot.1 = slot.2

/-- The slots of the host are allocated. -/
def HostAllocated (state : DescriptorState) : Prop := ∀ idx ∈ hostIdxs, state.ldtAlloc idx = true

theorem hostSlots_idx {slot : Nat × BitVec 64}
    (host : slot ∈ hostSlots hostBase hostSize) : slot.1 ∈ hostIdxs := by
  have listed : (hostSlots hostBase hostSize).map Prod.fst = hostIdxs := rfl
  rw [← listed]
  exact List.mem_map_of_mem host

theorem hostKept_install (state : DescriptorState) :
    HostKept hostBase hostSize (state.installKernelLdtSlots hostBase hostSize) := by
  simp [HostKept, hostSlots, DescriptorState.installKernelLdtSlots,
    DescriptorState.install, vectorStubLdtIdx, specialStubLdtIdx,
    lowMemLdtIdx, hostStackPm16LdtIdx, hostStackPm32LdtIdx]

theorem hostAllocated_install (state : DescriptorState) :
    HostAllocated (state.installKernelLdtSlots hostBase hostSize) := by
  simp [HostAllocated, hostIdxs, hostSlots,
    DescriptorState.installKernelLdtSlots, DescriptorState.install,
    vectorStubLdtIdx, specialStubLdtIdx, lowMemLdtIdx, hostStackPm16LdtIdx,
    hostStackPm32LdtIdx, pspLdtIdx, Function.update_apply]

variable {hostBase hostSize} {state : DescriptorState} {regs : ClientRegs}

theorem HostAllocated.step (allocated : HostAllocated state)
    (regs : ClientRegs) : HostAllocated (dpmiApi state regs).2 := by
  intro idx host
  rw [(dpmiApi_effect state regs).ldtAlloc_low (hostIdxs_lt host)]
  exact allocated idx host

theorem HostKept.step (kept : HostKept hostBase hostSize state) (spares : regs.SparesHost) :
    HostKept hostBase hostSize (dpmiApi state regs).2 := by
  intro slot host
  have idx := hostSlots_idx hostBase hostSize host
  rw [(dpmiApi_effect state regs).ldt_low (hostIdxs_lt idx) fun edits => spares edits slot.1 idx]
  exact kept slot host

theorem slotLaw_move (allocated : HostAllocated state) (regs : ClientRegs) :
    SlotLaw (dpmiApi.move state regs) where
  host := allocated.step regs
  allocated _ requested succeeded := (dpmiApi_effect state regs).slots_allocated requested succeeded
  freed _ was now := (dpmiApi_effect state regs).slots_freed was now

variable (hostBase hostSize)

/--
Slots change hands as they should in every run, and the host keeps its
descriptors in every run whose calls spare them.
-/
theorem host_slots_kept (start : DescriptorState) (calls : List ClientRegs) :
    (∀ move ∈ dpmiApi.run (start.installKernelLdtSlots hostBase hostSize) calls, SlotLaw move) ∧
      (dpmiApi.Meets (fun _ regs => regs.SparesHost)
          (start.installKernelLdtSlots hostBase hostSize) calls →
        ∀ move ∈ dpmiApi.run (start.installKernelLdtSlots hostBase hostSize) calls,
          HostKept hostBase hostSize move.after) := by
  constructor
  · have step :
        ∀ (state : DescriptorState) (regs : ClientRegs),
          HostAllocated state → HostAllocated (dpmiApi state regs).2 :=
      fun _ regs allocated => allocated.step regs
    exact Machine.forall_run_always step (fun _ regs allocated => slotLaw_move allocated regs)
      (hostAllocated_install hostBase hostSize start) calls
  · intro spares
    have step :
        ∀ (state : DescriptorState) (regs : ClientRegs),
          HostKept hostBase hostSize state → regs.SparesHost →
            HostKept hostBase hostSize (dpmiApi state regs).2 :=
      fun _ _ kept spared => kept.step spared
    exact Machine.forall_run step (fun _ _ kept spared => kept.step spared)
      (hostKept_install hostBase hostSize start) spares

end Host

section Runs

/-- A 32-bit client before the table is filled. -/
def blankTable : DescriptorState where
  ldt _ := 0
  ldtAlloc _ := false
  dpmi := some { clientUse32 := true, envLdtIdx := 0 }
  memory _ := 0

/-- A call with its function and its arguments in BX, CX and DX. -/
def descriptorCall (ax bx cx dx : Nat) : ClientRegs :=
  { rax := ax, rbx := bx, rcx := cx, rdx := dx }

def vectorStubSel : Nat := 0x27

theorem hostKept_vectorStub {state : DescriptorState} (kept : HostKept 0x1000 0x1000 state) :
    state.ldt vectorStubLdtIdx = makeCodeDescEx 0 0x0FFF false :=
  kept (vectorStubLdtIdx, _) List.mem_cons_self

/-- Each of the four editing calls changes the segment of the stubs. -/
theorem vector_stub_taken_over :
    (¬ ∀ move ∈ dpmiApi.run (blankTable.installKernelLdtSlots 0x1000 0x1000)
          [descriptorCall 0x0007 vectorStubSel 0x10 0],
        HostKept 0x1000 0x1000 move.after) ∧
      (¬ ∀ move ∈ dpmiApi.run (blankTable.installKernelLdtSlots 0x1000 0x1000)
          [descriptorCall 0x0008 vectorStubSel 0 0],
        HostKept 0x1000 0x1000 move.after) ∧
      (¬ ∀ move ∈ dpmiApi.run (blankTable.installKernelLdtSlots 0x1000 0x1000)
          [descriptorCall 0x0009 vectorStubSel 0 0],
        HostKept 0x1000 0x1000 move.after) ∧
      ¬ ∀ move ∈ dpmiApi.run (blankTable.installKernelLdtSlots 0x1000 0x1000)
          [descriptorCall 0x000C vectorStubSel 0 0],
        HostKept 0x1000 0x1000 move.after := by
  refine ⟨fun kept => ?_, fun kept => ?_, fun kept => ?_, fun kept => ?_⟩
  all_goals exact absurd (hostKept_vectorStub (kept _ List.mem_cons_self)) (by decide +kernel)

/-- Three slots above that of the PSP; the first edited, aliased and freed. -/
def clientCalls : List ClientRegs :=
  [descriptorCall 0x0000 0 3 0, descriptorCall 0x0007 0x9F 0x10 0,
    descriptorCall 0x000A 0x9F 0 0, descriptorCall 0x0001 0x9F 0 0]

theorem client_spares_host :
    ((dpmiApi.run (blankTable.installKernelLdtSlots 0x1000 0x1000) clientCalls).map fun move =>
        (move.answer.carry, word move.answer.regs.rax)) =
        [(false, 0x9F), (false, 7), (false, 0x87), (false, 1)] ∧
      ∀ move ∈ dpmiApi.run (blankTable.installKernelLdtSlots 0x1000 0x1000) clientCalls,
        HostKept 0x1000 0x1000 move.after :=
  ⟨by decide +kernel, (host_slots_kept 0x1000 0x1000 blankTable clientCalls).2 (by decide +kernel)⟩

end Runs

end RetroOS.Dos
