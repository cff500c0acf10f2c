import RetroOS.Vfs.Paths

/-!
# Resolving symbolic links

A link is read through a buffer of 164 bytes.  `Expands` says what resolving
a path is: components are taken one after the other, and each link that is
followed gives way to the components of the target as far as the buffer
holds it.  The resolver computes that, within its budget of links.
-/

namespace RetroOS.Vfs

open Lib Lib.Bytes

/-- Room for the target of a link. -/
def dirPathMax : Nat := 164

abbrev dotDot : Bytes := [0x2e, 0x2e]

inductive TreeNode where
  | plain
  | link (target : Bytes)

/-- What the directories of a file system hold, by directory and name. -/
abbrev LinkTree : Type := Bytes → Bytes → Option TreeNode

namespace LinkTree

def names (tree : LinkTree) : Names where
  cachedChild parent name :=
    (tree parent name).map fun
      | .plain => { name, isSymlink := false, target := none }
      | .link target => { name, isSymlink := true, target := some (target.take dirPathMax) }
  openFile _ := none

/-- The resolver with a budget of links. -/
def resolveWithin (tree : LinkTree) (links : Nat) (path : Bytes) (followFinal : Bool) :
    Option Bytes :=
  if 0 ∈ path then none
  else (tree.names.follow followFinal links (components path) []).map joinPathComponents

/-- Resolving components behind those resolved, with the number of links followed. -/
inductive Expands (tree : LinkTree) (followFinal : Bool) :
    (pending resolved : List Bytes) → (links : Nat) → (result : List Bytes) → Prop
  | done (resolved) : Expands tree followFinal [] resolved 0 resolved
  | up {pending resolved links result}
    (rest : Expands tree followFinal pending resolved.dropLast links result) :
    Expands tree followFinal (dotDot :: pending) resolved links result
  | plain {component pending resolved links result} (down : component ≠ dotDot)
    (node : tree (joinPathComponents resolved) component = some .plain)
    (rest : Expands tree followFinal pending (resolved ++ [component]) links result) :
    Expands tree followFinal (component :: pending) resolved links result
  | last {component resolved target} (down : component ≠ dotDot)
    (node : tree (joinPathComponents resolved) component = some (.link target))
    (kept : followFinal = false) :
    Expands tree followFinal [component] resolved 0 (resolved ++ [component])
  | link {component pending resolved target links result} (down : component ≠ dotDot)
    (node : tree (joinPathComponents resolved) component = some (.link target))
    (followed : followFinal = true ∨ pending ≠ [])
    (valid : target.take dirPathMax ≠ [] ∧ 0 ∉ target.take dirPathMax)
    (rest :
      Expands tree followFinal (components (target.take dirPathMax) ++ pending)
        (if target.head? = some slash then [] else resolved) links result) :
    Expands tree followFinal (component :: pending) resolved (links + 1) result

/-- Components that lead to where they say. -/
inductive Standing (tree : LinkTree) : List Bytes → Prop
  | nil : Standing tree []
  | snoc {resolved component} (before : Standing tree resolved) (down : component ≠ dotDot)
    (node : tree (joinPathComponents resolved) component = some .plain) :
    Standing tree (resolved ++ [component])

section Follow

variable {tree : LinkTree} {followFinal : Bool} {pending resolved : List Bytes} {component : Bytes}

theorem follow_nil (links : Nat) :
    tree.names.follow followFinal links [] resolved = some resolved := by
  cases links <;> rfl

theorem follow_up (links : Nat) :
    tree.names.follow followFinal links (dotDot :: pending) resolved =
      tree.names.follow followFinal links pending resolved.dropLast := by
  cases links <;> rfl

theorem head?_take (target : Bytes) : (target.take dirPathMax).head? = target.head? := by
  cases target <;> rfl

/-- One component. -/
theorem follow_cons (down : component ≠ dotDot) (links : Nat) :
    tree.names.follow followFinal links (component :: pending) resolved =
      match tree (joinPathComponents resolved) component with
      | none => none
      | some .plain => tree.names.follow followFinal links pending (resolved ++ [component])
      | some (.link target) =>
        if followFinal = false ∧ pending = [] then some (resolved ++ [component])
        else if target.take dirPathMax = [] ∨ 0 ∈ target.take dirPathMax then none
        else
          match links with
          | 0 => none
          | links + 1 =>
            tree.names.follow followFinal links (components (target.take dirPathMax) ++ pending)
              (if target.head? = some slash then [] else resolved) := by
  cases links <;> simp only [Names.follow, Names.walk, if_neg down] <;>
    rcases node : tree (joinPathComponents resolved) component with _ | _ | target
  case zero.some.link | succ.some.link =>
    cases followFinal <;> by_cases ended : pending = [] <;>
      simp [names, node, ended, head?_take, Names.walk]
  all_goals simp [names, node]

/-- The resolver computes the expansions within its budget. -/
theorem follow_iff {links : Nat} {result : List Bytes} :
    tree.names.follow followFinal links pending resolved = some result ↔
      ∃ used ≤ links, Expands tree followFinal pending resolved used result := by
  constructor
  · intro found
    induction links using Nat.strong_induction_on generalizing pending resolved with
    | _ links fewer =>
      induction pending generalizing resolved with
      | nil =>
        cases (follow_nil links).symm.trans found
        exact ⟨0, Nat.zero_le _, .done _⟩
      | cons component pending induction =>
        by_cases down : component = dotDot
        · subst down
          obtain ⟨used, within, rest⟩ := induction ((follow_up links).symm.trans found)
          exact ⟨used, within, .up rest⟩
        · rw [follow_cons down] at found
          rcases node : tree (joinPathComponents resolved) component with _ | _ | target <;>
            simp only [node] at found
          · cases found
          · obtain ⟨used, within, rest⟩ := induction found
            exact ⟨used, within, .plain down node rest⟩
          · by_cases stops : followFinal = false ∧ pending = []
            · rw [if_pos stops] at found
              cases found
              obtain ⟨kept, rfl⟩ := stops
              exact ⟨0, Nat.zero_le _, .last down node kept⟩
            · by_cases invalid : target.take dirPathMax = [] ∨ 0 ∈ target.take dirPathMax
              · rw [if_neg stops, if_pos invalid] at found
                cases found
              · rw [if_neg stops, if_neg invalid] at found
                cases links with
                | zero => cases found
                | succ links =>
                  obtain ⟨used, within, rest⟩ := fewer links (Nat.lt_succ_self links) found
                  have followed : followFinal = true ∨ pending ≠ [] := by
                    cases followFinal <;> simp_all
                  exact ⟨used + 1, by omega, .link down node followed (not_or.mp invalid) rest⟩
  · rintro ⟨used, within, expands⟩
    induction expands generalizing links with
    | done resolved => exact follow_nil links
    | up rest induction => exact (follow_up links).trans (induction within)
    | plain down node rest induction =>
      rw [follow_cons down, node]
      exact induction within
    | last down node kept => simp only [follow_cons down, node, kept, and_self, if_true]
    | link down node followed valid rest induction =>
      obtain ⟨links, rfl⟩ : ∃ left, links = left + 1 := ⟨links - 1, by omega⟩
      have goes : ¬ (followFinal = false ∧ _ = []) := fun stops => by
        rcases followed with final | more
        · rw [stops.1] at final
          cases final
        · exact more stops.2
      simp only [follow_cons down, node, if_neg goes, if_neg (not_or.mpr valid)]
      exact induction (by omega)

/-! ## Resolved components -/

theorem Standing.dropLast (standing : Standing tree resolved) :
    Standing tree resolved.dropLast := by
  cases standing with
  | nil => exact .nil
  | snoc before down node =>
    rw [List.dropLast_concat]
    exact before

theorem Standing.follow (standing : Standing tree resolved) (links : Nat) (rest : List Bytes) :
    tree.names.follow followFinal links (resolved ++ rest) [] =
      tree.names.follow followFinal links rest resolved := by
  induction standing generalizing rest with
  | nil => rfl
  | snoc before down node induction =>
    rw [List.append_assoc, induction, List.singleton_append, follow_cons down, node]

/-- Further components find the same from an expansion as from its result. -/
theorem Expands.follow {used : Nat} {result : List Bytes}
    (expands : Expands tree followFinal pending resolved used result)
    (standing : Standing tree resolved) {links : Nat} (within : used ≤ links)
    (rest : List Bytes) :
    tree.names.follow followFinal links (pending ++ rest) resolved =
      tree.names.follow followFinal (links - used) (result ++ rest) [] := by
  induction expands generalizing links with
  | done resolved => exact (standing.follow links rest).symm
  | up _ induction => exact (follow_up links).trans (induction standing.dropLast within)
  | plain down node _ induction =>
    rw [List.cons_append, follow_cons down, node]
    exact induction (.snoc standing down node) within
  | last down node kept =>
    rw [List.append_assoc]
    exact (standing.follow links _).symm
  | @link _ pending _ target _ _ down node followed valid _ induction =>
    obtain ⟨links, rfl⟩ : ∃ left, links = left + 1 := ⟨links - 1, by omega⟩
    have goes : ¬ (followFinal = false ∧ pending ++ rest = []) := by
      rintro ⟨kept, ended⟩
      rcases followed with final | more
      · cases kept.symm.trans final
      · exact more (List.append_eq_nil_iff.mp ended).1
    simp only [List.cons_append, follow_cons down, node, if_neg goes, if_neg (not_or.mpr valid)]
    rw [← List.append_assoc, Nat.add_sub_add_right]
    refine induction ?_ (by omega)
    split_ifs
    · exact .nil
    · exact standing

/-- The result of an expansion is resolved. -/
theorem Expands.result {used : Nat} {result : List Bytes}
    (expands : Expands tree followFinal pending [] used result) :
    Expands tree followFinal result [] 0 result := by
  have again := expands.follow .nil le_rfl []
  rw [List.append_nil, List.append_nil, Nat.sub_self,
    follow_iff.mpr ⟨used, le_rfl, expands⟩] at again
  obtain ⟨none, within, resolved⟩ := follow_iff.mp again.symm
  rwa [Nat.le_zero.mp within] at resolved

end Follow

/-! ## Paths -/

/-- A component of a path. -/
def Legal (component : Bytes) : Prop :=
  component ≠ [] ∧ component ≠ [0x2e] ∧ slash ∉ component ∧ 0 ∉ component

theorem components_append (first second : Bytes) :
    components (first ++ slash :: second) = components first ++ components second := by
  rw [components, List.splitOn_append_cons_self, List.filter_append]
  rfl

theorem mem_splitOn {path component : Bytes} (member : component ∈ path.splitOn slash) :
    slash ∉ component ∧ ∀ byte ∈ component, byte ∈ path := by
  induction path generalizing component with
  | nil =>
    rw [List.splitOn_nil, List.mem_singleton] at member
    simp [member]
  | cons first rest induction =>
    rw [List.splitOn, List.splitOnP_cons_eq_if_modifyHead] at member
    split_ifs at member with cut
    · rcases List.mem_cons.mp member with rfl | later
      · simp
      · obtain ⟨plain, inside⟩ := induction later
        exact ⟨plain, fun byte known => List.mem_cons_of_mem _ (inside byte known)⟩
    · rcases parts : List.splitOnP (· == slash) rest with _ | ⟨head, tail⟩ <;> rw [parts] at member
      · simp at member
      · have each {part : Bytes} (known : part ∈ head :: tail) := induction (parts ▸ known)
        rcases List.mem_cons.mp member with rfl | later
        · obtain ⟨plain, inside⟩ := each List.mem_cons_self
          have apart : slash ≠ first := fun same => cut (by simp [same])
          exact ⟨by simp [apart, plain], List.forall_mem_cons.mpr ⟨List.mem_cons_self,
            fun byte known => List.mem_cons_of_mem _ (inside byte known)⟩⟩
        · obtain ⟨plain, inside⟩ := each (List.mem_cons_of_mem _ later)
          exact ⟨plain, fun byte known => List.mem_cons_of_mem _ (inside byte known)⟩

theorem legal_components {path : Bytes} (clean : 0 ∉ path) :
    ∀ component ∈ components path, Legal component := by
  intro component member
  obtain ⟨split, kept⟩ := List.mem_filter.mp member
  obtain ⟨plain, inside⟩ := mem_splitOn split
  obtain ⟨some, other⟩ := of_decide_eq_true kept
  exact ⟨some, other, plain, fun zero => clean (inside 0 zero)⟩

theorem components_joinPathComponents {resolved : List Bytes}
    (legal : ∀ component ∈ resolved, Legal component) :
    components (joinPathComponents resolved) = resolved := by
  have single {component : Bytes} (legal : Legal component) : components component = [component] := by
    rw [components, List.splitOn_eq_singleton legal.2.2.1]
    simp [legal.1, legal.2.1]
  induction resolved with
  | nil => rfl
  | cons component rest induction =>
    have rest_legal := fun other member => legal other (List.mem_cons_of_mem _ member)
    cases rest with
    | nil => exact single (legal component List.mem_cons_self)
    | cons next rest =>
      rw [joinPathComponents, components_append, single (legal component List.mem_cons_self),
        induction rest_legal]
      · rfl
      · simp

theorem zero_notMem_joinPathComponents {resolved : List Bytes}
    (legal : ∀ component ∈ resolved, Legal component) : 0 ∉ joinPathComponents resolved := by
  fun_induction joinPathComponents resolved with
  | case1 => simp
  | case2 component => exact (legal component List.mem_cons_self).2.2.2
  | case3 component rest _ induction =>
    have later := induction fun other member => legal other (List.mem_cons_of_mem _ member)
    have first := (legal component List.mem_cons_self).2.2.2
    simp [first, later, slash]

theorem Expands.legal {tree : LinkTree} {followFinal : Bool} {pending resolved result : List Bytes}
    {used : Nat} (expands : Expands tree followFinal pending resolved used result)
    (ahead : ∀ component ∈ pending, Legal component)
    (behind : ∀ component ∈ resolved, Legal component) :
    ∀ component ∈ result, Legal component := by
  induction expands with
  | done resolved => exact behind
  | up _ induction =>
    exact induction (fun component member => ahead component (List.mem_cons_of_mem _ member))
      fun component member => behind component (List.mem_of_mem_dropLast member)
  | plain _ _ _ induction =>
    refine induction (fun component member => ahead component (List.mem_cons_of_mem _ member)) ?_
    exact List.forall_mem_append.mpr ⟨behind, by simpa using ahead _ List.mem_cons_self⟩
  | last _ _ _ => exact List.forall_mem_append.mpr ⟨behind, ahead⟩
  | link _ _ _ valid _ induction =>
    refine induction (List.forall_mem_append.mpr ⟨legal_components valid.2, fun component member =>
      ahead component (List.mem_cons_of_mem _ member)⟩) ?_
    split_ifs
    · nofun
    · exact behind

theorem resolveWithin_mono {tree : LinkTree} {path answer : Bytes} {followFinal : Bool}
    {few many : Nat} (more : few ≤ many)
    (found : tree.resolveWithin few path followFinal = some answer) :
    tree.resolveWithin many path followFinal = some answer := by
  unfold resolveWithin at found ⊢
  split_ifs at found ⊢ with dirty
  obtain ⟨result, followed, joined⟩ := Option.map_eq_some_iff.mp found
  obtain ⟨used, within, expands⟩ := follow_iff.mp followed
  rw [follow_iff.mpr ⟨used, within.trans more, expands⟩, Option.map_some, joined]

end LinkTree

end RetroOS.Vfs
