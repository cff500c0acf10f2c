import Mathlib.Data.List.MinMax
import RetroOS.Lib.Insertion

/-!
# Ordered association lists

A map with keys in a linear order, kept as a list of entries in the order of
their keys.  `Keyed` says that no key occurs twice; the operations keep it,
and `mem_insert`, `mem_remove` and `mem_modify` describe the entries they
leave.
-/

namespace RetroOS.Lib

/-- A map as a list of entries. -/
abbrev Assoc (κ β : Type) : Type := List (κ × β)

namespace Assoc

variable {κ β : Type} [LinearOrder κ]

def find (key : κ) (entries : Assoc κ β) : Option β :=
  (List.find? (fun entry => entry.1 = key) entries).map Prod.snd

def contains (key : κ) (entries : Assoc κ β) : Bool := (entries.find key).isSome

/-- Change the value at a key, if there is one. -/
def modify (key : κ) (change : β → β) (entries : Assoc κ β) : Assoc κ β :=
  List.map (fun entry =>
      if entry.1 = key then (entry.1, change entry.2) else entry)
    entries

def remove (key : κ) (entries : Assoc κ β) : Assoc κ β :=
  List.filter (fun entry => entry.1 ≠ key) entries

/-- Add an entry at its place, instead of an entry with the same key. -/
def insert (key : κ) (value : β) (entries : Assoc κ β) : Assoc κ β :=
  let rest := entries.remove key
  rest.takeWhile (fun entry => entry.1 < key) ++
    (key, value) :: rest.dropWhile (fun entry => entry.1 < key)

def keys (entries : Assoc κ β) : List κ := List.map Prod.fst entries

/-- No key occurs twice. -/
def Keyed (entries : Assoc κ β) : Prop := entries.keys.Nodup

section Find

variable {entries : Assoc κ β} {key : κ} {value : β}

omit [LinearOrder κ] in
theorem mem_keys (member : (key, value) ∈ entries) : key ∈ entries.keys :=
  List.mem_map_of_mem member

theorem mem_of_find (found : entries.find key = some value) : (key, value) ∈ entries := by
  obtain ⟨entry, known, rfl⟩ := Option.map_eq_some_iff.mp found
  have same : entry.1 = key := by simpa using List.find?_some known
  rw [← same]
  exact List.mem_of_find?_eq_some known

theorem find_of_mem (keyed : entries.Keyed)
    (member : (key, value) ∈ entries) : entries.find key = some value := by
  induction entries with
  | nil => cases member
  | cons entry rest induction =>
    obtain ⟨fresh, keyed⟩ := List.nodup_cons.mp keyed
    rcases List.mem_cons.mp member with same | later
    · simp [find, ← same]
    · have other : entry.1 ≠ key := by
        rintro rfl
        exact fresh (mem_keys later)
      simpa [find, other] using induction keyed later

theorem contains_eq_false (keyed : entries.Keyed) (absent : entries.contains key = false) :
    ∀ value, (key, value) ∉ entries := by
  intro value member
  simp [contains, find_of_mem keyed member] at absent

end Find

section Edits

variable {entries : Assoc κ β} {key : κ}

@[simp]
theorem keys_modify (change : β → β) : (entries.modify key change).keys = entries.keys := by
  simp only [keys, modify, List.map_map]
  refine List.map_congr_left fun entry _ => ?_
  simp only [Function.comp_apply]
  split <;> rfl

theorem Keyed.modify (keyed : entries.Keyed) (change : β → β) :
    (entries.modify key change).Keyed := by
  rw [Keyed, keys_modify]
  exact keyed

@[simp]
theorem length_modify (change : β → β) : (entries.modify key change).length = entries.length :=
  List.length_map _

theorem mem_modify {change : β → β} {other : κ} {value : β} :
    (other, value) ∈ entries.modify key change ↔
      (other ≠ key ∧ (other, value) ∈ entries) ∨
        (other = key ∧ ∃ before, (key, before) ∈ entries ∧ value = change before) := by
  simp only [Assoc.modify, List.mem_map, Prod.exists]
  constructor
  · rintro ⟨found, before, member, same⟩
    split at same
    · rename_i here
      cases same
      exact .inr ⟨here, before, here ▸ member, rfl⟩
    · rename_i elsewhere
      cases same
      exact .inl ⟨elsewhere, member⟩
  · rintro (⟨elsewhere, member⟩ | ⟨rfl, before, member, rfl⟩)
    · exact ⟨other, value, member, by rw [if_neg elsewhere]⟩
    · exact ⟨other, before, member, by rw [if_pos rfl]⟩

theorem mem_remove {other : κ} {value : β} :
    (other, value) ∈ entries.remove key ↔ other ≠ key ∧ (other, value) ∈ entries := by
  simp [remove, and_comm]

theorem Keyed.remove (keyed : entries.Keyed) (key : κ) : (entries.remove key).Keyed :=
  keyed.sublist (List.filter_sublist.map Prod.fst)

theorem length_remove_lt {value : β} (member : (key, value) ∈ entries) :
    (entries.remove key).length < entries.length :=
  List.length_filter_lt_length_iff_exists.mpr ⟨(key, value), member, by simp⟩

theorem remove_of_absent (absent : ∀ value, (key, value) ∉ entries) :
    entries.remove key = entries := by
  refine List.filter_eq_self.mpr fun entry member => ?_
  simp only [ne_eq, decide_not, Bool.not_eq_true', decide_eq_false_iff_not]
  rintro rfl
  exact absent _ member

theorem insert_perm (value : β) :
    List.Perm (entries.insert key value) ((key, value) :: entries.remove key) :=
  insertion_perm

theorem mem_insert {other : κ} {value found : β} :
    (other, found) ∈ entries.insert key value ↔
      (other = key ∧ found = value) ∨ (other ≠ key ∧ (other, found) ∈ entries) := by
  rw [(insert_perm value).mem_iff, List.mem_cons, mem_remove, Prod.mk.injEq]

theorem Keyed.insert (keyed : entries.Keyed) (key : κ) (value : β) :
    (entries.insert key value).Keyed := by
  refine ((insert_perm value).map Prod.fst).nodup_iff.mpr ?_
  refine List.nodup_cons.mpr ⟨?_, keyed.remove key⟩
  intro member
  obtain ⟨entry, kept, same⟩ := List.mem_map.mp member
  exact (mem_remove.mp kept).1 same

theorem length_insert (absent : ∀ value, (key, value) ∉ entries)
    (value : β) : (entries.insert key value).length = entries.length + 1 := by
  rw [(insert_perm value).length_eq, remove_of_absent absent]
  rfl

/-- A change of one entry moves a count by at most that entry. -/
theorem countP_modify (test : κ × β → Bool) (change : β → β) {before : β}
    (keyed : entries.Keyed) (member : (key, before) ∈ entries) :
    (entries.modify key change).countP test + (if test (key, before) then 1 else 0) =
      entries.countP test + (if test (key, change before) then 1 else 0) := by
  induction entries with
  | nil => cases member
  | cons entry rest induction =>
    obtain ⟨fresh, keyed⟩ := List.nodup_cons.mp keyed
    rcases List.mem_cons.mp member with same | later
    · subst same
      have untouched : rest.map (fun entry =>
          if entry.1 = key then (entry.1, change entry.2) else entry) = rest := by
        refine (List.map_congr_left fun other inside => ?_).trans (List.map_id rest)
        rw [if_neg]
        · rfl
        · rintro rfl
          exact fresh (mem_keys inside)
      simp only [modify, List.map_cons, if_true, untouched, List.countP_cons]
      omega
    · have other : entry.1 ≠ key := by
        rintro rfl
        exact fresh (mem_keys later)
      have next := induction keyed later
      simp only [modify, List.map_cons, if_neg other, List.countP_cons]
      simp only [modify] at next
      omega

end Edits

section Relocation

variable {entries : Assoc κ β} {src dst : κ} {value : β}

theorem mem_keys_relocated {key : κ} :
    key ∈ ((entries.remove src).insert dst value).keys ↔
      key = dst ∨ key ≠ src ∧ key ∈ entries.keys := by
  simp only [keys, List.mem_map, Prod.exists, exists_and_right, exists_eq_right, mem_insert,
    mem_remove]
  grind

theorem perm_cons_remove (keyed : entries.Keyed) (member : (src, value) ∈ entries) :
    List.Perm entries ((src, value) :: entries.remove src) := by
  have away : (src, value) ∉ entries.remove src := fun inside => (mem_remove.mp inside).1 rfl
  have once := List.Nodup.of_map Prod.fst keyed
  refine (List.perm_ext_iff_of_nodup once
    (List.nodup_cons.mpr ⟨away, once.filter _⟩)).mpr fun ⟨key, found⟩ => ?_
  rw [List.mem_cons, mem_remove]
  constructor
  · intro inside
    by_cases here : key = src
    · subst here
      have same := (find_of_mem keyed inside).symm.trans (find_of_mem keyed member)
      exact .inl (by rw [Option.some.inj same])
    · exact .inr ⟨here, inside⟩
  · rintro (same | ⟨-, inside⟩)
    · exact same ▸ member
    · exact inside

/-- An entry that moves to a free key changes nothing else. -/
theorem relocated_perm (keyed : entries.Keyed) (member : (src, value) ∈ entries)
    (free : dst ∈ entries.keys → dst = src) :
    List.Perm ((entries.remove src).insert dst value)
      (List.map (fun entry => (if entry.1 = src then dst else entry.1, entry.2)) entries) := by
  have absent : ∀ value, (dst, value) ∉ entries.remove src := fun _ inside =>
    (mem_remove.mp inside).1 (free (mem_keys (mem_remove.mp inside).2))
  have others : (entries.remove src).map
      (fun entry => (if entry.1 = src then dst else entry.1, entry.2)) = entries.remove src := by
    refine (List.map_congr_left fun entry inside => ?_).trans (List.map_id _)
    simp [(mem_remove.mp inside).1]
  refine (insert_perm value).trans (.trans ?_ ((perm_cons_remove keyed member).map _).symm)
  rw [remove_of_absent absent, List.map_cons, others, if_pos rfl]

theorem length_relocated_le (dst : κ) (member : (src, value) ∈ entries) :
    ((entries.remove src).insert dst value).length ≤ entries.length ∧
      (dst ∈ entries.keys → dst ≠ src →
        ((entries.remove src).insert dst value).length < entries.length) := by
  have fewer := length_remove_lt member
  rw [(insert_perm value).length_eq, List.length_cons]
  refine ⟨?_, fun taken other => ?_⟩
  · exact (Nat.succ_le_succ (List.length_filter_le _ _)).trans fewer
  · obtain ⟨⟨_, found⟩, inside, rfl⟩ := List.mem_map.mp taken
    have := length_remove_lt (mem_remove.mpr ⟨other, inside⟩)
    omega

variable {srcs : List κ} {target : κ → κ} {relocate : Assoc κ β → κ → Assoc κ β}

/-- The entries under their new keys. -/
def rekey (entries : Assoc κ β) (target : κ → κ) (srcs : List κ) : Assoc κ β :=
  List.map (fun entry => (if entry.1 ∈ srcs then target entry.1 else entry.1, entry.2)) entries

/-- One after another, entries get their new keys if no key is taken when it is needed. -/
theorem relocateAll (relocates :
      ∀ entries src value, entries.find src = some value →
        relocate entries src = (entries.remove src).insert (target src) value)
    (keyed : entries.Keyed) (distinct : srcs.Nodup) (inside : ∀ src ∈ srcs, src ∈ entries.keys)
    (injective : ∀ first ∈ srcs, ∀ second ∈ srcs, target first = target second → first = second) :
    (srcs.foldl relocate entries).length ≤ entries.length ∧
      ((srcs.foldl relocate entries).Perm (entries.rekey target srcs) ↔
        (∀ src ∈ srcs, target src ∈ entries.keys → target src ∈ srcs) ∧
          srcs.Pairwise fun src later => target src ≠ later) := by
  induction srcs generalizing entries with
  | nil => simp [rekey]
  | cons src rest induction =>
    obtain ⟨fresh, distinct⟩ := List.nodup_cons.mp distinct
    obtain ⟨value, member⟩ : ∃ value, (src, value) ∈ entries := by
      simpa [keys] using inside src List.mem_cons_self
    obtain ⟨shorter, lost⟩ := length_relocated_le (target src) member
    rw [List.foldl_cons, relocates entries src value (find_of_mem keyed member)]
    obtain ⟨within, next⟩ := induction ((keyed.remove src).insert (target src) value) distinct
      (fun other later => mem_keys_relocated.mpr (.inr
        ⟨fun same => fresh (same ▸ later), inside other (List.mem_cons_of_mem _ later)⟩))
      (fun first one second two =>
        injective first (List.mem_cons_of_mem _ one) second (List.mem_cons_of_mem _ two))
    refine ⟨within.trans shorter, ?_⟩
    by_cases free : target src ∈ entries.keys → target src = src
    · have elsewhere : target src ∉ rest := fun later =>
        fresh (free (inside _ (List.mem_cons_of_mem _ later)) ▸ later)
      have rekeyed : (Assoc.rekey ((entries.remove src).insert (target src) value) target rest).Perm
          (entries.rekey target (src :: rest)) := by
        refine ((relocated_perm keyed member free).map _).trans (.of_eq ?_)
        rw [rekey, List.map_map]
        refine List.map_congr_left fun entry _ => ?_
        by_cases here : entry.1 = src <;> simp [here, elsewhere, fresh]
      rw [← rekeyed.congr_right, next, List.pairwise_cons]
      simp only [mem_keys_relocated, List.mem_cons]
      grind
    · push Not at free
      refine iff_of_false (fun same => ?_) fun ⟨covered, apart⟩ => ?_
      · have := same.length_eq
        rw [rekey, List.length_map] at this
        have := lost free.1 free.2
        omega
      · rcases List.mem_cons.mp (covered src List.mem_cons_self free.1) with same | later
        · exact free.2 same
        · exact (List.pairwise_cons.mp apart).1 _ later rfl

end Relocation

section Values

variable {γ : Type} (change : β → γ)

/-- Change all values. -/
def mapValues (entries : Assoc κ β) : Assoc κ γ :=
  List.map (fun entry => (entry.1, change entry.2)) entries

variable {entries : Assoc κ β}

omit [LinearOrder κ] in
@[simp]
theorem keys_mapValues : (entries.mapValues change).keys = entries.keys := by
  simp only [keys, mapValues, List.map_map]
  rfl

theorem find_mapValues (key : κ) :
    (entries.mapValues change).find key = (entries.find key).map change := by
  induction entries with
  | nil => rfl
  | cons entry rest induction =>
    by_cases here : entry.1 = key
    · simp [find, mapValues, here]
    · simpa [find, mapValues, here] using induction

theorem remove_mapValues (key : κ) :
    (entries.mapValues change).remove key = (entries.remove key).mapValues change := by
  simp only [remove, mapValues, List.filter_map]
  rfl

theorem insert_mapValues (key : κ) (value : β) :
    (entries.mapValues change).insert key (change value) =
      (entries.insert key value).mapValues change := by
  simp only [insert, remove_mapValues]
  simp only [mapValues, List.map_append, List.map_cons, List.takeWhile_map, List.dropWhile_map]
  rfl

end Values

end Assoc

end RetroOS.Lib
