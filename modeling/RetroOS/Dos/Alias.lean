import Mathlib.Data.FinEnum
import Mathlib.Data.List.TakeWhile
import RetroOS.Lib.Bytes
import RetroOS.Lib.Search

/-!
# Short names

A DOS program sees every file under a name of at most eight characters and an
extension of at most three.  A name of that form is its own alias in upper
case.  Every other name gets the legal characters of its base, a tilde, the
first number that is still free, and its extension.

`Valid83` is the form itself: a base, and behind the dot an extension if there
is a dot.  `fits83` is the check of the source.  It also accepts names that
begin or end with their dot.
-/

namespace RetroOS.Dos

open Lib Lib.Bytes

def dot : UInt8 := 0x2e

def tilde : UInt8 := 0x7e

/-! ## Characters -/

/-- Letters, digits and some punctuation. -/
def isDosLegal (byte : UInt8) : Bool :=
  (0x41 ≤ byte && byte ≤ 0x5a) || (0x61 ≤ byte && byte ≤ 0x7a) || (0x30 ≤ byte && byte ≤ 0x39) ||
    [0x21, 0x23, 0x24, 0x25, 0x26, 0x27, 0x28, 0x29, 0x2d, 0x40, 0x5e, 0x5f,
      0x60, 0x7b, 0x7d, 0x7e].contains byte

def toAsciiUppercase (byte : UInt8) : UInt8 :=
  if 0x61 ≤ byte ∧ byte ≤ 0x7a then byte - 0x20 else byte

def upper (name : Bytes) : Bytes := name.map toAsciiUppercase

/-- What a name in upper case has to do with its characters. -/
theorem toAsciiUppercase_spec (byte : UInt8) :
    isDosLegal (toAsciiUppercase byte) = isDosLegal byte ∧
      toAsciiUppercase (toAsciiUppercase byte) = toAsciiUppercase byte ∧
      (toAsciiUppercase byte = dot ↔ byte = dot) := by
  have all : ∀ number < 256, isDosLegal (toAsciiUppercase (.ofNat number)) =
          isDosLegal (.ofNat number) ∧
        toAsciiUppercase (toAsciiUppercase (.ofNat number)) = toAsciiUppercase (.ofNat number) ∧
        (toAsciiUppercase (.ofNat number) = dot ↔ UInt8.ofNat number = dot) := by
    decide +kernel
  have one := all byte.toNat byte.toNat_lt
  rwa [UInt8.ofNat_toNat] at one

theorem not_isDosLegal_dot : isDosLegal dot = false := by
  decide

variable {byte : UInt8}

theorem ne_dot_of_legal (legal : isDosLegal byte = true) : byte ≠ dot := by
  rintro rfl
  rw [not_isDosLegal_dot] at legal
  cases legal

theorem upper_upper (name : Bytes) : upper (upper name) = upper name := by
  simp only [upper, List.map_map]
  exact List.map_congr_left fun byte _ => (toAsciiUppercase_spec byte).2.1

/-! ## Base and extension -/

/-- What stands before the first dot. -/
def stem (name : Bytes) : Bytes := name.takeWhile (· ≠ dot)

/-- What stands behind the first dot. -/
def extension (name : Bytes) : Bytes := (name.dropWhile (· ≠ dot)).drop 1

/-- The check of the source. -/
def fits83 (name : Bytes) : Bool :=
  if 1 < name.count dot then false
  else if 8 < (stem name).length ∨ 3 < (extension name).length then false
  else if stem name = [] ∧ extension name = [] then false
  else (stem name).all isDosLegal && (extension name).all isDosLegal

/-- A base of one to eight characters, and an extension of up to three. -/
structure Valid83 (name : Bytes) : Prop where
  based : stem name ≠ []
  stemLength : (stem name).length ≤ 8
  extensionLength : (extension name).length ≤ 3
  dotted : dot ∈ name → extension name ≠ []
  legal : ∀ byte ∈ stem name ++ extension name, isDosLegal byte = true
  uppercase : upper name = name

instance (name : Bytes) : Decidable (Valid83 name) :=
  decidable_of_iff (stem name ≠ [] ∧ (stem name).length ≤ 8 ∧
      (extension name).length ≤ 3 ∧ (dot ∈ name → extension name ≠ []) ∧
      (∀ byte ∈ stem name ++ extension name, isDosLegal byte = true) ∧
      upper name = name)
    ⟨fun ⟨a, b, c, d, e, f⟩ => ⟨a, b, c, d, e, f⟩, fun ⟨a, b, c, d, e, f⟩ => ⟨a, b, c, d, e, f⟩⟩

variable {name : Bytes}

variable {base ext : Bytes}

section Parts

theorem stem_upper (name : Bytes) : stem (upper name) = upper (stem name) := by
  unfold stem upper
  rw [List.takeWhile_map]
  congr 2
  funext byte
  simp [(toAsciiUppercase_spec byte).2.2]

theorem extension_upper (name : Bytes) : extension (upper name) = upper (extension name) := by
  unfold extension upper
  rw [List.dropWhile_map, List.map_drop]
  congr 3
  funext byte
  simp [(toAsciiUppercase_spec byte).2.2]

theorem all_legal_upper (name : Bytes) : (upper name).all isDosLegal = name.all isDosLegal := by
  simp only [upper, List.all_map]
  congr 1
  funext byte
  exact (toAsciiUppercase_spec byte).1

theorem count_dot_upper (name : Bytes) : (upper name).count dot = name.count dot := by
  unfold upper List.count
  rw [List.countP_map]
  congr 1
  funext byte
  exact Bool.eq_iff_iff.mpr (by simp [(toAsciiUppercase_spec byte).2.2])

theorem upper_eq_nil : upper name = [] ↔ name = [] := List.map_eq_nil_iff

theorem length_upper (name : Bytes) : (upper name).length = name.length := List.length_map _

/-- The check does not see the case of letters. -/
theorem fits83_upper (name : Bytes) : fits83 (upper name) = fits83 name := by
  unfold fits83
  simp only [stem_upper, extension_upper, count_dot_upper, all_legal_upper,
    length_upper, upper_eq_nil]

/-- A name without a dot is all base. -/
theorem stem_of_no_dot (none : ∀ byte ∈ name, byte ≠ dot) :
    stem name = name ∧ extension name = [] := by
  have all : ∀ byte ∈ name, decide (byte ≠ dot) = true :=
    fun byte member => decide_eq_true (none byte member)
  refine ⟨List.takeWhile_eq_self_iff.mpr all, ?_⟩
  rw [extension, List.dropWhile_eq_nil_iff.mpr all]
  rfl

theorem stem_of_dot (none : ∀ byte ∈ base, byte ≠ dot) (ext : Bytes) :
    stem (base ++ dot :: ext) = base ∧ extension (base ++ dot :: ext) = ext := by
  have all : ∀ byte ∈ base, decide (byte ≠ dot) = true :=
    fun byte member => decide_eq_true (none byte member)
  constructor
  · rw [stem, List.takeWhile_append_of_pos all, List.takeWhile_cons]
    simp
  · rw [extension, List.dropWhile_append_of_pos all, List.dropWhile_cons]
    simp

/-- A name is its base, or its base, a dot and its extension. -/
theorem eq_stem_extension (name : Bytes) :
    (dot ∉ name ∧ name = stem name) ∨ (dot ∈ name ∧ name = stem name ++ dot :: extension name) := by
  rcases rest : name.dropWhile (· ≠ dot) with _ | ⟨first, ext⟩
  · left
    have none := List.dropWhile_eq_nil_iff.mp rest
    refine ⟨fun member => by simpa using none dot member, ?_⟩
    exact (List.takeWhile_eq_self_iff.mpr none).symm
  · right
    have whole := List.takeWhile_append_dropWhile (p := (· ≠ dot)) (l := name)
    have isDot : first = dot := by
      have stops := List.head?_dropWhile_not (· ≠ dot) name
      rw [rest] at stops
      simpa using stops
    rw [rest, isDot] at whole
    rw [extension, rest]
    refine ⟨?_, whole.symm⟩
    rw [← whole]
    simp

theorem valid83_parts (based : base ≠ []) (stemLength : base.length ≤ 8)
    (extensionLength : ext.length ≤ 3) (legal : ∀ byte ∈ base ++ ext, isDosLegal byte = true)
    (uppercase : upper (base ++ ext) = base ++ ext) :
    Valid83 (base ++ if ext = [] then [] else dot :: ext) := by
  have none : ∀ byte ∈ base, byte ≠ dot := fun byte member =>
    ne_dot_of_legal (legal byte (List.mem_append_left _ member))
  obtain ⟨upperBase, upperExt⟩ : upper base = base ∧ upper ext = ext := by
    rw [upper, List.map_append] at uppercase
    exact List.append_inj uppercase (List.length_map _)
  by_cases empty : ext = []
  · obtain ⟨stemEq, extensionEq⟩ := stem_of_no_dot none
    rw [if_pos empty, List.append_nil]
    exact
      { based := by rwa [stemEq]
        stemLength := by rwa [stemEq]
        extensionLength := by simp [extensionEq]
        dotted := fun member => absurd rfl (none dot member)
        legal := by
          rw [stemEq, extensionEq, List.append_nil]
          exact fun byte member => legal byte (List.mem_append_left _ member)
        uppercase := upperBase }
  · obtain ⟨stemEq, extensionEq⟩ := stem_of_dot none ext
    rw [if_neg empty]
    exact
      { based := by rwa [stemEq]
        stemLength := by rwa [stemEq]
        extensionLength := by rwa [extensionEq]
        dotted := fun _ => by rwa [extensionEq]
        legal := by rwa [stemEq, extensionEq]
        uppercase := by
          rw [upper, List.map_append, List.map_cons]
          change upper base ++ toAsciiUppercase dot :: upper ext = _
          rw [upperBase, upperExt]
          rfl }

/-- A valid name passes the check of the source. -/
theorem Valid83.fits (valid : Valid83 name) : fits83 name = true := by
  have legal := valid.legal
  have none : ∀ {part : Bytes}, (∀ byte ∈ part, isDosLegal byte = true) → part.count dot = 0 :=
    fun legal => List.count_eq_zero.mpr fun member => ne_dot_of_legal (legal dot member) rfl
  have stemLegal : ∀ byte ∈ stem name, isDosLegal byte = true :=
    fun byte member => legal byte (List.mem_append_left _ member)
  have extLegal : ∀ byte ∈ extension name, isDosLegal byte = true :=
    fun byte member => legal byte (List.mem_append_right _ member)
  have single : ¬ 1 < name.count dot := by
    rcases eq_stem_extension name with ⟨absent, _⟩ | ⟨_, whole⟩
    · rw [List.count_eq_zero.mpr absent]
      decide
    · rw [whole, List.count_append, List.count_cons_self, none stemLegal, none extLegal]
      decide
  have short : ¬ (8 < (stem name).length ∨ 3 < (extension name).length) := by
    have := valid.stemLength
    have := valid.extensionLength
    omega
  have based : ¬ (stem name = [] ∧ extension name = []) := fun both => valid.based both.1
  rw [fits83, if_neg single, if_neg short, if_neg based,
    List.all_eq_true.mpr stemLegal, List.all_eq_true.mpr extLegal]
  rfl

/-- What passes the check is valid unless it begins or ends with its dot. -/
theorem valid83_upper_iff (fits : fits83 name = true) :
    Valid83 (upper name) ↔ name.head? ≠ some dot ∧ name.getLast? ≠ some dot := by
  unfold fits83 at fits
  split_ifs at fits with _ short _
  obtain ⟨stemLegal, extLegal⟩ := Bool.and_eq_true_iff.mp fits
  have notBoth : ¬ (stem name = [] ∧ extension name = []) := by assumption
  rw [List.all_eq_true] at stemLegal extLegal
  have stemShort : (stem name).length ≤ 8 := by omega
  have extShort : (extension name).length ≤ 3 := by omega
  have legal : ∀ byte ∈ upper (stem name) ++ upper (extension name), isDosLegal byte = true := by
    intro byte member
    rcases List.mem_append.mp member with inStem | inExt
    · obtain ⟨source, there, rfl⟩ := List.mem_map.mp inStem
      rw [(toAsciiUppercase_spec source).1]
      exact stemLegal source there
    · obtain ⟨source, there, rfl⟩ := List.mem_map.mp inExt
      rw [(toAsciiUppercase_spec source).1]
      exact extLegal source there
  have form : Valid83 (upper name) ↔ stem name ≠ [] ∧ (dot ∈ name → extension name ≠ []) := by
    have dotMem : dot ∈ upper name ↔ dot ∈ name := by
      rw [← List.count_pos_iff, ← List.count_pos_iff, count_dot_upper]
    constructor
    · intro valid
      refine ⟨fun empty => valid.based ?_, fun member empty => valid.dotted (dotMem.mpr member) ?_⟩
      · rw [stem_upper, upper_eq_nil, empty]
      · rw [extension_upper, upper_eq_nil, empty]
    · rintro ⟨based, dotted⟩
      exact
        { based := by rwa [stem_upper, Ne, upper_eq_nil]
          stemLength := by rwa [stem_upper, length_upper]
          extensionLength := by rwa [extension_upper, length_upper]
          dotted := fun member => by
            rw [extension_upper, Ne, upper_eq_nil]
            exact dotted (dotMem.mp member)
          legal := by rwa [stem_upper, extension_upper]
          uppercase := upper_upper name }
  rw [form]
  rcases eq_stem_extension name with ⟨absent, whole⟩ | ⟨present, whole⟩
  · have based : stem name ≠ [] := by
      intro empty
      refine notBoth ⟨empty, ?_⟩
      rw [whole, empty]
      rfl
    refine iff_of_true ⟨based, fun member => absurd member absent⟩
      ⟨fun first => absent (List.mem_of_head? first),
        fun last => absent (List.mem_of_getLast? last)⟩
  · have headIff : name.head? ≠ some dot ↔ stem name ≠ [] := by
      refine not_congr ⟨fun first => ?_, fun empty => ?_⟩
      · by_contra based
        obtain ⟨byte, rest, split⟩ := List.exists_cons_of_ne_nil based
        rw [whole, split] at first
        have same : byte = dot := by simpa using first
        refine ne_dot_of_legal (stemLegal byte ?_) same
        rw [split]
        exact List.mem_cons_self
      · rw [whole, empty]
        rfl
    have lastIff : name.getLast? ≠ some dot ↔ extension name ≠ [] := by
      refine not_congr ⟨fun last => ?_, fun empty => ?_⟩
      · by_contra extended
        rw [whole, List.getLast?_append_cons, List.getLast?_cons_of_ne_nil extended] at last
        exact ne_dot_of_legal (extLegal dot (List.mem_of_getLast? last)) rfl
      · rw [whole, empty, List.getLast?_append_cons]
        rfl
    rw [headIff, lastIff]
    exact and_congr_right fun _ => ⟨fun extended => extended present, fun extended _ => extended⟩

end Parts

/-! ## Numbers -/

/-- The digits of a number, the last one added last. -/
def decimal : (room number : Nat) → Bytes
  | 0, _ => []
  | room + 1, number =>
    if number = 0 then []
    else decimal room (number / 10) ++ [.ofNat (0x30 + number % 10)]

/-- Eight places are kept for the digits. -/
def digits (number : Nat) : Bytes := if number = 0 then [0x30] else decimal 8 number

def digitsValue (bytes : Bytes) : Nat :=
  bytes.foldl (fun value byte => 10 * value + (byte.toNat - 0x30)) 0

theorem toNat_digit (number : Nat) :
    (UInt8.ofNat (0x30 + number % 10)).toNat = 0x30 + number % 10 := by
  rw [UInt8.toNat_ofNat']
  omega

variable {room : Nat}

theorem digitsValue_decimal {number : Nat} (small : number < 10 ^ room) :
    digitsValue (decimal room number) = number := by
  induction room generalizing number with
  | zero =>
    have zero : number = 0 := by omega
    rw [zero]
    rfl
  | succ room induction =>
    unfold decimal
    split_ifs with zero
    · rw [zero]
      rfl
    · have shorter : digitsValue (decimal room (number / 10)) = number / 10 :=
        induction (by rw [Nat.pow_succ] at small; omega)
      rw [digitsValue, List.foldl_append]
      change 10 * digitsValue (decimal room (number / 10)) + _ = _
      rw [shorter, toNat_digit]
      omega

theorem length_decimal_le {number width : Nat} (small : number < 10 ^ width) :
    (decimal room number).length ≤ width := by
  induction room generalizing number width with
  | zero => exact Nat.zero_le _
  | succ room induction =>
    unfold decimal
    split_ifs with zero
    · exact Nat.zero_le _
    · obtain ⟨shorter, rfl⟩ : ∃ shorter, width = shorter + 1 :=
        Nat.exists_eq_succ_of_ne_zero (by rintro rfl; omega)
      have fewer : (decimal room (number / 10)).length ≤ shorter :=
        induction (by rw [Nat.pow_succ] at small; omega)
      simpa using fewer

theorem mem_decimal {number : Nat} (member : byte ∈ decimal room number) :
    ∃ digit < 10, byte = .ofNat (0x30 + digit) := by
  induction room generalizing number with
  | zero => cases member
  | succ room induction =>
    unfold decimal at member
    split_ifs at member
    · cases member
    · rcases List.mem_append.mp member with earlier | last
      · exact induction earlier
      · exact ⟨number % 10, Nat.mod_lt _ (by decide), List.mem_singleton.mp last⟩

/-- Digits are legal, in upper case and no tildes. -/
theorem digit_spec {number : Nat} (member : byte ∈ decimal room number) :
    isDosLegal byte = true ∧ toAsciiUppercase byte = byte ∧ byte ≠ tilde := by
  have all : ∀ digit < 10, isDosLegal (.ofNat (0x30 + digit)) = true ∧
      toAsciiUppercase (.ofNat (0x30 + digit)) = .ofNat (0x30 + digit) ∧
      UInt8.ofNat (0x30 + digit) ≠ tilde := by
    decide
  obtain ⟨digit, small, rfl⟩ := mem_decimal member
  exact all digit small

/-! ## Aliases -/

/-- How many numbers are tried. -/
def maxTail : Nat := 999999

/-- As much of the base as the tilde and the number leave room for. -/
def tailStem (base : Bytes) (number : Nat) : Bytes :=
  base.take (min base.length (8 - (1 + (digits number).length))) ++ tilde :: digits number

def tailAlias (base ext : Bytes) (number : Nat) : Bytes :=
  tailStem base number ++ if ext = [] then [] else dot :: ext

/-- Position of the last dot, or the length. -/
def lastDot (name : Bytes) : Nat :=
  match name.reverse.findIdx? (· = dot) with
  | some back => name.length - 1 - back
  | none => name.length

/-- The legal characters in upper case. -/
def clean (source : Bytes) : Bytes := upper (source.filter isDosLegal)

def baseClean (name : Bytes) : Bytes := clean (name.take (lastDot name))

def extClean (name : Bytes) : Bytes := (clean (name.drop (lastDot name + 1))).take 3

/-- The alias of a name, given the aliases before it. -/
def computeAlias83 (name : Bytes) (existing : List Bytes) : Bytes :=
  if fits83 name then upper name
  else
    match firstFree (tailAlias (baseClean name) (extClean name)) existing maxTail with
    | some number => tailAlias (baseClean name) (extClean name) number
    | none => upper name

section Alias

/-- Legal characters in upper case. -/
def Clean (part : Bytes) : Prop :=
  ∀ byte ∈ part, isDosLegal byte = true ∧ toAsciiUppercase byte = byte

theorem clean_clean (source : Bytes) : Clean (clean source) := by
  intro byte member
  obtain ⟨original, there, rfl⟩ := List.mem_map.mp member
  obtain ⟨_, legal⟩ := List.mem_filter.mp there
  obtain ⟨sameLegal, idempotent, _⟩ := toAsciiUppercase_spec original
  exact ⟨sameLegal.trans legal, idempotent⟩

theorem Clean.take {part : Bytes} (cleaned : Clean part) (count : Nat) : Clean (part.take count) :=
  fun byte member => cleaned byte (List.mem_of_mem_take member)

theorem Clean.append {first second : Bytes} (cleanFirst : Clean first)
    (cleanSecond : Clean second) : Clean (first ++ second) := by
  intro byte member
  rcases List.mem_append.mp member with inFirst | inSecond
  · exact cleanFirst byte inFirst
  · exact cleanSecond byte inSecond

variable {number : Nat}

theorem digits_eq (positive : 1 ≤ number) : digits number = decimal 8 number := if_neg (by omega)

theorem clean_tailStem (cleaned : Clean base) (positive : 1 ≤ number) : Clean (tailStem base number) := by
  refine (cleaned.take _).append ?_
  intro byte member
  rcases List.mem_cons.mp member with rfl | inDigits
  · decide
  · rw [digits_eq positive] at inDigits
    exact ⟨(digit_spec inDigits).1, (digit_spec inDigits).2.1⟩

theorem length_tailStem_le (base : Bytes) (positive : 1 ≤ number) (small : number ≤ maxTail) :
    (tailStem base number).length ≤ 8 := by
  have short : (digits number).length ≤ 6 := by
    rw [digits_eq positive]
    exact length_decimal_le (by unfold maxTail at small; omega)
  simp only [tailStem, List.length_append, List.length_take, List.length_cons]
  omega

theorem valid83_tailAlias (cleanBase : Clean base) (cleanExt : Clean ext) (short : ext.length ≤ 3)
    (positive : 1 ≤ number) (small : number ≤ maxTail) :
    Valid83 (tailAlias base ext number) := by
  have cleaned := (clean_tailStem cleanBase positive).append cleanExt
  refine valid83_parts ?_ (length_tailStem_le base positive small) short
    (fun byte member => (cleaned byte member).1) ?_
  · simp [tailStem]
  · exact (List.map_congr_left fun byte member => (cleaned byte member).2).trans (List.map_id _)

/-- The number can be read off behind the last tilde. -/
theorem digits_of_tailStem (base : Bytes) (positive : 1 ≤ number) :
    (tailStem base number).reverse.takeWhile (· ≠ tilde) = (digits number).reverse := by
  have all : ∀ byte ∈ (digits number).reverse,
      decide (byte ≠ tilde) = true := by
    intro byte member
    rw [List.mem_reverse, digits_eq positive] at member
    exact decide_eq_true (digit_spec member).2.2
  rw [tailStem, List.reverse_append, List.reverse_cons, List.append_assoc,
    List.takeWhile_append_of_pos all]
  simp

theorem tailAlias_injective {first second : Nat} (firstPositive : 1 ≤ first)
    (secondPositive : 1 ≤ second) (firstSmall : first ≤ maxTail) (secondSmall : second ≤ maxTail)
    (same : tailAlias base ext first = tailAlias base ext second) :
    first = second := by
  have stems : tailStem base first = tailStem base second := List.append_cancel_right same
  have sameDigits : digits first = digits second := by
    rw [← List.reverse_inj, ← digits_of_tailStem base firstPositive, stems,
      digits_of_tailStem base secondPositive]
  rw [digits_eq firstPositive, digits_eq secondPositive] at sameDigits
  unfold maxTail at firstSmall secondSmall
  rw [← digitsValue_decimal (show first < 10 ^ 8 by omega), sameDigits,
    digitsValue_decimal (show second < 10 ^ 8 by omega)]

theorem computeAlias83_of_fits (fits : fits83 name = true)
    (existing : List Bytes) : computeAlias83 name existing = upper name := by
  rw [computeAlias83, if_pos fits]

theorem upper_tailAlias (cleanBase : Clean base) (cleanExt : Clean ext) (positive : 1 ≤ number) :
    upper (tailAlias base ext number) = tailAlias base ext number := by
  refine (List.map_congr_left fun byte member => ?_).trans (List.map_id _)
  rcases List.mem_append.mp member with inStem | inExt
  · exact (clean_tailStem cleanBase positive byte inStem).2
  · split_ifs at inExt
    · cases inExt
    · rcases List.mem_cons.mp inExt with rfl | inExt
      · decide
      · exact (cleanExt byte inExt).2

/-- Every alias is in upper case. -/
theorem upper_computeAlias83 (name : Bytes) (existing : List Bytes) :
    upper (computeAlias83 name existing) = computeAlias83 name existing := by
  unfold computeAlias83
  split_ifs
  · exact upper_upper name
  · split
    · rename_i number found
      exact upper_tailAlias (clean_clean _) ((clean_clean _).take 3) (firstFree_spec found).1
    · exact upper_upper name

/-- A name that does not fit gets a valid alias that is not taken. -/
theorem computeAlias83_spec {existing : List Bytes}
    (long : fits83 name = false) (few : existing.length < maxTail) :
    Valid83 (computeAlias83 name existing) ∧ computeAlias83 name existing ∉ existing := by
  have cleanBase : Clean (baseClean name) := clean_clean _
  have cleanExt : Clean (extClean name) := (clean_clean _).take 3
  obtain ⟨number, found⟩ :
      ∃ number, firstFree (tailAlias (baseClean name) (extClean name))
        existing maxTail = some number := by
    exact firstFree_isSome (fun _ _ => tailAlias_injective) few
  obtain ⟨positive, small, free⟩ := firstFree_spec found
  have chosen : computeAlias83 name existing =
      tailAlias (baseClean name) (extClean name) number := by
    rw [computeAlias83, long, found]
    rfl
  rw [chosen]
  exact ⟨valid83_tailAlias cleanBase cleanExt (List.length_take_le _ _) positive small, free⟩

end Alias

end RetroOS.Dos
