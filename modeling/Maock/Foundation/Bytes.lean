import Mathlib.Data.List.TakeWhile
import Mathlib.Algebra.Order.Ring.Int
import Maock.Foundation.OrderedContainer

/-!
# Byte strings

The standard library's byte strings as lists of bytes: the lexicographic order of unsigned bytes
(`bytesLess`), the search for the first occurrence of a pattern (`find?`), the decimal rendering of
a number (`decimal`, `decimalInt`) and the number at the beginning of a string (`stoi`,
`atoiUnsigned`).
`equivalent_bytesLess` says that the order identifies nothing but equal strings,
`length_decimalInt_le_of_stoi` that a number read from a string is not longer than the string, and
`stoi_decimalInt_append` that a number is read back from its text.
-/

set_option autoImplicit false
set_option relaxedAutoImplicit false

namespace Maock.Foundation

open OrderedContainer

/-- A `std::string`. -/
abbrev Bytes := List UInt8

namespace Bytes

/-- The byte of an ASCII character. -/
def char (c : Char) : UInt8 :=
  UInt8.ofNat c.toNat

/-- The bytes of an ASCII literal. -/
def ascii (literal : String) : Bytes :=
  literal.toList.map char

/-- A property of bytes that holds of the 256 numbers holds of every byte. -/
theorem forall_byte {P : UInt8 → Prop} (h : ∀ n : Fin 256, P (UInt8.ofFin n)) (c : UInt8) : P c :=
  h c.toFin

/-- The string that a C string pointer to these bytes denotes: it ends before the first NUL. -/
def cString (s : Bytes) : Bytes :=
  s.takeWhile fun c ↦ c != 0

theorem cString_eq_self_iff {s : Bytes} : cString s = s ↔ 0 ∉ s := by
  rw [cString, List.takeWhile_eq_self_iff]
  exact ⟨fun h hzero ↦ absurd (h 0 hzero) (by decide),
    fun h c hc ↦ bne_iff_ne.mpr fun heq ↦ h (heq ▸ hc)⟩

theorem zero_notMem_cString (s : Bytes) : 0 ∉ cString s :=
  fun h ↦ absurd (List.mem_takeWhile_imp h) (by decide)

theorem cString_append_of_notMem {s : Bytes} (h : 0 ∉ s) (rest : Bytes) :
    cString (s ++ rest) = s ++ cString rest :=
  List.takeWhile_append_of_pos fun _ hc ↦ bne_iff_ne.mpr fun heq ↦ h (heq ▸ hc)

/-- What stands behind a NUL is not seen. -/
theorem cString_append_of_mem {s : Bytes} (h : 0 ∈ s) (rest : Bytes) :
    cString (s ++ rest) = cString s := by
  induction s with
  | nil => exact absurd h List.not_mem_nil
  | cons c s ih =>
    unfold cString at ih ⊢
    rw [List.cons_append, List.takeWhile_cons, List.takeWhile_cons]
    split_ifs with hc
    · have hne : (0 : UInt8) ≠ c := fun heq ↦ absurd hc (by rw [← heq]; decide)
      rw [ih ((List.mem_cons.mp h).resolve_left hne)]
    · rfl

/-- `std::to_string` of an unsigned number. -/
def decimal (n : ℕ) : Bytes :=
  (Nat.toDigits 10 n).map fun c ↦ UInt8.ofNat c.toNat

/-! ### Order -/

/-- `operator<` of strings. -/
def bytesLess (a b : Bytes) : Bool :=
  decide (a < b)

@[simp] theorem bytesLess_eq_true (a b : Bytes) : bytesLess a b = true ↔ a < b := by
  simp [bytesLess]

@[simp] theorem bytesLess_eq_false (a b : Bytes) : bytesLess a b = false ↔ ¬ a < b := by
  simp [bytesLess]

/-- Two strings are equivalent under `operator<` exactly when they are equal. -/
@[simp] theorem equivalent_bytesLess (a b : Bytes) : Equivalent bytesLess a b ↔ a = b := by
  simp only [Equivalent, bytesLess_eq_false]
  constructor
  · rintro ⟨hab, hba⟩
    exact List.le_antisymm (List.not_lt.mp hba) (List.not_lt.mp hab)
  · rintro rfl
    exact ⟨List.lt_irrefl a, List.lt_irrefl a⟩

instance isStrictWeakOrder_bytesLess :
    IsStrictWeakOrder Bytes (fun a b ↦ bytesLess a b = true) where
  irrefl a := by simp [List.lt_irrefl]
  trans a b c := by
    simp only [bytesLess_eq_true]
    exact List.lt_trans
  incomp_trans a b c hab hbc := by
    have hab' := (equivalent_bytesLess a b).mp (by simpa [Equivalent] using hab)
    have hbc' := (equivalent_bytesLess b c).mp (by simpa [Equivalent] using hbc)
    subst hab' hbc'
    simp [List.lt_irrefl]

/-! ### Maps from strings -/

section Maps

variable {υ : Type*} (key other : Bytes) (m : OrderedMap υ bytesLess)

/-- An insertion keeps the value that is there. -/
theorem lookup_insert (value : υ) :
    OrderedMap.lookup (OrderedSet.insert (key, value) m) other =
      if other = key then some ((m.lookup key).getD value) else m.lookup other := by
  split_ifs with hsame
  · subst hsame
    cases hknown : m.lookup other with
    | none =>
      refine OrderedMap.lookup_insert_of_new fun known hmem hequiv ↦ ?_
      have hsome := OrderedMap.isSome_lookup_iff.mpr ⟨known, hmem, hequiv⟩
      rw [hknown] at hsome
      exact absurd hsome (by simp)
    | some found =>
      rw [OrderedMap.lookup_eq_some_iff] at hknown ⊢
      obtain ⟨known, hmem, hequiv⟩ := hknown
      exact ⟨known, OrderedSet.mem_insert.mpr (Or.inl hmem), hequiv⟩
  · exact OrderedMap.lookup_insert_of_not_equivalent
      (fun h ↦ hsame ((equivalent_bytesLess _ _).mp h).symm) value m

theorem lookup_modify (f : υ → υ) :
    (m.modify key f).lookup other =
      if other = key then (m.lookup key).map f else m.lookup other := by
  split_ifs with hsame
  · subst hsame
    exact OrderedMap.lookup_modify other f m
  · exact OrderedMap.lookup_modify_of_not_equivalent
      (fun h ↦ hsame ((equivalent_bytesLess _ _).mp h).symm) f m

theorem lookup_eraseKey :
    (m.eraseKey key).lookup other = if other = key then none else m.lookup other := by
  split_ifs with hsame
  · subst hsame
    exact OrderedMap.lookup_eraseKey other m
  · exact OrderedMap.lookup_eraseKey_of_not_equivalent
      (fun h ↦ hsame ((equivalent_bytesLess _ _).mp h).symm) m

theorem lookup_eq_some_iff {key : Bytes} {m : OrderedMap υ bytesLess} {value : υ} :
    m.lookup key = some value ↔ (key, value) ∈ m := by
  rw [OrderedMap.lookup_eq_some_iff]
  refine ⟨?_, fun h ↦ ⟨key, h, (equivalent_bytesLess _ _).mpr rfl⟩⟩
  rintro ⟨other, hother, hsame⟩
  exact ((equivalent_bytesLess _ _).mp hsame) ▸ hother

end Maps

/-! ### Search -/

/-- `find(pattern)`: the position of the first occurrence. -/
def find? (pattern : Bytes) : Bytes → Option ℕ
  | [] => if pattern.isEmpty then some 0 else none
  | c :: rest =>
    if pattern.isPrefixOf (c :: rest) then some 0 else (find? pattern rest).map (· + 1)

/-- A string is at least as long as what is found in it. -/
theorem length_le_of_find? {pattern s : Bytes} {position : ℕ}
    (h : find? pattern s = some position) : pattern.length ≤ s.length := by
  induction s generalizing position with
  | nil =>
    rw [find?] at h
    split_ifs at h with hempty
    exact Nat.le_of_eq (congrArg List.length (List.isEmpty_iff.mp hempty))
  | cons c rest ih =>
    rw [find?] at h
    split_ifs at h with hbegins
    · have hfront := List.isPrefixOf_iff_prefix.mp hbegins
      exact hfront.length_le
    · obtain ⟨later, hlater, -⟩ := Option.map_eq_some_iff.mp h
      exact Nat.le_succ_of_le (ih hlater)

/-- A string is what stands in front of the pattern that is found, the pattern, and what stands
behind it. -/
theorem take_append_of_find? {pattern s : Bytes} {position : ℕ}
    (h : find? pattern s = some position) :
    s.take position ++ pattern ++ s.drop (position + pattern.length) = s := by
  induction s generalizing position with
  | nil =>
    rw [find?] at h
    split_ifs at h with hempty
    rw [List.isEmpty_iff.mp hempty, List.take_nil, List.drop_nil]
    rfl
  | cons c rest ih =>
    rw [find?] at h
    split_ifs at h with hbegins
    · obtain rfl := Option.some.inj h
      rw [List.take_zero, List.nil_append, Nat.zero_add]
      have hfront := List.isPrefixOf_iff_prefix.mp hbegins
      exact List.prefix_iff_eq_append.mp hfront
    · obtain ⟨later, hlater, rfl⟩ := Option.map_eq_some_iff.mp h
      rw [List.take_succ_cons, Nat.add_right_comm, List.drop_succ_cons, List.cons_append,
        List.cons_append, ih hlater]

theorem find?_of_isPrefix {pattern s : Bytes} (h : pattern <+: s) : find? pattern s = some 0 := by
  cases s with
  | nil => rw [List.prefix_nil.mp h]; rfl
  | cons c rest =>
    have hbegins := List.isPrefixOf_iff_prefix.mpr h
    rw [find?, if_pos hbegins]

/-- A pattern is found by what stands up to its end. -/
theorem find?_take_append {pattern s : Bytes} {position : ℕ} (h : find? pattern s = some position)
    (rest : Bytes) :
    find? pattern (s.take (position + pattern.length) ++ rest) = some position := by
  induction s generalizing position with
  | nil =>
    rw [find?] at h
    split_ifs at h with hempty
    obtain rfl := Option.some.inj h
    exact find?_of_isPrefix (by simp [List.isEmpty_iff.mp hempty])
  | cons c tail ih =>
    rw [find?] at h
    split_ifs at h with hbegins
    · obtain rfl := Option.some.inj h
      have hfront := List.isPrefixOf_iff_prefix.mp hbegins
      rw [Nat.zero_add, ← List.prefix_iff_eq_take.mp hfront]
      exact find?_of_isPrefix (List.prefix_append pattern rest)
    · obtain ⟨later, hlater, rfl⟩ := Option.map_eq_some_iff.mp h
      rw [Nat.add_right_comm, List.take_succ_cons, List.cons_append, find?, ih hlater]
      rw [if_neg fun hearlier ↦ hbegins ?_]
      · rfl
      · have hlength : pattern.length ≤ (c :: tail.take (later + pattern.length)).length := by
          have hbound := congrArg List.length (take_append_of_find? hlater)
          simp only [List.length_append, List.length_drop, List.length_take,
            List.length_cons] at hbound ⊢
          omega
        have hwhole := List.isPrefixOf_iff_prefix.mp hearlier
        have hfront : pattern <+: c :: tail.take (later + pattern.length) :=
          List.prefix_of_prefix_length_le hwhole (List.prefix_append _ rest) hlength
        exact List.isPrefixOf_iff_prefix.mpr
          (hfront.trans ((List.cons_prefix_cons.mpr ⟨rfl, List.take_prefix _ _⟩)))

/-- A string in which nothing is found contains the pattern nowhere. -/
theorem not_isPrefix_drop_of_find?_eq_none {pattern s : Bytes} (h : find? pattern s = none)
    (position : ℕ) : ¬ pattern <+: s.drop position := by
  induction s generalizing position with
  | nil =>
    rw [find?] at h
    rw [List.drop_nil]
    intro hprefix
    obtain rfl := List.prefix_nil.mp hprefix
    exact absurd h (by simp)
  | cons c rest ih =>
    rw [find?] at h
    split_ifs at h with hbegins
    cases position with
    | zero => exact fun hfront ↦ hbegins <| List.isPrefixOf_iff_prefix.mpr hfront
    | succ position => exact ih (Option.map_eq_none_iff.mp h) position

/-- In front of where a pattern is found it does not occur. -/
theorem not_isPrefix_drop_of_find? {pattern s : Bytes} {found position : ℕ}
    (h : find? pattern s = some found) (hposition : position < found) :
    ¬ pattern <+: s.drop position := by
  induction s generalizing found position with
  | nil =>
    rw [find?] at h
    split_ifs at h
    obtain rfl := Option.some.inj h
    exact absurd hposition (Nat.not_lt_zero position)
  | cons c rest ih =>
    rw [find?] at h
    split_ifs at h with hbegins
    · obtain rfl := Option.some.inj h
      exact absurd hposition (Nat.not_lt_zero position)
    · obtain ⟨later, hlater, rfl⟩ := Option.map_eq_some_iff.mp h
      cases position with
      | zero => exact fun hfront ↦ hbegins <| List.isPrefixOf_iff_prefix.mpr hfront
      | succ position => exact ih hlater (Nat.lt_of_succ_lt_succ hposition)

/-- What does not contain the first byte of a pattern is skipped by the search. -/
theorem find?_append_of_notMem {c : UInt8} {s : Bytes} (h : c ∉ s) (pattern rest : Bytes) :
    find? (c :: pattern) (s ++ rest) = (find? (c :: pattern) rest).map (s.length + ·) := by
  induction s with
  | nil => cases hfound : find? (c :: pattern) rest <;> simp [hfound]
  | cons d s ih =>
    have hbegins : ¬ (c :: pattern).isPrefixOf (d :: (s ++ rest)) = true := by
      intro hprefix
      have hfront := List.isPrefixOf_iff_prefix.mp hprefix
      exact h (List.mem_cons.mpr (Or.inl (List.cons_prefix_cons.mp hfront).1))
    rw [List.cons_append, find?, if_neg hbegins, ih (List.not_mem_of_not_mem_cons h),
      Option.map_map]
    congr 1
    funext position
    simp only [Function.comp_apply, List.length_cons]
    omega

/-! ### Numbers -/

/-- `std::to_string` of a signed number. -/
def decimalInt (n : ℤ) : Bytes :=
  if n < 0 then char '-' :: decimal n.natAbs else decimal n.natAbs

/-- White space as `std::isspace` knows it. -/
def isSpace (c : UInt8) : Bool :=
  c == 32 || 9 ≤ c && c ≤ 13

/-- `std::tolower` of a byte. -/
def toLower (c : UInt8) : UInt8 :=
  if char 'A' ≤ c ∧ c ≤ char 'Z' then c + 32 else c

/-- A decimal digit. -/
def isDigit (c : UInt8) : Bool :=
  char '0' ≤ c && c ≤ char '9'

/-- The number that digits stand for. -/
def digitsValue (digits : Bytes) : ℕ :=
  digits.foldl (fun value c ↦ 10 * value + (c - char '0').toNat) 0

/-- Whether a string begins with a minus sign, and what stands behind its sign, if it has one. -/
def takeSign : Bytes → Bool × Bytes
  | [] => (false, [])
  | c :: rest =>
    if c = char '-' then (true, rest)
    else if c = char '+' then (false, rest)
    else (false, c :: rest)

/-- What `std::stoi` throws. -/
inductive StoiError where
  | invalidArgument
  | outOfRange
  deriving DecidableEq

/-- `std::stoi`: white space, a sign and digits are read, and what stands behind is not looked at.
-/
def stoi (s : Bytes) : Except StoiError ℤ :=
  let (negative, unsigned) := takeSign (s.dropWhile isSpace)
  let digits := unsigned.takeWhile isDigit
  let n : ℤ := if negative then -(digitsValue digits : ℤ) else digitsValue digits
  if digits = [] then .error .invalidArgument
  else if n < -2 ^ 31 ∨ 2 ^ 31 ≤ n then .error .outOfRange
  else .ok n

/-- `atoi`, which reads a `long` and keeps its lower 32 bits, as an unsigned number. -/
def atoiUnsigned (s : Bytes) : ℕ :=
  let (negative, unsigned) := takeSign (s.dropWhile isSpace)
  let value := digitsValue (unsigned.takeWhile isDigit)
  let n : ℤ := if negative then max (-2 ^ 63) (-(value : ℤ)) else min (2 ^ 63 - 1) value
  (n % 2 ^ 32).toNat

theorem digit_toNat_lt {c : UInt8} (h : isDigit c = true) : (c - char '0').toNat < 10 := by
  have hall : ∀ c : UInt8, isDigit c = true → (c - char '0').toNat < 10 :=
    forall_byte (by decide +kernel)
  exact hall c h

theorem digitsValue_lt {digits : Bytes} (h : ∀ c ∈ digits, isDigit c = true) :
    digitsValue digits < 10 ^ digits.length := by
  have hfold : ∀ (digits : Bytes) (value bound : ℕ), (∀ c ∈ digits, isDigit c = true) →
      value < bound → digits.foldl (fun value c ↦ 10 * value + (c - char '0').toNat) value <
        bound * 10 ^ digits.length := by
    intro digits
    induction digits with
    | nil => exact fun value bound _ hlt ↦ by simpa using hlt
    | cons c rest ih =>
      intro value bound hdigits hlt
      have hdigit := digit_toNat_lt (hdigits c List.mem_cons_self)
      have hrest := ih (10 * value + (c - char '0').toNat) (bound * 10)
        (fun d hd ↦ hdigits d (List.mem_cons_of_mem c hd)) (by omega)
      rwa [List.length_cons, Nat.pow_succ', ← Nat.mul_assoc]
  simpa [digitsValue] using hfold digits 0 1 h Nat.one_pos

/-- A number is written with digits only. -/
theorem isDigit_of_mem_decimal {n : ℕ} {c : UInt8} (hc : c ∈ decimal n) : isDigit c = true := by
  obtain ⟨digit, hdigit, rfl⟩ := List.mem_map.mp hc
  have hrange := Nat.isDigit_of_mem_toDigits (by decide) (by decide) hdigit
  have hall : ∀ value : Fin 256, 48 ≤ value.val → value.val ≤ 57 →
      isDigit (UInt8.ofNat value.val) = true := by decide +kernel
  simp only [Char.isDigit, Bool.and_eq_true, decide_eq_true_eq, UInt32.le_iff_toNat_le] at hrange
  have hle : digit.toNat ≤ 57 := hrange.2
  exact hall ⟨digit.toNat, by omega⟩ hrange.1 hle

/-- The value of digits is not written with more digits. -/
theorem length_decimal_digitsValue_le {digits : Bytes} (h : ∀ c ∈ digits, isDigit c = true)
    (hne : digits ≠ []) : (decimal (digitsValue digits)).length ≤ digits.length := by
  rw [decimal, List.length_map,
    Nat.length_toDigits_le_iff (by decide) (List.length_pos_iff.mpr hne)]
  exact digitsValue_lt h

/-- A minus sign is one byte more. -/
theorem length_decimalInt_le (negative : Bool) (value : ℕ) :
    (decimalInt (if negative then -(value : ℤ) else value)).length ≤
      (decimal value).length + (if negative then 1 else 0) := by
  unfold decimalInt
  cases negative with
  | false =>
    show (if (value : ℤ) < 0 then _ else decimal value).length ≤ _
    rw [if_neg (Int.not_lt.mpr (Int.natCast_nonneg value))]
    exact Nat.le_refl _
  | true =>
    show (if -(value : ℤ) < 0 then char '-' :: decimal (-(value : ℤ)).natAbs
      else decimal (-(value : ℤ)).natAbs).length ≤ (decimal value).length + 1
    rw [Int.natAbs_neg, Int.natAbs_natCast]
    split_ifs
    · exact Nat.le_refl _
    · exact Nat.le_succ _

/-- Reading a sign takes at most one byte, and a minus sign takes one. -/
theorem length_takeSign_le (s : Bytes) :
    (takeSign s).2.length + (if (takeSign s).1 then 1 else 0) ≤ s.length := by
  unfold takeSign
  cases s with
  | nil => exact Nat.le_refl 0
  | cons c rest =>
    dsimp only
    by_cases hminus : c = char '-'
    · simp [hminus]
    · simp only [if_neg hminus]
      by_cases hplus : c = char '+'
      · simp [hplus]
      · simp [hplus]

/-- A number read from a string is not written with more bytes. -/
theorem length_decimalInt_le_of_stoi {s : Bytes} {n : ℤ} (h : stoi s = .ok n) :
    (decimalInt n).length ≤ s.length := by
  have hspace : (s.dropWhile isSpace).length ≤ s.length := (List.dropWhile_sublist _).length_le
  have hsign := length_takeSign_le (s.dropWhile isSpace)
  unfold stoi at h
  generalize takeSign (s.dropWhile isSpace) = signed at h hsign
  obtain ⟨negative, unsigned⟩ := signed
  dsimp only at h hsign
  by_cases hempty : unsigned.takeWhile isDigit = []
  · rw [if_pos hempty] at h
    exact absurd h (by simp)
  rw [if_neg hempty] at h
  have hdigits : (unsigned.takeWhile isDigit).length ≤ unsigned.length :=
    (List.takeWhile_sublist _).length_le
  have hvalue := length_decimal_digitsValue_le
    (List.all_eq_true.mp List.all_takeWhile) hempty
  have hlength := length_decimalInt_le negative (digitsValue (unsigned.takeWhile isDigit))
  by_cases hrange : (if negative then -(digitsValue (unsigned.takeWhile isDigit) : ℤ)
      else digitsValue (unsigned.takeWhile isDigit)) < -2 ^ 31 ∨
      2 ^ 31 ≤ (if negative then -(digitsValue (unsigned.takeWhile isDigit) : ℤ)
        else digitsValue (unsigned.takeWhile isDigit))
  · rw [if_pos hrange] at h
    exact absurd h (by simp)
  · rw [if_neg hrange] at h
    rw [← Except.ok.inj h]
    omega

/-- The decimal text of a number stands for it. -/
theorem digitsValue_decimal (n : ℕ) : digitsValue (decimal n) = n := by
  have hdigit : ∀ value : Fin 256, 48 ≤ value.val → value.val ≤ 57 →
      (UInt8.ofNat value.val - char '0').toNat = value.val - 48 := by decide +kernel
  have hfold : ∀ (digits : List Char) (value : ℕ), (∀ c ∈ digits, c.isDigit = true) →
      (digits.map fun c ↦ UInt8.ofNat c.toNat).foldl
        (fun value c ↦ 10 * value + (c - char '0').toNat) value =
          Nat.ofDigitChars 10 digits value := by
    intro digits
    induction digits with
    | nil => exact fun value _ ↦ (Nat.ofDigitChars_nil).symm
    | cons c digits ih =>
      intro value hdigits
      have hrange := hdigits c List.mem_cons_self
      simp only [Char.isDigit, Bool.and_eq_true, decide_eq_true_eq,
        UInt32.le_iff_toNat_le] at hrange
      have hle : c.toNat ≤ 57 := hrange.2
      have hvalue := hdigit ⟨c.toNat, by omega⟩ hrange.1 hle
      rw [List.map_cons, List.foldl_cons, Nat.ofDigitChars_cons, hvalue]
      exact ih _ fun other hother ↦ hdigits other (List.mem_cons_of_mem c hother)
  exact (hfold _ 0 fun c hc ↦ Nat.isDigit_of_mem_toDigits (by decide) (by decide) hc).trans
    Nat.ofDigitChars_ten_toDigits

theorem decimal_ne_nil (n : ℕ) : decimal n ≠ [] :=
  fun h ↦ Nat.toDigits_ne_nil (List.map_eq_nil_iff.mp h)

/-- The first byte of a decimal text is a digit. -/
theorem exists_decimal_eq_cons (n : ℕ) :
    ∃ c rest, decimal n = c :: rest ∧ isDigit c = true := by
  obtain ⟨c, rest, heq⟩ := List.exists_cons_of_ne_nil (decimal_ne_nil n)
  exact ⟨c, rest, heq, isDigit_of_mem_decimal (n := n) (heq ▸ List.mem_cons_self)⟩

theorem ne_of_isDigit {c : UInt8} (h : isDigit c = true) :
    isSpace c = false ∧ c ≠ char '-' ∧ c ≠ char '+' ∧ c ≠ char '#' ∧ c ≠ char '/' ∧ c ≠ 0 := by
  have hall : ∀ c : UInt8, isDigit c = true → isSpace c = false ∧ c ≠ char '-' ∧ c ≠ char '+' ∧
      c ≠ char '#' ∧ c ≠ char '/' ∧ c ≠ 0 := forall_byte (by decide +kernel)
  exact hall c h

/-- The digits of a decimal text end where something else follows. -/
theorem takeWhile_decimal_append (n : ℕ) {rest : Bytes}
    (hrest : ∀ c, rest.head? = some c → isDigit c = false) :
    (decimal n ++ rest).takeWhile isDigit = decimal n := by
  rw [List.takeWhile_append_of_pos fun c hc ↦ isDigit_of_mem_decimal hc]
  cases rest with
  | nil => rw [List.takeWhile_nil, List.append_nil]
  | cons c rest => rw [List.takeWhile_cons_of_neg (by simp [hrest c rfl]), List.append_nil]

/-- The text of a natural number begins with neither white space nor a sign. -/
theorem takeSign_decimal_append (n : ℕ) (rest : Bytes) :
    takeSign ((decimal n ++ rest).dropWhile isSpace) = (false, decimal n ++ rest) := by
  obtain ⟨c, digits, heq, hdigit⟩ := exists_decimal_eq_cons n
  obtain ⟨hspace, hminus, hplus, -⟩ := ne_of_isDigit hdigit
  rw [heq, List.cons_append, List.dropWhile_cons_of_neg (by simp [hspace]), takeSign,
    if_neg hminus, if_neg hplus]

/-- A number is read back from its text, whatever follows its last digit. -/
theorem stoi_decimalInt_append {n : ℤ} (hleast : -2 ^ 31 ≤ n) (hgreatest : n < 2 ^ 31)
    {rest : Bytes} (hrest : ∀ c, rest.head? = some c → isDigit c = false) :
    stoi (decimalInt n ++ rest) = .ok n := by
  have hdigits := takeWhile_decimal_append n.natAbs hrest
  have hvalue := digitsValue_decimal n.natAbs
  have hnonempty := decimal_ne_nil n.natAbs
  have hrange : ¬ (n < -2 ^ 31 ∨ 2 ^ 31 ≤ n) := by omega
  have hsigned : takeSign ((decimalInt n ++ rest).dropWhile isSpace) =
      (decide (n < 0), decimal n.natAbs ++ rest) := by
    unfold decimalInt
    by_cases hnegative : n < 0
    · rw [if_pos hnegative, List.cons_append, List.dropWhile_cons_of_neg (by decide), takeSign,
        if_pos rfl, decide_eq_true hnegative]
    · rw [if_neg hnegative, takeSign_decimal_append, decide_eq_false hnegative]
  have hinteger : (if decide (n < 0) = true then -(n.natAbs : ℤ) else n.natAbs) = n := by
    by_cases hnegative : n < 0
    · rw [if_pos (decide_eq_true hnegative)]
      omega
    · rw [if_neg (by simp [hnegative])]
      omega
  unfold stoi
  rw [hsigned]
  dsimp only
  rw [hdigits, if_neg hnonempty, hvalue, hinteger, if_neg hrange]

/-- `atoi` reads a number back from its text. -/
theorem atoiUnsigned_decimal {n : ℕ} (h : n < 2 ^ 32) : atoiUnsigned (decimal n) = n := by
  have hsigned := takeSign_decimal_append n []
  have hdigits := @takeWhile_decimal_append n [] (by simp)
  rw [List.append_nil] at hsigned hdigits
  unfold atoiUnsigned
  rw [hsigned]
  dsimp only
  rw [hdigits, digitsValue_decimal, if_neg Bool.false_ne_true]
  omega

/-- Different numbers have different texts. -/
theorem decimalInt_injective {m n : ℤ} (h : decimalInt m = decimalInt n) : m = n := by
  have hsign : ∀ k : ℤ, (decimalInt k).head? = some (char '-') ↔ k < 0 := by
    intro k
    unfold decimalInt
    by_cases hnegative : k < 0
    · simp [hnegative]
    · obtain ⟨c, digits, heq, hdigit⟩ := exists_decimal_eq_cons k.natAbs
      rw [if_neg hnegative, heq]
      simp [hnegative, (ne_of_isDigit hdigit).2.1]
  have hsame : m < 0 ↔ n < 0 := by rw [← hsign m, ← hsign n, h]
  have habs : decimal m.natAbs = decimal n.natAbs := by
    unfold decimalInt at h
    by_cases hnegative : m < 0
    · rw [if_pos hnegative, if_pos (hsame.mp hnegative)] at h
      exact (List.cons.inj h).2
    · rwa [if_neg hnegative, if_neg fun h' ↦ hnegative (hsame.mpr h')] at h
  have hvalue := congrArg digitsValue habs
  rw [digitsValue_decimal, digitsValue_decimal] at hvalue
  omega

end Bytes

end Maock.Foundation
