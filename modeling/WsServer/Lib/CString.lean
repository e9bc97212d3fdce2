import Mathlib

/-!
# Byte strings and the C library functions on them

A `char` string is a list of bytes, compared as `char_traits<char>` does, byte by
byte without sign.  The functions are those of the C library in the "C" locale:
character classes, the prefix of a string that ends at its first NUL, decimal
numbers, and `strtoll` in base 10 with its optional white space and sign, its
longest numeric prefix and its saturation.
-/

namespace CString

/-- A string of `char`s. -/
abbrev Bytes := List UInt8

/-- The bytes of a literal of ASCII characters. -/
def bytes (literal : String) : Bytes := literal.toList.map fun c => UInt8.ofNat c.toNat

instance instLinearOrderUInt8 : LinearOrder UInt8 where
  le_refl := UInt8.le_refl
  le_trans := fun _ _ _ => UInt8.le_trans
  le_antisymm := fun _ _ => UInt8.le_antisymm
  le_total := UInt8.le_total
  lt_iff_le_not_ge := fun first second => by
    rw [UInt8.le_iff_toNat_le, UInt8.le_iff_toNat_le, UInt8.lt_iff_toNat_lt]
    omega
  toDecidableLE := inferInstance
  toDecidableLT := inferInstance
  toDecidableEq := inferInstance

/-! ## Character classes -/

/-- Space, `\t`, `\n`, `\v`, `\f` and `\r`. -/
def isspace (c : UInt8) : Bool := c = 32 || (9 ≤ c && c ≤ 13)

def isdigit (c : UInt8) : Bool := 48 ≤ c && c ≤ 57

def tolower (c : UInt8) : UInt8 := if 65 ≤ c && c ≤ 90 then c + 32 else c

/-- What `c_str()` shows to a C function: the bytes before the first NUL. -/
def cStr (s : Bytes) : Bytes := s.takeWhile fun c => c ≠ 0

/-! ## Decimal numbers -/

/-- The number written by a string of decimal digits. -/
def decimalValue (digits : Bytes) : ℕ :=
  digits.foldl (fun value c => 10 * value + (c.toNat - 48)) 0

/-- A non-empty string of decimal digits. -/
def IsDecimal (s : Bytes) : Prop := s ≠ [] ∧ ∀ c ∈ s, isdigit c = true

instance (s : Bytes) : Decidable (IsDecimal s) :=
  inferInstanceAs (Decidable (s ≠ [] ∧ ∀ c ∈ s, isdigit c = true))

/-- `std::to_string` of an unsigned number. -/
def natToString (n : ℕ) : Bytes := (Nat.toDigits 10 n).map fun c => UInt8.ofNat c.toNat

/-- `std::to_string` of a signed number. -/
def intToString : ℤ → Bytes
  | .ofNat n => natToString n
  | .negSucc n => 45 :: natToString (n + 1)

/-! ## `strtoll` -/

def llongMax : ℤ := 2 ^ 63 - 1

def llongMin : ℤ := -2 ^ 63

/-- The sign at the front of a string: whether it is a minus, and its length. -/
def leadingSign : Bytes → Bool × ℕ
  | 45 :: _ => (true, 1)
  | 43 :: _ => (false, 1)
  | _ => (false, 0)

/-- `strtoll(s, &endp, 10)`: the number read, and the offset of `endp`, which is
`0` when there is no number to read. -/
def strtoll (s : Bytes) : ℤ × ℕ :=
  let text := cStr s
  let signed := text.dropWhile isspace
  let sign := leadingSign signed
  let digits := (signed.drop sign.2).takeWhile isdigit
  if digits.isEmpty then (0, 0)
  else
    let magnitude : ℤ := decimalValue digits
    let value := if sign.1 then -magnitude else magnitude
    (max llongMin (min value llongMax),
      (text.length - signed.length) + sign.2 + digits.length)

theorem isdigit_iff {c : UInt8} : isdigit c = true ↔ 48 ≤ c.toNat ∧ c.toNat ≤ 57 := by
  simp [isdigit, UInt8.le_iff_toNat_le]

theorem isspace_of_isdigit {c : UInt8} (h : isdigit c = true) : isspace c = false := by
  rw [isdigit_iff] at h
  simp only [isspace, Bool.or_eq_false_iff, decide_eq_false_iff_not, Bool.and_eq_false_iff]
  refine ⟨?_, .inr ?_⟩
  · rintro rfl
    simp at h
  · rw [UInt8.le_iff_toNat_le]
    have : (13 : UInt8).toNat = 13 := rfl
    omega

theorem cStr_of_forall_ne {s : Bytes} (h : ∀ c ∈ s, c ≠ 0) : cStr s = s :=
  List.takeWhile_eq_self_iff.mpr (by simpa using h)

theorem cStr_isPrefix (s : Bytes) : cStr s <+: s := List.takeWhile_prefix _

/-- Text after a string without NUL is seen up to its own first NUL. -/
theorem cStr_append_of_notMem {first : Bytes} (h : 0 ∉ first) (rest : Bytes) :
    cStr (first ++ rest) = first ++ cStr rest := by
  refine List.takeWhile_append_of_pos fun c hc => ?_
  have hne : c ≠ 0 := fun heq => h (heq ▸ hc)
  simpa using hne

/-- Text after a NUL is not seen. -/
theorem cStr_append_of_mem {first : Bytes} (h : 0 ∈ first) (rest : Bytes) :
    cStr (first ++ rest) = cStr first := by
  obtain ⟨before, after, rfl, hbefore⟩ := List.eq_append_cons_of_mem h
  rw [List.append_assoc, cStr_append_of_notMem hbefore, cStr_append_of_notMem hbefore]
  rfl

theorem cStr_of_isDecimal {s : Bytes} (h : IsDecimal s) : cStr s = s := by
  refine cStr_of_forall_ne fun c hc => ?_
  rintro rfl
  have := h.2 0 hc
  simp [isdigit] at this

theorem leadingSign_of_isDecimal {s : Bytes} (h : IsDecimal s) : leadingSign s = (false, 0) := by
  cases s with
  | nil => rfl
  | cons c rest =>
      have hdigit := h.2 c List.mem_cons_self
      unfold leadingSign
      split
      · rename_i heq
        cases heq
        simp [isdigit] at hdigit
      · rename_i heq
        cases heq
        simp [isdigit] at hdigit
      · rfl

/-- On a string of digits `strtoll` reads all of it, up to saturation. -/
theorem strtoll_of_isDecimal {s : Bytes} (h : IsDecimal s) :
    strtoll s = (min (decimalValue s : ℤ) llongMax, s.length) := by
  have hspace : s.dropWhile isspace = s := by
    cases s with
    | nil => rfl
    | cons c rest => simp [isspace_of_isdigit (h.2 c List.mem_cons_self)]
  have hdigits : s.takeWhile isdigit = s := List.takeWhile_eq_self_iff.mpr h.2
  have hne : s.isEmpty = false := by simpa using h.1
  have hlow : llongMin ≤ min (decimalValue s : ℤ) llongMax := by
    refine le_min ?_ (by decide)
    exact le_trans (by decide : llongMin ≤ 0) (Int.natCast_nonneg _)
  simp only [strtoll, cStr_of_isDecimal h, hspace, leadingSign_of_isDecimal h, List.drop_zero,
    hdigits, hne, Bool.false_eq_true, if_false, Nat.sub_self, Nat.zero_add, max_eq_right hlow]

/-! ## Numbers as they are written -/

theorem toNat_of_mem_toDigits {n : ℕ} {c : Char} (h : c ∈ Nat.toDigits 10 n) :
    48 ≤ c.toNat ∧ c.toNat ≤ 57 :=
  Char.isDigit_iff_toNat.mp (Nat.isDigit_of_mem_toDigits (by decide) (by decide) h)

/-- A byte below 128 is the character's code. -/
theorem toNat_ofNat_digit {c : Char} (h : 48 ≤ c.toNat ∧ c.toNat ≤ 57) :
    (UInt8.ofNat c.toNat).toNat = c.toNat := by
  rw [UInt8.toNat_ofNat']
  exact Nat.mod_eq_of_lt (by omega)

theorem isDecimal_natToString (n : ℕ) : IsDecimal (natToString n) := by
  constructor
  · intro h
    exact Nat.toDigits_ne_nil (List.map_eq_nil_iff.mp h)
  · intro c hc
    obtain ⟨digit, hdigit, rfl⟩ := List.mem_map.mp hc
    have hrange := toNat_of_mem_toDigits hdigit
    rw [isdigit_iff, toNat_ofNat_digit hrange]
    exact hrange

/-- Reading a number undoes writing it. -/
theorem decimalValue_natToString (n : ℕ) : decimalValue (natToString n) = n := by
  have hdigits : ∀ digits : List Char, (∀ c ∈ digits, c ∈ Nat.toDigits 10 n) → ∀ value,
      (digits.map fun c => UInt8.ofNat c.toNat).foldl
        (fun value c => 10 * value + (c.toNat - 48)) value = Nat.ofDigitChars 10 digits value := by
    intro digits
    induction digits with
    | nil => intro _ value; rfl
    | cons digit digits ih =>
        intro hmem value
        have hrange := toNat_of_mem_toDigits (hmem digit List.mem_cons_self)
        rw [List.map_cons, List.foldl_cons, toNat_ofNat_digit hrange, Nat.ofDigitChars_cons]
        exact ih (fun c hc => hmem c (List.mem_cons_of_mem _ hc)) _
  calc decimalValue (natToString n) = Nat.ofDigitChars 10 (Nat.toDigits 10 n) 0 :=
        hdigits _ (fun c hc => hc) 0
    _ = n := Nat.ofDigitChars_ten_toDigits
end CString
