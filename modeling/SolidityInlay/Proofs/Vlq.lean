import Mathlib.Algebra.Order.Ring.Int
import SolidityInlay.SourceMap.Vlq

/-!
# Reading Base64 variable-length quantities

A reader of numbers written one after another: five bits a digit, lowest first, the sixth bit on all
but the last digit of a number, the sign in the lowest bit. It gives back every written number but
the smallest, whose magnitude does not fit. The reader has the digits of Base64 from their order,
and knows nothing of the table they are written from.

Main definitions: `Vlq.digitValue?`, `Vlq.decode?`, `Vlq.Written`. Main statements:
`Vlq.decode?_encode_append`, `Vlq.decode?_flatMap_encode`.
-/

namespace SolidityInlay.Vlq

/-- The value of a digit of Base64: capital letters, small letters, figures, `+` and `/`, in this
order. -/
def digitValue? (c : Char) : Option Nat :=
  if c.isUpper then some (c.toNat - 'A'.toNat)
  else if c.isLower then some (26 + (c.toNat - 'a'.toNat))
  else if c.isDigit then some (52 + (c.toNat - '0'.toNat))
  else if c = '+' then some 62
  else if c = '/' then some 63
  else none

def IsBase64 (c : Char) : Prop := c.isAlphanum ∨ c = '+' ∨ c = '/'

instance (c : Char) : Decidable (IsBase64 c) := inferInstanceAs (Decidable (_ ∨ _))

/-- Reads numbers without regard to their sign, in the middle of one: `low` is read already, and the
next digit counts `scale` times. -/
def readFrom? (low scale : Nat) : Text → Option (List Nat)
  | [] => if scale = 1 then some [] else none
  | c :: cs => do
    let digit ← digitValue? c
    if digit < 32 then
      let rest ← readFrom? 0 1 cs
      some ((low + scale * digit) :: rest)
    else readFrom? (low + scale * (digit - 32)) (32 * scale) cs

/-- The number whose lowest bit is the sign of the rest. -/
def ofSigned (n : Nat) : Int := if n % 2 = 1 then -(n / 2 : Nat) else (n / 2 : Nat)

def decode? (text : Text) : Option (List Int) := (readFrom? 0 1 text).map (·.map ofSigned)

/-- The digits that are written are those of Base64. -/
theorem digitValue?_digitChar {n : Nat} (h : n < 64) : digitValue? (digitChar n) = some n := by
  revert n
  decide +kernel

theorem isBase64_digitChar {n : Nat} (h : n < 64) : IsBase64 (digitChar n) := by
  revert n
  decide +kernel

theorem lt_of_mem_digits {n d : Nat} (h : d ∈ digits n) : d < 64 := by
  fun_induction digits n with
  | case1 n small =>
    rw [List.mem_singleton] at h
    omega
  | case2 n large ih =>
    rcases List.mem_cons.1 h with rfl | h
    · omega
    · exact ih h

/-- Reading the digits of a number. -/
theorem readFrom?_digits_append (low scale n : Nat) (rest : Text) :
    readFrom? low scale ((digits n).map digitChar ++ rest) =
      (readFrom? 0 1 rest).map ((low + scale * n) :: ·) := by
  fun_induction digits n generalizing low scale with
  | case1 n small =>
    have value := digitValue?_digitChar (show n < 64 by omega)
    simp only [List.map_cons, List.map_nil, List.cons_append, List.nil_append, readFrom?, value,
      Option.bind_eq_bind, Option.bind_some, if_pos small]
    cases readFrom? 0 1 rest <;> rfl
  | case2 n large ih =>
    have value := digitValue?_digitChar (show 32 + n % 32 < 64 by omega)
    have sum : low + scale * (n % 32) + 32 * scale * (n / 32) = low + scale * n := by
      calc low + scale * (n % 32) + 32 * scale * (n / 32)
          = low + scale * (n % 32 + 32 * (n / 32)) := by
            rw [Nat.mul_add, ← Nat.mul_assoc scale 32, Nat.mul_comm scale 32, Nat.add_assoc]
        _ = low + scale * n := by rw [Nat.mod_add_div]
    simp only [List.map_cons, List.cons_append, readFrom?, value, Option.bind_eq_bind,
      Option.bind_some, if_neg (show ¬ 32 + n % 32 < 32 by omega), Nat.add_sub_cancel_left, ih, sum]

/-! ## The digits of a number -/

/-- Exactly the last digit has no mark. -/
theorem exists_last_digits (n : Nat) :
    ∃ front last, digits n = front ++ [last] ∧ (∀ d ∈ front, d.testBit 5 = true) ∧
      last.testBit 5 = false := by
  fun_induction digits n with
  | case1 n small => exact ⟨[], n, rfl, by simp, Nat.testBit_lt_two_pow small⟩
  | case2 n large ih =>
    obtain ⟨front, last, parts, marked, unmarked⟩ := ih
    refine ⟨(32 + n % 32) :: front, last, by rw [parts, List.cons_append], ?_, unmarked⟩
    intro d hd
    rcases List.mem_cons.1 hd with rfl | hd
    · rw [Nat.testBit_eq_decide_div_mod_eq, decide_eq_true_eq]
      omega
    · exact marked d hd

/-- A number below a power of 32 has no more digits than the power. -/
theorem length_digits_le {n k : Nat} (h : n < 32 ^ (k + 1)) : (digits n).length ≤ k + 1 := by
  fun_induction digits n generalizing k with
  | case1 n small => simp
  | case2 n large ih =>
    cases k with
    | zero => omega
    | succ k =>
      have shorter := ih (k := k) (by rw [Nat.pow_succ] at h; omega)
      rw [List.length_cons]
      omega

/-- Shifting five bits out at a time loses none: bit `i` is bit `i % 5` of digit `i / 5`. -/
theorem testBit_digits (n i : Nat) :
    ((digits n).getD (i / 5) 0).testBit (i % 5) = n.testBit i := by
  fun_induction digits n generalizing i with
  | case1 n small =>
    by_cases first : i < 5
    · rw [Nat.div_eq_of_lt first, Nat.mod_eq_of_lt first, List.getD_cons_zero]
    · have high : n < 2 ^ i :=
        Nat.lt_of_lt_of_le small (Nat.pow_le_pow_right (n := 2) (by decide) (by omega : 5 ≤ i))
      have past : [n][i / 5]? = none := List.getElem?_eq_none (by rw [List.length_singleton]; omega)
      rw [Nat.testBit_lt_two_pow high, List.getD_eq_getElem?_getD, past, Option.getD_none,
        Nat.zero_testBit]
  | case2 n large ih =>
    by_cases first : i < 5
    · rw [Nat.div_eq_of_lt first, Nat.mod_eq_of_lt first, List.getD_cons_zero]
      calc (2 ^ 5 + n % 2 ^ 5).testBit i
          = (n % 2 ^ 5).testBit i := Nat.testBit_two_pow_add_gt first _
        _ = n.testBit i := by rw [Nat.testBit_mod_two_pow, decide_eq_true first, Bool.true_and]
    · obtain ⟨j, rfl⟩ : ∃ j, i = j + 5 := ⟨i - 5, by omega⟩
      rw [show (j + 5) / 5 = j / 5 + 1 by omega, Nat.add_mod_right, List.getD_cons_succ, ih,
        show n / 32 = n / 2 ^ 5 from rfl, Nat.testBit_div_two_pow]

/-! ## Signs -/

theorem toNat_toUInt64 (value : Int64) :
    (value.toUInt64.toNat : Int) =
      if value.toInt < 0 then value.toInt + 2 ^ 64 else value.toInt := by
  have cond := BitVec.toInt_eq_toNat_cond value.toBitVec
  have bound := value.toBitVec.isLt
  have same : value.toUInt64.toNat = value.toBitVec.toNat := rfl
  have int : value.toInt = value.toBitVec.toInt := rfl
  rw [same, int, cond]
  split <;> split <;> omega

theorem toNat_doubled {x : UInt64} (h : x.toNat < 2 ^ 63) : (x <<< 1).toNat = 2 * x.toNat := by
  rw [UInt64.toNat_shiftLeft]
  simp only [UInt64.toNat_one, Nat.one_mod, Nat.shiftLeft_eq]
  omega

theorem toNat_doubled_or_one {x : UInt64} (h : x.toNat < 2 ^ 63) :
    ((x <<< 1) ||| 1).toNat = 2 * x.toNat + 1 := by
  have apart := Nat.two_pow_add_eq_or_of_lt (show 1 < 2 ^ 1 by decide) x.toNat
  rw [UInt64.toNat_or, toNat_doubled h, UInt64.toNat_one]
  simpa using apart.symm

/-- Making room for the sign loses no bit of the magnitude, except for the smallest number. -/
theorem toNat_signed {value : Int64} (h : value.toInt ≠ -2 ^ 63) :
    (signed value).toNat = 2 * value.toInt.natAbs + if value < 0 then 1 else 0 := by
  have bits := toNat_toUInt64 value
  have low := value.le_toInt
  have high := value.toInt_lt
  have order : value < 0 ↔ value.toInt < 0 := Int64.lt_iff_toInt_lt
  rw [signed]
  by_cases neg : value.toInt < 0
  · rw [if_pos neg] at bits
    have magnitude : ((0 - value.toUInt64).toNat : Int) = -value.toInt := by
      rw [UInt64.toNat_sub, UInt64.toNat_zero]
      omega
    rw [if_pos (order.2 neg), if_pos (order.2 neg), toNat_doubled_or_one (by omega)]
    omega
  · rw [if_neg neg] at bits
    rw [if_neg (mt order.1 neg), if_neg (mt order.1 neg), toNat_doubled (by omega)]
    omega

/-- All numbers but the smallest are had back from their magnitude and sign. -/
theorem ofSigned_signed {value : Int64} (h : value.toInt ≠ -2 ^ 63) :
    ofSigned (signed value).toNat = value.toInt := by
  have order : value < 0 ↔ value.toInt < 0 := Int64.lt_iff_toInt_lt
  rw [toNat_signed h, ofSigned]
  by_cases neg : value.toInt < 0
  · rw [if_pos (order.2 neg), if_pos (by omega)]
    omega
  · rw [if_neg (mt order.1 neg), if_neg (by omega)]
    omega

/-! ## Reading what is written -/

/-- A written number is read back, whatever comes after it. -/
theorem decode?_encode_append {value : Int64} (h : value.toInt ≠ -2 ^ 63) (rest : Text) :
    decode? (encode value ++ rest) = (decode? rest).map (value.toInt :: ·) := by
  simp only [decode?, encode, readFrom?_digits_append, Option.map_map, Nat.zero_add, Nat.one_mul]
  congr 1
  funext numbers
  simp [ofSigned_signed h]

theorem isBase64_of_mem_encode {value : Int64} {c : Char} (h : c ∈ encode value) : IsBase64 c := by
  obtain ⟨n, hn, rfl⟩ := List.mem_map.1 h
  exact isBase64_digitChar (lt_of_mem_digits hn)

theorem encode_ne_nil (value : Int64) : encode value ≠ [] := by
  rw [encode, digits]
  split <;> simp

/-- Thirteen digits of five bits hold 64 bits. -/
theorem length_encode_le (value : Int64) : (encode value).length ≤ 13 := by
  rw [encode, List.length_map]
  refine length_digits_le (Nat.lt_trans (signed value).toNat_lt ?_)
  decide

theorem map_digitValue?_encode (value : Int64) :
    (encode value).map digitValue? = (digits (signed value).toNat).map some := by
  rw [encode, List.map_map]
  exact List.map_congr_left fun d hd => digitValue?_digitChar (lt_of_mem_digits hd)

/-- The text of a number: between one and thirteen digits of Base64 that hold every bit of it. -/
structure Written (value : Int64) (text : Text) : Prop where
  isBase64 : ∀ c ∈ text, IsBase64 c
  one_le_length : 1 ≤ text.length
  length_le : text.length ≤ 13
  /-- The magnitude is all there, with the sign below it. -/
  doubled : (signed value).toNat = 2 * value.toInt.natAbs + if value < 0 then 1 else 0
  /-- Exactly the last digit has no mark, and every bit is in its digit. -/
  digits : ∃ front last, text.map digitValue? = (front ++ [last]).map some ∧
    (∀ d ∈ front, d.testBit 5 = true) ∧ last.testBit 5 = false ∧
    ∀ i, ((front ++ [last]).getD (i / 5) 0).testBit (i % 5) = (signed value).toNat.testBit i

/-- What is written for a number holds every bit of it. -/
theorem written_encode {value : Int64} (h : value.toInt ≠ -2 ^ 63) :
    Written value (encode value) where
  isBase64 _ := isBase64_of_mem_encode
  one_le_length := List.length_pos_iff.2 (encode_ne_nil value)
  length_le := length_encode_le value
  doubled := toNat_signed h
  digits := by
    obtain ⟨front, last, parts, marked, unmarked⟩ := exists_last_digits (signed value).toNat
    refine ⟨front, last, ?_, marked, unmarked, fun i => ?_⟩
    · rw [map_digitValue?_encode, parts]
    · rw [← parts, testBit_digits]

/-- Numbers written one after another are read back, and nothing is lost on the way. -/
theorem decode?_flatMap_encode {values : List Int64} (h : Int64.minValue ∉ values) :
    decode? (values.flatMap encode) = some (values.map Int64.toInt) ∧
      ∀ value ∈ values, Written value (encode value) := by
  have fits (value : Int64) (mem : value ∈ values) : value.toInt ≠ -2 ^ 63 := by
    intro least
    have : value = Int64.minValue := Int64.toInt_inj.1 (least.trans Int64.toInt_minValue.symm)
    exact h (this ▸ mem)
  refine ⟨?_, fun value mem => written_encode (fits value mem)⟩
  clear h
  induction values with
  | nil => rfl
  | cons value values ih =>
    rw [List.flatMap_cons, decode?_encode_append (fits value (by simp)),
      ih fun other mem => fits other (by simp [mem])]
    rfl

theorem decode?_flatMap_encode_limits :
    decode? ([Int64.maxValue, -Int64.maxValue, 0, -1].flatMap encode) =
        some [2 ^ 63 - 1, -(2 ^ 63 - 1), 0, -1] ∧
      Written (-Int64.maxValue) (encode (-Int64.maxValue)) := by
  obtain ⟨read, written⟩ :=
    @decode?_flatMap_encode [Int64.maxValue, -Int64.maxValue, 0, -1] (by decide)
  exact ⟨read, written _ (by simp)⟩

-- The magnitude of the smallest number is shifted out, and its sign remains.
example : decode? (encode Int64.minValue) = some [0] := by
  rw [encode, show (signed Int64.minValue).toNat = 1 from rfl, digits]
  rfl

end SolidityInlay.Vlq
