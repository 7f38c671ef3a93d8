import DocQuery.Digits
import Mathlib.Algebra.Ring.Nat
import Mathlib.Data.List.DropRight

/-!
# Runs of decimal digits

The number that a run of digits denotes and the length of the run bound each other
(`Digits.value_lt_pow`, `Digits.length_le_of_value_lt`).  An integer is known by its digits and its
sign (`Digits.ofInt_inj`).  A zero at the end counts as a factor of ten
(`Digits.ofNat_mul_pow`), and taking the zeros off the end is undone by putting them there again
(`Digits.exists_eq_dropFinalZeros_append`).
-/

namespace DocQuery.Digits

/-- One or more digits. -/
structure IsRun (digits : List Char) : Prop where
  ne_nil : digits ≠ []
  isDigit : ∀ c ∈ digits, c.isDigit = true

theorem isDigit_iff {c : Char} : c.isDigit = true ↔ 48 ≤ c.toNat ∧ c.toNat ≤ 57 := by
  simp only [Char.isDigit, Bool.and_eq_true, decide_eq_true_eq, UInt32.le_iff_toNat_le]
  exact Iff.rfl

theorem toNat_zero : '0'.toNat = 48 :=
  rfl

theorem isDigit_of_mem_replicate_zero {k : Nat} {c : Char} (h : c ∈ List.replicate k '0') :
    c.isDigit = true := by
  rw [(List.mem_replicate.mp h).2]
  rfl

theorem IsRun.append_left {front digits : List Char} (hfront : ∀ c ∈ front, c.isDigit = true)
    (h : IsRun digits) : IsRun (front ++ digits) where
  ne_nil := List.append_ne_nil_of_right_ne_nil front h.ne_nil
  isDigit := fun c hc => (List.mem_append.mp hc).elim (hfront c) (h.isDigit c)

theorem IsRun.append_right {digits behind : List Char} (h : IsRun digits)
    (hbehind : ∀ c ∈ behind, c.isDigit = true) : IsRun (digits ++ behind) where
  ne_nil := List.append_ne_nil_of_left_ne_nil h.ne_nil behind
  isDigit := fun c hc => (List.mem_append.mp hc).elim (h.isDigit c) (hbehind c)

theorem IsRun.take_succ {digits : List Char} (h : IsRun digits) (k : Nat) :
    IsRun (digits.take (k + 1)) where
  ne_nil := by simpa using h.ne_nil
  isDigit := fun c hc => h.isDigit c (List.mem_of_mem_take hc)

/-! ### Values -/

theorem value_append (digits behind : List Char) :
    value (digits ++ behind) = value digits * 10 ^ behind.length + value behind := by
  rw [value, Nat.ofDigitChars_append, Nat.ofDigitChars_eq_ofDigitChars_zero, Nat.mul_comm]
  rfl

theorem value_replicate_zero (k : Nat) : value (List.replicate k '0') = 0 := by
  rw [value, Nat.ofDigitChars_replicate_zero, Nat.mul_zero]

theorem value_append_replicate_zero (digits : List Char) (k : Nat) :
    value (digits ++ List.replicate k '0') = value digits * 10 ^ k := by
  rw [value_append, List.length_replicate, value_replicate_zero, Nat.add_zero]

theorem value_replicate_zero_append (k : Nat) (digits : List Char) :
    value (List.replicate k '0' ++ digits) = value digits := by
  rw [value_append, value_replicate_zero, Nat.zero_mul, Nat.zero_add]

theorem value_cons (c : Char) (rest : List Char) :
    value (c :: rest) = (c.toNat - '0'.toNat) * 10 ^ rest.length + value rest := by
  rw [← List.singleton_append, value_append]
  congr 2
  rw [value, Nat.ofDigitChars_cons, Nat.ofDigitChars_nil, Nat.mul_zero, Nat.zero_add]

theorem value_zero_cons (rest : List Char) : value ('0' :: rest) = value rest := by
  rw [value_cons, Nat.sub_self, Nat.zero_mul, Nat.zero_add]

/-- Zeros in front do not count. -/
theorem value_dropWhile_zero (digits : List Char) :
    value (digits.dropWhile (· = '0')) = value digits := by
  induction digits with
  | nil => rfl
  | cons c rest ih =>
    by_cases hzero : c = '0'
    · rw [hzero, List.dropWhile_cons_of_pos (by simp), ih, value_zero_cons]
    · rw [List.dropWhile_cons_of_neg (by simpa using hzero)]

theorem value_lt_pow {digits : List Char} (h : ∀ c ∈ digits, c.isDigit = true) :
    value digits < 10 ^ digits.length := by
  induction digits with
  | nil => decide
  | cons c rest ih =>
    have hrest := ih fun d hd => h d (List.mem_cons_of_mem c hd)
    have hdigit : c.toNat - '0'.toNat + 1 ≤ 10 := by
      have hc := isDigit_iff.mp (h c List.mem_cons_self)
      rw [toNat_zero]
      omega
    calc value (c :: rest)
        = (c.toNat - '0'.toNat) * 10 ^ rest.length + value rest := value_cons c rest
      _ < (c.toNat - '0'.toNat + 1) * 10 ^ rest.length := by rw [Nat.succ_mul]; omega
      _ ≤ 10 * 10 ^ rest.length := Nat.mul_le_mul_right _ hdigit
      _ = 10 ^ (c :: rest).length := by rw [List.length_cons, Nat.pow_succ, Nat.mul_comm]

/-- Digits without a zero in front are no more than their number allows. -/
theorem length_le_of_value_lt {digits : List Char} {k : Nat}
    (hdigits : ∀ c ∈ digits, c.isDigit = true) (hplain : ∀ c ∈ digits.head?, c ≠ '0')
    (h : value digits < 10 ^ k) : digits.length ≤ k := by
  cases digits with
  | nil => exact Nat.zero_le k
  | cons c rest =>
    have hdigit : 0 < c.toNat - '0'.toNat := by
      have hc := isDigit_iff.mp (hdigits c List.mem_cons_self)
      have hne : c.toNat ≠ '0'.toNat := fun heq => hplain c rfl (Char.toNat_inj.mp heq)
      rw [toNat_zero] at hne ⊢
      omega
    have hle : 10 ^ rest.length ≤ value (c :: rest) := by
      rw [value_cons]
      exact Nat.le_add_right_of_le (Nat.le_mul_of_pos_left _ hdigit)
    exact (Nat.pow_lt_pow_iff_right (by decide)).mp (Nat.lt_of_le_of_lt hle h)

/-! ### The digits of a number -/

theorem ofNat_ne_nil (n : Nat) : ofNat n ≠ [] :=
  Nat.toDigits_ne_nil

theorem isDigit_of_mem_ofNat {n : Nat} {c : Char} (h : c ∈ ofNat n) : c.isDigit = true :=
  Nat.isDigit_of_mem_toDigits (by decide) (by decide) h

theorem isRun_ofNat (n : Nat) : IsRun (ofNat n) :=
  ⟨ofNat_ne_nil n, fun _ => isDigit_of_mem_ofNat⟩

theorem length_ofNat_le_iff {n k : Nat} (hk : 0 < k) : (ofNat n).length ≤ k ↔ n < 10 ^ k :=
  Nat.length_toDigits_le_iff (by decide) hk

theorem length_ofNat_pos (n : Nat) : 0 < (ofNat n).length :=
  Nat.length_toDigits_pos

theorem lt_pow_length_ofNat (n : Nat) : n < 10 ^ (ofNat n).length :=
  (length_ofNat_le_iff (length_ofNat_pos n)).mp (Nat.le_refl _)

theorem ofNat_mul_pow {n : Nat} (hn : n ≠ 0) (k : Nat) :
    ofNat (n * 10 ^ k) = ofNat n ++ List.replicate k '0' := by
  induction k with
  | zero => rw [Nat.pow_zero, Nat.mul_one, List.replicate_zero, List.append_nil]
  | succ k ih =>
    have hpos : 0 < n * 10 ^ k := Nat.mul_pos (Nat.pos_of_ne_zero hn) (Nat.pow_pos (by decide))
    have hlast : ofNat (n * 10 ^ k) ++ ['0'] = ofNat (10 * (n * 10 ^ k)) :=
      Nat.toDigits_append_toDigits (b := 10) (d := 0) (by decide) hpos (by decide)
    rw [List.replicate_succ', ← List.append_assoc, ← ih, hlast, Nat.pow_succ, ← Nat.mul_assoc,
      Nat.mul_comm 10]

/-- Only zero has a zero in front. -/
theorem head_ofNat_ne_zero {n : Nat} (hn : n ≠ 0) {c : Char} (h : c ∈ (ofNat n).head?) :
    c ≠ '0' := by
  induction n using Nat.strong_induction_on generalizing c with
  | _ n ih =>
    rw [ofNat, Nat.toDigits_eq_if (by decide)] at h
    split at h
    · next hlt =>
      have hdigit : ∀ n < 10, n ≠ 0 → n.digitChar ≠ '0' := by decide
      obtain rfl := Option.some.inj h
      exact hdigit n hlt hn
    · next hge =>
      -- the first digit is the first of a tenth of the number
      refine ih (n / 10) (by omega) (by omega) ?_
      rwa [List.head?_append, List.head?_eq_some_head Nat.toDigits_ne_nil, Option.some_or,
        ← List.head?_eq_some_head] at h

theorem ofNat_inj {m n : Nat} (h : ofNat m = ofNat n) : m = n := by
  rw [← value_ofNat m, h, value_ofNat]

/-! ### The digits of an integer -/

/-- A mark that is neither a digit nor a minus sign stands in no integer. -/
theorem not_mem_ofInt (mark : Char) (hmark : mark.isDigit = false ∧ mark ≠ '-') (n : Int) :
    mark ∉ ofInt n := by
  intro h
  have hdigit : mark ∉ ofNat n.natAbs := by
    intro hmem
    rw [isDigit_of_mem_ofNat hmem] at hmark
    exact absurd hmark.1 (by decide)
  unfold ofInt at h
  split at h
  · exact (List.mem_cons.mp h).elim hmark.2 hdigit
  · exact hdigit h

theorem ofNat_ne_minus_cons (n : Nat) (rest : List Char) : ofNat n ≠ '-' :: rest := by
  intro h
  have hminus : '-' ∈ ofNat n := by rw [h]; exact List.mem_cons_self
  exact absurd (isDigit_of_mem_ofNat hminus) (by decide)

/-- An integer is known by its digits and its sign. -/
theorem ofInt_inj {m n : Int} (h : ofInt m = ofInt n) : m = n := by
  unfold ofInt at h
  split at h <;> split at h
  · have hdigits := ofNat_inj (List.cons.inj h).2
    omega
  · exact absurd h.symm (ofNat_ne_minus_cons _ _)
  · exact absurd h (ofNat_ne_minus_cons _ _)
  · have hdigits := ofNat_inj h
    omega

/-! ### Zeros at the end -/

theorem dropFinalZeros_eq_rdropWhile (digits : List Char) :
    dropFinalZeros digits = digits.rdropWhile (· = '0') :=
  rfl

theorem exists_eq_dropFinalZeros_append (digits : List Char) :
    ∃ k, digits = dropFinalZeros digits ++ List.replicate k '0' := by
  have hzeros : digits.rtakeWhile (· = '0') =
      List.replicate (digits.rtakeWhile (· = '0')).length '0' :=
    List.eq_replicate_of_mem fun c hc => by simpa using List.mem_rtakeWhile_imp hc
  refine ⟨(digits.rtakeWhile (· = '0')).length, ?_⟩
  rw [← hzeros, dropFinalZeros_eq_rdropWhile, List.rdropWhile_append_rtakeWhile]

theorem dropFinalZeros_append_replicate (digits : List Char) (k : Nat) :
    dropFinalZeros (digits ++ List.replicate k '0') = dropFinalZeros digits := by
  rw [dropFinalZeros, List.reverse_append, List.reverse_replicate,
    List.dropWhile_append_of_pos (by simp), dropFinalZeros]

theorem length_dropFinalZeros_le (digits : List Char) :
    (dropFinalZeros digits).length ≤ digits.length :=
  (List.rdropWhile_prefix _ digits).length_le

theorem mem_of_mem_dropFinalZeros {c : Char} {digits : List Char}
    (h : c ∈ dropFinalZeros digits) : c ∈ digits :=
  (List.rdropWhile_prefix _ digits).subset h

end DocQuery.Digits
