import DocQuery.Expr.Hash
import Mathlib.Algebra.Ring.Int.Defs
import Mathlib.Algebra.Ring.Nat
import Mathlib.Data.Int.GCD
import Mathlib.Data.List.Basic
import Mathlib.Data.Option.Basic

/-!
# What the structural hash tells apart

A structural hash is folded from words, one field at a time.  The factor of the fold is odd, so it
has an inverse among the words of 64 bits (`Expr.inverse_mul_factor`), and a step of the fold keeps
different hashes different (`Expr.foldField_left_inj`) and makes different hashes of different fields
(`Expr.foldField_right_inj`).  A run of steps then tells apart what differs in one field, however
long it is (`Expr.foldl_foldField_ne`); this is what is known of diagnostics
(`Expr.structuralHash_unevaluable`).

The hash of a selector has two fields, so it can be written out: up to multiples of `2 ^ 64` it is a
linear form in the two indices, and two selectors collide when the form vanishes on the differences
(`Expr.structuralHash_select_eq_iff`).  Which selectors these are is arithmetic from there on
(`Expr.structuralHash_select`).
-/

namespace DocQuery

/-- The word of an index, read without a sign, is the index modulo `2 ^ 64`. -/
theorem cast_toNat_toUInt64 (i : Int64) : (i.toUInt64.toNat : Int) = i.toInt % 2 ^ 64 := by
  have hword : i.toInt = (i.toUInt64.toNat : Int).bmod (2 ^ 64) := by
    rw [← UInt64.toNat_toBitVec, Int64.toBitVec_toUInt64, ← BitVec.toInt_eq_toNat_bmod]
    rfl
  have hmod : i.toInt % 2 ^ 64 = (i.toUInt64.toNat : Int) % 2 ^ 64 := by
    rw [hword]
    exact Int.bmod_emod
  have hbound := i.toUInt64.toNat_lt
  omega

theorem toUInt64_inj {i j : Int64} : i.toUInt64 = j.toUInt64 ↔ i = j :=
  (Function.LeftInverse.injective Int64.toInt64_toUInt64).eq_iff

namespace Expr

/-! ### One field -/

theorem inverse_mul_factor : (0x51B3BEA3677D46CF : UInt64) * 47 = 1 := by
  decide

theorem factor_mul_inj {hash other : UInt64} : 47 * hash = 47 * other ↔ hash = other := by
  refine ⟨fun h => ?_, fun h => by rw [h]⟩
  have hinverse : (0x51B3BEA3677D46CF : UInt64) * (47 * hash) = 0x51B3BEA3677D46CF * (47 * other) := by
    rw [h]
  rwa [← UInt64.mul_assoc, ← UInt64.mul_assoc, inverse_mul_factor, UInt64.one_mul,
    UInt64.one_mul] at hinverse

theorem foldField_left_inj (field : UInt64) {hash other : UInt64} :
    foldField hash field = foldField other field ↔ hash = other := by
  rw [foldField, foldField, UInt64.add_left_inj, factor_mul_inj]

theorem foldField_right_inj (hash : UInt64) {field other : UInt64} :
    foldField hash field = foldField hash other ↔ field = other := by
  rw [foldField, foldField, UInt64.add_right_inj]

theorem toNat_foldField (hash field : UInt64) :
    (foldField hash field).toNat = (47 * hash.toNat + field.toNat) % 2 ^ 64 := by
  rw [foldField, UInt64.toNat_add, UInt64.toNat_mul, Nat.mod_add_mod,
    show (47 : UInt64).toNat = 47 from rfl]

/-! ### All fields -/

/-- The same fields folded into different hashes leave them different. -/
theorem foldl_foldField_inj (fields : List UInt64) {hash other : UInt64} :
    fields.foldl foldField hash = fields.foldl foldField other ↔ hash = other := by
  induction fields generalizing hash other with
  | nil => rfl
  | cons field rest ih => rw [List.foldl_cons, List.foldl_cons, ih, foldField_left_inj]

/-- Equally many fields of which just one is different are folded into different hashes. -/
theorem foldl_foldField_ne {fields others : List UInt64} (hlength : fields.length = others.length)
    (h : ∃! i : Nat, fields[i]? ≠ others[i]?) (hash : UInt64) :
    fields.foldl foldField hash ≠ others.foldl foldField hash := by
  induction fields generalizing others hash with
  | nil =>
    obtain rfl := List.length_eq_zero_iff.mp hlength.symm
    obtain ⟨i, hi, -⟩ := h
    exact absurd rfl hi
  | cons field rest ih =>
    cases others with
    | nil => cases hlength
    | cons other rest' =>
      obtain ⟨i, hi, hunique⟩ := h
      rw [List.foldl_cons, List.foldl_cons]
      by_cases hfirst : field = other
      · subst hfirst
        cases i with
        | zero => exact absurd rfl hi
        | succ i =>
          exact ih (Nat.succ.inj hlength) ⟨i, hi, fun k hk => Nat.succ.inj (hunique (k + 1) hk)⟩ _
      · -- the fields behind are the same, and they keep apart what the first ones made different
        have hzero := hunique 0 (by simpa using hfirst)
        have hrest : rest = rest' := by
          apply List.ext_getElem?
          intro k
          by_contra hk
          have hsucc := hunique (k + 1) hk
          omega
        rw [hrest, ne_eq, foldl_foldField_inj, foldField_right_inj]
        exact hfirst

/-! ### Selectors -/

theorem structuralHash_select_eq (s : Selector) :
    (select s).structuralHash =
      foldField (foldField Kind.select.seed s.start.toUInt64) s.stop.toUInt64 :=
  rfl

/-- Two selectors collide when `47` times the difference of their first indices and the difference of
their last ones add up to a multiple of `2 ^ 64`. -/
theorem structuralHash_select_eq_iff {s t : Selector} :
    (select s).structuralHash = (select t).structuralHash ↔
      (2 ^ 64 : Int) ∣ 47 * (s.start.toInt - t.start.toInt) + (s.stop.toInt - t.stop.toInt) := by
  have hs := And.intro (cast_toNat_toUInt64 s.start) (cast_toNat_toUInt64 s.stop)
  have ht := And.intro (cast_toNat_toUInt64 t.start) (cast_toNat_toUInt64 t.stop)
  rw [structuralHash_select_eq, structuralHash_select_eq, ← UInt64.toNat_inj]
  simp only [toNat_foldField]
  omega

/-- Exchanging the indices of a range changes the linear form by `46` times their difference. -/
theorem dvd_swap_iff {d : Int} : (2 ^ 64 : Int) ∣ 47 * d + -d ↔ (2 ^ 63 : Int) ∣ d := by
  rw [show 47 * d + -d = 2 * (23 * d) by omega, show (2 ^ 64 : Int) = 2 * 2 ^ 63 by rfl,
    Int.mul_dvd_mul_iff_left (by decide)]
  exact ⟨fun h => Int.dvd_of_dvd_mul_right_of_gcd_one h (by decide), fun h => dvd_mul_of_dvd_right h 23⟩

/-- **Which selectors collide.**  Two selectors have one hash when `47` times the difference of their
first indices and the difference of their last ones add up to a multiple of `2 ^ 64`.  So selectors
that differ in one index only never collide; a range and the range with its indices exchanged
collide when the indices are `2 ^ 63` apart, and only then; and different selectors do not collide
whose first indices are less than `2 ^ 58` apart and their last ones less than `47`. -/
theorem structuralHash_select :
    (∀ s t : Selector, (select s).structuralHash = (select t).structuralHash ↔
      (2 ^ 64 : Int) ∣ 47 * (s.start.toInt - t.start.toInt) + (s.stop.toInt - t.stop.toInt)) ∧
    (∀ a b c : Int64, b ≠ c →
      (select (.range a b)).structuralHash ≠ (select (.range a c)).structuralHash ∧
      (select (.range b a)).structuralHash ≠ (select (.range c a)).structuralHash) ∧
    (∀ a b : Int64, a ≠ b →
      ((select (.range a b)).structuralHash = (select (.range b a)).structuralHash ↔
        (a.toInt - b.toInt).natAbs = 2 ^ 63)) ∧
    (∀ s t : Selector, s ≠ t → (s.stop.toInt - t.stop.toInt).natAbs < 47 →
      (s.start.toInt - t.start.toInt).natAbs < 2 ^ 58 →
      (select s).structuralHash ≠ (select t).structuralHash) := by
  refine ⟨fun s t => structuralHash_select_eq_iff, ?_, ?_, ?_⟩
  · intro a b c hne
    refine ⟨fun h => hne ?_, fun h => hne ?_⟩ <;>
      rw [structuralHash_select_eq, structuralHash_select_eq] at h
    · exact toUInt64_inj.mp ((foldField_right_inj _).mp h)
    · exact toUInt64_inj.mp ((foldField_right_inj _).mp ((foldField_left_inj _).mp h))
  · intro a b hne
    have ha := And.intro a.le_toInt a.toInt_lt
    have hb := And.intro b.le_toInt b.toInt_lt
    rw [ne_eq, ← Int64.toInt_inj] at hne
    rw [structuralHash_select_eq_iff]
    show (2 ^ 64 : Int) ∣ 47 * (a.toInt - b.toInt) + (b.toInt - a.toInt) ↔ _
    rw [← Int.neg_sub a.toInt b.toInt, dvd_swap_iff]
    -- two different indices are less than `2 ^ 64` apart, so `2 ^ 63` is the only multiple left
    omega
  · intro s t hne hstop hstart hcollide
    rw [structuralHash_select_eq_iff] at hcollide
    -- the linear form is too small for a multiple of `2 ^ 64` other than zero
    have hzero : 47 * (s.start.toInt - t.start.toInt) + (s.stop.toInt - t.stop.toInt) = 0 := by
      omega
    have hsame : s.start.toInt = t.start.toInt ∧ s.stop.toInt = t.stop.toInt := by omega
    rw [Int64.toInt_inj, Int64.toInt_inj] at hsame
    exact hne (congrArg₂ Selector.mk hsame.1 hsame.2)

/-- The greatest distance between two indices that are exchanged, and small ones. -/
theorem structuralHash_select_extremes :
    ((3 : Int64) ≠ 5 ∧
      (select (.range 4 3)).structuralHash ≠ (select (.range 4 5)).structuralHash) ∧
    (Int64.minValue ≠ 0 ∧ (select (.range Int64.minValue 0)).structuralHash =
      (select (.range 0 Int64.minValue)).structuralHash) ∧
    (Selector.range 0 46 ≠ .range 1 0 ∧ ((46 : Int64).toInt - (0 : Int64).toInt).natAbs < 47 ∧
      ((0 : Int64).toInt - (1 : Int64).toInt).natAbs < 2 ^ 58 ∧
      (select (.range 0 46)).structuralHash ≠ (select (.range 1 0)).structuralHash) := by
  obtain ⟨-, hone, hswap, hnear⟩ := structuralHash_select
  have hmin : Int64.minValue ≠ 0 := by decide
  have hdistinct : Selector.range 0 46 ≠ .range 1 0 := by decide
  refine ⟨⟨by decide, (hone 4 3 5 (by decide)).1⟩, ⟨hmin, (hswap _ _ hmin).mpr (by decide)⟩,
    hdistinct, by decide, by decide, hnear _ _ hdistinct (by decide) (by decide)⟩

/-- The bound of `47` cannot be raised. -/
example : (select (.range 0 47)).structuralHash = (select (.range 1 0)).structuralHash := by
  decide

/-! ### Diagnostics -/

theorem structuralHash_unevaluable_eq (diagnostic : String) :
    (unevaluable diagnostic).structuralHash =
      (diagnostic.toUTF8.data.toList.map (·.toUInt64)).foldl foldField Kind.unevaluable.seed :=
  rfl

/-- What is appended to two diagnostics does not tell them apart, nor does it hide that they are
different. -/
theorem structuralHash_append_eq_iff (diagnostic other behind : String) :
    (unevaluable (diagnostic ++ behind)).structuralHash =
        (unevaluable (other ++ behind)).structuralHash ↔
      (unevaluable diagnostic).structuralHash = (unevaluable other).structuralHash := by
  simp only [structuralHash_unevaluable_eq, String.toUTF8_eq_toByteArray,
    String.toByteArray_append, ByteArray.toList_data_append, List.map_append, List.foldl_append,
    foldl_foldField_inj]

/-- Diagnostics of equally many bytes of which just one is different have different hashes. -/
theorem structuralHash_unevaluable_ne {diagnostic other : String}
    (hsize : diagnostic.toUTF8.size = other.toUTF8.size)
    (hbyte : ∃! i : Nat, diagnostic.toUTF8.data[i]? ≠ other.toUTF8.data[i]?) :
    (unevaluable diagnostic).structuralHash ≠ (unevaluable other).structuralHash := by
  rw [structuralHash_unevaluable_eq, structuralHash_unevaluable_eq]
  apply foldl_foldField_ne
  · simpa using hsize
  · have hinj : Function.Injective (Option.map UInt8.toUInt64) :=
      Option.map_injective fun _ _ h => UInt8.toUInt64_inj.mp h
    simpa [List.getElem?_map, hinj.eq_iff] using hbyte

/-- **The hash of a diagnostic tells apart any single byte.**  Two diagnostics of equally many bytes
in UTF-8 that differ in one byte only have different hashes, however long they are and wherever that
byte is; and what follows both of them makes no difference to whether their hashes are equal. -/
theorem structuralHash_unevaluable (diagnostic other : String) :
    (diagnostic.toUTF8.size = other.toUTF8.size →
      (∃! i : Nat, diagnostic.toUTF8.data[i]? ≠ other.toUTF8.data[i]?) →
      (unevaluable diagnostic).structuralHash ≠ (unevaluable other).structuralHash) ∧
    ∀ behind : String,
      (unevaluable (diagnostic ++ behind)).structuralHash =
          (unevaluable (other ++ behind)).structuralHash ↔
        (unevaluable diagnostic).structuralHash = (unevaluable other).structuralHash :=
  ⟨structuralHash_unevaluable_ne, structuralHash_append_eq_iff diagnostic other⟩

/-- The second byte of a first letter of two bytes. -/
theorem structuralHash_unevaluable_accents :
    ("é?".toUTF8.size = "è?".toUTF8.size ∧
      ∃! i : Nat, "é?".toUTF8.data[i]? ≠ "è?".toUTF8.data[i]?) ∧
    (unevaluable "é?").structuralHash ≠ (unevaluable "è?").structuralHash ∧
    (unevaluable ("é?" ++ "!")).structuralHash ≠ (unevaluable ("è?" ++ "!")).structuralHash := by
  have hsize : "é?".toUTF8.size = "è?".toUTF8.size := by decide
  have hbyte : ∃! i : Nat, "é?".toUTF8.data[i]? ≠ "è?".toUTF8.data[i]? := by
    refine ⟨1, by decide, fun i hi => ?_⟩
    match i with
    | 0 => exact absurd (by decide) hi
    | 1 => rfl
    | 2 => exact absurd (by decide) hi
    | i + 3 => exact absurd rfl hi
  obtain ⟨hne, hbehind⟩ := structuralHash_unevaluable "é?" "è?"
  exact ⟨⟨hsize, hbyte⟩, hne hsize hbyte, mt (hbehind "!").mp (hne hsize hbyte)⟩

end Expr

end DocQuery
