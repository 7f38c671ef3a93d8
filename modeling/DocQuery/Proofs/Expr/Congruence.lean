import DocQuery.Expr.Basic
import DocQuery.Proofs.Selector.Effect
import DocQuery.Proofs.Value.Equality

/-!
# Equal documents are interchangeable

Evaluating an expression on equal documents gives equal values or the same error, and writing equal
values through it ends the same way and leaves equal documents, also where the write stops midway
(`Expr.evaluate_set_congr`).  Equality here is that of documents, `==`: the two zeros are equal, the
order of fields does not matter, and a NaN differs from itself.  So equal documents need not be the
same, and what is copied between them is compared element by element.

Reading looks at nothing but the length of an array to find out what it selects
(`Selector.readRange_congr`).  For writing this is what `Selector.effect` says, and two runs that
fill the same positions with equal contents leave equal arrays (`Walk.Filled.elementsEqual`).
-/

namespace DocQuery

/-! ### Filling equal arrays -/

theorem Walk.Filled.elementsEqual {w : Walk} {steps : Nat} {content contents : Nat → Value}
    {xs xs' ys ys' : List Value} (hx : w.Filled steps content xs xs')
    (hy : w.Filled steps contents ys ys') (hbefore : Value.elementsEqual xs ys = true)
    (hcontents : ∀ k < steps, (content k == contents k) = true) :
    Value.elementsEqual xs' ys' = true := by
  obtain ⟨hlength, hparts⟩ := Value.elementsEqual_iff.mp hbefore
  refine Value.elementsEqual_iff.mpr ⟨by rw [hx.length_eq, hlength, hy.length_eq], ?_⟩
  intro i x y hxi hyi
  rcases w.slot_cases steps i with ⟨k, hk, rfl⟩ | hi
  · rw [hx.written k hk] at hxi
    rw [hy.written k hk] at hyi
    obtain rfl := Option.some.inj hxi
    obtain rfl := Option.some.inj hyi
    exact hcontents k hk
  · rw [hx.kept i hi] at hxi
    rw [hy.kept i hi] at hyi
    exact hparts i x y hxi hyi

namespace Selector

variable {xs ys : List Value}

/-! ### Reading -/

theorem elementOrNull_beq (h : Value.elementsEqual xs ys = true) (k : Nat) :
    (elementOrNull xs k == elementOrNull ys k) = true := by
  obtain ⟨hlength, hparts⟩ := Value.elementsEqual_iff.mp h
  by_cases hk : k < xs.length
  · exact hparts k _ _ (Walk.getElem?_eq_some_elementOrNull hk)
      (Walk.getElem?_eq_some_elementOrNull (by omega))
  · rw [elementOrNull, elementOrNull, List.getElem?_eq_none (by omega),
      List.getElem?_eq_none (by omega)]
    rfl

theorem elementAt?_beq (h : Value.elementsEqual xs ys = true) (position : Int64) :
    ((Value.elementAt? xs position).getD default ==
      (Value.elementAt? ys position).getD default) = true := by
  rw [Value.elementAt?, Value.elementAt?, ← (Value.elementsEqual_iff.mp h).1]
  cases Value.slot? position xs.length with
  | none => rfl
  | some i => exact elementOrNull_beq h i

/-- Of equal arrays a walk reads equal elements, or it is refused for the same position. -/
theorem readRange_congr (w : Walk) (h : Value.elementsEqual xs ys = true) :
    Result.equal (readRange w xs) (readRange w ys) = true := by
  unfold readRange
  rw [← (Value.elementsEqual_iff.mp h).1]
  cases hfirst : Value.checkPosition w.first xs.length with
  | error e => simp [bind, Except.bind, Result.equal]
  | ok _ =>
    cases hlast : Value.checkPosition w.last xs.length with
    | error e => simp [bind, Except.bind, Result.equal]
    | ok _ =>
      simp only [bind, Except.bind, pure, Except.pure, Result.equal, Value.array_beq_array]
      refine Value.elementsEqual_iff.mpr ⟨by simp, fun i x y hx hy => ?_⟩
      rw [List.getElem?_map] at hx hy
      obtain ⟨position, hposition, rfl⟩ := Option.map_eq_some_iff.mp hx
      rw [hposition] at hy
      obtain rfl := Option.some.inj hy
      exact elementAt?_beq h position

theorem read_congr (s : Selector) {document other : Value} (h : (document == other) = true) :
    Result.equal (s.read document) (s.read other) = true := by
  cases hall : s.isAll with
  | true =>
    rw [read_all hall, read_all hall]
    exact h
  | false =>
    rcases Value.arrays_or_not_arrays_of_beq h with ⟨xs, ys, rfl, rfl, hequal⟩ | ⟨hx, hy⟩
    · cases hrange : s.isRange with
      | true =>
        rw [read_eq_readRange hall hrange, read_eq_readRange hall hrange,
          ← (Value.elementsEqual_iff.mp hequal).1]
        exact readRange_congr _ hequal
      | false =>
        rw [read_index hall hrange, read_index hall hrange,
          ← (Value.elementsEqual_iff.mp hequal).1]
        exact elementAt?_beq hequal _
    · rw [read_of_not_indexed hall (Value.indexed_of_not_array hx),
        read_of_not_indexed hall (Value.indexed_of_not_array hy), Value.kind_eq_of_beq h]
      simp [Result.equal]

/-! ### Writing -/

theorem effect_congr (s : Selector) (context : Context) (size : Nat) {value other : Value}
    (h : (value == other) = true) :
    s.effect context size value = s.effect context size other := by
  rw [effect, effect, Value.isArray_eq_of_beq h, Value.kind_eq_of_beq h]

theorem content_congr (s : Selector) (context : Context) (hequal : Value.elementsEqual xs ys = true)
    {value other : Value} (h : (value == other) = true) (k : Nat) :
    (s.content context xs value k == s.content context ys other k) = true := by
  unfold content
  rw [← (Value.elementsEqual_iff.mp hequal).1]
  split
  · split
    · exact elementOrNull_beq hequal _
    · rcases Value.arrays_or_not_arrays_of_beq h with ⟨us, vs, rfl, rfl, hvalues⟩ | ⟨hx, hy⟩
      · exact elementOrNull_beq hvalues k
      · -- nothing to spread on either side
        rw [hx, hy]
        rfl
  · exact h

theorem write_congr (s : Selector) (context : Context) {document other value another : Value}
    (hdocument : (document == other) = true) (hvalue : (value == another) = true) :
    (s.write context document value).result = (s.write context other another).result ∧
      ((s.write context document value).document ==
        (s.write context other another).document) = true := by
  cases hall : s.isAll with
  | true =>
    rw [write_all hall, write_all hall]
    exact ⟨rfl, hvalue⟩
  | false =>
    rcases Value.arrays_or_not_arrays_of_beq hdocument with ⟨xs, ys, rfl, rfl, hequal⟩ | ⟨hx, hy⟩
    · obtain ⟨xs', hwrite, hfilled⟩ := write_eq hall context xs value
      obtain ⟨ys', hwrite', hfilled'⟩ := write_eq hall context ys another
      rw [← (Value.elementsEqual_iff.mp hequal).1, ← effect_congr s context xs.length hvalue]
        at hwrite' hfilled'
      rw [hwrite, hwrite', Value.array_beq_array]
      exact ⟨rfl, hfilled.elementsEqual hfilled' hequal
        fun k _ => content_congr s context hequal hvalue k⟩
    · rw [write_of_not_indexed hall (Value.indexed_of_not_array hx),
        write_of_not_indexed hall (Value.indexed_of_not_array hy), Value.kind_eq_of_beq hdocument]
      exact ⟨rfl, hdocument⟩

end Selector

/-! ### Expressions -/

/-- **Equal documents are interchangeable.**  On equal documents an expression evaluates to equal
values or fails with the same error; and writing equal values through it ends the same way and
leaves equal documents, whether it succeeds, fails at once or stops midway. -/
theorem Expr.evaluate_set_congr (e : Expr) (context : Context)
    {document other value another : Value} (hdocument : (document == other) = true)
    (hvalue : (value == another) = true) :
    Result.equal (e.evaluate document context) (e.evaluate other context) = true ∧
    (e.set document value context).result = (e.set other another context).result ∧
    ((e.set document value context).document == (e.set other another context).document) = true := by
  cases e with
  | select s => exact ⟨s.read_congr hdocument, s.write_congr context hdocument hvalue⟩
  | unevaluable diagnostic => exact ⟨by simp [evaluate, Result.equal], rfl, hdocument⟩

/-- Two arrays that differ in the sign of a zero and in the order of fields, under a copy that stops
behind the last element. -/
theorem Expr.evaluate_set_congr_zeros :
    let document := Value.array [.float ⟨0⟩, .object [("a", .integer 1), ("b", .null)], .integer 7]
    let other := Value.array [.float ⟨0x8000000000000000⟩,
      .object [("b", .null), ("a", .integer 1)], .integer 7]
    let e := Expr.select (.range 1 5)
    ((document == other) = true ∧ (Value.float ⟨0⟩ == .float ⟨0x8000000000000000⟩) = true) ∧
    (e.set document (.float ⟨0⟩) ⟨.selfCopy⟩).result = .error (.outOfBounds 3 3) ∧
    (e.set document (.float ⟨0⟩) ⟨.selfCopy⟩).result =
      (e.set other (.float ⟨0x8000000000000000⟩) ⟨.selfCopy⟩).result ∧
    ((e.set document (.float ⟨0⟩) ⟨.selfCopy⟩).document ==
      (e.set other (.float ⟨0x8000000000000000⟩) ⟨.selfCopy⟩).document) = true ∧
    Result.equal (e.evaluate document ⟨.selfCopy⟩) (e.evaluate other ⟨.selfCopy⟩) = true := by
  intro document other e
  have hdocument : (document == other) = true := by decide
  have hvalue : (Value.float ⟨0⟩ == .float ⟨0x8000000000000000⟩) = true := by decide
  obtain ⟨heval, hresult, hleft⟩ := Expr.evaluate_set_congr e ⟨.selfCopy⟩ hdocument hvalue
  exact ⟨⟨hdocument, hvalue⟩, rfl, hresult, hleft, heval⟩

end DocQuery
