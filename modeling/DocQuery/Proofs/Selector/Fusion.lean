import DocQuery.Proofs.Selector.Selection

/-!
# Selecting from a selection

What a selector reads from the part of an array that another one has read can be read from the array
in one go (`Selector.read_read_fusion`).  The position `p` of the part is the position
`first + step * p` of the array (`Walk.through`), and this holds for the two ends of a walk through
the part and for everything between them: the directions of the two walks multiply
(`Walk.selection_selection`).

The selector for the array counts from the front.  So it is never the whole array, whatever the two
are, and it is a range just when the ends of the inner one are two positions of the part.
-/

namespace DocQuery

namespace Walk

/-- The position, in the array that a walk selects from, of the element that is at some position of
the selection. -/
def through (w : Walk) (position : Int64) : Int64 :=
  w.first + w.step * position

variable {w v : Walk}

/-! ### Positions of a selection -/

theorem toInt_through {position : Int64}
    (h : 0 ≤ position.toInt ∧ position.toInt < w.count.toNat) :
    (w.through position).toInt = w.first.toInt + w.step.toInt * position.toInt := by
  have hbound := position.toInt_lt
  have hwords := w.toInt_ends
  have hmul : (w.step * position).toInt = w.step.toInt * position.toInt := by
    rw [Int64.toInt_mul, toInt_step]
    split <;> apply Int.bmod_eq_of_le <;> omega
  -- the position lies between the ends of the walk
  have hends := between_ends w (k := position.toInt.toNat) (by omega)
  rw [Int.toNat_of_nonneg h.1] at hends
  rw [through, Int64.toInt_add, hmul]
  apply Int.bmod_eq_of_le <;> omega

theorem slot_toNat {position : Int64}
    (h : 0 ≤ position.toInt ∧ position.toInt < w.count.toNat) :
    w.slot position.toInt.toNat = (w.through position).toInt.toNat := by
  rw [slot, toInt_through h, Int.toNat_of_nonneg h.1]

/-- The positions of a selection are positions of the array, where all of the walk is. -/
theorem through_inside {size : Nat} (hreach : w.reach size = w.count.toNat) {position : Int64}
    (h : 0 ≤ position.toInt ∧ position.toInt < w.count.toNat) :
    0 ≤ (w.through position).toInt ∧ (w.through position).toInt < size := by
  have hends := reach_eq_count_iff.mp hreach
  have hbetween := between_ends w (k := position.toInt.toNat) (by omega)
  rw [Int.toNat_of_nonneg h.1, ← toInt_through h] at hbetween
  omega

theorem through_inj {p q : Int64} (hp : 0 ≤ p.toInt ∧ p.toInt < w.count.toNat)
    (hq : 0 ≤ q.toInt ∧ q.toInt < w.count.toNat) (h : w.through p = w.through q) : p = q := by
  have hsame : (w.through p).toInt = (w.through q).toInt := by rw [h]
  rw [toInt_through hp, toInt_through hq, toInt_step] at hsame
  rw [← Int64.toInt_inj]
  split at hsame <;> omega

/-- The walk through a selection is a walk through the array: two steps in the same direction go up,
and two in different directions go down. -/
theorem selection_selection {u : Walk} (hreach : v.reach w.count.toNat = v.count.toNat)
    (hfirst : u.first = w.through v.first) (hlast : u.last = w.through v.last)
    (elements : List Value) : v.selection (w.selection elements) = u.selection elements := by
  have hends := reach_eq_count_iff.mp hreach
  have hfirst : u.first.toInt = w.first.toInt + w.step.toInt * v.first.toInt := by
    rw [hfirst, toInt_through hends.1]
  have hlast : u.last.toInt = w.first.toInt + w.step.toInt * v.last.toInt := by
    rw [hlast, toInt_through hends.2]
  have hcount : u.count.toNat = v.count.toNat := by
    rw [toNat_count, toNat_count, hfirst, hlast, toInt_step]
    split <;> omega
  show (List.range v.count.toNat).map _ = (List.range u.count.toNat).map _
  rw [hcount]
  apply List.map_congr_left
  intro k hk
  have hk : k < v.reach w.count.toNat := by rw [hreach]; exact List.mem_range.mp hk
  have hslot : u.slot k = w.slot (v.slot k) := by
    have hinner := cast_slot hk
    rw [hreach, toNat_count] at hk
    rw [slot_eq, hfirst, hlast, slot, hinner, toInt_step, toInt_step]
    split <;> split <;> split <;> omega
  rw [elementOrNull_selection (slot_lt hk), hslot]

end Walk

namespace Selector

variable {s : Selector} {w : Walk} {count : Nat}

/-! ### Reading a selection -/

/-- A range of a selection is the selection of a walk through the array. -/
theorem read_selection_of_range (elements : List Value) (hcount : w.count.toNat = count)
    (hsize : count < 2 ^ 63) (hrange : s.isRange = true)
    (hstart : 0 ≤ (resolve s.start count).toInt ∧ (resolve s.start count).toInt < count)
    (hstop : 0 ≤ (resolve s.stop count).toInt ∧ (resolve s.stop count).toInt < count) :
    let u : Walk := ⟨w.through (resolve s.start count), w.through (resolve s.stop count)⟩
    s.read (.array (w.selection elements)) = .ok (.array (u.selection elements)) := by
  intro u
  subst hcount
  have hreach : (s.walk w.count.toNat).reach w.count.toNat = (s.walk w.count.toNat).count.toNat :=
    Walk.reach_eq_count_iff.mpr ⟨hstart, hstop⟩
  have hselection := Walk.selection_selection (u := u) hreach rfl rfl elements
  have hread := @read_of_reach s hrange (w.selection elements)
  rw [Walk.length_selection] at hread
  rw [hread hsize hreach, hselection]

/-- A range of a selection that runs out of it is refused, at its start if this is outside. -/
theorem read_selection_of_outside (elements : List Value) (hcount : w.count.toNat = count)
    (hsize : count < 2 ^ 63) (hrange : s.isRange = true) :
    let first := resolve s.start count
    let last := resolve s.stop count
    (¬ (0 ≤ first.toInt ∧ first.toInt < count) →
      s.read (.array (w.selection elements)) = .error (.outOfBounds first count)) ∧
    (0 ≤ first.toInt ∧ first.toInt < count → ¬ (0 ≤ last.toInt ∧ last.toInt < count) →
      s.read (.array (w.selection elements)) = .error (.outOfBounds last count)) := by
  intro first last
  have hlength : (w.selection elements).length = count := by rw [Walk.length_selection, hcount]
  have hpos : 0 < count := by rw [← hcount, Walk.toNat_count]; omega
  cases hall : s.isAll with
  | true =>
    -- the whole of a selection never runs out of it
    obtain ⟨hfirst, hlast⟩ := walk_of_isAll hall hsize
    have hfirst : first.toInt = 0 := hfirst
    have hlast : last.toInt = count - 1 := hlast
    omega
  | false =>
    rw [read_eq_readRange hall hrange, hlength]
    have houtside := @readRange_of_outside (w.selection elements) (s.walk count)
    have hleaving := @readRange_of_leaving (w.selection elements) (s.walk count)
    rw [hlength] at houtside hleaving
    exact ⟨houtside, hleaving⟩

/-- A single element of a selection is an element of the array. -/
theorem read_selection_of_index (elements : List Value) (hcount : w.count.toNat = count)
    (hindex : s.isRange = false) :
    (0 ≤ (resolve s.start count).toInt ∧ (resolve s.start count).toInt < count →
      s.read (.array (w.selection elements)) =
        .ok (elementOrNull elements (w.through (resolve s.start count)).toInt.toNat)) ∧
    (¬ (0 ≤ (resolve s.start count).toInt ∧ (resolve s.start count).toInt < count) →
      s.read (.array (w.selection elements)) = .ok .null) := by
  subst hcount
  have hinside := read_index_of_inside hindex (w.selection elements)
  have houtside := read_index_of_outside hindex (w.selection elements)
  rw [Walk.length_selection] at hinside houtside
  refine ⟨fun hposition => ?_, houtside⟩
  rw [hinside hposition, Walk.elementOrNull_selection (by omega), Walk.slot_toNat hposition]

/-! ### Fusion -/

/-- **Selecting from a selection is selecting once.**  Let the positions of a range, the whole array
included, be `first` to `last` in steps of `step`, all in the array, and let a second selector be
read from what the range gives, where its indices stand for the positions `p` and `q`.  If these are
two positions of the part, this is to read the range from `first + step * p` to `first + step * q`
from the array; if they are one, it gives the one element there; and a range with an end outside is
refused.  A single element is that at `first + step * p`, or null if `p` is outside. -/
theorem read_read_fusion (outer inner : Selector) (elements : List Value)
    (hsize : elements.length < 2 ^ 63) (houter : outer.isRange = true)
    (hstart : 0 ≤ (resolve outer.start elements.length).toInt ∧
      (resolve outer.start elements.length).toInt < elements.length)
    (hstop : 0 ≤ (resolve outer.stop elements.length).toInt ∧
      (resolve outer.stop elements.length).toInt < elements.length) :
    let first := resolve outer.start elements.length
    let last := resolve outer.stop elements.length
    let step : Int64 := if first < last then 1 else -1
    let count := (last.toInt - first.toInt).natAbs + 1
    let p := resolve inner.start count
    let q := resolve inner.stop count
    let piped := outer.read (.array elements) >>= inner.read
    (inner.isRange = true →
      (0 ≤ p.toInt ∧ p.toInt < count → 0 ≤ q.toInt ∧ q.toInt < count →
        (p ≠ q → piped = (range (first + step * p) (first + step * q)).read (.array elements)) ∧
        (p = q → ∃ v, elements[(first + step * p).toInt.toNat]? = some v ∧
          piped = .ok (.array [v]))) ∧
      (¬ (0 ≤ p.toInt ∧ p.toInt < count) → piped = .error (.outOfBounds p count)) ∧
      (0 ≤ p.toInt ∧ p.toInt < count → ¬ (0 ≤ q.toInt ∧ q.toInt < count) →
        piped = .error (.outOfBounds q count))) ∧
    (inner.isRange = false →
      (0 ≤ p.toInt ∧ p.toInt < count →
        piped = (index (first + step * p)).read (.array elements)) ∧
      (¬ (0 ≤ p.toInt ∧ p.toInt < count) → piped = .ok .null)) := by
  intro first last step count p q piped
  let w := outer.walk elements.length
  have hreach : w.reach elements.length = w.count.toNat :=
    Walk.reach_eq_count_iff.mpr ⟨hstart, hstop⟩
  have hcount : w.count.toNat = count := w.toNat_count
  have hle : count < 2 ^ 63 := by
    have hbound := Walk.reach_le_size w elements.length
    omega
  have hpiped : piped = inner.read (.array (w.selection elements)) := by
    show outer.read (.array elements) >>= inner.read = _
    rw [read_of_reach houter hsize hreach]
    rfl
  -- `first + step * p` is where the walk has the position `p` of its selection
  have hinside : ∀ position : Int64, 0 ≤ position.toInt ∧ position.toInt < count →
      0 ≤ (first + step * position).toInt ∧
        (first + step * position).toInt < elements.length := fun position hposition =>
    Walk.through_inside hreach (by rwa [hcount])
  rw [hpiped]
  refine ⟨fun hrange => ⟨fun hp hq => ⟨fun hne => ?_, fun heq => ?_⟩, ?_⟩, fun hindex => ?_⟩
  · have hne : first + step * p ≠ first + step * q := fun heq =>
      hne (Walk.through_inj (w := w) (hcount ▸ hp) (hcount ▸ hq) heq)
    rw [read_range_of_inside (hinside p hp) (hinside q hq) hne]
    exact read_selection_of_range elements hcount hle hrange hp hq
  · have hlt : (first + step * p).toInt.toNat < elements.length := by
      have hposition := hinside p hp
      omega
    refine ⟨_, Walk.getElem?_eq_some_elementOrNull hlt, ?_⟩
    rw [← Walk.selection_singleton]
    have hread := read_selection_of_range elements hcount hle hrange hp hq
    rwa [show resolve inner.stop count = p from heq.symm] at hread
  · exact read_selection_of_outside elements hcount hle hrange
  · obtain ⟨hfound, hmissing⟩ := read_selection_of_index elements hcount hindex
    refine ⟨fun hp => ?_, hmissing⟩
    rw [hfound hp, read_index_of_position (hinside p hp)]
    rfl

/-- Of five elements, `[-1:1]` gives the last four from behind.  From these, `[-2:0]` gives three from
behind again, `[0:-4]` the first alone, and `[-1]` the last. -/
theorem read_read_fusion_integers :
    let elements := [Value.integer 0, .integer 1, .integer 2, .integer 3, .integer 4]
    let outer := range (-1) 1
    (elements.length < 2 ^ 63 ∧ outer.isRange = true ∧
      (resolve outer.start elements.length).toInt = 4 ∧
      (resolve outer.stop elements.length).toInt = 1) ∧
    (outer.read (.array elements) >>= (range (-2) 0).read) = (range 2 4).read (.array elements) ∧
    (outer.read (.array elements) >>= (range 0 (-4)).read) = .ok (.array [.integer 4]) ∧
    (outer.read (.array elements) >>= (index (-1)).read) = (index 1).read (.array elements) := by
  intro elements outer
  have hstart : (resolve outer.start elements.length).toInt = 4 := by decide
  have hstop : (resolve outer.stop elements.length).toInt = 1 := by decide
  have hfused := fun inner => read_read_fusion outer inner elements (by decide) rfl
    (by rw [hstart]; decide) (by rw [hstop]; decide)
  refine ⟨⟨by decide, rfl, hstart, hstop⟩, ?_, ?_, ?_⟩
  · have hread := (((hfused (range (-2) 0)).1 rfl).1 (by decide) (by decide)).1 (by decide)
    exact hread.trans (congrArg (fun s : Selector => s.read (.array elements)) (by decide))
  · obtain ⟨v, hv, hread⟩ := (((hfused (range 0 (-4))).1 rfl).1 (by decide) (by decide)).2
      (by decide)
    have hlast : elements[4]? = some v := (congrArg (elements[·]?) (by decide)).trans hv
    obtain rfl := Option.some.inj hlast
    exact hread
  · have hread := ((hfused (index (-1))).2 rfl).1 (by decide)
    exact hread.trans (congrArg (fun s : Selector => s.read (.array elements)) (by decide))

end Selector

end DocQuery
