import DocQuery.Proofs.Walk.Reach
import DocQuery.Selector.Write
import Mathlib.Data.List.Basic

/-!
# Filling a walk

`Walk.fill` writes at one position after the other and stops at the first that the array does not
have.  Here the loop is taken apart: what it leaves is `Walk.afterSteps`, the elements after as many
writes as there are positions within reach, and how it ends is `Walk.verdict`, which depends on the
walk and the size alone (`Walk.fill_eq`).  A loop that is cut short behind the first position out of
reach ends in the same way (`Walk.fill_eq_fillFrom_min`).

`Walk.Filled` says what some writes have come to: the positions written hold given contents, and all
other elements are what they were.  It determines the elements (`Walk.Filled.unique`), so that two
ways of writing are compared by their contents.  A loop whose source gives the contents at each step
ends in it (`Walk.filled_afterSteps`).
-/

namespace DocQuery.Walk

/-- The elements after the first `steps` positions of a walk have been filled. -/
def afterSteps (w : Walk) (source : Nat → List Value → Value) (elements : List Value) :
    (steps : Nat) → List Value
  | 0 => elements
  | steps + 1 =>
    let before := afterSteps w source elements steps
    before.set (w.slot steps) (source steps before)

/-- How the filling of a walk ends in an array of `size` elements. -/
def verdict (w : Walk) (size : Nat) : Result Unit :=
  if w.reach size = w.count.toNat then .ok ()
  else .error (.outOfBounds (w.position (w.reach size)) size)

/-- After the first `steps` positions of a walk have been given their contents: these positions hold
them, and every other element is what it was. -/
structure Filled (w : Walk) (steps : Nat) (content : Nat → Value) (before after : List Value) :
    Prop where
  /-- There are as many elements as there were. -/
  length_eq : after.length = before.length
  /-- Each position that was written holds its content. -/
  written : ∀ k < steps, after[w.slot k]? = some (content k)
  /-- Each other element is what it was. -/
  kept : ∀ i, (∀ k < steps, w.slot k ≠ i) → after[i]? = before[i]?

variable {w : Walk} {source : Nat → List Value → Value} {elements : List Value}

/-! ### The loop -/

theorem length_afterSteps (w : Walk) (source : Nat → List Value → Value) (elements : List Value)
    (steps : Nat) : (w.afterSteps source elements steps).length = elements.length := by
  induction steps with
  | zero => rfl
  | succ steps ih =>
    rw [afterSteps, List.length_set]
    exact ih

theorem replaceAt_afterSteps {k : Nat} (h : k < w.reach elements.length) :
    Value.replaceAt (w.afterSteps source elements k) (w.position k)
        (source k (w.afterSteps source elements k)) =
      .ok (w.afterSteps source elements (k + 1)) := by
  unfold Value.replaceAt
  rw [length_afterSteps, slot?_position h]
  rfl

theorem replaceAt_reach (x : Value) (h : w.reach elements.length < w.count.toNat) :
    Value.replaceAt (w.afterSteps source elements (w.reach elements.length))
        (w.position (w.reach elements.length)) x =
      .error (.outOfBounds (w.position (w.reach elements.length)) elements.length) := by
  unfold Value.replaceAt
  rw [length_afterSteps, slot?_position_reach h]

/-- From any step within reach on, the loop makes the steps that are within reach, and fails at the
first that is not. -/
theorem fillFrom_afterSteps (steps k : Nat) (hcount : k + steps ≤ w.count.toNat)
    (hreach : k ≤ w.reach elements.length) :
    w.fillFrom source steps k (w.afterSteps source elements k) =
      if k + steps ≤ w.reach elements.length then
        (w.afterSteps source elements (k + steps), .ok ())
      else (w.afterSteps source elements (w.reach elements.length),
        .error (.outOfBounds (w.position (w.reach elements.length)) elements.length)) := by
  -- on the steps left: the loop stands at `afterSteps k`, and a write goes from there to `k + 1`
  induction steps generalizing k with
  | zero =>
    rw [fillFrom, Nat.add_zero, if_pos hreach]
  | succ steps ih =>
    by_cases hk : k < w.reach elements.length
    · rw [fillFrom, replaceAt_afterSteps hk, show k + (steps + 1) = k + 1 + steps by omega]
      exact ih (k + 1) (by omega) hk
    · -- the first position out of reach, where the write fails and the loop stops
      have hk : k = w.reach elements.length := by omega
      subst hk
      rw [fillFrom, replaceAt_reach _ (by omega), if_neg (by omega)]

/-- A walk is filled as far as it reaches, and the verdict says whether this is all of it. -/
theorem fill_eq (w : Walk) (source : Nat → List Value → Value) (elements : List Value) :
    w.fill source elements =
      (w.afterSteps source elements (w.reach elements.length), w.verdict elements.length) := by
  have hle := reach_le_count w elements.length
  have hloop : w.fill source elements = _ :=
    fillFrom_afterSteps w.count.toNat 0 (by omega) (Nat.zero_le _)
  rw [hloop, Nat.zero_add, verdict]
  by_cases hdone : w.reach elements.length = w.count.toNat
  · rw [if_pos (by omega), if_pos hdone, hdone]
  · rw [if_neg (by omega), if_neg hdone]

/-- The steps behind the first position out of reach are never made. -/
theorem fill_eq_fillFrom_min {limit : Nat} (h : w.reach elements.length < limit) :
    w.fill source elements = w.fillFrom source (min limit w.count.toNat) 0 elements := by
  by_cases hlimit : w.count.toNat ≤ limit
  · rw [fill, Nat.min_eq_right hlimit]
  · have hloop : w.fillFrom source limit 0 elements = _ :=
      fillFrom_afterSteps limit 0 (by omega) (Nat.zero_le _)
    have hreach : w.reach elements.length ≠ w.count.toNat := by omega
    rw [fill_eq, verdict, if_neg hreach, Nat.min_eq_left (by omega), hloop, if_neg (by omega)]

theorem verdict_eq_ok_iff {size : Nat} :
    w.verdict size = .ok () ↔ w.reach size = w.count.toNat := by
  unfold verdict
  split <;> simp_all

/-- The verdict on a walk that starts outside the array names its start. -/
theorem verdict_of_outside {size : Nat} (h : ¬ (0 ≤ w.first.toInt ∧ w.first.toInt < size)) :
    w.verdict size = .error (.outOfBounds w.first size) := by
  have hne : w.reach size ≠ w.count.toNat := fun heq => h (reach_eq_count_iff.mp heq).1
  rw [verdict, if_neg hne, position_reach_of_outside h]

/-- The verdict on a walk that leaves the array names the position next to it. -/
theorem verdict_of_leaving {size : Nat} (hfirst : 0 ≤ w.first.toInt ∧ w.first.toInt < size)
    (hlast : ¬ (0 ≤ w.last.toInt ∧ w.last.toInt < size)) :
    ∃ position, w.verdict size = .error (.outOfBounds position size) ∧
      position.toInt = if w.last.toInt < 0 then -1 else (size : Int) := by
  have hne : w.reach size ≠ w.count.toNat := fun heq => hlast (reach_eq_count_iff.mp heq).2
  exact ⟨_, by rw [verdict, if_neg hne], toInt_position_reach hfirst hlast⟩

/-! ### What was written and what was kept -/

namespace Filled

variable {content contents : Nat → Value} {before after last : List Value} {steps : Nat}

theorem zero (w : Walk) (content : Nat → Value) (before : List Value) :
    w.Filled 0 content before before where
  length_eq := rfl
  written k hk := absurd hk (Nat.not_lt_zero k)
  kept _ _ := rfl

/-- The write at the next position within reach fills one position more. -/
theorem succ (h : w.Filled steps content before after) (hsteps : steps < w.reach before.length) :
    w.Filled (steps + 1) content before (after.set (w.slot steps) (content steps)) where
  length_eq := by rw [List.length_set, h.length_eq]
  written k hk := by
    by_cases hlast : k = steps
    · subst hlast
      rw [List.getElem?_set_self]
      rw [h.length_eq]
      exact slot_lt hsteps
    · -- no earlier step was at this slot, so what it wrote stays
      have hne : w.slot steps ≠ w.slot k := fun heq =>
        hlast (slot_inj (by omega) hsteps heq.symm)
      rw [List.getElem?_set_ne hne]
      exact h.written k (by omega)
  kept i hi := by
    rw [List.getElem?_set_ne (hi steps (by omega))]
    exact h.kept i fun k hk => hi k (by omega)

/-- The contents and the elements before determine the elements after. -/
theorem unique (h : w.Filled steps content before after) (h' : w.Filled steps content before last) :
    after = last := by
  apply List.ext_getElem?
  intro i
  rcases w.slot_cases steps i with ⟨k, hk, rfl⟩ | hi
  · rw [h.written k hk, h'.written k hk]
  · rw [h.kept i hi, h'.kept i hi]

theorem congr (h : w.Filled steps content before after)
    (hcontents : ∀ k < steps, content k = contents k) : w.Filled steps contents before after where
  length_eq := h.length_eq
  written k hk := by rw [h.written k hk, hcontents k hk]
  kept := h.kept

/-- Filling the same positions again overwrites all that was written. -/
theorem trans (h : w.Filled steps content before after)
    (h' : w.Filled steps contents after last) : w.Filled steps contents before last where
  length_eq := h'.length_eq.trans h.length_eq
  written := h'.written
  kept i hi := (h'.kept i hi).trans (h.kept i hi)

theorem refl (hheld : ∀ k < steps, before[w.slot k]? = some (content k)) :
    w.Filled steps content before before where
  length_eq := rfl
  written := hheld
  kept _ _ := rfl

/-- A walk that starts in the array and is filled as far as it reaches: an index between the start
and the last position inside holds the content of the step that comes to it. -/
theorem getElem?_eq_ite (h : w.Filled (w.reach before.length) content before after)
    (hinside : 0 ≤ w.first.toInt ∧ w.first.toInt < before.length) (i : Nat) :
    after[i]? =
      if min w.first.toInt (w.lastInside before.length) ≤ i ∧
          (i : Int) ≤ max w.first.toInt (w.lastInside before.length) then
        some (content (i - w.first.toInt).natAbs)
      else before[i]? := by
  split
  · next hbetween =>
    obtain ⟨hreach, hslot⟩ := slot_natAbs_sub hinside hbetween.1 hbetween.2
    have hwritten := h.written _ hreach
    rwa [hslot] at hwritten
  · next hbeside =>
    apply h.kept
    rintro k hk rfl
    exact hbeside (between_of_slot hk)

theorem mem {x : Value} (h : w.Filled steps content before after) (hx : x ∈ after) :
    x ∈ before ∨ ∃ k < steps, x = content k := by
  obtain ⟨i, hi⟩ := List.mem_iff_getElem?.mp hx
  rcases w.slot_cases steps i with ⟨k, hk, rfl⟩ | hslot
  · rw [h.written k hk] at hi
    exact Or.inr ⟨k, hk, (Option.some.inj hi).symm⟩
  · rw [h.kept i hslot] at hi
    exact Or.inl (List.mem_of_getElem? hi)

end Filled

/-- A loop whose source gives each position its content fills the positions with the contents. -/
theorem filled_afterSteps {content : Nat → Value} {steps : Nat}
    (hsource : ∀ k < w.reach elements.length, ∀ current,
      w.Filled k content elements current → source k current = content k)
    (hsteps : steps ≤ w.reach elements.length) :
    w.Filled steps content elements (w.afterSteps source elements steps) := by
  induction steps with
  | zero => exact Filled.zero w content elements
  | succ steps ih =>
    have hfilled := ih (by omega)
    rw [afterSteps, hsource steps hsteps _ hfilled]
    exact hfilled.succ hsteps

end DocQuery.Walk
