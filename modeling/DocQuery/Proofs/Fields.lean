import DocQuery.Fields
import Mathlib.Data.List.Nodup
import Mathlib.Data.String.Basic

/-!
# Fields as maps

What a key stands for after fields were inserted (`Fields.lookup_insert`) or their values changed
(`Fields.lookup_map`), and the two places where an insertion is no search: in front of all keys
(`Fields.insert_eq_cons`) and behind them (`Fields.insert_eq_append`).  Fields in increasing order
of their keys are known from what the keys stand for (`Fields.ext_of_pairwise`).
-/

namespace DocQuery.Fields

variable {α β : Type}

/-! ### What a key stands for -/

/-- After `insert`, the key stands for the new value and every other key for what it did. -/
theorem lookup_insert (key k : String) (x : α) (fields : List (String × α)) :
    (insert key x fields).lookup k = if k = key then some x else fields.lookup k := by
  induction fields with
  | nil => simp [insert, lookup_cons]
  | cons field rest ih =>
    obtain ⟨k', y⟩ := field
    simp only [insert]
    repeat' split
    all_goals simp only [lookup_cons, ih]
    all_goals grind

theorem lookup_map (f : α → β) (key : String) (fields : List (String × α)) :
    (fields.map fun field => (field.1, f field.2)).lookup key = (fields.lookup key).map f := by
  induction fields with
  | nil => rfl
  | cons field rest ih =>
    rw [List.map_cons, lookup_cons, lookup_cons, ih]
    split <;> rfl

theorem keys_map (f : α → β) (fields : List (String × α)) :
    keys (fields.map fun field => (field.1, f field.2)) = keys fields := by
  rw [keys, List.map_map]
  rfl

theorem mem_of_lookup {key : String} {x : α} {fields : List (String × α)}
    (h : fields.lookup key = some x) : (key, x) ∈ fields := by
  obtain ⟨before, behind, rfl, -⟩ := List.lookup_eq_some_iff.mp h
  exact List.mem_append_right before List.mem_cons_self

/-- The keys of some fields are those that stand for something. -/
theorem mem_keys_iff {key : String} {fields : List (String × α)} :
    key ∈ keys fields ↔ ∃ x, fields.lookup key = some x := by
  induction fields with
  | nil => simp [keys]
  | cons field rest ih =>
    rw [keys_cons, List.mem_cons, lookup_cons, ih]
    split
    · next heq => simp [heq]
    · next hne => simp [hne]

/-- Where no key comes twice, each field is what its key stands for. -/
theorem lookup_of_mem {key : String} {x : α} {fields : List (String × α)}
    (hnodup : (keys fields).Nodup) (h : (key, x) ∈ fields) : fields.lookup key = some x := by
  induction fields with
  | nil => cases h
  | cons field rest ih =>
    rw [keys_cons, List.nodup_cons] at hnodup
    rw [lookup_cons]
    rcases List.mem_cons.mp h with heq | h
    · rw [← heq, if_pos rfl]
    · have hne : key ≠ field.1 := fun heq => hnodup.1 (heq ▸ List.mem_map_of_mem h)
      rw [if_neg hne]
      exact ih hnodup.2 h

theorem mem_of_mem_insert {key : String} {x : α} {field : String × α} {fields : List (String × α)}
    (h : field ∈ insert key x fields) : field = (key, x) ∨ field ∈ fields := by
  induction fields with
  | nil => exact Or.inl (List.mem_singleton.mp h)
  | cons first rest ih =>
    obtain ⟨k, y⟩ := first
    simp only [insert] at h
    repeat' split at h
    all_goals grind

/-! ### Insertion at an end -/

theorem insert_eq_cons {key : String} (x : α) {fields : List (String × α)}
    (h : ∀ k ∈ keys fields, key < k) : insert key x fields = (key, x) :: fields := by
  cases fields with
  | nil => rfl
  | cons field rest => rw [insert, if_pos (h field.1 (by simp [keys]))]

theorem insert_eq_append {key : String} (x : α) {fields : List (String × α)}
    (h : ∀ k ∈ keys fields, k < key) : insert key x fields = fields ++ [(key, x)] := by
  induction fields with
  | nil => rfl
  | cons field rest ih =>
    have hlt : field.1 < key := h field.1 (by simp [keys])
    have hrest : ∀ k ∈ keys rest, k < key := fun k hk => h k (List.mem_cons_of_mem _ hk)
    rw [insert, if_neg (String.lt_asymm hlt), if_neg (Ne.symm (String.ne_of_lt hlt)), ih hrest]
    rfl

/-- The field whose key is greater than all before it comes behind them. -/
theorem insert_last {key : String} {x : α} {before behind : List (String × α)}
    (h : (keys (before ++ (key, x) :: behind)).Pairwise (· < ·)) :
    insert key x before = before ++ [(key, x)] := by
  rw [keys, List.map_append, List.pairwise_append] at h
  exact insert_eq_append x fun k hk => h.2.2 k hk key (by simp)

/-! ### Increasing order -/

/-- Fields in increasing order of their keys are known from what each key stands for. -/
theorem ext_of_pairwise {fields others : List (String × α)}
    (h : (keys fields).Pairwise (· < ·)) (h' : (keys others).Pairwise (· < ·))
    (hlookup : ∀ key, fields.lookup key = others.lookup key) : fields = others := by
  have hnodup : (keys fields).Nodup := h.imp String.ne_of_lt
  have hnodup' : (keys others).Nodup := h'.imp String.ne_of_lt
  have hperm : fields.Perm others := by
    rw [List.perm_ext_iff_of_nodup (List.Nodup.of_map _ hnodup) (List.Nodup.of_map _ hnodup')]
    rintro ⟨key, x⟩
    constructor
    · intro hmem
      exact mem_of_lookup (by rw [← hlookup, lookup_of_mem hnodup hmem])
    · intro hmem
      exact mem_of_lookup (by rw [hlookup, lookup_of_mem hnodup' hmem])
  refine hperm.eq_of_pairwise (fun field other _ _ hlt hgt => ?_) (List.pairwise_map.mp h)
    (List.pairwise_map.mp h')
  exact absurd hgt (String.lt_asymm hlt)

/-- The order of the keys is that of their code points. -/
theorem codePoints_lt_of_lt {key next : String} (h : key < next) :
    key.toList.map Char.toNat < next.toList.map Char.toNat :=
  List.map_lt (fun _ _ hlt => hlt) (String.lt_iff_toList_lt.mp h)

end DocQuery.Fields
