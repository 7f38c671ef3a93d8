/-!
# Fields

The fields of an object are a list of keys with what they stand for; `List.lookup` finds what a key
stands for.  There are two ways to add a field, and both leave every key at most once in the list:
`Fields.put` keeps the fields in the order in which their keys first came (`keys_put`), and
`Fields.insert` keeps them in increasing order of their keys, which is the order of their code
points (`pairwise_keys_insert`).

`Fields.ofList` puts the fields of any list one after the other.  No key comes twice in what it
gives (`nodup_keys_ofList`), each key stands for its last value in the list (`lookup_ofList`), and
there are no other fields than those of the list (`mem_of_mem_ofList`).
-/

namespace DocQuery.Fields

variable {α : Type}

/-- Makes `key` stand for `x`: where the key is, or at the end when it is new. -/
def put (key : String) (x : α) : List (String × α) → List (String × α)
  | [] => [(key, x)]
  | (k, y) :: rest => if k = key then (key, x) :: rest else (k, y) :: put key x rest

/-- Makes `key` stand for `x` among fields whose keys increase. -/
def insert (key : String) (x : α) : List (String × α) → List (String × α)
  | [] => [(key, x)]
  | (k, y) :: rest =>
    if key < k then (key, x) :: (k, y) :: rest
    else if key = k then (key, x) :: rest
    else (k, y) :: insert key x rest

/-- The fields of a list, each key once and where it first came, with what it last stands for. -/
def ofList (fields : List (String × α)) : List (String × α) :=
  fields.foldl (fun before (key, x) => put key x before) []

def keys (fields : List (String × α)) : List String :=
  fields.map Prod.fst

/-! ### What a key stands for -/

theorem lookup_cons (k key : String) (x : α) (rest : List (String × α)) :
    List.lookup k ((key, x) :: rest) = if k = key then some x else rest.lookup k := by
  rw [List.lookup_cons]
  by_cases h : k = key
  · simp [h]
  · have hne : (k == key) = false := by simpa using h
    simp [h, hne]

/-- After `put`, the key stands for the new value and every other key for what it did. -/
theorem lookup_put (key k : String) (x : α) (fields : List (String × α)) :
    (put key x fields).lookup k = if k = key then some x else fields.lookup k := by
  induction fields with
  | nil => simp [put, lookup_cons]
  | cons field rest ih =>
    obtain ⟨k', y⟩ := field
    simp only [put]
    split <;> simp only [lookup_cons, ih] <;> grind

/-- In a map made from a list, a key stands for the last of its values there. -/
theorem lookup_ofList (k : String) (fields : List (String × α)) :
    (ofList fields).lookup k = fields.reverse.lookup k := by
  -- the fields that are there before come behind those of the list
  suffices h : ∀ before : List (String × α),
      (fields.foldl (fun before (key, x) => put key x before) before).lookup k =
        (fields.reverse ++ before).lookup k by
    rw [ofList, h [], List.append_nil]
  induction fields with
  | nil => exact fun _ => rfl
  | cons field rest ih =>
    intro before
    rw [List.foldl_cons, ih, List.reverse_cons, List.append_assoc, List.lookup_append,
      List.lookup_append, lookup_put, List.singleton_append, lookup_cons]

theorem mem_of_mem_put {key : String} {x : α} {field : String × α} {fields : List (String × α)}
    (h : field ∈ put key x fields) : field = (key, x) ∨ field ∈ fields := by
  induction fields with
  | nil => exact Or.inl (List.mem_singleton.mp h)
  | cons first rest ih =>
    obtain ⟨k, y⟩ := first
    simp only [put] at h
    split at h <;> grind

/-- A map made from a list has no other fields than the list. -/
theorem mem_of_mem_ofList {field : String × α} {fields : List (String × α)}
    (h : field ∈ ofList fields) : field ∈ fields := by
  refine List.foldlRecOn (motive := fun before => ∀ field ∈ before, field ∈ fields) fields _
    (fun _ h => absurd h List.not_mem_nil) ?_ field h
  intro before hbefore added hadded field hfield
  rcases mem_of_mem_put hfield with rfl | hfield
  · exact hadded
  · exact hbefore field hfield

/-! ### The keys -/

theorem keys_cons (field : String × α) (rest : List (String × α)) :
    keys (field :: rest) = field.1 :: keys rest :=
  rfl

/-- `put` leaves the keys as they are, with the key at the end when it is new. -/
theorem keys_put (key : String) (x : α) (fields : List (String × α)) :
    keys (put key x fields) =
      if key ∈ keys fields then keys fields else keys fields ++ [key] := by
  induction fields with
  | nil => rfl
  | cons field rest ih =>
    obtain ⟨k, y⟩ := field
    rw [put]
    split
    · next hk => simp [keys_cons, hk]
    · next hk =>
      have hmem : key ∈ k :: keys rest ↔ key ∈ keys rest := by simp [Ne.symm hk]
      simp only [keys_cons, hmem, ih]
      split <;> rfl

theorem nodup_keys_put (key : String) (x : α) {fields : List (String × α)}
    (h : (keys fields).Nodup) : (keys (put key x fields)).Nodup := by
  rw [keys_put]
  split
  · exact h
  · next hnew =>
    rw [List.nodup_append]
    refine ⟨h, List.pairwise_singleton _ key, ?_⟩
    rintro k hk _ hkey rfl
    exact hnew (List.mem_singleton.mp hkey ▸ hk)

theorem nodup_keys_ofList (fields : List (String × α)) : (keys (ofList fields)).Nodup :=
  List.foldlRecOn (motive := fun before => (keys before).Nodup) fields _ List.nodup_nil
    fun _ h field _ => nodup_keys_put field.1 field.2 h

theorem mem_keys_insert (key k : String) (x : α) (fields : List (String × α)) :
    k ∈ keys (insert key x fields) ↔ k = key ∨ k ∈ keys fields := by
  induction fields with
  | nil => simp [insert, keys]
  | cons field rest ih =>
    simp only [insert]
    split
    · simp [keys]
    · split
      · next hk => simp [keys, hk]
      · rw [keys_cons, keys_cons, List.mem_cons, List.mem_cons, ih]
        exact or_left_comm

/-- Inserting a field among fields whose keys increase leaves the keys increasing. -/
theorem pairwise_keys_insert (key : String) (x : α) {fields : List (String × α)}
    (h : (keys fields).Pairwise (· < ·)) : (keys (insert key x fields)).Pairwise (· < ·) := by
  induction fields with
  | nil => simp [insert, keys]
  | cons field rest ih =>
    rw [keys_cons, List.pairwise_cons] at h
    simp only [insert]
    repeat' split
    · next hlt =>
      simp only [keys_cons, List.pairwise_cons, List.mem_cons]
      refine ⟨?_, h.1, h.2⟩
      rintro k (rfl | hk)
      · exact hlt
      · exact String.lt_trans hlt (h.1 k hk)
    · next hlt heq => subst heq; simpa [keys] using h
    · next hlt hne =>
      have hgt : field.1 < key := Std.lt_of_le_of_ne (String.not_lt.1 hlt) (Ne.symm hne)
      rw [keys_cons, List.pairwise_cons]
      refine ⟨fun k hk => ?_, ih h.2⟩
      rcases (mem_keys_insert key k x rest).1 hk with rfl | hk
      · exact hgt
      · exact h.1 k hk

end DocQuery.Fields
