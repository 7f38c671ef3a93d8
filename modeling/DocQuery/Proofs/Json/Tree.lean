import DocQuery.Json.Reader
import DocQuery.Proofs.Parts

/-!
# Trees from their tokens

The tokens of a tree lead the reader from a state that expects a tree to the state in which this tree
has ended, with the same arrays and objects open as before (`Json.readsBack`).  So a tree is read from
its tokens (`Json.ofTokens?_tokens`).  The keys of its objects have to increase, as the reader puts
the fields that it meets in this order.
-/

namespace DocQuery.Json

open State

/-- The tokens of a tree lead the reader to the end of this tree, whatever is open around it. -/
def ReadsBack (j : Json) : Prop :=
  ∀ frames, j.tokens.foldlM step? (tree frames) = some (ended j frames)

theorem foldlM_cons_of_step? {s s' : State} {token : Token} (h : step? s token = some s')
    (rest : List Token) : (token :: rest).foldlM step? s = rest.foldlM step? s' := by
  rw [List.foldlM_cons, h]
  rfl

theorem ReadsBack.foldlM_append {j : Json} (h : j.ReadsBack) (frames : List Frame)
    (rest : List Token) :
    (j.tokens ++ rest).foldlM step? (tree frames) = rest.foldlM step? (ended j frames) := by
  rw [List.foldlM_append, h frames]
  rfl

/-! ### Arrays -/

/-- The first element of an array is read as any other. -/
theorem foldlM_arrayStart (j : Json) (frames : List Frame) (rest : List Token) :
    (j.tokens ++ rest).foldlM step? (arrayStart frames) =
      (j.tokens ++ rest).foldlM step? (tree (.array [] :: frames)) := by
  cases j with
  | array elements => cases elements <;> rfl
  | object fields => cases fields <;> rfl
  | null | boolean | number | string => rfl

theorem foldlM_elementTokens {elements : List Json} (h : ∀ j ∈ elements, j.ReadsBack) (j : Json)
    (before : List Json) (frames : List Frame) :
    (elementTokens elements).foldlM step? (ended j (.array before :: frames)) =
      some (ended (array ((j :: before).reverse ++ elements)) frames) := by
  induction elements generalizing j before with
  | nil =>
    rw [elementTokens, foldlM_cons_of_step? rfl, List.append_nil]
    rfl
  | cons next rest ih =>
    have hnext : next.ReadsBack := h next List.mem_cons_self
    have hrest := ih (fun j hj => h j (List.mem_cons_of_mem next hj)) next (j :: before)
    rw [elementTokens, foldlM_cons_of_step? rfl, hnext.foldlM_append, hrest]
    simp

/-! ### Objects -/

theorem foldlM_fieldTokens {fields : List (String × Json)}
    (h : ∀ field ∈ fields, field.2.ReadsBack) (key : String) (j : Json)
    (before : List (String × Json)) (frames : List Frame)
    (hkeys : (Fields.keys (before ++ (key, j) :: fields)).Pairwise (· < ·)) :
    (fieldTokens fields).foldlM step? (ended j (.object before key :: frames)) =
      some (ended (object (before ++ (key, j) :: fields)) frames) := by
  induction fields generalizing key j before with
  | nil =>
    rw [fieldTokens, foldlM_cons_of_step? rfl, Fields.insert_last hkeys]
    rfl
  | cons field rest ih =>
    obtain ⟨hnext, hparts⟩ := List.forall_mem_cons.mp h
    have hrest := ih hparts field.1 field.2 (before ++ [(key, j)]) (by simpa using hkeys)
    rw [fieldTokens, foldlM_cons_of_step? rfl, foldlM_cons_of_step? rfl, foldlM_cons_of_step? rfl,
      hnext.foldlM_append, Fields.insert_last hkeys, hrest]
    simp

/-! ### Trees -/

theorem readsBack {j : Json} (h : j.KeysIncrease) : j.ReadsBack := by
  induction j with
  | null | boolean | number | string => exact fun _ => rfl
  | array elements ih =>
    intro frames
    rw [KeysIncrease, elementsKeysIncrease_iff] at h
    cases elements with
    | nil => rfl
    | cons first rest =>
      -- the first element is run with the array around it, then the others one after another
      obtain ⟨hfirst, hrest⟩ := List.forall_mem_cons.mp fun j hj => ih j hj (h j hj)
      rw [tokens, foldlM_cons_of_step? rfl, foldlM_arrayStart, hfirst.foldlM_append,
        foldlM_elementTokens hrest]
      rfl
  | object fields ih =>
    intro frames
    rw [KeysIncrease, fieldsKeysIncrease_iff] at h
    cases fields with
    | nil => rfl
    | cons field rest =>
      obtain ⟨hfirst, hrest⟩ := List.forall_mem_cons.mp fun field hfield =>
        ih field hfield (h.2 field hfield)
      rw [tokens, foldlM_cons_of_step? rfl, foldlM_cons_of_step? rfl, foldlM_cons_of_step? rfl,
        hfirst.foldlM_append, foldlM_fieldTokens hrest field.1 field.2 [] frames h.1]
      rfl

/-- A tree is read from its tokens. -/
theorem ofTokens?_tokens {j : Json} (h : j.KeysIncrease) : ofTokens? j.tokens = some j := by
  rw [ofTokens?, readsBack h []]
  rfl

end DocQuery.Json
