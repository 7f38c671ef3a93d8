import DocQuery.Json.Layout
import DocQuery.Proofs.Json.Token
import DocQuery.Proofs.Json.Tree
import Mathlib.Data.List.Chain

/-!
# Trees from their texts

A tree is read from its text in either layout (`Json.ofText?_compact`, `Json.ofText?_indented`), as
both spell its tokens (`Json.spells_flatMap_text`, `Json.spells_spaced`).  Where a layout puts no gap
this needs that no two words stand side by side among the tokens of a tree
(`Json.wordsApart_tokens`).
-/

namespace DocQuery.Json

open Token

/-! ### Words stand apart -/

/-- No two words stand side by side. -/
def WordsApart (tokens : List Token) : Prop :=
  tokens.IsChain fun t next => t.isWord = true → next.isWord = false

theorem WordsApart.cons {t : Token} {tokens : List Token} (ht : t.isWord = false)
    (h : WordsApart tokens) : WordsApart (t :: tokens) := by
  refine List.isChain_cons.mpr ⟨fun next _ hword => ?_, h⟩
  rw [ht] at hword
  cases hword

/-- Tokens that may stand behind a word. -/
structure MayFollow (tokens : List Token) : Prop where
  apart : WordsApart tokens
  first : ∀ t ∈ tokens.head?, t.isWord = false

theorem MayFollow.cons {t : Token} {tokens : List Token} (ht : t.isWord = false)
    (h : WordsApart tokens) : MayFollow (t :: tokens) where
  apart := h.cons ht
  first := by
    intro first hfirst
    obtain rfl := Option.some.inj hfirst
    exact ht

/-- The tokens of a tree keep words apart, in front of tokens that may stand behind a word too. -/
def KeepsApart (j : Json) : Prop :=
  ∀ rest, MayFollow rest → WordsApart (j.tokens ++ rest)

theorem mayFollow_elementTokens {elements : List Json} (h : ∀ j ∈ elements, j.KeepsApart)
    {rest : List Token} (hrest : WordsApart rest) : MayFollow (elementTokens elements ++ rest) := by
  induction elements with
  | nil => exact .cons rfl hrest
  | cons j elements ih =>
    obtain ⟨hj, helements⟩ := List.forall_mem_cons.mp h
    rw [elementTokens, List.cons_append, List.append_assoc]
    exact .cons rfl (hj _ (ih helements))

theorem mayFollow_fieldTokens {fields : List (String × Json)}
    (h : ∀ field ∈ fields, field.2.KeepsApart) {rest : List Token} (hrest : WordsApart rest) :
    MayFollow (fieldTokens fields ++ rest) := by
  induction fields with
  | nil => exact .cons rfl hrest
  | cons field fields ih =>
    obtain ⟨hj, hfields⟩ := List.forall_mem_cons.mp h
    rw [fieldTokens, List.cons_append, List.cons_append, List.cons_append, List.append_assoc]
    exact .cons rfl (((hj _ (ih hfields)).cons rfl).cons rfl)

theorem keepsApart (j : Json) : j.KeepsApart := by
  induction j with
  | null | boolean | number | string =>
    intro rest hrest
    exact List.isChain_cons.mpr ⟨fun next hnext _ => hrest.first next hnext, hrest.apart⟩
  | array elements ih =>
    intro rest hrest
    cases elements with
    | nil => exact (hrest.apart.cons rfl).cons rfl
    | cons j elements =>
      obtain ⟨hj, helements⟩ := List.forall_mem_cons.mp ih
      rw [tokens, List.cons_append, List.append_assoc]
      exact (hj _ (mayFollow_elementTokens helements hrest.apart)).cons rfl
  | object fields ih =>
    intro rest hrest
    cases fields with
    | nil => exact (hrest.apart.cons rfl).cons rfl
    | cons field fields =>
      obtain ⟨hj, hfields⟩ := List.forall_mem_cons.mp ih
      rw [tokens, List.cons_append, List.cons_append, List.cons_append, List.append_assoc]
      exact (((hj _ (mayFollow_fieldTokens hfields hrest.apart)).cons rfl).cons rfl).cons rfl

theorem wordsApart_tokens (j : Json) : WordsApart j.tokens := by
  have happart := j.keepsApart [] ⟨.nil, nofun⟩
  rwa [List.append_nil] at happart

/-! ### Layouts -/

theorem spells_flatMap_text {tokens : List Token} (h : WordsApart tokens) :
    Spells (tokens.flatMap text) tokens := by
  induction tokens with
  | nil => exact .nil
  | cons t tokens ih =>
    obtain ⟨hnext, hrest⟩ := List.isChain_cons.mp h
    have hspells : Spells (t.text ++ [] ++ tokens.flatMap text) (t :: tokens) :=
      Spells.cons nofun hnext (ih hrest)
    rwa [List.append_nil] at hspells

theorem eq_space_or_newLine_of_mem_gap {depth : Nat} {t next : Token} {c : Char}
    (h : c ∈ Layout.gap depth t next) : c = ' ' ∨ c = '\n' := by
  have hline : ∀ depth, ∀ c ∈ Layout.newLine depth, c = ' ' ∨ c = '\n' := by
    intro depth c hc
    rcases List.mem_cons.mp hc with rfl | hc
    · exact Or.inr rfl
    · exact Or.inl (List.mem_replicate.mp hc).2
  unfold Layout.gap at h
  repeat' split at h
  · cases h
  · exact hline _ c h
  · exact hline _ c h
  · exact hline _ c h
  · exact Or.inl (List.mem_singleton.mp h)
  · cases h

theorem isBlank_of_mem_gap {depth : Nat} {t next : Token} {c : Char}
    (h : c ∈ Layout.gap depth t next) : isBlank c = true := by
  rcases eq_space_or_newLine_of_mem_gap h with rfl | rfl <;> rfl

theorem spells_spaced (depth : Nat) {tokens : List Token} (h : WordsApart tokens) :
    Spells (Layout.spaced depth tokens) tokens := by
  induction tokens generalizing depth with
  | nil => exact .nil
  | cons t tokens ih =>
    obtain ⟨hnext, hrest⟩ := List.isChain_cons.mp h
    cases tokens with
    | nil =>
      have hspells : Spells (t.text ++ [] ++ []) [t] :=
        Spells.cons nofun hnext .nil
      rwa [List.append_nil, List.append_nil] at hspells
    | cons next rest => exact Spells.cons (fun _ => isBlank_of_mem_gap) hnext (ih _ hrest)

/-! ### Reading -/

theorem ofText?_of_spells {text : String} {j : Json} (h : Spells text.toList j.tokens)
    (hkeys : j.KeysIncrease) : ofText? text = some j := by
  rw [ofText?, scan?_of_spells h, Option.bind_some, ofTokens?_tokens hkeys]

/-- A tree is read from its text without blanks. -/
theorem ofText?_compact {j : Json} (h : j.KeysIncrease) : ofText? j.compact = some j := by
  apply ofText?_of_spells _ h
  rw [compact, String.toList_ofList]
  exact spells_flatMap_text j.wordsApart_tokens

/-- A tree is read from its text with a line for each element and field. -/
theorem ofText?_indented {j : Json} (h : j.KeysIncrease) : ofText? j.indented = some j := by
  apply ofText?_of_spells _ h
  rw [indented, String.toList_ofList]
  exact spells_spaced 0 j.wordsApart_tokens

end DocQuery.Json
