import DocQuery.Proofs.Json.Region
import DocQuery.Proofs.Value.Json

/-!
# Documents through JSON text and back

The text of a document, in either layout, says the JSON tree of the document, and no more
(`Value.ofText?_compact`, `Value.ofText?_indented`).  With what is known of trees this makes reading
undo writing, up to the numbers that are not finite (`Value.text_round_trip`).

That a number is read from its digits is part of this.  It rests on the digits of a binary64 number
reading back (`Binary64.toMagnitude_shortest`), and on the reader telling all of them apart
(`Binary64.length_digits_shortest`).

The two texts are the same but for spaces and line ends outside strings
(`Value.texts_differ_in_gaps`).
-/

namespace DocQuery.Value

theorem ofText?_compact (v : Value) : ofText? v.compact = some (ofJson v.toJson) := by
  rw [ofText?, compact, Json.ofText?_compact (keysIncrease_toJson v), Option.map_some]

theorem ofText?_indented (v : Value) : ofText? v.indented = some (ofJson v.toJson) := by
  rw [ofText?, indented, Json.ofText?_indented (keysIncrease_toJson v), Option.map_some]

/-- **Reading undoes writing.**  From either text of a document the document is read with null in
place of each number that is not finite and nothing else changed, and what was read has the same
texts again. -/
theorem text_round_trip (v : Value) :
    ∃ w, ofText? v.compact = some w ∧ ofText? v.indented = some w ∧
      w.KeysDistinct ∧ w.Alike v.finitePart ∧
      w.compact = v.compact ∧ w.indented = v.indented := by
  refine ⟨ofJson v.toJson, ofText?_compact v, ofText?_indented v, ?_, alike_ofJson_toJson v, ?_, ?_⟩
  · exact keysDistinct_ofJson (keysIncrease_toJson v)
  · rw [compact, compact, toJson_ofJson_toJson]
  · rw [indented, indented, toJson_ofJson_toJson]

/-- **The two texts of a document differ in gaps only.**  Without the spaces and line ends outside
its strings, the text with a line for each element and field is the text without blanks, and what
the two have in their strings is the same. -/
theorem texts_differ_in_gaps (v : Value) :
    Json.squeeze v.indented.toList = v.compact.toList ∧
      Json.quotedPart v.indented.toList = Json.quotedPart v.compact.toList :=
  ⟨v.toJson.squeeze_indented, v.toJson.quotedPart_indented⟩

end DocQuery.Value
