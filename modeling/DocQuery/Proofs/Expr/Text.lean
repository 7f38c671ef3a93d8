import DocQuery.Expr.Basic
import DocQuery.Proofs.Digits

/-!
# What is known from a text

The texts of selectors are a code in which no word begins another (`Selector.text_append_inj`): the
closing bracket stands at the end of a text and nowhere else, and what stands in front of it says
which indices the selector has (`Selector.body_inj`).  A star stands for the whole array and for
nothing else, a colon in no text but that of a range, and between these marks there are integers,
which are known by their digits.

So a run of selectors is known from the text that rendering them one after another leaves behind
whatever the buffer held (`Expr.render_uniquely_decodable`).  A diagnostic may be any text, that of a
selector included, and two expressions are the same when their kinds and their texts are.
-/

namespace DocQuery

/-- A list is split in one way at the first place of a mark. -/
theorem append_cons_inj {α : Type} {mark : α} {front front' behind behind' : List α}
    (hfront : mark ∉ front) (hfront' : mark ∉ front')
    (h : front ++ mark :: behind = front' ++ mark :: behind') :
    front = front' ∧ behind = behind' := by
  induction front generalizing front' with
  | nil =>
    cases front' with
    | nil => exact ⟨rfl, (List.cons.inj h).2⟩
    | cons c rest => exact absurd (List.cons.inj h).1 (List.ne_of_not_mem_cons hfront')
  | cons c rest ih =>
    cases front' with
    | nil => exact absurd (List.cons.inj h).1.symm (List.ne_of_not_mem_cons hfront)
    | cons d rest' =>
      obtain ⟨rfl, htail⟩ := List.cons.inj h
      obtain ⟨rfl, hbehind⟩ := ih (List.not_mem_of_not_mem_cons hfront)
        (List.not_mem_of_not_mem_cons hfront') htail
      exact ⟨rfl, hbehind⟩

namespace Selector

variable {s t : Selector}

/-! ### The three forms -/

theorem body_of_isAll (hall : s.isAll = true) : s.body = ['*'] :=
  if_pos hall

theorem body_of_isRange (hall : s.isAll = false) (hrange : s.isRange = true) :
    s.body = Digits.ofInt s.start.toInt ++ ':' :: Digits.ofInt s.stop.toInt := by
  rw [body, hall, hrange]
  rfl

theorem body_of_index (hall : s.isAll = false) (hrange : s.isRange = false) :
    s.body = Digits.ofInt s.start.toInt := by
  rw [body, hall, hrange]
  rfl

/-- Of an array that is not taken whole, integers and a colon are all that is written. -/
theorem not_mem_body (mark : Char) (hmark : mark.isDigit = false ∧ mark ≠ '-')
    (hcolon : mark ≠ ':') (hall : s.isAll = false) : mark ∉ s.body := by
  have hmem := Digits.not_mem_ofInt mark hmark
  rcases Bool.eq_false_or_eq_true s.isRange with hrange | hindex
  · rw [body_of_isRange hall hrange, List.mem_append, List.mem_cons]
    rintro (h | h | h)
    · exact hmem _ h
    · exact hcolon h
    · exact hmem _ h
  · rw [body_of_index hall hindex]
    exact hmem _

theorem star_mem_body_iff : '*' ∈ s.body ↔ s.isAll = true := by
  constructor
  · intro h
    by_contra hall
    exact not_mem_body '*' (by decide) (by decide) (Bool.not_eq_true _ ▸ hall) h
  · intro hall
    rw [body_of_isAll hall]
    exact List.mem_cons_self

theorem colon_mem_body_iff (hall : s.isAll = false) : ':' ∈ s.body ↔ s.isRange = true := by
  constructor
  · intro h
    by_contra hindex
    rw [body_of_index hall (Bool.not_eq_true _ ▸ hindex)] at h
    exact Digits.not_mem_ofInt ':' (by decide) _ h
  · intro hrange
    rw [body_of_isRange hall hrange]
    exact List.mem_append_right _ List.mem_cons_self

theorem bracket_not_mem_body (s : Selector) : ']' ∉ s.body := by
  rcases Bool.eq_false_or_eq_true s.isAll with hall | hall
  · rw [body_of_isAll hall]
    decide
  · exact not_mem_body ']' (by decide) (by decide) hall

/-! ### Selectors from their texts -/

/-- What stands between the brackets is different for different selectors. -/
theorem body_inj (h : s.body = t.body) : s = t := by
  have hform : s.isAll = t.isAll := by
    rw [Bool.eq_iff_iff, ← star_mem_body_iff, ← star_mem_body_iff, h]
  rcases Bool.eq_false_or_eq_true s.isAll with hall | hall
  · have hall' : t.isAll = true := hform ▸ hall
    rw [isAll_iff_eq_all.mp hall, isAll_iff_eq_all.mp hall']
  · have hall' : t.isAll = false := hform ▸ hall
    have hform' : s.isRange = t.isRange := by
      rw [Bool.eq_iff_iff, ← colon_mem_body_iff hall, ← colon_mem_body_iff hall', h]
    rcases Bool.eq_false_or_eq_true s.isRange with hrange | hindex
    · -- there is one colon, which tells the two integers apart
      have hrange' : t.isRange = true := hform' ▸ hrange
      have hcolon := Digits.not_mem_ofInt ':' (by decide)
      rw [body_of_isRange hall hrange, body_of_isRange hall' hrange',
        List.append_cons_inj_of_notMem (hcolon _) (hcolon _)] at h
      obtain ⟨hstart, -, hstop⟩ := h
      have hstart := Int64.toInt_inj.mp (Digits.ofInt_inj hstart)
      have hstop := Int64.toInt_inj.mp (Digits.ofInt_inj hstop)
      show mk s.start s.stop = mk t.start t.stop
      rw [hstart, hstop]
    · have hindex' : t.isRange = false := hform' ▸ hindex
      rw [body_of_index hall hindex, body_of_index hall' hindex'] at h
      have hstart := Int64.toInt_inj.mp (Digits.ofInt_inj h)
      show mk s.start s.stop = mk t.start t.stop
      rw [← isRange_eq_false_iff.mp hindex, ← isRange_eq_false_iff.mp hindex', hstart]

theorem toList_text (s : Selector) : s.text.toList = '[' :: (s.body ++ [']']) :=
  String.toList_ofList

/-- No text of a selector begins another one, whatever comes behind the two. -/
theorem text_append_inj {behind behind' : List Char}
    (h : s.text.toList ++ behind = t.text.toList ++ behind') : s = t ∧ behind = behind' := by
  rw [toList_text, toList_text, List.cons_append, List.cons_append, List.append_assoc,
    List.append_assoc] at h
  obtain ⟨hbody, hbehind⟩ := append_cons_inj (bracket_not_mem_body s) (bracket_not_mem_body t)
    (List.cons.inj h).2
  exact ⟨body_inj hbody, hbehind⟩

theorem text_inj (h : s.text = t.text) : s = t := by
  have htexts : s.text.toList ++ [] = t.text.toList ++ [] := by rw [h]
  exact (text_append_inj htexts).1

/-- A run of selectors is known from their texts one behind the other. -/
theorem flatMap_text_inj {selectors others : List Selector}
    (h : selectors.flatMap (·.text.toList) = others.flatMap (·.text.toList)) :
    selectors = others := by
  -- on the first run: its first text is the first of the other run, and so for what follows
  induction selectors generalizing others with
  | nil =>
    cases others with
    | nil => rfl
    | cons t others => simp [toList_text] at h
  | cons s selectors ih =>
    cases others with
    | nil => simp [toList_text] at h
    | cons t others =>
      rw [List.flatMap_cons, List.flatMap_cons] at h
      obtain ⟨rfl, hrest⟩ := text_append_inj h
      rw [ih hrest]

end Selector

namespace Expr

/-- Rendering appends the texts, one behind the other, to what the buffer held. -/
theorem foldl_render (exprs : List Expr) (buffer : String) :
    exprs.foldl render buffer = buffer ++ String.join (exprs.map text) := by
  induction exprs generalizing buffer with
  | nil => exact (String.append_empty).symm
  | cons e rest ih =>
    rw [List.foldl_cons, ih, List.map_cons, String.join_cons, ← String.append_assoc]
    rfl

theorem eq_of_kind_of_text {e f : Expr} (hkind : e.kind = f.kind) (htext : e.text = f.text) :
    e = f := by
  cases e with
  | select s =>
    cases f with
    | select t => rw [Selector.text_inj htext]
    | unevaluable diagnostic => cases hkind
  | unevaluable diagnostic =>
    cases f with
    | select t => cases hkind
    | unevaluable other => exact congrArg unevaluable htext

/-- **Canonical text is uniquely decodable.**  Rendering expressions one after another appends to the
buffer what their texts are and leaves alone what the buffer held.  Two runs of selectors that are
rendered into the same buffer give the same text only if they are the same run.  And an expression is
known from its kind and its text, which is what it renders into an empty buffer. -/
theorem render_uniquely_decodable :
    (∀ (exprs : List Expr) (buffer : String),
      exprs.foldl render buffer = buffer ++ String.join (exprs.map text)) ∧
    (∀ (selectors others : List Selector) (buffer : String),
      (selectors.map select).foldl render buffer = (others.map select).foldl render buffer ↔
        selectors = others) ∧
    (∀ e f : Expr, e = f ↔ e.kind = f.kind ∧ e.render "" = f.render "") := by
  refine ⟨foldl_render, fun selectors others buffer => ⟨fun h => ?_, fun h => by rw [h]⟩,
    fun e f => ⟨fun h => by rw [h]; exact ⟨rfl, rfl⟩, fun h => ?_⟩⟩
  · rw [foldl_render, foldl_render, String.append_right_inj, List.map_map, List.map_map] at h
    have htexts := congrArg String.toList h
    rw [String.toList_join, String.toList_join, List.flatMap_map, List.flatMap_map] at htexts
    exact Selector.flatMap_text_inj htexts
  · rw [render, render, String.append_right_inj] at h
    exact eq_of_kind_of_text h.1 h.2

end Expr

end DocQuery
