import Mathlib.Data.List.Basic

/-!
# Labels of the NoC topology bar chart

`src/tools/render_noc_topology_cycles_svg.py` draws the total cycles of each
NoC topology of a results file as an SVG bar chart.  Its labels go through
`_escape` before they are put between tags.  The geometry of the chart is
float arithmetic, and it, the file reading and the text of the SVG are not
modelled.

* `escape_eq`: the five `str.replace` calls of `_escape` act on each
  character on its own, since no replacement text holds a character that a
  later call replaces.
* `escape_roundTrip`: decoding the five entities gives back the label, and
  the escaped text holds no `<`, `>`, `"` or `'`.
-/

namespace UPIMulator.Report.NocChart

/-! ## `_escape` -/

/-- `"`, written by its code point. -/
def quoteChar : Char := Char.ofNat 34

/-- `'`, written by its code point. -/
def apostropheChar : Char := Char.ofNat 39

/-- `text.replace(old, new)` for a one-character `old`: each occurrence is
replaced. -/
def replaceChar (text : List Char) (old : Char) (new : List Char) : List Char :=
  text.flatMap fun c => if c = old then new else [c]

/-- `_escape(text)`. -/
def escape (text : String) : String :=
  ⟨replaceChar (replaceChar (replaceChar (replaceChar (replaceChar text.data
    '&' "&amp;".data) '<' "&lt;".data) '>' "&gt;".data) quoteChar "&quot;".data)
    apostropheChar "&#39;".data⟩

/-- The escaped form of one character. -/
def escapeChar (c : Char) : List Char :=
  if c = '&' then "&amp;".data
  else if c = '<' then "&lt;".data
  else if c = '>' then "&gt;".data
  else if c = quoteChar then "&quot;".data
  else if c = apostropheChar then "&#39;".data
  else [c]

/-- The five replacements escape each character on its own. -/
theorem escape_eq (text : String) : (escape text).data = text.data.flatMap escapeChar := by
  simp only [escape, replaceChar, List.flatMap_assoc]
  congr 1
  funext c
  by_cases h₁ : c = '&'
  · subst h₁; decide
  by_cases h₂ : c = '<'
  · subst h₂; decide
  by_cases h₃ : c = '>'
  · subst h₃; decide
  by_cases h₄ : c = quoteChar
  · subst h₄; decide
  by_cases h₅ : c = apostropheChar
  · subst h₅; decide
  simp [escapeChar, h₁, h₂, h₃, h₄, h₅]

/-- The five entities that `_escape` writes, each after its character. -/
def entities : List (Char × List Char) :=
  [('&', "&amp;".data), ('<', "&lt;".data), ('>', "&gt;".data), (quoteChar, "&quot;".data),
    (apostropheChar, "&#39;".data)]

theorem length_pos_of_mem_entities {e : Char × List Char} (he : e ∈ entities) :
    0 < e.2.length := by
  revert e; decide

/-- Decoding the five entities as an XML reader does: an entity at the front
of the text is replaced by its character. -/
def unescapeChars (text : List Char) : List Char :=
  match text with
  | [] => []
  | c :: rest =>
    match h : entities.find? (fun e => e.2.isPrefixOf (c :: rest)) with
    | some e =>
      have : 0 < e.2.length := length_pos_of_mem_entities (List.mem_of_find?_eq_some h)
      e.1 :: unescapeChars ((c :: rest).drop e.2.length)
    | none => c :: unescapeChars rest
termination_by text.length

/-- A character other than `&` is copied. -/
theorem unescapeChars_cons_of_ne {c : Char} (hc : c ≠ '&') (rest : List Char) :
    unescapeChars (c :: rest) = c :: unescapeChars rest := by
  have hnone : entities.find? (fun e => e.2.isPrefixOf (c :: rest)) = none := by
    simp [entities, List.find?, List.isPrefixOf, beq_false_of_ne (Ne.symm hc)]
  rw [unescapeChars.eq_2]
  split
  · rename_i h; rw [hnone] at h; cases h
  · rfl

/-- An entity at the front is decoded to its character. -/
theorem unescapeChars_entity {e : Char × List Char} (he : e ∈ entities) (rest : List Char) :
    unescapeChars (e.2 ++ rest) = e.1 :: unescapeChars rest := by
  have hfind : entities.find? (fun e' => e'.2.isPrefixOf (e.2 ++ rest)) = some e := by
    simp only [entities, List.mem_cons, List.mem_singleton, List.not_mem_nil, or_false] at he
    rcases he with rfl | rfl | rfl | rfl | rfl <;>
      simp [entities, List.find?, List.isPrefixOf, quoteChar, apostropheChar]
  obtain ⟨c, tail, hct⟩ : ∃ c tail, e.2 ++ rest = c :: tail :=
    List.exists_cons_of_ne_nil (by simp [List.ne_nil_of_length_pos (length_pos_of_mem_entities he)])
  rw [hct, unescapeChars.eq_2]
  split
  · rename_i h; rw [← hct, hfind] at h; cases h; dsimp only; rw [← hct, List.drop_left]
  · rename_i h; rw [← hct, hfind] at h; cases h

/-- A character escapes to its entity or to itself. -/
theorem escapeChar_cases (c : Char) :
    (∃ e ∈ entities, e.1 = c ∧ escapeChar c = e.2) ∨ (c ≠ '&' ∧ escapeChar c = [c]) := by
  unfold escapeChar
  split_ifs with h₁ h₂ h₃ h₄ h₅
  all_goals first
    | exact .inr ⟨h₁, rfl⟩
    | exact .inl ⟨(c, _), by subst_vars; simp [entities], rfl, rfl⟩

theorem unescapeChars_flatMap_escapeChar (text : List Char) :
    unescapeChars (text.flatMap escapeChar) = text := by
  induction text with
  | nil => simp [unescapeChars]
  | cons c text ih =>
    rw [List.flatMap_cons]
    rcases escapeChar_cases c with ⟨e, he, rfl, hesc⟩ | ⟨hc, hesc⟩
    · rw [hesc, unescapeChars_entity he, ih]
    · rw [hesc, List.singleton_append, unescapeChars_cons_of_ne hc, ih]

/-- No escaped character is a markup character. -/
theorem not_markup_of_mem_escapeChar {c d : Char} (hd : d ∈ escapeChar c) :
    d ≠ '<' ∧ d ≠ '>' ∧ d ≠ quoteChar ∧ d ≠ apostropheChar := by
  unfold escapeChar at hd
  split_ifs at hd with h₁ h₂ h₃ h₄ h₅
  all_goals first
    | (revert d; decide)
    | (simp only [List.mem_singleton] at hd; subst hd; exact ⟨h₂, h₃, h₄, h₅⟩)

/-- `_escape` can be undone, and its output holds no `<`, `>`, `"` or `'`:
a label cannot open or close a tag or an attribute. -/
theorem escape_roundTrip (text : String) :
    unescapeChars (escape text).data = text.data ∧
      ∀ c ∈ (escape text).data, c ≠ '<' ∧ c ≠ '>' ∧ c ≠ quoteChar ∧ c ≠ apostropheChar := by
  rw [escape_eq]
  refine ⟨unescapeChars_flatMap_escapeChar _, fun c hc => ?_⟩
  obtain ⟨d, -, hd⟩ := List.mem_flatMap.1 hc
  exact not_markup_of_mem_escapeChar hd

end UPIMulator.Report.NocChart
