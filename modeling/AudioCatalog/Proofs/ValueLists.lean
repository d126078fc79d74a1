import AudioCatalog.Proofs.PerformerText
import AudioCatalog.Proofs.TagNames

namespace AudioCatalog.Tag

open Text

def valueSeparators : List Char := [';', ',', '/', '|', '\x00']

theorem isValueSeparator_iff {c : Char} : isValueSeparator c = true ↔ c ∈ valueSeparators := by
  simp [isValueSeparator, valueSeparators, or_assoc]

theorem isValueSeparator_eq_false {c : Char} (h : c ∉ valueSeparators) :
    isValueSeparator c = false := by
  rwa [Bool.eq_false_iff, Ne, isValueSeparator_iff]

structure IsValue (value : String) : Prop where
  nonempty : value ≠ ""
  trimmed : trimmed value = value
  undivided : ∀ c ∈ value.toList, c ∉ valueSeparators

instance (value : String) : Decidable (IsValue value) :=
  decidable_of_iff (value ≠ "" ∧ Text.trimmed value = value ∧
      value.toList.all (fun c => c ∉ valueSeparators) = true)
    ⟨fun ⟨nonempty, trimmed, undivided⟩ => ⟨nonempty, trimmed, by simpa using undivided⟩,
      fun h => ⟨h.nonempty, h.trimmed, by simpa using h.undivided⟩⟩

def IsIdle (cs : List Char) : Prop := ∀ c ∈ cs, isBlank c = true ∨ c ∈ valueSeparators

instance (cs : List Char) : Decidable (IsIdle cs) :=
  decidable_of_iff (cs.all (fun c => isBlank c || c ∈ valueSeparators) = true) (by simp [IsIdle])

structure IsGap (cs : List Char) : Prop where
  idle : IsIdle cs
  divides : ∃ c ∈ cs, c ∈ valueSeparators

instance (cs : List Char) : Decidable (IsGap cs) :=
  decidable_of_iff (IsIdle cs ∧ cs.any (· ∈ valueSeparators) = true)
    ⟨fun ⟨idle, divides⟩ => ⟨idle, by simpa using divides⟩,
      fun h => ⟨h.idle, by simpa using h.divides⟩⟩

/-- The values stand in the text one after another, with gaps between them. -/
inductive Joins : List String → String → Prop
  | nil : Joins [] ""
  | single (value : String) : Joins [value] value
  | cons (value : String) {gap next text : String} {values : List String}
      (hgap : IsGap gap.toList) (h : Joins (next :: values) text) :
      Joins (value :: next :: values) (value ++ gap ++ text)

section Split

variable {cs gap idle : List Char} {c : Char}

theorem splitChars_append_cons (hc : c ∈ valueSeparators) (a b : List Char) :
    splitChars (a ++ c :: b) = splitChars a ++ splitChars b := by
  rw [splitChars, List.splitOnP_append_cons a b (isValueSeparator_iff.mpr hc), List.map_append,
    List.filter_append]
  rfl

theorem splitChars_of_undivided (h : ∀ c ∈ cs, c ∉ valueSeparators) :
    splitChars cs = if trim cs = [] then [] else [trim cs] := by
  rw [splitChars, List.splitOnP_eq_singleton fun c hc => isValueSeparator_eq_false (h c hc)]
  split_ifs with htrim <;> simp [htrim]

theorem not_mem_valueSeparators (h : isBlank c = true) : c ∉ valueSeparators := by
  have visible : valueSeparators.all (fun d => !isBlank d) = true := rfl
  intro hc
  have hnot := List.all_eq_true.mp visible c hc
  rw [h] at hnot
  cases hnot

theorem splitChars_blank_cons (hc : isBlank c = true) (cs : List Char) :
    splitChars (c :: cs) = splitChars cs := by
  have hnot := isValueSeparator_eq_false (not_mem_valueSeparators hc)
  obtain ⟨part, parts, hparts⟩ :=
    List.exists_cons_of_ne_nil (List.splitOnP_ne_nil isValueSeparator cs)
  have htrim : trim (c :: part) = trim part :=
    trim_blanks_append (List.forall_mem_singleton.mpr hc)
  rw [splitChars, splitChars, List.splitOnP_cons_eq_if_modifyHead, hnot, hparts]
  simp [htrim]

theorem splitChars_idle_append (h : IsIdle idle) : splitChars (idle ++ cs) = splitChars cs := by
  induction idle with
  | nil => rfl
  | cons c idle ih =>
      rw [IsIdle, List.forall_mem_cons] at h
      obtain ⟨hblank | hc, hidle⟩ := h
      · rw [List.cons_append, splitChars_blank_cons hblank, ih hidle]
      · calc splitChars (c :: idle ++ cs) = splitChars [] ++ splitChars (idle ++ cs) :=
              splitChars_append_cons hc [] (idle ++ cs)
          _ = splitChars cs := by rw [ih hidle]; rfl

theorem IsGap.exists_first (h : IsGap gap) : ∃ blanks c idle, gap = blanks ++ c :: idle ∧
    (∀ d ∈ blanks, isBlank d = true) ∧ c ∈ valueSeparators ∧ IsIdle idle := by
  obtain ⟨idle, divides⟩ := h
  induction gap with
  | nil =>
      obtain ⟨d, hd, -⟩ := divides
      cases hd
  | cons d gap ih =>
      rw [IsIdle, List.forall_mem_cons] at idle
      by_cases hd : d ∈ valueSeparators
      · exact ⟨[], d, gap, rfl, by simp, hd, idle.2⟩
      · have hblank := idle.1.resolve_right hd
        have rest : ∃ e ∈ gap, e ∈ valueSeparators := by
          obtain ⟨e, he, hsep⟩ := divides
          rcases List.mem_cons.mp he with rfl | he
          · exact absurd hsep hd
          · exact ⟨e, he, hsep⟩
        obtain ⟨blanks, c, after, rfl, hblanks, hc, hafter⟩ := ih idle.2 rest
        exact ⟨d :: blanks, c, after, rfl, List.forall_mem_cons.mpr ⟨hblank, hblanks⟩, hc, hafter⟩

end Split

namespace IsValue

variable {value : String} {blanks gap cs idle : List Char} (h : IsValue value)
include h

theorem splitChars_append_blanks (hblanks : ∀ c ∈ blanks, isBlank c = true) :
    splitChars (value.toList ++ blanks) = [value.toList] := by
  have undivided : ∀ c ∈ value.toList ++ blanks, c ∉ valueSeparators := by
    refine List.forall_mem_append.mpr ⟨h.undivided, fun c hc => ?_⟩
    exact not_mem_valueSeparators (hblanks c hc)
  have plain : isPlainName value = true := by simp [isPlainName, h.nonempty, h.trimmed]
  obtain ⟨hne, htrim⟩ := isPlainName_iff.mp plain
  rw [splitChars_of_undivided undivided, trim_append_blanks hblanks, htrim, if_neg hne]

/-- A value is cut off at the gap behind it. -/
theorem splitChars_append_gap (hgap : IsGap gap) (cs : List Char) :
    splitChars (value.toList ++ gap ++ cs) = value.toList :: splitChars cs := by
  obtain ⟨blanks, c, idle, rfl, hblanks, hc, hidle⟩ := hgap.exists_first
  calc splitChars (value.toList ++ (blanks ++ c :: idle) ++ cs)
      = splitChars ((value.toList ++ blanks) ++ c :: (idle ++ cs)) := by simp
    _ = splitChars (value.toList ++ blanks) ++ splitChars (idle ++ cs) :=
        splitChars_append_cons hc _ _
    _ = value.toList :: splitChars cs := by
        rw [h.splitChars_append_blanks hblanks, splitChars_idle_append hidle]
        rfl

theorem splitChars_append_idle (hidle : IsIdle idle) :
    splitChars (value.toList ++ idle) = [value.toList] := by
  by_cases divides : ∃ c ∈ idle, c ∈ valueSeparators
  · have hcut := h.splitChars_append_gap ⟨hidle, divides⟩ []
    rwa [List.append_nil] at hcut
  · refine h.splitChars_append_blanks fun c hc => (hidle c hc).resolve_right fun hsep => ?_
    exact divides ⟨c, hc, hsep⟩

end IsValue

theorem Joins.splitChars_append {values : List String} {text : String} {idle : List Char}
    (h : Joins values text) (hvalues : ∀ value ∈ values, IsValue value) (hidle : IsIdle idle) :
    splitChars (text.toList ++ idle) = values.map String.toList := by
  induction h with
  | nil =>
      have hnone : splitChars (idle ++ []) = splitChars [] := splitChars_idle_append hidle
      rwa [List.append_nil] at hnone
  | single value => exact (hvalues value List.mem_cons_self).splitChars_append_idle hidle
  | @cons value gap next text values hgap _ ih =>
      rw [List.forall_mem_cons] at hvalues
      rw [String.toList_append, String.toList_append, List.append_assoc,
        hvalues.1.splitChars_append_gap hgap, ih hvalues.2]
      rfl

theorem isValue_of_mem_splitValues {text value : String} (h : value ∈ splitValues text) :
    IsValue value := by
  obtain ⟨plain, undivided⟩ := mem_splitValues h
  rw [isPlainName, Bool.and_eq_true, decide_eq_true_eq, decide_eq_true_eq] at plain
  refine ⟨plain.1, plain.2, fun c hc hsep => ?_⟩
  have hcut := undivided c hc
  rw [isValueSeparator_iff.mpr hsep] at hcut
  cases hcut

/-- The values of a text that is cut at a separator are those of its two parts. Whatever is found is
a value, and values are found again, with whatever blanks and separators there are between them and
around them. -/
theorem splitValues_joins :
    (∀ (a b : String), ∀ c ∈ valueSeparators,
      splitValues (a ++ String.singleton c ++ b) = splitValues a ++ splitValues b) ∧
    (∀ text, ∀ value ∈ splitValues text, IsValue value) ∧
    ∀ (values : List String) (text before after : String), (∀ value ∈ values, IsValue value) →
      Joins values text → IsIdle before.toList → IsIdle after.toList →
        splitValues (before ++ text ++ after) = values := by
  refine ⟨fun a b c hc => ?_, fun text value => isValue_of_mem_splitValues,
    fun values text before after hvalues hjoins hbefore hafter => ?_⟩
  · have htext : (a ++ String.singleton c ++ b).toList = a.toList ++ c :: b.toList := by simp
    rw [splitValues, htext, splitChars_append_cons hc, List.map_append]
    rfl
  · have htext : (before ++ text ++ after).toList =
        before.toList ++ (text.toList ++ after.toList) := by simp
    rw [splitValues, htext, splitChars_idle_append hbefore, hjoins.splitChars_append hvalues hafter,
      List.map_map]
    simp

theorem splitValues_joins_genres : IsValue "Rock" ∧ IsValue "Folk Rock" ∧
    Joins ["Rock", "Folk Rock"] "Rock ;;\t/ Folk Rock" ∧
    splitValues ("| " ++ "Rock ;;\t/ Folk Rock" ++ " ,") = ["Rock", "Folk Rock"] := by
  have rock : IsValue "Rock" := by decide +kernel
  have folkRock : IsValue "Folk Rock" := by decide +kernel
  have hgap : IsGap " ;;\t/ ".toList := by decide +kernel
  have hjoins : Joins ["Rock", "Folk Rock"] "Rock ;;\t/ Folk Rock" :=
    .cons "Rock" hgap (.single "Folk Rock")
  obtain ⟨-, -, found⟩ := splitValues_joins
  have hbefore : IsIdle "| ".toList := by decide +kernel
  have hafter : IsIdle " ,".toList := by decide +kernel
  refine ⟨rock, folkRock, hjoins, found _ _ _ _ ?_ hjoins hbefore hafter⟩
  simp [rock, folkRock]

end AudioCatalog.Tag
