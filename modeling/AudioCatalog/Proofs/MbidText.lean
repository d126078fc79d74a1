import AudioCatalog.Mbid
import AudioCatalog.Proofs.Digits

namespace AudioCatalog

namespace Mbid

open Text

variable {digits text : List Char}

theorem length_hyphenate (h : digits.length = 32) : (hyphenate digits).length = 36 := by
  simp [hyphenate, h]

theorem append_groups (digits : List Char) : digits.take 8 ++ ((digits.drop 8).take 4 ++
    ((digits.drop 12).take 4 ++ ((digits.drop 16).take 4 ++ digits.drop 20))) = digits := by
  have hgroup (start size : Nat) :
      (digits.drop start).take size ++ digits.drop (start + size) = digits.drop start := by
    rw [← List.drop_drop, List.take_append_drop]
  rw [hgroup 16 4, hgroup 12 4, hgroup 8 4, List.take_append_drop]

theorem unhyphenate?_eq_some_iff :
    unhyphenate? text = some digits ↔ digits.length = 32 ∧ text = hyphenate digits := by
  constructor
  · intro h
    simp only [unhyphenate?] at h
    split_ifs at h with hform
    obtain rfl := Option.some.inj h
    exact hform
  · rintro ⟨hlength, rfl⟩
    have hdigits : (hyphenate digits).take 8 ++ ((hyphenate digits).drop 9).take 4 ++
        ((hyphenate digits).drop 14).take 4 ++ ((hyphenate digits).drop 19).take 4 ++
          (hyphenate digits).drop 24 = digits := by
      refine Eq.trans ?_ (append_groups digits)
      simp [hyphenate, List.drop_append, List.drop_take, hlength]
    simp only [unhyphenate?]
    rw [hdigits, if_pos ⟨hlength, rfl⟩]

/-- The forms in which thirty-two digits may be written. -/
inductive Written (digits : List Char) : List Char → Prop
  | plain : Written digits digits
  | hyphenated : Written digits (hyphenate digits)
  | braced : Written digits ('\x7b' :: hyphenate digits ++ ['\x7d'])
  | urn {label : List Char} (h : label.map Char.toLower = urn) :
      Written digits (label ++ hyphenate digits)

theorem braced?_eq_some_iff {inner : List Char} :
    braced? text = some inner ↔ text = '\x7b' :: inner ++ ['\x7d'] := by
  constructor
  · intro h
    rw [braced?.eq_def] at h
    split at h
    · rename_i rest
      split_ifs at h with hlast
      cases h
      obtain ⟨front, hfront⟩ := List.getLast?_eq_some_iff.mp hlast
      rw [hfront, List.dropLast_concat, List.cons_append]
    · cases h
  · rintro rfl
    simp [braced?]

theorem digits?_eq_some_iff :
    digits? text = some digits ↔ digits.length = 32 ∧ Written digits text := by
  constructor
  · intro h
    rw [digits?] at h
    split_ifs at h with h32 h36 h38 h45
    · cases h
      exact ⟨h32, .plain⟩
    · obtain ⟨hlength, rfl⟩ := unhyphenate?_eq_some_iff.mp h
      exact ⟨hlength, .hyphenated⟩
    · obtain ⟨inner, hinner, hdigits⟩ := Option.bind_eq_some_iff.mp h
      obtain rfl := braced?_eq_some_iff.mp hinner
      obtain ⟨hlength, rfl⟩ := unhyphenate?_eq_some_iff.mp hdigits
      exact ⟨hlength, .braced⟩
    · obtain ⟨hlength, hrest⟩ := unhyphenate?_eq_some_iff.mp h
      rw [← List.take_append_drop Mbid.urn.length text, hrest]
      exact ⟨hlength, .urn h45.2⟩
  · rintro ⟨hlength, hform⟩
    -- No two of the forms are of one length, so each text is taken for the form that it has.
    have hhyphenate := length_hyphenate hlength
    have hread : unhyphenate? (hyphenate digits) = some digits :=
      unhyphenate?_eq_some_iff.mpr ⟨hlength, rfl⟩
    cases hform with
    | plain => rw [digits?, if_pos hlength]
    | hyphenated =>
        rw [digits?, if_neg (by omega), if_pos hhyphenate, hread]
    | braced =>
        have hinner := braced?_eq_some_iff.mpr (rfl : '\x7b' :: hyphenate digits ++ ['\x7d'] = _)
        have hlength' : ('\x7b' :: hyphenate digits ++ ['\x7d']).length = 38 := by simp [hhyphenate]
        rw [digits?, if_neg (by omega), if_neg (by omega), if_pos hlength', hinner,
          Option.bind_eq_bind, Option.bind_some, hread]
    | @urn label hlabel =>
        have hlabel' : label.length = 9 := by
          rw [← List.length_map (f := Char.toLower), hlabel]
          rfl
        have hlength' : (label ++ hyphenate digits).length = 45 := by simp [hhyphenate, hlabel']
        have htake : (label ++ hyphenate digits).take Mbid.urn.length = label :=
          List.take_left' hlabel'
        have hdrop : (label ++ hyphenate digits).drop Mbid.urn.length = hyphenate digits :=
          List.drop_left' hlabel'
        rw [digits?, if_neg (by omega), if_neg (by omega), if_neg (by omega), htake, hdrop,
          if_pos ⟨hlength', hlabel⟩, hread]

theorem length_hexDigits (value : Nat) : (hexDigits value).length = 32 := by
  simp [hexDigits]

theorem number?_hexDigits_iff (hlength : digits.length = 32) {value : Nat} :
    Digits.number? 16 digits = some value ↔
      value < 1 <<< 128 ∧ digits.map Char.toLower = hexDigits value := by
  rw [Digits.number?_eq_some_iff, hlength]
  rfl

/-- Between blanks, in one of the forms, the text has the digits of the value, each in either
case. -/
def Spells (text : String) (value : Nat) : Prop :=
  value < 1 <<< 128 ∧ ∃ before digits written after, text.toList = before ++ written ++ after ∧
    (∀ c ∈ before, isBlank c = true) ∧ (∀ c ∈ after, isBlank c = true) ∧
    Written digits written ∧ digits.map Char.toLower = hexDigits value

theorem isBlank_of_mem_digits {value : Nat} {c : Char}
    (h : digits.map Char.toLower = hexDigits value) (hc : c ∈ digits) : isBlank c = false := by
  have hlower : c.toLower ∈ hexDigits value := h ▸ List.mem_map_of_mem hc
  obtain ⟨place, -, hdigit⟩ := List.mem_map.mp hlower
  have hlt := Nat.mod_lt (value >>> (4 * (31 - place))) (show 16 > 0 by decide)
  apply isBlank_of_toLower
  rw [← hdigit, Digits.toNat_digitChar _ hlt]
  split_ifs <;> omega

theorem forall_mem_hyphenate {p : Char → Prop} (hyphen : p '-') (h : ∀ c ∈ digits, p c) :
    ∀ c ∈ hyphenate digits, p c := by
  have group (start size : Nat) : ∀ c ∈ (digits.drop start).take size, p c :=
    fun c hc => h c (List.mem_of_mem_drop (List.mem_of_mem_take hc))
  simp only [hyphenate, List.cons_append, List.append_assoc, List.forall_mem_append,
    List.forall_mem_cons]
  exact ⟨group 0 8, hyphen, group 8 4, hyphen, group 12 4, hyphen, group 16 4, hyphen,
    fun c hc => h c (List.mem_of_mem_drop hc)⟩

theorem Written.trim_eq {value : Nat} (h : Written digits text)
    (hdigits : digits.map Char.toLower = hexDigits value) : trim text = text := by
  have hdigit : ∀ c ∈ digits, isBlank c = false := fun c => isBlank_of_mem_digits hdigits
  have hgroups : ∀ c ∈ hyphenate digits, isBlank c = false := forall_mem_hyphenate rfl hdigit
  apply trim_eq_self_of_visible
  cases h with
  | plain => exact hdigit
  | hyphenated => exact hgroups
  | braced =>
      rw [List.cons_append, List.forall_mem_cons, List.forall_mem_append, List.forall_mem_singleton]
      exact ⟨rfl, hgroups, rfl⟩
  | urn hlabel =>
      have ascii : Mbid.urn.all (fun d => 33 ≤ d.toNat && d.toNat < 128) = true := rfl
      refine List.forall_mem_append.mpr ⟨fun c hc => isBlank_of_toLower ?_, hgroups⟩
      simpa using List.all_eq_true.mp ascii _ (hlabel ▸ List.mem_map_of_mem hc)

theorem spells_iff {text : String} {value : Nat} : Spells text value ↔
    (digits? (trim text.toList) >>= Digits.number? 16) = some value := by
  constructor
  · rintro ⟨hvalue, before, digits, written, after, htext, hbefore, hafter, hform, hdigits⟩
    have hlength : digits.length = 32 := by
      rw [← length_hexDigits value, ← hdigits, List.length_map]
    rw [htext, trim_append_blanks hafter, trim_blanks_append hbefore, hform.trim_eq hdigits,
      digits?_eq_some_iff.mpr ⟨hlength, hform⟩]
    exact (number?_hexDigits_iff hlength).mpr ⟨hvalue, hdigits⟩
  · intro h
    obtain ⟨digits, hread, hnumber⟩ := Option.bind_eq_some_iff.mp h
    obtain ⟨hlength, hform⟩ := digits?_eq_some_iff.mp hread
    obtain ⟨hvalue, hdigits⟩ := (number?_hexDigits_iff hlength).mp hnumber
    obtain ⟨before, after, htext, hbefore, hafter⟩ := exists_blanks_trim text.toList
    exact ⟨hvalue, before, digits, _, after, htext.symm, hbefore, hafter, hform, hdigits⟩

theorem Spells.unique {text : String} {value value' : Nat} (h : Spells text value)
    (h' : Spells text value') : value = value' :=
  Option.some.inj ((spells_iff.mp h).symm.trans (spells_iff.mp h'))

theorem ofNat?_eq_some_iff {value : Nat} {m : Mbid} : ofNat? value = some m ↔ value = m.value := by
  constructor
  · intro h
    rw [ofNat?] at h
    split_ifs at h
    cases h
    rfl
  · rintro rfl
    exact dif_pos ⟨m.value_pos, m.value_lt⟩

theorem parse?_eq_some_iff {text : String} {m : Mbid} :
    parse? text = some m ↔ Spells text m.value := by
  rw [parse?, spells_iff]
  constructor
  · intro h
    obtain ⟨value, hvalue, hm⟩ := Option.bind_eq_some_iff.mp h
    rw [← ofNat?_eq_some_iff.mp hm]
    exact hvalue
  · intro h
    exact Option.bind_eq_some_iff.mpr ⟨m.value, h, ofNat?_eq_some_iff.mpr rfl⟩

def hyphenPlaces : List Nat := [8, 13, 18, 23]

/-- The text has thirty-six characters, hyphens where groups meet and lower-case digits
elsewhere. -/
structure IsCanonical (text : String) : Prop where
  length : text.length = 36
  hyphen : ∀ place ∈ hyphenPlaces, text.toList[place]? = some '-'
  digit : ∀ place < 36, place ∉ hyphenPlaces →
    ∃ d < 16, text.toList[place]? = some (Nat.digitChar d)

theorem exists_digit_of_group {start size place : Nat} (hplace : place < size)
    (hdigits : start + place < digits.length) :
    ∃ d ∈ digits, ((digits.drop start).take size)[place]? = some d := by
  refine ⟨digits[start + place], List.getElem_mem hdigits, ?_⟩
  rw [List.getElem?_take_of_lt hplace, List.getElem?_drop, List.getElem?_eq_getElem hdigits]

theorem getElem?_hyphenate (h : digits.length = 32) (place : Nat) :
    (place ∈ hyphenPlaces → (hyphenate digits)[place]? = some '-') ∧
      (place < 36 → place ∉ hyphenPlaces →
        ∃ d ∈ digits, (hyphenate digits)[place]? = some d) := by
  have group (start size : Nat) (hle : start + size ≤ 32) :
      ((digits.drop start).take size).length = size := by
    rw [List.length_take, List.length_drop, h]
    omega
  -- The last group is of twelve digits, and then all five are alike.
  have last : digits.drop 20 = (digits.drop 20).take 12 := by
    rw [List.take_of_length_le (by simp [h])]
  rw [hyphenate, last]
  simp only [List.cons_append, List.append_assoc, List.getElem?_append,
    List.getElem?_cons, group, Nat.reduceLeDiff, Nat.reduceAdd, hyphenPlaces, List.mem_cons,
    List.not_mem_nil, or_false]
  constructor
  · intro hplace
    rcases hplace with rfl | rfl | rfl | rfl <;> rfl
  · intro hlt hplace
    split_ifs
    all_goals first | omega | apply exists_digit_of_group <;> omega

theorem toList_toString (m : Mbid) : (toString m).toList = hyphenate (hexDigits m.value) :=
  String.toList_ofList

theorem isCanonical_toString (m : Mbid) : IsCanonical (toString m) := by
  have hlength := length_hexDigits m.value
  refine ⟨?_, fun place hplace => ?_, fun place hlt hplace => ?_⟩
  · rw [← String.length_toList, toList_toString, length_hyphenate hlength]
  · rw [toList_toString]
    exact (getElem?_hyphenate hlength place).1 hplace
  · obtain ⟨c, hc, hget⟩ := (getElem?_hyphenate hlength place).2 hlt hplace
    obtain ⟨index, -, hdigit⟩ := List.mem_map.mp hc
    rw [toList_toString, hget, ← hdigit]
    exact ⟨_, Nat.mod_lt _ (by decide), rfl⟩

theorem map_toLower_hexDigits (value : Nat) :
    (hexDigits value).map Char.toLower = hexDigits value := by
  have lower : ∀ d < 16, (Nat.digitChar d).toLower = Nat.digitChar d := by decide
  rw [hexDigits, List.map_map]
  exact List.map_congr_left fun _ _ => lower _ (Nat.mod_lt _ (by decide))

theorem spells_toString (m : Mbid) : Spells (toString m) m.value := by
  refine ⟨m.value_lt, [], hexDigits m.value, _, [], ?_, by simp, by simp, .hyphenated,
    map_toLower_hexDigits m.value⟩
  rw [toList_toString, List.nil_append, List.append_nil]

theorem parse?_toString (m : Mbid) : parse? (toString m) = some m :=
  parse?_eq_some_iff.mpr (spells_toString m)

theorem toString_inj {m m' : Mbid} : toString m = toString m' ↔ m = m' := by
  refine ⟨fun h => ?_, congrArg toString⟩
  have hread := parse?_toString m
  rw [h, parse?_toString m'] at hread
  exact (Option.some.inj hread).symm

theorem eq_iff_spells {text text' : String} {m m' : Mbid} (h : parse? text = some m)
    (h' : parse? text' = some m') : m = m' ↔ ∃ value, Spells text value ∧ Spells text' value := by
  have hspells := parse?_eq_some_iff.mp h
  have hspells' := parse?_eq_some_iff.mp h'
  constructor
  · rintro rfl
    exact ⟨m.value, hspells, hspells'⟩
  · rintro ⟨value, hvalue, hvalue'⟩
    have hsame : m.value = m'.value := (hspells.unique hvalue).trans (hvalue'.unique hspells')
    rw [hsame] at hspells
    exact Option.some.inj (h.symm.trans (parse?_eq_some_iff.mpr hspells))

def nilText : String := "00000000-0000-0000-0000-000000000000"

/-- Identifiers are read from the texts that spell their values, and from no others. What is read
has a text in canonical form, other than that of zero, and is read again from it; two texts are read
alike if they spell the same value, and only then; and each value but zero is read from some
text. -/
theorem spelling_canonical :
    (∀ (text : String) (m : Mbid), parse? text = some m ↔ Spells text m.value) ∧
    (∀ (text : String) (m : Mbid), parse? text = some m →
      IsCanonical (toString m) ∧ toString m ≠ nilText ∧ parse? (toString m) = some m) ∧
    (∀ (text text' : String) (m m' : Mbid), parse? text = some m → parse? text' = some m' →
      (toString m = toString m' ↔ m = m') ∧
        (m = m' ↔ ∃ value, Spells text value ∧ Spells text' value)) ∧
    ∀ value, 0 < value → value < 1 <<< 128 →
      ∃ (text : String) (m : Mbid), parse? text = some m ∧ m.value = value := by
  refine ⟨fun text m => parse?_eq_some_iff, fun text m _ => ?_, fun text text' m m' h h' => ?_,
    fun value hpos hlt => ?_⟩
  · have hnil : parse? nilText = none := by decide +kernel
    refine ⟨isCanonical_toString m, fun htext => ?_, parse?_toString m⟩
    rw [← htext, parse?_toString] at hnil
    cases hnil
  · exact ⟨toString_inj, eq_iff_spells h h'⟩
  · exact ⟨_, ⟨value, hpos, hlt⟩, parse?_toString _, rfl⟩

def someMbid : Mbid := ⟨0x5b11f4cea62d471e81fca69a8278c7da, by decide, by decide⟩

theorem spelling_canonical_labelled :
    parse? "5B11F4CEA62D471E81FCA69A8278C7DA" = some someMbid ∧
    parse? " Urn:uuid:5b11f4ce-a62d-471E-81fc-a69a8278c7da\n" = some someMbid ∧
    IsCanonical (toString someMbid) ∧ toString someMbid = "5b11f4ce-a62d-471e-81fc-a69a8278c7da" ∧
    ∃ value, Spells "5B11F4CEA62D471E81FCA69A8278C7DA" value ∧
      Spells " Urn:uuid:5b11f4ce-a62d-471E-81fc-a69a8278c7da\n" value := by
  have hplain : parse? "5B11F4CEA62D471E81FCA69A8278C7DA" = some someMbid := by decide +kernel
  have hurn : parse? " Urn:uuid:5b11f4ce-a62d-471E-81fc-a69a8278c7da\n" = some someMbid := by
    decide +kernel
  obtain ⟨-, canonical, same, -⟩ := spelling_canonical
  exact ⟨hplain, hurn, (canonical _ _ hplain).1, by decide +kernel,
    (same _ _ _ _ hplain hurn).2.mp rfl⟩

end Mbid

end AudioCatalog
