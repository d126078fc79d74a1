import AudioCatalog.PartialDate
import AudioCatalog.Proofs.Lexicographic

namespace AudioCatalog

namespace PartialDate

open Text

/-- The parts are those of a date in the calendar of four-digit years, and a day has a month. -/
structure InRange (d : PartialDate) : Prop where
  year : 0 ≤ d.year ∧ d.year ≤ 9999
  month : ∀ month, d.month = some month → 1 ≤ month ∧ month ≤ 12
  day : ∀ day, d.day = some day → d.month.isSome ∧ 1 ≤ day ∧ day ≤ 31

instance (d : PartialDate) : Decidable d.InRange :=
  decidable_of_iff ((0 ≤ d.year ∧ d.year ≤ 9999) ∧ (∀ month ∈ d.month, 1 ≤ month ∧ month ≤ 12) ∧
      ∀ day ∈ d.day, d.month.isSome ∧ 1 ≤ day ∧ day ≤ 31)
    ⟨fun ⟨year, month, day⟩ => ⟨year, month, day⟩, fun h => ⟨h.year, h.month, h.day⟩⟩

section Reading

variable {text : String} {parts : List (List Char)} {part : List Char} {d : PartialDate} {last n : Nat}

theorem readPart?_eq_some (h : readPart? last part = some n) : 1 ≤ n ∧ n ≤ last := by
  obtain ⟨-, hrange⟩ := Option.filter_eq_some_iff.mp h
  simpa using hrange

theorem readYear?_le {year : Nat} (h : readYear? part = some year) : year ≤ 9999 := by
  unfold readYear? at h
  split_ifs at h with hyear
  obtain ⟨hlength, digits⟩ := hyear
  have hlt := Numeral.ofDigitChars_lt (List.all_eq_true.mp digits) 0
  rw [hlength] at hlt
  cases h
  exact Nat.le_of_lt_succ hlt

theorem inRange_of_ofParts? (h : ofParts? parts = some d) : d.InRange := by
  cases parts with
  | nil => cases h
  | cons part rest =>
      obtain ⟨year, hyear, h⟩ := Option.bind_eq_some_iff.mp h
      cases h
      refine ⟨⟨Int.natCast_nonneg year, Int.ofNat_le.mpr (readYear?_le hyear)⟩,
        fun month hmonth => ?_, fun day hday => ?_⟩
      · obtain ⟨part, -, hpart⟩ := Option.bind_eq_some_iff.mp hmonth
        exact readPart?_eq_some hpart
      · obtain ⟨month, hmonth, hday⟩ := Option.bind_eq_some_iff.mp hday
        obtain ⟨part, -, hpart⟩ := Option.bind_eq_some_iff.mp hday
        exact ⟨Option.isSome_of_mem hmonth, readPart?_eq_some hpart⟩

theorem readYear?_padded (h : n ≤ 9999) : readYear? (Numeral.padded 4 n) = some n := by
  have digits : (Numeral.padded 4 n).all Char.isDigit = true :=
    List.all_eq_true.mpr fun _ => Numeral.isDigit_of_mem_padded
  rw [readYear?, if_pos ⟨Numeral.length_padded (by decide) (Nat.lt_succ_of_le h), digits⟩,
    Numeral.ofDigitChars_padded]

theorem readPart?_padded_eq (hn : n ≤ 255) :
    readPart? last (Numeral.padded 2 n) = if 1 ≤ n ∧ n ≤ last then some n else none := by
  have hbyte : n ≤ UInt8.size - 1 := hn
  rw [readPart?, Numeral.readByte?, Numeral.read?_padded 2 hbyte, Option.filter_some]
  simp

theorem readPart?_padded (hn : 1 ≤ n ∧ n ≤ last) (hlast : last ≤ 255) :
    readPart? last (Numeral.padded 2 n) = some n := by
  rw [readPart?_padded_eq (Nat.le_trans hn.2 hlast), if_pos hn]

end Reading

section Writing

variable {d : PartialDate} {c : Char}

def writtenPart : Option Nat → List Char
  | none => []
  | some part => partChars part

theorem mem_writtenPart {part : Option Nat} (h : c ∈ writtenPart part) :
    c.isDigit = true ∨ c = '-' := by
  cases part with
  | none => cases h
  | some part =>
      rcases List.mem_cons.mp h with rfl | h
      · exact .inr rfl
      · exact .inl (Numeral.isDigit_of_mem_padded h)

theorem eq_of_isDigit {p : Char → Bool} {b : Bool} (h : c.isDigit = true)
    (digits : ∀ i < 10, p (Char.ofNat ('0'.toNat + i)) = b) : p c = b := by
  have hc : c = Char.ofNat ('0'.toNat + Numeral.digitValue c) := by
    rw [Numeral.digitValue, Nat.add_sub_cancel' (Char.isDigit_iff_toNat.mp h).1, Char.ofNat_toNat]
  rw [hc]
  exact digits _ (Numeral.digitValue_lt h)

theorem isBlank_of_mem_text (h : c.isDigit = true ∨ c = '-') : isBlank c = false := by
  rcases h with h | rfl
  · exact eq_of_isDigit h (by decide)
  · rfl

theorem toNat_lt_of_mem_text (h : c.isDigit = true ∨ c = '-') : c.toNat < 128 := by
  rcases h with h | rfl
  · exact Nat.lt_of_le_of_lt (Char.isDigit_iff_toNat.mp h).2 (by decide)
  · decide

theorem isSeparator_of_mem_padded {width n : Nat} (h : c ∈ Numeral.padded width n) :
    isSeparator c = false :=
  eq_of_isDigit (Numeral.isDigit_of_mem_padded h) (by decide)

namespace InRange

variable (h : d.InRange)
include h

theorem month_lt (n : Nat) (hmonth : d.month = some n) : n < 10 ^ 2 :=
  Nat.lt_of_le_of_lt (h.month n hmonth).2 (by decide)

theorem day_lt (n : Nat) (hday : d.day = some n) : n < 10 ^ 2 :=
  Nat.lt_of_le_of_lt (h.day n hday).2.2 (by decide)

theorem day_eq_none (hmonth : d.month = none) : d.day = none := by
  cases hday : d.day with
  | none => rfl
  | some day =>
      have := (h.day day hday).1
      rw [hmonth] at this
      cases this

theorem writtenPart_day (hmonth : d.month = none) : writtenPart d.day = [] := by
  rw [h.day_eq_none hmonth]
  rfl

theorem exists_year : ∃ year : Nat, year ≤ 9999 ∧ d.year = year ∧
    d.toChars = Numeral.padded 4 year ++ (writtenPart d.month ++ writtenPart d.day) := by
  obtain ⟨year, hyear⟩ := Int.eq_ofNat_of_zero_le h.year.1
  have hchars : yearChars d.year = Numeral.padded 4 year := by
    rw [hyear, yearChars, if_neg (by omega)]
    rfl
  refine ⟨year, by have := h.year.2; omega, hyear, ?_⟩
  rw [← hchars]
  have hday := h.day_eq_none
  obtain ⟨_, _ | month, _ | day⟩ := d
  · simp [toChars, writtenPart]
  · cases hday rfl
  · simp [toChars, writtenPart]
  · simp [toChars, writtenPart]

theorem mem_toChars (hc : c ∈ d.toChars) : c.isDigit = true ∨ c = '-' := by
  obtain ⟨year, -, -, hchars⟩ := h.exists_year
  rw [hchars] at hc
  rcases List.mem_append.mp hc with hc | hc
  · exact .inl (Numeral.isDigit_of_mem_padded hc)
  · exact (List.mem_append.mp hc).elim mem_writtenPart mem_writtenPart

theorem trim_toChars : trim d.toChars = d.toChars :=
  trim_eq_self_of_visible fun _ hc => isBlank_of_mem_text (h.mem_toChars hc)

theorem parse?_toString : parse? (toString d) = some d := by
  have htext : (toString d).toList = d.toChars := String.toList_ofList
  obtain ⟨year, hyear, hyear', hchars⟩ := h.exists_year
  rw [parse?, htext, h.trim_toChars, hchars]
  obtain ⟨_, month, day⟩ := d
  dsimp only at hyear' ⊢
  subst hyear'
  cases month with
  | none =>
      obtain rfl : day = none := h.day_eq_none rfl
      rw [writtenPart, List.append_nil, List.append_nil,
        List.splitOnP_eq_singleton fun _ => isSeparator_of_mem_padded]
      simp [ofParts?, readYear?_padded hyear]
  | some month =>
      have hmonth := readPart?_padded (h.month month rfl) (by decide)
      cases day with
      | none =>
          rw [writtenPart, writtenPart, partChars, List.append_nil,
            List.splitOnP_append_cons_of_forall_mem (fun _ => isSeparator_of_mem_padded) _ rfl,
            List.splitOnP_eq_singleton fun _ => isSeparator_of_mem_padded]
          simp [ofParts?, readYear?_padded hyear, hmonth]
      | some day =>
          have hday := readPart?_padded (h.day day rfl).2 (by decide)
          rw [writtenPart, writtenPart, partChars, partChars, List.cons_append,
            List.splitOnP_append_cons_of_forall_mem (fun _ => isSeparator_of_mem_padded) _ rfl,
            List.splitOnP_append_cons_of_forall_mem (fun _ => isSeparator_of_mem_padded) _ rfl,
            List.splitOnP_eq_singleton fun _ => isSeparator_of_mem_padded]
          simp [ofParts?, readYear?_padded hyear, hmonth, hday]

end InRange

end Writing

section Order

variable {d e : PartialDate}

theorem compare_eq (d e : PartialDate) : compare d e =
    (compare d.year e.year).then ((compare d.month e.month).then (compare d.day e.day)) :=
  rfl

/-- An absent part, with nothing after it, comes before any present one. -/
theorem compare_writtenPart {part other : Option Nat} {rest rest' : List Char}
    (hpart : ∀ n, part = some n → n < 10 ^ 2) (hother : ∀ n, other = some n → n < 10 ^ 2)
    (hnone : part = none → rest = []) (hnone' : other = none → rest' = []) :
    compare (writtenPart part ++ rest) (writtenPart other ++ rest') =
      (compare part other).then (compare rest rest') := by
  cases part with
  | none =>
      obtain rfl := hnone rfl
      cases other with
      | none =>
          obtain rfl := hnone' rfl
          rfl
      | some n => rfl
  | some m =>
      cases other with
      | none =>
          obtain rfl := hnone' rfl
          rfl
      | some n =>
          rw [writtenPart, writtenPart, partChars, partChars, List.cons_append, List.cons_append,
            compare_cons, Std.ReflOrd.compare_self,
            Numeral.compare_padded_append (by decide) (hpart m rfl) (hother n rfl)]
          rfl

theorem InRange.compare_toChars (hd : d.InRange) (he : e.InRange) :
    compare d.toChars e.toChars = compare d e := by
  obtain ⟨year, hyear, hyear', hchars⟩ := hd.exists_year
  obtain ⟨other, hother, hother', hchars'⟩ := he.exists_year
  have years : compare d.year e.year = compare year other := by
    rw [hyear', hother']
    exact compareOfLessAndEq_congr Int.ofNat_lt Int.natCast_inj
  have days : compare (writtenPart d.day) (writtenPart e.day) = compare d.day e.day := by
    have written := compare_writtenPart hd.day_lt he.day_lt (fun _ => rfl) (fun _ => rfl)
    rw [List.append_nil, List.append_nil] at written
    exact written.trans Ordering.then_eq
  rw [hchars, hchars', Numeral.compare_padded_append (by decide) (Nat.lt_succ_of_le hyear)
    (Nat.lt_succ_of_le hother), compare_writtenPart hd.month_lt he.month_lt hd.writtenPart_day
    he.writtenPart_day, days, compare_eq, years]

/-- A date that was read is read again from its own text. The dates that are read are those in
range, and they are in the order of the bytes of their texts. -/
theorem text_canonical :
    (∀ (text : String) (d : PartialDate), parse? text = some d → parse? (toString d) = some d) ∧
    (∀ d : PartialDate, (∃ text, parse? text = some d) ↔ d.InRange) ∧
    ∀ d e : PartialDate, d.InRange → e.InRange →
      compare d e = compare (Utf8.encode (toString d)) (Utf8.encode (toString e)) ∧
        (toString d = toString e ↔ d = e) := by
  have inRange {text : String} {d : PartialDate} (h : parse? text = some d) : d.InRange :=
    inRange_of_ofParts? h
  refine ⟨fun text d h => (inRange h).parse?_toString, fun d => ⟨fun ⟨text, h⟩ => inRange h,
    fun h => ⟨toString d, h.parse?_toString⟩⟩, fun d e hd he => ⟨?_, fun htext => ?_, congrArg toString⟩⟩
  · rw [← hd.compare_toChars he]
    exact (compare_encode (fun _ hc => toNat_lt_of_mem_text (hd.mem_toChars hc))
      fun _ hc => toNat_lt_of_mem_text (he.mem_toChars hc)).symm
  · have hread := hd.parse?_toString
    rw [htext, he.parse?_toString] at hread
    exact (Option.some.inj hread).symm

def march : PartialDate := ⟨2020, some 3, none⟩

def ninthOfMarch : PartialDate := ⟨2020, some 3, some 9⟩

theorem text_canonical_march :
    parse? " 2020/3/+9T12:00" = some ninthOfMarch ∧
    parse? (toString ninthOfMarch) = some ninthOfMarch ∧ march.InRange ∧ ninthOfMarch.InRange ∧
    compare (Utf8.encode (toString march)) (Utf8.encode (toString ninthOfMarch)) = .lt := by
  have hread : parse? " 2020/3/+9T12:00" = some ninthOfMarch := by decide +kernel
  have hmarch : march.InRange := by decide
  have hninth : ninthOfMarch.InRange := by decide
  obtain ⟨again, -, order⟩ := text_canonical
  refine ⟨hread, again _ _ hread, hmarch, hninth, ?_⟩
  rw [← (order march ninthOfMarch hmarch hninth).1]
  decide

end Order

end PartialDate

end AudioCatalog
