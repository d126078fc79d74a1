import AudioCatalog.Proofs.DateText
import AudioCatalog.Proofs.PerformerText

namespace AudioCatalog

theorem splitOnP_append_left {α : Type} {p : α → Bool} {front rest : List α}
    (h : ∀ a ∈ front, p a = false) :
    (front ++ rest).splitOnP p = (rest.splitOnP p).modifyHead (front ++ ·) := by
  induction front with
  | nil =>
      rw [List.nil_append]
      cases rest.splitOnP p <;> rfl
  | cons a front ih =>
      rw [List.forall_mem_cons] at h
      rw [List.cons_append, List.splitOnP_cons_eq_if_modifyHead, h.1, ih h.2]
      cases rest.splitOnP p <;> rfl

namespace PartialDate

open Text

inductive Mark where
  | hyphen | slash | dot

def Mark.char : Mark → Char
  | .hyphen => '-'
  | .slash => '/'
  | .dot => '.'

inductive TimeMark where
  | letter | blank

def TimeMark.char : TimeMark → Char
  | .letter => 'T'
  | .blank => ' '

inductive TimeOfDay where
  | toHour (hour : Fin 100)
  | toMinute (hour minute : Fin 100)
  | toSecond (hour minute second : Fin 100) (rest : String)

def TimeOfDay.toChars : TimeOfDay → List Char
  | .toHour hour => Numeral.padded 2 hour
  | .toMinute hour minute => Numeral.padded 2 hour ++ ':' :: Numeral.padded 2 minute
  | .toSecond hour minute second rest =>
    Numeral.padded 2 hour ++ ':' :: (Numeral.padded 2 minute ++ ':' ::
      (Numeral.padded 2 second ++ rest.toList))

def markedPart (mark : Mark) : Option Nat → List Char
  | none => []
  | some part => mark.char :: Numeral.padded 2 part

def marked (d : PartialDate) (first second : Mark) : List Char :=
  Numeral.padded 4 d.year.natAbs ++ markedPart first d.month ++ markedPart second d.day

/-- The date and a time of day after it. -/
def timed (d : PartialDate) (first second : Mark) (mark : TimeMark) (time : TimeOfDay) :
    List Char :=
  d.marked first second ++ mark.char :: time.toChars

def extended (d : PartialDate) (part : Nat) : PartialDate :=
  match d.month with
  | none => { d with month := some part }
  | some _ => { d with day := some part }

def Lacks (d : PartialDate) (part : Nat) : Prop :=
  d.day = none ∧ 1 ≤ part ∧ part ≤ if d.month = none then 12 else 31

instance (d : PartialDate) (part : Nat) : Decidable (d.Lacks part) :=
  inferInstanceAs (Decidable (_ ∧ _))

/-- What is read where a time stands after the date. -/
def readWith (d : PartialDate) : TimeOfDay → PartialDate
  | .toHour hour => if d.Lacks hour then d.extended hour else d
  | _ => d

theorem readWith_eq_self_iff {d : PartialDate} {time : TimeOfDay} :
    d.readWith time = d ↔ ∀ hour, time = .toHour hour → ¬d.Lacks hour := by
  constructor
  · rintro hread hour rfl hlacks
    rw [readWith, if_pos hlacks] at hread
    obtain ⟨year, _ | month, _ | day⟩ := d
    · cases congrArg month hread
    · cases hlacks.1
    · cases congrArg day hread
    · cases hlacks.1
  · intro hnone
    cases time with
    | toHour hour => exact if_neg (hnone hour rfl)
    | toMinute hour minute => rfl
    | toSecond hour minute second rest => rfl

theorem Mark.isSeparator_char (mark : Mark) : isSeparator mark.char = true := by
  cases mark <;> rfl

theorem TimeMark.isSeparator_char (mark : TimeMark) : isSeparator mark.char = true := by
  cases mark <;> rfl

def parts (d : PartialDate) : List (List Char) :=
  Numeral.padded 4 d.year.natAbs :: (d.month.toList ++ d.day.toList).map (Numeral.padded 2)

section Parts

variable {d : PartialDate} {part : List Char}

theorem exists_splitOnP_append_colon (hour : Nat) (rest : List Char) : ∃ part more,
    (Numeral.padded 2 hour ++ ':' :: rest).splitOnP isSeparator = part :: more ∧
      ∀ last, readPart? last part = none := by
  have hfront : ∀ c ∈ Numeral.padded 2 hour ++ [':'], isSeparator c = false := by
    intro c hc
    rcases List.mem_append.mp hc with hc | hc
    · exact isSeparator_of_mem_padded hc
    · obtain rfl := List.mem_singleton.mp hc
      rfl
  obtain ⟨part, more, hrest⟩ := List.exists_cons_of_ne_nil (List.splitOnP_ne_nil isSeparator rest)
  -- A colon separates nothing, so it stays in the part, and no numeral has one.
  refine ⟨Numeral.padded 2 hour ++ [':'] ++ part, more, ?_, fun last => ?_⟩
  · rw [List.append_cons, splitOnP_append_left hfront, hrest]
    rfl
  · have hcolon : ':' ∈ Numeral.padded 2 hour ++ [':'] ++ part := by simp
    rw [readPart?, Numeral.readByte?, Numeral.read?_eq_none hcolon (by decide) rfl]
    rfl

section InRange

variable (hd : d.InRange)
include hd

/-- A date is a year, a year with a month, or these with a day. -/
theorem InRange.eq_cases : (∃ year, d = ⟨year, none, none⟩) ∨
    (∃ year month, d = ⟨year, some month, none⟩) ∨
      ∃ year month day, d = ⟨year, some month, some day⟩ := by
  have hday := hd.day_eq_none
  obtain ⟨year, _ | month, _ | day⟩ := d
  · exact .inl ⟨year, rfl⟩
  · cases hday rfl
  · exact .inr (.inl ⟨year, month, rfl⟩)
  · exact .inr (.inr ⟨year, month, day, rfl⟩)

theorem readYear?_natAbs : readYear? (Numeral.padded 4 d.year.natAbs) = some d.year.natAbs :=
  readYear?_padded (by have := hd.year; omega)

theorem ofParts?_append (rest : List (List Char)) : ofParts? (d.parts ++ rest) =
    some (match d.month, d.day with
      | some _, some _ => d
      | some _, none => { d with day := rest.head? >>= readPart? 31 }
      | none, _ => { d with
        month := rest.head? >>= readPart? 12
        day := (rest.head? >>= readPart? 12) >>= fun _ => rest[1]? >>= readPart? 31 }) := by
  have hyear := readYear?_natAbs hd
  have habs : (d.year.natAbs : Int) = d.year := by have := hd.year; omega
  obtain ⟨year, rfl⟩ | ⟨year, month, rfl⟩ | ⟨year, month, day, rfl⟩ := hd.eq_cases
  · simp [parts, ofParts?, hyear, habs]
  · have hmonth := readPart?_padded (hd.month month rfl) (by decide)
    simp [parts, ofParts?, hyear, habs, hmonth, List.head?_eq_getElem?]
  · have hmonth := readPart?_padded (hd.month month rfl) (by decide)
    have hday := readPart?_padded (hd.day day rfl).2 (by decide)
    simp [parts, ofParts?, hyear, habs, hmonth, hday]

theorem ofParts?_parts : ofParts? d.parts = some d := by
  have hread := ofParts?_append hd []
  rw [List.append_nil] at hread
  rw [hread]
  obtain ⟨year, rfl⟩ | ⟨year, month, rfl⟩ | ⟨year, month, day, rfl⟩ := hd.eq_cases <;> rfl

theorem ofParts?_append_of_none (hpart : ∀ last, readPart? last part = none)
    (more : List (List Char)) : ofParts? (d.parts ++ part :: more) = some d := by
  rw [ofParts?_append hd]
  obtain ⟨year, rfl⟩ | ⟨year, month, rfl⟩ | ⟨year, month, day, rfl⟩ := hd.eq_cases
  · simp [hpart]
  · simp [hpart]
  · rfl

theorem ofParts?_append_hour (hour : Fin 100) :
    ofParts? (d.parts ++ [Numeral.padded 2 hour]) = some (d.readWith (.toHour hour)) := by
  have hbyte : (hour : Nat) ≤ 255 := by omega
  rw [ofParts?_append hd, readWith]
  obtain ⟨year, rfl⟩ | ⟨year, month, rfl⟩ | ⟨year, month, day, rfl⟩ := hd.eq_cases
  · by_cases hhour : 1 ≤ (hour : Nat) ∧ (hour : Nat) ≤ 12
    · simp [readPart?_padded_eq hbyte, hhour, Lacks, extended]
    · simp [readPart?_padded_eq hbyte, hhour, Lacks]
  · by_cases hhour : 1 ≤ (hour : Nat) ∧ (hour : Nat) ≤ 31
    · simp [readPart?_padded_eq hbyte, hhour, Lacks, extended]
    · simp [readPart?_padded_eq hbyte, hhour, Lacks]
  · simp [Lacks]

theorem splitOnP_marked (first second : Mark) :
    (d.marked first second).splitOnP isSeparator = d.parts := by
  have digits {width n : Nat} : ∀ c ∈ Numeral.padded width n, isSeparator c = false :=
    fun _ => isSeparator_of_mem_padded
  obtain ⟨year, rfl⟩ | ⟨year, month, rfl⟩ | ⟨year, month, day, rfl⟩ := hd.eq_cases
  · rw [marked, markedPart, markedPart, List.append_nil, List.append_nil,
      List.splitOnP_eq_singleton digits]
    rfl
  · rw [marked, markedPart, markedPart, List.append_nil,
      List.splitOnP_append_cons _ _ first.isSeparator_char, List.splitOnP_eq_singleton digits,
      List.splitOnP_eq_singleton digits]
    rfl
  · rw [marked, markedPart, markedPart, List.splitOnP_append_cons _ _ second.isSeparator_char,
      List.splitOnP_append_cons _ _ first.isSeparator_char, List.splitOnP_eq_singleton digits,
      List.splitOnP_eq_singleton digits, List.splitOnP_eq_singleton digits]
    rfl

end InRange

end Parts

section Trimming

variable {d : PartialDate} {first second : Mark} {after : List Char} {c : Char}

theorem isBlank_of_mem_padded {width n : Nat} (h : c ∈ Numeral.padded width n) :
    isBlank c = false :=
  isBlank_of_mem_text (.inl (Numeral.isDigit_of_mem_padded h))

theorem isBlank_of_mem_markedPart {mark : Mark} {part : Option Nat} (h : c ∈ markedPart mark part) :
    isBlank c = false := by
  cases part with
  | none => cases h
  | some part =>
      rcases List.mem_cons.mp h with rfl | h
      · cases mark <;> rfl
      · exact isBlank_of_mem_padded h

theorem trim_marked : trim (d.marked first second) = d.marked first second := by
  apply trim_eq_self_of_visible
  intro c hc
  rcases List.mem_append.mp hc with hc | hc
  · rcases List.mem_append.mp hc with hc | hc
    · exact isBlank_of_mem_padded hc
    · exact isBlank_of_mem_markedPart hc
  · exact isBlank_of_mem_markedPart hc

theorem marked_ne_nil : d.marked first second ≠ [] := by
  simp [marked, Numeral.padded_ne_nil]

theorem trim_marked_append (n : Nat) : trim (d.marked first second ++ c :: Numeral.padded 2 n) =
    d.marked first second ++ c :: Numeral.padded 2 n := by
  apply trim_eq_self
  · exact fun _ => isBlank_head?_append trim_marked marked_ne_nil
  · intro e he
    rw [List.append_cons, List.getLast?_append_of_ne_nil _ (Numeral.padded_ne_nil 2 n)] at he
    exact isBlank_of_mem_padded (List.mem_of_getLast? he)

theorem trim_marked_append_colon (n : Nat) (rest : List Char) :
    trim (d.marked first second ++ c :: (Numeral.padded 2 n ++ ':' :: rest)) =
      d.marked first second ++ c :: (Numeral.padded 2 n ++ ':' :: trimEnd rest) := by
  rw [← List.cons_append, ← List.append_assoc, trim_append_cons _ (by decide)]
  · simp
  · intro e he
    rw [List.append_assoc] at he
    exact isBlank_head?_append trim_marked marked_ne_nil he

end Trimming

section Timed

variable {d : PartialDate} (hd : d.InRange) (first second : Mark) (mark : TimeMark)
include hd

theorem parse?_marked : parse? (String.ofList (d.marked first second)) = some d := by
  rw [parse?, String.toList_ofList, trim_marked, splitOnP_marked hd, ofParts?_parts hd]

theorem parse?_timed (time : TimeOfDay) :
    parse? (String.ofList (d.timed first second mark time)) = some (d.readWith time) := by
  have passed (hour : Nat) (rest : List Char) : parse? (String.ofList
      (d.marked first second ++ mark.char :: (Numeral.padded 2 hour ++ ':' :: rest))) = some d := by
    rw [parse?, String.toList_ofList, trim_marked_append_colon,
      List.splitOnP_append_cons _ _ mark.isSeparator_char, splitOnP_marked hd]
    obtain ⟨part, more, hparts, hpart⟩ := exists_splitOnP_append_colon hour (trimEnd rest)
    rw [hparts, ofParts?_append_of_none hd hpart]
  cases time with
  | toHour hour =>
      rw [timed, TimeOfDay.toChars, parse?, String.toList_ofList, trim_marked_append,
        List.splitOnP_append_cons _ _ mark.isSeparator_char, splitOnP_marked hd,
        List.splitOnP_eq_singleton fun _ => isSeparator_of_mem_padded, ofParts?_append_hour hd]
  | toMinute hour minute => exact passed hour _
  | toSecond hour minute second rest => exact passed hour _

/-- Whatever stands between its parts, a date with a time after it is read as the date alone, unless
the time is an hour that can be the part that the date lacks. -/
theorem parse?_timed_iff (time : TimeOfDay) :
    parse? (String.ofList (d.marked first second)) = some d ∧
    parse? (String.ofList (d.timed first second mark time)) = some (d.readWith time) ∧
    (parse? (String.ofList (d.timed first second mark time)) =
        parse? (String.ofList (d.marked first second)) ↔
      ∀ hour, time = .toHour hour → ¬d.Lacks hour) := by
  have date := parse?_marked hd first second
  have both := parse?_timed hd first second mark time
  refine ⟨date, both, ?_⟩
  rw [date, both, Option.some_inj]
  exact readWith_eq_self_iff

end Timed

theorem parse?_timed_iff_march : march.InRange ∧
    String.ofList (march.timed .slash .dot .blank (.toSecond 12 30 15 "+02:00 ")) =
      "2020/03 12:30:15+02:00 " ∧
    parse? "2020/03 12:30:15+02:00 " = parse? "2020/03" ∧ parse? "2020/03" = some march := by
  have hmarch : march.InRange := by decide
  obtain ⟨date, -, same⟩ :=
    parse?_timed_iff hmarch .slash .dot .blank (.toSecond 12 30 15 "+02:00 ")
  have htext : String.ofList (march.timed .slash .dot .blank (.toSecond 12 30 15 "+02:00 ")) =
      "2020/03 12:30:15+02:00 " := by decide +kernel
  have hdate : String.ofList (march.marked .slash .dot) = "2020/03" := by decide +kernel
  rw [htext, hdate] at same
  rw [hdate] at date
  have passed : parse? "2020/03 12:30:15+02:00 " = parse? "2020/03" := same.mpr (by rintro _ ⟨⟩)
  exact ⟨hmarch, htext, passed, date⟩

/-- Ten o'clock in some year is October of that year. -/
theorem parse?_timed_hour : (ofYear 2004).InRange ∧
    String.ofList ((ofYear 2004).marked .hyphen .hyphen) = "2004" ∧
    String.ofList ((ofYear 2004).timed .hyphen .hyphen .letter (.toHour 10)) = "2004T10" ∧
    parse? "2004T10" = some ⟨2004, some 10, none⟩ ∧ parse? "2004T10" ≠ parse? "2004" := by
  decide +kernel

end PartialDate

end AudioCatalog
