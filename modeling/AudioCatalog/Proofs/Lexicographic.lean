import AudioCatalog.Text.Numeral
import AudioCatalog.Text.Utf8
import Mathlib.Algebra.Group.Nat.Defs
import Mathlib.Data.List.Basic

namespace AudioCatalog

section

variable {α : Type} [Ord α]

theorem compare_cons (a b : α) (as bs : List α) :
    compare (a :: as) (b :: bs) = (compare a b).then (compare as bs) :=
  List.compareLex_cons_cons

theorem compare_append {as as' bs bs' : List α} (h : as.length = as'.length) :
    compare (as ++ bs) (as' ++ bs') = (compare as as').then (compare bs bs') := by
  induction as generalizing as' with
  | nil =>
      obtain rfl := List.length_eq_zero_iff.mp h.symm
      rfl
  | cons a as ih =>
      obtain ⟨a', as', rfl⟩ := List.exists_cons_of_length_eq_add_one h.symm
      rw [List.cons_append, List.cons_append, compare_cons, compare_cons, ih (Nat.succ.inj h),
        Ordering.then_assoc]

theorem compare_append_left [Std.ReflOrd α] (as bs bs' : List α) :
    compare (as ++ bs) (as ++ bs') = compare bs bs' := by
  rw [compare_append rfl, Std.ReflOrd.compare_self]
  rfl

end

theorem compareOfLessAndEq_congr {α β : Type} [LT α] [DecidableLT α] [DecidableEq α] [LT β]
    [DecidableLT β] [DecidableEq β] {a b : α} {c d : β} (hlt : a < b ↔ c < d) (heq : a = b ↔ c = d) :
    compareOfLessAndEq a b = compareOfLessAndEq c d := by
  simp only [compareOfLessAndEq, hlt, heq]

namespace Text

def byteOf (c : Char) : UInt8 := UInt8.ofNat c.toNat

theorem compare_byteOf {c d : Char} (hc : c.toNat < 128) (hd : d.toNat < 128) :
    compare (byteOf c) (byteOf d) = compare c d := by
  have toNat_byteOf {c : Char} (h : c.toNat < 128) : (byteOf c).toNat = c.toNat :=
    UInt8.toNat_ofNat_of_lt' (Nat.lt_trans h (by decide))
  have hlt : byteOf c < byteOf d ↔ c < d := by
    rw [UInt8.lt_iff_toNat_lt, toNat_byteOf hc, toNat_byteOf hd]
    rfl
  have heq : byteOf c = byteOf d ↔ c = d := by
    rw [← UInt8.toNat_inj, toNat_byteOf hc, toNat_byteOf hd, Char.toNat_inj]
  exact compareOfLessAndEq_congr hlt heq

theorem encode_ofList {cs : List Char} (h : ∀ c ∈ cs, c.toNat < 128) :
    Utf8.encode (String.ofList cs) = cs.map byteOf := by
  have single : ∀ c ∈ cs, String.utf8EncodeChar c = [byteOf c] := fun c hc =>
    if_pos (Nat.le_of_lt_succ (h c hc))
  have bytes : Utf8.encode (String.ofList cs) = cs.flatMap String.utf8EncodeChar := by
    rw [Utf8.encode, String.toByteArray_ofList, List.utf8Encode]
    simp
  rw [bytes, List.map_eq_flatMap]
  exact List.flatMap_congr single

theorem compare_encode {cs ds : List Char} (hcs : ∀ c ∈ cs, c.toNat < 128)
    (hds : ∀ d ∈ ds, d.toNat < 128) :
    compare (Utf8.encode (String.ofList cs)) (Utf8.encode (String.ofList ds)) = compare cs ds := by
  rw [encode_ofList hcs, encode_ofList hds]
  induction cs generalizing ds with
  | nil => cases ds <;> rfl
  | cons c cs ih =>
      cases ds with
      | nil => rfl
      | cons d ds =>
          rw [List.forall_mem_cons] at hcs hds
          rw [List.map_cons, List.map_cons, compare_cons, compare_cons, compare_byteOf hcs.1 hds.1,
            ih hcs.2 hds.2]

namespace Numeral

variable {cs ds : List Char} {width m n : Nat}

def digitValue (c : Char) : Nat := c.toNat - '0'.toNat

theorem digitValue_lt {c : Char} (h : c.isDigit = true) : digitValue c < 10 := by
  obtain ⟨_, hle⟩ := Char.isDigit_iff_toNat.mp h
  have hnine : '9'.toNat = '0'.toNat + 9 := rfl
  rw [digitValue]
  omega

theorem compare_digitValue {c d : Char} (hc : c.isDigit = true) (hd : d.isDigit = true) :
    compare (digitValue c) (digitValue d) = compare c d := by
  obtain ⟨hc, -⟩ := Char.isDigit_iff_toNat.mp hc
  obtain ⟨hd, -⟩ := Char.isDigit_iff_toNat.mp hd
  have hlt : digitValue c < digitValue d ↔ c < d := by
    show c.toNat - '0'.toNat < d.toNat - '0'.toNat ↔ c.toNat < d.toNat
    omega
  have heq : digitValue c = digitValue d ↔ c = d := by
    rw [← Char.toNat_inj, digitValue, digitValue]
    omega
  exact compareOfLessAndEq_congr hlt heq

theorem ofDigitChars_lt (hcs : ∀ c ∈ cs, c.isDigit = true) (n : Nat) :
    Nat.ofDigitChars 10 cs n < (n + 1) * 10 ^ cs.length := by
  induction cs generalizing n with
  | nil => simp
  | cons c cs ih =>
      rw [List.forall_mem_cons] at hcs
      have hc := digitValue_lt hcs.1
      calc Nat.ofDigitChars 10 (c :: cs) n = Nat.ofDigitChars 10 cs (10 * n + digitValue c) :=
            Nat.ofDigitChars_cons
        _ < (10 * n + digitValue c + 1) * 10 ^ cs.length := ih hcs.2 _
        _ ≤ (10 * (n + 1)) * 10 ^ cs.length := Nat.mul_le_mul_right _ (by omega)
        _ = (n + 1) * 10 ^ (c :: cs).length := by
            rw [List.length_cons, Nat.pow_succ, Nat.mul_comm 10, Nat.mul_assoc, Nat.mul_comm 10]

theorem compare_push {i j : Nat} (hi : i < 10) (hj : j < 10) :
    compare (10 * m + i) (10 * n + j) = (compare m n).then (compare i j) := by
  rcases Nat.lt_trichotomy m n with h | rfl | h
  · rw [Nat.compare_eq_lt.mpr h, Nat.compare_eq_lt.mpr (by omega)]
    rfl
  · rw [Std.ReflOrd.compare_self, Nat.compare_eq_ite_lt, Nat.compare_eq_ite_lt]
    simp only [Nat.add_lt_add_iff_left]
    rfl
  · rw [Nat.compare_eq_gt.mpr h, Nat.compare_eq_gt.mpr (by omega)]
    rfl

/-- As many digits are in the order of the numbers that they spell, from whatever is before them. -/
theorem compare_ofDigitChars (hlength : cs.length = ds.length)
    (hcs : ∀ c ∈ cs, c.isDigit = true) (hds : ∀ d ∈ ds, d.isDigit = true) (m n : Nat) :
    compare (Nat.ofDigitChars 10 cs m) (Nat.ofDigitChars 10 ds n) =
      (compare m n).then (compare cs ds) := by
  induction cs generalizing ds m n with
  | nil =>
      obtain rfl := List.length_eq_zero_iff.mp hlength.symm
      exact Ordering.then_eq.symm
  | cons c cs ih =>
      obtain ⟨d, ds, rfl⟩ := List.exists_cons_of_length_eq_add_one hlength.symm
      rw [List.forall_mem_cons] at hcs hds
      rw [Nat.ofDigitChars_cons, Nat.ofDigitChars_cons, ih (Nat.succ.inj hlength) hcs.2 hds.2,
        ← digitValue, ← digitValue, compare_push (digitValue_lt hcs.1) (digitValue_lt hds.1),
        compare_digitValue hcs.1 hds.1, Ordering.then_assoc, compare_cons]

theorem length_padded (hwidth : 0 < width) (h : n < 10 ^ width) :
    (padded width n).length = width := by
  have := (Nat.length_toDigits_le_iff (b := 10) (by decide) hwidth).mpr h
  rw [padded, List.length_append, List.length_replicate]
  omega

theorem compare_padded (hwidth : 0 < width) (hm : m < 10 ^ width) (hn : n < 10 ^ width) :
    compare (padded width m) (padded width n) = compare m n := by
  have spelt := compare_ofDigitChars
    ((length_padded hwidth hm).trans (length_padded hwidth hn).symm)
    (fun _ => isDigit_of_mem_padded) (fun _ => isDigit_of_mem_padded) 0 0
  rw [ofDigitChars_padded, ofDigitChars_padded] at spelt
  exact spelt.symm

theorem compare_padded_append (hwidth : 0 < width) (hm : m < 10 ^ width) (hn : n < 10 ^ width) :
    compare (padded width m ++ cs) (padded width n ++ ds) =
      (compare m n).then (compare cs ds) := by
  rw [compare_append ((length_padded hwidth hm).trans (length_padded hwidth hn).symm),
    compare_padded hwidth hm hn]

end Numeral

end Text

end AudioCatalog
