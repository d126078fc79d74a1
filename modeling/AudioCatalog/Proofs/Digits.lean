import AudioCatalog.Text.Blank
import AudioCatalog.Text.Digits
import Mathlib.Algebra.Group.Nat.Defs
import Mathlib.Data.List.Induction
import Mathlib.Tactic.SplitIfs

namespace AudioCatalog

namespace Text

variable {c : Char} {d : Nat}

theorem toNat_toLower (c : Char) :
    c.toLower.toNat = if 65 ≤ c.toNat ∧ c.toNat ≤ 90 then c.toNat + 32 else c.toNat := by
  have hiff : (c.val ≥ 'A'.val ∧ c.val ≤ 'Z'.val) ↔ (65 ≤ c.toNat ∧ c.toNat ≤ 90) := by
    rw [ge_iff_le, UInt32.le_iff_toNat_le, UInt32.le_iff_toNat_le]
    rfl
  by_cases h : 65 ≤ c.toNat ∧ c.toNat ≤ 90
  · have hlower : c.toLower.toNat = (c.val + ('a'.val - 'A'.val)).toNat :=
      congrArg Char.toNat (dif_pos (hiff.mpr h))
    have hle : c.val.toNat ≤ 90 := h.2
    rw [if_pos h, hlower, UInt32.toNat_add]
    show (c.val.toNat + 32) % 2 ^ 32 = c.val.toNat + 32
    omega
  · have hsame : c.toLower = c := dif_neg fun hc => h (hiff.mp hc)
    rw [if_neg h, hsame]

theorem isBlank_of_toLower (h : 33 ≤ c.toLower.toNat ∧ c.toLower.toNat < 128) :
    isBlank c = false := by
  have ascii : ∀ n < 128, 33 ≤ n → isBlank (Char.ofNat n) = false := by decide
  rw [toNat_toLower] at h
  rw [← Char.ofNat_toNat c]
  apply ascii
  · split_ifs at h <;> omega
  · split_ifs at h <;> omega

namespace Digits

theorem toNat_digitChar :
    ∀ d < 16, (Nat.digitChar d).toNat = if d < 10 then 48 + d else 87 + d := by
  decide

theorem value?_eq_some_iff : value? c = some d ↔ d < 16 ∧ c.toLower = Nat.digitChar d := by
  -- Everything is said of code points, among which it is a matter of arithmetic.
  have hle (c d : Char) : c ≤ d ↔ c.toNat ≤ d.toNat := Iff.rfl
  have hdigit : '0'.toNat = 48 ∧ '9'.toNat = 57 ∧ 'a'.toNat = 97 ∧ 'f'.toNat = 102 ∧
    'A'.toNat = 65 ∧ 'F'.toNat = 70 := by decide
  obtain ⟨h0, h9, ha, hf, hA, hF⟩ := hdigit
  rw [value?, ← Char.toNat_inj, toNat_toLower]
  simp only [hle, h0, h9, ha, hf, hA, hF]
  constructor
  · intro h
    have hd : d < 16 := by split_ifs at h <;> cases h <;> omega
    rw [toNat_digitChar d hd]
    refine ⟨hd, ?_⟩
    split_ifs at h <;> cases h <;> split_ifs <;> omega
  · rintro ⟨hd, h⟩
    rw [toNat_digitChar d hd] at h
    split_ifs at h ⊢ <;> congr 1 <;> omega

def spelled (places value : Nat) : List Char :=
  (List.range places).map fun place => Nat.digitChar (value >>> (4 * (places - 1 - place)) % 16)

theorem spelled_succ (places value : Nat) :
    spelled (places + 1) value = spelled places (value / 16) ++ [Nat.digitChar (value % 16)] := by
  rw [spelled, List.range_succ, List.map_append]
  congr 1
  · apply List.map_congr_left
    intro place hplace
    have hlt := List.mem_range.mp hplace
    have hshift : 4 * (places + 1 - 1 - place) = 4 + 4 * (places - 1 - place) := by omega
    rw [hshift, Nat.shiftRight_add, Nat.shiftRight_eq_div_pow value 4]
  · simp

theorem valueBelow?_eq_some_iff :
    valueBelow? 16 c = some d ↔ d < 16 ∧ c.toLower = Nat.digitChar d := by
  rw [valueBelow?, Option.filter_eq_some_iff, value?_eq_some_iff, decide_eq_true_eq]
  exact and_iff_left_of_imp And.left

theorem number?_concat_iff {digits : List Char} {value : Nat} :
    number? 16 (digits ++ [c]) = some value ↔
      number? 16 digits = some (value / 16) ∧ c.toLower = Nat.digitChar (value % 16) := by
  have hstep : number? 16 (digits ++ [c]) =
      (number? 16 digits).bind fun n => (valueBelow? 16 c).map (16 * n + ·) := by
    simp [number?, List.foldlM_append]
  rw [hstep, Option.bind_eq_some_iff]
  constructor
  · rintro ⟨n, hn, hc⟩
    obtain ⟨d, hd, rfl⟩ := Option.map_eq_some_iff.mp hc
    obtain ⟨hlt, hd⟩ := valueBelow?_eq_some_iff.mp hd
    have hdiv : (16 * n + d) / 16 = n := by omega
    have hmod : (16 * n + d) % 16 = d := by omega
    rw [hdiv, hmod]
    exact ⟨hn, hd⟩
  · rintro ⟨hn, hc⟩
    have hd := valueBelow?_eq_some_iff.mpr ⟨Nat.mod_lt value (by decide), hc⟩
    refine ⟨value / 16, hn, Option.map_eq_some_iff.mpr ⟨value % 16, hd, ?_⟩⟩
    exact Nat.div_add_mod value 16

/-- Digits of either case spell the number that they would be written for in lower case. -/
theorem number?_eq_some_iff {digits : List Char} {value : Nat} : number? 16 digits = some value ↔
    value < 16 ^ digits.length ∧ digits.map Char.toLower = spelled digits.length value := by
  -- The last digit is the remainder, and those before it spell the quotient.
  induction digits using List.reverseRecOn generalizing value with
  | nil =>
      rw [number?, List.foldlM_nil]
      constructor
      · rintro ⟨⟩
        exact ⟨Nat.one_pos, rfl⟩
      · rintro ⟨hvalue, -⟩
        exact congrArg some (Nat.lt_one_iff.mp hvalue).symm
  | append_singleton digits c ih =>
      have hvalue : value < 16 ^ (digits.length + 1) ↔ value / 16 < 16 ^ digits.length := by
        rw [Nat.div_lt_iff_lt_mul (by decide), Nat.pow_succ]
      rw [number?_concat_iff, ih, List.length_append, List.length_singleton, spelled_succ,
        List.map_append, List.map_singleton, hvalue, and_assoc]
      simp

end Digits

end Text

end AudioCatalog
