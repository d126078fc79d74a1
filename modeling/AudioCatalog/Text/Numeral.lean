namespace AudioCatalog.Text.Numeral

def dropPlus : List Char → List Char
  | '+' :: digits => digits
  | digits => digits

/-- Refuses the empty numeral, a lone plus, any other character and a number above the limit. -/
def read? (limit : Nat) (text : List Char) : Option Nat :=
  let digits := dropPlus text
  let number := Nat.ofDigitChars 10 digits 0
  if digits ≠ [] ∧ digits.all Char.isDigit ∧ number ≤ limit then some number else none

def readByte? (text : List Char) : Option Nat := read? (UInt8.size - 1) text

def readWord? (text : List Char) : Option Nat := read? (UInt32.size - 1) text

def padded (width n : Nat) : List Char :=
  let digits := Nat.toDigits 10 n
  List.replicate (width - digits.length) '0' ++ digits

theorem mem_dropPlus {text : List Char} {c : Char} (hmem : c ∈ text) (hc : c ≠ '+') :
    c ∈ dropPlus text := by
  unfold dropPlus
  split
  · exact (List.mem_cons.mp hmem).resolve_left hc
  · exact hmem

theorem read?_eq_none {limit : Nat} {text : List Char} {c : Char} (hmem : c ∈ text) (hc : c ≠ '+')
    (hdigit : c.isDigit = false) : read? limit text = none := by
  have notDigits : ¬(dropPlus text).all Char.isDigit = true := by
    intro hall
    have := List.all_eq_true.mp hall c (mem_dropPlus hmem hc)
    rw [hdigit] at this
    cases this
  exact if_neg fun h => notDigits h.2.1

theorem padded_ne_nil (width n : Nat) : padded width n ≠ [] := by
  simp [padded, Nat.toDigits_ne_nil]

theorem isDigit_of_mem_padded {width n : Nat} {c : Char} (h : c ∈ padded width n) :
    c.isDigit = true := by
  rcases List.mem_append.mp h with h | h
  · rw [List.eq_of_mem_replicate h]; rfl
  · exact Nat.isDigit_of_mem_toDigits (by decide) (by decide) h

theorem dropPlus_padded (width n : Nat) : dropPlus (padded width n) = padded width n := by
  unfold dropPlus
  split
  · rename_i h
    have := isDigit_of_mem_padded (h ▸ List.mem_cons_self : '+' ∈ padded width n)
    simp at this
  · rfl

theorem ofDigitChars_padded (width n : Nat) : Nat.ofDigitChars 10 (padded width n) 0 = n := by
  rw [padded, Nat.ofDigitChars_append, Nat.ofDigitChars_replicate_zero, Nat.mul_zero,
    Nat.ofDigitChars_ten_toDigits]

theorem read?_padded {limit n : Nat} (width : Nat) (h : n ≤ limit) :
    read? limit (padded width n) = some n := by
  have digits : (padded width n).all Char.isDigit = true :=
    List.all_eq_true.mpr fun _ => isDigit_of_mem_padded
  simp [read?, dropPlus_padded, ofDigitChars_padded, padded_ne_nil, digits, h]

end AudioCatalog.Text.Numeral
