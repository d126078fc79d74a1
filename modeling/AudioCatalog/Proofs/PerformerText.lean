import AudioCatalog.Proofs.ClusterNames
import AudioCatalog.Tag.Performer
import Mathlib.Data.List.TakeDrop
import Mathlib.Data.Option.Basic

namespace AudioCatalog

namespace Text

variable {cs before after : List Char} {c : Char}

theorem trimEnd_append_cons (hc : isBlank c = false) :
    trimEnd (before ++ c :: after) = before ++ c :: trimEnd after := by
  have kept : (c :: before.reverse).dropWhile isBlank = c :: before.reverse :=
    dropWhile_eq_self fun d hd => Option.some.inj hd ▸ hc
  have hreverse : (before ++ c :: after).reverse = after.reverse ++ (c :: before.reverse) := by simp
  rw [trimEnd, hreverse, List.dropWhile_append, kept, trimEnd]
  split_ifs with hall
  · simp [List.isEmpty_iff.mp hall]
  · simp

theorem trim_append_cons (hhead : ∀ d, (before ++ [c]).head? = some d → isBlank d = false)
    (hc : isBlank c = false) : trim (before ++ c :: after) = before ++ c :: trimEnd after := by
  rw [trim, dropWhile_eq_self, trimEnd_append_cons hc]
  intro d hd
  refine hhead d ?_
  rw [← hd]
  cases before <;> rfl

theorem isBlank_head?_append (htrim : trim cs = cs) (hne : cs ≠ []) {d : Char}
    (hd : (cs ++ after).head? = some d) : isBlank d = false := by
  rw [List.head?_append_of_ne_nil cs hne, ← htrim] at hd
  exact head?_trim hd

theorem trim_append_blank (htrim : trim cs = cs) (hne : cs ≠ []) : trim (cs ++ [' ']) = cs := by
  have hlast : isBlank (cs.getLast hne) = false := by
    have last : (trim cs).getLast? = some (cs.getLast hne) := by
      rw [htrim, List.getLast?_eq_some_getLast hne]
    exact getLast?_trim last
  have hsplit : cs ++ [' '] = cs.dropLast ++ cs.getLast hne :: [' '] := by
    rw [List.append_cons cs.dropLast, List.dropLast_append_getLast hne]
  have hhead {d : Char} (hd : (cs.dropLast ++ [cs.getLast hne]).head? = some d) :
      isBlank d = false := by
    rw [List.dropLast_append_getLast hne, ← htrim] at hd
    exact head?_trim hd
  rw [hsplit, trim_append_cons (fun _ => hhead) hlast]
  exact List.dropLast_append_getLast hne

end Text

theorem isPlainName_iff {name : String} :
    isPlainName name = true ↔ name.toList ≠ [] ∧ Text.trim name.toList = name.toList := by
  rw [isPlainName, Bool.and_eq_true, decide_eq_true_eq, decide_eq_true_eq, Text.trimmed]
  refine and_congr (by simp) ⟨fun h => ?_, fun h => ?_⟩
  · have := congrArg String.toList h
    rwa [String.toList_ofList] at this
  · rw [h, String.ofList_toList]

namespace Tag.Performer

open Text

variable {before inside : List Char} {name role : String}

theorem splitOpening?_append (hinside : '(' ∉ inside) :
    splitOpening? (before ++ '(' :: inside) = some (before, inside) := by
  have inner : ∀ c ∈ inside.reverse, decide (c ≠ '(') = true := by
    intro c hc
    rw [decide_eq_true_eq]
    rintro rfl
    exact hinside (List.mem_reverse.mp hc)
  have hreverse : (before ++ '(' :: inside).reverse = inside.reverse ++ '(' :: before.reverse := by
    simp
  rw [splitOpening?, hreverse, List.span_eq_takeWhile_dropWhile, List.takeWhile_append_of_pos inner,
    List.dropWhile_append_of_pos inner]
  simp

theorem splitRole?_append (hinside : '(' ∉ inside) (hbefore : trim before ≠ []) :
    splitRole? (before ++ '(' :: inside ++ [')']) = some (trim before, trim inside) := by
  have hlast : (before ++ '(' :: inside ++ [')']).getLast? = some ')' := List.getLast?_concat
  rw [splitRole?, hlast, List.dropLast_concat, splitOpening?_append hinside]
  simp [hbefore]

theorem ofText_of_splitRole? {text : String} {name role : List Char}
    (h : splitRole? (trim text.toList) = some (name, role)) :
    ofText text =
      ⟨String.ofList name, if role = [] then none else some (String.ofList role)⟩ := by
  rw [ofText, h]
  cases role <;> rfl

def written (name role : String) : String := name ++ " (" ++ role ++ ")"

/-- What stands before the last opening parenthesis is the name, and what stands after it, up to the
end, is the role. -/
theorem ofText_written (hname : isPlainName name = true) (hinside : '(' ∉ inside)
    (hsplit : name.toList ++ ' ' :: '(' :: role.toList = before ++ '(' :: inside)
    (hbefore : trim before ≠ []) :
    ofText (written name role) = ⟨String.ofList (trim before),
      if trim inside = [] then none else some (String.ofList (trim inside))⟩ := by
  obtain ⟨hne, htrim⟩ := isPlainName_iff.mp hname
  apply ofText_of_splitRole?
  have htext : (written name role).toList = before ++ '(' :: inside ++ [')'] := by
    rw [← hsplit]
    simp [written]
  have hhead {d : Char} (hd : (before ++ '(' :: inside ++ [')']).head? = some d) :
      isBlank d = false := by
    rw [← hsplit, List.append_assoc] at hd
    exact isBlank_head?_append htrim hne hd
  rw [htext, trim_append_cons (fun _ => hhead) (by decide)]
  exact splitRole?_append hinside hbefore

/-- If the role has a parenthesis opened in it, all that stands before the last one goes to the
name. -/
theorem ofText_written_nested (hname : isPlainName name = true) {outer inner : List Char}
    (hrole : role.toList = outer ++ '(' :: inner) (hinner : '(' ∉ inner) :
    ofText (written name role) = ⟨name ++ " (" ++ String.ofList (trimEnd outer),
      if trim inner = [] then none else some (String.ofList (trim inner))⟩ := by
  obtain ⟨hne, htrim⟩ := isPlainName_iff.mp hname
  have hbefore : trim (name.toList ++ [' '] ++ '(' :: outer) =
      name.toList ++ [' '] ++ '(' :: trimEnd outer := by
    refine trim_append_cons (fun d hd => ?_) (by decide)
    rw [List.append_assoc] at hd
    exact isBlank_head?_append htrim hne hd
  have hsplit : name.toList ++ ' ' :: '(' :: role.toList =
      name.toList ++ [' '] ++ '(' :: outer ++ '(' :: inner := by
    simp [hrole]
  rw [ofText_written hname hinner hsplit (by rw [hbefore]; simp), hbefore]
  congr 1
  apply String.toList_inj.mp
  simp

theorem exists_last_opening {cs : List Char} (h : '(' ∈ cs) :
    ∃ outer inner, cs = outer ++ '(' :: inner ∧ '(' ∉ inner := by
  obtain ⟨inner, outer, hcs, hinner⟩ := List.eq_append_cons_of_mem (List.mem_reverse.mpr h)
  refine ⟨outer.reverse, inner.reverse, ?_, by simpa using hinner⟩
  rw [← List.reverse_reverse cs, hcs]
  simp

/-- Whatever else stands in a name and a role, they are read as they were written if no parenthesis
is opened in the role, and only then. -/
theorem ofText_written_iff (hname : isPlainName name = true) (hrole : isPlainName role = true) :
    ofText (written name role) = ⟨name, some role⟩ ↔ '(' ∉ role.toList := by
  obtain ⟨hne, htrim⟩ := isPlainName_iff.mp hname
  obtain ⟨hne', htrim'⟩ := isPlainName_iff.mp hrole
  constructor
  · intro hread hopen
    obtain ⟨outer, inner, hsplit, hinner⟩ := exists_last_opening hopen
    rw [ofText_written_nested hname hsplit hinner] at hread
    have hlength := congrArg (fun performer => performer.name.length) hread
    have hgap : " (".length = 2 := rfl
    simp only [String.length_append, hgap] at hlength
    omega
  · intro hclosed
    rw [ofText_written hname hclosed (List.append_cons _ _ _) (by rwa [trim_append_blank htrim hne]),
      trim_append_blank htrim hne, htrim', if_neg hne', String.ofList_toList, String.ofList_toList]

theorem ofText_written_trio : isPlainName "Trio (Basel)" = true ∧
    isPlainName "string bass" = true ∧
    ofText (written "Trio (Basel)" "string bass") = ⟨"Trio (Basel)", some "string bass"⟩ := by
  have hname : isPlainName "Trio (Basel)" = true := by decide +kernel
  have hrole : isPlainName "string bass" = true := by decide +kernel
  exact ⟨hname, hrole, (ofText_written_iff hname hrole).mpr (by decide +kernel)⟩

/-- Each parenthesis that is closed was opened before, and all that are opened are closed, those
that are open already included. -/
def isBalanced : Nat → List Char → Bool
  | openings, [] => openings = 0
  | openings, '(' :: cs => isBalanced (openings + 1) cs
  | 0, ')' :: _ => false
  | openings + 1, ')' :: cs => isBalanced openings cs
  | openings, _ :: cs => isBalanced openings cs

/-- The role has a part in parentheses, and is cut within it. -/
theorem ofText_written_qualified : isPlainName "Jane Doe" = true ∧
    isPlainName "lead (guitar)" = true ∧ isBalanced 0 "Jane Doe".toList = true ∧
    isBalanced 0 "lead (guitar)".toList = true ∧
    ofText (written "Jane Doe" "lead (guitar)") = ⟨"Jane Doe (lead", some "guitar)"⟩ ∧
    ofText (written "Jane Doe" "lead (guitar)") ≠ ⟨"Jane Doe", some "lead (guitar)"⟩ := by
  decide +kernel

end Tag.Performer

end AudioCatalog
