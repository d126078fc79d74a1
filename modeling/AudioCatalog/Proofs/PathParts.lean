import AudioCatalog.Path
import Mathlib.Tactic.SplitIfs

namespace AudioCatalog

theorem not_separator_of_mem_splitOnP {α : Type} {p : α → Bool} {l part : List α}
    (h : part ∈ l.splitOnP p) : ∀ a ∈ part, p a = false := by
  induction l generalizing part with
  | nil => simp_all
  | cons b l ih =>
      rw [List.splitOnP_cons_eq_if_modifyHead] at h
      split_ifs at h with hb
      · rcases List.mem_cons.mp h with rfl | h
        · simp
        · exact ih h
      · obtain ⟨first, rest, hparts⟩ := List.exists_cons_of_ne_nil (List.splitOnP_ne_nil p l)
        rw [hparts] at h ih
        rcases List.mem_cons.mp h with rfl | h
        · exact List.forall_mem_cons.mpr ⟨by simpa using hb, ih (by simp)⟩
        · exact ih (by simp [h])

namespace Path

theorem slash_not_mem_of_mem_pieces {p : Path} {piece : Name} (h : piece ∈ p.pieces) :
    slash ∉ piece := fun hmem => by
  simpa using not_separator_of_mem_splitOnP h slash hmem

theorem ofPieces_pieces (p : Path) : ofPieces p.pieces = p := by
  have : [slash].intercalate (p.bytes.splitOn slash) = p.bytes := List.intercalate_splitOn slash
  rw [List.splitOn_eq_splitOnP] at this
  exact congrArg Path.mk this

theorem pieces_ofPieces {l : List Name} (hl : l ≠ []) (h : ∀ piece ∈ l, slash ∉ piece) :
    (ofPieces l).pieces = l := by
  have := List.splitOn_intercalate slash h hl
  rwa [List.splitOn_eq_splitOnP] at this

theorem bytes_eq_of_pieces {p : Path} {first : Name} {rest : List Name}
    (h : p.pieces = first :: rest) : p.bytes = first ++ rest.flatMap (slash :: ·) := by
  have hp := congrArg Path.bytes (ofPieces_pieces p)
  rw [h, ofPieces] at hp
  rw [← hp]
  clear hp h
  induction rest generalizing first with
  | nil => simp
  | cons second rest ih =>
      have := @ih second
      simp_all [List.intercalate_cons_cons]

theorem isAbsolute_eq (p : Path) :
    p.isAbsolute = (p.pieces.head? == some [] && p.pieces.tail != []) := by
  obtain ⟨bytes⟩ := p
  cases bytes with
  | nil => rfl
  | cons b bytes =>
      obtain ⟨first, rest, hpieces⟩ :=
        List.exists_cons_of_ne_nil (List.splitOnP_ne_nil (· == slash) bytes)
      by_cases hb : b = slash
      · simp [isAbsolute, pieces, List.splitOnP_cons_eq_if_modifyHead, hb, hpieces]
      · simp [isAbsolute, pieces, List.splitOnP_cons_eq_if_modifyHead, hb, hpieces]

/-- The last piece is empty in the empty path and after a slash. -/
theorem getLast?_pieces (p : Path) :
    p.pieces.getLast? = some [] ↔ p.bytes = [] ∨ p.bytes.getLast? = some slash := by
  obtain ⟨bytes⟩ := p
  rcases List.eq_nil_or_concat bytes with rfl | ⟨init, b, rfl⟩
  · simp [pieces]
  · by_cases hb : b = slash
    · have split := List.splitOnP_append_cons (p := (· == slash)) init [] (beq_self_eq_true slash)
      simp [pieces, hb, split]
    · have last : ∀ l : List UInt8,
          ((l ++ [b]).splitOnP (· == slash)).getLast? ≠ some [] := by
        intro l
        induction l with
        | nil => simp [List.splitOnP_cons_eq_if_modifyHead, hb]
        | cons c l ih =>
            obtain ⟨first, rest, hpieces⟩ :=
              List.exists_cons_of_ne_nil (List.splitOnP_ne_nil (· == slash) (l ++ [b]))
            rw [hpieces] at ih
            rw [List.cons_append, List.splitOnP_cons_eq_if_modifyHead, hpieces]
            split_ifs
            · simpa using ih
            · cases rest with
              | nil => simp
              | cons second rest => simpa using ih
      rw [List.concat_eq_append]
      simp [pieces, last, hb]

def stem (p : Path) : List Name :=
  if p.pieces.getLast? = some [] then p.pieces.dropLast else p.pieces

theorem pieces_join (base : Path) {p : Path} (h : p.isAbsolute = false) :
    (base.join p).pieces = base.stem ++ p.pieces := by
  have split (l : List UInt8) : (l ++ slash :: p.bytes).splitOnP (· == slash) =
      l.splitOnP (· == slash) ++ p.pieces :=
    List.splitOnP_append_cons l p.bytes (beq_self_eq_true slash)
  rw [join, h, if_neg Bool.false_ne_true, stem]
  by_cases hlast : base.bytes = [] ∨ base.bytes.getLast? = some slash
  · rw [if_pos hlast, if_pos ((getLast?_pieces base).mpr hlast)]
    rcases hlast with hempty | hlast
    · simp [pieces, hempty]
    · obtain ⟨init, hbytes⟩ := List.getLast?_eq_some_iff.mp hlast
      have opened := split init
      have closed : base.pieces = init.splitOnP (· == slash) ++ [[]] := by
        rw [pieces, hbytes]
        exact List.splitOnP_append_cons init [] (beq_self_eq_true slash)
      rw [closed, List.dropLast_concat, ← opened, pieces, hbytes, List.append_assoc]
      rfl
  · rw [if_neg hlast, if_neg (mt (getLast?_pieces base).mp hlast)]
    exact split base.bytes

theorem pieces_eq_of_bytes_ne {p : Path} (h : p.bytes ≠ []) : p.pieces ≠ [[]] := by
  intro hpieces
  have := ofPieces_pieces p
  rw [hpieces] at this
  exact h (by rw [← this]; rfl)

def componentsOf (first : Name) (rest : List Name) : List Component :=
  if first = [] then .root :: bodyComponents rest
  else if first = [dot] then .current :: bodyComponents rest
  else bodyComponents (first :: rest)

theorem bodyComponents_append (l l' : List Name) :
    bodyComponents (l ++ l') = bodyComponents l ++ bodyComponents l' := by
  simp [bodyComponents]

theorem bodyComponents_idle {l : List Name} (h : ∀ piece ∈ l, isIdle piece) :
    bodyComponents l = [] := by
  simpa [bodyComponents, List.filter_eq_nil_iff] using h

theorem componentsOf_append (first : Name) (rest more : List Name) :
    componentsOf first (rest ++ more) = componentsOf first rest ++ bodyComponents more := by
  unfold componentsOf
  rw [← List.cons_append, bodyComponents_append, bodyComponents_append]
  split_ifs <;> rfl

theorem components_eq {p : Path} {first : Name} {rest : List Name} (h : p.bytes ≠ [])
    (hpieces : p.pieces = first :: rest) : p.components = componentsOf first rest := by
  have hne := pieces_eq_of_bytes_ne h
  rw [hpieces] at hne
  have habsolute := isAbsolute_eq p
  rw [hpieces] at habsolute
  unfold components componentsOf
  rw [hpieces, habsolute]
  by_cases hfirst : first = []
  · have : rest ≠ [] := by
      rintro rfl
      exact hne (by rw [hfirst])
    simp [hfirst, this]
  · simp [hfirst]

theorem exists_stem {p : Path} (h : p.bytes ≠ []) :
    ∃ first rest tail, p.stem = first :: rest ∧ p.pieces = first :: (rest ++ tail) ∧
      (∀ piece ∈ tail, isIdle piece) ∧ (p.isAbsolute = true ↔ first = []) := by
  have hne := pieces_eq_of_bytes_ne h
  obtain ⟨first, others, hpieces⟩ :=
    List.exists_cons_of_ne_nil (List.splitOnP_ne_nil (· == slash) p.bytes)
  have hpieces : p.pieces = first :: others := hpieces
  have habsolute : p.isAbsolute = true ↔ first = [] := by
    rw [hpieces] at hne
    rw [isAbsolute_eq, hpieces]
    suffices first = [] → others ≠ [] by simpa
    rintro rfl rfl
    exact hne rfl
  by_cases hlast : p.pieces.getLast? = some []
  · obtain ⟨init, hinit⟩ := List.getLast?_eq_some_iff.mp hlast
    cases init with
    | nil => exact absurd hinit hne
    | cons head rest =>
        obtain ⟨rfl, rfl⟩ := List.cons.inj (hpieces.symm.trans hinit)
        refine ⟨first, rest, [[]], ?_, hpieces, by simp [isIdle], habsolute⟩
        rw [stem, if_pos hlast, hinit, List.dropLast_concat]
  · exact ⟨first, others, [], by rw [stem, if_neg hlast, hpieces], by rw [hpieces, List.append_nil],
      by simp, habsolute⟩

theorem components_eq_of_stem {p : Path} {first : Name} {rest : List Name} (h : p.bytes ≠ [])
    (hstem : p.stem = first :: rest) : p.components = componentsOf first rest := by
  obtain ⟨first', rest', tail, hstem', hpieces, htail, -⟩ := exists_stem h
  rw [hstem] at hstem'
  obtain ⟨rfl, rfl⟩ := List.cons.inj hstem'
  rw [components_eq h hpieces, componentsOf_append, bodyComponents_idle htail, List.append_nil]

theorem join_bytes_ne {base p : Path} (h : base.bytes ≠ []) (hp : p.isAbsolute = false) :
    (base.join p).bytes ≠ [] ∧ (base.join p).isAbsolute = base.isAbsolute := by
  obtain ⟨_ | ⟨b, bytes⟩⟩ := base
  · exact absurd rfl h
  · rw [join, hp, if_neg Bool.false_ne_true]
    split
    · exact ⟨by simp, rfl⟩
    · exact ⟨by simp, rfl⟩

theorem join_bytes_eq (base : Path) {p : Path} (hp : p.isAbsolute = false) :
    ∃ gap, (gap = [] ∨ gap = [slash]) ∧ (base.join p).bytes = base.bytes ++ (gap ++ p.bytes) := by
  rw [join, hp, if_neg Bool.false_ne_true]
  split
  · exact ⟨[], .inl rfl, rfl⟩
  · exact ⟨[slash], .inr rfl, rfl⟩

theorem components_join {base p : Path} (h : base.bytes ≠ []) (hp : p.isAbsolute = false) :
    (base.join p).components = base.components ++ bodyComponents p.pieces := by
  obtain ⟨first, rest, -, hstem, -, -, -⟩ := exists_stem h
  have hpieces := pieces_join base hp
  rw [hstem, List.cons_append] at hpieces
  rw [components_eq (join_bytes_ne h hp).1 hpieces, componentsOf_append,
    components_eq_of_stem h hstem]

/-- The path without slashes and dots at its end that change nothing about it. -/
def trim (p : Path) : Path :=
  match p.stem with
  | [] => p
  | first :: rest =>
    match rest.reverse.dropWhile isIdle with
    | [] => if p.isAbsolute then ⟨[slash]⟩ else ⟨first⟩
    | kept => ofPieces (first :: kept.reverse)

theorem pieces_name {name : Name} (h : IsName name) : (Path.mk name).pieces = [name] := by
  apply List.splitOnP_eq_singleton
  intro b hb
  have : b ≠ slash := fun he => h.2.2.2 (he ▸ hb)
  simpa using this

theorem isIdle_name {name : Name} (h : IsName name) : isIdle name = false := by
  simp [isIdle, h.1, h.2.1]

theorem IsName.isAbsolute_eq {name : Name} (h : IsName name) :
    (Path.mk name).isAbsolute = false := by
  rw [Path.isAbsolute_eq, pieces_name h]
  simp

theorem pieces_join_name (base : Path) {name : Name} (h : IsName name) :
    (base.join ⟨name⟩).pieces = base.stem ++ [name] := by
  rw [pieces_join base h.isAbsolute_eq, pieces_name h]

theorem parent?_join (base : Path) {name : Name} (h : IsName name) :
    (base.join ⟨name⟩).parent? = some base.trim := by
  have hpieces := pieces_join_name base h
  by_cases hbase : base.bytes = []
  · obtain rfl : base = ⟨[]⟩ := congrArg Path.mk hbase
    rw [parent?, hpieces]
    simp [stem, pieces, trim, h.1]
  · obtain ⟨first, rest, -, hstem, -, -, -⟩ := exists_stem hbase
    have kept : (rest ++ [name]).reverse.dropWhile isIdle = name :: rest.reverse := by
      simp [isIdle_name h]
    rw [hstem, List.cons_append] at hpieces
    rw [parent?, hpieces, trim, hstem]
    simp only [kept, (join_bytes_ne hbase h.isAbsolute_eq).2]
    cases rest.reverse.dropWhile isIdle with
    | nil =>
        dsimp only
        split_ifs <;> rfl
    | cons last kept => rfl

theorem stem_eq_pieces {p : Path} {piece : Name} (hlast : p.pieces.getLast? = some piece)
    (hne : piece ≠ []) : p.stem = p.pieces := by
  rw [stem, if_neg]
  rw [hlast]
  exact fun he => hne (Option.some.inj he)

theorem stem_join_name (base : Path) {name : Name} (h : IsName name) :
    (base.join ⟨name⟩).stem = base.stem ++ [name] := by
  have hpieces := pieces_join_name base h
  rw [stem_eq_pieces (by rw [hpieces, List.getLast?_concat]) h.1, hpieces]

theorem exists_stem_trim {p : Path} (h : p.bytes ≠ []) :
    ∃ first kept idle, p.stem = first :: (kept ++ idle) ∧ (∀ piece ∈ idle, isIdle piece) ∧
      p.trim.stem = first :: kept ∧ p.trim.bytes ≠ [] ∧ p.trim.isAbsolute = p.isAbsolute := by
  obtain ⟨first, rest, tail, hstem, hpieces, -, habsolute⟩ := exists_stem h
  have hfirst : slash ∉ first := slash_not_mem_of_mem_pieces (p := p) (by simp [hpieces])
  have hrest : ∀ piece ∈ rest, slash ∉ piece := fun piece hpiece =>
    slash_not_mem_of_mem_pieces (p := p) (by simp [hpieces, hpiece])
  have split := List.takeWhile_append_dropWhile (p := isIdle) (l := rest.reverse)
  have idle : ∀ piece ∈ (rest.reverse.takeWhile isIdle).reverse, isIdle piece := by
    intro piece hpiece
    exact List.all_eq_true.mp List.all_takeWhile piece (List.mem_reverse.mp hpiece)
  refine ⟨first, (rest.reverse.dropWhile isIdle).reverse, _, ?_, idle, ?_⟩
  · rw [← List.reverse_append, split, List.reverse_reverse, hstem]
  · cases hkept : rest.reverse.dropWhile isIdle with
    | nil =>
        by_cases hp : p.isAbsolute = true
        · have htrim : p.trim = ⟨[slash]⟩ := by
            simp only [trim, hstem, hkept, hp, if_true]
          rw [htrim, hp, habsolute.mp hp]
          exact ⟨rfl, by simp, rfl⟩
        · have hne : first ≠ [] := mt habsolute.mpr hp
          have htrim : p.trim = ⟨first⟩ := by
            simp only [trim, hstem, hkept, hp]
            rfl
          have single : (Path.mk first).pieces = [first] :=
            List.splitOnP_eq_singleton fun b hb => by
              have : b ≠ slash := fun he => hfirst (he ▸ hb)
              simpa using this
          rw [htrim, Bool.eq_false_iff.mpr hp]
          refine ⟨?_, hne, ?_⟩
          · rw [stem_eq_pieces (by rw [single]; rfl) hne, single]
            rfl
          · rw [isAbsolute_eq, single]
            simp
    | cons last above =>
        have htrim : p.trim = ofPieces (first :: (last :: above).reverse) := by
          simp only [trim, hstem, hkept]
        have busy : isIdle last = false := by
          have := List.head?_dropWhile_not isIdle rest.reverse
          rwa [hkept] at this
        have hne : last ≠ [] := fun he => by simp [isIdle, he] at busy
        have hmem : ∀ piece ∈ (last :: above).reverse, slash ∉ piece := by
          intro piece hpiece
          refine hrest piece (List.mem_reverse.mp ?_)
          exact List.dropWhile_subset isIdle (hkept ▸ List.mem_reverse.mp hpiece)
        have hlist : p.trim.pieces = first :: (last :: above).reverse := by
          rw [htrim]
          exact pieces_ofPieces (by simp) (List.forall_mem_cons.mpr ⟨hfirst, hmem⟩)
        refine ⟨?_, ?_, ?_⟩
        · have hlast : p.trim.pieces.getLast? = some last := by
            rw [hlist, List.reverse_cons, ← List.cons_append, List.getLast?_concat]
          rw [stem_eq_pieces hlast hne, hlist]
        · intro hempty
          rw [pieces, hempty] at hlist
          simp at hlist
        · rw [isAbsolute_eq, hlist, Bool.eq_iff_iff, habsolute]
          simp

theorem components_trim {p : Path} (h : p.bytes ≠ []) : p.trim.components = p.components := by
  obtain ⟨first, kept, idle, hstem, hidle, hstem', hne, -⟩ := exists_stem_trim h
  rw [components_eq_of_stem h hstem, components_eq_of_stem hne hstem', componentsOf_append,
    bodyComponents_idle hidle, List.append_nil]

theorem trim_join (base : Path) {name : Name} (h : IsName name) :
    (base.join ⟨name⟩).trim = base.join ⟨name⟩ := by
  have hpieces := pieces_join_name base h
  have hstem := stem_join_name base h
  have hall := ofPieces_pieces (base.join ⟨name⟩)
  rw [hpieces] at hall
  cases hbase : base.stem with
  | nil =>
      rw [hbase, List.nil_append] at hall hpieces hstem
      have relative : (base.join ⟨name⟩).isAbsolute = false := by
        rw [isAbsolute_eq, hpieces]
        simp
      have single : ofPieces [name] = ⟨name⟩ := congrArg Path.mk List.intercalate_singleton
      simpa [trim, hstem, relative] using single.symm.trans hall
  | cons first rest =>
      rw [hbase, List.cons_append] at hall hstem
      have kept : (rest ++ [name]).reverse.dropWhile isIdle = name :: rest.reverse := by
        simp [isIdle_name h]
      simp only [trim, hstem, kept]
      simpa using hall

end Path

end AudioCatalog
