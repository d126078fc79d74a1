import AudioCatalog.Catalog.Session

namespace AudioCatalog

variable {ε σ α β : Type}

/-- Started in `s`, the computation succeeds with a result and a state that satisfy `ok`, or it
fails with an error and a state that satisfy `error`. -/
def Ends (x : EStateM ε σ α) (s : σ) (ok : α → σ → Prop) (error : ε → σ → Prop) : Prop :=
  match x s with
  | .ok a t => ok a t
  | .error e t => error e t

def Succeeds (x : EStateM ε σ α) (s : σ) (ok : α → σ → Prop) : Prop :=
  Ends x s ok fun _ _ => False

instance (x : EStateM ε σ α) (s : σ) (ok : α → σ → Prop) (error : ε → σ → Prop)
    [∀ a t, Decidable (ok a t)] [∀ e t, Decidable (error e t)] : Decidable (Ends x s ok error) :=
  match h : x s with
  | .ok a t => decidable_of_iff (ok a t) (by rw [Ends, h])
  | .error e t => decidable_of_iff (error e t) (by rw [Ends, h])

instance (x : EStateM ε σ α) (s : σ) (ok : α → σ → Prop) [∀ a t, Decidable (ok a t)] :
    Decidable (Succeeds x s ok) :=
  inferInstanceAs (Decidable (Ends x s ok fun _ _ => False))

def Keeps (I : σ → Prop) (x : EStateM ε σ α) : Prop :=
  ∀ s, I s → Ends x s (fun _ => I) (fun _ => I)

theorem succeeds_iff {x : EStateM ε σ α} {s : σ} {ok : α → σ → Prop} :
    Succeeds x s ok ↔ ∃ a t, x s = .ok a t ∧ ok a t := by
  unfold Succeeds Ends
  cases x s with
  | ok a t => exact ⟨fun h => ⟨a, t, rfl, h⟩, by rintro ⟨_, _, ⟨⟩, h⟩; exact h⟩
  | error e t => exact ⟨False.elim, by rintro ⟨_, _, ⟨⟩, _⟩⟩

theorem bind_eq_of_eq {x y : EStateM ε σ α} {f : α → EStateM ε σ β} {s t : σ} (h : x s = y t) :
    (x >>= f) s = (y >>= f) t := by
  simp only [Bind.bind, EStateM.bind, h]

theorem bind_eq_of_ok {x : EStateM ε σ α} {f : α → EStateM ε σ β} {s t : σ} {a : α}
    (h : x s = .ok a t) : (x >>= f) s = f a t := by
  simp only [Bind.bind, EStateM.bind, h]

theorem allM_cons_eq_of_ok {p : α → EStateM ε σ Bool} {l : List α} {s t : σ} {a : α}
    (h : p a s = .ok true t) : (a :: l).allM p s = l.allM p t :=
  bind_eq_of_ok h

section AdaptExcept

variable {δ : Type} (g : ε → δ)

theorem adaptExcept_bind (x : EStateM ε σ α) (f : α → EStateM ε σ β) :
    (x >>= f).adaptExcept g = x.adaptExcept g >>= fun a => (f a).adaptExcept g := by
  funext s
  simp only [Bind.bind, EStateM.bind, EStateM.adaptExcept]
  cases x s <;> rfl

theorem adaptExcept_allM (p : α → EStateM ε σ Bool) (l : List α) :
    (l.allM p).adaptExcept g = l.allM fun a => (p a).adaptExcept g := by
  induction l with
  | nil => rfl
  | cons a l ih =>
      rw [List.allM, List.allM, adaptExcept_bind]
      congr 1
      funext goesOn
      cases goesOn with
      | true => exact ih
      | false => rfl

end AdaptExcept

namespace Ends

variable {x : EStateM ε σ α} {f : α → EStateM ε σ β} {s : σ}

@[simp]
theorem adaptExcept_iff {δ : Type} {g : ε → δ} {ok : α → σ → Prop} {error : δ → σ → Prop} :
    Ends (x.adaptExcept g) s ok error ↔ Ends x s ok fun e => error (g e) := by
  simp only [Ends, EStateM.adaptExcept]
  cases x s <;> rfl

@[simp]
theorem pure_iff {a : α} {ok : α → σ → Prop} {error : ε → σ → Prop} :
    Ends (pure a) s ok error ↔ ok a s := Iff.rfl

@[simp]
theorem throw_iff {e : ε} {ok : α → σ → Prop} {error : ε → σ → Prop} :
    Ends (throw e) s ok error ↔ error e s := Iff.rfl

@[simp]
theorem get_iff {ok : σ → σ → Prop} {error : ε → σ → Prop} : Ends get s ok error ↔ ok s s :=
  Iff.rfl

@[simp]
theorem modify_iff {g : σ → σ} {ok : Unit → σ → Prop} {error : ε → σ → Prop} :
    Ends (modify g) s ok error ↔ ok () (g s) := Iff.rfl

@[simp]
theorem bind_iff {ok : β → σ → Prop} {error : ε → σ → Prop} :
    Ends (x >>= f) s ok error ↔ Ends x s (fun a t => Ends (f a) t ok error) error := by
  simp only [Ends, Bind.bind, EStateM.bind]
  cases x s <;> rfl

@[simp]
theorem map_iff {g : α → β} {ok : β → σ → Prop} {error : ε → σ → Prop} :
    Ends (g <$> x) s ok error ↔ Ends x s (fun a => ok (g a)) error := by
  simp only [Ends, Functor.map, EStateM.map]
  cases x s <;> rfl

theorem imp {ok ok' : α → σ → Prop} {error error' : ε → σ → Prop} (h : Ends x s ok error)
    (hok : ∀ a t, ok a t → ok' a t) (herror : ∀ e t, error e t → error' e t) :
    Ends x s ok' error' := by
  unfold Ends at h ⊢
  split at h
  · exact hok _ _ h
  · exact herror _ _ h

theorem bind {mid : α → σ → Prop} {ok : β → σ → Prop} {error : ε → σ → Prop}
    (hx : Ends x s mid error) (hf : ∀ a t, mid a t → Ends (f a) t ok error) :
    Ends (x >>= f) s ok error :=
  bind_iff.mpr (hx.imp hf fun _ _ => id)

theorem intro (x : EStateM ε σ α) (s : σ) : Ends x s (fun _ _ => True) fun _ _ => True := by
  unfold Ends
  cases x s <;> trivial

theorem and {ok ok' : α → σ → Prop} {error error' : ε → σ → Prop} (h : Ends x s ok error)
    (h' : Ends x s ok' error') :
    Ends x s (fun a t => ok a t ∧ ok' a t) (fun e t => error e t ∧ error' e t) := by
  unfold Ends at *
  cases hx : x s <;> simp_all

variable {error : ε → σ → Prop}

/-- The invariant of a pass may be about what it has gone through. -/
theorem forM_along {I : List α → σ → Prop} {f : α → EStateM ε σ PUnit} {l : List α}
    (step : ∀ a ∈ l, ∀ done s, I done s → Ends (f a) s (fun _ => I (done ++ [a])) error)
    (hs : I [] s) : Ends (l.forM f) s (fun _ => I l) error := by
  suffices ∀ done s, I done s → Ends (l.forM f) s (fun _ => I (done ++ l)) error by
    simpa using this [] s hs
  induction l with
  | nil => intro done s hs; simpa using hs
  | cons a l ih =>
      intro done s hs
      apply (step a (by simp) done s hs).bind
      intro _ t ht
      simpa using ih (fun b hb => step b (by simp [hb])) (done ++ [a]) t ht

theorem forM {I : σ → Prop} {f : α → EStateM ε σ PUnit} {l : List α}
    (step : ∀ a ∈ l, ∀ s, I s → Ends (f a) s (fun _ => I) error) (hs : I s) :
    Ends (l.forM f) s (fun _ => I) error :=
  forM_along (I := fun _ => I) (fun a ha _ => step a ha) hs

theorem mapM_along {I : List α → List β → σ → Prop} {l : List α}
    (step : ∀ a ∈ l, ∀ done bs s, I done bs s →
      Ends (f a) s (fun b => I (done ++ [a]) (bs ++ [b])) error) (hs : I [] [] s) :
    Ends (l.mapM f) s (I l) error := by
  suffices ∀ done bs s, I done bs s →
      Ends (l.mapM f) s (fun cs => I (done ++ l) (bs ++ cs)) error by
    simpa using this [] [] s hs
  induction l with
  | nil => intro done bs s hs; simpa using hs
  | cons a l ih =>
      intro done bs s hs
      rw [List.mapM_cons]
      apply (step a (by simp) done bs s hs).bind
      intro b t ht
      apply (ih (fun c hc => step c (by simp [hc])) (done ++ [a]) (bs ++ [b]) t ht).bind
      intro cs u hu
      simpa using hu

theorem mapM {I : List β → σ → Prop} {l : List α}
    (step : ∀ a ∈ l, ∀ bs s, I bs s → Ends (f a) s (fun b => I (bs ++ [b])) error) (hs : I [] s) :
    Ends (l.mapM f) s I error :=
  mapM_along (I := fun _ => I) (fun a ha _ => step a ha) hs

theorem filterMapM_along {I : List α → List β → σ → Prop} {f : α → EStateM ε σ (Option β)}
    {l : List α}
    (step : ∀ a ∈ l, ∀ done bs s, I done bs s →
      Ends (f a) s (fun b => I (done ++ [a]) (bs ++ b.toList)) error) (hs : I [] [] s) :
    Ends (l.filterMapM f) s (I l) error := by
  suffices ∀ done bs s, I done bs s →
      Ends (l.filterMapM f) s (fun cs => I (done ++ l) (bs ++ cs)) error by
    simpa using this [] [] s hs
  induction l with
  | nil => intro done bs s hs; simpa using hs
  | cons a l ih =>
      intro done bs s hs
      rw [List.filterMapM_cons]
      apply (step a (by simp) done bs s hs).bind
      intro b t ht
      have rest := ih (fun c hc => step c (by simp [hc])) (done ++ [a]) (bs ++ b.toList) t ht
      cases b with
      | none => simpa using rest
      | some b =>
          apply rest.bind
          intro cs u hu
          simpa using hu

theorem filterMapM {I : List β → σ → Prop} {f : α → EStateM ε σ (Option β)} {l : List α}
    (step : ∀ a ∈ l, ∀ bs s, I bs s → Ends (f a) s (fun b => I (bs ++ b.toList)) error)
    (hs : I [] s) : Ends (l.filterMapM f) s I error :=
  filterMapM_along (I := fun _ => I) (fun a ha _ => step a ha) hs

theorem mapM_map {I : σ → Prop} {g : α → β} {l : List α}
    (step : ∀ a ∈ l, ∀ s, I s → Ends (f a) s (fun b t => b = g a ∧ I t) error) (hs : I s) :
    Ends (l.mapM f) s (fun bs t => bs = l.map g ∧ I t) error := by
  refine mapM_along (I := fun done bs t => bs = done.map g ∧ I t) ?_ ⟨rfl, hs⟩
  rintro a ha done _ t ⟨rfl, ht⟩
  refine (step a ha t ht).imp ?_ fun _ _ => id
  rintro _ u ⟨rfl, hu⟩
  exact ⟨by simp, hu⟩

theorem foldlM {I : β → σ → Prop} {g : β → α → EStateM ε σ β} {l : List α} {b : β}
    (step : ∀ a ∈ l, ∀ b s, I b s → Ends (g b a) s I error) (hs : I b s) :
    Ends (l.foldlM g b) s I error := by
  induction l generalizing b s with
  | nil => exact hs
  | cons a l ih =>
      rw [List.foldlM_cons]
      apply (step a (by simp) b s hs).bind
      intro c t ht
      exact ih (fun d hd => step d (by simp [hd])) ht

end Ends

theorem succeeds_bind_iff {x : EStateM ε σ α} {f : α → EStateM ε σ β} {s : σ}
    {ok : β → σ → Prop} :
    Succeeds (x >>= f) s ok ↔ ∃ a t b u, x s = .ok a t ∧ f a t = .ok b u ∧ ok b u := by
  rw [Succeeds, Ends.bind_iff, ← Succeeds, succeeds_iff]
  constructor
  · rintro ⟨a, t, hx, hf⟩
    obtain ⟨b, u, hu, h⟩ := succeeds_iff.mp hf
    exact ⟨a, t, b, u, hx, hu, h⟩
  · rintro ⟨a, t, b, u, hx, hu, h⟩
    exact ⟨a, t, hx, succeeds_iff.mpr ⟨b, u, hu, h⟩⟩

theorem Succeeds.and {x : EStateM ε σ α} {s : σ} {ok ok' : α → σ → Prop} (h : Succeeds x s ok)
    (h' : Succeeds x s ok') : Succeeds x s fun a t => ok a t ∧ ok' a t :=
  (Ends.and h h').imp (fun _ _ => id) fun _ _ => And.left

def Maintains (I : σ → Prop) (x : EStateM ε σ α) : Prop := ∀ s, I s → Succeeds x s fun _ => I

namespace Maintains

variable {I : σ → Prop} {x : EStateM ε σ α} {f : α → EStateM ε σ β}

theorem pure (a : α) : Maintains I (Pure.pure a : EStateM ε σ α) := fun _ hs => hs

theorem bind (hx : Maintains I x) (hf : ∀ a, Maintains I (f a)) : Maintains I (x >>= f) :=
  fun s hs => Ends.bind (hx s hs) fun a t ht => hf a t ht

theorem getBind {f : σ → EStateM ε σ β} (hf : ∀ s, I s → Succeeds (f s) s fun _ => I) :
    Maintains I (MonadState.get >>= f) := fun s hs => hf s hs

theorem modify {g : σ → σ} (h : ∀ s, I s → I (g s)) :
    Maintains I (modify g : EStateM ε σ PUnit) := fun s hs => h s hs

theorem allM {p : α → EStateM ε σ Bool} {l : List α} (hp : ∀ a ∈ l, Maintains I (p a)) :
    Maintains I (l.allM p) := by
  induction l with
  | nil => exact pure true
  | cons a l ih =>
      apply (hp a (by simp)).bind
      intro b
      cases b with
      | true => exact ih fun b hb => hp b (by simp [hb])
      | false => exact pure false

theorem allM_eq {p q : α → EStateM ε σ Bool} {l : List α} (hp : ∀ a ∈ l, Maintains I (p a))
    (hpq : ∀ a ∈ l, ∀ s, I s → p a s = q a s) {s : σ} (hs : I s) : l.allM p s = l.allM q s := by
  induction l generalizing s with
  | nil => rfl
  | cons a l ih =>
      obtain ⟨b, t, hrun, ht⟩ := succeeds_iff.mp (hp a (by simp) s hs)
      have hrun' : q a s = .ok b t := (hpq a (by simp) s hs) ▸ hrun
      rw [List.allM, bind_eq_of_ok hrun, List.allM, bind_eq_of_ok hrun']
      cases b with
      | true => exact ih (fun b hb => hp b (by simp [hb])) (fun b hb => hpq b (by simp [hb])) ht
      | false => rfl

end Maintains

namespace Catalog.Session

@[simp]
theorem query_ends_iff {s : State} {f : State → Except Error α} {ok : α → State → Prop}
    {error : Error → State → Prop} :
    Ends (query f) s ok error ↔
      match f s with
      | .ok a => ok a s
      | .error e => error e s := by
  unfold query
  simp only [Ends.bind_iff, Ends.get_iff]
  cases f s <;> rfl

theorem query_eq_of_ok {s : State} {f : State → Except Error α} {a : α} (h : f s = .ok a) :
    query f s = .ok a s := by
  have answer : Succeeds (query f) s fun b t => b = a ∧ t = s := by
    rw [Succeeds, query_ends_iff, h]
    exact ⟨rfl, rfl⟩
  obtain ⟨_, _, hrun, rfl, rfl⟩ := succeeds_iff.mp answer
  exact hrun

end Catalog.Session

end AudioCatalog
