/-!
# Outcomes

What can be said of an outcome before it is known: `FailsOnly P x` bounds the faults of `x` and
`Yields Q x` its values; `Below x y` says that `y` yields whatever `x` yields.  All three go through
sequencing, so a function made of steps has them by its steps.  When a sequence of steps yields a
value, and which, is said by `bind_eq_ok_iff` and `map_eq_ok_iff`; that it yields the same where its
fault is changed, by `mapError_eq_ok_iff`.
-/

namespace StateFlow

variable {ε α β : Type}

theorem bind_eq_ok_iff {x : Except ε α} {f : α → Except ε β} {b : β} :
    x >>= f = .ok b ↔ ∃ a, x = .ok a ∧ f a = .ok b := by
  cases x with
  | error e => exact ⟨nofun, nofun⟩
  | ok a => exact ⟨fun h => ⟨a, rfl, h⟩, fun ⟨_, ha, h⟩ => Except.ok.inj ha ▸ h⟩

theorem map_eq_ok_iff {x : Except ε α} {f : α → β} {b : β} :
    f <$> x = .ok b ↔ ∃ a, x = .ok a ∧ f a = b := by
  cases x with
  | error e => exact ⟨nofun, nofun⟩
  | ok a =>
    exact ⟨fun h => ⟨a, rfl, Except.ok.inj h⟩,
      fun ⟨_, ha, h⟩ => congrArg _ (Except.ok.inj ha ▸ h)⟩

theorem exists_map_eq_ok_iff {x : Except ε α} {f : α → β} :
    (∃ b, f <$> x = .ok b) ↔ ∃ a, x = .ok a := by
  simp only [map_eq_ok_iff]
  exact ⟨fun ⟨_, a, h, _⟩ => ⟨a, h⟩, fun ⟨a, h⟩ => ⟨f a, a, h, rfl⟩⟩

theorem mapError_eq_ok_iff {ε' : Type} {x : Except ε α} {g : ε → ε'} {a : α} :
    x.mapError g = .ok a ↔ x = .ok a := by
  cases x with
  | error e => exact ⟨nofun, nofun⟩
  | ok b => exact ⟨fun h => congrArg _ (Except.ok.inj h), fun h => congrArg _ (Except.ok.inj h)⟩

theorem toOption_eq_some_iff {x : Except ε α} {a : α} : x.toOption = some a ↔ x = .ok a := by
  cases x with
  | error e => exact ⟨nofun, nofun⟩
  | ok b => exact ⟨fun h => congrArg _ (Option.some.inj h), fun h => congrArg _ (Except.ok.inj h)⟩

/-- Whatever an outcome fails with has a property. -/
def FailsOnly (P : ε → Prop) (x : Except ε α) : Prop := ∀ e, x = .error e → P e

namespace FailsOnly

variable {P Q : ε → Prop}

theorem ok (a : α) : FailsOnly P (.ok a) := by
  intro e he
  cases he

theorem error {e : ε} (h : P e) : FailsOnly P (.error e : Except ε α) := by
  intro e' he
  cases he
  exact h

theorem bind {x : Except ε α} {f : α → Except ε β} (hx : FailsOnly P x)
    (hf : ∀ a, FailsOnly P (f a)) : FailsOnly P (x >>= f) := by
  intro e he
  cases x with
  | error e' => exact hx e (by cases he; rfl)
  | ok a => exact hf a e he

theorem mono {x : Except ε α} (hx : FailsOnly P x) (h : ∀ e, P e → Q e) : FailsOnly Q x :=
  fun e he => h e (hx e he)

theorem mapError {ε' : Type} {P : ε' → Prop} {g : ε → ε'} {x : Except ε α}
    (hx : FailsOnly (fun e => P (g e)) x) : FailsOnly P (x.mapError g) := by
  intro e he
  cases x with
  | ok a => cases he
  | error e' =>
    cases he
    exact hx e' rfl

end FailsOnly

/-- Whatever an outcome yields has a property. -/
def Yields (Q : α → Prop) (x : Except ε α) : Prop := ∀ a, x = .ok a → Q a

namespace Yields

theorem ok {Q : α → Prop} {a : α} (h : Q a) : Yields Q (.ok a : Except ε α) := by
  intro b hb
  cases hb
  exact h

theorem error {Q : α → Prop} (e : ε) : Yields Q (.error e : Except ε α) := by
  intro a ha
  cases ha

theorem bind {Q : β → Prop} {x : Except ε α} {f : α → Except ε β}
    (hf : ∀ a, x = .ok a → Yields Q (f a)) : Yields Q (x >>= f) := by
  intro b hb
  cases x with
  | error e => cases hb
  | ok a => exact hf a rfl b hb

theorem map {P : α → Prop} {Q : β → Prop} {f : α → β} {x : Except ε α} (hx : Yields P x)
    (h : ∀ a, P a → Q (f a)) : Yields Q (f <$> x) := by
  intro b hb
  cases x with
  | error e => cases hb
  | ok a =>
    cases hb
    exact h a (hx a rfl)

theorem mapError {ε' : Type} {Q : α → Prop} {g : ε → ε'} {x : Except ε α} (hx : Yields Q x) :
    Yields Q (x.mapError g) := by
  intro a ha
  cases x with
  | error e => cases ha
  | ok b =>
    cases ha
    exact hx _ rfl

theorem mapM {Q : β → Prop} {f : α → Except ε β} {as : List α} (hf : ∀ a ∈ as, Yields Q (f a)) :
    Yields (fun bs => ∀ b ∈ bs, Q b) (as.mapM f) := by
  induction as with
  | nil => exact .ok nofun
  | cons a as ih =>
    obtain ⟨ha, has⟩ := List.forall_mem_cons.mp hf
    rw [List.mapM_cons]
    exact .bind fun b hb => .bind fun bs hbs =>
      .ok (List.forall_mem_cons.mpr ⟨ha b hb, ih has bs hbs⟩)

/-- What each step keeps is had by what the last one yields. -/
theorem foldlM {Q : β → Prop} {f : β → α → Except ε β} (hf : ∀ b a, Q b → Yields Q (f b a))
    (as : List α) {b : β} (hb : Q b) : Yields Q (as.foldlM f b) := by
  induction as generalizing b with
  | nil => exact .ok hb
  | cons a as ih =>
    rw [List.foldlM_cons]
    exact .bind fun b' hb' => ih (hf b a hb b' hb')

end Yields

/-- Whatever an outcome yields, another one yields too. -/
def Below (x y : Except ε α) : Prop := ∀ a, x = .ok a → y = .ok a

namespace Below

variable {γ δ : Type}

theorem of_eq {x y : Except ε α} (h : x = y) : Below x y := fun _ hx => h ▸ hx

theorem error (e : ε) (y : Except ε α) : Below (.error e) y := by
  intro a ha
  cases ha

/-- Steps that follow what a function makes of earlier results. -/
theorem bind_map {x : Except ε β} {y : Except ε α} {f : α → β} {k : β → Except ε δ}
    {l : α → Except ε γ} {g : γ → δ} (hx : Below x (f <$> y))
    (hk : ∀ a, Below (k (f a)) (g <$> l a)) : Below (x >>= k) (g <$> (y >>= l)) := by
  intro d hd
  obtain ⟨b, hb, hd⟩ := bind_eq_ok_iff.mp hd
  obtain ⟨a, ha, rfl⟩ := map_eq_ok_iff.mp (hx b hb)
  rw [ha]
  exact hk a d hd

/-- Steps over two lists that are made of one, of which each keeps this. -/
theorem foldlM_map {step : β → α → Except ε β} {f : β → β} {k l : α → α} {as : List α}
    (h : ∀ a ∈ as, ∀ b, Below (step (f b) (k a)) (f <$> step b (l a))) (b : β) :
    Below ((as.map k).foldlM step (f b)) (f <$> (as.map l).foldlM step b) := by
  induction as generalizing b with
  | nil => exact of_eq rfl
  | cons a as ih =>
    obtain ⟨ha, has⟩ := List.forall_mem_cons.mp h
    rw [List.map_cons, List.map_cons, List.foldlM_cons, List.foldlM_cons]
    exact bind_map (ha b) (ih has)

end Below

end StateFlow
