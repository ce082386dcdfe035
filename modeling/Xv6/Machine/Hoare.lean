import Xv6.Machine.Fallible

/-!
# Pre- and postconditions

Partial correctness of programs with a state that may stop with an error: if the precondition holds
and the program returns, the postcondition holds of the result and the new state. One rule for each
way to build a program. A second judgement also says with which errors the program may stop; with no
error allowed it is total correctness. A program may work on a part of the state of another one.
-/

namespace Machine

variable {σ ε α β : Type} {P P' : σ → Prop} {Q Q' : α → σ → Prop} {R : β → σ → Prop}
  {m m' : StateT σ (Except ε) α} {f : α → StateT σ (Except ε) β}

/-- If `P` holds before and `m` returns, `Q` holds of the result and the state after it. -/
def Triple (P : σ → Prop) (m : StateT σ (Except ε) α) (Q : α → σ → Prop) : Prop :=
  ∀ s a s', P s → m s = .ok (a, s') → Q a s'

lemma Triple.pure {a : α} (h : ∀ s, P s → Q a s) : Triple P (pure a : StateT σ (Except ε) α) Q := by
  intro s a' s' hs heq
  cases heq
  exact h s hs

lemma Triple.throw {e : ε} : Triple P (throw e : StateT σ (Except ε) α) Q := by
  intro s a s' _ heq
  cases heq

lemma Triple.bind (h : Triple P m Q) (hf : ∀ a, Triple (Q a) (f a) R) : Triple P (m >>= f) R := by
  intro s b s' hs heq
  obtain ⟨⟨a, t⟩, hm, ht⟩ := bind_eq_ok.mp heq
  exact hf a t b s' (h s a t hs hm) ht

/-- The state before the program gets a name. -/
lemma Triple.fix (h : ∀ s, P s → Triple (fun t => t = s) m Q) : Triple P m Q :=
  fun s a s' hs heq => h s hs s a s' rfl heq

lemma Triple.get_bind {f : σ → StateT σ (Except ε) β}
    (h : ∀ s, P s → Triple (fun t => t = s) (f s) R) : Triple P (get >>= f) R := by
  intro s b s' hs heq
  exact h s hs s b s' rfl heq

/-- The same, when the rest only needs `P`. -/
lemma Triple.look {f : σ → StateT σ (Except ε) β} (h : ∀ s, P s → Triple P (f s) R) :
    Triple P (get >>= f) R := by
  intro s b s' hs heq
  exact h s hs s b s' hs heq

lemma Triple.modify {g : σ → σ} {Q : PUnit → σ → Prop} (h : ∀ s, P s → Q ⟨⟩ (g s)) :
    Triple P (modify g : StateT σ (Except ε) PUnit) Q := by
  intro s a s' hs heq
  cases heq
  exact h s hs

lemma Triple.ite {c : Prop} [Decidable c] (ht : c → Triple P m Q) (he : ¬ c → Triple P m' Q) :
    Triple P (if c then m else m') Q := by
  by_cases hc : c
  · rw [if_pos hc]
    exact ht hc
  · rw [if_neg hc]
    exact he hc

lemma Triple.imp (h : Triple P m Q) (hpre : ∀ s, P' s → P s) (hpost : ∀ a s, Q a s → Q' a s) :
    Triple P' m Q' :=
  fun s a s' hs heq => hpost a s' (h s a s' (hpre s hs) heq)

/-! ### Programs whose errors count -/

variable {E E' : ε → Prop} {s : σ}

/-- From `s`, the program returns with `Q` or stops with an error in `E`. -/
def Ends (m : StateT σ (Except ε) α) (s : σ) (E : ε → Prop) (Q : α → σ → Prop) : Prop :=
  match m s with
  | .ok (a, t) => Q a t
  | .error e => E e

lemma Ends.pure {a : α} (h : Q a s) : Ends (pure a : StateT σ (Except ε) α) s E Q := h

lemma Ends.throw {e : ε} (h : E e) : Ends (throw e : StateT σ (Except ε) α) s E Q := h

lemma Ends.modify {g : σ → σ} {Q : PUnit → σ → Prop} (h : Q ⟨⟩ (g s)) :
    Ends (modify g : StateT σ (Except ε) PUnit) s E Q := h

lemma Ends.modifyGet {g : σ → α × σ} (h : Q (g s).1 (g s).2) :
    Ends (modifyGet g : StateT σ (Except ε) α) s E Q := h

lemma Ends.get_bind {f : σ → StateT σ (Except ε) β} (h : Ends (f s) s E R) : Ends (get >>= f) s E R := h

lemma Ends.set_bind {t : σ} {f : PUnit → StateT σ (Except ε) β} (h : Ends (f ⟨⟩) t E R) :
    Ends (set t >>= f) s E R := h

lemma Ends.bind (h : Ends m s E Q) (hf : ∀ a t, Q a t → Ends (f a) t E R) : Ends (m >>= f) s E R := by
  unfold Ends at h ⊢
  have hrun : (m >>= f) s = m s >>= fun x => f x.1 x.2 := rfl
  rw [hrun]
  cases hm : m s with
  | error =>
    rw [hm] at h
    exact h
  | ok x =>
    rw [hm] at h
    exact hf x.1 x.2 h

lemma Ends.ite {c : Prop} [Decidable c] (ht : c → Ends m s E Q) (he : ¬ c → Ends m' s E Q) :
    Ends (if c then m else m') s E Q := by
  by_cases hc : c
  · rw [if_pos hc]
    exact ht hc
  · rw [if_neg hc]
    exact he hc

lemma Ends.imp (h : Ends m s E Q) (hE : ∀ e, E e → E' e) (hQ : ∀ a t, Q a t → Q' a t) : Ends m s E' Q' := by
  unfold Ends at h ⊢
  cases hm : m s with
  | error e =>
    rw [hm] at h
    exact hE e h
  | ok x =>
    rw [hm] at h
    exact hQ x.1 x.2 h

lemma Ends.post (h : Ends m s E Q) (hQ : ∀ a t, Q a t → Q' a t) : Ends m s E Q' :=
  h.imp (fun _ he => he) hQ

/-- First a program that does not stop. -/
lemma Ends.andThen (h : Ends m s (fun _ => False) Q) (hf : ∀ a t, Q a t → Ends (f a) t E R) :
    Ends (m >>= f) s E R :=
  (h.imp (fun _ hno => hno.elim) fun _ _ hq => hq).bind hf

lemma Ends.congr {t : σ} (h : m' t = m s) (hm : Ends m s E Q) : Ends m' t E Q := by
  unfold Ends at hm ⊢
  rwa [h]

/-- Nothing is asked. -/
lemma Ends.trivial : Ends m s (fun _ => True) fun _ _ => True := by
  unfold Ends
  cases m s with
  | error => exact True.intro
  | ok => exact True.intro

/-- A program that may not stop with an error returns. -/
lemma Ends.exists_ok (h : Ends m s (fun _ => False) Q) : ∃ a t, m s = .ok (a, t) ∧ Q a t := by
  unfold Ends at h
  cases hm : m s with
  | error =>
    rw [hm] at h
    exact h.elim
  | ok x =>
    rw [hm] at h
    exact ⟨x.1, x.2, rfl, h⟩

/-- The program stops with an error in `E` only. -/
lemma Ends.of_error {e : ε} (h : Ends m s E Q) (heq : m s = .error e) : E e := by
  unfold Ends at h
  rwa [heq] at h

/-- What holds of the result holds if the program returns. -/
lemma Ends.of_ok {a : α} {t : σ} (h : Ends m s E Q) (heq : m s = .ok (a, t)) : Q a t := by
  unfold Ends at h
  rwa [heq] at h

lemma Ends.of_toOption {t : σ} (h : Ends m s E Q) (heq : (m s).toOption.map Prod.snd = some t) :
    ∃ a, Q a t := by
  cases hm : m s with
  | error =>
    rw [hm] at heq
    cases heq
  | ok x =>
    rw [hm] at heq
    cases heq
    exact ⟨x.1, h.of_ok hm⟩

/-- A program that may not return stops with an error. -/
lemma Ends.exists_error (h : Ends m s E fun _ _ => False) : ∃ e, m s = .error e ∧ E e := by
  cases hm : m s with
  | error e => exact ⟨e, rfl, h.of_error hm⟩
  | ok => exact (h.of_ok hm).elim

/-! ### A part of the state -/

section Zoom

variable {τ ε' : Type} {look : τ → σ} {put : τ → σ → τ} {err : ε → ε'}

/-- The program on the part of the state at which it looks. -/
def zoom (look : τ → σ) (put : τ → σ → τ) (err : ε → ε') (m : StateT σ (Except ε) α) :
    StateT τ (Except ε') α := fun s =>
  match m (look s) with
  | .ok (a, t) => .ok (a, put s t)
  | .error e => .error (err e)

lemma Ends.zoom {E : ε' → Prop} {s : τ} {Q : α → τ → Prop}
    (h : Ends m (look s) (fun e => E (err e)) fun a t => Q a (put s t)) :
    Ends (zoom look put err m) s E Q := by
  unfold Ends Machine.zoom at *
  cases hm : m (look s) with
  | error | ok =>
    rw [hm] at h
    exact h

end Zoom

end Machine
