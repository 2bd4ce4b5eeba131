/-!
# Running actions

How an action with a state and errors runs on a state, one equation for each way to make one; what
an action leaves of a part of the state; and what two runs of one action have in common when they
start from related states.
-/

namespace StagedSandbox.Action

variable {ε σ τ α β : Type}

@[simp] theorem run_pure (a : α) (s : σ) : (pure a : EStateM ε σ α) s = .ok a s := rfl

@[simp] theorem run_throw (e : ε) (s : σ) : (throw e : EStateM ε σ α) s = .error e s := rfl

@[simp] theorem run_get (s : σ) : (get : EStateM ε σ σ) s = .ok s s := rfl

@[simp] theorem run_modify (f : σ → σ) (s : σ) :
    (modify f : EStateM ε σ Unit) s = .ok () (f s) := rfl

theorem run_bind (x : EStateM ε σ α) (f : α → EStateM ε σ β) (s : σ) :
    (x >>= f) s =
      match x s with
      | .ok a s => f a s
      | .error e s => .error e s := rfl

theorem run_ite (c : Prop) [Decidable c] (x y : EStateM ε σ α) (s : σ) :
    (if c then x else y) s = if c then x s else y s := by
  split <;> rfl

theorem run_bind_of_ok {x : EStateM ε σ α} {s s' : σ} {a : α} (h : x s = .ok a s')
    (f : α → EStateM ε σ β) : (x >>= f) s = f a s' := by
  rw [run_bind, h]

theorem run_bind_of_error {x : EStateM ε σ α} {s s' : σ} {e : ε} (h : x s = .error e s')
    (f : α → EStateM ε σ β) : (x >>= f) s = .error e s' := by
  rw [run_bind, h]

/-- Two steps that succeed together have succeeded one after the other. -/
theorem exists_of_bind {x : EStateM ε σ α} {f : α → EStateM ε σ β} {s s' : σ} {b : β}
    (h : (x >>= f) s = .ok b s') : ∃ a t, x s = .ok a t ∧ f a t = .ok b s' := by
  rw [run_bind] at h
  cases hs : x s with
  | ok a t =>
    rw [hs] at h
    exact ⟨a, t, rfl, h⟩
  | error e t => simp [hs] at h

/-- The same for a computation that has no state. -/
theorem exists_of_bind_eq_ok {x : Except ε α} {f : α → Except ε β} {b : β}
    (h : (x >>= f) = .ok b) : ∃ a, x = .ok a ∧ f a = .ok b := by
  cases x with
  | error e => cases h
  | ok a => exact ⟨a, rfl, h⟩

theorem mapError_eq_ok {ε' : Type} {x : Except ε α} {f : ε → ε'} {a : α} :
    x.mapError f = .ok a ↔ x = .ok a := by
  cases x with
  | ok a' => exact ⟨fun h => congrArg Except.ok (Except.ok.inj h),
      fun h => congrArg Except.ok (Except.ok.inj h)⟩
  | error e => exact ⟨nofun, nofun⟩

theorem run_mapM_of_ok {f : α → EStateM ε σ β} {g : α → β} {s : σ} {list : List α}
    (h : ∀ a ∈ list, f a s = .ok (g a) s) : list.mapM f s = .ok (list.map g) s := by
  induction list with
  | nil => rfl
  | cons a rest ih =>
    obtain ⟨hfirst, hrest⟩ := List.forall_mem_cons.1 h
    rw [List.mapM_cons, run_bind_of_ok hfirst, run_bind_of_ok (ih hrest)]
    rfl

/-- The result of a run that succeeds, and the state it leaves. -/
def success? (x : EStateM ε σ α) (s : σ) : Option (α × σ) :=
  match x s with
  | .ok a s' => some (a, s')
  | .error .. => none

theorem success?_eq_some_iff {x : EStateM ε σ α} {s s' : σ} {a : α} :
    success? x s = some (a, s') ↔ x s = .ok a s' := by
  rw [success?]
  cases x s with
  | ok b t => simp
  | error e t => simp

/-- A failure leaves the state as it was if the action can only fail without a change. -/
theorem eq_of_error {x : EStateM ε σ α} {s s' : σ} {e : ε}
    (h : (∃ e', x s = .error e' s) ∨ ∃ a t, x s = .ok a t) (hrun : x s = .error e s') :
    s' = s := by
  obtain ⟨e', hs⟩ | ⟨a, t, hs⟩ := h
  · rw [hs] at hrun
    exact (EStateM.Result.error.inj hrun).2.symm
  · simp [hs] at hrun

/-- The state that an action leaves, whether it succeeds or fails. -/
def left (x : EStateM ε σ α) (s : σ) : σ :=
  match x s with
  | .ok _ s => s
  | .error _ s => s

theorem left_bind_of_ok {x : EStateM ε σ α} {s s' : σ} {a : α} (h : x s = .ok a s')
    (f : α → EStateM ε σ β) : left (x >>= f) s = left (f a) s' := by
  rw [left, run_bind_of_ok h, ← left]

theorem left_bind_of_error {x : EStateM ε σ α} {s s' : σ} {e : ε} (h : x s = .error e s')
    (f : α → EStateM ε σ β) : left (x >>= f) s = s' := by
  rw [left, run_bind_of_error h]

/-! ### What is left of a part of the state -/

/-- Whether an action succeeds or fails, it leaves a part of the state as it was. -/
def Keeps (part : σ → τ) (x : EStateM ε σ α) : Prop := ∀ s, part (left x s) = part s

/-- Whenever an action fails, a part of the state before, the reason, and the part after are
related. -/
def Fails (part : σ → τ) (N : τ → ε → τ → Prop) (x : EStateM ε σ α) : Prop :=
  ∀ s e s', x s = .error e s' → N (part s) e (part s')

/-- An action never fails. -/
def Total (x : EStateM ε σ α) : Prop := ∀ s, ∃ a s', x s = .ok a s'

section Parts

variable {part : σ → τ} {M N : τ → ε → τ → Prop} {x : EStateM ε σ α} {f : α → EStateM ε σ β}

namespace Keeps

theorem of_ok (h : Keeps part x) {s s' : σ} {a : α} (hrun : x s = .ok a s') : part s' = part s := by
  have hs := h s
  rwa [left, hrun] at hs

theorem of_error (h : Keeps part x) {s s' : σ} {e : ε} (hrun : x s = .error e s') :
    part s' = part s := by
  have hs := h s
  rwa [left, hrun] at hs

theorem pure (a : α) : Keeps part (pure a : EStateM ε σ α) := fun _ => rfl

theorem throw (e : ε) : Keeps part (throw e : EStateM ε σ α) := fun _ => rfl

theorem bind (hx : Keeps part x) (hf : ∀ a, Keeps part (f a)) : Keeps part (x >>= f) := by
  intro s
  rw [left, run_bind]
  cases hs : x s with
  | ok a s' => exact (hf a s').trans (hx.of_ok hs)
  | error e s' => exact hx.of_error hs

theorem map {υ : Type} (h : Keeps part x) (view : τ → υ) : Keeps (fun s => view (part s)) x :=
  fun s => congrArg view (h s)

/-- If an action that changes nothing comes first, the second one starts from the same state. -/
theorem ok_of_bind (h : Keeps id x) {s s' : σ} {b : β} (hrun : (x >>= f) s = .ok b s') :
    ∃ a, x s = .ok a s ∧ f a s = .ok b s' := by
  obtain ⟨a, t, hx, hf⟩ := exists_of_bind hrun
  obtain rfl : t = s := h.of_ok hx
  exact ⟨a, hx, hf⟩

/-- If an action that changes nothing comes first, only the second can have changed something. -/
theorem error_of_bind (h : Keeps id x) {s s' : σ} {e : ε} (hrun : (x >>= f) s = .error e s') :
    s' = s ∨ ∃ a, x s = .ok a s ∧ f a s = .error e s' := by
  rw [run_bind] at hrun
  cases hs : x s with
  | ok a t =>
    obtain rfl : t = s := h.of_ok hs
    rw [hs] at hrun
    exact Or.inr ⟨a, rfl, hrun⟩
  | error e' t =>
    obtain rfl : t = s := h.of_error hs
    rw [hs] at hrun
    exact Or.inl (EStateM.Result.error.inj hrun).2.symm

end Keeps

namespace Total

theorem pure (a : α) : Total (pure a : EStateM ε σ α) := fun s => ⟨a, s, rfl⟩

theorem modify (change : σ → σ) : Total (modify change : EStateM ε σ Unit) :=
  fun s => ⟨(), change s, rfl⟩

theorem bind (hx : Total x) (hf : ∀ a, Total (f a)) : Total (x >>= f) := by
  intro s
  obtain ⟨a, s', hs⟩ := hx s
  rw [run_bind_of_ok hs]
  exact hf a s'

/-- Only the first of two actions can have failed if the second never does. -/
theorem error_of_bind (hf : ∀ a, Total (f a)) {s s' : σ} {e : ε}
    (hrun : (x >>= f) s = .error e s') : x s = .error e s' := by
  rw [run_bind] at hrun
  cases hs : x s with
  | ok a t =>
    obtain ⟨b, t', ht⟩ := hf a t
    simp [hs, ht] at hrun
  | error e' t =>
    rw [hs] at hrun
    obtain ⟨rfl, rfl⟩ := EStateM.Result.error.inj hrun
    rfl

end Total

namespace Fails

theorem mono (h : Fails part M x) (hMN : ∀ t e t', M t e t' → N t e t') : Fails part N x :=
  fun s e s' hrun => hMN _ _ _ (h s e s' hrun)

theorem of_total (h : Total x) : Fails part N x := by
  intro s e s' hrun
  obtain ⟨a, t, hs⟩ := h s
  simp [hs] at hrun

theorem throw {e : ε} (h : ∀ t, N t e t) : Fails part N (throw e : EStateM ε σ α) := by
  intro s e' s' hrun
  obtain ⟨rfl, rfl⟩ := EStateM.Result.error.inj hrun
  exact h _

/-- What comes after an action is seen from the state that the action leaves. -/
theorem bind (hx : Fails part N x)
    (hf : ∀ s a t, x s = .ok a t → ∀ e u, f a t = .error e u → N (part s) e (part u)) :
    Fails part N (x >>= f) := by
  intro s e s' hrun
  rw [run_bind] at hrun
  cases hs : x s with
  | ok a t =>
    rw [hs] at hrun
    exact hf s a t hs e s' hrun
  | error e' t =>
    rw [hs] at hrun
    obtain ⟨rfl, rfl⟩ := EStateM.Result.error.inj hrun
    exact hx s e' t hs

theorem bind_total (hx : Fails part N x) (hf : ∀ a, Total (f a)) : Fails part N (x >>= f) :=
  fun s e s' hrun => hx s e s' (Total.error_of_bind hf hrun)

end Fails

/-- After an action that keeps the part, another one may fail as if it came first. -/
theorem Keeps.bind_fails (hk : Keeps part x) (hx : Fails part N x)
    (hf : ∀ a, Fails part N (f a)) : Fails part N (x >>= f) :=
  hx.bind fun _ a t ht e u hrun => hk.of_ok ht ▸ hf a t e u hrun

end Parts

/-! ### Where an action leads -/

/-- Whether an action succeeds or fails, it leads from each state to a related one. -/
def Leads (R : σ → σ → Prop) (x : EStateM ε σ α) : Prop := ∀ s, R s (left x s)

section Leads

variable {R : σ → σ → Prop} {x : EStateM ε σ α} {f : α → EStateM ε σ β}

/-- The second of two actions matters only from the state that the first one leaves. -/
theorem left_bind [Trans R R R] {s : σ} (hx : R s (left x s))
    (hf : ∀ a s', x s = .ok a s' → R s' (left (f a) s')) : R s (left (x >>= f) s) := by
  rw [left] at hx
  rw [left, run_bind]
  cases hs : x s with
  | ok a s' =>
    rw [hs] at hx
    exact Trans.trans hx (hf a s' hs)
  | error e s' =>
    rw [hs] at hx
    exact hx

/-- What is made of the answer makes no difference to the state. -/
theorem left_map (g : α → β) (s : σ) : left (x >>= fun a => pure (g a)) s = left x s := by
  rw [left, run_bind, left]
  cases x s <;> rfl

namespace Leads

theorem pure [Std.Refl R] (a : α) : Leads R (pure a : EStateM ε σ α) := Std.Refl.refl

theorem throw [Std.Refl R] (e : ε) : Leads R (throw e : EStateM ε σ α) := Std.Refl.refl

theorem get [Std.Refl R] : Leads R (get : EStateM ε σ σ) := Std.Refl.refl

theorem of_keeps [Std.Refl R] (h : Keeps id x) : Leads R x := by
  intro s
  rw [show left x s = s from h s]
  exact Std.Refl.refl s

theorem bind [Trans R R R] (hx : Leads R x) (hf : ∀ a, Leads R (f a)) : Leads R (x >>= f) :=
  fun s => left_bind (hx s) fun a s' _ => hf a s'

/-- An action that is only sometimes put in front of another one. -/
theorem guard [Trans R R R] {condition : Prop} [Decidable condition] {y : EStateM ε σ β}
    (hx : Leads R x) (hy : Leads R y) :
    Leads R (if condition then x >>= fun _ => y else y) := by
  split
  · exact hx.bind fun _ => hy
  · exact hy

end Leads

end Leads

/-! ### Two runs of an action -/

/-- Two outcomes are the same, up to a relation of the states that are left; the answer, if there
is one, has a property. -/
def Related (R : σ → σ → Prop) (P : α → Prop) :
    EStateM.Result ε σ α → EStateM.Result ε σ α → Prop
  | .ok a s, .ok b t => a = b ∧ P a ∧ R s t
  | .error e s, .error f t => e = f ∧ R s t
  | _, _ => False

/-- From related states an action has the same outcome, up to the relation. -/
def Alike (R : σ → σ → Prop) (x : EStateM ε σ α) (P : α → Prop) : Prop :=
  ∀ s t, R s t → Related R P (x s) (x t)

variable {R S : σ → σ → Prop} {P : α → Prop} {Q : β → Prop} {x : EStateM ε σ α}
  {f : α → EStateM ε σ β}

theorem Related.mono {P' : α → Prop} {r r' : EStateM.Result ε σ α} (h : Related R P r r')
    (hR : ∀ s t, R s t → S s t) (hP : ∀ a, P a → P' a) : Related S P' r r' := by
  cases r with
  | ok a s =>
    cases r' with
    | ok b t => exact ⟨h.1, hP a h.2.1, hR s t h.2.2⟩
    | error e t => exact h.elim
  | error e s =>
    cases r' with
    | ok b t => exact h.elim
    | error e' t => exact ⟨h.1, hR s t h.2⟩

theorem Related.bind {s t : σ} (hx : Related R P (x s) (x t))
    (hf : ∀ a s t, P a → R s t → Related R Q (f a s) (f a t)) :
    Related R Q ((x >>= f) s) ((x >>= f) t) := by
  rw [run_bind, run_bind]
  cases hs : x s with
  | ok a s' =>
    cases ht : x t with
    | ok b t' =>
      rw [hs, ht] at hx
      obtain ⟨rfl, hP, hR⟩ := hx
      exact hf a s' t' hP hR
    | error e t' =>
      rw [hs, ht] at hx
      exact hx.elim
  | error e s' =>
    cases ht : x t with
    | ok b t' =>
      rw [hs, ht] at hx
      exact hx.elim
    | error e' t' =>
      rw [hs, ht] at hx
      exact hx

namespace Alike

theorem mono {P' : α → Prop} (h : Alike R x P) (hP : ∀ a, P a → P' a) : Alike R x P' :=
  fun s t hst => (h s t hst).mono (fun _ _ => id) hP

theorem pure {a : α} (h : P a) : Alike R (pure a : EStateM ε σ α) P :=
  fun _ _ hst => ⟨rfl, h, hst⟩

theorem throw (e : ε) : Alike R (throw e : EStateM ε σ α) P := fun _ _ hst => ⟨rfl, hst⟩

theorem modify {change : σ → σ} (h : ∀ s t, R s t → R (change s) (change t)) :
    Alike R (modify change : EStateM ε σ Unit) fun _ => True :=
  fun s t hst => ⟨rfl, trivial, h s t hst⟩

theorem bind (hx : Alike R x P) (hf : ∀ a, P a → Alike R (f a) Q) : Alike R (x >>= f) Q :=
  fun s t hst => (hx s t hst).bind fun a s' t' ha hst' => hf a ha s' t' hst'

theorem mapM {g : α → EStateM ε σ β} {list : List α}
    (h : ∀ a ∈ list, Alike R (g a) fun _ => True) : Alike R (list.mapM g) fun _ => True := by
  induction list with
  | nil => exact Alike.pure trivial
  | cons first rest ih =>
    rw [List.mapM_cons]
    apply (h first (List.mem_cons_self ..)).bind
    intro b _
    apply Alike.bind (ih fun a ha => h a (List.mem_cons_of_mem _ ha))
    intro bs _
    exact Alike.pure trivial

end Alike

end StagedSandbox.Action
