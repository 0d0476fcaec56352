/-
# Computations that keep their writes when they fail

An `Effect` reads and writes a state and may fail; a failure ends it and leaves
the writes made so far.  It is what a program does to a store outside any
transaction.

`Keeps r m` says that every run of `m` relates the state before to the state
after by the preorder `r`, whether `m` fails or not.  The rules follow the shape
of the computation, so a frame condition is proved statement by statement.
-/
import Sconce.Lib.Run

/-- What ends well went well at each step. -/
theorem Except.ok_of_bind {ε α β : Type} {x : Except ε α} {f : α → Except ε β} {b : β}
    (h : x >>= f = .ok b) : ∃ a, x = .ok a ∧ f a = .ok b := by
  cases x with
  | error e => cases h
  | ok a => exact ⟨a, rfl, h⟩

theorem Except.ok_of_mapError {ε ε' α : Type} {x : Except ε α} {f : ε → ε'} {a : α}
    (h : x.mapError f = .ok a) : x = .ok a := by
  cases x with
  | error e => cases h
  | ok a' => exact congrArg _ (Except.ok.inj h)

/-- A computation over a state that may fail, keeping its writes. -/
abbrev Effect (σ ε α : Type) := ExceptT ε (StateM σ) α

namespace Effect

variable {σ ε ε' α β γ : Type}

/-- The answer of a computation and the state it leaves. -/
def exec (m : Effect σ ε α) (s : σ) : Except ε α × σ := StateT.run (ExceptT.run m) s

/-- Go on with the answer, or stop at the failure. -/
def andThen (x : Except ε α × σ) (k : α → σ → Except ε β × σ) : Except ε β × σ :=
  match x.1 with
  | .ok a => k a x.2
  | .error e => (.error e, x.2)

@[simp] theorem exec_pure (a : α) (s : σ) : exec (pure a : Effect σ ε α) s = (.ok a, s) := rfl

@[simp] theorem exec_throw (e : ε) (s : σ) :
    exec (throw e : Effect σ ε α) s = (.error e, s) := rfl

@[simp] theorem exec_get (s : σ) : exec (get : Effect σ ε σ) s = (.ok s, s) := rfl

@[simp] theorem exec_modify (f : σ → σ) (s : σ) :
    exec (modify f : Effect σ ε PUnit) s = (.ok ⟨⟩, f s) := rfl

/-- A program runs its first part, and the rest on what it answers. -/
theorem exec_bind (m : Effect σ ε α) (k : α → Effect σ ε β) (s : σ) :
    exec (m >>= k) s = andThen (exec m s) fun a s' => exec (k a) s' := by
  unfold exec andThen
  show StateT.run (ExceptT.run m >>= ExceptT.bindCont k) s = _
  rw [StateT.run_bind]
  show (match (StateT.run (ExceptT.run m) s) with | (r, s') => StateT.run (ExceptT.bindCont k r) s')
    = _
  obtain ⟨r, s'⟩ := StateT.run (ExceptT.run m) s
  cases r with
  | ok a => rfl
  | error e => rfl

/-- What is made of an answer changes no state. -/
@[simp] theorem exec_map (f : α → β) (m : Effect σ ε α) (s : σ) :
    exec (f <$> m) s = ((exec m s).1.map f, (exec m s).2) := by
  rw [← bind_pure_comp, exec_bind]
  unfold andThen
  cases (exec m s).1 with
  | ok a => rfl
  | error e => rfl

/-- A check answers, and changes no state. -/
@[simp] theorem exec_ofExcept (x : Except ε α) (s : σ) :
    exec (ofExcept x : Effect σ ε α) s = (x, s) := by
  cases x with
  | ok a => rfl
  | error e => rfl

/-- A failure under another name. -/
@[simp] theorem exec_adapt (f : ε → ε') (m : Effect σ ε α) (s : σ) :
    exec (ExceptT.adapt f m : Effect σ ε' α) s = ((exec m s).1.mapError f, (exec m s).2) := by
  show StateT.run (Except.mapError f <$> ExceptT.run m) s = _
  rw [StateT.run_map]
  rfl

/-- Run a computation that may fail and hand its outcome to the caller. -/
def outcome (m : Effect σ ε α) : Effect σ ε' (Except ε α) :=
  ExceptT.mk (StateT.mk fun s => (.ok (exec m s).1, (exec m s).2))

/-- An outcome is answered instead of failing; the state is what it is. -/
@[simp] theorem exec_outcome (m : Effect σ ε α) (s : σ) :
    exec (outcome m : Effect σ ε' (Except ε α)) s = (.ok (exec m s).1, (exec m s).2) := rfl

/-- Run a computation as one transaction: a failure undoes its writes. -/
def atomically (m : Effect σ ε α) : Effect σ ε α :=
  ExceptT.mk (StateT.mk fun s => match exec m s with
    | (.ok a, s') => (.ok a, s')
    | (.error e, _) => (.error e, s))

theorem exec_atomically (m : Effect σ ε α) (s : σ) :
    exec (atomically m) s = match exec m s with
      | (.ok a, s') => (.ok a, s')
      | (.error e, _) => (.error e, s) := rfl

/-- Run a computation on the part of a larger state that `get` reads and `set`
writes. -/
def onPart {τ : Type} (get : τ → σ) (set : σ → τ → τ) (m : Effect σ ε α) : Effect τ ε α :=
  ExceptT.mk (StateT.mk fun t => ((exec m (get t)).1, set (exec m (get t)).2 t))

@[simp] theorem exec_onPart {τ : Type} (get : τ → σ) (set : σ → τ → τ) (m : Effect σ ε α) (t : τ) :
    exec (onPart get set m) t = ((exec m (get t)).1, set (exec m (get t)).2 t) := rfl

/-! ## Frames -/

/-- Every run of the computation relates its states. -/
def Keeps (r : σ → σ → Prop) (m : Effect σ ε α) : Prop := ∀ s, r s (exec m s).2

/-- The part `f` of the state is the same in both states. -/
def SameOn (f : σ → γ) (s s' : σ) : Prop := f s' = f s

instance (f : σ → γ) : IsPreorder σ (SameOn f) where
  refl _ := rfl
  trans _ _ _ h h' := Eq.trans h' h

section Rules

variable {r : σ → σ → Prop} [IsPreorder σ r]

theorem keeps_pure (a : α) : Keeps r (pure a : Effect σ ε α) := fun s => refl_of r s

theorem keeps_throw (e : ε) : Keeps r (throw e : Effect σ ε α) := fun s => refl_of r s

theorem keeps_get : Keeps r (get : Effect σ ε σ) := fun s => refl_of r s

omit [IsPreorder σ r] in
theorem keeps_modify {f : σ → σ} (h : ∀ s, r s (f s)) : Keeps r (modify f : Effect σ ε PUnit) := h

/-- Parts that keep a relation keep it together. -/
theorem keeps_bind {m : Effect σ ε α} {k : α → Effect σ ε β} (hm : Keeps r m)
    (hk : ∀ a, Keeps r (k a)) : Keeps r (m >>= k) := by
  intro s
  rw [exec_bind]
  unfold andThen
  cases h : (exec m s).1 with
  | ok a => exact trans_of r (hm s) (hk a _)
  | error e => exact hm s

omit [IsPreorder σ r] in
/-- The mapping of errors keeps what is kept. -/
theorem keeps_adapt {f : ε → ε'} {m : Effect σ ε α} (hm : Keeps r m) :
    Keeps r (ExceptT.adapt f m : Effect σ ε' α) := by
  intro s
  rw [exec_adapt]
  exact hm s

/-- A transaction keeps what its statements keep, whether it commits or not. -/
theorem keeps_atomically {m : Effect σ ε α} (hm : Keeps r m) : Keeps r (atomically m) := by
  intro s
  have hkept := hm s
  rw [exec_atomically]
  generalize exec m s = run at hkept ⊢
  obtain ⟨answer, s'⟩ := run
  cases answer with
  | ok a => exact hkept
  | error e => exact refl_of r s

omit [IsPreorder σ r] in
theorem keeps_outcome {m : Effect σ ε α} (hm : Keeps r m) :
    Keeps r (outcome m : Effect σ ε' (Except ε α)) := hm

theorem keeps_ofExcept (x : Except ε α) : Keeps r (ofExcept x : Effect σ ε α) := by
  cases x with
  | ok a => exact keeps_pure a
  | error e => exact keeps_throw e

omit [IsPreorder σ r] in
/-- A choice keeps what both its branches do. -/
theorem keeps_ite {p : Prop} [Decidable p] {m m' : Effect σ ε α} (h : p → Keeps r m)
    (h' : ¬ p → Keeps r m') : Keeps r (if p then m else m') := by
  split_ifs with hp
  · exact h hp
  · exact h' hp

/-- A loop keeps what its body keeps. -/
theorem keeps_foldlM {body : β → α → Effect σ ε β} (h : ∀ b a, Keeps r (body b a))
    (items : List α) (b : β) : Keeps r (items.foldlM body b) := by
  induction items generalizing b with
  | nil => exact keeps_pure b
  | cons a items ih =>
    rw [List.foldlM_cons]
    exact keeps_bind (h b a) ih

theorem keeps_forM {body : α → Effect σ ε PUnit} (h : ∀ a, Keeps r (body a)) (items : List α) :
    Keeps r (forM items body) := by
  induction items with
  | nil => exact keeps_pure _
  | cons a items ih =>
    rw [List.forM_cons]
    exact keeps_bind (h a) fun _ => ih

end Rules

/-! ## What a failure leaves -/

section Failures

variable {p : σ → Prop} {s : σ}

/-- Run from the state, the computation does not fail, or leaves a state with the property. -/
def OnError (p : σ → Prop) (m : Effect σ ε α) (s : σ) : Prop :=
  ∀ e, (exec m s).1 = .error e → p (exec m s).2

theorem onError_pure (a : α) : OnError p (pure a : Effect σ ε α) s := fun _ h => by cases h

theorem onError_throw (h : p s) (e : ε) : OnError p (throw e : Effect σ ε α) s := fun _ _ => h

theorem onError_get_bind {k : σ → Effect σ ε α} (hk : OnError p (k s) s) :
    OnError p (get >>= k) s := by
  intro e he
  rw [exec_bind, exec_get] at he ⊢
  exact hk e he

end Failures

/-! ## Views -/

section Views

variable {f : σ → σ} {s : σ}

/-- On the view of the state the computation answers the same, and leaves the view of what it
leaves. -/
def Through (f : σ → σ) (m : Effect σ ε α) (s : σ) : Prop :=
  exec m (f s) = ((exec m s).1, f (exec m s).2)

theorem through_pure (a : α) : Through f (pure a : Effect σ ε α) s := rfl

theorem through_throw (e : ε) : Through f (throw e : Effect σ ε α) s := rfl

/-- Parts that go through a view go through it together. -/
theorem through_bind {m : Effect σ ε α} {k : α → Effect σ ε β} (hm : Through f m s)
    (hk : ∀ a, (exec m s).1 = .ok a → Through f (k a) (exec m s).2) : Through f (m >>= k) s := by
  unfold Through at hm ⊢
  rw [exec_bind, exec_bind, hm]
  unfold andThen
  cases ha : (exec m s).1 with
  | ok a => exact hk a ha
  | error e => rfl

/-- What goes on with the state goes on the same way with the view of it. -/
theorem through_get_bind {k : σ → Effect σ ε α} (hsame : k (f s) = k s)
    (hk : Through f (k s) s) : Through f (get >>= k) s := by
  unfold Through at hk ⊢
  rw [exec_bind, exec_bind, exec_get, exec_get]
  show exec (k (f s)) (f s) = _
  rw [hsame]
  exact hk

end Views

end Effect
