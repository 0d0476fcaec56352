/-
# Programs of atomic statements

A `Script` acts on a shared state one statement at a time; between two statements other
programs act.  An effect is a statement, scripts are sequenced as effects are, and one
that runs alone is an effect again (`runAlone`).

`Outlined` is the rely-guarantee judgement: from a state with `P`, every statement of the
script does what `guarantee` allows, as long as the others do what `rely` allows, and its
answer has `Q`.  Scripts so outlined keep an invariant in every execution (`guaranteed`).
-/
import Sconce.Lib.Effect
import Sconce.Lib.Interleaving

open Effect Interleaving

/-- A program: its answer, or its next statement, which writes the state and goes on with
what it read. -/
inductive Script (σ ε α : Type) where
  | done (answer : Except ε α)
  | stmt (write : σ → σ) (next : σ → Script σ ε α)

namespace Script

variable {σ ε ε' α β ι : Type}

/-- Go on with the answer, or stop at the failure. -/
def bind : Script σ ε α → (α → Script σ ε β) → Script σ ε β
  | .done (.ok a), k => k a
  | .done (.error e), _ => .done (.error e)
  | .stmt write next, k => .stmt write fun s => bind (next s) k

instance : Monad (Script σ ε) where
  pure a := .done (.ok a)
  bind := bind

/-- Programs are put together in any order. -/
theorem bind_assoc {γ : Type} (m : Script σ ε α) (f : α → Script σ ε β) (g : β → Script σ ε γ) :
    m >>= f >>= g = m >>= fun a => f a >>= g := by
  induction m with
  | done answer =>
    cases answer with
    | ok a => rfl
    | error e => rfl
  | stmt write next ih => exact congrArg (Script.stmt write) (funext ih)

/-- Stop at a failure. -/
def fail (e : ε) : Script σ ε α := .done (.error e)

/-- An outcome that is known already. -/
def ret (x : Except ε α) : Script σ ε α := .done x

/-- An effect as one statement. -/
def atomic (m : Effect σ ε α) : Script σ ε α :=
  .stmt (fun s => (exec m s).2) fun s => .done (exec m s).1

/-- Run a script that may fail and hand its outcome to the caller. -/
def attempt : Script σ ε α → Script σ ε' (Except ε α)
  | .done answer => .done (.ok answer)
  | .stmt write next => .stmt write fun s => attempt (next s)

/-- A script with no other program running. -/
def runAlone : Script σ ε α → σ → Except ε α × σ
  | .done answer, s => (answer, s)
  | .stmt write next, s => runAlone (next s) (write s)

/-- Alone, a program runs its first part, and then the rest. -/
theorem runAlone_bind (m : Script σ ε α) (k : α → Script σ ε β) (s : σ) :
    runAlone (m >>= k) s = andThen (runAlone m s) fun a s' => runAlone (k a) s' := by
  induction m generalizing s with
  | done answer =>
    cases answer with
    | ok a => rfl
    | error e => rfl
  | stmt write next ih => exact ih s (write s)

@[simp] theorem runAlone_atomic (m : Effect σ ε α) (s : σ) :
    runAlone (atomic m) s = exec m s := rfl

theorem runAlone_attempt (m : Script σ ε α) (s : σ) :
    runAlone (attempt m : Script σ ε' (Except ε α)) s
      = (.ok (runAlone m s).1, (runAlone m s).2) := by
  induction m generalizing s with
  | done answer => rfl
  | stmt write next ih => exact ih s (write s)

/-- The states a script that runs alone passes through: where a crash can leave it. -/
inductive Passes : Script σ ε α → σ → σ → Prop
  | here (m : Script σ ε α) (s : σ) : Passes m s s
  | further {write : σ → σ} {next : σ → Script σ ε α} {s s' : σ} (h : Passes (next s) (write s) s') :
      Passes (.stmt write next) s s'

/-- A run alone passes through its states. -/
theorem passes_runAlone (m : Script σ ε α) (s : σ) : Passes m s (runAlone m s).2 := by
  induction m generalizing s with
  | done answer => exact .here _ s
  | stmt write next ih => exact .further (ih s (write s))

/-- Alone, the script does to what `view` shows what the effect does, and keeps `inv`. -/
def Refines {τ : Type} (view : σ → τ) (inv : σ → Prop) (m : Script σ ε α) (e : Effect τ ε α) :
    Prop :=
  ∀ s, inv s → (runAlone m s).1 = (exec e (view s)).1 ∧ view (runAlone m s).2 = (exec e (view s)).2 ∧
    inv (runAlone m s).2

section Refines

variable {τ : Type} {view : σ → τ} {inv : σ → Prop}

/-- Parts that refine an effect refine it together. -/
theorem refines_bind {m : Script σ ε α} {e : Effect τ ε α} {k : α → Script σ ε β}
    {k' : α → Effect τ ε β} (hm : Refines view inv m e) (hk : ∀ a, Refines view inv (k a) (k' a)) :
    Refines view inv (m >>= k) (e >>= k') := by
  intro s hs
  obtain ⟨hanswer, hview, hinv⟩ := hm s hs
  rw [runAlone_bind, exec_bind]
  unfold andThen
  rw [← hanswer, ← hview]
  cases (runAlone m s).1 with
  | ok a => exact hk a _ hinv
  | error e => exact ⟨rfl, rfl, hinv⟩

theorem refines_ret (x : Except ε α) : Refines view inv (ret x) (ofExcept x) := by
  intro s hs
  rw [exec_ofExcept]
  exact ⟨rfl, rfl, hs⟩

theorem refines_foldlM {γ : Type} {body : β → γ → Script σ ε β} {body' : β → γ → Effect τ ε β}
    (hbody : ∀ b c, Refines view inv (body b c) (body' b c)) (items : List γ) (b : β) :
    Refines view inv (items.foldlM body b) (items.foldlM body' b) := by
  induction items generalizing b with
  | nil =>
    intro s hs
    exact ⟨rfl, rfl, hs⟩
  | cons c rest ih => exact refines_bind (hbody b c) ih

end Refines

/-! ## Rely and guarantee -/

/-- An assertion that the others leave true. -/
def Stable (inv : σ → Prop) (rely : σ → σ → Prop) (P : σ → Prop) : Prop :=
  ∀ s s', inv s → P s → rely s s' → P s'

/-- Every statement does what `guarantee` allows and the answer has `Q`, from `P` on. -/
inductive Outlined (inv : σ → Prop) (rely guarantee : σ → σ → Prop)
    (Q : Except ε α → σ → Prop) : (σ → Prop) → Script σ ε α → Prop
  | done {P : σ → Prop} {answer : Except ε α} (h : ∀ s, inv s → P s → Q answer s) :
      Outlined inv rely guarantee Q P (.done answer)
  /-- The assertion a statement starts from is stable; what follows starts from the state
  it left. -/
  | stmt {P P₀ : σ → Prop} {write : σ → σ} {next : σ → Script σ ε α}
      (himp : ∀ s, inv s → P s → P₀ s) (hstable : Stable inv rely P₀)
      (hstep : ∀ s, inv s → P₀ s → guarantee s (write s))
      (hnext : ∀ s, inv s → P₀ s →
        Outlined inv rely guarantee Q (fun s' => s' = write s) (next s)) :
      Outlined inv rely guarantee Q P (.stmt write next)

section Rules

variable {inv : σ → Prop} {rely guarantee : σ → σ → Prop} {P P' : σ → Prop}
  {Q : Except ε α → σ → Prop} {Q' : Except ε β → σ → Prop}

/-- An outline holds from a stronger start. -/
theorem Outlined.strengthen {m : Script σ ε α} (h : Outlined inv rely guarantee Q P m)
    (himp : ∀ s, inv s → P' s → P s) : Outlined inv rely guarantee Q P' m := by
  cases h with
  | done hdone => exact .done fun s hs hP => hdone s hs (himp s hs hP)
  | stmt himp₀ hstable hstep hnext =>
    exact .stmt (fun s hs hP => himp₀ s hs (himp s hs hP)) hstable hstep hnext

theorem Outlined.weaken {R : Except ε α → σ → Prop} {m : Script σ ε α}
    (h : Outlined inv rely guarantee Q P m) (himp : ∀ answer s, inv s → Q answer s → R answer s) :
    Outlined inv rely guarantee R P m := by
  induction h with
  | done h => exact .done fun s hs hP => himp _ s hs (h s hs hP)
  | stmt himp₀ hstable hstep _ ih => exact .stmt himp₀ hstable hstep ih

theorem outlined_pure {a : α} (h : ∀ s, inv s → P s → Q (.ok a) s) :
    Outlined inv rely guarantee Q P (pure a : Script σ ε α) := .done h

theorem outlined_fail {e : ε} (h : ∀ s, inv s → P s → Q (.error e) s) :
    Outlined inv rely guarantee Q P (fail e : Script σ ε α) := .done h

theorem outlined_ret {x : Except ε α} (h : ∀ s, inv s → P s → Q x s) :
    Outlined inv rely guarantee Q P (ret x : Script σ ε α) := .done h

/-- Nothing is asked of a script that is never reached. -/
theorem outlined_of_not {m : Script σ ε α} (h : ∀ s, inv s → ¬ P s) :
    Outlined inv rely guarantee Q P m := by
  cases m with
  | done => exact .done fun s hs hP => absurd hP (h s hs)
  | stmt =>
    have hnever : ∀ s, inv s → P s → (fun _ => False) s := h
    exact .stmt hnever (fun _ _ _ hP _ => hP) (fun _ _ hP => hP.elim) fun _ _ hP => hP.elim

/-- Outlines are put together where one ends as the next begins. -/
theorem outlined_bind {m : Script σ ε α} {k : α → Script σ ε β}
    (hm : Outlined inv rely guarantee Q P m)
    (hk : ∀ a, Outlined inv rely guarantee Q' (Q (.ok a)) (k a))
    (he : ∀ e s, inv s → Q (.error e) s → Q' (.error e) s) :
    Outlined inv rely guarantee Q' P (m >>= k) := by
  induction hm with
  | @done P answer h =>
    cases answer with
    | ok a => exact (hk a).strengthen h
    | error e => exact .done fun s hs hP => he e s hs (h s hs hP)
  | stmt himp hstable hstep _ ih => exact .stmt himp hstable hstep ih

/-- A loop, from an assertion that each turn keeps. -/
theorem outlined_foldlM {γ : Type} {body : β → γ → Script σ ε β} {I : β → List γ → σ → Prop}
    (hbody : ∀ b c rest, Outlined inv rely guarantee
      (fun answer s => match answer with
        | .ok b' => I b' rest s
        | .error e => Q' (.error e) s) (I b (c :: rest)) (body b c))
    (hdone : ∀ b s, inv s → I b [] s → Q' (.ok b) s) (items : List γ) (b : β) :
    Outlined inv rely guarantee Q' (I b items) (items.foldlM body b) := by
  induction items generalizing b with
  | nil => exact .done (hdone b)
  | cons c rest ih => exact outlined_bind (hbody b c rest) (fun b' => ih b') fun e s _ h => h

theorem outlined_attempt {m : Script σ ε α} (h : Outlined inv rely guarantee Q P m) :
    Outlined inv rely guarantee (fun answer s => ∀ result, answer = .ok result → Q result s) P
      (attempt m : Script σ ε' (Except ε α)) := by
  induction h with
  | done h =>
    refine .done fun s hs hP result hresult => ?_
    rw [← Except.ok.inj hresult]
    exact h s hs hP
  | stmt himp hstable hstep _ ih => exact .stmt himp hstable hstep ih

/-- A statement, where nothing else acts. -/
theorem outlined_atomic_alone {m : Effect σ ε α}
    (h : ∀ s, inv s → P s → guarantee s (exec m s).2 ∧ Q (exec m s).1 (exec m s).2) :
    Outlined inv Eq guarantee Q P (atomic m) := by
  refine .stmt (fun _ _ hP => hP) (fun s s' _ hP hs => hs ▸ hP) (fun s hs hP => (h s hs hP).1) ?_
  intro s hs hP
  refine .done ?_
  rintro s' - rfl
  exact (h s hs hP).2

/-- **Crash safety.** Wherever a script outlined for itself alone is interrupted, it has kept
the invariant and done what it guarantees. -/
theorem Outlined.passes {m : Script σ ε α} (h : Outlined inv rely guarantee Q P m)
    (hinv : ∀ s s', inv s → guarantee s s' → inv s') {s s' : σ} (hs : inv s) (hP : P s)
    (hrun : Passes m s s') : inv s' ∧ Relation.ReflTransGen guarantee s s' := by
  induction hrun generalizing P with
  | here => exact ⟨hs, .refl⟩
  | @further write next s s' hrest ih =>
    cases h with
    | stmt himp hstable hstep hnext =>
      have hP₀ := himp s hs hP
      have hfirst := hstep s hs hP₀
      obtain ⟨hs', hthen⟩ := ih (hnext s hs hP₀) (hinv s _ hs hfirst) rfl
      exact ⟨hs', .head hfirst hthen⟩

/-- Its answer, when it is not interrupted. -/
theorem Outlined.answers {m : Script σ ε α} (h : Outlined inv rely guarantee Q P m)
    (hinv : ∀ s s', inv s → guarantee s s' → inv s') {s : σ} (hs : inv s) (hP : P s) :
    Q (runAlone m s).1 (runAlone m s).2 := by
  induction h generalizing s with
  | done h => exact h s hs hP
  | stmt himp hstable hstep hnext ih =>
    have hP₀ := himp s hs hP
    exact ih s hs hP₀ (hinv s _ hs (hstep s hs hP₀)) rfl

end Rules

/-! ## Statement by statement -/

/-- Every statement of the script is `good`, whatever was read before it. -/
inductive Each (good : (σ → σ) → Prop) : Script σ ε α → Prop
  | done (answer : Except ε α) : Each good (.done answer)
  | stmt {write : σ → σ} {next : σ → Script σ ε α} (h : good write)
      (hnext : ∀ s, Each good (next s)) : Each good (.stmt write next)

theorem Each.imp {good good' : (σ → σ) → Prop} {m : Script σ ε α} (h : Each good m)
    (himp : ∀ w, good w → good' w) : Each good' m := by
  induction h with
  | done answer => exact .done answer
  | stmt h _ ih => exact .stmt (himp _ h) ih

/-- Parts with good writes have good writes together. -/
theorem each_bind {good : (σ → σ) → Prop} {m : Script σ ε α} {k : α → Script σ ε β}
    (hm : Each good m) (hk : ∀ a, Each good (k a)) : Each good (m >>= k) := by
  induction hm with
  | done answer =>
    cases answer with
    | ok a => exact hk a
    | error e => exact .done _
  | stmt h _ ih => exact .stmt h ih

/-- A loop has good writes where its body does. -/
theorem each_foldlM {γ : Type} {good : (σ → σ) → Prop} {body : β → γ → Script σ ε β}
    (hbody : ∀ b c, Each good (body b c)) (items : List γ) (b : β) :
    Each good (items.foldlM body b) := by
  induction items generalizing b with
  | nil => exact .done _
  | cons c rest ih => exact each_bind (hbody b c) ih

/-! ## Executions -/

/-- An agent takes its next statement; what the environment does is no agent's. -/
inductive Scheduled (env : σ → σ → Prop) : Act (Option ι) σ (Script σ ε α)
  | takes {i : ι} {s : σ} {write : σ → σ} {next : σ → Script σ ε α} :
      Scheduled env (some i) s (.stmt write next) (write s) (next s)
  | environment {s s' : σ} {p : Script σ ε α} (h : env s s') : Scheduled env none s p s' p

/-- An agent that goes on alone runs its script to the end. -/
theorem alone_runAlone {env : σ → σ → Prop} (i : ι) (m : Script σ ε α) (s : σ) :
    Alone (Scheduled env) (some i) (s, m) ((runAlone m s).2, .done (runAlone m s).1) := by
  induction m generalizing s with
  | done answer => exact Alone.refl _
  | stmt write next ih => exact Relation.ReflTransGen.head .takes (ih s (write s))

/-- What holds where an agent stands: an assertion its next statement is outlined from. -/
def StandsAt (inv : σ → Prop) (rely guarantee : σ → σ → Prop) (s : σ) :
    Script σ ε α → Prop
  | .done _ => True
  | .stmt write next => ∃ (Q : Except ε α → σ → Prop) (P : σ → Prop), P s ∧ Stable inv rely P ∧
      Outlined inv rely guarantee Q P (.stmt write next)

section Executions

variable {inv : σ → Prop} {env : σ → σ → Prop} {rely guarantee : ι → σ → σ → Prop}

/-- An outlined program stands at its start. -/
theorem Outlined.standsAt {r g : σ → σ → Prop} {P : σ → Prop} {Q : Except ε α → σ → Prop}
    {s : σ} {m : Script σ ε α} (h : Outlined inv r g Q P m) (hs : inv s) (hP : P s) :
    StandsAt inv r g s m := by
  cases h with
  | done => trivial
  | @stmt _ P₀ _ _ himp hstable hstep hnext =>
    exact ⟨Q, P₀, himp s hs hP, hstable, .stmt (fun _ _ h => h) hstable hstep hnext⟩

/-- Others' steps leave a program where it stands. -/
theorem StandsAt.mono {r g : σ → σ → Prop} {s s' : σ} {m : Script σ ε α}
    (h : StandsAt inv r g s m) (hs : inv s) (hrely : r s s') : StandsAt inv r g s' m := by
  cases m with
  | done => trivial
  | stmt =>
    obtain ⟨Q, P, hP, hstable, hm⟩ := h
    exact ⟨Q, P, hstable s s' hs hP hrely, hstable, hm⟩

/-- What holds where an agent stands; the environment stands nowhere. -/
def Stands (inv : σ → Prop) (rely guarantee : ι → σ → σ → Prop) :
    Option ι → σ → Script σ ε α → Prop
  | some i, s, p => StandsAt inv (rely i) (guarantee i) s p
  | none, _, _ => True

/-- What a step does: the environment's, or what its agent guarantees. -/
def Does (env : σ → σ → Prop) (guarantee : ι → σ → σ → Prop) : Option ι → σ → σ → Prop
  | some i => guarantee i
  | none => env

/-- The step of an agent where it stands. -/
theorem Scheduled.sound {agent : Option ι} {s s' : σ} {p p' : Script σ ε α}
    (hact : Scheduled env agent s p s' p') (hinv : ∀ i s s', inv s → guarantee i s s' → inv s')
    (henv : ∀ s s', inv s → env s s' → inv s') (hs : inv s)
    (hp : Stands inv rely guarantee agent s p) :
    Does env guarantee agent s s' ∧ inv s' ∧ Stands inv rely guarantee agent s' p' := by
  cases hact with
  | takes =>
    obtain ⟨Q, P, hP, -, hm⟩ := hp
    cases hm with
    | stmt himp _ hstep hnext =>
      have hP₀ := himp s hs hP
      have hs' := hinv _ s _ hs (hstep s hs hP₀)
      exact ⟨hstep s hs hP₀, hs', (hnext s hs hP₀).standsAt hs' rfl⟩
  | environment h => exact ⟨h, henv s s' hs h, trivial⟩

variable [DecidableEq ι]

/-- **The rely-guarantee rule.** Where every script is outlined, and the others rely on
what one guarantees and on the environment, an execution keeps the invariant and all its
steps do what their agents guarantee. -/
theorem guaranteed {c₀ c : Config (Option ι) σ (Script σ ε α)} {events : List (Event (Option ι) σ)}
    (hinv : ∀ i s s', inv s → guarantee i s s' → inv s')
    (henv : ∀ s s', inv s → env s s' → inv s' ∧ ∀ i, rely i s s')
    (hrely : ∀ i j s s', i ≠ j → inv s → guarantee i s s' → rely j s s')
    (hstart : inv c₀.shared)
    (hscripts : ∀ i, StandsAt inv (rely i) (guarantee i) c₀.shared (c₀.pc (some i)))
    (hrun : Execution (Scheduled env) c₀ events c) :
    inv c.shared ∧ ∀ e ∈ events, inv e.before ∧ Does env guarantee e.agent e.before e.after := by
  have hothers : ∀ {agent : Option ι} {j s s'}, agent ≠ some j → inv s →
      Does env guarantee agent s s' → rely j s s' := by
    intro agent j s s' hj hs hdoes
    cases agent with
    | none => exact (henv s s' hs hdoes).2 j
    | some i => exact hrely i j s s' (fun h => hj (congrArg some h)) hs hdoes
  have hsound : ∀ {agent s s'} {p p' : Script σ ε α}, Scheduled env agent s p s' p' → inv s →
      Stands inv rely guarantee agent s p → Does env guarantee agent s s' ∧ inv s' ∧
        Stands inv rely guarantee agent s' p' :=
    fun hact hs hp => hact.sound hinv (fun s s' hs h => (henv s s' hs h).1) hs hp
  -- where each script stands is the annotation; the rely of one carries it over the others
  have houtline : Outline (Scheduled env) inv
      (fun agent s (p : Script σ ε α) => Stands inv rely guarantee agent s p)
      fun _ _ _ _ => True :=
    { symm := fun _ => trivial
      sound := fun hact hs hp => (hsound hact hs hp).2
      free := fun {_ j _ _ _ _ _} hij hact hs hi hj _ => by
        cases j with
        | none => trivial
        | some j => exact hj.mono hs (hothers hij hs (hsound hact hs hi).1)
      keeps := fun _ _ _ _ _ _ => trivial }
  have hinit : Annotated inv
      (fun agent s (p : Script σ ε α) => Stands inv rely guarantee agent s p)
      (fun _ _ _ _ => True) c₀ := by
    refine ⟨hstart, fun agent => ?_, fun _ _ _ => trivial⟩
    cases agent with
    | none => trivial
    | some i => exact hscripts i
  refine ⟨(houtline.holds hinit hrun).inv, fun e he => ?_⟩
  -- an event is a step of the run cut right before it
  obtain ⟨_, c', p', hrun', hshared, hact⟩ := hrun.split he
  have hc' := houtline.holds hinit hrun'
  rw [← hshared] at hact ⊢
  exact ⟨hc'.inv, (hsound hact hc'.inv (hc'.at_ e.agent)).1⟩

/-- How far an agent is: it has not begun its script, or has taken the statement it begins
with, and good ones since. -/
inductive Begun (write : σ → σ) (next : σ → Script σ ε α) (good : σ → (σ → σ) → Prop) (i : ι)
    (events : List (Event (Option ι) σ)) (p : Script σ ε α) : Prop
  | waits (hnone : ∀ e ∈ events, e.agent ≠ some i) (hp : p = .stmt write next)
  | opened (earlier later : List (Event (Option ι) σ)) (first : Event (Option ι) σ)
      (hevents : events = earlier ++ first :: later) (hfirst : first.agent = some i)
      (hnone : ∀ e ∈ earlier, e.agent ≠ some i) (hafter : first.after = write first.before)
      (hrest : Each (good first.before) p)
      (hlater : ∀ e ∈ later, e.agent = some i → ∃ w, good first.before w ∧ e.after = w e.before)

section Begun

variable {write : σ → σ} {next : σ → Script σ ε α} {good : σ → (σ → σ) → Prop} {i : ι}
  {events : List (Event (Option ι) σ)} {p p' : Script σ ε α} {s s' : σ}

omit [DecidableEq ι] in
/-- Other agents' steps leave a program begun. -/
theorem Begun.other (h : Begun write next good i events p) {e : Event (Option ι) σ}
    (he : e.agent ≠ some i) : Begun write next good i (events ++ [e]) p := by
  cases h with
  | waits hnone hp =>
    refine .waits (fun e' he' => ?_) hp
    rcases List.mem_append.1 he' with he' | he'
    · exact hnone e' he'
    · exact List.mem_singleton.1 he' ▸ he
  | opened earlier later first hevents hfirst hnone hafter hrest hlater =>
    refine .opened earlier (later ++ [e]) first (by simp [hevents]) hfirst hnone hafter hrest ?_
    intro e' he' hagent
    rcases List.mem_append.1 he' with he' | he'
    · exact hlater e' he' hagent
    · exact absurd (List.mem_singleton.1 he' ▸ hagent) he

omit [DecidableEq ι] in
/-- A step of its own leaves a program begun. -/
theorem Begun.own (h : Begun write next good i events p) (hnext : ∀ s, Each (good s) (next s))
    (hact : Scheduled env (some i) s p s' p') :
    Begun write next good i (events ++ [⟨some i, s, s'⟩]) p' := by
  cases hact with
  | @takes _ _ write' _ =>
    cases h with
    | waits hnone hp =>
      obtain ⟨rfl, rfl⟩ := Script.stmt.inj hp
      exact .opened events [] _ rfl rfl hnone rfl (hnext s) fun e he => absurd he List.not_mem_nil
    | opened earlier later first hevents hfirst hnone hafter hrest hlater =>
      cases hrest with
      | stmt hgood hrest =>
        refine .opened earlier (later ++ [⟨some i, s, write' s⟩]) first (by simp [hevents]) hfirst
          hnone hafter (hrest s) fun e he hagent => ?_
        rcases List.mem_append.1 he with he | he
        · exact hlater e he hagent
        · obtain rfl := List.mem_singleton.1 he
          exact ⟨_, hgood, rfl⟩

/-- **The opening rule.** What an agent has done in an execution, where its script begins
with a statement and goes on with ones that are good, given what that read. -/
theorem begun (hnext : ∀ s, Each (good s) (next s))
    {c₀ c : Config (Option ι) σ (Script σ ε α)} (hpc : c₀.pc (some i) = .stmt write next)
    (hrun : Execution (Scheduled env) c₀ events c) :
    Begun write next good i events (c.pc (some i)) := by
  induction hrun with
  | start => exact .waits (fun e he => absurd he List.not_mem_nil) hpc
  | @step events c agent s p run hact ih =>
    show Begun write next good i _ (Function.update c.pc agent p (some i))
    by_cases hagent : agent = some i
    · subst hagent
      rw [Function.update_self]
      exact ih.own hnext hact
    · rw [Function.update_of_ne (Ne.symm hagent)]
      exact ih.other hagent

end Begun

end Executions

end Script
