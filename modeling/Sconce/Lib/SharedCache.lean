/-
# A shared cache

A cache stands between many clients and an origin that may change its mind at any moment.  As
HTTP allows it, the cache may store an answer that does not forbid it, give it to a request on
which the fields its `Vary` names agree while it is fresh, take a 304 with its validator as a
confirmation, and drop it.  Nothing is said about when the cache does which, so what holds of
every run holds of any cache that keeps to the rules.

An origin is understood through what one of its answers is good for, as of a moment.  If
storing is only allowed of good answers, and a confirmation makes a good answer good again,
then whatever the cache gives was good no longer ago than it lives (`Reachable.given_good`).
-/
import Mathlib.Data.List.Basic
import Mathlib.Data.Set.Insert
import Mathlib.Logic.Relation
import Mathlib.Tactic
import Sconce.Lib.Trimming

namespace SharedCache

/-! ## Messages -/

/-- The fields of a message; names are in lower case. -/
abbrev Fields := List (String × String)

namespace Fields

/-- The values a name has. -/
def values (fields : Fields) (name : String) : List String :=
  (fields.filter fun f => f.1 = name).map (·.2)

/-- The fields of other names. -/
def without (fields : Fields) (name : String) : Fields := fields.filter fun f => f.1 ≠ name

/-- A field more. -/
def append (fields : Fields) (name value : String) : Fields := fields ++ [(name, value)]

/-- A field in place of those of its name. -/
def insert (fields : Fields) (name value : String) : Fields := (fields.without name).append name value

/-- Fields in place of those of their names. -/
def update (fields new : Fields) : Fields :=
  (fields.filter fun f => new.values f.1 = []) ++ new

variable {fields new : Fields} {name other value : String}

@[simp] theorem values_append_self :
    (fields.append name value).values name = fields.values name ++ [value] := by
  simp [values, append]

theorem values_append_of_ne (h : name ≠ other) :
    (fields.append name value).values other = fields.values other := by
  simp [values, append, h]

@[simp] theorem values_without_self : (fields.without name).values name = [] := by
  simp [values, without]

theorem values_without_of_ne (h : name ≠ other) :
    (fields.without name).values other = fields.values other := by
  unfold values without
  rw [List.filter_filter]
  congr 1
  apply List.filter_congr
  intro f _
  by_cases hf : f.1 = other
  · simp [hf, Ne.symm h]
  · simp [hf]

@[simp] theorem values_insert_self : (fields.insert name value).values name = [value] := by
  rw [insert, values_append_self, values_without_self, List.nil_append]

theorem values_insert_of_ne (h : name ≠ other) :
    (fields.insert name value).values other = fields.values other := by
  rw [insert, values_append_of_ne h, values_without_of_ne h]

/-- An update gives its names its own values. -/
theorem values_update_of_ne_nil (h : new.values name ≠ []) :
    (fields.update new).values name = new.values name := by
  have hold : (fields.filter fun f => new.values f.1 = []).filter (fun f => f.1 = name) = [] := by
    rw [List.filter_filter, List.filter_eq_nil_iff]
    intro f _ hf
    rw [Bool.and_eq_true, decide_eq_true_iff, decide_eq_true_iff] at hf
    exact h (hf.1 ▸ hf.2)
  unfold update values at *
  rw [List.filter_append, List.map_append, hold, List.map_nil, List.nil_append]

end Fields

/-- The members of a comma-separated value, without the blanks around them, in lower case. -/
def members (value : String) : List (List Char) :=
  (value.toList.splitOn ',').map fun m => (m.trimEnds fun c => c = ' ' || c = '\t').map Char.toLower

structure Request (κ : Type*) where
  target : κ
  fields : Fields

structure Response (β : Type*) where
  status : ℕ
  fields : Fields
  body : β

variable {κ β : Type*}

namespace Response

variable (resp : Response β)

/-- The directives of `Cache-Control`. -/
def directives : List (List Char) := (resp.fields.values "cache-control").flatMap members

def Has (directive : String) : Prop := directive.toList ∈ resp.directives

/-- The number of a directive `name=n`. -/
def argument (name : String) : Option ℕ :=
  resp.directives.findSome? fun d =>
    if name.toList ++ ['='] <+: d then some ((d.drop (name.length + 1)).foldl
      (fun n c => 10 * n + (c.toNat - '0'.toNat)) 0)
    else none

/-- How many seconds it lives in a shared cache, where it says so. -/
def lifetime : Option ℕ := (resp.argument "s-maxage").orElse fun _ => resp.argument "max-age"

/-- The names of the request fields it depends on. -/
def vary : List (List Char) := (resp.fields.values "vary").flatMap members

def etag : Option String := (resp.fields.values "etag").head?

/-- Its fields brought up to date. -/
def freshened (confirmation : Response β) : Response β :=
  { resp with fields := resp.fields.update confirmation.fields }

end Response

/-- A shared cache may store the answer to a request: nothing forbids it, and if the request
bears a credential the answer allows it. -/
structure MayStore (r : Request κ) (resp : Response β) : Prop where
  whole : resp.status ≠ 304
  noStore : ¬ resp.Has "no-store"
  notPrivate : ¬ resp.Has "private"
  credential : r.fields.values "authorization" ≠ [] →
    resp.Has "public" ∨ resp.Has "must-revalidate" ∨ (resp.argument "s-maxage").isSome

/-- The answer to a request is one to another: of the same target, and of the same values in the
fields the answer depends on. -/
structure Selects (resp : Response β) (stored r : Request κ) : Prop where
  target : r.target = stored.target
  varies : ∀ name ∈ resp.vary, name ≠ ['*'] ∧
    r.fields.values (String.ofList name) = stored.fields.values (String.ofList name)

/-! ## The cache -/

/-- What the origin answered to a request. -/
structure Exchange (κ β : Type*) where
  time : ℤ
  request : Request κ
  response : Response β

/-- An answer in the cache: to which request, and when the origin last stood by it. -/
structure Entry (κ β : Type*) where
  date : ℤ
  request : Request κ
  response : Response β

/-- The clock, what the origin has answered, what is stored, and what clients were given. -/
structure State (κ β : Type*) where
  now : ℤ
  exchanges : Set (Exchange κ β)
  stored : Set (Entry κ β)
  given : List (Exchange κ β)

/-- The entry has not outlived its answer. -/
def Entry.Fresh (second : ℤ) (e : Entry κ β) (now : ℤ) : Prop :=
  ∀ n, e.response.lifetime = some n → now < e.date + n * second

/-- What can happen next; `second` is how much the clock moves in a second. -/
inductive Step (origin : ℤ → Request κ → Response β) (second : ℤ) :
    State κ β → State κ β → Prop
  | tick {s : State κ β} (t : ℤ) (h : s.now ≤ t) : Step origin second s { s with now := t }
  /-- A request of a client, or one of the cache's own, reaches the origin. -/
  | forward {s : State κ β} (r : Request κ) : Step origin second s
      { s with exchanges := insert ⟨s.now, r, origin s.now r⟩ s.exchanges }
  | store {s : State κ β} (x : Exchange κ β) (hx : x ∈ s.exchanges)
      (h : MayStore x.request x.response) : Step origin second s
      { s with stored := insert ⟨x.time, x.request, x.response⟩ s.stored }
  /-- A 304 with the validator of an entry it could be given for, and no older. -/
  | confirm {s : State κ β} (e : Entry κ β) (x : Exchange κ β) (he : e ∈ s.stored)
      (hx : x ∈ s.exchanges) (htime : e.date ≤ x.time) (hstatus : x.response.status = 304)
      (hselects : Selects e.response e.request x.request)
      (hetag : x.response.etag.isSome ∧ x.response.etag = e.response.etag) : Step origin second s
      { s with stored := insert ⟨x.time, e.request, e.response.freshened x.response⟩ s.stored }
  | drop {s : State κ β} (e : Entry κ β) : Step origin second s { s with stored := s.stored \ {e} }
  | give {s : State κ β} (e : Entry κ β) (r : Request κ) (he : e ∈ s.stored)
      (hselects : Selects e.response e.request r) (hfresh : e.Fresh second s.now) :
      Step origin second s { s with given := ⟨s.now, r, e.response⟩ :: s.given }

/-- An empty cache. -/
def empty (now : ℤ) : State κ β := ⟨now, ∅, ∅, []⟩

/-- A state that some run from an empty cache leads to. -/
def Reachable (origin : ℤ → Request κ → Response β) (second : ℤ) (s : State κ β) : Prop :=
  ∃ now, Relation.ReflTransGen (Step origin second) (empty now) s

/-! ## The rule -/

/-- `good t r resp`: the answer is good for the request as of the moment.  What may be stored is
good, and what is confirmed is good again. -/
structure Sound (origin : ℤ → Request κ → Response β)
    (good : ℤ → Request κ → Response β → Prop) : Prop where
  stored : ∀ t r, MayStore r (origin t r) → good t r (origin t r)
  confirmed : ∀ {t t' r r' resp}, good t r resp → t ≤ t' → Selects resp r r' →
    (origin t' r').status = 304 → (origin t' r').etag.isSome → (origin t' r').etag = resp.etag →
    good t' r (resp.freshened (origin t' r'))

variable {origin : ℤ → Request κ → Response β} {good : ℤ → Request κ → Response β → Prop}
  {second : ℤ} {s s' : State κ β}

/-- An answer a client was given is that of a good entry, still fresh. -/
structure GivenGood (good : ℤ → Request κ → Response β → Prop) (second : ℤ)
    (a : Exchange κ β) (e : Entry κ β) : Prop where
  date : e.date ≤ a.time
  fresh : e.Fresh second a.time
  selects : Selects e.response e.request a.request
  response : a.response = e.response
  good : good e.date e.request e.response

/-- What holds in every state. -/
structure Inv (origin : ℤ → Request κ → Response β) (good : ℤ → Request κ → Response β → Prop)
    (second : ℤ) (s : State κ β) : Prop where
  exchanges : ∀ x ∈ s.exchanges, x.time ≤ s.now ∧ x.response = origin x.time x.request
  stored : ∀ e ∈ s.stored, e.date ≤ s.now ∧ good e.date e.request e.response
  given : ∀ a ∈ s.given, ∃ e, GivenGood good second a e

/-- An empty cache holds what the origin gave. -/
theorem inv_empty (now : ℤ) : Inv origin good second (empty now : State κ β) where
  exchanges _ hx := absurd hx (Set.notMem_empty _)
  stored _ he := absurd he (Set.notMem_empty _)
  given _ ha := absurd ha List.not_mem_nil

/-- A step keeps in the cache what the origin gave. -/
theorem Inv.step (hsound : Sound origin good) (h : Step origin second s s')
    (hinv : Inv origin good second s) : Inv origin good second s' := by
  cases h with
  | tick t ht =>
    refine ⟨fun x hx => ?_, fun e he => ?_, hinv.given⟩
    · exact ⟨(hinv.exchanges x hx).1.trans ht, (hinv.exchanges x hx).2⟩
    · exact ⟨(hinv.stored e he).1.trans ht, (hinv.stored e he).2⟩
  | forward r =>
    refine ⟨fun x hx => ?_, hinv.stored, hinv.given⟩
    rcases Set.mem_insert_iff.1 hx with rfl | hx
    · exact ⟨le_rfl, rfl⟩
    · exact hinv.exchanges x hx
  | store x hx hmay =>
    refine ⟨hinv.exchanges, fun e he => ?_, hinv.given⟩
    rcases Set.mem_insert_iff.1 he with rfl | he
    · obtain ⟨htime, hresponse⟩ := hinv.exchanges x hx
      refine ⟨htime, ?_⟩
      rw [hresponse] at hmay ⊢
      exact hsound.stored _ _ hmay
    · exact hinv.stored e he
  | confirm e x he hx htime hstatus hselects hetag =>
    refine ⟨hinv.exchanges, fun e' he' => ?_, hinv.given⟩
    rcases Set.mem_insert_iff.1 he' with rfl | he'
    · obtain ⟨hnow, hresponse⟩ := hinv.exchanges x hx
      refine ⟨hnow, ?_⟩
      rw [hresponse] at hstatus hetag ⊢
      exact hsound.confirmed (hinv.stored e he).2 htime hselects hstatus hetag.1 hetag.2
    · exact hinv.stored e' he'
  | drop e => exact ⟨hinv.exchanges, fun e' he' => hinv.stored e' he'.1, hinv.given⟩
  | give e r he hselects hfresh =>
    refine ⟨hinv.exchanges, hinv.stored, fun a ha => ?_⟩
    rcases List.mem_cons.1 ha with rfl | ha
    · obtain ⟨hdate, hgood⟩ := hinv.stored e he
      exact ⟨e, hdate, hfresh, hselects, rfl, hgood⟩
    · exact hinv.given a ha

/-- **The rule of a shared cache.**  Whatever a client is given was good for the request it is an
answer to no longer ago than it lives. -/
theorem Reachable.given_good (hsound : Sound origin good) (h : Reachable origin second s)
    {a : Exchange κ β} (ha : a ∈ s.given) : ∃ e, GivenGood good second a e := by
  obtain ⟨now, hrun⟩ := h
  have hinv : Inv origin good second s := by
    clear ha
    induction hrun with
    | refl => exact inv_empty now
    | tail _ hstep ih => exact ih.step hsound hstep
  exact hinv.given a ha

end SharedCache
