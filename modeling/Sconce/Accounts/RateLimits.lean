/-
# Rate limits

The in-memory limiter in front of the credential endpoints: per key the times of recent attempts,
of which at most 64 are kept, pruned by the window of each call and swept when there are many
keys.  A denied attempt is not recorded.

Over any run, what the limiter answers is what the full history of attempts says
(`answer_eq_reference`).
-/
import Sconce.Lib.Run
import Sconce.Lib.SlidingWindow
import Sconce.Lib.Table
import Sconce.Licensing.Editions

namespace Sconce

open SlidingWindow

/-! ## The limiter -/

/-- A point of the monotonic clock, in nanoseconds. -/
abbrev Instant := ℕ

/-- `SWEEP_THRESHOLD`. -/
def sweepThreshold : ℕ := 4096

/-- `MAX_WINDOW`, an hour. -/
def maxWindow : ℕ := 3600 * 10 ^ 9

/-- `MAX_KEY_CHARS`. -/
def maxKeyChars : ℕ := 256

/-- `MAX_ATTEMPTS_KEPT`. -/
def maxAttemptsKept : ℕ := 64

/-- `RateLimiter`: the deque of a key, oldest first. -/
structure RateLimiter where
  enabled : Bool
  windows : Table String (List Instant)

/-- `bounded_key`. -/
def boundedKey (key : String) : String := String.ofList (key.toList.take maxKeyChars)

namespace RateLimiter

/-- `RateLimiter::default()`. -/
def default : RateLimiter := ⟨true, ∅⟩

/-- `from_setting`. -/
def fromSetting (value : Option String) : RateLimiter :=
  let off := value.any fun v => (trim v).toLower ∈ ["off", "false", "0", "disabled", "no"]
  { default with enabled := !off }

/-- The sweep of abandoned keys. -/
def sweep (windows : Table String (List Instant)) (now : Instant) : Table String (List Instant) :=
  if sweepThreshold ≤ windows.rows.length then
    windows.delete fun _ w => !(w.getLast?.any fun t => now - t < maxWindow)
  else windows

/-- `hit`. -/
def hit (s : RateLimiter) (key : String) (limit : Option (ℕ × ℕ)) (now : Instant) :
    Bool × RateLimiter :=
  if !s.enabled then (true, s)
  else
    let windows := sweep s.windows now
    let w := (windows.get? (boundedKey key)).getD []
    let put (w : List Instant) : RateLimiter :=
      { s with windows := windows.upsert (boundedKey key) w fun _ => w }
    match limit with
    | some (max, window) =>
      let w := prune window now w
      if max ≤ w.length then (false, put w) else (true, put (push maxAttemptsKept now w))
    | none => (true, put (push maxAttemptsKept now (prune maxWindow now w)))

/-- `allow`. -/
def allow (s : RateLimiter) (key : String) (max window : ℕ) (now : Instant) : Bool × RateLimiter :=
  s.hit key (some (max, window)) now

/-- `record`. -/
def record (s : RateLimiter) (key : String) (now : Instant) : RateLimiter := (s.hit key none now).2

/-- `at_limit`. -/
def atLimit (s : RateLimiter) (key : String) (max window : ℕ) (now : Instant) :
    Bool × RateLimiter :=
  if !s.enabled then (false, s)
  else
    match s.windows.get? (boundedKey key) with
    | none => (false, s)
    | some w =>
      let w := prune window now w
      (max ≤ w.length, { s with windows := s.windows.upsert (boundedKey key) w fun _ => w })

end RateLimiter

/-! ## Calls and answers -/

/-- A call of the limiter. -/
inductive LimiterCall where
  | allow (key : String) (max window : ℕ)
  | atLimit (key : String) (max window : ℕ)
  | record (key : String)

/-- The key of a call. -/
def LimiterCall.key : LimiterCall → String
  | .allow key _ _ => key
  | .atLimit key _ _ => key
  | .record key => key

/-- A call at a time. -/
structure TimedCall where
  time : Instant
  call : LimiterCall

/-- The limiter after a call. -/
def RateLimiter.step (s : RateLimiter) (c : TimedCall) : RateLimiter :=
  match c.call with
  | .allow key max window => (s.allow key max window c.time).2
  | .atLimit key max window => (s.atLimit key max window c.time).2
  | .record key => s.record key c.time

/-- What the limiter answers: whether an attempt is allowed, whether a key is at its limit.  A
recording answers nothing. -/
def RateLimiter.answer (s : RateLimiter) (c : TimedCall) : Option Bool :=
  match c.call with
  | .allow key max window => some (s.allow key max window c.time).1
  | .atLimit key max window => some (s.atLimit key max window c.time).1
  | .record _ => none

/-! ## The reference -/

/-- The attempts that were recorded or admitted, with their keys, in order. -/
abbrev History := List (String × Instant)

namespace History

/-- The times of a key. -/
def attempts (history : History) (key : String) : List Instant :=
  (history.filter fun a => a.1 = key).map Prod.snd

/-- At least `max` attempts of the key lie strictly less than the window ago. -/
def denied (history : History) (key : String) (max window : ℕ) (now : Instant) : Bool :=
  max ≤ (recent window now (attempts history key)).length

/-- What is to be answered. -/
def answer (history : History) (c : TimedCall) : Option Bool :=
  match c.call with
  | .allow key max window => some (!history.denied key max window c.time)
  | .atLimit key max window => some (history.denied key max window c.time)
  | .record _ => none

/-- The history after a call. -/
def step (history : History) (c : TimedCall) : History :=
  match c.call with
  | .allow key max window =>
    if history.denied key max window c.time then history else history ++ [(key, c.time)]
  | .atLimit _ _ _ => history
  | .record key => history ++ [(key, c.time)]

end History

/-! ## Use -/

/-- The limit of a key. -/
structure Limit where
  max : ℕ
  window : ℕ
  max_pos : 1 ≤ max
  max_le : max ≤ maxAttemptsKept
  window_le : window ≤ maxWindow

/-- A call uses the limit of its key. -/
def LimiterCall.Uses (limits : String → Limit) : LimiterCall → Prop
  | .allow key max window => max = (limits key).max ∧ window = (limits key).window
  | .atLimit key max window => max = (limits key).max ∧ window = (limits key).window
  | .record _ => True

/-- Calls in order of time, with keys that differ in their first characters, each with one
limit. -/
structure WellUsed (limits : String → Limit) (calls : List TimedCall) : Prop where
  ordered : calls.Pairwise fun c c' => c.time ≤ c'.time
  distinct : ∀ c ∈ calls, ∀ c' ∈ calls, boundedKey c.call.key = boundedKey c'.call.key →
    c.call.key = c'.call.key
  uses : ∀ c ∈ calls, c.call.Uses limits

/-- A key in use. -/
def InUse (calls : List TimedCall) (key : String) : Prop := ∃ c ∈ calls, c.call.key = key

/-- A bounded key in use is the bounded form of one key only. -/
theorem WellUsed.eq_of_bounded {limits : String → Limit} {calls : List TimedCall}
    (h : WellUsed limits calls) {c : TimedCall} (hc : c ∈ calls) (key : String)
    (hkey : InUse calls key) (hbounded : boundedKey key = boundedKey c.call.key) :
    key = c.call.key := by
  obtain ⟨c', hc', rfl⟩ := hkey
  exact h.distinct c' hc' c hc hbounded

/-! ## The deques -/

namespace RateLimiter

variable {s : RateLimiter} {key : String}

/-- The deque of a key. -/
def kept (s : RateLimiter) (key : String) : List Instant :=
  (s.windows.get? (boundedKey key)).getD []

/-- The limiter with a deque replaced. -/
def put (s : RateLimiter) (key : String) (w : List Instant) : RateLimiter :=
  { s with windows := s.windows.upsert (boundedKey key) w fun _ => w }

/-- The limiter after a sweep. -/
def swept (s : RateLimiter) (now : Instant) : RateLimiter :=
  { s with windows := sweep s.windows now }

/-- A list that is put is kept under the bounded key. -/
theorem kept_put (s : RateLimiter) (key key' : String) (w : List Instant) :
    (s.put key w).kept key' = if boundedKey key' = boundedKey key then w else s.kept key' := by
  unfold kept put
  rw [Table.get?_upsert]
  split_ifs with h
  · cases s.windows.get? (boundedKey key) <;> rfl
  · rfl

/-- A sweep leaves a deque, or forgets one whose newest time is too old. -/
theorem kept_swept (s : RateLimiter) (now : Instant) (key : String) :
    (s.swept now).kept key = s.kept key ∨
      (s.swept now).kept key = [] ∧ ∀ t ∈ (s.kept key).getLast?, maxWindow ≤ now - t := by
  unfold kept swept sweep
  dsimp only
  split_ifs
  · rw [Table.get?_delete]
    cases s.windows.get? (boundedKey key) with
    | none => exact .inl rfl
    | some w =>
      by_cases hrecent : w.getLast?.any (fun t => now - t < maxWindow) = true
      · refine .inl ?_
        rw [Option.filter_some, if_pos (by rw [hrecent]; rfl)]
      · refine .inr ⟨?_, fun t ht => ?_⟩
        · rw [Option.filter_some, if_neg (by simpa using hrecent)]
          rfl
        · rw [Option.getD_some, Option.mem_def] at ht
          rw [ht, Option.any_some, decide_eq_true_eq, not_lt] at hrecent
          exact hrecent
  · exact .inl rfl

/-- What a limited hit does: sweep, prune, and count or refuse. -/
theorem hit_limited (henabled : s.enabled = true) (key : String) (max window : ℕ) (now : Instant) :
    s.hit key (some (max, window)) now
      = if max ≤ (prune window now ((s.swept now).kept key)).length then
          (false, (s.swept now).put key (prune window now ((s.swept now).kept key)))
        else (true, (s.swept now).put key
          (push maxAttemptsKept now (prune window now ((s.swept now).kept key)))) := by
  unfold hit
  rw [if_neg (by rw [henabled]; decide)]
  rfl

/-- What a record does: sweep, prune and count. -/
theorem record_eq (henabled : s.enabled = true) (key : String) (now : Instant) :
    s.record key now = (s.swept now).put key
      (push maxAttemptsKept now (prune maxWindow now ((s.swept now).kept key))) := by
  unfold record hit
  rw [if_neg (by rw [henabled]; decide)]
  rfl

/-- A key without a deque is at no limit. -/
theorem atLimit_eq (henabled : s.enabled = true) (key : String) {max : ℕ} (hmax : 1 ≤ max)
    (window : ℕ) (now : Instant) :
    (s.atLimit key max window now).1 = decide (max ≤ (prune window now (s.kept key)).length) ∧
      ((s.atLimit key max window now).2 = s ∨
        (s.atLimit key max window now).2 = s.put key (prune window now (s.kept key))) := by
  unfold atLimit kept
  rw [if_neg (by rw [henabled]; decide)]
  cases hw : s.windows.get? (boundedKey key) with
  | none =>
    refine ⟨?_, .inl rfl⟩
    exact (decide_eq_false (Nat.not_le.2 hmax)).symm
  | some w =>
    refine ⟨rfl, .inr ?_⟩
    rfl

end RateLimiter

/-! ## What the deques stand for -/

/-- An attempt that is added is the last of its key. -/
theorem History.attempts_concat (history : History) (key key' : String) (time : Instant) :
    History.attempts (history ++ [(key, time)]) key'
      = if key' = key then history.attempts key' ++ [time] else history.attempts key' := by
  unfold History.attempts
  rw [List.filter_append, List.map_append]
  split_ifs with h
  · rw [List.filter_cons_of_pos (by simpa using h.symm)]
    rfl
  · rw [List.filter_cons_of_neg (by simpa using Ne.symm h)]
    exact List.append_nil _

/-- The deques stand for the history, for the keys in use. -/
structure Tracks (limits : String → Limit) (keys : String → Prop) (now : Instant)
    (s : RateLimiter) (history : History) : Prop where
  enabled : s.enabled = true
  remembers : ∀ key, keys key → Remembers maxAttemptsKept (limits key).window now
    (history.attempts key) (s.kept key)

namespace Tracks

variable {limits : String → Limit} {keys : String → Prop} {now now' : Instant} {s : RateLimiter}
  {history history' : History} {key : String} {w : List Instant}

theorem later (h : Tracks limits keys now s history) (hlater : now ≤ now') :
    Tracks limits keys now' s history :=
  ⟨h.enabled, fun key hkey => (h.remembers key hkey).later hlater⟩

/-- A sweep drops nothing that still counts. -/
theorem swept (h : Tracks limits keys now s history) :
    Tracks limits keys now (s.swept now) history where
  enabled := h.enabled
  remembers := by
    intro key hkey
    have hbefore := h.remembers key hkey
    obtain hsame | ⟨hforgot, hold⟩ := s.kept_swept now key
    · rw [hsame]
      exact hbefore
    · have hpruned := hbefore.prune (limits key).window_le
      rw [prune_eq_nil hbefore.sorted_kept hold] at hpruned
      rw [hforgot]
      exact hpruned

/-- A deque that stands for the attempts of its key may replace the stored one. -/
theorem put (h : Tracks limits keys now s history)
    (hkey : ∀ key', keys key' → boundedKey key' = boundedKey key → key' = key)
    (hw : Remembers maxAttemptsKept (limits key).window now (history'.attempts key) w)
    (hothers : ∀ key', key' ≠ key → history'.attempts key' = history.attempts key') :
    Tracks limits keys now (s.put key w) history' where
  enabled := h.enabled
  remembers := by
    intro key' hkey'
    rw [s.kept_put]
    split_ifs with hbounded
    · rw [hkey key' hkey' hbounded]
      exact hw
    · rw [hothers key' fun heq => hbounded (congrArg boundedKey heq)]
      exact h.remembers key' hkey'

end Tracks

/-! ## Steps and runs -/

section Run

variable {limits : String → Limit} {keys : String → Prop} {now : Instant} {s : RateLimiter}
  {history : History} {c : TimedCall} {calls : List TimedCall}

/-- The limit of a key is decided alike. -/
theorem denied_of_remembers {key : String} {kept : List Instant} {time : Instant}
    (h : Remembers maxAttemptsKept (limits key).window time (history.attempts key) kept) :
    decide ((limits key).max ≤ (prune (limits key).window time kept).length)
      = history.denied key (limits key).max (limits key).window time :=
  decide_eq_decide.2 (h.le_length_iff (limits key).max_le)

/-- **A step of the limiter** answers as the history does, and stands for the history after. -/
theorem Tracks.step (h : Tracks limits keys now s history) (hnow : now ≤ c.time)
    (hkeys : keys c.call.key)
    (hdistinct : ∀ key, keys key → boundedKey key = boundedKey c.call.key → key = c.call.key)
    (huses : c.call.Uses limits) :
    s.answer c = history.answer c ∧ Tracks limits keys c.time (s.step c) (history.step c) := by
  have hthen := h.later hnow
  obtain ⟨time, call⟩ := c
  cases call with
  | allow key max window =>
    obtain ⟨rfl, rfl⟩ := huses
    -- the call sweeps, prunes its key and decides on what is left
    have hswept := hthen.swept
    have hpruned := (hswept.remembers key hkeys).prune le_rfl
    have hdecided := denied_of_remembers (hswept.remembers key hkeys)
    unfold RateLimiter.answer RateLimiter.step History.answer History.step RateLimiter.allow
    dsimp only
    rw [s.hit_limited h.enabled, ← hdecided]
    by_cases hdenied : (limits key).max ≤
        (prune (limits key).window time ((s.swept time).kept key)).length
    · rw [if_pos hdenied, decide_eq_true hdenied]
      exact ⟨rfl, hswept.put hdistinct hpruned fun _ _ => rfl⟩
    · rw [if_neg hdenied, decide_eq_false hdenied]
      refine ⟨rfl, hswept.put hdistinct ?_ fun key' hne => ?_⟩
      · rw [if_neg Bool.false_ne_true, history.attempts_concat, if_pos rfl]
        -- an attempt let in is kept, and the reference counts it too
        exact hpruned.push (by decide)
      · rw [if_neg Bool.false_ne_true, history.attempts_concat, if_neg hne]
  | atLimit key max window =>
    obtain ⟨rfl, rfl⟩ := huses
    have hbefore := hthen.remembers key hkeys
    obtain ⟨hanswer, hafter⟩ :=
      s.atLimit_eq h.enabled key (limits key).max_pos (limits key).window time
    unfold RateLimiter.answer RateLimiter.step History.answer History.step
    dsimp only
    rw [hanswer, denied_of_remembers hbefore]
    refine ⟨rfl, ?_⟩
    -- a question writes nothing but the pruned entry of its key
    obtain hsame | hpruned := hafter
    · rw [hsame]
      exact hthen
    · rw [hpruned]
      exact hthen.put hdistinct (hbefore.prune le_rfl) fun _ _ => rfl
  | record key =>
    have hswept := hthen.swept
    have hpruned := (hswept.remembers key hkeys).prune (limits key).window_le
    unfold RateLimiter.answer RateLimiter.step History.answer History.step
    dsimp only
    rw [s.record_eq h.enabled]
    refine ⟨rfl, hswept.put hdistinct ?_ fun key' hne => ?_⟩
    · rw [history.attempts_concat, if_pos rfl]
      exact hpruned.push (by decide)
    · rw [history.attempts_concat, if_neg hne]

/-- In a run the limiter stands for the history of the calls before. -/
theorem tracks_run (hused : WellUsed limits calls) {done rest : List TimedCall}
    (hsplit : calls = done ++ rest) (hnow : ∀ c ∈ done, c.time ≤ now) :
    Tracks limits (InUse calls) now
      (Run.final RateLimiter.step .default done) (Run.final History.step [] done) := by
  induction done using List.reverseRecOn generalizing rest now with
  | nil => exact ⟨rfl, fun key _ => Remembers.nil ..⟩
  | append_singleton done c ih =>
    have hmem : c ∈ calls := by
      rw [hsplit]
      exact List.mem_append_left rest (List.mem_append_right done List.mem_cons_self)
    have hordered := hused.ordered
    rw [hsplit, List.append_assoc, List.pairwise_append] at hordered
    have hbefore := ih (by rw [hsplit, List.append_assoc])
      fun c' hc' => hordered.2.2 c' hc' c List.mem_cons_self
    have hstep := hbefore.step le_rfl ⟨c, hmem, rfl⟩ (hused.eq_of_bounded hmem)
      (hused.uses c hmem)
    rw [Run.final_append, Run.final_append]
    exact hstep.2.later (hnow c (List.mem_append_right done List.mem_cons_self))

/-- **The limiter is a sliding window.** -/
theorem answer_eq_reference (hused : WellUsed limits calls) {done rest : List TimedCall}
    (hsplit : calls = done ++ c :: rest) :
    (Run.final RateLimiter.step .default done).answer c
      = (Run.final History.step [] done).answer c := by
  have hmem : c ∈ calls := by
    rw [hsplit]
    exact List.mem_append_right done List.mem_cons_self
  have hordered := hused.ordered
  rw [hsplit, List.pairwise_append] at hordered
  have hbefore := tracks_run hused hsplit
    fun c' hc' => hordered.2.2 c' hc' c List.mem_cons_self
  exact (hbefore.step le_rfl ⟨c, hmem, rfl⟩ (hused.eq_of_bounded hmem) (hused.uses c hmem)).1

/-- A limiter that is switched off records nothing, over any calls. -/
theorem final_of_disabled (h : s.enabled = false) (calls : List TimedCall) :
    Run.final RateLimiter.step s calls = s := by
  refine Run.final_invariant (· = s) (fun c _ t ht => ?_) rfl
  subst ht
  unfold RateLimiter.step RateLimiter.allow RateLimiter.atLimit RateLimiter.record RateLimiter.hit
  cases c.call <;> rw [h] <;> rfl

end Run

namespace LoginAttempts

/-- One attempt within 40 nanoseconds. -/
def limits (_ : String) : Limit := ⟨1, 40, by decide, by decide, by decide⟩

/-- Three attempts from one address; the second is too early. -/
def calls : List TimedCall :=
  [⟨0, .allow "login:ip:10.0.0.1" 1 40⟩, ⟨10, .allow "login:ip:10.0.0.1" 1 40⟩,
    ⟨40, .allow "login:ip:10.0.0.1" 1 40⟩]

/-- The calls of the example keep to their limits. -/
theorem wellUsed_calls : WellUsed limits calls where
  ordered := by decide
  distinct := by simp [calls, LimiterCall.key]
  uses := by simp [calls, LimiterCall.Uses, limits]

/-- The second attempt is refused by the limiter and by the reference. -/
theorem second_attempt :
    (Run.final RateLimiter.step .default [⟨0, .allow "login:ip:10.0.0.1" 1 40⟩]).answer
        ⟨10, .allow "login:ip:10.0.0.1" 1 40⟩
      = (Run.final History.step [] [⟨0, .allow "login:ip:10.0.0.1" 1 40⟩]).answer
        ⟨10, .allow "login:ip:10.0.0.1" 1 40⟩ :=
  answer_eq_reference wellUsed_calls
    (rfl : calls = [⟨0, .allow "login:ip:10.0.0.1" 1 40⟩] ++ ⟨10, .allow "login:ip:10.0.0.1" 1 40⟩ ::
      [⟨40, .allow "login:ip:10.0.0.1" 1 40⟩])

end LoginAttempts

end Sconce
