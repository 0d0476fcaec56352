/-
# Sliding windows

The times of a key's attempts, oldest first, of which a store keeps the latest few.  Times are
forgotten once they lie outside a window, and the oldest once the store is full; `Remembers` says
that what is forgotten does not change how many times lie in the window, as far as the count is
compared with no more than the store holds.
-/
import Mathlib.Data.List.TakeWhile
import Mathlib.Tactic

namespace SlidingWindow

/-- The times that lie strictly less than the window ago. -/
def recent (window now : ℕ) (times : List ℕ) : List ℕ :=
  times.filter fun t => now - t < window

/-- Drop from the front what lies outside the window. -/
def prune (window now : ℕ) (times : List ℕ) : List ℕ :=
  times.dropWhile fun t => window ≤ now - t

/-- Put a time at the end, and the oldest out of a store that is full. -/
def push (cap now : ℕ) (times : List ℕ) : List ℕ :=
  (if times.length = cap then times.tail else times) ++ [now]

variable {cap window wide now now' max : ℕ} {times kept dropped : List ℕ}

/-- Nothing lies in the window. -/
def Outside (window now : ℕ) (times : List ℕ) : Prop := ∀ t ∈ times, window ≤ now - t

/-- Nothing is recent where all is outside the window. -/
theorem recent_eq_nil_iff : recent window now times = [] ↔ Outside window now times := by
  unfold recent Outside
  rw [List.filter_eq_nil_iff]
  simp only [decide_eq_true_eq, not_lt]

theorem recent_append (window now : ℕ) (times times' : List ℕ) :
    recent window now (times ++ times') = recent window now times ++ recent window now times' :=
  List.filter_append ..

/-- In order of time, what lies outside the window stands in front. -/
theorem prune_eq_recent (hsorted : times.Pairwise (· ≤ ·)) :
    prune window now times = recent window now times := by
  induction times with
  | nil => rfl
  | cons t times ih =>
    obtain ⟨hfirst, hrest⟩ := List.pairwise_cons.1 hsorted
    by_cases ht : window ≤ now - t
    · rw [prune, List.dropWhile_cons_of_pos (by simpa using ht), recent,
        List.filter_cons_of_neg (by simpa using ht)]
      exact ih hrest
    · rw [prune, List.dropWhile_cons_of_neg (by simpa using ht)]
      refine (List.filter_eq_self.2 fun t' ht' => ?_).symm
      have hlater : t ≤ t' := by
        rcases List.mem_cons.1 ht' with rfl | hmem
        · exact le_rfl
        · exact hfirst t' hmem
      exact decide_eq_true (by omega)

theorem recent_prune (hsorted : times.Pairwise (· ≤ ·)) :
    recent window now (prune window now times) = prune window now times := by
  rw [prune_eq_recent hsorted]
  exact List.filter_eq_self.2 fun t ht => (List.mem_filter.1 ht).2

/-- In order of time, everything is pruned when the newest lies outside the window. -/
theorem prune_eq_nil (hsorted : times.Pairwise (· ≤ ·))
    (hnewest : ∀ t ∈ times.getLast?, window ≤ now - t) : prune window now times = [] := by
  rw [prune_eq_recent hsorted, recent_eq_nil_iff]
  intro t ht
  cases hlast : times.getLast? with
  | none =>
    rw [List.getLast?_eq_none_iff.1 hlast] at ht
    exact absurd ht List.not_mem_nil
  | some newest =>
    obtain ⟨before, rfl⟩ := List.getLast?_eq_some_iff.1 hlast
    have houtside := hnewest newest hlast
    rw [List.pairwise_append] at hsorted
    rcases List.mem_append.1 ht with hbefore | hmem
    · have hle : t ≤ newest := hsorted.2.2 t hbefore newest List.mem_cons_self
      omega
    · rw [List.mem_singleton.1 hmem]
      exact houtside

theorem prune_suffix (window now : ℕ) (times : List ℕ) :
    prune window now times <:+ times :=
  List.dropWhile_suffix _

/-- What pruning drops lies outside the window. -/
theorem exists_prune (window now : ℕ) (times : List ℕ) :
    ∃ out, times = out ++ prune window now times ∧ Outside window now out := by
  refine ⟨times.takeWhile fun t => window ≤ now - t, (List.takeWhile_append_dropWhile).symm, ?_⟩
  intro t ht
  have houtside := List.mem_takeWhile_imp ht
  exact of_decide_eq_true houtside

/-- The store `kept` of at most `cap` times stands for all `times` up to now. -/
structure Remembers (cap window now : ℕ) (times kept : List ℕ) : Prop where
  sorted : times.Pairwise (· ≤ ·)
  past : ∀ t ∈ times, t ≤ now
  le_cap : kept.length ≤ cap
  split : ∃ dropped, times = dropped ++ kept ∧ (Outside window now dropped ∨ kept.length = cap)

namespace Remembers

theorem nil (cap window now : ℕ) : Remembers cap window now [] [] where
  sorted := List.Pairwise.nil
  past := nofun
  le_cap := Nat.zero_le cap
  split := ⟨[], rfl, .inl nofun⟩

theorem later (h : Remembers cap window now times kept) (hlater : now ≤ now') :
    Remembers cap window now' times kept where
  sorted := h.sorted
  past := fun t ht => (h.past t ht).trans hlater
  le_cap := h.le_cap
  split := by
    obtain ⟨dropped, htimes, hdropped⟩ := h.split
    refine ⟨dropped, htimes, hdropped.imp_left fun hout t ht => ?_⟩
    exact (hout t ht).trans (Nat.sub_le_sub_right hlater t)

/-- Pruning by a window that is at least as wide. -/
theorem prune (h : Remembers cap window now times kept) (hwide : window ≤ wide) :
    Remembers cap window now times (prune wide now kept) := by
  obtain ⟨dropped, htimes, hdropped⟩ := h.split
  obtain ⟨out, hkept, hout⟩ := exists_prune wide now kept
  refine ⟨h.sorted, h.past, ((prune_suffix wide now kept).length_le).trans h.le_cap,
    dropped ++ out, ?_, ?_⟩
  · rw [htimes, List.append_assoc, ← hkept]
  · cases out with
    | nil =>
      have hsame : kept = SlidingWindow.prune wide now kept := hkept
      rw [List.append_nil, ← hsame]
      exact hdropped
    | cons oldest out =>
      -- what was dropped before is older than what is dropped now
      refine .inl fun t ht => ?_
      rcases List.mem_append.1 ht with hbefore | hnow
      · have hsorted := h.sorted
        rw [htimes, hkept, List.pairwise_append] at hsorted
        have hle : t ≤ oldest := hsorted.2.2 t hbefore oldest List.mem_cons_self
        have holdest := hout oldest List.mem_cons_self
        omega
      · exact hwide.trans (hout t hnow)

theorem sorted_kept (h : Remembers cap window now times kept) : kept.Pairwise (· ≤ ·) := by
  obtain ⟨dropped, htimes, -⟩ := h.split
  have hsorted := h.sorted
  rw [htimes, List.pairwise_append] at hsorted
  exact hsorted.2.1

/-- The store decides a limit of no more than it holds. -/
theorem le_length_iff (h : Remembers cap window now times kept) (hmax : max ≤ cap) :
    max ≤ (SlidingWindow.prune window now kept).length ↔
      max ≤ (recent window now times).length := by
  obtain ⟨dropped, htimes, hdropped⟩ := (h.prune (le_refl window)).split
  have hrecent : recent window now times
      = recent window now dropped ++ SlidingWindow.prune window now kept := by
    rw [htimes, recent_append, recent_prune h.sorted_kept]
  rw [hrecent, List.length_append]
  obtain hout | hfull := hdropped
  · rw [recent_eq_nil_iff.2 hout, List.length_nil, Nat.zero_add]
  · omega

/-- A new attempt. -/
theorem push (h : Remembers cap window now times kept) (hcap : 0 < cap) :
    Remembers cap window now (times ++ [now]) (push cap now kept) := by
  obtain ⟨dropped, htimes, hdropped⟩ := h.split
  have hle := h.le_cap
  refine ⟨?_, ?_, ?_, ?_⟩
  · rw [List.pairwise_append]
    exact ⟨h.sorted, List.pairwise_singleton _ _, fun t ht t' ht' =>
      List.mem_singleton.1 ht' ▸ h.past t ht⟩
  · intro t ht
    rw [List.mem_append, List.mem_singleton] at ht
    exact ht.elim (h.past t) fun heq => heq.le
  · unfold SlidingWindow.push
    split_ifs with hfull
    · rw [List.length_append, List.length_tail, List.length_singleton]
      omega
    · rw [List.length_append, List.length_singleton]
      omega
  · unfold SlidingWindow.push
    split_ifs with hfull
    · -- the oldest is dropped, and the store is full again
      cases kept with
      | nil => exact absurd hfull.symm hcap.ne'
      | cons oldest kept =>
        refine ⟨dropped ++ [oldest], ?_, .inr ?_⟩
        · rw [htimes, List.tail_cons, List.append_assoc, List.append_assoc]
          rfl
        · rw [List.tail_cons, List.length_append, List.length_singleton]
          exact hfull
    · refine ⟨dropped, ?_, .inl (hdropped.resolve_right hfull)⟩
      rw [htimes, List.append_assoc]

end Remembers

end SlidingWindow
