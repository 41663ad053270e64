import Mathlib

/-!
# Bounded windows and tallies over lists

Two list algorithms that programs write by hand as loops:

* a *bounded window*: before an item is pushed, items are removed from the front while the
  list holds `m` or more (`Window.evictFront`); pushing after the eviction keeps the last `m`
  items of everything pushed (`Window.push_eq_drop`, and `Window.foldl_push` for a sequence);
* a *tally* of keyed weights: a key already present has its weight bumped, a new key is
  appended with its weight (`Tally.step`); folded over items of one weight, the tally lists
  each key once, in order of first occurrence, with its weight bumped once per further
  occurrence (`Tally.foldl_step_const`).
-/

namespace Window

variable {α : Type}

/-- `while l.len() >= m { l.remove(0) }`.  On an empty list it stops, which is what the loop
does for `1 ≤ m`. -/
def evictFront (m : ℕ) : List α → List α
  | [] => []
  | a :: as => if m ≤ as.length + 1 then evictFront m as else a :: as

/-- Eviction keeps the last `m - 1` items. -/
lemma evictFront_eq_drop (m : ℕ) (l : List α) :
    evictFront m l = l.drop (l.length + 1 - m) := by
  induction l with
  | nil => simp [evictFront]
  | cons a as ih =>
    rw [evictFront, List.length_cons]
    split_ifs with h
    · rw [ih]
      have hsplit : as.length + 1 + 1 - m = (as.length + 1 - m) + 1 := by omega
      rw [hsplit, List.drop_succ_cons]
    · have hzero : as.length + 1 + 1 - m = 0 := by omega
      rw [hzero, List.drop_zero]

/-- Push `x` onto the window of size `m`. -/
def push (m : ℕ) (l : List α) (x : α) : List α := evictFront m l ++ [x]

/-- A push keeps the last `m` items. -/
lemma push_eq_drop {m : ℕ} (hm : 1 ≤ m) (l : List α) (x : α) :
    push m l x = (l ++ [x]).drop ((l ++ [x]).length - m) := by
  have hlen : (l ++ [x]).length = l.length + 1 := by simp
  rw [push, evictFront_eq_drop, hlen, List.drop_append_of_le_length (by omega)]

/-- A push onto a suffix of `l` that is at least as long as the window keeps the same items as
a push onto `l`. -/
lemma push_drop {m : ℕ} (hm : 1 ≤ m) (l : List α) {d : ℕ} (hd : d ≤ l.length + 1 - m) (x : α) :
    push m (l.drop d) x = (l ++ [x]).drop (l.length + 1 - m) := by
  rw [push_eq_drop hm, ← List.drop_append_of_le_length (by omega), List.drop_drop]
  congr 1
  simp only [List.length_append, List.length_drop, List.length_cons, List.length_nil]
  omega

/-- **A window over a sequence of pushes** holds, after at least one push, the last `m` items
of the initial list followed by the pushed items. -/
lemma foldl_push {m : ℕ} (hm : 1 ≤ m) (g xs : List α) (x : α) :
    (xs ++ [x]).foldl (push m) g = (g ++ xs ++ [x]).drop ((g ++ xs).length + 1 - m) := by
  induction xs using List.reverseRecOn generalizing x with
  | nil =>
    simpa using push_drop hm g (Nat.zero_le _) x
  | append_singleton xs y ih =>
    rw [List.foldl_append, List.foldl_cons, List.foldl_nil, ih]
    -- the window before the last push is the suffix that the previous push left
    have hd : (g ++ xs).length + 1 - m ≤ (g ++ xs ++ [y]).length + 1 - m := by
      simp only [List.length_append, List.length_cons, List.length_nil]
      omega
    rw [push_drop hm _ hd, List.append_assoc g xs [y]]

end Window

namespace Tally

variable {α β : Type} [DecidableEq α] (bump : β → β)

/-- One item of a tally: the first entry with the item's key has its weight bumped; if there
is none, the item is appended. -/
def step : List (α × β) → α × β → List (α × β)
  | [], a => [a]
  | x :: acc, a => if x.1 = a.1 then (x.1, bump x.2) :: acc else x :: step acc a

/-- On a tally listing distinct keys with weights `g`, a step bumps the key's weight, or
appends the new key. -/
lemma step_map {keys : List α} (hkeys : keys.Nodup) (g : α → β) (a : α) (w : β) :
    step bump (keys.map fun k => (k, g k)) (a, w) =
      if a ∈ keys then keys.map (fun k => (k, if k = a then bump (g k) else g k))
      else keys.map (fun k => (k, g k)) ++ [(a, w)] := by
  induction keys with
  | nil => rfl
  | cons k ks ih =>
    obtain ⟨hk, hks⟩ := List.nodup_cons.mp hkeys
    rw [List.map_cons, step]
    by_cases hka : k = a
    · -- the key is at the front, and nowhere after it
      subst hka
      have hrest : ks.map (fun k' => (k', if k' = k then bump (g k') else g k')) =
          ks.map fun k' => (k', g k') := by
        refine List.map_congr_left fun k' hk' => ?_
        rw [if_neg (fun h => hk (by rw [← h]; exact hk'))]
      simp [hrest]
    · rw [if_neg hka, ih hks]
      by_cases ha : a ∈ ks
      · simp [ha, Ne.symm hka, hka]
      · simp [ha, Ne.symm hka]

/-- Appending an item keeps the first occurrences, and adds the item if it is new. -/
lemma eraseDups_append_singleton (l : List α) (a : α) :
    (l ++ [a]).eraseDups = if a ∈ l then l.eraseDups else l.eraseDups ++ [a] := by
  rw [List.eraseDups_append]
  by_cases ha : a ∈ l
  · simp [List.removeAll, ha]
  · simp [List.removeAll, ha, List.eraseDups_cons]

lemma nodup_eraseDups (l : List α) : l.eraseDups.Nodup := by
  induction l using List.reverseRecOn with
  | nil => simp [List.eraseDups_nil]
  | append_singleton l a ih =>
    rw [eraseDups_append_singleton]
    split_ifs with ha
    · exact ih
    · rw [List.nodup_append]
      refine ⟨ih, List.nodup_singleton a, ?_⟩
      intro b hb c hc
      rw [List.mem_singleton] at hc
      subst hc
      exact fun h => ha (List.mem_eraseDups.mp (by rw [← h]; exact hb))

/-- **The tally of items of one weight** lists each key once, in order of first occurrence,
with the weight bumped once for every further occurrence. -/
theorem foldl_step_const (w : β) (l : List α) :
    (l.map fun k => (k, w)).foldl (step bump) [] =
      l.eraseDups.map fun k => (k, bump^[l.count k - 1] w) := by
  induction l using List.reverseRecOn with
  | nil => rfl
  | append_singleton l a ih =>
    rw [List.map_append, List.foldl_append, ih, List.map_singleton, List.foldl_cons,
      List.foldl_nil, step_map bump (nodup_eraseDups l), eraseDups_append_singleton]
    simp only [List.mem_eraseDups]
    split_ifs with ha
    · -- a key seen before: its weight is bumped once more
      refine List.map_congr_left fun k _ => ?_
      simp only [List.count_append, List.count_singleton, beq_iff_eq, Prod.mk.injEq, true_and]
      split_ifs with hka hak hak
      · subst hka
        have hpos : 0 < l.count k := List.count_pos_iff.mpr ha
        rw [← Function.iterate_succ_apply' bump]
        congr 1
        omega
      · exact absurd hka.symm hak
      · exact absurd hak.symm hka
      · rfl
    · -- a new key: the old ones keep their counts, the new one has count one
      rw [List.map_append, List.map_singleton]
      congr 1
      · refine List.map_congr_left fun k hk => ?_
        have hka : k ≠ a := fun h => ha (by rw [← h]; exact List.mem_eraseDups.mp hk)
        simp [List.count_append, Ne.symm hka]
      · simp [List.count_append, List.count_eq_zero_of_not_mem ha]

end Tally
