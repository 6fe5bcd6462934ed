import Mathlib.Logic.Function.Basic
import Mathlib.Data.List.Basic

/-!
# Replaying a list of writes

A store that changes only by discrete writes (a disk written one sector at a time, a
table written one slot at a time) is described by the list of its writes, applied in
order.  A crash can stop that list after any number of writes, so the states that matter
are the replays of the prefixes of the list.  This file is the calculus of such replays:
how they compose and, for stores that are functions, that a location written later in the
list forgets what it held before.
-/

namespace Replay

variable {σ ω : Type*}

/-- Apply the writes `ws`, in order, to the store `s`. -/
def replay (act : σ → ω → σ) (s : σ) (ws : List ω) : σ :=
  ws.foldl act s

section Replay

variable (act : σ → ω → σ)

@[simp] lemma replay_nil (s : σ) : replay act s [] = s := rfl

@[simp] lemma replay_cons (s : σ) (w : ω) (ws : List ω) :
    replay act s (w :: ws) = replay act (act s w) ws := rfl

lemma replay_append (s : σ) (xs ys : List ω) :
    replay act s (xs ++ ys) = replay act (replay act s xs) ys := by
  simp [replay, List.foldl_append]

end Replay

/-! ## Stores that are functions -/

section Updates

variable {β γ : Type*} [DecidableEq β]

/-- Write the pairs `(location, value)` of `l`, in order, into the function `f`. -/
def updates (f : β → γ) (l : List (β × γ)) : β → γ :=
  replay (fun g p => Function.update g p.1 p.2) f l

@[simp] lemma updates_nil (f : β → γ) : updates f [] = f := rfl

@[simp] lemma updates_cons (f : β → γ) (p : β × γ) (l : List (β × γ)) :
    updates f (p :: l) = updates (Function.update f p.1 p.2) l := rfl

/-- A location that no pair of the list names keeps its value. -/
lemma updates_apply_of_forall_ne {f : β → γ} {l : List (β × γ)} {b : β}
    (h : ∀ p ∈ l, p.1 ≠ b) : updates f l b = f b := by
  induction l generalizing f with
  | nil => rfl
  | cons p l ih =>
    rw [updates_cons, ih (fun q hq => h q (by simp [hq]))]
    exact Function.update_of_ne (h p (by simp)).symm _ _

/-- Two functions that agree wherever the list does not write become equal once the
list is written into both: a later write forgets what its location held. -/
lemma updates_congr {f g : β → γ} {l : List (β × γ)}
    (h : ∀ b, (∀ p ∈ l, p.1 ≠ b) → f b = g b) : updates f l = updates g l := by
  induction l generalizing f g with
  | nil => funext b; exact h b (by simp)
  | cons p l ih =>
    rw [updates_cons, updates_cons]
    apply ih
    intro b hb
    by_cases hpb : p.1 = b
    · subst hpb; simp
    · rw [Function.update_of_ne (Ne.symm hpb), Function.update_of_ne (Ne.symm hpb)]
      exact h b (fun q hq => by
        rcases List.mem_cons.mp hq with rfl | hq
        · exact hpb
        · exact hb q hq)

/-- At a location that the list writes, the result does not depend on the starting
function. -/
lemma updates_apply_of_mem {l : List (β × γ)} {b : β} (hb : ∃ p ∈ l, p.1 = b)
    (f g : β → γ) : updates f l b = updates g l b := by
  induction l generalizing f g with
  | nil => simp at hb
  | cons p l ih =>
    rw [updates_cons, updates_cons]
    by_cases hl : ∃ q ∈ l, q.1 = b
    · exact ih hl _ _
    · have hne : ∀ q ∈ l, q.1 ≠ b := fun q hq hqb => hl ⟨q, hq, hqb⟩
      have hp : p.1 = b := by
        obtain ⟨q, hq, hqb⟩ := hb
        rcases List.mem_cons.mp hq with rfl | hq
        · exact hqb
        · exact absurd hqb (hne q hq)
      subst hp
      rw [updates_apply_of_forall_ne hne, updates_apply_of_forall_ne hne]
      simp

/-- A location that the list writes, always with the same value, ends with that value. -/
lemma updates_apply_of_forall_eq {f : β → γ} {l : List (β × γ)} {b : β} {v : γ}
    (hb : ∃ p ∈ l, p.1 = b) (hv : ∀ p ∈ l, p.1 = b → p.2 = v) : updates f l b = v := by
  induction l generalizing f with
  | nil => simp at hb
  | cons p l ih =>
    rw [updates_cons]
    by_cases hl : ∃ q ∈ l, q.1 = b
    · exact ih hl (fun q hq => hv q (by simp [hq]))
    · have hne : ∀ q ∈ l, q.1 ≠ b := fun q hq hqb => hl ⟨q, hq, hqb⟩
      have hp : p.1 = b := by
        obtain ⟨q, hq, hqb⟩ := hb
        rcases List.mem_cons.mp hq with rfl | hq
        · exact hqb
        · exact absurd hqb (hne q hq)
      rw [updates_apply_of_forall_ne hne, ← hp, Function.update_self]
      exact hv p (by simp) hp

/-- Writing values through a function `g` is writing the values and then applying `g`. -/
lemma updates_map_snd {δ : Type*} (g : γ → δ) (f : β → γ) (l : List (β × γ)) :
    updates (g ∘ f) (l.map fun p => (p.1, g p.2)) = g ∘ updates f l := by
  induction l generalizing f with
  | nil => rfl
  | cons p l ih =>
    rw [List.map_cons, updates_cons, updates_cons, ← ih]
    congr 1
    funext b
    by_cases hb : b = p.1
    · subst hb; simp
    · simp [Function.update_of_ne hb]

/-- Writing a prefix of the list first changes nothing at the end: a replay interrupted
and then started over ends as one replay. -/
lemma updates_updates_take (f : β → γ) (l : List (β × γ)) (k : ℕ) :
    updates (updates f (l.take k)) l = updates f l := by
  apply updates_congr
  intro b hb
  exact updates_apply_of_forall_ne fun p hp => hb p (List.mem_of_mem_take hp)

end Updates

end Replay
