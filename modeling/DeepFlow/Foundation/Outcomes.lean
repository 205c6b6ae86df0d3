import Mathlib.Algebra.Order.BigOperators.Group.List
import Mathlib.Algebra.Order.Ring.Defs
import Mathlib.Tactic.Linarith
import Mathlib.Tactic.Ring

/-!
# Expectation over a run of outcomes

A run has one outcome after another, each won with a chance of its own whatever came before, and the
state that it leaves depends on all of them. What a value of the state is expected to be at the end
follows from what one step is expected to do to it.
-/

namespace Foundation

variable {R : Type*} [CommRing R]

/-- The mean of what is had on a win and on a loss. -/
def mix (win won lost : R) : R := win * won + (1 - win) * lost

def expectation : List R → (List Bool → R) → R
  | [], value => value []
  | win :: chances, value =>
    mix win (expectation chances fun outcomes => value (true :: outcomes))
      (expectation chances fun outcomes => value (false :: outcomes))

@[simp] theorem mix_self (win value : R) : mix win value value = value := by
  unfold mix
  ring

theorem mix_add (win won lost gain : R) : mix win (won + gain) (lost + gain) = mix win won lost + gain := by
  unfold mix
  ring

theorem mix_neg (win won lost : R) : mix win (-won) (-lost) = -mix win won lost := by
  unfold mix
  ring

theorem expectation_neg (chances : List R) (value : List Bool → R) :
    expectation chances (fun outcomes => -value outcomes) = -expectation chances value := by
  induction chances generalizing value with
  | nil => rfl
  | cons win chances ih =>
    simp only [expectation, ih]
    exact mix_neg _ _ _

variable {α σ : Type*} {win : α → R} {next : σ → α × Bool → σ} {value : σ → R}

/-- What a value of the last state is expected to be. -/
def expectedAfter (win : α → R) (next : σ → α × Bool → σ) (value : σ → R) (s : σ) (bets : List α) : R :=
  expectation (bets.map win) fun outcomes => value ((bets.zip outcomes).foldl next s)

theorem expectedAfter_cons (s : σ) (a : α) (bets : List α) : expectedAfter win next value s (a :: bets) =
    mix (win a) (expectedAfter win next value (next s (a, true)) bets)
      (expectedAfter win next value (next s (a, false)) bets) := rfl

variable [LinearOrder R] [IsStrictOrderedRing R]

section Mix
variable {win won lost won' lost' : R}

/-- Only outcomes that can happen matter. -/
theorem mix_le_mix (chance : 0 ≤ win ∧ win ≤ 1) (wins : win ≠ 0 → won ≤ won') (loses : win ≠ 1 → lost ≤ lost') :
    mix win won lost ≤ mix win won' lost' := by
  apply add_le_add
  · rcases eq_or_ne win 0 with rfl | possible
    · simp
    · exact mul_le_mul_of_nonneg_left (wins possible) chance.1
  · rcases eq_or_ne win 1 with rfl | possible
    · simp
    · exact mul_le_mul_of_nonneg_left (loses possible) (sub_nonneg.mpr chance.2)

theorem mix_lt_mix (chance : 0 ≤ win ∧ win ≤ 1) (wins : win ≠ 0 → won < won') (loses : win ≠ 1 → lost < lost') :
    mix win won lost < mix win won' lost' := by
  rcases eq_or_ne win 0 with rfl | possible
  · simpa [mix] using loses zero_ne_one
  · apply add_lt_add_of_lt_of_le
    · exact mul_lt_mul_of_pos_left (wins possible) (chance.1.lt_of_ne' possible)
    · rcases eq_or_ne win 1 with rfl | uncertain
      · simp
      · exact mul_le_mul_of_nonneg_left (loses uncertain).le (sub_nonneg.mpr chance.2)

end Mix

/-! ### Runs -/

section Runs
variable {inv : σ → Prop}

/-- The chances are chances, and the invariant is kept by every outcome that can happen. -/
structure Keeps (win : α → R) (next : σ → α × Bool → σ) (inv : σ → Prop) : Prop where
  chance : ∀ a, 0 ≤ win a ∧ win a ≤ 1
  won : ∀ {s a}, inv s → win a ≠ 0 → inv (next s (a, true))
  lost : ∀ {s a}, inv s → win a ≠ 1 → inv (next s (a, false))

/-- No more is expected of a run than its steps are expected to add. -/
theorem expectedAfter_le (keeps : Keeps win next inv) (most : α → R) {bets : List α}
    (step : ∀ a ∈ bets, ∀ s, inv s →
      mix (win a) (value (next s (a, true))) (value (next s (a, false))) ≤ value s + most a)
    {s : σ} (start : inv s) : expectedAfter win next value s bets ≤ value s + (bets.map most).sum := by
  induction bets generalizing s with
  | nil => exact (add_zero _).ge
  | cons a bets ih =>
    obtain ⟨first, rest⟩ := List.forall_mem_cons.mp step
    calc expectedAfter win next value s (a :: bets)
        ≤ mix (win a) (value (next s (a, true)) + (bets.map most).sum)
            (value (next s (a, false)) + (bets.map most).sum) :=
          mix_le_mix (keeps.chance a) (fun possible => ih rest (keeps.won start possible))
            (fun possible => ih rest (keeps.lost start possible))
      _ = mix (win a) (value (next s (a, true))) (value (next s (a, false))) + (bets.map most).sum := mix_add _ _ _ _
      _ ≤ value s + most a + (bets.map most).sum := add_le_add_left (first s start) _
      _ = value s + ((a :: bets).map most).sum := by rw [List.map_cons, List.sum_cons, add_assoc]

/-- No less is expected of it either. -/
theorem le_expectedAfter (keeps : Keeps win next inv) (least : α → R) {bets : List α}
    (step : ∀ a ∈ bets, ∀ s, inv s →
      value s + least a ≤ mix (win a) (value (next s (a, true))) (value (next s (a, false))))
    {s : σ} (start : inv s) : value s + (bets.map least).sum ≤ expectedAfter win next value s bets := by
  have negated : expectedAfter win next (fun s => -value s) s bets ≤ -value s + (bets.map fun a => -least a).sum := by
    refine expectedAfter_le keeps _ ?_ start
    intro a member s held
    rw [mix_neg]
    linarith [step a member s held]
  have sums : (bets.map fun a => -least a).sum = -(bets.map least).sum := by
    simp [List.sum_neg, List.map_map, Function.comp_def]
  rw [expectedAfter, expectation_neg, sums] at negated
  rw [expectedAfter]
  linarith

/-- Where no step is expected to lose, no run is. -/
theorem self_le_expectedAfter (keeps : Keeps win next inv)
    (step : ∀ a s, inv s → value s ≤ mix (win a) (value (next s (a, true))) (value (next s (a, false))))
    (bets : List α) {s : σ} (start : inv s) : value s ≤ expectedAfter win next value s bets := by
  have least : value s + (bets.map fun _ => 0).sum ≤ expectedAfter win next value s bets :=
    le_expectedAfter keeps _ (fun a _ s held => (add_zero _).trans_le (step a s held)) start
  simpa using least

/-- One step that is expected to gain makes the whole run gain. -/
theorem lt_expectedAfter (keeps : Keeps win next inv)
    (step : ∀ a s, inv s → value s ≤ mix (win a) (value (next s (a, true))) (value (next s (a, false))))
    {bets : List α} {a : α} (member : a ∈ bets)
    (gains : ∀ s, inv s → value s < mix (win a) (value (next s (a, true))) (value (next s (a, false))))
    {s : σ} (start : inv s) : value s < expectedAfter win next value s bets := by
  induction bets generalizing s with
  | nil => exact absurd member List.not_mem_nil
  | cons b bets ih =>
    rw [expectedAfter_cons]
    rcases List.mem_cons.mp member with rfl | elsewhere
    · refine (gains s start).trans_le (mix_le_mix (keeps.chance _) ?_ ?_)
      · exact fun possible => self_le_expectedAfter keeps step bets (keeps.won start possible)
      · exact fun possible => self_le_expectedAfter keeps step bets (keeps.lost start possible)
    · refine (step b s start).trans_lt (mix_lt_mix (keeps.chance _) ?_ ?_)
      · exact fun possible => ih elsewhere (keeps.won start possible)
      · exact fun possible => ih elsewhere (keeps.lost start possible)

end Runs
end Foundation
