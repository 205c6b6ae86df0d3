import Mathlib
import DeepFlow.Execution.KeyCollisions

/-!
# Keys of many attempts

Attempts share a key when their texts are the same, so a batch of them uses one key for each intent
as it is spelled and each window it falls into. How many windows those are is a matter of how long
the attempts go on.
-/

namespace DeepFlow.Execution
open DeepFlow.Core Foundation

structure Intent where
  tokenId : String
  side : OrderSide
  price : Decimal
  size : Decimal
  salt : String
  deriving DecidableEq

/-- One submission of an intent. -/
structure Attempt where
  intent : Intent
  epochSeconds : ℚ

def Attempt.key (attempt : Attempt) (windowSeconds : Int) : Except ZeroDivisionError String :=
  buildClientKey attempt.intent.tokenId attempt.intent.side attempt.intent.price attempt.intent.size
    attempt.epochSeconds windowSeconds attempt.intent.salt

def Attempt.bucket (attempt : Attempt) (windowSeconds : Int) : Int := ⌊attempt.epochSeconds / windowSeconds⌋

def Intent.text (intent : Intent) (bucket : Int) : String :=
  material intent.tokenId intent.side intent.price intent.size bucket intent.salt

/-- An intent as it is spelled, and the window of an attempt. -/
structure Spelling where
  tokenId : String
  side : OrderSide
  price : List Char
  size : List Char
  bucket : Int
  salt : String
  deriving DecidableEq

def Intent.spelling (intent : Intent) (bucket : Int) : Spelling :=
  ⟨intent.tokenId, intent.side, intent.price.formatFixed, intent.size.formatFixed, bucket, intent.salt⟩

section Texts
variable {intent intent' : Intent} {bucket bucket' : Int} {windowSeconds : Int} {attempts : List Attempt}

theorem keys_of_attempts (nonzero : windowSeconds ≠ 0) : attempts.mapM (·.key windowSeconds) =
    .ok (attempts.map fun attempt => digest (attempt.intent.text (attempt.bucket windowSeconds))) := by
  induction attempts with
  | nil => rfl
  | cons attempt attempts ih =>
    have key : attempt.key windowSeconds = .ok (digest (attempt.intent.text (attempt.bucket windowSeconds))) :=
      buildClientKey_ok_iff.mpr ⟨nonzero, rfl⟩
    rw [List.mapM_cons, key, ih]
    rfl

theorem text_of_spelling (same : intent.spelling bucket = intent'.spelling bucket') :
    intent.text bucket = intent'.text bucket' := by
  simp only [Intent.spelling, Spelling.mk.injEq] at same
  obtain ⟨token, side, price, size, window, salt⟩ := same
  simp only [Intent.text, material, token, side, price, size, window, salt]

theorem spelling_of_text (bare : '|' ∉ intent.tokenId.toList) (bare' : '|' ∉ intent'.tokenId.toList)
    (same : intent.text bucket = intent'.text bucket') : intent.spelling bucket = intent'.spelling bucket' := by
  obtain ⟨token, side, -, -, window, salt⟩ := material_decodes bare bare' same
  have texts := congrArg String.toList same
  simp only [Intent.text, material_toList] at texts
  obtain ⟨fields, -⟩ := delimited_inj texts rfl (intentFields_bare bare) (intentFields_bare bare')
  simp only [intentFields, List.cons.injEq] at fields
  simp only [Intent.spelling, token, side, fields.2.2.1, fields.2.2.2.1, window, salt]

end Texts

/-! ### How many keys there are -/

/-- What is determined by something takes no more values than it does. -/
theorem card_le_of_determines {α β γ : Type*} [DecidableEq β] [DecidableEq γ] {f : α → β} {g : α → γ} {l : List α}
    (determines : ∀ a ∈ l, ∀ b ∈ l, g a = g b → f a = f b) : (l.map f).toFinset.card ≤ (l.map g).toFinset.card := by
  cases l with
  | nil => rfl
  | cons first rest =>
    have : Nonempty α := ⟨first⟩
    have origin : ∀ y ∈ ((first :: rest).map f).toFinset, ∃ a ∈ first :: rest, f a = y :=
      fun y member => List.mem_map.mp (List.mem_toFinset.mp member)
    choose! back inside back_eq using origin
    refine Finset.card_le_card_of_injOn (fun y => g (back y)) ?_ ?_
    · intro y member
      exact List.mem_toFinset.mpr (List.mem_map_of_mem (inside y member))
    · intro y member z member' same
      rw [← back_eq y member, ← back_eq z member']
      exact determines _ (inside y member) _ (inside z member') same

/-- An interval meets at most one window more than the windows that fit into it need. -/
theorem card_floors_le (low : ℚ) {span : ℚ} (nonneg : 0 ≤ span) :
    ((Finset.Icc ⌊low⌋ ⌊low + span⌋).card : ℤ) ≤ ⌊span⌋ + 2 := by
  have more : 0 ≤ ⌊span⌋ := Int.floor_nonneg.mpr nonneg
  have top : ⌊low + span⌋ < ⌊low⌋ + ⌊span⌋ + 2 := by
    rw [Int.floor_lt]
    push_cast
    linarith [Int.lt_floor_add_one low, Int.lt_floor_add_one span]
  rw [Int.card_Icc, Int.toNat_eq_max]
  omega

section Counts
variable {windowSeconds : Int} {attempts : List Attempt} {start span : ℚ}

/-- Where an interval of time begins, in windows. -/
def firstWindow (windowSeconds : Int) (start span : ℚ) : ℚ :=
  min (start / windowSeconds) ((start + span) / windowSeconds)

theorem bucket_within {attempt : Attempt} (nonzero : windowSeconds ≠ 0)
    (within : start ≤ attempt.epochSeconds ∧ attempt.epochSeconds ≤ start + span) :
    attempt.bucket windowSeconds ∈ Finset.Icc ⌊firstWindow windowSeconds start span⌋
      ⌊firstWindow windowSeconds start span + span / |(windowSeconds : ℚ)|⌋ := by
  have spans : 0 ≤ span := by linarith [within.1, within.2]
  have between : firstWindow windowSeconds start span ≤ attempt.epochSeconds / windowSeconds ∧
      attempt.epochSeconds / windowSeconds ≤ firstWindow windowSeconds start span + span / |(windowSeconds : ℚ)| := by
    rcases lt_or_gt_of_ne nonzero with negative | positive
    · have window : (windowSeconds : ℚ) < 0 := Int.cast_lt_zero.mpr negative
      have first : firstWindow windowSeconds start span = (start + span) / windowSeconds :=
        min_eq_right (div_le_div_of_nonpos_of_le window.le (le_add_of_nonneg_right spans))
      have last : (start + span) / windowSeconds + span / |(windowSeconds : ℚ)| = start / windowSeconds := by
        rw [abs_of_neg window, div_neg, add_div]
        ring
      rw [first, last]
      exact ⟨div_le_div_of_nonpos_of_le window.le within.2, div_le_div_of_nonpos_of_le window.le within.1⟩
    · have window : (0 : ℚ) < windowSeconds := Int.cast_pos.mpr positive
      have first : firstWindow windowSeconds start span = start / windowSeconds :=
        min_eq_left (div_le_div_of_nonneg_right (le_add_of_nonneg_right spans) window.le)
      rw [first, abs_of_pos window, ← add_div]
      exact ⟨div_le_div_of_nonneg_right within.1 window.le, div_le_div_of_nonneg_right within.2 window.le⟩
  exact Finset.mem_Icc.mpr ⟨Int.floor_le_floor between.1, Int.floor_le_floor between.2⟩

/-- Attempts use no more keys than there are spelled intents and windows, and exactly as many where
the digest does not collide on their texts; and attempts that go on for some time use for each intent
at most two keys more than whole windows fit into it. -/
theorem attempts_keyed (attempts : List Attempt) (windowSeconds : Int) (nonzero : windowSeconds ≠ 0) :
    let spellings := (attempts.map fun attempt => attempt.intent.spelling (attempt.bucket windowSeconds)).toFinset
    let text := fun attempt : Attempt => attempt.intent.text (attempt.bucket windowSeconds)
    ∃ keys, attempts.mapM (·.key windowSeconds) = .ok keys ∧ keys.toFinset.card ≤ spellings.card ∧
      ((∀ a ∈ attempts, '|' ∉ a.intent.tokenId.toList) →
        (∀ a ∈ attempts, ∀ b ∈ attempts, digest (text a) = digest (text b) → text a = text b) →
        keys.toFinset.card = spellings.card) ∧
      ∀ start span, 0 ≤ span →
        (∀ a ∈ attempts, start ≤ a.epochSeconds ∧ a.epochSeconds ≤ start + span) →
        (keys.toFinset.card : ℤ) ≤ (attempts.map (·.intent)).toFinset.card * (⌊span / |(windowSeconds : ℚ)|⌋ + 2) := by
  intro spellings text
  have fewer : ((attempts.map fun a => digest (text a)).toFinset).card ≤ spellings.card :=
    card_le_of_determines fun a _ b _ same => congrArg digest (text_of_spelling same)
  refine ⟨_, keys_of_attempts nonzero, fewer, ?_, ?_⟩
  · intro bare collisionFree
    refine le_antisymm fewer (card_le_of_determines ?_)
    intro a member b member' same
    exact spelling_of_text (bare a member) (bare b member') (collisionFree a member b member' same)
  · intro start span spans within
    let windows := Finset.Icc ⌊firstWindow windowSeconds start span⌋
      ⌊firstWindow windowSeconds start span + span / |(windowSeconds : ℚ)|⌋
    let pair := fun a : Attempt => (a.intent, a.bucket windowSeconds)
    have paired : ((attempts.map fun a => digest (text a)).toFinset).card ≤ (attempts.map pair).toFinset.card := by
      refine card_le_of_determines fun a _ b _ same => ?_
      obtain ⟨intent, bucket⟩ := Prod.mk.inj same
      simp only [text, intent, bucket]
    have product : (attempts.map pair).toFinset ⊆ (attempts.map (·.intent)).toFinset ×ˢ windows := by
      intro p member
      obtain ⟨a, tried, rfl⟩ := List.mem_map.mp (List.mem_toFinset.mp member)
      have known : a.intent ∈ (attempts.map (·.intent)).toFinset := List.mem_toFinset.mpr (List.mem_map_of_mem tried)
      exact Finset.mem_product.mpr ⟨known, bucket_within nonzero (within a tried)⟩
    have few : (windows.card : ℤ) ≤ ⌊span / |(windowSeconds : ℚ)|⌋ + 2 :=
      card_floors_le _ (div_nonneg spans (abs_nonneg _))
    have total := paired.trans (Finset.card_le_card product)
    rw [Finset.card_product] at total
    calc _ ≤ (((attempts.map (·.intent)).toFinset.card * windows.card : ℕ) : ℤ) := by exact_mod_cast total
      _ ≤ _ := by push_cast; exact mul_le_mul_of_nonneg_left few (by positivity)

def retried : Intent := ⟨"7131", .buy, ⟨false, 94, -2⟩, ⟨false, 100, 0⟩, ""⟩

theorem attempts_keyed_burst : ∃ keys,
    ([⟨retried, 1700000030⟩, ⟨retried, 1700000039⟩, ⟨retried, 1700000050⟩] : List Attempt).mapM (·.key 60) = .ok keys ∧
      (keys.toFinset.card : ℤ) ≤ 2 := by
  obtain ⟨keys, built, -, -, few⟩ :=
    attempts_keyed [⟨retried, 1700000030⟩, ⟨retried, 1700000039⟩, ⟨retried, 1700000050⟩] 60 (by decide)
  refine ⟨keys, built, (few 1700000030 20 (by norm_num) (by norm_num)).trans_eq ?_⟩
  have windows : ⌊(20 : ℚ) / |((60 : Int) : ℚ)|⌋ = 0 := by norm_num
  have intents : [retried, retried, retried].toFinset.card = 1 := by decide
  rw [windows, List.map_cons, List.map_cons, List.map_cons, List.map_nil, intents]
  norm_num

end Counts
end DeepFlow.Execution
