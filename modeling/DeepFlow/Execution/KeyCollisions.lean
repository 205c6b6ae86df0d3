import DeepFlow.Execution.Idempotency

/-!
# When keys collide

The text that is hashed decodes to the intent it was made from, so two intents share a key only by
a collision of the digest. The time goes into the text as the number of an absolute window, not as
the time since the first attempt.
-/

namespace DeepFlow.Execution
open DeepFlow.Core Foundation

variable {tokenId tokenId' salt salt' : String} {side side' : OrderSide} {price price' size size' : Decimal}
  {epochSeconds epochSeconds' delay : ℚ} {windowSeconds bucket bucket' : Int}

theorem bar_not_mem_toString (n : Int) : '|' ∉ (toString n).toList := by
  rw [← Decimal.formatFixed_ofInt]
  exact bar_not_mem_formatFixed _

theorem bar_not_mem_side : ∀ side : OrderSide, '|' ∉ side.value.toList := by
  intro side
  cases side <;> decide

def intentFields (tokenId : String) (side : OrderSide) (price size : Decimal) (bucket : Int) :
    List (List Char) :=
  [tokenId.toList, side.value.toList, price.formatFixed, size.formatFixed, (toString bucket).toList]

theorem material_toList : (material tokenId side price size bucket salt).toList =
    delimited '|' (intentFields tokenId side price size bucket) salt.toList := by
  simp [material, delimited, intentFields]

theorem intentFields_bare (bare : '|' ∉ tokenId.toList) :
    ∀ field ∈ intentFields tokenId side price size bucket, '|' ∉ field := by
  simp only [intentFields, List.forall_mem_cons]
  exact ⟨bare, bar_not_mem_side side, bar_not_mem_formatFixed price, bar_not_mem_formatFixed size,
    bar_not_mem_toString bucket, List.forall_mem_nil _⟩

/-- The text determines the intent, up to the spelling of its numbers. -/
theorem material_decodes (bare : '|' ∉ tokenId.toList) (bare' : '|' ∉ tokenId'.toList)
    (same : material tokenId side price size bucket salt = material tokenId' side' price' size' bucket' salt') :
    tokenId = tokenId' ∧ side = side' ∧ price.value = price'.value ∧ size.value = size'.value ∧
      bucket = bucket' ∧ salt = salt' := by
  have texts := congrArg String.toList same
  rw [material_toList, material_toList] at texts
  obtain ⟨fields, salts⟩ := delimited_inj texts rfl (intentFields_bare bare) (intentFields_bare bare')
  unfold intentFields at fields
  simp only [List.cons.injEq, and_true] at fields
  obtain ⟨tokens, sides, prices, sizes, buckets⟩ := fields
  have sameSide : side = side' := by
    revert sides
    cases side <;> cases side' <;> decide
  exact ⟨String.toList_inj.mp tokens, sameSide, Decimal.value_of_formatFixed prices,
    Decimal.value_of_formatFixed sizes, Decimal.int_of_text buckets, String.toList_inj.mp salts⟩

theorem buckets_apart (positive : 0 < windowSeconds) (apart : windowSeconds ≤ |epochSeconds - epochSeconds'|) :
    ⌊epochSeconds / windowSeconds⌋ ≠ ⌊epochSeconds' / windowSeconds⌋ := by
  intro same
  have window : (0 : ℚ) < windowSeconds := Int.cast_pos.mpr positive
  have close := Int.abs_sub_lt_one_of_floor_eq_floor same
  rw [← sub_div, abs_div, abs_of_pos window, div_lt_one window] at close
  exact absurd apart (not_le.mpr close)

/-- Different intents hash different texts, so their keys differ where the digest does not collide
on the two. -/
theorem distinct_intents (tokenId tokenId' salt salt' : String) (side side' : OrderSide)
    (price price' size size' : Decimal) (epochSeconds epochSeconds' : ℚ) (windowSeconds : Int)
    (bare : '|' ∉ tokenId.toList) (bare' : '|' ∉ tokenId'.toList) (positive : 0 < windowSeconds) :
    let bucket := ⌊epochSeconds / windowSeconds⌋
    let bucket' := ⌊epochSeconds' / windowSeconds⌋
    let text := material tokenId side price size bucket salt
    let text' := material tokenId' side' price' size' bucket' salt'
    buildClientKey tokenId side price size epochSeconds windowSeconds salt = .ok (digest text) ∧
    buildClientKey tokenId' side' price' size' epochSeconds' windowSeconds salt' = .ok (digest text') ∧
    (text = text' → tokenId = tokenId' ∧ side = side' ∧ price.value = price'.value ∧
      size.value = size'.value ∧ bucket = bucket' ∧ salt = salt') ∧
    ((digest text = digest text' → text = text') →
      tokenId ≠ tokenId' ∨ side ≠ side' ∨ price.value ≠ price'.value ∨ size.value ≠ size'.value ∨
        salt ≠ salt' ∨ windowSeconds ≤ |epochSeconds - epochSeconds'| →
      digest text ≠ digest text') := by
  intro bucket bucket' text text'
  have decodes : text = text' → _ := material_decodes bare bare'
  refine ⟨buildClientKey_ok_iff.mpr ⟨positive.ne', rfl⟩, buildClientKey_ok_iff.mpr ⟨positive.ne', rfl⟩,
    decodes, ?_⟩
  intro collisionFree different same
  obtain ⟨tokens, sides, prices, sizes, buckets, salts⟩ := decodes (collisionFree same)
  rcases different with other | other | other | other | other | apart
  · exact other tokens
  · exact other sides
  · exact other prices
  · exact other sizes
  · exact other salts
  · exact buckets_apart positive apart buckets

theorem distinct_intents_price :
    digest (material "7131" .buy ⟨false, 94, -2⟩ ⟨false, 100, 0⟩ 28333333 "") ≠
      digest (material "7131" .buy ⟨false, 95, -2⟩ ⟨false, 100, 0⟩ 28333333 "") := by
  have bucket : ⌊(1700000000 : ℚ) / (60 : Int)⌋ = 28333333 := by norm_num
  obtain ⟨-, -, -, differ⟩ := distinct_intents "7131" "7131" "" "" .buy .buy ⟨false, 94, -2⟩ ⟨false, 95, -2⟩
    ⟨false, 100, 0⟩ ⟨false, 100, 0⟩ 1700000000 1700000000 60 (by decide) (by decide) (by decide)
  rw [bucket] at differ
  have computed : digest (material "7131" .buy ⟨false, 94, -2⟩ ⟨false, 100, 0⟩ 28333333 "") ≠
    digest (material "7131" .buy ⟨false, 95, -2⟩ ⟨false, 100, 0⟩ 28333333 "") := by decide +kernel
  exact differ (fun same => absurd same computed) (.inr (.inr (.inl (by norm_num [Decimal.value]))))

/-! ### Retries -/

theorem material_bucket (same : material tokenId side price size bucket salt =
    material tokenId side price size bucket' salt) : bucket = bucket' := by
  have texts := congrArg String.toList same
  simp only [material, String.toList_append, List.append_assoc, List.append_cancel_left_eq] at texts
  exact Decimal.int_of_text (List.append_cancel_right texts)

theorem same_bucket_iff (positive : 0 < windowSeconds) (nonneg : 0 ≤ delay) :
    ⌊(epochSeconds + delay) / windowSeconds⌋ = ⌊epochSeconds / windowSeconds⌋ ↔
      epochSeconds - windowSeconds * ⌊epochSeconds / windowSeconds⌋ + delay < windowSeconds := by
  have window : (0 : ℚ) < windowSeconds := Int.cast_pos.mpr positive
  have starts : (⌊epochSeconds / windowSeconds⌋ : ℚ) ≤ (epochSeconds + delay) / windowSeconds :=
    (Int.floor_le _).trans (div_le_div_of_nonneg_right (le_add_of_nonneg_right nonneg) window.le)
  rw [Int.floor_eq_iff, and_iff_right starts, div_lt_iff₀ window]
  constructor <;> intro ends <;> linarith

/-- A retry has the key of its original when it still falls into the same window, and where the
digest does not collide on the two texts only then. -/
theorem retry_collides_iff (tokenId salt : String) (side : OrderSide) (price size : Decimal)
    (epochSeconds delay : ℚ) (windowSeconds : Int) (positive : 0 < windowSeconds) (nonneg : 0 ≤ delay) :
    let text := material tokenId side price size ⌊epochSeconds / windowSeconds⌋ salt
    let text' := material tokenId side price size ⌊(epochSeconds + delay) / windowSeconds⌋ salt
    let sameKey := ∃ key, buildClientKey tokenId side price size epochSeconds windowSeconds salt = .ok key ∧
      buildClientKey tokenId side price size (epochSeconds + delay) windowSeconds salt = .ok key
    let sameWindow := epochSeconds - windowSeconds * ⌊epochSeconds / windowSeconds⌋ + delay < windowSeconds
    (sameWindow → sameKey) ∧ ((digest text = digest text' → text = text') → (sameKey ↔ sameWindow)) := by
  intro text text' sameKey sameWindow
  have enough : sameWindow → sameKey := by
    intro window
    refine ⟨digest text, buildClientKey_ok_iff.mpr ⟨positive.ne', rfl⟩, buildClientKey_ok_iff.mpr ⟨positive.ne', ?_⟩⟩
    rw [(same_bucket_iff positive nonneg).mpr window]
  refine ⟨enough, fun collisionFree => ⟨?_, enough⟩⟩
  intro shared
  obtain ⟨key, first, second⟩ := shared
  have digests : digest text = digest text' :=
    (buildClientKey_ok_iff.mp first).2.trans (buildClientKey_ok_iff.mp second).2.symm
  exact (same_bucket_iff positive nonneg).mp (material_bucket (collisionFree digests)).symm

theorem retry_in_next_window : ¬ ∃ key,
    buildClientKey "0xtoken" .buy ⟨false, 94, -2⟩ ⟨false, 100, 0⟩ 1700000039 60 "" = .ok key ∧
    buildClientKey "0xtoken" .buy ⟨false, 94, -2⟩ ⟨false, 100, 0⟩ (1700000039 + 5) 60 "" = .ok key := by
  intro shared
  obtain ⟨key, first, second⟩ := shared
  have different : buildClientKey "0xtoken" .buy ⟨false, 94, -2⟩ ⟨false, 100, 0⟩ 1700000039 60 "" ≠
      buildClientKey "0xtoken" .buy ⟨false, 94, -2⟩ ⟨false, 100, 0⟩ (1700000039 + 5) 60 "" := by decide +kernel
  exact different (first.trans second.symm)

theorem retry_in_same_window : ∃ key,
    buildClientKey "0xtoken" .buy ⟨false, 94, -2⟩ ⟨false, 100, 0⟩ 1700000000 60 "" = .ok key ∧
    buildClientKey "0xtoken" .buy ⟨false, 94, -2⟩ ⟨false, 100, 0⟩ (1700000000 + 5) 60 "" = .ok key :=
  (retry_collides_iff "0xtoken" "" .buy ⟨false, 94, -2⟩ ⟨false, 100, 0⟩ 1700000000 5 60 (by decide)
    (by norm_num)).1 (by norm_num)

end DeepFlow.Execution
