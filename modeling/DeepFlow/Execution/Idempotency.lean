import Mathlib.Algebra.Order.Floor.Ring
import Mathlib.Data.Rat.Floor
import DeepFlow.Core.Enums
import DeepFlow.Foundation.Decimal
import DeepFlow.Foundation.Sha256

/-!
# Idempotency keys

The key of an order is a truncated digest of the intent written out as text. Two submissions with
the same text have the same key; since a number is written with the trailing zeros it carries, two
submissions of one intent have the same text only if its numbers are spelled alike.
-/

namespace DeepFlow.Execution
open DeepFlow.Core Foundation

def DEFAULT_WINDOW_SECONDS : Int := 60

structure ZeroDivisionError where
  deriving DecidableEq, Repr

def material (tokenId : String) (side : OrderSide) (price size : Decimal) (bucket : Int) (salt : String) : String :=
  tokenId ++ "|" ++ side.value ++ "|" ++ String.ofList price.formatFixed ++ "|" ++
    String.ofList size.formatFixed ++ "|" ++ toString bucket ++ "|" ++ salt

def digest (material : String) : String :=
  String.ofList ((Sha256.hexdigest material.toUTF8.toList).take 32)

/-- Deterministic key for one order intent. -/
def buildClientKey (tokenId : String) (side : OrderSide) (price size : Decimal) (epochSeconds : ℚ)
    (windowSeconds : Int := DEFAULT_WINDOW_SECONDS) (salt : String := "") : Except ZeroDivisionError String :=
  if windowSeconds = 0 then .error {}
  else
    let bucket := ⌊epochSeconds / windowSeconds⌋
    .ok (digest (material tokenId side price size bucket salt))

section Key
variable {tokenId salt key : String} {side : OrderSide} {price price' size size' : Decimal}
  {epochSeconds : ℚ} {windowSeconds bucket : Int}

theorem length_digest (text : String) : (digest text).length = 32 := by
  simp [digest, Sha256.length_hexdigest]

theorem buildClientKey_ok_iff :
    buildClientKey tokenId side price size epochSeconds windowSeconds salt = .ok key ↔
      windowSeconds ≠ 0 ∧ digest (material tokenId side price size ⌊epochSeconds / windowSeconds⌋ salt) = key := by
  unfold buildClientKey
  split_ifs with zero <;> simp [zero]

theorem buildClientKey_length
    (built : buildClientKey tokenId side price size epochSeconds windowSeconds salt = .ok key) :
    key.length = 32 :=
  (buildClientKey_ok_iff.mp built).2 ▸ length_digest _

theorem bar_not_mem_formatFixed (d : Decimal) : '|' ∉ d.formatFixed := by
  intro member
  rcases Decimal.formatFixed_alphabet member with digit | point | minus
  · exact absurd digit (by decide)
  · exact absurd point (by decide)
  · exact absurd minus (by decide)

theorem material_numbers_iff :
    material tokenId side price size bucket salt = material tokenId side price' size' bucket salt ↔
      price.formatFixed = price'.formatFixed ∧ size.formatFixed = size'.formatFixed := by
  constructor
  · intro same
    have texts := congrArg String.toList same
    simp only [material, String.toList_append, String.toList_ofList, List.append_assoc,
      List.append_cancel_left_eq] at texts
    have numbers : delimited '|' [price.formatFixed, size.formatFixed] _ =
      delimited '|' [price'.formatFixed, size'.formatFixed] _ := texts
    obtain ⟨fields, -⟩ := delimited_inj numbers rfl (by simp [bar_not_mem_formatFixed])
      (by simp [bar_not_mem_formatFixed])
    simpa using fields
  · rintro ⟨samePrice, sameSize⟩
    rw [material, material, samePrice, sameSize]

/-- Two spellings of an intent share a key when the spellings agree, and where the digest does not
collide on the two texts only then. -/
theorem same_key_iff (tokenId salt : String) (side : OrderSide) (price price' size size' : Decimal)
    (epochSeconds : ℚ) (windowSeconds : Int) (samePrice : price.value = price'.value)
    (sameSize : size.value = size'.value) :
    let bucket := ⌊epochSeconds / windowSeconds⌋
    let text := material tokenId side price size bucket salt
    let text' := material tokenId side price' size' bucket salt
    let sameKey := ∃ key, buildClientKey tokenId side price size epochSeconds windowSeconds salt = .ok key ∧
      buildClientKey tokenId side price' size' epochSeconds windowSeconds salt = .ok key
    let spelledAlike := windowSeconds ≠ 0 ∧ Decimal.SameSpelling price price' ∧ Decimal.SameSpelling size size'
    (spelledAlike → sameKey) ∧ ((digest text = digest text' → text = text') → (sameKey ↔ spelledAlike)) := by
  intro bucket text text' sameKey spelledAlike
  have spelled : text = text' ↔ Decimal.SameSpelling price price' ∧ Decimal.SameSpelling size size' := by
    rw [material_numbers_iff, Decimal.formatFixed_eq_iff samePrice, Decimal.formatFixed_eq_iff sameSize]
  have keys : sameKey ↔ windowSeconds ≠ 0 ∧ digest text = digest text' := by
    simp only [sameKey, buildClientKey_ok_iff]
    constructor
    · rintro ⟨key, ⟨window, first⟩, _, second⟩
      exact ⟨window, first.trans second.symm⟩
    · rintro ⟨window, same⟩
      exact ⟨digest text', ⟨window, same⟩, window, rfl⟩
  have enough : spelledAlike → sameKey := fun alike =>
    keys.mpr ⟨alike.1, congrArg digest (spelled.mpr alike.2)⟩
  refine ⟨enough, fun collisionFree => ⟨?_, enough⟩⟩
  intro same
  obtain ⟨window, digests⟩ := keys.mp same
  exact ⟨window, spelled.mp (collisionFree digests)⟩

theorem same_key_round_size : ∃ key,
    buildClientKey "0xtoken" .buy ⟨false, 94, -2⟩ ⟨false, 100, 0⟩ 1700000000 60 "" = .ok key ∧
    buildClientKey "0xtoken" .buy ⟨false, 94, -2⟩ ⟨false, 1, 2⟩ 1700000000 60 "" = .ok key :=
  (same_key_iff "0xtoken" "" .buy ⟨false, 94, -2⟩ ⟨false, 94, -2⟩ ⟨false, 100, 0⟩ ⟨false, 1, 2⟩ 1700000000 60
    rfl (by norm_num [Decimal.value])).1 ⟨by decide, ⟨rfl, rfl⟩, ⟨rfl, rfl⟩⟩

theorem respelled_price_changes_key :
    Decimal.value ⟨false, 94, -2⟩ = Decimal.value ⟨false, 940, -3⟩ ∧
    ¬ ∃ key, buildClientKey "0xtoken" .buy ⟨false, 94, -2⟩ ⟨false, 100, 0⟩ 1700000000 60 "" = .ok key ∧
      buildClientKey "0xtoken" .buy ⟨false, 940, -3⟩ ⟨false, 100, 0⟩ 1700000000 60 "" = .ok key := by
  refine ⟨by norm_num [Decimal.value], ?_⟩
  rintro ⟨key, first, second⟩
  have different : buildClientKey "0xtoken" .buy ⟨false, 94, -2⟩ ⟨false, 100, 0⟩ 1700000000 60 "" ≠
      buildClientKey "0xtoken" .buy ⟨false, 940, -3⟩ ⟨false, 100, 0⟩ 1700000000 60 "" := by decide +kernel
  exact different (first.trans second.symm)

end Key

end DeepFlow.Execution
