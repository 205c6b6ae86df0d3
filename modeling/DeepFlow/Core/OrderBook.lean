import DeepFlow.Foundation.Significant
import DeepFlow.Foundation.Sorted

/-!
# Order books

The validator compares the first levels only, so it rules out a crossed book just where levels stand
in the order that the fields document. Prices and sizes are modelled by the rationals they denote;
what is computed from them is rounded by the decimal context, whose exponent limits are left out.
-/

namespace DeepFlow.Core
open Foundation

/-- Digits of the default decimal context. -/
def PRECISION : ℕ := 28

structure BookLevel where
  price : ℚ
  size : ℚ
  deriving DecidableEq, Repr

/-- What the validator looks for. -/
def crossed : List BookLevel → List BookLevel → Bool
  | bid :: _, ask :: _ => decide (bid.price ≥ ask.price)
  | _, _ => false

structure OrderBook where
  bids : List BookLevel
  asks : List BookLevel
  checked : crossed bids asks = false

structure ValueError where
  message : String
  deriving DecidableEq, Repr

namespace OrderBook

/-- Construction goes through the validator. -/
def checkNotCrossed (bids asks : List BookLevel) : Except ValueError OrderBook :=
  if checked : crossed bids asks = false then .ok ⟨bids, asks, checked⟩
  else .error ⟨"crossed book: best bid >= best ask"⟩

def bestBid (self : OrderBook) : Option ℚ := self.bids.head?.map BookLevel.price

def bestAsk (self : OrderBook) : Option ℚ := self.asks.head?.map BookLevel.price

def mid (self : OrderBook) : Option ℚ :=
  match self.bestBid, self.bestAsk with
  | some bid, some ask => some (roundSignificant PRECISION (roundSignificant PRECISION (bid + ask) / 2))
  | _, _ => none

def spread (self : OrderBook) : Option ℚ :=
  match self.bestBid, self.bestAsk with
  | some bid, some ask => some (roundSignificant PRECISION (ask - bid))
  | _, _ => none

end OrderBook

/-! ### The documented order -/

def Descending (levels : List BookLevel) : Prop := levels.Pairwise fun before after => after.price ≤ before.price

def Ascending (levels : List BookLevel) : Prop := levels.Pairwise fun before after => before.price ≤ after.price

def prices (levels : List BookLevel) : Set ℚ := {price | ∃ level ∈ levels, level.price = price}

namespace OrderBook
variable {book : OrderBook} {price bid ask : ℚ}

theorem checkNotCrossed_ok_iff {bids asks : List BookLevel} :
    checkNotCrossed bids asks = .ok book ↔ book.bids = bids ∧ book.asks = asks := by
  unfold checkNotCrossed
  constructor
  · intro accepted
    split at accepted
    · cases accepted
      exact ⟨rfl, rfl⟩
    · cases accepted
  · intro fields
    obtain ⟨rfl, rfl⟩ := fields
    rw [dif_pos book.checked]

theorem crossed_eq_false {bids asks : List BookLevel} : crossed bids asks = false ↔
    ∀ bid ask, bids.head?.map BookLevel.price = some bid → asks.head?.map BookLevel.price = some ask → bid < ask := by
  cases bids <;> cases asks <;> simp [crossed]

/-- The order of the levels plays no part in this. -/
theorem bestBid_lt_bestAsk (first : book.bestBid = some bid) (first' : book.bestAsk = some ask) : bid < ask :=
  crossed_eq_false.mp book.checked bid ask first first'

theorem uncrossed (descending : Descending book.bids) (ascending : Ascending book.asks) :
    ∀ bid ∈ book.bids, ∀ ask ∈ book.asks, bid.price < ask.price :=
  apart descending ascending fun _ _ => bestBid_lt_bestAsk

theorem spread_pos (first : book.bestBid = some bid) (first' : book.bestAsk = some ask) :
    ∃ spread, book.spread = some spread ∧ 0 < spread := by
  refine ⟨_, by rw [spread, first, first'], ?_⟩
  exact roundSignificant_pos (by decide) (sub_pos.mpr (bestBid_lt_bestAsk first first'))

/-- A spread that rounding cannot swallow, of more than one and a half units in the last digit of the
sum of the best prices. -/
def Resolved (bid ask : ℚ) : Prop := 3 / 2 * 10 ^ lastPlace PRECISION (bid + ask) < ask - bid

theorem mid_between (first : book.bestBid = some bid) (first' : book.bestAsk = some ask) (wide : Resolved bid ask) :
    ∃ mid, book.mid = some mid ∧ bid < mid ∧ mid < ask := by
  have close := abs_le.mp (abs_half_sub_le PRECISION (bid + ask))
  unfold Resolved at wide
  refine ⟨_, by rw [mid, first, first'], ?_, ?_⟩
  · linarith [close.1]
  · linarith [close.2]

/-- A book that construction accepts has a positive spread. Where the levels stand in the documented
order best prices are best and no bid reaches an ask. -/
theorem accepted_book (bids asks : List BookLevel) (book : OrderBook)
    (accepted : checkNotCrossed bids asks = .ok book) :
    (Descending bids → ∀ price, book.bestBid = some price ↔ IsGreatest (prices bids) price) ∧
    (Ascending asks → ∀ price, book.bestAsk = some price ↔ IsLeast (prices asks) price) ∧
    (Descending bids → Ascending asks → ∀ bid ∈ bids, ∀ ask ∈ asks, bid.price < ask.price) ∧
    ∀ bid ask, book.bestBid = some bid → book.bestAsk = some ask →
      (∃ spread, book.spread = some spread ∧ 0 < spread) ∧
      (Resolved bid ask → ∃ mid, book.mid = some mid ∧ bid < mid ∧ mid < ask) := by
  obtain ⟨rfl, rfl⟩ := checkNotCrossed_ok_iff.mp accepted
  refine ⟨?_, ?_, uncrossed, ?_⟩
  · intro descending price
    exact first_isGreatest descending
  · intro ascending price
    exact first_isLeast ascending
  · intro bid ask first first'
    exact ⟨spread_pos first first', mid_between first first'⟩

/-- A book with a higher bid behind the first one, and one whose spread is lost in rounding. -/
theorem unsorted_book_crossed :
    (∃ book, checkNotCrossed [⟨40 / 100, 100⟩, ⟨60 / 100, 100⟩] [⟨50 / 100, 100⟩] = .ok book ∧
      book.bestBid = some (40 / 100) ∧ ¬ ∀ bid ∈ book.bids, ∀ ask ∈ book.asks, bid.price < ask.price) ∧
    ∃ book, checkNotCrossed [⟨1 / 2 + 1 / 10 ^ 29, 100⟩] [⟨1 / 2 + 2 / 10 ^ 29, 100⟩] = .ok book ∧
      book.bestBid = some (1 / 2 + 1 / 10 ^ 29) ∧ book.mid = some (1 / 2) := by
  refine ⟨⟨⟨_, _, by decide +kernel⟩, checkNotCrossed_ok_iff.mpr ⟨rfl, rfl⟩, rfl, ?_⟩,
    ⟨⟨_, _, by decide +kernel⟩, checkNotCrossed_ok_iff.mpr ⟨rfl, rfl⟩, rfl, ?_⟩⟩
  · decide +kernel
  · decide +kernel

def twoTickBook : OrderBook :=
  ⟨[⟨93 / 100, 100⟩, ⟨92 / 100, 50⟩], [⟨95 / 100, 100⟩], by decide +kernel⟩

theorem accepted_book_two_ticks :
    (∃ mid, twoTickBook.mid = some mid ∧ 93 / 100 < mid ∧ mid < 95 / 100) ∧
      IsGreatest (prices twoTickBook.bids) (93 / 100) := by
  obtain ⟨best, -, -, between⟩ := accepted_book twoTickBook.bids twoTickBook.asks twoTickBook
    (checkNotCrossed_ok_iff.mpr ⟨rfl, rfl⟩)
  have descending : Descending twoTickBook.bids := by
    unfold Descending
    decide +kernel
  have wide : Resolved (93 / 100) (95 / 100) := by
    unfold Resolved
    decide +kernel
  exact ⟨(between (93 / 100) (95 / 100) rfl rfl).2 wide, (best descending (93 / 100)).mp rfl⟩

end OrderBook
end DeepFlow.Core
