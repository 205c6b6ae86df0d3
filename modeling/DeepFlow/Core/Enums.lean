/-! Enumerations shared across the system. -/

namespace DeepFlow.Core

inductive RunMode where
  | backtest | paper | shadow | live
  deriving DecidableEq, Repr

def RunMode.value : RunMode → String
  | backtest => "BACKTEST"
  | paper => "PAPER"
  | shadow => "SHADOW"
  | live => "LIVE"

inductive MarketCategory where
  | football | cricket | tennis | badminton | otherSports | btc5m | crypto | politics
  | geopolitics | warConflict | ceasefire | militaryDiplomatic | other
  | unknown
  deriving DecidableEq, Repr

def MarketCategory.value : MarketCategory → String
  | football => "FOOTBALL"
  | cricket => "CRICKET"
  | tennis => "TENNIS"
  | badminton => "BADMINTON"
  | otherSports => "OTHER_SPORTS"
  | btc5m => "BTC_5M"
  | crypto => "CRYPTO"
  | politics => "POLITICS"
  | geopolitics => "GEOPOLITICS"
  | warConflict => "WAR_CONFLICT"
  | ceasefire => "CEASEFIRE"
  | militaryDiplomatic => "MILITARY_DIPLOMATIC"
  | other => "OTHER"
  | unknown => "UNKNOWN"

inductive OrderSide where
  | buy | sell
  deriving DecidableEq, Repr

def OrderSide.value : OrderSide → String
  | buy => "BUY"
  | sell => "SELL"

/-- Why new entries are halted. -/
inductive BreakerReason where
  | staleData | websocketFailure | apiFailure | executionErrors | abnormalSlippage | databaseFailure
  | reconciliationFailure | modelFailure | invalidResolutionState | dailyLossLimit | excessiveDrawdown
  | abnormalMarketBehaviour | manualHalt
  deriving DecidableEq, Repr

structure Classification where
  category : MarketCategory
  deriving DecidableEq, Repr

def Classification.isTradeable (self : Classification) : Bool := decide (self.category ≠ .unknown)

end DeepFlow.Core
