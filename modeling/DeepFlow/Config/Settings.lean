import DeepFlow.Core.Enums
import DeepFlow.Foundation.Text

/-!
# Process settings

The fields that the interlocks read, with the two guards that run after construction in the order
they are declared. A string that the environment leaves unset is `none`; an unfilled line of the
environment file is the empty string, which is a value.
-/

namespace DeepFlow.Config
open DeepFlow.Core Foundation

def LIVE_ACK_PHRASE : String := "I ACCEPT REAL CAPITAL RISK"

structure LiveModeNotConfirmedError where
  message : String
  deriving DecidableEq, Repr

structure PolymarketSettings where
  privateKey : Option String := none
  funderAddress : Option String := none
  deriving DecidableEq, Repr

def PolymarketSettings.isAuthenticated (self : PolymarketSettings) : Bool :=
  self.privateKey.isSome && self.funderAddress.isSome

structure ApiSettings where
  jwtSecret : Option String := none
  deriving DecidableEq, Repr

structure Settings where
  mode : RunMode := .paper
  liveTradingConfirmed : Bool := false
  liveTradingAck : String := ""
  polymarket : PolymarketSettings := {}
  api : ApiSettings := {}
  deriving DecidableEq, Repr

/-- The characters that `str.strip` removes. -/
def isSpace (c : Char) : Bool :=
  let n := c.toNat
  (0x09 ≤ n && n ≤ 0x0d) || (0x1c ≤ n && n ≤ 0x20) || n == 0x85 || n == 0xa0 || n == 0x1680 ||
    (0x2000 ≤ n && n ≤ 0x200a) || n == 0x2028 || n == 0x2029 || n == 0x202f || n == 0x205f || n == 0x3000

def stripString (text : String) : String := String.ofList (strip isSpace text.toList)

def Settings.guardLiveMode (self : Settings) : Except LiveModeNotConfirmedError Unit :=
  if self.mode ≠ .live then .ok ()
  else if ¬ self.liveTradingConfirmed then
    .error ⟨"LIVE mode requires DEEPFLOW_LIVE_TRADING_CONFIRMED=true"⟩
  else if stripString self.liveTradingAck ≠ LIVE_ACK_PHRASE then
    .error ⟨"LIVE mode requires DEEPFLOW_LIVE_TRADING_ACK to be exactly '" ++ LIVE_ACK_PHRASE ++ "'"⟩
  else if ¬ self.polymarket.isAuthenticated then
    .error ⟨"LIVE mode requires both a Polymarket private key and a funder address"⟩
  else .ok ()

def Settings.guardApiSecret (self : Settings) : Except LiveModeNotConfirmedError Unit :=
  if self.mode ∈ [.shadow, .live] ∧ self.api.jwtSecret = none then
    .error ⟨"SHADOW and LIVE modes require DEEPFLOW_API__JWT_SECRET to be set"⟩
  else .ok ()

/-- The validators that run after the fields are set. -/
def Settings.validate (self : Settings) : Except LiveModeNotConfirmedError Unit := do
  self.guardLiveMode
  self.guardApiSecret

def Settings.sendsRealOrders (self : Settings) : Bool := decide (self.mode = .live)

section Guards
variable {settings : Settings}

theorem guardLiveMode_ok_iff : settings.guardLiveMode = .ok () ↔
    settings.mode = .live → settings.liveTradingConfirmed = true ∧
      stripString settings.liveTradingAck = LIVE_ACK_PHRASE ∧ settings.polymarket.isAuthenticated = true := by
  unfold Settings.guardLiveMode
  split_ifs with other confirmed phrase authenticated
  · exact iff_of_true rfl (fun live => absurd live other)
  all_goals simp_all

theorem guardApiSecret_ok_iff : settings.guardApiSecret = .ok () ↔
    settings.mode = .shadow ∨ settings.mode = .live → settings.api.jwtSecret.isSome = true := by
  unfold Settings.guardApiSecret
  split_ifs with missing
  · simp_all
  · simp_all [Option.isSome_iff_ne_none]

theorem validate_ok_iff : settings.validate = .ok () ↔
    settings.guardLiveMode = .ok () ∧ settings.guardApiSecret = .ok () := by
  unfold Settings.validate
  cases live : settings.guardLiveMode with
  | error error => simp [bind, Except.bind]
  | ok _ => simp [bind, Except.bind]

theorem tight_phrase : Tight isSpace LIVE_ACK_PHRASE.toList where
  head := by
    intro first member
    obtain rfl : 'I' = first := Option.some.inj member
    decide
  last := by
    intro final member
    obtain rfl : 'K' = final := Option.some.inj member
    decide

theorem stripString_phrase_iff {text : String} : stripString text = LIVE_ACK_PHRASE ↔
    ∃ before after : List Char, (∀ c ∈ before, isSpace c) ∧ (∀ c ∈ after, isSpace c) ∧
      text.toList = before ++ LIVE_ACK_PHRASE.toList ++ after := by
  rw [← strip_eq_iff tight_phrase, stripString]
  exact ⟨fun same => same ▸ (String.toList_ofList ..).symm, fun same => same ▸ String.ofList_toList ..⟩

end Guards

end DeepFlow.Config
