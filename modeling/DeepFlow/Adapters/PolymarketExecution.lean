import DeepFlow.Config.Settings

/-!
# The execution adapter

The last hop before the network. The adapter holds settings that construction accepted, and every
order operation first passes the mode interlock.
-/

namespace DeepFlow.Adapters
open DeepFlow.Core DeepFlow.Config Foundation

structure PolymarketExecution where
  settings : Settings
  constructed : settings.validate = .ok ()

inductive ExecutionError where
  | runtime (message : String)
  | notImplemented (operation : String)
  deriving DecidableEq, Repr

namespace PolymarketExecution

def assertLive (self : PolymarketExecution) (action : String) : Except ExecutionError Unit :=
  if self.settings.mode ≠ .live then
    .error (.runtime ("refusing to " ++ action ++ ": run mode is " ++ self.settings.mode.value ++ ", not LIVE"))
  else .ok ()

def guarded (self : PolymarketExecution) (action operation : String) : Except ExecutionError Unit := do
  self.assertLive action
  .error (.notImplemented operation)

def submit (self : PolymarketExecution) : Except ExecutionError Unit :=
  self.guarded "submit order" "PolymarketExecution.submit"

def cancel (self : PolymarketExecution) : Except ExecutionError Unit :=
  self.guarded "cancel order" "PolymarketExecution.cancel"

def cancelAll (self : PolymarketExecution) : Except ExecutionError Unit :=
  self.guarded "cancel all orders" "PolymarketExecution.cancel_all"

theorem assertLive_ok_iff {self : PolymarketExecution} {action : String} :
    self.assertLive action = .ok () ↔ self.settings.mode = .live := by
  unfold assertLive
  split_ifs with other
  · simpa using other
  · simpa using other

theorem guarded_reached_iff {self : PolymarketExecution} {action operation : String} :
    self.guarded action operation = .error (.notImplemented operation) ↔
      self.settings.sendsRealOrders = true := by
  unfold guarded assertLive Settings.sendsRealOrders
  split_ifs with other
  · simpa [bind, Except.bind] using other
  · simpa [bind, Except.bind] using other

end PolymarketExecution

/-! ### What the interlocks promise -/

def Configured (value : Option String) : Prop := ∃ text, value = some text ∧ text ≠ ""

def LeftBlank (value : Option String) : Prop := value = some ""

structure Armed (settings : Settings) : Prop where
  confirmed : settings.liveTradingConfirmed = true
  acknowledged : ∃ before after : List Char, (∀ c ∈ before, isSpace c) ∧ (∀ c ∈ after, isSpace c) ∧
    settings.liveTradingAck.toList = before ++ LIVE_ACK_PHRASE.toList ++ after
  privateKey : Configured settings.polymarket.privateKey
  funderAddress : Configured settings.polymarket.funderAddress
  jwtSecret : Configured settings.api.jwtSecret

/-- The promise of the interlocks about one configuration. -/
structure Interlocked (settings : Settings) : Prop where
  onlyLive : ∀ adapter : PolymarketExecution, adapter.settings = settings →
    ∀ action, adapter.assertLive action = .ok () ↔ settings.mode = .live
  live : settings.validate = .ok () → settings.mode = .live → Armed settings
  shadow : settings.validate = .ok () → settings.mode = .shadow → Configured settings.api.jwtSecret
  offline : settings.mode = .backtest ∨ settings.mode = .paper →
    settings.guardLiveMode = .ok () ∧ settings.guardApiSecret = .ok ()

/-- No value that the guards take for configured was left blank. -/
structure NoneBlank (settings : Settings) : Prop where
  shadow : settings.mode = .shadow → ¬ LeftBlank settings.api.jwtSecret
  live : settings.mode = .live → settings.liveTradingConfirmed = true →
    stripString settings.liveTradingAck = LIVE_ACK_PHRASE → settings.polymarket.isAuthenticated = true →
    settings.api.jwtSecret.isSome = true →
    ¬ LeftBlank settings.polymarket.privateKey ∧ ¬ LeftBlank settings.polymarket.funderAddress ∧
      ¬ LeftBlank settings.api.jwtSecret

section Interlocks
variable {settings : Settings}

theorem configured_iff {value : Option String} : Configured value ↔ value.isSome = true ∧ ¬ LeftBlank value := by
  cases value with
  | none => simp [Configured]
  | some text => simp [Configured, LeftBlank]

theorem validate_live (accepted : settings.validate = .ok ()) (live : settings.mode = .live) :
    settings.liveTradingConfirmed = true ∧ stripString settings.liveTradingAck = LIVE_ACK_PHRASE ∧
      settings.polymarket.isAuthenticated = true ∧ settings.api.jwtSecret.isSome = true := by
  obtain ⟨mode, secret⟩ := validate_ok_iff.mp accepted
  obtain ⟨confirmed, phrase, authenticated⟩ := guardLiveMode_ok_iff.mp mode live
  exact ⟨confirmed, phrase, authenticated, guardApiSecret_ok_iff.mp secret (.inr live)⟩

theorem validate_of_confirmed (confirmed : settings.liveTradingConfirmed = true)
    (phrase : stripString settings.liveTradingAck = LIVE_ACK_PHRASE)
    (authenticated : settings.polymarket.isAuthenticated = true)
    (secret : settings.api.jwtSecret.isSome = true) : settings.validate = .ok () :=
  validate_ok_iff.mpr ⟨guardLiveMode_ok_iff.mpr fun _ => ⟨confirmed, phrase, authenticated⟩,
    guardApiSecret_ok_iff.mpr fun _ => secret⟩

theorem validate_shadow_iff (shadow : settings.mode = .shadow) :
    settings.validate = .ok () ↔ settings.api.jwtSecret.isSome = true := by
  rw [validate_ok_iff, guardLiveMode_ok_iff, guardApiSecret_ok_iff]
  simp [shadow]

theorem guards_offline (mode : settings.mode = .backtest ∨ settings.mode = .paper) :
    settings.guardLiveMode = .ok () ∧ settings.guardApiSecret = .ok () := by
  rw [guardLiveMode_ok_iff, guardApiSecret_ok_iff]
  rcases mode with mode | mode <;> simp [mode]

theorem armed_of_noneBlank (accepted : settings.validate = .ok ()) (live : settings.mode = .live)
    (filled : NoneBlank settings) : Armed settings := by
  obtain ⟨confirmed, phrase, authenticated, secret⟩ := validate_live accepted live
  obtain ⟨key, funder, jwt⟩ := filled.live live confirmed phrase authenticated secret
  obtain ⟨keySet, funderSet⟩ := (Bool.and_eq_true ..).mp authenticated
  exact
    { confirmed := confirmed
      acknowledged := stripString_phrase_iff.mp phrase
      privateKey := configured_iff.mpr ⟨keySet, key⟩
      funderAddress := configured_iff.mpr ⟨funderSet, funder⟩
      jwtSecret := configured_iff.mpr ⟨secret, jwt⟩ }

/-- The interlocks keep their promise exactly for the configurations that leave none of the values
they check blank. -/
theorem interlocked_iff (settings : Settings) : Interlocked settings ↔ NoneBlank settings := by
  constructor
  · intro promise
    constructor
    case shadow =>
      intro shadow blank
      have accepted := (validate_shadow_iff shadow).mpr (blank ▸ rfl)
      exact (configured_iff.mp (promise.shadow accepted shadow)).2 blank
    case live =>
      intro live confirmed phrase authenticated secret
      have armed := promise.live (validate_of_confirmed confirmed phrase authenticated secret) live
      exact ⟨(configured_iff.mp armed.privateKey).2, (configured_iff.mp armed.funderAddress).2,
        (configured_iff.mp armed.jwtSecret).2⟩
  · intro filled
    constructor
    case onlyLive =>
      rintro adapter rfl action
      exact PolymarketExecution.assertLive_ok_iff
    case live => exact fun accepted live => armed_of_noneBlank accepted live filled
    case shadow =>
      intro accepted shadow
      exact configured_iff.mpr ⟨(validate_shadow_iff shadow).mp accepted, filled.shadow shadow⟩
    case offline => exact guards_offline

theorem blank_template_armed :
    let settings : Settings :=
      { mode := .live, liveTradingConfirmed := true, liveTradingAck := LIVE_ACK_PHRASE
        polymarket := ⟨some "", some ""⟩, api := ⟨some ""⟩ }
    settings.validate = .ok () ∧ ¬ Interlocked settings := by
  intro settings
  have accepted : settings.validate = .ok () := by decide
  refine ⟨accepted, fun promise => ?_⟩
  exact (configured_iff.mp (promise.live accepted rfl).privateKey).2 rfl

end Interlocks

end DeepFlow.Adapters
