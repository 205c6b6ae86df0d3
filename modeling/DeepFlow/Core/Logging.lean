import Mathlib.Data.Finset.Insert
import Mathlib.Data.List.Basic

/-!
# Log redaction

The processor rebuilds an event's dicts, lists and tuples and blanks whatever stands under the name
of a credential, at any depth. Numbers, booleans, `None` and the other scalars are of a type `α`;
`lower` is `str.lower`.
-/

namespace DeepFlow.Core

inductive Key (α : Type*) where
  | str (text : String)
  | other (value : α)
  deriving DecidableEq

/-- The values of an event. The entries of a dict have distinct keys, in insertion order. -/
inductive Value (α : Type*) where
  | str (text : String)
  | leaf (value : α)
  | dict (entries : List (Key α × Value α))
  | list (items : List (Value α))
  | tuple (items : List (Value α))
  -- The class of a namedtuple is given by its fields and by the defaults of the last ones.
  | namedTuple (fields : List String) (defaults : List (Value α)) (items : List (Value α))
  -- A generator that nothing has run. Which one it is, by which Python compares two, is left out.
  | generator

inductive ScrubError where
  -- A key that is not a string has no `lower`.
  | attributeError
  | typeError
  deriving DecidableEq, Repr

def REDACTED_KEYS : Finset String :=
  {"private_key", "api_secret", "api_passphrase", "jwt_secret", "password", "authorization"}

def PLACEHOLDER : String := "***redacted***"

section Scrub
variable {α : Type*} (lower : String → String)

/-- Calling the class with one argument, a generator. -/
def construct (fields : List String) (defaults : List (Value α)) : Except ScrubError (Value α) :=
  if fields.length = 0 ∨ defaults.length + 1 < fields.length then .error .typeError
  else .ok (.namedTuple fields defaults
    (.generator :: defaults.drop (defaults.length + 1 - fields.length)))

mutual

def scrub : Value α → Except ScrubError (Value α)
  | .dict entries => (scrubEntries entries).map .dict
  | .list items => (scrubItems items).map .list
  | .tuple items => (scrubItems items).map .tuple
  -- `type(value)` takes the fields one by one, not as an iterable.
  | .namedTuple fields defaults _ => construct fields defaults
  | .str text => .ok (.str text)
  | .leaf value => .ok (.leaf value)
  | .generator => .ok .generator

def scrubEntries : List (Key α × Value α) → Except ScrubError (List (Key α × Value α))
  | [] => .ok []
  | (.str text, value) :: entries => do
    let blanked ← if lower text ∈ REDACTED_KEYS then .ok (.str PLACEHOLDER) else scrub value
    let rest ← scrubEntries entries
    return (.str text, blanked) :: rest
  | (.other _, _) :: _ => .error .attributeError

def scrubItems : List (Value α) → Except ScrubError (List (Value α))
  | [] => .ok []
  | item :: items => do
    let scrubbed ← scrub item
    let rest ← scrubItems items
    return scrubbed :: rest

end

def redact (eventDict : List (Key α × Value α)) : Except ScrubError (Value α) := scrub lower (.dict eventDict)

end Scrub

/-! ### What redaction promises -/

section Spec
variable {α : Type*}

/-- Dicts with string keys, lists, plain tuples and scalars, to any depth. -/
inductive Plain : Value α → Prop where
  | str (text : String) : Plain (.str text)
  | leaf (value : α) : Plain (.leaf value)
  | dict (entries : List (Key α × Value α)) (keys : ∀ entry ∈ entries, ∃ text, entry.1 = .str text)
      (values : ∀ entry ∈ entries, Plain entry.2) : Plain (.dict entries)
  | list (items : List (Value α)) (plain : ∀ item ∈ items, Plain item) : Plain (.list items)
  | tuple (items : List (Value α)) (plain : ∀ item ∈ items, Plain item) : Plain (.tuple items)

/-- `inner` is `outer` or stands somewhere inside it. -/
inductive Within : Value α → Value α → Prop where
  | self (value : Value α) : Within value value
  | dict {entries : List (Key α × Value α)} {entry : Key α × Value α} {inner : Value α}
      (member : entry ∈ entries) (deeper : Within entry.2 inner) : Within (.dict entries) inner
  | list {items : List (Value α)} {item inner : Value α} (member : item ∈ items)
      (deeper : Within item inner) : Within (.list items) inner
  | tuple {items : List (Value α)} {item inner : Value α} (member : item ∈ items)
      (deeper : Within item inner) : Within (.tuple items) inner
  | namedTuple {fields : List String} {defaults items : List (Value α)} {item inner : Value α}
      (member : item ∈ items) (deeper : Within item inner) : Within (.namedTuple fields defaults items) inner

variable (lower : String → String)

def Key.Redacted : Key α → Prop
  | .str text => lower text ∈ REDACTED_KEYS
  | .other _ => False

/-- The same but for what stands under redacted keys: the same kind, the same keys in the same order,
the same length and the same scalars. -/
inductive Agree : Value α → Value α → Prop where
  | same (value : Value α) : Agree value value
  | dict {entries entries' : List (Key α × Value α)}
      (keys : entries.map Prod.fst = entries'.map Prod.fst)
      (values : ∀ pair ∈ entries.zip entries', ¬ pair.1.1.Redacted lower → Agree pair.1.2 pair.2.2) :
      Agree (.dict entries) (.dict entries')
  | list {items items' : List (Value α)} (length : items.length = items'.length)
      (values : ∀ pair ∈ items.zip items', Agree pair.1 pair.2) : Agree (.list items) (.list items')
  | tuple {items items' : List (Value α)} (length : items.length = items'.length)
      (values : ∀ pair ∈ items.zip items', Agree pair.1 pair.2) : Agree (.tuple items) (.tuple items')

def Blanked (value : Value α) : Prop :=
  ∀ entries, Within value (.dict entries) → ∀ entry ∈ entries, entry.1.Redacted lower → entry.2 = .str PLACEHOLDER

end Spec

/-! ### Redaction keeps it -/

section Redaction
variable {α : Type*} {lower : String → String}

theorem scrubEntries_congr {entries entries' : List (Key α × Value α)}
    (keys : entries.map Prod.fst = entries'.map Prod.fst)
    (values : ∀ pair ∈ entries.zip entries', ¬ pair.1.1.Redacted lower → scrub lower pair.1.2 = scrub lower pair.2.2) :
    scrubEntries lower entries = scrubEntries lower entries' := by
  induction entries generalizing entries' with
  | nil =>
    cases entries' with
    | nil => rfl
    | cons => cases keys
  | cons entry entries ih =>
    cases entries' with
    | nil => cases keys
    | cons entry' entries' =>
      obtain ⟨key, value⟩ := entry
      obtain ⟨key', value'⟩ := entry'
      obtain ⟨same, later⟩ := List.cons.inj keys
      obtain rfl : key = key' := same
      have rest := ih later fun pair member => values pair (List.mem_cons_of_mem _ member)
      cases key with
      | other => rfl
      | str text =>
        rw [scrubEntries, scrubEntries, rest]
        split
        · rfl
        · next shown => rw [values _ List.mem_cons_self shown]

theorem scrubItems_congr {items items' : List (Value α)} (length : items.length = items'.length)
    (values : ∀ pair ∈ items.zip items', scrub lower pair.1 = scrub lower pair.2) :
    scrubItems lower items = scrubItems lower items' := by
  induction items generalizing items' with
  | nil => rw [List.length_eq_zero_iff.mp length.symm]
  | cons item items ih =>
    obtain ⟨item', items', rfl⟩ := List.exists_cons_of_length_eq_add_one length.symm
    rw [scrubItems, scrubItems, values _ List.mem_cons_self,
      ih (Nat.succ.inj length) fun pair member => values pair (List.mem_cons_of_mem _ member)]

theorem Agree.scrub {value value' : Value α} (agree : Agree lower value value') :
    scrub lower value = scrub lower value' := by
  induction agree with
  | same => rfl
  | dict keys values ih => rw [Core.scrub, Core.scrub, scrubEntries_congr keys ih]
  | list length values ih => rw [Core.scrub, Core.scrub, scrubItems_congr length ih]
  | tuple length values ih => rw [Core.scrub, Core.scrub, scrubItems_congr length ih]

theorem blanked_str (text : String) : Blanked lower (.str text : Value α) := by
  intro entries inside
  cases inside

theorem blanked_dict {entries : List (Key α × Value α)} (blanked : ∀ entry ∈ entries, Blanked lower entry.2)
    (direct : ∀ entry ∈ entries, entry.1.Redacted lower → entry.2 = .str PLACEHOLDER) :
    Blanked lower (.dict entries) := by
  intro inner inside
  cases inside with
  | self => exact direct
  | dict member deeper => exact blanked _ member inner deeper

theorem blanked_list {items : List (Value α)} (blanked : ∀ item ∈ items, Blanked lower item) :
    Blanked lower (.list items) := by
  intro inner inside
  cases inside with
  | list member deeper => exact blanked _ member inner deeper

theorem blanked_tuple {items : List (Value α)} (blanked : ∀ item ∈ items, Blanked lower item) :
    Blanked lower (.tuple items) := by
  intro inner inside
  cases inside with
  | tuple member deeper => exact blanked _ member inner deeper

def Scrubs (lower : String → String) (value : Value α) : Prop :=
  ∃ result, scrub lower value = .ok result ∧ Agree lower value result ∧ Blanked lower result

theorem scrubs_dict {entries : List (Key α × Value α)} (keys : ∀ entry ∈ entries, ∃ text, entry.1 = .str text)
    (values : ∀ entry ∈ entries, Scrubs lower entry.2) : Scrubs lower (.dict entries) := by
  suffices built : ∃ results, scrubEntries lower entries = .ok results ∧
      entries.map Prod.fst = results.map Prod.fst ∧
      (∀ pair ∈ entries.zip results, ¬ pair.1.1.Redacted lower → Agree lower pair.1.2 pair.2.2) ∧
      (∀ entry ∈ results, Blanked lower entry.2) ∧
      ∀ entry ∈ results, entry.1.Redacted lower → entry.2 = .str PLACEHOLDER by
    obtain ⟨results, scrubbed, sameKeys, agrees, blanked, direct⟩ := built
    refine ⟨.dict results, ?_, .dict sameKeys agrees, blanked_dict blanked direct⟩
    rw [scrub, scrubbed]
    rfl
  induction entries with
  | nil => exact ⟨[], rfl, rfl, by simp, by simp, by simp⟩
  | cons entry entries ih =>
    obtain ⟨key, value⟩ := entry
    obtain ⟨⟨text, rfl⟩, otherKeys⟩ := List.forall_mem_cons.mp keys
    obtain ⟨⟨result, scrubbed, agree, blanked⟩, otherValues⟩ := List.forall_mem_cons.mp values
    obtain ⟨results, rest, sameKeys, agrees, blanks, direct⟩ := ih otherKeys otherValues
    by_cases redacted : lower text ∈ REDACTED_KEYS
    · refine ⟨(.str text, .str PLACEHOLDER) :: results, ?_, ?_, ?_, ?_, ?_⟩
      · rw [scrubEntries, if_pos redacted, rest]
        rfl
      · rw [List.map_cons, List.map_cons, sameKeys]
      · exact List.forall_mem_cons.mpr ⟨fun shown => absurd redacted shown, agrees⟩
      · exact List.forall_mem_cons.mpr ⟨blanked_str PLACEHOLDER, blanks⟩
      · exact List.forall_mem_cons.mpr ⟨fun _ => rfl, direct⟩
    · refine ⟨(.str text, result) :: results, ?_, ?_, ?_, ?_, ?_⟩
      · rw [scrubEntries, if_neg redacted, scrubbed, rest]
        rfl
      · rw [List.map_cons, List.map_cons, sameKeys]
      · exact List.forall_mem_cons.mpr ⟨fun _ => agree, agrees⟩
      · exact List.forall_mem_cons.mpr ⟨blanked, blanks⟩
      · exact List.forall_mem_cons.mpr ⟨fun named => absurd named redacted, direct⟩

theorem scrubItems_ok {items : List (Value α)} (values : ∀ item ∈ items, Scrubs lower item) :
    ∃ results, scrubItems lower items = .ok results ∧ items.length = results.length ∧
      (∀ pair ∈ items.zip results, Agree lower pair.1 pair.2) ∧ ∀ item ∈ results, Blanked lower item := by
  induction items with
  | nil => exact ⟨[], rfl, rfl, by simp, by simp⟩
  | cons item items ih =>
    obtain ⟨⟨result, scrubbed, agree, blanked⟩, others⟩ := List.forall_mem_cons.mp values
    obtain ⟨results, rest, length, agrees, blanks⟩ := ih others
    refine ⟨result :: results, ?_, congrArg (· + 1) length, ?_, ?_⟩
    · rw [scrubItems, scrubbed, rest]
      rfl
    · exact List.forall_mem_cons.mpr ⟨agree, agrees⟩
    · exact List.forall_mem_cons.mpr ⟨blanked, blanks⟩

theorem Plain.scrubs {value : Value α} (plain : Plain value) : Scrubs lower value := by
  induction plain with
  | str text => exact ⟨.str text, rfl, .same _, blanked_str text⟩
  | leaf scalar =>
    refine ⟨.leaf scalar, rfl, .same _, ?_⟩
    intro entries inside
    cases inside
  | dict entries keys values ih => exact scrubs_dict keys ih
  | list items plain ih =>
    obtain ⟨results, scrubbed, length, agrees, blanks⟩ := scrubItems_ok ih
    refine ⟨.list results, ?_, .list length agrees, blanked_list blanks⟩
    rw [scrub, scrubbed]
    rfl
  | tuple items plain ih =>
    obtain ⟨results, scrubbed, length, agrees, blanks⟩ := scrubItems_ok ih
    refine ⟨.tuple results, ?_, .tuple length agrees, blanked_tuple blanks⟩
    rw [scrub, scrubbed]
    rfl

/-- Two events that agree up to redacted keys are logged alike; apart from the placeholders the log
is the event, and redacting it again changes nothing. -/
theorem redaction_noninterfering (lower : String → String) (event event' : List (Key α × Value α))
    (plain : Plain (.dict event)) (agree : Agree lower (.dict event) (.dict event')) :
    ∃ result, redact lower event = .ok (.dict result) ∧ redact lower event' = .ok (.dict result) ∧
      Agree lower (.dict event) (.dict result) ∧ Blanked lower (.dict result) ∧
      redact lower result = .ok (.dict result) := by
  have scrubs : Scrubs lower (.dict event) := plain.scrubs
  obtain ⟨value, scrubbed, kept, blanked⟩ := scrubs
  have rebuilt : ∃ result, value = .dict result := by
    rw [scrub] at scrubbed
    cases built : scrubEntries lower event with
    | error error =>
      rw [built] at scrubbed
      cases scrubbed
    | ok result =>
      rw [built] at scrubbed
      cases scrubbed
      exact ⟨result, rfl⟩
  obtain ⟨result, rfl⟩ := rebuilt
  refine ⟨result, scrubbed, ?_, kept, blanked, ?_⟩
  · unfold redact
    rw [← agree.scrub, scrubbed]
  · unfold redact
    rw [← kept.scrub, scrubbed]

def loginEvent (secret : String) : List (Key Nat × Value Nat) :=
  [(.str "event", .str "login"), (.str "attempts", .leaf 2),
    (.str "sessions", .list [.dict [(.str "Password", .str secret)]])]

theorem login_secret_not_logged :
    ∃ result, redact String.toLower (loginEvent "hunter2") = .ok (.dict result) ∧
      redact String.toLower (loginEvent "correct horse") = .ok (.dict result) := by
  have hidden : (Key.str "Password" : Key Nat).Redacted String.toLower := by
    show "Password".toLower ∈ REDACTED_KEYS
    decide +kernel
  have session : ∀ secret, Plain (.dict [(Key.str "Password", Value.str secret)] : Value Nat) := by
    intro secret
    exact .dict _ (by simp) (by simp [Plain.str])
  have plain : Plain (.dict (loginEvent "hunter2")) := by
    refine .dict _ (by simp [loginEvent]) ?_
    simp only [loginEvent, List.forall_mem_cons]
    exact ⟨.str _, .leaf _, .list _ (by simp [session]), List.forall_mem_nil _⟩
  have agree : Agree String.toLower (.dict (loginEvent "hunter2")) (.dict (loginEvent "correct horse")) := by
    refine .dict rfl ?_
    simp only [loginEvent, List.zip_cons_cons, List.forall_mem_cons]
    refine ⟨fun _ => .same _, fun _ => .same _, fun _ => .list rfl ?_, by simp⟩
    simp only [List.zip_cons_cons, List.forall_mem_cons]
    exact ⟨.dict rfl (by simp [hidden]), by simp⟩
  obtain ⟨result, first, second, -⟩ :=
    redaction_noninterfering String.toLower (loginEvent "hunter2") (loginEvent "correct horse") plain agree
  exact ⟨result, first, second⟩

end Redaction

end DeepFlow.Core
