import DeepFlow.Core.Logging

/-!
# Events that redaction cannot take

`lower` is called on every key and every sequence is rebuilt by calling its own class, so a dict with
another kind of key and most namedtuples make the log call itself raise.
-/

namespace DeepFlow.Core

variable {α : Type*} {lower : String → String}

/-- What holds of each value whose children it holds of holds of all values. -/
theorem Value.byChildren {motive : Value α → Prop} (str : ∀ text, motive (.str text))
    (leaf : ∀ value, motive (.leaf value)) (generator : motive .generator)
    (dict : ∀ entries, (∀ entry ∈ entries, motive entry.2) → motive (.dict entries))
    (list : ∀ items, (∀ item ∈ items, motive item) → motive (.list items))
    (tuple : ∀ items, (∀ item ∈ items, motive item) → motive (.tuple items))
    (namedTuple : ∀ fields defaults items, (∀ item ∈ items, motive item) →
      motive (.namedTuple fields defaults items)) (value : Value α) : motive value := by
  match value with
  | .str text => exact str text
  | .leaf scalar => exact leaf scalar
  | .generator => exact generator
  | .dict entries =>
    apply dict
    intro entry member
    have smaller : sizeOf entry.2 < sizeOf (Value.dict entries) := by
      have inside := List.sizeOf_lt_of_mem member
      have part : sizeOf entry.2 < sizeOf entry := by
        cases entry
        simp only [Prod.mk.sizeOf_spec]
        omega
      simp only [Value.dict.sizeOf_spec]
      omega
    exact byChildren str leaf generator dict list tuple namedTuple entry.2
  | .list items =>
    apply list
    intro item member
    have smaller := List.sizeOf_lt_of_mem member
    exact byChildren str leaf generator dict list tuple namedTuple item
  | .tuple items =>
    apply tuple
    intro item member
    have smaller := List.sizeOf_lt_of_mem member
    exact byChildren str leaf generator dict list tuple namedTuple item
  | .namedTuple fields defaults items =>
    apply namedTuple
    intro item member
    have smaller := List.sizeOf_lt_of_mem member
    exact byChildren str leaf generator dict list tuple namedTuple item
termination_by sizeOf value
decreasing_by
  · exact smaller
  all_goals
    simp only [Value.list.sizeOf_spec, Value.tuple.sizeOf_spec, Value.namedTuple.sizeOf_spec]
    omega

/-- Redaction returns, and nothing in what it returns stands under the name of a credential. -/
def Redacts (lower : String → String) (value : Value α) : Prop :=
  ∃ result, scrub lower value = .ok result ∧ Blanked lower result

/-- What the recursion reaches has string keys only, and its namedtuples can be made from a single
argument. The defaults that fill up such a namedtuple are not scrubbed. -/
inductive Survives (lower : String → String) : Value α → Prop where
  | str (text : String) : Survives lower (.str text)
  | leaf (value : α) : Survives lower (.leaf value)
  | generator : Survives lower .generator
  | dict (entries : List (Key α × Value α)) (keys : ∀ entry ∈ entries, ∃ text, entry.1 = .str text)
      (values : ∀ entry ∈ entries, ¬ entry.1.Redacted lower → Survives lower entry.2) : Survives lower (.dict entries)
  | list (items : List (Value α)) (each : ∀ item ∈ items, Survives lower item) : Survives lower (.list items)
  | tuple (items : List (Value α)) (each : ∀ item ∈ items, Survives lower item) : Survives lower (.tuple items)
  | namedTuple (fields : List String) (defaults items : List (Value α))
      (single : 0 < fields.length ∧ fields.length ≤ defaults.length + 1)
      (clean : ∀ value ∈ defaults.drop (defaults.length + 1 - fields.length), Blanked lower value) :
      Survives lower (.namedTuple fields defaults items)

/-! ### Blanked containers -/

theorem blanked_dict_iff {entries : List (Key α × Value α)} : Blanked lower (.dict entries) ↔
    (∀ entry ∈ entries, Blanked lower entry.2) ∧
      ∀ entry ∈ entries, entry.1.Redacted lower → entry.2 = .str PLACEHOLDER := by
  constructor
  · intro blanked
    refine ⟨?_, blanked entries (.self _)⟩
    intro entry member inner inside
    exact blanked inner (.dict member inside)
  · intro parts
    exact blanked_dict parts.1 parts.2

theorem blanked_list_iff {items : List (Value α)} :
    Blanked lower (.list items) ↔ ∀ item ∈ items, Blanked lower item := by
  refine ⟨?_, blanked_list⟩
  intro blanked item member inner inside
  exact blanked inner (.list member inside)

theorem blanked_tuple_iff {items : List (Value α)} :
    Blanked lower (.tuple items) ↔ ∀ item ∈ items, Blanked lower item := by
  refine ⟨?_, blanked_tuple⟩
  intro blanked item member inner inside
  exact blanked inner (.tuple member inside)

theorem blanked_namedTuple_iff {fields : List String} {defaults items : List (Value α)} :
    Blanked lower (.namedTuple fields defaults items) ↔ ∀ item ∈ items, Blanked lower item := by
  constructor
  · intro blanked item member inner inside
    exact blanked inner (.namedTuple member inside)
  · intro blanked inner inside
    cases inside with
    | namedTuple member deeper => exact blanked _ member inner deeper

/-! ### One level -/

theorem map_ok_iff {ε β γ : Type*} {x : Except ε β} {f : β → γ} {c : γ} :
    x.map f = .ok c ↔ ∃ b, x = .ok b ∧ f b = c := by
  cases x <;> simp [Except.map]

theorem bind_ok_iff {ε β γ : Type*} {x : Except ε β} {f : β → Except ε γ} {c : γ} :
    x.bind f = .ok c ↔ ∃ b, x = .ok b ∧ f b = .ok c := by
  cases x <;> simp [Except.bind]

theorem scrubEntries_redacted {text : String} (redacted : lower text ∈ REDACTED_KEYS) (value : Value α)
    (entries : List (Key α × Value α)) : scrubEntries lower ((.str text, value) :: entries) =
      (scrubEntries lower entries).map ((.str text, .str PLACEHOLDER) :: ·) := by
  rw [scrubEntries, if_pos redacted]
  cases scrubEntries lower entries <;> rfl

theorem scrubEntries_shown {text : String} (shown : lower text ∉ REDACTED_KEYS) (value : Value α)
    (entries : List (Key α × Value α)) : scrubEntries lower ((.str text, value) :: entries) =
      (scrub lower value).bind fun scrubbed => (scrubEntries lower entries).map ((.str text, scrubbed) :: ·) := by
  rw [scrubEntries, if_neg shown]
  cases scrub lower value <;> cases scrubEntries lower entries <;> rfl

theorem scrubItems_cons (item : Value α) (items : List (Value α)) : scrubItems lower (item :: items) =
    (scrub lower item).bind fun scrubbed => (scrubItems lower items).map (scrubbed :: ·) := by
  rw [scrubItems]
  cases scrub lower item <;> cases scrubItems lower items <;> rfl

def RedactsEntry (lower : String → String) (entry : Key α × Value α) : Prop :=
  (∃ text, entry.1 = .str text) ∧ (¬ entry.1.Redacted lower → Redacts lower entry.2)

theorem scrubEntries_ok_iff {entries : List (Key α × Value α)} :
    (∃ results, scrubEntries lower entries = .ok results ∧ Blanked lower (.dict results)) ↔
      ∀ entry ∈ entries, RedactsEntry lower entry := by
  induction entries with
  | nil => exact iff_of_true ⟨[], rfl, blanked_dict (by simp) (by simp)⟩ (by simp)
  | cons entry entries ih =>
    obtain ⟨key, value⟩ := entry
    rw [List.forall_mem_cons, ← ih]
    cases key with
    | other scalar =>
      refine iff_of_false ?_ fun both => ?_
      · intro scrubbed
        obtain ⟨results, scrubbed, -⟩ := scrubbed
        cases scrubbed
      · obtain ⟨text, same⟩ := both.1.1
        cases same
    | str text =>
      by_cases redacted : lower text ∈ REDACTED_KEYS
      · have held : RedactsEntry lower (.str text, value) := ⟨⟨text, rfl⟩, fun shown => absurd redacted shown⟩
        rw [scrubEntries_redacted redacted, and_iff_right held]
        simp only [map_ok_iff]
        constructor
        · intro scrubbed
          obtain ⟨_, ⟨results, scrubbed, rfl⟩, blanked⟩ := scrubbed
          obtain ⟨values, direct⟩ := blanked_dict_iff.mp blanked
          exact ⟨results, scrubbed, blanked_dict (List.forall_mem_cons.mp values).2 (List.forall_mem_cons.mp direct).2⟩
        · intro rest
          obtain ⟨results, scrubbed, blanked⟩ := rest
          obtain ⟨values, direct⟩ := blanked_dict_iff.mp blanked
          exact ⟨_, ⟨results, scrubbed, rfl⟩, blanked_dict (List.forall_mem_cons.mpr ⟨blanked_str _, values⟩)
            (List.forall_mem_cons.mpr ⟨fun _ => rfl, direct⟩)⟩
      · rw [scrubEntries_shown redacted]
        simp only [bind_ok_iff, map_ok_iff]
        constructor
        · intro scrubbed
          obtain ⟨_, ⟨result, first, results, scrubbed, rfl⟩, blanked⟩ := scrubbed
          obtain ⟨values, direct⟩ := blanked_dict_iff.mp blanked
          have own : Redacts lower value := ⟨result, first, (List.forall_mem_cons.mp values).1⟩
          exact ⟨⟨⟨text, rfl⟩, fun _ => own⟩, results, scrubbed,
            blanked_dict (List.forall_mem_cons.mp values).2 (List.forall_mem_cons.mp direct).2⟩
        · intro parts
          obtain ⟨⟨-, own⟩, results, scrubbed, blanked⟩ := parts
          obtain ⟨result, first, clean⟩ := own redacted
          obtain ⟨values, direct⟩ := blanked_dict_iff.mp blanked
          exact ⟨_, ⟨result, first, results, scrubbed, rfl⟩, blanked_dict (List.forall_mem_cons.mpr ⟨clean, values⟩)
            (List.forall_mem_cons.mpr ⟨fun named => absurd named redacted, direct⟩)⟩

theorem scrubItems_ok_iff {items : List (Value α)} :
    (∃ results, scrubItems lower items = .ok results ∧ ∀ item ∈ results, Blanked lower item) ↔
      ∀ item ∈ items, Redacts lower item := by
  induction items with
  | nil => exact iff_of_true ⟨[], rfl, by simp⟩ (by simp)
  | cons item items ih =>
    rw [List.forall_mem_cons, ← ih, scrubItems_cons]
    simp only [bind_ok_iff, map_ok_iff]
    constructor
    · intro scrubbed
      obtain ⟨_, ⟨result, first, results, scrubbed, rfl⟩, blanked⟩ := scrubbed
      obtain ⟨own, others⟩ := List.forall_mem_cons.mp blanked
      exact ⟨⟨result, first, own⟩, results, scrubbed, others⟩
    · intro parts
      obtain ⟨⟨result, first, own⟩, results, scrubbed, others⟩ := parts
      exact ⟨_, ⟨result, first, results, scrubbed, rfl⟩, List.forall_mem_cons.mpr ⟨own, others⟩⟩

/-! ### Every level -/

theorem redacts_dict {entries : List (Key α × Value α)} :
    Redacts lower (.dict entries) ↔ ∀ entry ∈ entries, RedactsEntry lower entry := by
  rw [← scrubEntries_ok_iff]
  unfold Redacts
  rw [scrub]
  simp only [map_ok_iff]
  constructor
  · intro scrubbed
    obtain ⟨_, ⟨results, scrubbed, rfl⟩, blanked⟩ := scrubbed
    exact ⟨results, scrubbed, blanked⟩
  · intro scrubbed
    obtain ⟨results, scrubbed, blanked⟩ := scrubbed
    exact ⟨_, ⟨results, scrubbed, rfl⟩, blanked⟩

/-- Lists and plain tuples are rebuilt alike. -/
theorem redacts_sequence {items : List (Value α)} {rebuild : List (Value α) → Value α}
    (blanked_iff : ∀ {results}, Blanked lower (rebuild results) ↔ ∀ item ∈ results, Blanked lower item) :
    (∃ result, (scrubItems lower items).map rebuild = .ok result ∧ Blanked lower result) ↔
      ∀ item ∈ items, Redacts lower item := by
  rw [← scrubItems_ok_iff]
  simp only [map_ok_iff]
  constructor
  · intro scrubbed
    obtain ⟨_, ⟨results, scrubbed, rfl⟩, blanked⟩ := scrubbed
    exact ⟨results, scrubbed, blanked_iff.mp blanked⟩
  · intro scrubbed
    obtain ⟨results, scrubbed, blanked⟩ := scrubbed
    exact ⟨_, ⟨results, scrubbed, rfl⟩, blanked_iff.mpr blanked⟩

theorem redacts_list {items : List (Value α)} : Redacts lower (.list items) ↔ ∀ item ∈ items, Redacts lower item := by
  unfold Redacts
  rw [scrub]
  exact redacts_sequence blanked_list_iff

theorem redacts_tuple {items : List (Value α)} : Redacts lower (.tuple items) ↔ ∀ item ∈ items, Redacts lower item := by
  unfold Redacts
  rw [scrub]
  exact redacts_sequence blanked_tuple_iff

theorem redacts_namedTuple {fields : List String} {defaults items : List (Value α)} :
    Redacts lower (.namedTuple fields defaults items) ↔
      (0 < fields.length ∧ fields.length ≤ defaults.length + 1) ∧
        ∀ value ∈ defaults.drop (defaults.length + 1 - fields.length), Blanked lower value := by
  have generator : Blanked lower (.generator : Value α) := by
    intro entries inside
    cases inside
  unfold Redacts
  rw [scrub, construct]
  by_cases refused : fields.length = 0 ∨ defaults.length + 1 < fields.length
  · rw [if_pos refused]
    refine iff_of_false ?_ fun both => ?_
    · intro scrubbed
      obtain ⟨result, scrubbed, -⟩ := scrubbed
      cases scrubbed
    · omega
  · rw [if_neg refused]
    have single : 0 < fields.length ∧ fields.length ≤ defaults.length + 1 := by omega
    rw [and_iff_right single]
    constructor
    · intro scrubbed
      obtain ⟨result, scrubbed, blanked⟩ := scrubbed
      cases scrubbed
      exact (List.forall_mem_cons.mp (blanked_namedTuple_iff.mp blanked)).2
    · intro clean
      exact ⟨_, rfl, blanked_namedTuple_iff.mpr (List.forall_mem_cons.mpr ⟨generator, clean⟩)⟩

theorem redacts_iff (value : Value α) : Redacts lower value ↔ Survives lower value := by
  induction value using Value.byChildren with
  | str text => exact iff_of_true ⟨_, rfl, blanked_str text⟩ (.str text)
  | leaf scalar =>
    refine iff_of_true ⟨.leaf scalar, rfl, ?_⟩ (.leaf scalar)
    intro entries inside
    cases inside
  | generator =>
    refine iff_of_true ⟨.generator, rfl, ?_⟩ .generator
    intro entries inside
    cases inside
  | dict entries ih =>
    rw [redacts_dict]
    constructor
    · intro each
      exact .dict entries (fun entry member => (each entry member).1) fun entry member shown =>
        (ih entry member).mp ((each entry member).2 shown)
    · intro survives entry member
      cases survives with
      | dict _ keys values =>
        exact ⟨keys entry member, fun shown => (ih entry member).mpr (values entry member shown)⟩
  | list items ih =>
    rw [redacts_list]
    constructor
    · intro each
      exact .list items fun item member => (ih item member).mp (each item member)
    · intro survives item member
      cases survives with
      | list _ each => exact (ih item member).mpr (each item member)
  | tuple items ih =>
    rw [redacts_tuple]
    constructor
    · intro each
      exact .tuple items fun item member => (ih item member).mp (each item member)
    · intro survives item member
      cases survives with
      | tuple _ each => exact (ih item member).mpr (each item member)
  | namedTuple fields defaults items _ =>
    rw [redacts_namedTuple]
    constructor
    · intro both
      exact .namedTuple fields defaults items both.1 both.2
    · intro survives
      cases survives with
      | namedTuple _ _ _ single clean => exact ⟨single, clean⟩

/-- The events for which the processor returns with every credential blanked. -/
theorem redaction_returns_iff (lower : String → String) (event : List (Key α × Value α)) :
    (∃ result, redact lower event = .ok result ∧ Blanked lower result) ↔ Survives lower (.dict event) :=
  redacts_iff (.dict event)

/-- A count under an integer key, and a namedtuple with two fields. -/
theorem plain_events_raise :
    redact String.toLower [(.str "event", .str "fills"), (.str "counts", .dict [(.other 1, .leaf 2)])] =
        .error .attributeError ∧
      redact String.toLower [(.str "event", .str "quote"),
        (.str "best", .namedTuple ["bid", "ask"] [] [.leaf 93, .leaf 95])] = .error .typeError := by
  have shown : ∀ text ∈ ["event", "counts", "best"], text.toLower ∉ REDACTED_KEYS := by decide +kernel
  constructor
  · rw [redact, scrub, scrubEntries_shown (shown "event" (by simp)), scrubEntries_shown (shown "counts" (by simp))]
    rfl
  · rw [redact, scrub, scrubEntries_shown (shown "event" (by simp)), scrubEntries_shown (shown "best" (by simp))]
    rfl

end DeepFlow.Core
