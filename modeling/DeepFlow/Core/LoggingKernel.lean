import Mathlib.Data.List.Forall2
import DeepFlow.Core.LoggingFailures

/-!
# What a redacted event still tells

What redaction returns it leaves alone from then on, unless it holds a generator: a namedtuple is given
a new one each time. Of an event made of plain containers it loses nothing but the values under the
names of credentials.
-/

namespace DeepFlow.Core

section Lists
variable {β γ δ : Type*} {R : β → δ → Prop} {S : γ → δ → Prop}

theorem forall₂_common {xs : List β} {ys : List γ} {zs : List δ} (left : List.Forall₂ R xs zs)
    (right : List.Forall₂ S ys zs) : List.Forall₂ (fun x y => ∃ z, R x z ∧ S y z) xs ys := by
  induction left generalizing ys with
  | nil =>
    rw [List.forall₂_nil_right_iff.mp right]
    exact .nil
  | cons first _ ih =>
    obtain ⟨y, others, second, rest, rfl⟩ := List.forall₂_cons_right_iff.mp right
    exact .cons ⟨_, first, second⟩ (ih rest)

theorem forall₂_results {xs : List β} {zs : List δ} {P : δ → Prop} (each : List.Forall₂ R xs zs)
    (holds : ∀ x ∈ xs, ∀ z ∈ zs, R x z → P z) : ∀ z ∈ zs, P z := by
  induction each with
  | nil => exact List.forall_mem_nil P
  | cons first _ ih =>
    have others := ih fun x member z made => holds x (List.mem_cons_of_mem _ member) z (List.mem_cons_of_mem _ made)
    exact List.forall_mem_cons.mpr ⟨holds _ List.mem_cons_self _ List.mem_cons_self first, others⟩

end Lists

variable {α : Type*} {lower : String → String}

/-! ### What one level becomes -/

structure ScrubbedEntry (lower : String → String) (entry result : Key α × Value α) : Prop where
  key : entry.1 = result.1
  text : ∃ text, entry.1 = .str text
  hidden : entry.1.Redacted lower → result.2 = .str PLACEHOLDER
  shown : ¬ entry.1.Redacted lower → scrub lower entry.2 = .ok result.2

/-- Everything that redacting a value can return. -/
inductive Scrubbed (lower : String → String) : Value α → Value α → Prop where
  | str (text : String) : Scrubbed lower (.str text) (.str text)
  | leaf (value : α) : Scrubbed lower (.leaf value) (.leaf value)
  | generator : Scrubbed lower .generator .generator
  | dict {entries results : List (Key α × Value α)} (each : List.Forall₂ (ScrubbedEntry lower) entries results) :
      Scrubbed lower (.dict entries) (.dict results)
  | list {items results : List (Value α)}
      (each : List.Forall₂ (fun item result => scrub lower item = .ok result) items results) :
      Scrubbed lower (.list items) (.list results)
  | tuple {items results : List (Value α)}
      (each : List.Forall₂ (fun item result => scrub lower item = .ok result) items results) :
      Scrubbed lower (.tuple items) (.tuple results)
  | namedTuple {fields : List String} {defaults items results : List (Value α)}
      (made : construct fields defaults = .ok (.namedTuple fields defaults results)) :
      Scrubbed lower (.namedTuple fields defaults items) (.namedTuple fields defaults results)

theorem construct_class {fields : List String} {defaults : List (Value α)} {result : Value α}
    (made : construct fields defaults = .ok result) : ∃ results, result = .namedTuple fields defaults results := by
  unfold construct at made
  split at made
  · cases made
  · exact ⟨_, (Except.ok.inj made).symm⟩

theorem construct_generator {fields : List String} {defaults : List (Value α)} {result : Value α}
    (made : construct fields defaults = .ok result) : Within result .generator := by
  unfold construct at made
  split at made
  · cases made
  · cases made
    exact .namedTuple List.mem_cons_self (.self _)

theorem scrubEntries_eq_ok_iff {entries results : List (Key α × Value α)} :
    scrubEntries lower entries = .ok results ↔ List.Forall₂ (ScrubbedEntry lower) entries results := by
  induction entries generalizing results with
  | nil =>
    rw [scrubEntries, List.forall₂_nil_left_iff, Except.ok.injEq]
    exact eq_comm
  | cons entry entries ih =>
    obtain ⟨key, value⟩ := entry
    rw [List.forall₂_cons_left_iff]
    cases key with
    | other scalar =>
      refine iff_of_false (fun built => by cases built) ?_
      rintro ⟨_, _, first, -, -⟩
      obtain ⟨text, same⟩ := first.text
      cases same
    | str text =>
      by_cases redacted : lower text ∈ REDACTED_KEYS
      · rw [scrubEntries_redacted redacted]
        simp only [map_ok_iff, ih]
        constructor
        · rintro ⟨rest, each, rfl⟩
          exact ⟨(.str text, .str PLACEHOLDER), rest,
            ⟨rfl, ⟨text, rfl⟩, fun _ => rfl, fun shown => absurd redacted shown⟩, each, rfl⟩
        · rintro ⟨⟨key, value⟩, rest, first, each, rfl⟩
          obtain rfl := first.key
          obtain rfl := first.hidden redacted
          exact ⟨rest, each, rfl⟩
      · rw [scrubEntries_shown redacted]
        simp only [bind_ok_iff, map_ok_iff, ih]
        constructor
        · rintro ⟨result, scrubbed, rest, each, rfl⟩
          exact ⟨(.str text, result), rest,
            ⟨rfl, ⟨text, rfl⟩, fun hidden => absurd hidden redacted, fun _ => scrubbed⟩, each, rfl⟩
        · rintro ⟨⟨key, value⟩, rest, first, each, rfl⟩
          obtain rfl := first.key
          exact ⟨value, first.shown redacted, rest, each, rfl⟩

theorem scrubItems_eq_ok_iff {items results : List (Value α)} : scrubItems lower items = .ok results ↔
    List.Forall₂ (fun item result => scrub lower item = .ok result) items results := by
  induction items generalizing results with
  | nil =>
    rw [scrubItems, List.forall₂_nil_left_iff, Except.ok.injEq]
    exact eq_comm
  | cons item items ih =>
    rw [scrubItems_cons, List.forall₂_cons_left_iff]
    simp only [bind_ok_iff, map_ok_iff, ih]
    constructor
    · rintro ⟨result, scrubbed, rest, each, rfl⟩
      exact ⟨result, rest, scrubbed, each, rfl⟩
    · rintro ⟨result, rest, scrubbed, each, rfl⟩
      exact ⟨result, scrubbed, rest, each, rfl⟩

theorem scrub_eq_ok_iff {value result : Value α} : scrub lower value = .ok result ↔ Scrubbed lower value result := by
  constructor
  · intro scrubbed
    cases value with
    | str text => cases scrubbed; exact .str text
    | leaf value => cases scrubbed; exact .leaf value
    | generator => cases scrubbed; exact .generator
    | dict entries =>
      rw [scrub, map_ok_iff] at scrubbed
      obtain ⟨results, built, rfl⟩ := scrubbed
      exact .dict (scrubEntries_eq_ok_iff.mp built)
    | list items =>
      rw [scrub, map_ok_iff] at scrubbed
      obtain ⟨results, built, rfl⟩ := scrubbed
      exact .list (scrubItems_eq_ok_iff.mp built)
    | tuple items =>
      rw [scrub, map_ok_iff] at scrubbed
      obtain ⟨results, built, rfl⟩ := scrubbed
      exact .tuple (scrubItems_eq_ok_iff.mp built)
    | namedTuple fields defaults items =>
      obtain ⟨results, rfl⟩ := construct_class scrubbed
      exact .namedTuple scrubbed
  · intro scrubbed
    cases scrubbed with
    | str | leaf | generator => rfl
    | dict each => rw [scrub, scrubEntries_eq_ok_iff.mpr each]; rfl
    | list each => rw [scrub, scrubItems_eq_ok_iff.mpr each]; rfl
    | tuple each => rw [scrub, scrubItems_eq_ok_iff.mpr each]; rfl
    | namedTuple made => exact made

/-! ### What is returned stays -/

/-- A result that holds no generator was made without calling the class of a namedtuple. -/
theorem scrub_settles {value : Value α} : ∀ result, scrub lower value = .ok result →
    ¬ Within result .generator → scrub lower result = .ok result := by
  induction value using Value.byChildren with
  | str text =>
    rintro result ⟨⟩ -
    rfl
  | leaf value =>
    rintro result ⟨⟩ -
    rfl
  | generator =>
    rintro result ⟨⟩ absent
    exact absurd (.self _) absent
  | dict entries ih =>
    intro result scrubbed absent
    cases scrub_eq_ok_iff.mp scrubbed with
    | dict each =>
      refine scrub_eq_ok_iff.mpr (.dict (List.forall₂_same.mpr ?_))
      refine forall₂_results each fun entry member result made first => ?_
      refine ⟨rfl, first.key ▸ first.text, first.key ▸ first.hidden, fun shown => ?_⟩
      exact ih entry member _ (first.shown (first.key.symm ▸ shown)) fun inside => absent (.dict made inside)
  | list items ih =>
    intro result scrubbed absent
    cases scrub_eq_ok_iff.mp scrubbed with
    | list each =>
      refine scrub_eq_ok_iff.mpr (.list (List.forall₂_same.mpr ?_))
      refine forall₂_results each fun item member result made first => ?_
      exact ih item member result first fun inside => absent (.list made inside)
  | tuple items ih =>
    intro result scrubbed absent
    cases scrub_eq_ok_iff.mp scrubbed with
    | tuple each =>
      refine scrub_eq_ok_iff.mpr (.tuple (List.forall₂_same.mpr ?_))
      refine forall₂_results each fun item member result made first => ?_
      exact ih item member result first fun inside => absent (.tuple made inside)
  | namedTuple fields defaults items =>
    intro result scrubbed absent
    exact absurd (construct_generator scrubbed) absent

/-! ### What is lost -/

theorem Plain.scrub_self_iff {value : Value α} (plain : Plain value) :
    scrub lower value = .ok value ↔ Blanked lower value := by
  constructor
  · intro kept
    obtain ⟨result, scrubbed, -, blanked⟩ : Scrubs lower value := plain.scrubs
    obtain rfl := Except.ok.inj (kept.symm.trans scrubbed)
    exact blanked
  · intro blanked
    induction plain with
    | str | leaf => rfl
    | dict entries keys values ih =>
      obtain ⟨inside, direct⟩ := blanked_dict_iff.mp blanked
      refine scrub_eq_ok_iff.mpr (.dict (List.forall₂_same.mpr fun entry member => ?_))
      exact ⟨rfl, keys entry member, direct entry member, fun _ => ih entry member (inside entry member)⟩
    | list items each ih =>
      have inside := blanked_list_iff.mp blanked
      exact scrub_eq_ok_iff.mpr (.list (List.forall₂_same.mpr fun item member => ih item member (inside item member)))
    | tuple items each ih =>
      have inside := blanked_tuple_iff.mp blanked
      exact scrub_eq_ok_iff.mpr (.tuple (List.forall₂_same.mpr fun item member => ih item member (inside item member)))

theorem agree_items {items items' results : List (Value α)}
    (each : List.Forall₂ (fun item result => scrub lower item = .ok result) items results)
    (each' : List.Forall₂ (fun item result => scrub lower item = .ok result) items' results)
    (ih : ∀ item ∈ items, ∀ {value'}, (∃ result, Scrubbed lower item result ∧ Scrubbed lower value' result) →
      Agree lower item value') :
    items.length = items'.length ∧ ∀ pair ∈ items.zip items', Agree lower pair.1 pair.2 := by
  have paired := forall₂_common each each'
  refine ⟨paired.length_eq, fun pair member => ?_⟩
  obtain ⟨result, own, other⟩ := List.forall₂_zip paired member
  exact ih pair.1 (List.of_mem_zip member).1 ⟨result, scrub_eq_ok_iff.mp own, scrub_eq_ok_iff.mp other⟩

/-- Values that redaction makes one and the same can only differ under the names of credentials. -/
theorem Plain.agree {value : Value α} (plain : Plain value) {value' : Value α} :
    (∃ result, scrub lower value = .ok result ∧ scrub lower value' = .ok result) → Agree lower value value' := by
  simp only [scrub_eq_ok_iff]
  induction plain generalizing value' with
  | str text =>
    rintro ⟨_, ⟨⟩, ⟨⟩⟩
    exact .same _
  | leaf scalar =>
    rintro ⟨_, ⟨⟩, ⟨⟩⟩
    exact .same _
  | dict entries keys values ih =>
    rintro ⟨result, scrubbed, scrubbed'⟩
    cases scrubbed with | dict each =>
    cases scrubbed' with | dict each' =>
    have paired := forall₂_common each each'
    refine .dict ?_ fun pair member shown => ?_
    · rw [← List.forall₂_eq_eq_eq, List.forall₂_map_left_iff, List.forall₂_map_right_iff]
      refine paired.imp fun entry entry' common => ?_
      obtain ⟨result, own, other⟩ := common
      exact own.key.trans other.key.symm
    · obtain ⟨result, own, other⟩ := List.forall₂_zip paired member
      refine ih pair.1 (List.of_mem_zip member).1 ⟨result.2, ?_, ?_⟩
      · exact scrub_eq_ok_iff.mp (own.shown shown)
      · exact scrub_eq_ok_iff.mp (other.shown (other.key.trans own.key.symm ▸ shown))
  | list items plain ih =>
    rintro ⟨result, scrubbed, scrubbed'⟩
    cases scrubbed with | list each =>
    cases scrubbed' with | list each' =>
    obtain ⟨length, agree⟩ := agree_items each each' ih
    exact .list length agree
  | tuple items plain ih =>
    rintro ⟨result, scrubbed, scrubbed'⟩
    cases scrubbed with | tuple each =>
    cases scrubbed' with | tuple each' =>
    obtain ⟨length, agree⟩ := agree_items each each' ih
    exact .tuple length agree

theorem Plain.same_scrub_iff {value value' : Value α} (plain : Plain value) :
    scrub lower value = scrub lower value' ↔ Agree lower value value' := by
  refine ⟨fun same => ?_, Agree.scrub⟩
  obtain ⟨result, scrubbed, -⟩ : Scrubs lower value := plain.scrubs
  exact plain.agree ⟨result, scrubbed, same ▸ scrubbed⟩

/-- The processor may run on its own output, if no generator is in it. Two plain events are logged alike
just when they agree up to redacted keys, and one is logged as it stands just when no credential shows
in it. -/
theorem redaction_exact (lower : String → String) (event event' : List (Key α × Value α)) :
    (∀ value, redact lower event = .ok value → ∃ result, value = .dict result ∧
      (¬ Within value .generator → redact lower result = .ok value)) ∧
      (Plain (.dict event) →
        (redact lower event = redact lower event' ↔ Agree lower (.dict event) (.dict event')) ∧
          (redact lower event = .ok (.dict event) ↔ Blanked lower (.dict event))) := by
  refine ⟨fun value scrubbed => ?_, fun plain => ⟨plain.same_scrub_iff, plain.scrub_self_iff⟩⟩
  have settled := scrub_settles value scrubbed
  cases scrub_eq_ok_iff.mp scrubbed with
  | dict each => exact ⟨_, rfl, settled⟩

theorem plain_loginEvent (secret : String) : Plain (.dict (loginEvent secret)) := by
  have session : Plain (.dict [(Key.str "Password", Value.str secret)] : Value Nat) :=
    .dict _ (by simp) (by simp [Plain.str])
  refine .dict _ (by simp [loginEvent]) ?_
  simp only [loginEvent, List.forall_mem_cons]
  exact ⟨.str _, .leaf _, .list _ (by simp [session]), List.forall_mem_nil _⟩

theorem redaction_exact_login :
    redact String.toLower (loginEvent "hunter2") ≠ .ok (.dict (loginEvent "hunter2")) := by
  intro kept
  have blanked := ((redaction_exact String.toLower (loginEvent "hunter2") []).2 (plain_loginEvent _)).2.mp kept
  have named : (Key.str "Password" : Key Nat).Redacted String.toLower := by
    show "Password".toLower ∈ REDACTED_KEYS
    decide +kernel
  have inside : Within (.dict (loginEvent "hunter2")) (.dict [(.str "Password", .str "hunter2")]) :=
    .dict (List.mem_cons_of_mem _ (List.mem_cons_of_mem _ List.mem_cons_self)) (.list List.mem_cons_self (.self _))
  have blank : "hunter2" = PLACEHOLDER := Value.str.inj (blanked _ inside _ List.mem_cons_self named)
  revert blank
  decide

end DeepFlow.Core
