import Mathlib.Data.List.Forall2
import Mathlib.Tactic.MkIffOfInductiveProp
import MeshTasks.Error

/-!
# Outcomes of composed computations

A computation that may fail succeeds exactly when each of its parts does. These
lemmas take apart sequences, maps over lists and folds over lists, so that later
proofs speak of results only.
-/

namespace MeshTasks

section

variable {ε α β σ : Type}

theorem bind_eq_ok_iff
    {outcome : Except ε α} {next : α → Except ε β} {result : β} :
    (outcome >>= next) = .ok result ↔
      ∃ value, outcome = .ok value ∧ next value = .ok result := by
  cases outcome with
  | error error => simp [bind, Except.bind]
  | ok value => simp [bind, Except.bind]

theorem bind_eq_error_iff
    {outcome : Except ε α} {next : α → Except ε β} {error : ε} :
    (outcome >>= next) = .error error ↔
      outcome = .error error ∨ ∃ value, outcome = .ok value ∧ next value = .error error := by
  cases outcome with
  | error first => simp [bind, Except.bind]
  | ok value => simp [bind, Except.bind]

theorem bind_pure_eq_error_iff
    {outcome : Except ε α} {make : α → β} {error : ε} :
    (outcome >>= fun value => pure (make value)) = .error error ↔ outcome = .error error := by
  cases outcome with
  | error error => simp [bind, Except.bind]
  | ok value => simp [bind, Except.bind, pure, Except.pure]

theorem map_eq_ok_iff
    {outcome : Except ε α} {make : α → β} {result : β} :
    make <$> outcome = .ok result ↔ ∃ value, outcome = .ok value ∧ make value = result := by
  cases outcome with
  | error error => simp [Functor.map, Except.map]
  | ok value => simp [Functor.map, Except.map]

theorem orArithmetic_eq_ok_iff {outcome : Except Fault α} {result : α} :
    orArithmetic outcome = .ok result ↔ outcome = .ok result := by
  cases outcome with
  | error fault => simp [orArithmetic]
  | ok value => simp [orArithmetic]

/-- A map succeeds exactly when it does so on every value; the results stand in
the order of the values. -/
theorem mapM_eq_ok_iff
    {operation : α → Except ε β} {values : List α} {results : List β} :
    values.mapM operation = .ok results ↔
      List.Forall₂ (fun value result => operation value = .ok result) values results := by
  induction values generalizing results with
  | nil =>
      rw [List.mapM_nil, List.forall₂_nil_left_iff]
      constructor
      · intro equality
        cases equality
        rfl
      · intro equality
        rw [equality]
        rfl
  | cons head tail inductionHypothesis =>
      rw [List.mapM_cons, bind_eq_ok_iff, List.forall₂_cons_left_iff]
      constructor
      · rintro ⟨first, headOk, rest⟩
        obtain ⟨others, tailOk, assembled⟩ := bind_eq_ok_iff.mp rest
        cases assembled
        exact ⟨first, others, headOk, inductionHypothesis.mp tailOk, rfl⟩
      · rintro ⟨first, others, headOk, tailOk, rfl⟩
        refine ⟨first, headOk, bind_eq_ok_iff.mpr ⟨others, ?_, rfl⟩⟩
        exact inductionHypothesis.mpr tailOk

theorem exists_of_mem_mapM
    {operation : α → Except ε β} {values : List α} {results : List β} {result : β}
    (mapped : values.mapM operation = .ok results)
    (member : result ∈ results) :
    ∃ value ∈ values, operation value = .ok result := by
  rw [mapM_eq_ok_iff] at mapped
  induction mapped with
  | nil => cases member
  | cons headOk _ inductionHypothesis =>
      rcases List.mem_cons.mp member with same | inTail
      · exact ⟨_, List.mem_cons_self, same ▸ headOk⟩
      · obtain ⟨value, valueMember, valueOk⟩ := inductionHypothesis inTail
        exact ⟨value, List.mem_cons_of_mem _ valueMember, valueOk⟩

theorem mapM_result_of_mem
    {operation : α → Except ε β} {values : List α} {results : List β} {value : α}
    (mapped : values.mapM operation = .ok results)
    (member : value ∈ values) :
    ∃ result ∈ results, operation value = .ok result := by
  rw [mapM_eq_ok_iff] at mapped
  induction mapped with
  | nil => cases member
  | cons headOk _ inductionHypothesis =>
      rcases List.mem_cons.mp member with same | inTail
      · exact ⟨_, List.mem_cons_self, same ▸ headOk⟩
      · obtain ⟨result, resultMember, resultOk⟩ := inductionHypothesis inTail
        exact ⟨result, List.mem_cons_of_mem _ resultMember, resultOk⟩

/-- What relates each value to all later ones, and is carried over to results,
relates each result to all later ones. -/
theorem mapM_pairwise
    {R : α → α → Prop} {S : β → β → Prop}
    {operation : α → Except ε β} {values : List α} {results : List β}
    (mapped : values.mapM operation = .ok results)
    (related : values.Pairwise R)
    (carries : ∀ {left right leftResult rightResult},
      operation left = .ok leftResult → operation right = .ok rightResult →
        R left right → S leftResult rightResult) :
    results.Pairwise S := by
  rw [mapM_eq_ok_iff] at mapped
  induction mapped with
  | nil => exact List.Pairwise.nil
  | cons headOk tailOk inductionHypothesis =>
      obtain ⟨headRelated, tailRelated⟩ := List.pairwise_cons.mp related
      refine List.pairwise_cons.mpr ⟨fun result member => ?_, inductionHypothesis tailRelated⟩
      obtain ⟨value, valueMember, valueOk⟩ :=
        exists_of_mem_mapM (mapM_eq_ok_iff.mpr tailOk) member
      exact carries headOk valueOk (headRelated value valueMember)

/-- A map of an operation that succeeds on every value with a known result. -/
theorem mapM_eq_ok_map
    {operation : α → Except ε β} {make : α → β} {values : List α}
    (succeeds : ∀ value ∈ values, operation value = .ok (make value)) :
    values.mapM operation = .ok (values.map make) := by
  rw [mapM_eq_ok_iff]
  induction values with
  | nil => exact List.Forall₂.nil
  | cons head tail inductionHypothesis =>
      have tailOk := inductionHypothesis fun value member =>
        succeeds value (List.mem_cons_of_mem head member)
      exact List.Forall₂.cons (succeeds head List.mem_cons_self) tailOk

theorem mapM_replicate
    {operation : α → Except ε β} {count : Nat} {value : α} :
    (List.replicate (count + 1) value).mapM operation =
      List.replicate (count + 1) <$> operation value := by
  cases valueOk : operation value with
  | error error =>
      rw [List.replicate_succ, List.mapM_cons, valueOk]
      rfl
  | ok result =>
      have each : ∀ other ∈ List.replicate (count + 1) value, operation other = .ok result := by
        intro other member
        rw [List.eq_of_mem_replicate member, valueOk]
      rw [mapM_eq_ok_map each, List.map_replicate]
      rfl

/-- A map that succeeds gives what its operation gives, value by value. -/
theorem eq_map_of_mapM
    {operation : α → Except ε β} {make : α → β} {values : List α} {results : List β}
    (mapped : values.mapM operation = .ok results)
    (makes : ∀ value ∈ values, ∀ result, operation value = .ok result → make value = result) :
    results = values.map make := by
  rw [mapM_eq_ok_iff] at mapped
  induction mapped with
  | nil => rfl
  | cons headOk _ inductionHypothesis =>
      rw [List.map_cons, makes _ List.mem_cons_self _ headOk,
        ← inductionHypothesis fun value member => makes value (List.mem_cons_of_mem _ member)]

/-- A fold whose steps succeed by a condition on the value alone, and then
advance the state, succeeds exactly when all values meet the condition. -/
theorem foldlM_eq_ok_iff
    (step : σ → α → Except ε σ) (allowed : α → Prop) (advance : σ → α → σ)
    (step_ok : ∀ state value next,
      step state value = .ok next ↔ allowed value ∧ next = advance state value)
    {values : List α} {state final : σ} :
    values.foldlM step state = .ok final ↔
      (∀ value ∈ values, allowed value) ∧ final = values.foldl advance state := by
  induction values generalizing state with
  | nil =>
      rw [List.foldlM_nil, List.foldl_nil]
      constructor
      · intro equality
        cases equality
        exact ⟨fun _ member => absurd member List.not_mem_nil, rfl⟩
      · rintro ⟨_, rfl⟩
        rfl
  | cons head tail inductionHypothesis =>
      rw [List.foldlM_cons, bind_eq_ok_iff, List.foldl_cons, List.forall_mem_cons]
      constructor
      · rintro ⟨next, headOk, tailOk⟩
        obtain ⟨headAllowed, rfl⟩ := (step_ok state head next).mp headOk
        obtain ⟨tailAllowed, finalEq⟩ := inductionHypothesis.mp tailOk
        exact ⟨⟨headAllowed, tailAllowed⟩, finalEq⟩
      · rintro ⟨⟨headAllowed, tailAllowed⟩, finalEq⟩
        refine ⟨advance state head, (step_ok _ _ _).mpr ⟨headAllowed, rfl⟩, ?_⟩
        exact inductionHypothesis.mpr ⟨tailAllowed, finalEq⟩

/-- A fold none of whose steps changes the state ends in it. -/
theorem foldlM_eq_self
    {step : σ → α → Except ε σ} {values : List α} {state : σ}
    (unchanged : ∀ value ∈ values, step state value = .ok state) :
    values.foldlM step state = .ok state := by
  induction values with
  | nil => rfl
  | cons head tail inductionHypothesis =>
      rw [List.foldlM_cons, unchanged head List.mem_cons_self]
      exact inductionHypothesis fun value member =>
        unchanged value (List.mem_cons_of_mem head member)

/-- A fold over lists in turn is a fold over all their values. -/
theorem foldlM_flatMap
    {step : σ → β → Except ε σ} {make : α → List β} (values : List α) (state : σ) :
    (values.flatMap make).foldlM step state =
      values.foldlM (fun reached value => (make value).foldlM step reached) state := by
  induction values generalizing state with
  | nil => rfl
  | cons head tail inductionHypothesis => simp [inductionHypothesis]

/-- A map that fails does so on one of its values. -/
theorem exists_error_of_mapM
    {operation : α → Except ε β} {values : List α} {error : ε}
    (failed : values.mapM operation = .error error) :
    ∃ value ∈ values, operation value = .error error := by
  induction values with
  | nil => cases failed
  | cons head tail inductionHypothesis =>
      rw [List.mapM_cons, bind_eq_error_iff] at failed
      rcases failed with headFailed | ⟨first, _, rest⟩
      · exact ⟨head, List.mem_cons_self, headFailed⟩
      · obtain ⟨value, member, valueFailed⟩ :=
          inductionHypothesis (bind_pure_eq_error_iff.mp rest)
        exact ⟨value, List.mem_cons_of_mem head member, valueFailed⟩

/-- A map whose operation succeeds on every value succeeds. -/
theorem exists_results_of_mapM
    {operation : α → Except ε β} {values : List α}
    (each : ∀ value ∈ values, ∃ result, operation value = .ok result) :
    ∃ results, values.mapM operation = .ok results := by
  cases mapped : values.mapM operation with
  | ok results => exact ⟨results, rfl⟩
  | error error =>
      obtain ⟨value, member, failed⟩ := exists_error_of_mapM mapped
      obtain ⟨result, valueOk⟩ := each value member
      rw [failed] at valueOk
      cases valueOk

/-- What every result of an operation meets, all results of a map meet. -/
theorem exists_results_all_of_mapM
    {operation : α → Except ε β} {meets : β → Prop} {values : List α}
    (each : ∀ value ∈ values, ∃ result, operation value = .ok result ∧ meets result) :
    ∃ results, values.mapM operation = .ok results ∧ ∀ result ∈ results, meets result := by
  obtain ⟨results, mapped⟩ := exists_results_of_mapM fun value member =>
    (each value member).imp fun _ both => both.1
  refine ⟨results, mapped, fun result inResults => ?_⟩
  obtain ⟨value, member, valueOk⟩ := exists_of_mem_mapM mapped inResults
  obtain ⟨same, sameOk, met⟩ := each value member
  rw [valueOk] at sameOk
  cases sameOk
  exact met

/-- Two maps agree, unless the first fails in a way in which its operation fails
where the two operations differ. -/
theorem mapM_eq_or_fails
    {left right : α → Except ε β} {fails : ε → Prop} {values : List α}
    (agree : ∀ value, left value = right value ∨
      ∃ error, fails error ∧ left value = .error error) :
    values.mapM left = values.mapM right ∨
      ∃ error, fails error ∧ values.mapM left = .error error := by
  induction values with
  | nil => exact Or.inl rfl
  | cons head tail inductionHypothesis =>
      rw [List.mapM_cons, List.mapM_cons]
      rcases agree head with same | ⟨error, failing, headFails⟩
      · rw [same]
        cases right head with
        | error error => exact Or.inl rfl
        | ok result =>
            rcases inductionHypothesis with sameTail | ⟨error, failing, tailFails⟩
            · rw [sameTail]
              exact Or.inl rfl
            · rw [tailFails]
              exact Or.inr ⟨error, failing, rfl⟩
      · rw [headFails]
        exact Or.inr ⟨error, failing, rfl⟩

/-- A fold that fails does so at one of its steps. -/
theorem exists_error_of_foldlM
    {step : σ → α → Except ε σ} {values : List α} {state : σ} {error : ε}
    (failed : values.foldlM step state = .error error) :
    ∃ value ∈ values, ∃ reached, step reached value = .error error := by
  induction values generalizing state with
  | nil => cases failed
  | cons head tail inductionHypothesis =>
      rw [List.foldlM_cons] at failed
      cases stepped : step state head with
      | error first =>
          rw [stepped] at failed
          cases failed
          exact ⟨head, List.mem_cons_self, state, stepped⟩
      | ok next =>
          rw [stepped] at failed
          obtain ⟨value, member, reached, valueFailed⟩ := inductionHypothesis failed
          exact ⟨value, List.mem_cons_of_mem head member, reached, valueFailed⟩

/-- Two computations both fail, with related errors, or both succeed, with
related results. -/
@[mk_iff]
inductive Alike (E : ε → ε → Prop) (R : α → α → Prop) : Except ε α → Except ε α → Prop
  | error {left right : ε} (related : E left right) : Alike E R (.error left) (.error right)
  | ok {left right : α} (related : R left right) : Alike E R (.ok left) (.ok right)

namespace Alike

variable {E : ε → ε → Prop} {R : σ → σ → Prop}

/-- Whatever comes first, it is the same if it is the same on both sides. -/
theorem bind
    (refl : ∀ error, E error error) (outcome : Except ε α) {left right : α → Except ε σ}
    (alike : ∀ value, Alike E R (left value) (right value)) :
    Alike E R (outcome >>= left) (outcome >>= right) := by
  cases outcome with
  | error error => exact .error (refl error)
  | ok value => exact alike value

/-- Folds whose steps are alike from related states on are alike. -/
theorem foldlM
    {left right : σ → α → Except ε σ}
    (step_alike : ∀ start other value, R start other →
      Alike E R (left start value) (right other value))
    (values : List α) {start other : σ} (related : R start other) :
    Alike E R (values.foldlM left start) (values.foldlM right other) := by
  induction values generalizing start other with
  | nil => exact .ok related
  | cons head tail inductionHypothesis =>
      rw [List.foldlM_cons, List.foldlM_cons]
      have stepped := step_alike start other head related
      generalize left start head = leftOutcome at stepped ⊢
      generalize right other head = rightOutcome at stepped ⊢
      cases stepped with
      | error same => exact .error same
      | ok headRelated => exact inductionHypothesis headRelated

theorem orArithmetic
    {left right : Except Fault σ}
    (alike : Alike Eq R left right) :
    Alike Eq R (orArithmetic left) (orArithmetic right) := by
  cases alike with
  | error same => exact .error (congrArg Error.arithmetic same)
  | ok related => exact .ok related

/-- Maps whose operations are alike on every value are alike. -/
theorem mapM
    {left right : α → Except ε σ} {values : List α}
    (alike : ∀ value ∈ values, Alike E R (left value) (right value)) :
    Alike E (List.Forall₂ R) (values.mapM left) (values.mapM right) := by
  induction values with
  | nil => exact .ok .nil
  | cons head tail inductionHypothesis =>
      rw [List.mapM_cons, List.mapM_cons]
      have headAlike := alike head List.mem_cons_self
      have tailAlike := inductionHypothesis fun value member =>
        alike value (List.mem_cons_of_mem head member)
      generalize left head = leftOutcome at headAlike ⊢
      generalize right head = rightOutcome at headAlike ⊢
      generalize tail.mapM left = leftRest at tailAlike ⊢
      generalize tail.mapM right = rightRest at tailAlike ⊢
      cases headAlike with
      | error same => exact .error same
      | ok headRelated =>
          cases tailAlike with
          | error same => exact .error same
          | ok tailRelated => exact .ok (.cons headRelated tailRelated)

end Alike

end

end MeshTasks
