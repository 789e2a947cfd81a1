import Mathlib.Data.List.Induction
import MeshTasks.Proofs.Producers.Lookup

/-!
# One notion of nearest

The lookups before an order, the lookup from an order on and the test for any
entry scan the same visible entries. Each scan keeps the entries at the least
distance from the order it is given, on its own side of it: the lookup of all
producers keeps them all, the single lookup the last of them and the lookup of
what follows the first. So a value has an entry exactly when one of the two
sides has a nearest one.
-/

namespace MeshTasks

/-! ## The nearest values of a list -/

section NearestBy

variable {α : Type} {distance : α → Int} {values : List α} {held : α}

/-- The values of a list at the least distance, each as often as it is
listed. -/
def nearestBy (distance : α → Int) (values : List α) : List α :=
  values.filter fun value => decide (∀ other ∈ values, distance value ≤ distance other)

private theorem mem_nearestBy {value : α} :
    value ∈ nearestBy distance values ↔
      value ∈ values ∧ ∀ other ∈ values, distance value ≤ distance other := by
  rw [nearestBy, List.mem_filter, decide_eq_true_eq]

/-- One more value takes the place of the nearest ones, joins them or leaves
them alone. -/
theorem nearestBy_concat
    (member : held ∈ nearestBy distance values)
    (value : α) :
    nearestBy distance (values ++ [value]) =
      (if distance value < distance held then [] else nearestBy distance values) ++
        (if distance held < distance value then [] else [value]) := by
  obtain ⟨inValues, least⟩ := mem_nearestBy.mp member
  have within : ∀ one, (∀ other ∈ values ++ [value], distance one ≤ distance other) ↔
      (∀ other ∈ values, distance one ≤ distance other) ∧ distance one ≤ distance value := by
    intro one
    simp only [List.mem_append, List.mem_singleton, or_imp, forall_and, forall_eq]
  unfold nearestBy
  rw [List.filter_append]
  congr 1
  · by_cases nearer : distance value < distance held
    · rw [if_pos nearer, List.filter_eq_nil_iff]
      intro one oneMember
      rw [decide_eq_true_eq, within]
      rintro ⟨_, atMost⟩
      have atLeast := least one oneMember
      omega
    · rw [if_neg nearer]
      refine List.filter_congr fun one oneMember => ?_
      rw [decide_eq_decide, within]
      refine ⟨And.left, fun oneLeast => ⟨oneLeast, ?_⟩⟩
      have atMost := oneLeast held inValues
      omega
  · by_cases farther : distance held < distance value
    · rw [if_pos farther, List.filter_eq_nil_iff]
      intro one isValue
      rw [List.mem_singleton.mp isValue, decide_eq_true_eq, within]
      rintro ⟨valueLeast, _⟩
      have atMost := valueLeast held inValues
      omega
    · rw [if_neg farther, List.filter_eq_self]
      intro one isValue
      rw [List.mem_singleton.mp isValue, decide_eq_true_eq, within]
      refine ⟨fun other otherMember => ?_, Int.le_refl _⟩
      have atLeast := least other otherMember
      omega

/-- A list with a value has a nearest one. -/
theorem nearestBy_eq_nil_iff : nearestBy distance values = [] ↔ values = [] := by
  refine ⟨fun none => ?_, fun empty => by rw [empty]; rfl⟩
  induction values using List.reverseRecOn with
  | nil => rfl
  | append_singleton front value inductionHypothesis =>
      exfalso
      cases nearest : nearestBy distance front with
      | nil =>
          rw [inductionHypothesis nearest] at none
          simp [nearestBy] at none
      | cons held others =>
          have member : held ∈ nearestBy distance front := nearest ▸ List.mem_cons_self
          rw [nearestBy_concat member, List.append_eq_nil_iff] at none
          obtain ⟨noneInFront, valueLeft⟩ := none
          by_cases nearer : distance value < distance held
          · rw [if_neg (by omega)] at valueLeft
            cases valueLeft
          · rw [if_neg nearer, nearest] at noneInFront
            cases noneInFront

end NearestBy

namespace ProducerIndex

variable {index : ProducerIndex} {key : ValueKey} {order : Nat} {entry : ProducerEntry}

/-- The entry is seen at the greatest order below the given one. -/
def IsNearestBefore (index : ProducerIndex) (key : ValueKey) (order : Nat)
    (entry : ProducerEntry) : Prop :=
  entry.order < order ∧
    ∀ other ∈ index.visible key, other.order < order → other.order ≤ entry.order

/-- The entry is seen at the least order that is not below the given one. -/
def IsNearestFrom (index : ProducerIndex) (key : ValueKey) (order : Nat)
    (entry : ProducerEntry) : Prop :=
  order ≤ entry.order ∧
    ∀ other ∈ index.visible key, order ≤ other.order → entry.order ≤ other.order

instance : Decidable (index.IsNearestBefore key order entry) :=
  inferInstanceAs (Decidable (_ ∧ _))

instance : Decidable (index.IsNearestFrom key order entry) :=
  inferInstanceAs (Decidable (_ ∧ _))

/-! ## The scan before an order -/

/-- How far before an order an entry stands. -/
def lead (order : Nat) (entry : ProducerEntry) : Int :=
  (order : Int) - entry.order

private theorem gatherNearer_nearestBy (order : Nat) (entries : List ProducerEntry)
    (entry : ProducerEntry) :
    gatherNearer (nearestBy (lead order) entries) entry =
      nearestBy (lead order) (entries ++ [entry]) := by
  cases nearest : nearestBy (lead order) entries with
  | nil =>
      rw [nearestBy_eq_nil_iff.mp nearest]
      simp [gatherNearer, nearestBy]
  | cons held others =>
      have member : held ∈ nearestBy (lead order) entries := nearest ▸ List.mem_cons_self
      rw [nearestBy_concat member, nearest]
      unfold gatherNearer lead
      rcases Nat.lt_trichotomy entry.order held.order with lower | same | higher
      · simp only [if_pos lower]
        rw [if_neg (by omega), if_pos (by omega), List.append_nil]
      · simp only [if_neg (Nat.not_lt_of_ge (Nat.le_of_eq same.symm)), if_pos same]
        rw [if_neg (by omega), if_neg (by omega)]
      · simp only [if_neg (Nat.lt_asymm higher), if_neg (Nat.ne_of_gt higher)]
        rw [if_pos (by omega), if_neg (by omega), List.nil_append]

/-- The lookup of all producers keeps the candidates nearest to the order. -/
theorem findAllProducers_eq_nearestBy (index : ProducerIndex) (key : ValueKey) (order : Nat) :
    index.findAllProducers key order = nearestBy (lead order) (index.candidates key order) := by
  rw [findAllProducers_eq]
  induction index.candidates key order using List.reverseRecOn with
  | nil => rfl
  | append_singleton front entry inductionHypothesis =>
      rw [List.foldl_append, inductionHypothesis, List.foldl_cons, gatherNearer_nearestBy]
      rfl

/-- The lookup of all producers selects from the visible entries. -/
theorem findAllProducers_eq_filter (index : ProducerIndex) (key : ValueKey) (order : Nat) :
    index.findAllProducers key order =
      (index.visible key).filter fun entry => decide (index.IsNearestBefore key order entry) := by
  rw [findAllProducers_eq_nearestBy, nearestBy, candidates, List.filter_filter]
  refine List.filter_congr fun entry _ => ?_
  rw [← Bool.decide_and, decide_eq_decide]
  simp only [List.mem_filter, decide_eq_true_eq, and_imp, lead, IsNearestBefore]
  constructor
  · rintro ⟨least, below⟩
    refine ⟨below, fun other member otherBelow => ?_⟩
    have atLeast := least other member otherBelow
    omega
  · rintro ⟨below, greatest⟩
    refine ⟨fun other member otherBelow => ?_, below⟩
    have atMost := greatest other member otherBelow
    omega

theorem findProducer?_eq_none_iff :
    index.findProducer? key order = none ↔ ∀ entry ∈ index.visible key, order ≤ entry.order := by
  rw [← getLast?_findAllProducers, List.getLast?_eq_none_iff, findAllProducers_eq_nearestBy,
    nearestBy_eq_nil_iff, candidates, List.filter_eq_nil_iff]
  simp only [decide_eq_true_eq, Nat.not_lt]

/-! ## The scan from an order on -/

/-- The sooner of an entry and the soonest so far; of two at one order, the one
so far. -/
def sooner (best : Option ProducerEntry) (entry : ProducerEntry) : Option ProducerEntry :=
  match best with
  | none => some entry
  | some held => if entry.order < held.order then some entry else some held

/-- The entries that a lookup from an order on chooses from. -/
def followers (index : ProducerIndex) (key : ValueKey) (order : Nat) : List ProducerEntry :=
  (index.visible key).filter fun entry => decide (order ≤ entry.order)

private theorem findFollowing?_eq (index : ProducerIndex) (key : ValueKey) (order : Nat) :
    index.findFollowing? key order = (index.followers key order).foldl sooner none :=
  rfl

/-- How far after an order an entry stands. -/
def lag (order : Nat) (entry : ProducerEntry) : Int :=
  (entry.order : Int) - order

private theorem sooner_head?_nearestBy (order : Nat) (entries : List ProducerEntry)
    (entry : ProducerEntry) :
    sooner (nearestBy (lag order) entries).head? entry =
      (nearestBy (lag order) (entries ++ [entry])).head? := by
  cases nearest : nearestBy (lag order) entries with
  | nil =>
      rw [nearestBy_eq_nil_iff.mp nearest]
      simp [sooner, nearestBy]
  | cons held others =>
      have member : held ∈ nearestBy (lag order) entries := nearest ▸ List.mem_cons_self
      rw [nearestBy_concat member, nearest]
      unfold sooner lag
      rw [List.head?_cons]
      dsimp only
      by_cases lower : entry.order < held.order
      · rw [if_pos lower, if_pos (by omega), if_neg (by omega)]
        rfl
      · rw [if_neg lower, if_neg (by omega)]
        rfl

/-- The lookup of what follows keeps the first of the entries nearest to the
order. -/
theorem findFollowing?_eq_head? (index : ProducerIndex) (key : ValueKey) (order : Nat) :
    index.findFollowing? key order =
      (nearestBy (lag order) (index.followers key order)).head? := by
  rw [findFollowing?_eq]
  induction index.followers key order using List.reverseRecOn with
  | nil => rfl
  | append_singleton front entry inductionHypothesis =>
      rw [List.foldl_append, inductionHypothesis, List.foldl_cons, sooner_head?_nearestBy]
      rfl

theorem findFollowing?_spec
    (found : index.findFollowing? key order = some entry) :
    entry ∈ index.visible key ∧ index.IsNearestFrom key order entry := by
  rw [findFollowing?_eq_head?] at found
  obtain ⟨follows, least⟩ := mem_nearestBy.mp (List.mem_of_head? found)
  simp only [followers, List.mem_filter, decide_eq_true_eq, and_imp, lag] at follows least
  refine ⟨follows.1, follows.2, fun other member otherFollows => ?_⟩
  have atLeast := least other member otherFollows
  omega

theorem findFollowing?_eq_none_iff :
    index.findFollowing? key order = none ↔ ∀ entry ∈ index.visible key, entry.order < order := by
  rw [findFollowing?_eq_head?, List.head?_eq_none_iff, nearestBy_eq_nil_iff, followers,
    List.filter_eq_nil_iff]
  simp only [decide_eq_true_eq, Nat.not_le]

/-! ## The lookups together -/

theorem produces_eq_true_iff : index.produces key = true ↔ ∃ entry, entry ∈ index.visible key := by
  rw [produces, Bool.not_eq_true', List.isEmpty_eq_false_iff_exists_mem]

/-- The lookup of all producers finds the visible entries at the greatest order
below the given one, in the order in which they are seen. The single lookup
finds one of them, and nothing only if there is none. The lookup of what follows
finds an entry at the least order from the given one on, and nothing only if
there is none. A value is produced exactly when one of the two finds an
entry. -/
theorem lookups_agree (index : ProducerIndex) (key : ValueKey) (order : Nat) :
    index.findAllProducers key order =
        (index.visible key).filter
          (fun entry => decide (index.IsNearestBefore key order entry)) ∧
      (∀ entry, index.findProducer? key order = some entry →
          entry ∈ index.findAllProducers key order) ∧
        (index.findProducer? key order = none ↔
            ∀ entry ∈ index.visible key, ¬ entry.order < order) ∧
          (∀ entry, index.findFollowing? key order = some entry →
              entry ∈ index.visible key ∧ index.IsNearestFrom key order entry) ∧
            (index.findFollowing? key order = none ↔
                ∀ entry ∈ index.visible key, ¬ order ≤ entry.order) ∧
              (index.produces key = true ↔
                (index.findProducer? key order).isSome ∨
                  (index.findFollowing? key order).isSome) := by
  refine ⟨findAllProducers_eq_filter index key order, fun entry found => ?_, ?_,
    fun entry => findFollowing?_spec, ?_, ?_⟩
  · rw [← getLast?_findAllProducers] at found
    exact List.mem_of_getLast? found
  · simp only [findProducer?_eq_none_iff, Nat.not_lt]
  · simp only [findFollowing?_eq_none_iff, Nat.not_le]
  · rw [produces_eq_true_iff, Option.isSome_iff_ne_none, Option.isSome_iff_ne_none, Ne, Ne,
      findProducer?_eq_none_iff, findFollowing?_eq_none_iff]
    constructor
    · rintro ⟨entry, member⟩
      by_cases below : entry.order < order
      · exact Or.inl fun allFrom => Nat.not_lt_of_ge (allFrom entry member) below
      · exact Or.inr fun allBelow => below (allBelow entry member)
    · rintro (notFrom | notBelow)
      · obtain ⟨entry, isBefore⟩ := Classical.not_forall.mp notFrom
        exact ⟨entry, (Classical.not_imp.mp isBefore).1⟩
      · obtain ⟨entry, follows⟩ := Classical.not_forall.mp notBelow
        exact ⟨entry, (Classical.not_imp.mp follows).1⟩

end ProducerIndex

end MeshTasks
