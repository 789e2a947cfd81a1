import MeshTasks.Producers

/-!
# What lookups find

A lookup before an order chooses among its candidates, the visible entries of
lower order. The single lookup finds a candidate of the greatest order, and
finds one if there is any; every result of the lookup of all producers is a
candidate.
-/

namespace MeshTasks

namespace ProducerIndex

variable {index : ProducerIndex} {key : ValueKey} {order : Nat} {entry : ProducerEntry}

theorem mem_entriesAt :
    entry ∈ index.entriesAt key ↔ ⟨key, entry⟩ ∈ index.recordings := by
  unfold entriesAt
  rw [List.mem_map]
  constructor
  · rintro ⟨recording, member, rfl⟩
    obtain ⟨recorded, sameKey⟩ := List.mem_filter.mp member
    exact (of_decide_eq_true sameKey) ▸ recorded
  · intro recorded
    exact ⟨⟨key, entry⟩, List.mem_filter.mpr ⟨recorded, decide_eq_true rfl⟩, rfl⟩

theorem mem_visible :
    entry ∈ index.visible key ↔
      ⟨key, entry⟩ ∈ index.recordings ∨
        ⟨{ key with region := none }, entry⟩ ∈ index.recordings := by
  obtain ⟨label, region, material⟩ := key
  cases region with
  | none => simp only [visible, List.nil_append, mem_entriesAt, or_self]
  | some region => simp only [visible, List.mem_append, mem_entriesAt]

theorem exists_recording_of_mem_visible
    (visible : entry ∈ index.visible key) :
    ∃ recorded, (⟨recorded, entry⟩ : Recording) ∈ index.recordings := by
  rcases mem_visible.mp visible with regional | global
  · exact ⟨key, regional⟩
  · exact ⟨_, global⟩

/-- The nearer to a consumer of an entry and the nearest so far; of two at one
order, the entry. -/
def nearer (best : Option ProducerEntry) (entry : ProducerEntry) : Option ProducerEntry :=
  match best with
  | none => some entry
  | some held => if entry.order < held.order then some held else some entry

/-- The entries that a lookup before an order chooses from. -/
def candidates (index : ProducerIndex) (key : ValueKey) (order : Nat) : List ProducerEntry :=
  (index.visible key).filter fun entry => decide (entry.order < order)

theorem mem_candidates :
    entry ∈ index.candidates key order ↔ entry ∈ index.visible key ∧ entry.order < order := by
  rw [candidates, List.mem_filter, decide_eq_true_eq]

theorem findProducer?_eq (index : ProducerIndex) (key : ValueKey) (order : Nat) :
    index.findProducer? key order = (index.candidates key order).foldl nearer none :=
  rfl

private theorem foldl_nearer_eq_some
    {entries : List ProducerEntry} {best : Option ProducerEntry} {nearest : ProducerEntry}
    (folded : entries.foldl nearer best = some nearest) :
    (best = some nearest ∨ nearest ∈ entries) ∧
      (∀ held, best = some held → held.order ≤ nearest.order) ∧
        ∀ other ∈ entries, other.order ≤ nearest.order := by
  induction entries generalizing best with
  | nil =>
      rw [List.foldl_nil] at folded
      refine ⟨Or.inl folded, fun held bestEq => ?_, fun _ member => absurd member List.not_mem_nil⟩
      rw [folded] at bestEq
      cases bestEq
      exact Nat.le_refl _
  | cons head tail inductionHypothesis =>
      rw [List.foldl_cons] at folded
      obtain ⟨found, nextBelow, tailBelow⟩ := inductionHypothesis folded
      -- Whichever of the two is kept, neither has a greater order.
      have kept :
          ∃ next, nearer best head = some next ∧ (best = some next ∨ next = head) ∧
            head.order ≤ next.order ∧ ∀ held, best = some held → held.order ≤ next.order := by
        cases best with
        | none => exact ⟨head, rfl, Or.inr rfl, Nat.le_refl _, nofun⟩
        | some held =>
            unfold nearer
            by_cases headLower : head.order < held.order
            · refine ⟨held, if_pos headLower, Or.inl rfl, Nat.le_of_lt headLower, ?_⟩
              intro other same
              cases same
              exact Nat.le_refl _
            · refine ⟨head, if_neg headLower, Or.inr rfl, Nat.le_refl _, ?_⟩
              intro other same
              cases same
              exact Nat.le_of_not_lt headLower
      obtain ⟨next, nextEq, nextFrom, headBelow, bestBelow⟩ := kept
      have nextLower := nextBelow next nextEq
      refine ⟨?_, fun held bestEq => Nat.le_trans (bestBelow held bestEq) nextLower, ?_⟩
      · rcases found with atNext | inTail
        · rw [nextEq] at atNext
          cases atNext
          rcases nextFrom with fromBest | atHead
          · exact Or.inl fromBest
          · exact Or.inr (atHead ▸ List.mem_cons_self)
        · exact Or.inr (List.mem_cons_of_mem head inTail)
      · intro other member
        rcases List.mem_cons.mp member with same | inTail
        · exact same ▸ Nat.le_trans headBelow nextLower
        · exact tailBelow other inTail

private theorem foldl_nearer_isSome
    (entries : List ProducerEntry) (best : Option ProducerEntry)
    (present : best.isSome ∨ entries ≠ []) :
    (entries.foldl nearer best).isSome := by
  induction entries generalizing best with
  | nil => exact present.resolve_right fun notNil => notNil rfl
  | cons head tail inductionHypothesis =>
      rw [List.foldl_cons]
      apply inductionHypothesis
      left
      cases best with
      | none => rfl
      | some held =>
          unfold nearer
          by_cases headLower : head.order < held.order
          · simp only [if_pos headLower, Option.isSome_some]
          · simp only [if_neg headLower, Option.isSome_some]

/-- The single lookup finds a candidate of the greatest order. -/
theorem findProducer?_spec
    (found : index.findProducer? key order = some entry) :
    entry ∈ index.candidates key order ∧
      ∀ other ∈ index.candidates key order, other.order ≤ entry.order := by
  rw [findProducer?_eq] at found
  obtain ⟨member, _, greatest⟩ := foldl_nearer_eq_some found
  exact ⟨member.resolve_left nofun, greatest⟩

theorem findProducer?_isSome
    {candidate : ProducerEntry}
    (member : candidate ∈ index.candidates key order) :
    ∃ found, index.findProducer? key order = some found := by
  rw [findProducer?_eq, ← Option.isSome_iff_exists]
  exact foldl_nearer_isSome _ none (Or.inr (List.ne_nil_of_mem member))

/-- Two orders with no visible entry between them are the same to a lookup. -/
theorem findProducer?_congr
    {lower upper : Nat}
    (ordered : lower ≤ upper)
    (noneBetween : ∀ entry ∈ index.visible key, entry.order < upper → entry.order < lower) :
    index.findProducer? key upper = index.findProducer? key lower := by
  have sameCandidates : index.candidates key upper = index.candidates key lower := by
    apply List.filter_congr
    intro entry member
    rw [decide_eq_decide]
    exact ⟨noneBetween entry member, fun below => Nat.lt_of_lt_of_le below ordered⟩
  rw [findProducer?_eq, findProducer?_eq, sameCandidates]

private theorem mem_or_mem_of_mem_foldl
    {α : Type} {step : List α → α → List α} {member : α}
    (step_mem : ∀ held value, member ∈ step held value → member ∈ held ∨ member = value)
    (values held : List α)
    (folded : member ∈ values.foldl step held) :
    member ∈ held ∨ member ∈ values := by
  induction values generalizing held with
  | nil => exact Or.inl folded
  | cons head tail inductionHypothesis =>
      rcases inductionHypothesis _ folded with inNext | inTail
      · rcases step_mem held head inNext with inHeld | atHead
        · exact Or.inl inHeld
        · exact Or.inr (atHead ▸ List.mem_cons_self)
      · exact Or.inr (List.mem_cons_of_mem head inTail)

private theorem mem_candidates_of_mem_findAllProducers
    (found : entry ∈ index.findAllProducers key order) :
    entry ∈ index.candidates key order := by
  refine (mem_or_mem_of_mem_foldl ?_ _ _ found).resolve_left List.not_mem_nil
  intro held next inNext
  cases held with
  | nil => exact Or.inr (List.mem_singleton.mp inNext)
  | cons first others =>
      dsimp only at inNext
      by_cases lower : next.order < first.order
      · rw [if_pos lower] at inNext
        exact Or.inl inNext
      · rw [if_neg lower] at inNext
        by_cases same : next.order = first.order
        · rw [if_pos same] at inNext
          rcases List.mem_append.mp inNext with inHeld | atNext
          · exact Or.inl inHeld
          · exact Or.inr (List.mem_singleton.mp atNext)
        · rw [if_neg same] at inNext
          exact Or.inr (List.mem_singleton.mp inNext)

/-- The nearest entries so far, all at one order, with an entry taken in. -/
def gatherNearer (best : List ProducerEntry) (entry : ProducerEntry) : List ProducerEntry :=
  match best with
  | [] => [entry]
  | held :: others =>
      if entry.order < held.order then
        held :: others
      else if entry.order = held.order then
        held :: others ++ [entry]
      else
        [entry]

theorem findAllProducers_eq (index : ProducerIndex) (key : ValueKey) (order : Nat) :
    index.findAllProducers key order = (index.candidates key order).foldl gatherNearer [] :=
  rfl

/-- What is kept stays at one order, and its last entry is what the single
lookup would keep. -/
private theorem gatherNearer_spec
    {best : List ProducerEntry}
    (level : ∀ left ∈ best, ∀ right ∈ best, left.order = right.order)
    (entry : ProducerEntry) :
    (∀ left ∈ gatherNearer best entry, ∀ right ∈ gatherNearer best entry,
        left.order = right.order) ∧
      (gatherNearer best entry).getLast? = nearer best.getLast? entry := by
  cases best with
  | nil => simp [gatherNearer, nearer]
  | cons held others =>
      obtain ⟨last, lastEq⟩ : ∃ last, (held :: others).getLast? = some last :=
        ⟨_, List.getLast?_cons⟩
      have lastOrder : last.order = held.order :=
        level last (List.mem_of_getLast? lastEq) held List.mem_cons_self
      rw [lastEq]
      unfold gatherNearer nearer
      dsimp only
      rw [lastOrder]
      by_cases lower : entry.order < held.order
      · rw [if_pos lower, if_pos lower]
        exact ⟨level, lastEq⟩
      · rw [if_neg lower, if_neg lower]
        by_cases same : entry.order = held.order
        · rw [if_pos same]
          have atHeld : ∀ one ∈ held :: others ++ [entry], one.order = held.order := by
            intro one member
            rcases List.mem_append.mp member with inBest | atEnd
            · exact level one inBest held List.mem_cons_self
            · rw [List.mem_singleton.mp atEnd, same]
          refine ⟨fun left leftMember right rightMember => ?_, List.getLast?_concat⟩
          exact (atHeld left leftMember).trans (atHeld right rightMember).symm
        · simp [if_neg same]

private theorem foldl_gatherNearer_spec
    (entries best : List ProducerEntry)
    (level : ∀ left ∈ best, ∀ right ∈ best, left.order = right.order) :
    (∀ left ∈ entries.foldl gatherNearer best, ∀ right ∈ entries.foldl gatherNearer best,
        left.order = right.order) ∧
      (entries.foldl gatherNearer best).getLast? = entries.foldl nearer best.getLast? := by
  induction entries generalizing best with
  | nil => exact ⟨level, rfl⟩
  | cons head tail inductionHypothesis =>
      obtain ⟨nextLevel, nextLast⟩ := gatherNearer_spec level head
      rw [List.foldl_cons, List.foldl_cons, ← nextLast]
      exact inductionHypothesis _ nextLevel

/-- The single lookup finds the last of what the lookup of all producers
finds. -/
theorem getLast?_findAllProducers (index : ProducerIndex) (key : ValueKey) (order : Nat) :
    (index.findAllProducers key order).getLast? = index.findProducer? key order := by
  rw [findAllProducers_eq, findProducer?_eq]
  exact (foldl_gatherNearer_spec _ [] (by simp)).2

/-- All that the lookup of all producers finds is a candidate of the greatest
order. -/
theorem findAllProducers_spec
    (found : entry ∈ index.findAllProducers key order) :
    entry ∈ index.candidates key order ∧
      ∀ other ∈ index.candidates key order, other.order ≤ entry.order := by
  refine ⟨mem_candidates_of_mem_findAllProducers found, ?_⟩
  have level :
      ∀ left ∈ index.findAllProducers key order, ∀ right ∈ index.findAllProducers key order,
        left.order = right.order := by
    rw [findAllProducers_eq]
    exact (foldl_gatherNearer_spec _ [] (by simp)).1
  have lastEq := List.getLast?_eq_some_getLast (List.ne_nil_of_mem found)
  have sameOrder := level entry found _ (List.mem_of_getLast? lastEq)
  rw [getLast?_findAllProducers] at lastEq
  rw [sameOrder]
  exact (findProducer?_spec lastEq).2

end ProducerIndex

end MeshTasks
