/-!
# Ordered sets

An ordered set is a list of values in strictly ascending rank. Its members are
therefore listed once each and in one order only, so two sets with the same
members are equal.
-/

namespace MeshTasks

/-- Values that are told apart and ordered by a number. -/
class Ranked (α : Type) where
  rank : α → Nat
  rank_injective : ∀ {left right : α}, rank left = rank right → left = right

export Ranked (rank)

/-- Values in strictly ascending rank are listed once each. -/
theorem Ranked.nodup_of_ascending {α : Type} [Ranked α] {values : List α}
    (ascending : values.Pairwise (fun left right => rank left < rank right)) : values.Nodup :=
  ascending.imp fun less same => Nat.ne_of_lt less (congrArg rank same)

@[ext]
structure OrderedSet (α : Type) [Ranked α] where
  toList : List α
  ascending : toList.Pairwise (fun left right => rank left < rank right)

namespace OrderedSet

variable {α : Type} [Ranked α]

instance [DecidableEq α] : DecidableEq (OrderedSet α) :=
  fun left right => decidable_of_iff (left.toList = right.toList) OrderedSet.ext_iff.symm

/-- Puts a value at its place in an ascending list that may already hold it. -/
def place (value : α) : List α → List α
  | [] => [value]
  | head :: tail =>
      if rank value < rank head then
        value :: head :: tail
      else if rank value = rank head then
        head :: tail
      else
        head :: place value tail

theorem mem_place {value member : α} {values : List α} :
    member ∈ place value values ↔ member = value ∨ member ∈ values := by
  induction values with
  | nil => simp [place]
  | cons head tail inductionHypothesis =>
      unfold place
      split
      · simp
      · split
        · rename_i sameRank
          have same : value = head := Ranked.rank_injective sameRank
          subst same
          simp
        · simp only [List.mem_cons, inductionHypothesis]
          exact or_left_comm

theorem ascending_place {value : α} {values : List α}
    (ascending : values.Pairwise (fun left right => rank left < rank right)) :
    (place value values).Pairwise (fun left right => rank left < rank right) := by
  induction values with
  | nil => simp [place]
  | cons head tail inductionHypothesis =>
      have headBelow := (List.pairwise_cons.mp ascending).1
      have tailAscending := (List.pairwise_cons.mp ascending).2
      unfold place
      split
      · rename_i below
        refine List.pairwise_cons.mpr ⟨fun member memberOf => ?_, ascending⟩
        rcases List.mem_cons.mp memberOf with same | inTail
        · exact same ▸ below
        · exact Nat.lt_trans below (headBelow member inTail)
      · split
        · exact ascending
        · rename_i notBelow notSame
          refine List.pairwise_cons.mpr
            ⟨fun member memberOf => ?_, inductionHypothesis tailAscending⟩
          rcases mem_place.mp memberOf with same | inTail
          · subst same
            omega
          · exact headBelow member inTail

def empty : OrderedSet α := ⟨[], .nil⟩

instance : Inhabited (OrderedSet α) := ⟨empty⟩

/-- The set with one more member. -/
def insert (set : OrderedSet α) (value : α) : OrderedSet α :=
  ⟨place value set.toList, ascending_place set.ascending⟩

/-- The set of the values of a list. -/
def ofList (values : List α) : OrderedSet α :=
  values.foldl insert empty

instance : Membership α (OrderedSet α) := ⟨fun set value => value ∈ set.toList⟩

instance [DecidableEq α] (value : α) (set : OrderedSet α) : Decidable (value ∈ set) :=
  inferInstanceAs (Decidable (value ∈ set.toList))

def contains [DecidableEq α] (set : OrderedSet α) (value : α) : Bool :=
  decide (value ∈ set)

def size (set : OrderedSet α) : Nat := set.toList.length

def isEmpty (set : OrderedSet α) : Bool := set.toList.isEmpty

/-- The members that pass a test. -/
def filter (set : OrderedSet α) (test : α → Bool) : OrderedSet α :=
  ⟨set.toList.filter test, set.ascending.filter test⟩

theorem mem_iff {value : α} {set : OrderedSet α} : value ∈ set ↔ value ∈ set.toList :=
  Iff.rfl

theorem mem_insert {value member : α} {set : OrderedSet α} :
    member ∈ set.insert value ↔ member = value ∨ member ∈ set :=
  mem_place

theorem mem_ofList {values : List α} {member : α} : member ∈ ofList values ↔ member ∈ values := by
  have started : ∀ (rest : List α) (set : OrderedSet α),
      member ∈ rest.foldl insert set ↔ member ∈ set ∨ member ∈ rest := by
    intro rest
    induction rest with
    | nil => simp
    | cons head tail inductionHypothesis =>
        intro set
        rw [List.foldl_cons, inductionHypothesis, mem_insert, List.mem_cons]
        constructor
        · rintro ((same | inSet) | inTail)
          · exact Or.inr (Or.inl same)
          · exact Or.inl inSet
          · exact Or.inr (Or.inr inTail)
        · rintro (inSet | same | inTail)
          · exact Or.inl (Or.inr inSet)
          · exact Or.inl (Or.inl same)
          · exact Or.inr inTail
  rw [ofList, started]
  constructor
  · rintro (inEmpty | inValues)
    · exact absurd inEmpty List.not_mem_nil
    · exact inValues
  · exact Or.inr

theorem mem_filter {value : α} {set : OrderedSet α} {test : α → Bool} :
    value ∈ set.filter test ↔ value ∈ set ∧ test value = true :=
  List.mem_filter

end OrderedSet

end MeshTasks
