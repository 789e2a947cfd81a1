import MeshTasks.Proofs.Producers.Nearest
import MeshTasks.Proofs.Producers.Recording

/-!
# Ties between producers

Contributions are recorded one after the other, and the index lists what they
record in that order. A lookup does not see it so: it sees what was recorded for
its region first and what was recorded for the whole domain behind it, whenever
either was recorded. Of several entries at the nearest order the single lookup
takes the last one it sees. This is the one recorded last for the whole domain
if there is one, and only without any the one recorded last of all.
-/

namespace MeshTasks

/-- An access of an item of a graph, by which the item produces values. -/
structure Contribution where
  graph : TaskGraph
  item : Nat
  access : Access

/-- What a contribution records, if nothing stands against it. -/
def Contribution.recordings (contribution : Contribution) : List Recording :=
  recordingsOf contribution.graph (contribution.item, contribution.access)

/-- A lookup of the key sees the recording. -/
def Recording.IsSeen (key : ValueKey) (recording : Recording) : Prop :=
  recording.key = key ∨ recording.key = { key with region := none }

instance (key : ValueKey) (recording : Recording) : Decidable (recording.IsSeen key) :=
  inferInstanceAs (Decidable (_ ∨ _))

/-- The recording is about the whole domain. -/
def Recording.isAcross (recording : Recording) : Bool :=
  recording.key.region.isNone

private theorem getLast?_filter_append_filter
    {α : Type} (test : α → Bool) (values : List α) :
    (values.filter (fun value => !test value) ++ values.filter test).getLast? =
      (values.filter test).getLast?.or values.getLast? := by
  rw [List.getLast?_append]
  cases passed : values.filter test with
  | nil =>
      have allFail : values.filter (fun value => !test value) = values := by
        rw [List.filter_eq_self]
        intro value member
        rw [Bool.not_eq_true']
        exact Bool.eq_false_iff.mpr (List.filter_eq_nil_iff.mp passed value member)
      rw [allFail, List.getLast?_nil, Option.none_or]
  | cons head tail => simp [List.getLast?_cons]

namespace ProducerIndex

/-- Records contributions one after the other. -/
def recordEach (index : ProducerIndex) (contributions : List Contribution) :
    Except (Halted ProducerIndex) ProducerIndex :=
  contributions.foldlM
    (fun reached contribution =>
      reached.record contribution.graph contribution.item contribution.access)
    index

/-- What a lookup of the key before an order chooses from, oldest first: the
recordings it sees whose entry is nearest to the order. -/
def contenders (index : ProducerIndex) (key : ValueKey) (order : Nat) : List Recording :=
  index.recordings.filter fun recording =>
    decide (recording.IsSeen key) && decide (index.IsNearestBefore key order recording.entry)

/-- The contender that was recorded last. -/
def latest? (index : ProducerIndex) (key : ValueKey) (order : Nat) : Option Recording :=
  (index.contenders key order).getLast?

/-- The contender that was recorded last for the whole domain. -/
def latestAcross? (index : ProducerIndex) (key : ValueKey) (order : Nat) : Option Recording :=
  ((index.contenders key order).filter Recording.isAcross).getLast?

/-! ## What recording adds -/

private theorem recordings_of_foldlM
    {α : Type} {step : ProducerIndex → α → Except (Halted ProducerIndex) ProducerIndex}
    {added : α → List Recording}
    (step_adds : ∀ index value next, step index value = .ok next →
      next.recordings = index.recordings ++ added value)
    {values : List α} {index final : ProducerIndex}
    (folded : values.foldlM step index = .ok final) :
    final.recordings = index.recordings ++ values.flatMap added := by
  induction values generalizing index with
  | nil =>
      cases folded
      rw [List.flatMap_nil, List.append_nil]
  | cons head tail inductionHypothesis =>
      rw [List.foldlM_cons, bind_eq_ok_iff] at folded
      obtain ⟨next, headOk, tailOk⟩ := folded
      rw [inductionHypothesis tailOk, step_adds index head next headOk, List.flatMap_cons,
        List.append_assoc]

private theorem recordings_of_recordKey
    {graph : TaskGraph} {id : Nat} {producer : WorkItem} {access : Access} {key : ValueKey}
    {index next : ProducerIndex}
    (recorded : recordKey graph id producer access index key = .ok next) :
    next.recordings = index.recordings ++ [⟨key, id, producer.order, access.mode⟩] := by
  unfold recordKey at recorded
  split at recorded
  · cases recorded
  · cases recorded
    rfl

/-- A record that succeeds adds what its access produces, and nothing else. -/
theorem recordings_of_record
    {contribution : Contribution} {index next : ProducerIndex}
    (recorded :
      index.record contribution.graph contribution.item contribution.access = .ok next) :
    next.recordings = index.recordings ++ contribution.recordings := by
  unfold record at recorded
  unfold Contribution.recordings recordingsOf
  split at recorded
  · rename_i noItem
    cases recorded
    simp [noItem]
  · rename_i producer producerAt
    simp only [producerAt, List.map_eq_flatMap]
    refine recordings_of_foldlM ?_ recorded
    exact fun _ _ _ => recordings_of_recordKey

private theorem recordings_of_recordEach
    {contributions : List Contribution} {index final : ProducerIndex}
    (recorded : index.recordEach contributions = .ok final) :
    final.recordings = index.recordings ++ contributions.flatMap Contribution.recordings := by
  unfold recordEach at recorded
  refine recordings_of_foldlM ?_ recorded
  exact fun _ _ _ => recordings_of_record

/-! ## The last one seen -/

variable {index : ProducerIndex} {key : ValueKey} {order : Nat}

private theorem filter_entriesAt (test : ProducerEntry → Bool) :
    (index.entriesAt key).filter test =
      (index.recordings.filter fun recording =>
        decide (recording.key = key) && test recording.entry).map Recording.entry := by
  rw [entriesAt, List.filter_map, List.filter_filter]
  congr 1
  refine List.filter_congr fun recording _ => ?_
  rw [Bool.and_comm]
  rfl

/-- What a lookup chooses from is seen in two parts: first the contenders of the
region, then those of the whole domain. -/
private theorem filter_visible_eq (index : ProducerIndex) (key : ValueKey) (order : Nat) :
    (index.visible key).filter
        (fun entry => decide (index.IsNearestBefore key order entry)) =
      ((index.contenders key order).filter (fun recording => !recording.isAcross) ++
        (index.contenders key order).filter Recording.isAcross).map Recording.entry := by
  have across :
      (index.entriesAt { key with region := none }).filter
          (fun entry => decide (index.IsNearestBefore key order entry)) =
        ((index.contenders key order).filter Recording.isAcross).map Recording.entry := by
    rw [filter_entriesAt, contenders, List.filter_filter]
    congr 1
    refine List.filter_congr fun recording _ => ?_
    rw [Bool.eq_iff_iff]
    simp only [Bool.and_eq_true, decide_eq_true_eq, Recording.isAcross, Option.isNone_iff_eq_none,
      ← and_assoc]
    unfold Recording.IsSeen
    refine and_congr_left fun _ => ⟨fun isKey => ⟨by rw [isKey], Or.inr isKey⟩, ?_⟩
    rintro ⟨noRegion, isKey | isKey⟩
    · rw [isKey] at noRegion ⊢
      rw [← noRegion]
    · exact isKey
  rw [visible, List.filter_append, List.map_append, across]
  congr 1
  cases atRegion : key.region with
  | none =>
      have noneWithin :
          (index.contenders key order).filter (fun recording => !recording.isAcross) = [] := by
        rw [List.filter_eq_nil_iff]
        intro recording member within
        simp only [contenders, List.mem_filter, Bool.and_eq_true, decide_eq_true_eq] at member
        rcases member.2.1 with isKey | isKey
        · simp [Recording.isAcross, isKey, atRegion] at within
        · simp [Recording.isAcross, isKey] at within
      rw [noneWithin]
      rfl
  | some region =>
      dsimp only
      rw [filter_entriesAt, contenders, List.filter_filter]
      congr 1
      refine List.filter_congr fun recording _ => ?_
      rw [Bool.eq_iff_iff]
      simp only [Bool.and_eq_true, decide_eq_true_eq, Recording.isAcross, Bool.not_eq_true',
        Option.isNone_eq_false_iff, ← and_assoc]
      unfold Recording.IsSeen
      refine and_congr_left fun _ => ⟨fun isKey => ⟨by rw [isKey, atRegion]; rfl, Or.inl isKey⟩, ?_⟩
      rintro ⟨hasRegion, isKey | isKey⟩
      · exact isKey
      · rw [isKey] at hasRegion
        cases hasRegion

/-- The single lookup prefers the whole domain. -/
theorem findProducer?_eq_latest (index : ProducerIndex) (key : ValueKey) (order : Nat) :
    index.findProducer? key order =
      ((index.latestAcross? key order).or (index.latest? key order)).map Recording.entry := by
  rw [← getLast?_findAllProducers, findAllProducers_eq_filter, filter_visible_eq,
    List.getLast?_map, getLast?_filter_append_filter]
  rfl

/-- After contributions were recorded, the index lists what they record in their
order. Of the entries that are nearest before an order the single lookup takes
the one recorded last for the whole domain, and without any the one recorded
last. So it takes the one recorded last exactly when no contender is about the
whole domain, or the last of these tells the same as the last of all. -/
theorem findProducer?_of_recordEach
    {contributions : List Contribution}
    (recorded : empty.recordEach contributions = .ok index)
    (key : ValueKey) (order : Nat) :
    index.recordings = contributions.flatMap Contribution.recordings ∧
      index.findProducer? key order =
          ((index.latestAcross? key order).or (index.latest? key order)).map Recording.entry ∧
        (index.findProducer? key order = (index.latest? key order).map Recording.entry ↔
          index.latestAcross? key order = none ∨
            (index.latestAcross? key order).map Recording.entry =
              (index.latest? key order).map Recording.entry) := by
  have found := findProducer?_eq_latest index key order
  refine ⟨recordings_of_recordEach recorded, found, ?_⟩
  rw [found]
  cases index.latestAcross? key order with
  | none => simp
  | some across => simp

end ProducerIndex

/-! ## Two items of one unit -/

namespace Tie

def density : Label := ⟨"density", .cell⟩

def item (process : UInt32) (regions : List RegionId) : WorkItem where
  origin := .unit 0
  name := "advance"
  regions := regions
  materials := none
  process := ⟨process⟩
  order := 0
  phase := none

/-- The first item has no region, so what it computes concerns the whole
domain. -/
def graph : TaskGraph :=
  ⟨[item 0 [], item 1 [⟨4⟩]], []⟩

def contribution (item : Nat) : Contribution :=
  ⟨graph, item, { Access.of density with mode := .computes }⟩

def key : ValueKey :=
  ⟨density, some ⟨4⟩, none⟩

def within : Recording :=
  ⟨key, 1, 0, .computes⟩

def across : Recording :=
  ⟨{ key with region := none }, 0, 0, .computes⟩

end Tie

theorem findProducer?_of_recordEach_tie :
    ProducerIndex.empty.recordEach [Tie.contribution 1, Tie.contribution 0] =
        .ok ⟨[Tie.within, Tie.across]⟩ ∧
      (ProducerIndex.mk [Tie.within, Tie.across]).latest? Tie.key 1 = some Tie.across ∧
        (ProducerIndex.mk [Tie.within, Tie.across]).findProducer? Tie.key 1 =
          some Tie.across.entry := by
  have recorded :
      ProducerIndex.empty.recordEach [Tie.contribution 1, Tie.contribution 0] =
        .ok ⟨[Tie.within, Tie.across]⟩ := rfl
  have latest :
      (ProducerIndex.mk [Tie.within, Tie.across]).latest? Tie.key 1 = some Tie.across := by
    decide
  obtain ⟨_, _, takesLatest⟩ :=
    ProducerIndex.findProducer?_of_recordEach recorded Tie.key 1
  refine ⟨recorded, latest, ?_⟩
  rw [takesLatest.mpr (Or.inr (by decide)), latest]
  rfl

/-- The recording for the region comes last, and the lookup takes the older one
for the whole domain. -/
theorem latest_not_found_tie :
    ProducerIndex.empty.recordEach [Tie.contribution 0, Tie.contribution 1] =
        .ok ⟨[Tie.across, Tie.within]⟩ ∧
      (ProducerIndex.mk [Tie.across, Tie.within]).latest? Tie.key 1 = some Tie.within ∧
        (ProducerIndex.mk [Tie.across, Tie.within]).findProducer? Tie.key 1 =
            some Tie.across.entry ∧
          (ProducerIndex.mk [Tie.across, Tie.within]).findProducer? Tie.key 1 ≠
            some Tie.within.entry := by
  refine ⟨rfl, ?_, ?_, ?_⟩ <;> decide

end MeshTasks
