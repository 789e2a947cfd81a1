import MeshTasks.Instantiation
import MeshTasks.Proofs.Outcome

/-!
# What is recorded

Recording goes through the items of a graph and through the values that each
produces. It succeeds exactly when no two recordings clash, and the index then
lists one recording for each produced value, in the order of the items. It fails
only with the report of two recordings that clash.
-/

namespace MeshTasks

/-- The position of the unit whose item a recording is about. -/
def Recording.unit? (graph : TaskGraph) (recording : Recording) : Option Nat :=
  (graph.item? recording.entry.item).bind WorkItem.unit?

/-- Two recordings agree unless different units compute one value that is no
reduction. -/
def Recording.Agrees (graph : TaskGraph) (earlier later : Recording) : Prop :=
  later.key.label.isReduction = false →
    earlier.key = later.key →
      earlier.entry.mode = .computes →
        later.entry.mode = .computes →
          earlier.unit? graph = later.unit? graph

/-- The name of the item that a recording is about. -/
def Recording.itemName (graph : TaskGraph) (recording : Recording) : String :=
  match graph.item? recording.entry.item with
  | none => ""
  | some item => item.name

/-- What is reported of two recordings that clash. -/
def Recording.report (graph : TaskGraph) (earlier later : Recording) : Error :=
  .duplicateProducer later.key.label.name later.key.region later.key.material
    (earlier.itemName graph) (later.itemName graph)

/-- Among recordings that agree, one value is computed by one unit. -/
theorem Recording.unit?_eq_of_computes
    {graph : TaskGraph} {recordings : List Recording} {first second : Recording}
    (agreed : recordings.Pairwise (Recording.Agrees graph))
    (firstMember : first ∈ recordings)
    (secondMember : second ∈ recordings)
    (notReduction : first.key.label.isReduction = false)
    (sameKey : first.key = second.key)
    (firstComputes : first.entry.mode = .computes)
    (secondComputes : second.entry.mode = .computes) :
    first.unit? graph = second.unit? graph := by
  rw [List.pairwise_iff_getElem] at agreed
  obtain ⟨firstPlace, firstBound, rfl⟩ := List.mem_iff_getElem.mp firstMember
  obtain ⟨secondPlace, secondBound, rfl⟩ := List.mem_iff_getElem.mp secondMember
  rcases Nat.lt_trichotomy firstPlace secondPlace with before | same | after
  · exact agreed firstPlace secondPlace firstBound secondBound before (sameKey ▸ notReduction)
      sameKey firstComputes secondComputes
  · subst same
    rfl
  · exact (agreed secondPlace firstPlace secondBound firstBound after notReduction sameKey.symm
      secondComputes firstComputes).symm

/-- The recordings of an access of the item at a place. -/
def recordingsOf (graph : TaskGraph) (production : Nat × Access) : List Recording :=
  match graph.item? production.1 with
  | none => []
  | some producer =>
      (producedKeys production.2 producer).map fun key =>
        ⟨key, production.1, producer.order, production.2.mode⟩

/-- The recordings of all items of a graph. -/
def allRecordings (units : List WorkUnit) (graph : TaskGraph) : List Recording :=
  (productions units graph).flatMap (recordingsOf graph)

/-- A value is produced under one region key and one material key. -/
theorem mem_producedKeys_iff {access : Access} {item : WorkItem} {key : ValueKey} :
    key ∈ producedKeys access item ↔
      key.label = access.label ∧ key.region ∈ regionKeys access item ∧
        key.material ∈ materialKeys access item := by
  obtain ⟨label, region, material⟩ := key
  simp only [producedKeys, List.mem_flatMap, List.mem_map, ValueKey.mk.injEq]
  constructor
  · rintro ⟨_, ofRegion, _, ofMaterial, rfl, rfl, rfl⟩
    exact ⟨rfl, ofRegion, ofMaterial⟩
  · rintro ⟨rfl, ofRegion, ofMaterial⟩
    exact ⟨region, ofRegion, material, ofMaterial, rfl, rfl, rfl⟩

theorem label_of_mem_producedKeys
    {access : Access} {item : WorkItem} {key : ValueKey}
    (member : key ∈ producedKeys access item) :
    key.label = access.label :=
  (mem_producedKeys_iff.mp member).1

namespace ProducerIndex

variable {graph : TaskGraph}

/-- An operation that adds recordings to an index in agreement, and succeeds if
they agree with each other and with those that are there. -/
def Appends (graph : TaskGraph)
    (operation : ProducerIndex → Except (Halted ProducerIndex) ProducerIndex)
    (added : List Recording) : Prop :=
  ∀ index : ProducerIndex, index.recordings.Pairwise (Recording.Agrees graph) →
    ∀ next, operation index = .ok next ↔
      next = ⟨index.recordings ++ added⟩ ∧
        (index.recordings ++ added).Pairwise (Recording.Agrees graph)

private theorem appends_foldlM
    {α : Type} {step : ProducerIndex → α → Except (Halted ProducerIndex) ProducerIndex}
    {added : α → List Recording}
    (values : List α)
    (step_appends : ∀ value ∈ values, Appends graph (fun index => step index value) (added value)) :
    Appends graph (fun index => values.foldlM step index) (values.flatMap added) := by
  induction values with
  | nil =>
      intro index agreed next
      rw [List.flatMap_nil, List.append_nil]
      constructor
      · intro folded
        cases folded
        exact ⟨rfl, agreed⟩
      · rintro ⟨rfl, _⟩
        rfl
  | cons head tail inductionHypothesis =>
      intro index agreed next
      have headAppends := step_appends head List.mem_cons_self index agreed
      have tailAppends :=
        inductionHypothesis fun value member =>
          step_appends value (List.mem_cons_of_mem head member)
      dsimp only
      rw [List.foldlM_cons, bind_eq_ok_iff, List.flatMap_cons, ← List.append_assoc]
      constructor
      · rintro ⟨middle, headOk, tailOk⟩
        obtain ⟨rfl, middleAgreed⟩ := (headAppends middle).mp headOk
        exact (tailAppends _ middleAgreed next).mp tailOk
      · rintro ⟨nextEq, nextAgreed⟩
        have middleAgreed := (List.pairwise_append.mp nextAgreed).1
        refine ⟨_, (headAppends _).mpr ⟨rfl, middleAgreed⟩, ?_⟩
        exact (tailAppends _ middleAgreed next).mpr ⟨nextEq, nextAgreed⟩

/-- An operation that fails only by reporting that one of the recordings it adds
clashes with one that is there before or is added. -/
def Reports (graph : TaskGraph)
    (operation : ProducerIndex → Except (Halted ProducerIndex) ProducerIndex)
    (added : List Recording) : Prop :=
  ∀ index : ProducerIndex, index.recordings.Pairwise (Recording.Agrees graph) →
    ∀ halted, operation index = .error halted →
      ∃ earlier ∈ index.recordings ++ added, ∃ later ∈ added,
        ¬ earlier.Agrees graph later ∧ halted.error = earlier.report graph later

private theorem reports_foldlM
    {α : Type} {step : ProducerIndex → α → Except (Halted ProducerIndex) ProducerIndex}
    {added : α → List Recording}
    (values : List α)
    (step_appends : ∀ value ∈ values, Appends graph (fun index => step index value) (added value))
    (step_reports : ∀ value ∈ values, Reports graph (fun index => step index value) (added value)) :
    Reports graph (fun index => values.foldlM step index) (values.flatMap added) := by
  induction values with
  | nil =>
      intro index _ halted failed
      cases failed
  | cons head tail inductionHypothesis =>
      intro index agreed halted failed
      dsimp only at failed
      rw [List.foldlM_cons, bind_eq_error_iff] at failed
      rw [List.flatMap_cons, ← List.append_assoc]
      rcases failed with headFailed | ⟨middle, headOk, tailFailed⟩
      · obtain ⟨earlier, earlierMember, later, laterMember, clash⟩ :=
          step_reports head List.mem_cons_self index agreed halted headFailed
        exact ⟨earlier, List.mem_append_left _ earlierMember, later,
          List.mem_append_left _ laterMember, clash⟩
      · obtain ⟨rfl, middleAgreed⟩ :=
          (step_appends head List.mem_cons_self index agreed middle).mp headOk
        have tailReports :=
          inductionHypothesis
            (fun value member => step_appends value (List.mem_cons_of_mem head member))
            (fun value member => step_reports value (List.mem_cons_of_mem head member))
        obtain ⟨earlier, earlierMember, later, laterMember, clash⟩ :=
          tailReports _ middleAgreed halted tailFailed
        exact ⟨earlier, earlierMember, later, List.mem_append_right _ laterMember, clash⟩

private theorem clash?_eq_none_iff
    {index : ProducerIndex} {producer : WorkItem} {access : Access} {key : ValueKey} {id : Nat}
    (producerAt : graph.item? id = some producer)
    (labelEq : key.label = access.label) :
    index.clash? graph producer access key = none ↔
      ∀ earlier ∈ index.recordings,
        earlier.Agrees graph ⟨key, id, producer.order, access.mode⟩ := by
  have unitEq : Recording.unit? graph ⟨key, id, producer.order, access.mode⟩ = producer.unit? := by
    rw [Recording.unit?, producerAt]
    rfl
  unfold clash?
  by_cases computing : access.mode = .computes ∧ ¬ access.label.isReduction
  · rw [if_pos computing, List.find?_eq_none]
    constructor
    · intro noClash earlier member _ sameKey earlierComputes _
      have entryMember : earlier.entry ∈ index.entriesAt key :=
        List.mem_map.mpr ⟨earlier, List.mem_filter.mpr ⟨member, decide_eq_true sameKey⟩, rfl⟩
      have notClashing := noClash earlier.entry entryMember
      rw [Bool.and_eq_true, decide_eq_true_eq, decide_eq_true_eq] at notClashing
      rw [unitEq]
      exact Decidable.not_not.mp fun different => notClashing ⟨earlierComputes, different⟩
    · intro agree entry entryMember clashes
      obtain ⟨earlier, filtered, rfl⟩ := List.mem_map.mp entryMember
      obtain ⟨member, sameKey⟩ := List.mem_filter.mp filtered
      rw [Bool.and_eq_true, decide_eq_true_eq, decide_eq_true_eq] at clashes
      have sameUnit :=
        agree earlier member (labelEq ▸ Bool.eq_false_iff.mpr computing.2)
          (of_decide_eq_true sameKey) clashes.1 computing.1
      exact clashes.2 (sameUnit.trans unitEq)
  · rw [if_neg computing]
    refine ⟨fun _ earlier member notReduction _ _ computes => ?_, fun _ => rfl⟩
    rw [labelEq] at notReduction
    exact absurd ⟨computes, Bool.eq_false_iff.mp notReduction⟩ computing

theorem appends_recordKey
    {producer : WorkItem} (access : Access) {key : ValueKey} {id : Nat}
    (producerAt : graph.item? id = some producer)
    (labelEq : key.label = access.label) :
    Appends graph (fun index => index.recordKey graph id producer access key)
      [⟨key, id, producer.order, access.mode⟩] := by
  intro index agreed next
  let recording : Recording := ⟨key, id, producer.order, access.mode⟩
  have together :
      (index.recordings ++ [recording]).Pairwise (Recording.Agrees graph) ↔
        index.clash? graph producer access key = none := by
    rw [clash?_eq_none_iff producerAt labelEq, List.pairwise_append]
    constructor
    · rintro ⟨_, _, across⟩ earlier member
      exact across earlier member _ List.mem_cons_self
    · intro across
      refine ⟨agreed, List.pairwise_singleton _ _, fun earlier member later atEnd => ?_⟩
      rw [List.mem_singleton] at atEnd
      exact atEnd ▸ across earlier member
  rw [together]
  dsimp only [recordKey]
  cases index.clash? graph producer access key with
  | some first => exact ⟨nofun, fun impossible => nomatch impossible.2⟩
  | none =>
      rw [Except.ok.injEq]
      exact ⟨fun same => ⟨same.symm, rfl⟩, fun same => same.1.symm⟩

theorem reports_recordKey
    {producer : WorkItem} (access : Access) {key : ValueKey} {id : Nat}
    (producerAt : graph.item? id = some producer)
    (labelEq : key.label = access.label) :
    Reports graph (fun index => index.recordKey graph id producer access key)
      [⟨key, id, producer.order, access.mode⟩] := by
  intro index _ halted failed
  let recording : Recording := ⟨key, id, producer.order, access.mode⟩
  have unitEq : recording.unit? graph = producer.unit? := by
    rw [Recording.unit?, producerAt]
    rfl
  have nameEq : recording.itemName graph = producer.name := by
    rw [Recording.itemName, producerAt]
  dsimp only [recordKey] at failed
  split at failed
  · rename_i first clashes
    cases failed
    unfold clash? at clashes
    split at clashes
    · rename_i computing
      have inEntries := List.mem_of_find?_eq_some clashes
      have differs := List.find?_some clashes
      rw [Bool.and_eq_true, decide_eq_true_eq, decide_eq_true_eq] at differs
      obtain ⟨earlier, filtered, rfl⟩ := List.mem_map.mp inEntries
      obtain ⟨member, sameKey⟩ := List.mem_filter.mp filtered
      refine ⟨earlier, List.mem_append_left _ member, recording, List.mem_cons_self, ?_, ?_⟩
      · intro agrees
        have notReduction : recording.key.label.isReduction = false :=
          labelEq ▸ Bool.eq_false_iff.mpr computing.2
        have sameUnit :=
          agrees notReduction (of_decide_eq_true sameKey) differs.1 computing.1
        exact differs.2 (sameUnit.trans unitEq)
      · rw [Recording.report, nameEq, labelEq]
        rfl
    · cases clashes
  · cases failed

theorem appends_record (graph : TaskGraph) (production : Nat × Access) :
    Appends graph (fun index => index.record graph production.1 production.2)
      (recordingsOf graph production) := by
  unfold record recordingsOf
  cases producerAt : graph.item? production.1 with
  | none =>
      intro index agreed next
      rw [List.append_nil]
      simp only [Except.ok.injEq]
      exact ⟨fun same => ⟨same ▸ rfl, agreed⟩, fun same => same.1.symm⟩
  | some producer =>
      have appends :=
        appends_foldlM (producedKeys production.2 producer) fun key member =>
          appends_recordKey production.2 producerAt
            (label_of_mem_producedKeys member)
      rwa [← List.map_eq_flatMap] at appends

theorem reports_record (graph : TaskGraph) (production : Nat × Access) :
    Reports graph (fun index => index.record graph production.1 production.2)
      (recordingsOf graph production) := by
  unfold record recordingsOf
  cases producerAt : graph.item? production.1 with
  | none =>
      intro index _ halted failed
      cases failed
  | some producer =>
      have reports :=
        reports_foldlM (producedKeys production.2 producer)
          (fun key member =>
            appends_recordKey production.2 producerAt (label_of_mem_producedKeys member))
          (fun key member =>
            reports_recordKey production.2 producerAt (label_of_mem_producedKeys member))
      rwa [← List.map_eq_flatMap] at reports

end ProducerIndex

/-- Recording succeeds exactly when all recordings agree, and then it has made
them all. -/
theorem recordAll_eq_ok_iff
    {units : List WorkUnit} {graph : TaskGraph} {index : ProducerIndex} :
    recordAll units graph = .ok index ↔
      index = ⟨allRecordings units graph⟩ ∧
        (allRecordings units graph).Pairwise (Recording.Agrees graph) := by
  have appends :=
    ProducerIndex.appends_foldlM (productions units graph) fun production _ =>
      ProducerIndex.appends_record graph production
  exact appends .empty List.Pairwise.nil index

/-- Recording fails only by reporting two of all recordings that clash. -/
theorem exists_clash_of_recordAll
    {units : List WorkUnit} {graph : TaskGraph} {halted : Halted ProducerIndex}
    (failed : recordAll units graph = .error halted) :
    ∃ earlier ∈ allRecordings units graph, ∃ later ∈ allRecordings units graph,
      ¬ earlier.Agrees graph later ∧ halted.error = earlier.report graph later := by
  have reports :=
    ProducerIndex.reports_foldlM (productions units graph)
      (fun production _ => ProducerIndex.appends_record graph production)
      (fun production _ => ProducerIndex.reports_record graph production)
  exact reports .empty List.Pairwise.nil halted failed

end MeshTasks
