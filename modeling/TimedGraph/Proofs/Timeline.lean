import Mathlib.Data.List.Dedup
import Mathlib.Data.List.Induction
import TimedGraph.Adjacency
import TimedGraph.Proofs.Table

/-!
# Timelines in the order of arrival

A timeline is compared with the log of its arrivals: pairs of an offset and the thing that
arrived, in the order of arrival.  Its buckets hold the log's things by offset, and what it
lists up to an offset is the log up to that offset, sorted stably by offset.  There is a
bucket for every offset of the log and for no other, so the log also tells which offset is
the last before another (`Timeline.Tells`).

An adjacency keeps the timeline of each vertex as if the arrivals of the other vertices had
not been (`Adjacency.timeline_ofLog`).
-/

namespace TimedGraph

namespace Timeline

variable {α : Type}

/-- The timeline to which the things of a log were added one after the other. -/
def ofLog (log : List (Offset × α)) : Timeline α :=
  log.foldl (fun timeline arrival => timeline.insert arrival.1 arrival.2) ∅

/-- The things of all buckets with their offsets, in the order of the buckets. -/
def timed (timeline : Timeline α) : List (Offset × α) :=
  timeline.buckets.entries.flatMap fun entry => entry.2.map (entry.1, ·)

theorem ofLog_concat (log : List (Offset × α)) (offset : Offset) (item : α) :
    ofLog (log ++ [(offset, item)]) = (ofLog log).insert offset item := by
  simp [ofLog]

theorem bucket_insert (timeline : Timeline α) (offset other : Offset) (item : α) :
    (timeline.insert offset item).bucket other =
      if other = offset then timeline.bucket offset ++ [item] else timeline.bucket other := by
  simp only [bucket, insert, Table.get?_insert]
  split <;> rfl

theorem bucket_ofLog (log : List (Offset × α)) (offset : Offset) :
    (ofLog log).bucket offset = (log.filter (·.1 = offset)).map Prod.snd := by
  have added (timeline : Timeline α) :
      (log.foldl (fun timeline arrival => timeline.insert arrival.1 arrival.2) timeline).bucket
        offset = timeline.bucket offset ++ (log.filter (·.1 = offset)).map Prod.snd := by
    induction log generalizing timeline with
    | nil => simp
    | cons arrival rest ih =>
      simp only [List.foldl_cons, ih, bucket_insert]
      by_cases here : arrival.1 = offset
      · simp [here]
      · simp [here, Ne.symm here]
  exact added ∅

theorem timed_ascending (timeline : Timeline α) :
    timeline.timed.Pairwise fun earlier later => earlier.1.toInt ≤ later.1.toInt := by
  refine List.pairwise_flatMap.mpr ⟨fun entry _ => ?_, ?_⟩
  · exact List.pairwise_map.mpr (List.pairwise_of_forall fun _ _ => Int.le_refl _)
  · apply timeline.buckets.ordered.imp
    intro first second lower early earlyMem late lateMem
    rcases List.mem_map.mp earlyMem with ⟨_, _, rfl⟩
    rcases List.mem_map.mp lateMem with ⟨_, _, rfl⟩
    exact Int.le_of_lt lower

theorem timed_filter (timeline : Timeline α) (offset : Offset) :
    timeline.timed.filter (·.1 = offset) = (timeline.bucket offset).map (offset, ·) := by
  rcases timeline with ⟨⟨entries, ordered⟩, _⟩
  simp only [timed, bucket, Table.get?]
  induction entries with
  | nil => rfl
  | cons head rest ih =>
    rcases head with ⟨here, items⟩
    rcases List.pairwise_cons.mp ordered with ⟨hereFirst, restOrdered⟩
    have others := ih restOrdered
    simp only [List.flatMap_cons, List.filter_append, others, Table.find?]
    by_cases same : here = offset
    · subst same
      have notLater : Table.find? here rest = none := by
        apply Option.eq_none_iff_forall_ne_some.mpr
        intro value found
        have := hereFirst _ ((Table.find?_eq_some_iff restOrdered).mp found)
        exact Int.lt_irrefl _ this
      have whole : items.filter (fun _ => true) = items := List.filter_eq_self.mpr fun _ _ => rfl
      simp [notLater, List.filter_map, Function.comp_def, whole]
    · have ranks : rank here ≠ rank offset := fun equal => same (rank_injective equal)
      simp [ranks, same, List.filter_map, Function.comp_def]

theorem upTo_eq (timeline : Timeline α) (offset : Offset) :
    timeline.upTo offset =
      (timeline.timed.filter fun arrival => arrival.1 ≤ offset).map Prod.snd := by
  simp only [upTo, timed, Table.upTo_eq_filter]
  induction timeline.buckets.entries with
  | nil => rfl
  | cons head rest ih =>
    rcases head with ⟨here, items⟩
    simp only [List.flatMap_cons, List.filter_append, List.map_append, ← ih]
    by_cases within : here ≤ offset
    · have ranks : rank here ≤ rank offset := Int32.le_iff_toInt_le.mp within
      have whole : items.filter (fun _ => true) = items := List.filter_eq_self.mpr fun _ _ => rfl
      simp [ranks, within, List.filter_map, Function.comp_def, whole]
    · have ranks : ¬rank here ≤ rank offset := fun lower =>
        within (Int32.le_iff_toInt_le.mpr lower)
      simp [ranks, within, List.filter_map, Function.comp_def]

/-- What a timeline holds is its log, sorted stably by offset. -/
theorem timed_ofLog (log : List (Offset × α)) :
    (ofLog log).timed = sortedBy (fun arrival => arrival.1.toInt) log := by
  apply eq_of_ascending_of_filter (timed_ascending _) (sortedBy_ascending _ _)
  intro number
  simp only [filter_key_sortedBy]
  by_cases reached : ∃ offset : Offset, offset.toInt = number
  · rcases reached with ⟨offset, rfl⟩
    have keyed (arrivals : List (Offset × α)) :
        arrivals.filter (fun arrival => arrival.1.toInt = offset.toInt) =
          arrivals.filter (·.1 = offset) := by
      simp only [Int32.toInt_inj]
    have restored : ∀ arrival ∈ log.filter (·.1 = offset), (offset, arrival.2) = arrival := by
      intro arrival mem
      have here : arrival.1 = offset := by simpa using (List.mem_filter.mp mem).2
      simp only [← here]
    rw [keyed, keyed, timed_filter, bucket_ofLog, List.map_map]
    exact (List.map_congr_left restored).trans (List.map_id' _)
  · have noArrival (arrivals : List (Offset × α)) :
        arrivals.filter (fun arrival => arrival.1.toInt = number) = [] := by
      apply List.filter_eq_nil_iff.mpr
      intro arrival _
      simpa using fun equal => reached ⟨arrival.1, equal⟩
    rw [noArrival, noArrival]

theorem upTo_ofLog (log : List (Offset × α)) (offset : Offset) :
    (ofLog log).upTo offset =
      (sortedBy (fun arrival => arrival.1.toInt)
        (log.filter fun arrival => arrival.1 ≤ offset)).map Prod.snd := by
  simp only [upTo_eq, timed_ofLog, filter_sortedBy]

theorem size_ofLog (log : List (Offset × α)) : (ofLog log).size = log.length := by
  induction log using List.reverseRecOn with
  | nil => rfl
  | append_singleton earlier arrival ih =>
    rcases arrival with ⟨offset, item⟩
    simp only [ofLog_concat, insert, ih, List.length_append, List.length_singleton]

theorem mem_keys_ofLog (log : List (Offset × α)) {offset : Offset} :
    offset ∈ (ofLog log).buckets.keys ↔ offset ∈ log.map Prod.fst := by
  induction log using List.reverseRecOn with
  | nil => rfl
  | append_singleton earlier arrival ih =>
    rcases arrival with ⟨added, item⟩
    simp only [ofLog_concat, insert, Table.mem_keys_insert, ih, List.map_append, List.map_cons,
      List.map_nil, List.mem_append, List.mem_singleton]
    exact or_comm

theorem bucketCount_ofLog (log : List (Offset × α)) :
    (ofLog log).bucketCount = (log.map Prod.fst).dedup.length := by
  apply Table.size_eq_length _ (List.nodup_dedup _)
  intro offset
  simp only [mem_keys_ofLog, List.mem_dedup]

theorem floor?_ofLog_eq_some_iff (log : List (Offset × α)) {offset floor : Offset} :
    (ofLog log).floor? offset = some floor ↔
      floor ∈ log.map Prod.fst ∧ floor ≤ offset ∧
        ∀ other ∈ log.map Prod.fst, other ≤ offset → other ≤ floor := by
  simp only [floor?, Table.getLast?_upTo_eq_some_iff, mem_keys_ofLog, Int32.le_iff_toInt_le]
  rfl

theorem floor?_ofLog_eq_none_iff (log : List (Offset × α)) {offset : Offset} :
    (ofLog log).floor? offset = none ↔ ∀ other ∈ log.map Prod.fst, offset < other := by
  simp only [floor?, Option.map_eq_none_iff, List.getLast?_eq_none_iff, Table.upTo_eq_nil_iff,
    mem_keys_ofLog, Int32.lt_iff_toInt_lt]
  rfl

/-- Nothing comes into being between an offset and the bucket before it. -/
theorem upTo_floor? (timeline : Timeline α) (offset : Offset) :
    timeline.upTo offset = (timeline.floor? offset).elim [] timeline.upTo := by
  cases isFloor : timeline.floor? offset with
  | none =>
    simp only [floor?, Option.map_eq_none_iff, List.getLast?_eq_none_iff] at isFloor
    simp only [upTo, isFloor, List.flatMap_nil, Option.elim]
  | some floor =>
    simp only [upTo, Table.upTo_of_getLast? _ isFloor, Option.elim]

theorem upTo_prefix (timeline : Timeline α) {offset later : Offset} (inOrder : offset ≤ later) :
    timeline.upTo offset <+: timeline.upTo later := by
  rcases timeline.buckets.upTo_prefix (Int32.le_iff_toInt_le.mp inOrder) with ⟨between, together⟩
  refine ⟨between.flatMap Prod.snd, ?_⟩
  simp only [upTo, ← together, List.flatMap_append]

/-- All that a timeline answers, as its log tells it. -/
structure Tells (log : List (Offset × α)) (timeline : Timeline α) : Prop where
  upTo_eq : ∀ offset, timeline.upTo offset =
    (sortedBy (fun arrival => arrival.1.toInt)
      (log.filter fun arrival => arrival.1 ≤ offset)).map Prod.snd
  bucket_eq : ∀ offset,
    timeline.bucket offset = (log.filter fun arrival => arrival.1 = offset).map Prod.snd
  size_eq : timeline.size = log.length
  bucketCount_eq : timeline.bucketCount = (log.map Prod.fst).dedup.length
  floor?_eq_some_iff : ∀ offset floor, timeline.floor? offset = some floor ↔
    floor ∈ log.map Prod.fst ∧ floor ≤ offset ∧
      ∀ other ∈ log.map Prod.fst, other ≤ offset → other ≤ floor
  floor?_eq_none_iff : ∀ offset,
    timeline.floor? offset = none ↔ ∀ other ∈ log.map Prod.fst, offset < other
  upTo_floor : ∀ offset,
    timeline.upTo offset = (timeline.floor? offset).elim [] timeline.upTo
  upTo_grows : ∀ offset later, offset ≤ later → timeline.upTo offset <+: timeline.upTo later

theorem tells_ofLog (log : List (Offset × α)) : Tells log (ofLog log) where
  upTo_eq := upTo_ofLog log
  bucket_eq := bucket_ofLog log
  size_eq := size_ofLog log
  bucketCount_eq := bucketCount_ofLog log
  floor?_eq_some_iff _ _ := floor?_ofLog_eq_some_iff log
  floor?_eq_none_iff _ := floor?_ofLog_eq_none_iff log
  upTo_floor := upTo_floor? _
  upTo_grows _ _ := upTo_prefix _

theorem upTo_insert_of_lt (timeline : Timeline α) {bound offset : Offset} (later : bound < offset)
    (item : α) : (timeline.insert offset item).upTo bound = timeline.upTo bound := by
  have ranks : rank bound < rank offset := Int32.lt_iff_toInt_lt.mp later
  rw [upTo, insert, Table.upTo_insert_of_lt _ ranks, upTo]

end Timeline

namespace Adjacency

theorem timeline_insert (adjacency : Adjacency) (vertex other : VertexId)
    (offset : Offset) (edge : EdgeId) :
    (adjacency.insert vertex offset edge).timeline other =
      if other = vertex then (adjacency.timeline vertex).insert offset edge
      else adjacency.timeline other := by
  simp only [timeline, insert, Table.get?_insert]
  split <;> rfl

theorem edgesAt_insert_of_lt (adjacency : Adjacency) (vertex other : VertexId)
    {bound offset : Offset} (later : bound < offset) (edge : EdgeId) :
    (adjacency.insert vertex offset edge).edgesAt other bound = adjacency.edgesAt other bound := by
  rw [edgesAt, timeline_insert]
  split
  · rename_i here
    rw [here, Timeline.upTo_insert_of_lt _ later, edgesAt]
  · rfl

/-- The adjacency to which the edges of a log were added one after the other. -/
def ofLog (log : List (VertexId × Offset × EdgeId)) : Adjacency :=
  log.foldl (fun adjacency arrival => adjacency.insert arrival.1 arrival.2.1 arrival.2.2) ∅

theorem ofLog_concat (log : List (VertexId × Offset × EdgeId)) (vertex : VertexId)
    (offset : Offset) (edge : EdgeId) :
    ofLog (log ++ [(vertex, offset, edge)]) = (ofLog log).insert vertex offset edge := by
  simp only [ofLog, List.foldl_append, List.foldl_cons, List.foldl_nil]

/-- The arrivals at one vertex do not touch the timelines of the others. -/
theorem timeline_ofLog (log : List (VertexId × Offset × EdgeId)) (vertex : VertexId) :
    (ofLog log).timeline vertex =
      Timeline.ofLog ((log.filter fun arrival => arrival.1 = vertex).map Prod.snd) := by
  induction log using List.reverseRecOn with
  | nil => rfl
  | append_singleton earlier arrival ih =>
    rcases arrival with ⟨added, offset, edge⟩
    simp only [ofLog_concat, timeline_insert, ih, List.filter_append, List.map_append]
    split
    · rename_i here
      subst here
      simp only [decide_true, List.filter_cons_of_pos, List.filter_nil, List.map_cons,
        List.map_nil, Timeline.ofLog_concat, ih]
    · rename_i elsewhere
      simp [Ne.symm elsewhere]

theorem mem_keys_ofLog (log : List (VertexId × Offset × EdgeId)) {vertex : VertexId} :
    vertex ∈ (ofLog log).timelines.keys ↔ vertex ∈ log.map Prod.fst := by
  induction log using List.reverseRecOn with
  | nil => rfl
  | append_singleton earlier arrival ih =>
    rcases arrival with ⟨added, offset, edge⟩
    simp only [ofLog_concat, insert, Table.mem_keys_insert, ih, List.map_append, List.map_cons,
      List.map_nil, List.mem_append, List.mem_singleton]
    exact or_comm

theorem vertexCount_ofLog (log : List (VertexId × Offset × EdgeId)) :
    (ofLog log).vertexCount = (log.map Prod.fst).dedup.length := by
  apply Table.size_eq_length _ (List.nodup_dedup _)
  intro vertex
  simp only [mem_keys_ofLog, List.mem_dedup]

/-- All that an adjacency answers, as its log tells it. -/
structure Tells (log : List (VertexId × Offset × EdgeId)) (adjacency : Adjacency) : Prop where
  edgesAt_eq : ∀ vertex offset, adjacency.edgesAt vertex offset =
    (Timeline.ofLog ((log.filter fun arrival => arrival.1 = vertex).map Prod.snd)).upTo offset
  degree_eq : ∀ vertex, adjacency.degree vertex =
    (Timeline.ofLog ((log.filter fun arrival => arrival.1 = vertex).map Prod.snd)).size
  vertexCount_eq : adjacency.vertexCount = (log.map Prod.fst).dedup.length

theorem tells_ofLog (log : List (VertexId × Offset × EdgeId)) : Tells log (ofLog log) where
  edgesAt_eq vertex offset := by simp only [edgesAt, timeline_ofLog]
  degree_eq vertex := by simp only [degree, timeline_ofLog]
  vertexCount_eq := vertexCount_ofLog log

end Adjacency

/-- Timelines and adjacencies answer as the logs of their arrivals tell, whatever the offsets of
the arrivals and in whatever order these come. -/
theorem tells_exact {α : Type} (log : List (Offset × α))
    (links : List (VertexId × Offset × EdgeId)) :
    (Timeline.ofLog log).Tells log ∧ (Adjacency.ofLog links).Tells links :=
  ⟨Timeline.tells_ofLog log, Adjacency.tells_ofLog links⟩

example : (Timeline.ofLog [(9, "c"), (-2, "a"), (9, "b")]).upTo 9 = ["a", "c", "b"] := by decide

end TimedGraph
