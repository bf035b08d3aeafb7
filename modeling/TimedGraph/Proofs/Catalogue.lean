import Mathlib.Data.List.Dedup
import TimedGraph.Proofs.Archive
import TimedGraph.Proofs.Remainder

/-!
# An archive is a catalogue

A catalogue is a plain map from numbers to histories.  It keeps them as they are, so that it
has no codec and nothing that could fail to be read, and a purge of it is said by the logs of
the listed histories.  An archive and a catalogue that are asked the same answer the same,
whatever the codec of the archive (`Archive.run_catalogue`): each request keeps the archive
canonical and its histories those of the catalogue (`Archive.Holds.respond`).
-/

namespace TimedGraph

/-- A plain map from numbers to histories. -/
abbrev Catalogue := Table PropertyId History

namespace Archive

/-- What can be asked of an archive, and of a catalogue. -/
inductive Request where
  | store (history : History)
  | fetch (id : PropertyId)
  /-- Fetches a history, appends a value and stores the history again. -/
  | append (id : PropertyId) (time : Instant) (value : Value)
  | purge (time : Instant) (ids : List PropertyId)

/-- What is answered. -/
inductive Reply where
  | stored
  | fetched (found : Option History)
  | appended (longer : Option History)
  | purged (rewritten : Nat)

namespace Request

/-- A history that a request brings along is obtainable. -/
def Obtainable : Request → Prop
  | store history => history.Obtainable
  | fetch _ | append _ _ _ | purge _ _ => True

/-- Answers requests one after the other, from a state on. -/
def run {State : Type} (respond : State → Request → Except Fault Reply × State) (state : State) :
    List Request → List (Except Fault Reply) × State
  | [] => ([], state)
  | request :: rest =>
    let (outcome, changed) := respond state request
    let (outcomes, final) := run respond changed rest
    (outcome :: outcomes, final)

end Request

/-- Answers a request. -/
def respond (archive : Archive) : Request → Except Fault Reply × Archive
  | .store history => (.ok .stored, archive.store history)
  | .fetch id => (.fetched <$> archive.fetch? id, archive)
  | .append id time value =>
    let (outcome, changed) := archive.append id time value
    (.appended <$> outcome, changed)
  | .purge time ids =>
    let (outcome, purged) := archive.purge time ids
    (.purged <$> outcome, purged)

end Archive

namespace Catalogue

/-- The catalogue after the listed histories have lost their entries up to an instant. -/
def beyond (catalogue : Catalogue) (time : Instant) (ids : List PropertyId) : Catalogue :=
  catalogue.adjust fun id history => if id ∈ ids then history.beyond time else history

/-- The number of distinct listed histories with an entry up to an instant. -/
def countUpTo (catalogue : Catalogue) (time : Instant) (ids : List PropertyId) : Nat :=
  ids.dedup.countP fun id => (catalogue.get? id).any fun history => history.log.any (·.1 ≤ time)

/-- Answers a request from the histories as they are. -/
def respond (catalogue : Catalogue) : Archive.Request → Except Fault Archive.Reply × Catalogue
  | .store history => (.ok .stored, catalogue.insert history.id history)
  | .fetch id => (.ok (.fetched (catalogue.get? id)), catalogue)
  | .append id time value =>
    match catalogue.get? id with
    | none => (.ok (.appended none), catalogue)
    | some history =>
      match history.write time value with
      | (.error fault, _) => (.error fault, catalogue)
      | (.ok (), longer) => (.ok (.appended (some longer)), catalogue.insert id longer)
  | .purge time ids =>
    (.ok (.purged (catalogue.countUpTo time ids)), catalogue.beyond time ids)

end Catalogue

namespace Archive

variable {archive purged : Archive} {catalogue : Catalogue} {time : Instant} {id : PropertyId}
  {ids rewritten : List PropertyId} {history : History}

/-- An archive holds a catalogue if it is canonical and restores its histories, which are all
obtainable. -/
structure Holds (archive : Archive) (catalogue : Catalogue) : Prop where
  canonical : archive.Canonical
  history?_eq : ∀ id, archive.history? id = catalogue.get? id
  obtainable : ∀ {id history}, catalogue.get? id = some history → history.Obtainable

/-- An archive shows a catalogue if whatever can be asked of it is read off the catalogue. -/
structure Shows (archive : Archive) (catalogue : Catalogue) : Prop where
  fetch?_eq : ∀ id, archive.fetch? id = .ok (catalogue.get? id)
  contains_eq : ∀ id, archive.contains id = (catalogue.get? id).isSome
  name?_eq : ∀ id, archive.name? id = (catalogue.get? id).map History.name
  count_eq : archive.count = catalogue.size
  isEmpty_eq : archive.isEmpty = catalogue.entries.isEmpty
  ids_eq : archive.ids = catalogue.keys
  /-- A purge drops the entries up to its instant from the listed histories, and counts those
  that have such entries. -/
  purge_eq : ∀ time ids, ∃ purged,
    archive.purge time ids = (.ok (catalogue.countUpTo time ids), purged) ∧
      ∀ id, purged.fetch? id = .ok ((catalogue.get? id).map fun history =>
        if id ∈ ids then history.beyond time else history)
  /-- The order of the listed numbers and their repetition do not matter to a purge. -/
  purge_congr : ∀ time ids others, (∀ id, id ∈ ids ↔ id ∈ others) →
    archive.purge time ids = archive.purge time others

namespace Holds

theorem empty (codec : Codec) : (Archive.empty codec).Holds ∅ where
  canonical := .empty codec
  history?_eq _ := rfl
  obtainable found := by simp at found

section

variable (holds : archive.Holds catalogue)

include holds

theorem sound (found : catalogue.get? id = some history) : history.Sound :=
  (holds.obtainable found).sound

theorem store (obtainable : history.Obtainable) :
    (archive.store history).Holds (catalogue.insert history.id history) where
  canonical := holds.canonical.store history
  history?_eq id := by rw [history?_store, Table.get?_insert, holds.history?_eq]
  obtainable {id other} found := by
    rw [Table.get?_insert] at found
    split at found
    · rw [← Option.some.inj found]
      exact obtainable
    · exact holds.obtainable found

theorem respond_append (id : PropertyId) (time : Instant) (value : Value) :
    (archive.respond (.append id time value)).1 = (catalogue.respond (.append id time value)).1 ∧
      (archive.respond (.append id time value)).2.Holds
        (catalogue.respond (.append id time value)).2 := by
  simp only [Archive.respond, Archive.append, Catalogue.respond, holds.canonical.fetch?_eq,
    holds.history?_eq]
  cases found : catalogue.get? id with
  | none => exact ⟨rfl, holds⟩
  | some history =>
    have sameId : history.id = id :=
      holds.canonical.id_eq ((holds.history?_eq id).trans found)
    rcases written : history.write time value with ⟨outcome, longer⟩
    have isLonger : (history.write time value).2 = longer := congrArg Prod.snd written
    simp only [written]
    cases outcome with
    | error fault => exact ⟨rfl, holds⟩
    | ok _ =>
      refine ⟨rfl, ?_⟩
      have longerId : longer.id = id := by rw [← isLonger, History.write_id, sameId]
      have longerObtainable : longer.Obtainable := by
        rw [← isLonger]
        exact .write time value (holds.obtainable found)
      simp only [← longerId]
      exact holds.store longerObtainable

theorem length_rewritten (purgedTo : archive.PurgedTo time ids purged rewritten) :
    rewritten.length = catalogue.countUpTo time ids := by
  have sound : ∀ {id history}, archive.history? id = some history → history.Sound := by
    intro id history found
    rw [holds.history?_eq] at found
    exact holds.sound found
  have counted := purgedTo.length_rewritten sound (List.nodup_dedup ids)
    fun _ _ _ _ => List.mem_dedup.symm
  simp only [holds.history?_eq] at counted
  exact counted

theorem beyond (purgedTo : archive.PurgedTo time ids purged rewritten) :
    purged.Holds (catalogue.beyond time ids) where
  canonical := purgedTo.canonical
  history?_eq id := by
    rw [purgedTo.history?_eq, Catalogue.beyond, Table.get?_adjust, holds.history?_eq]
    cases found : catalogue.get? id with
    | none => simp
    | some history =>
      rw [Option.map_some, Option.map_some, (holds.sound found).purge_eq]
      split <;> rfl
  obtainable {id left} found := by
    rw [Catalogue.beyond, Table.get?_adjust, Option.map_eq_some_iff] at found
    rcases found with ⟨history, found, rfl⟩
    split
    · rw [← (holds.sound found).purge_eq]
      exact .purge time (holds.obtainable found)
    · exact holds.obtainable found

/-- A request is answered from the catalogue, and what it leaves holds what it leaves there. -/
theorem respond {request : Request} (obtainable : request.Obtainable) :
    (archive.respond request).1 = (catalogue.respond request).1 ∧
      (archive.respond request).2.Holds (catalogue.respond request).2 := by
  cases request with
  | store history => exact ⟨rfl, holds.store obtainable⟩
  | fetch id =>
    refine ⟨?_, holds⟩
    simp only [Archive.respond, Catalogue.respond, holds.canonical.fetch?_eq, holds.history?_eq]
    rfl
  | append id time value => exact holds.respond_append id time value
  | purge time ids =>
    rcases holds.canonical.purge time ids with ⟨purged, rewritten, run, purgedTo⟩
    simp only [Archive.respond, Catalogue.respond, run, holds.length_rewritten purgedTo]
    exact ⟨rfl, holds.beyond purgedTo⟩

theorem run (requests : List Request) (obtainable : ∀ request ∈ requests, request.Obtainable) :
    (Request.run Archive.respond archive requests).1 =
        (Request.run Catalogue.respond catalogue requests).1 ∧
      (Request.run Archive.respond archive requests).2.Holds
        (Request.run Catalogue.respond catalogue requests).2 := by
  induction requests generalizing archive catalogue with
  | nil => exact ⟨rfl, holds⟩
  | cons request rest ih =>
    rcases List.forall_mem_cons.mp obtainable with ⟨first, others⟩
    rcases holds.respond first with ⟨sameOutcome, changedHolds⟩
    rcases ih changedHolds others with ⟨sameOutcomes, finalHolds⟩
    simp only [Request.run]
    exact ⟨congr (congrArg List.cons sameOutcome) sameOutcomes, finalHolds⟩

theorem isSome_get?_eq (id : PropertyId) :
    (archive.records.get? id).isSome = (catalogue.get? id).isSome := by
  have isRecord := holds.canonical.record?_eq id
  simp only [record?] at isRecord
  rw [isRecord, Option.isSome_map, holds.history?_eq]

theorem shows : archive.Shows catalogue where
  fetch?_eq id := by rw [holds.canonical.fetch?_eq, holds.history?_eq]
  contains_eq id := by rw [holds.canonical.contains_eq, holds.history?_eq]
  name?_eq id := by rw [holds.canonical.name?_eq, holds.history?_eq]
  count_eq := Table.size_congr holds.isSome_get?_eq
  isEmpty_eq := by
    have counts : archive.count = catalogue.size := Table.size_congr holds.isSome_get?_eq
    simp only [count, Table.size] at counts
    apply Bool.eq_iff_iff.mpr
    simp only [isEmpty, List.isEmpty_iff, ← List.length_eq_zero_iff, counts]
  ids_eq := Table.keys_congr holds.isSome_get?_eq
  purge_eq time ids := by
    rcases holds.canonical.purge time ids with ⟨purged, rewritten, run, purgedTo⟩
    rw [holds.length_rewritten purgedTo] at run
    refine ⟨purged, run, ?_⟩
    intro id
    have purgedHolds := holds.beyond purgedTo
    rw [purgedHolds.canonical.fetch?_eq, purgedHolds.history?_eq, Catalogue.beyond,
      Table.get?_adjust]
  purge_congr time ids others same := holds.canonical.purge_congr same time

end

end Holds

/-- From the empty archive of any codec, requests with obtainable histories are answered as by a
plain map of histories, and the archive that they lead to shows the map that they lead to. -/
theorem run_catalogue (codec : Codec) (requests : List Request)
    (obtainable : ∀ request ∈ requests, request.Obtainable) :
    (Request.run respond (.empty codec) requests).1 =
        (Request.run Catalogue.respond ∅ requests).1 ∧
      (Request.run respond (.empty codec) requests).2.Shows
        (Request.run Catalogue.respond ∅ requests).2 := by
  rcases (Holds.empty codec).run requests obtainable with ⟨sameOutcomes, holds⟩
  exact ⟨sameOutcomes, holds.shows⟩

/-- A history that is written to twice, with a value that the codec cannot write between, and
purged by a list that repeats its number and holds an unknown one. -/
def sampleRequests : List Request :=
  [.store ⟨⟨7⟩, "load", ⟨100⟩, none, []⟩, .append ⟨7⟩ ⟨100⟩ (.int32 (-3)),
    .append ⟨7⟩ ⟨120⟩ (.string "up"), .append ⟨7⟩ ⟨110⟩ (.int32 1),
    .purge ⟨110⟩ [⟨7⟩, ⟨9⟩, ⟨7⟩], .fetch ⟨7⟩]

theorem run_catalogue_sample :
    (Request.run respond (.empty .varint) sampleRequests).1[4]? = some (.ok (.purged 1)) ∧
      (Request.run respond (.empty .varint) sampleRequests).2.fetch? ⟨7⟩ =
        .ok (some ⟨⟨7⟩, "load", ⟨100⟩, some ⟨120⟩, [⟨20, .string "up"⟩]⟩) := by
  have obtainable : ∀ request ∈ sampleRequests, request.Obtainable := by
    intro request mem
    simp only [sampleRequests, List.mem_cons, List.not_mem_nil, or_false] at mem
    rcases mem with rfl | rfl | rfl | rfl | rfl | rfl
    · have made : History.create ⟨7⟩ "load" ⟨100⟩ = .ok ⟨⟨7⟩, "load", ⟨100⟩, none, []⟩ := rfl
      exact .create made
    all_goals trivial
  rcases run_catalogue .varint sampleRequests obtainable with ⟨answers, shows⟩
  rw [answers, shows.fetch?_eq]
  exact ⟨rfl, rfl⟩

end Archive

end TimedGraph
