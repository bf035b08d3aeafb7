/-!
# Tables

A type is ranked when its elements stand in the order of the integers, so that proofs
about that order are proofs about integers.  A table is a finite map from ranked keys,
held as its entries in the order of rank.  Because the order is strict, a key has one
entry, and two tables that answer every look-up alike are equal (`Table.ext`): a table is
nothing but its content.
-/

namespace TimedGraph

/-- A type whose elements have distinct integers as ranks. -/
class Ranked (κ : Type) where
  /-- The integer by which an element is ordered. -/
  rank : κ → Int
  /-- Distinct elements have distinct ranks. -/
  rank_injective : ∀ {first second : κ}, rank first = rank second → first = second

export Ranked (rank rank_injective)

instance : Ranked Int32 where
  rank := Int32.toInt
  rank_injective := Int32.toInt_inj.mp

instance : Ranked UInt32 where
  rank number := number.toNat
  rank_injective equal := UInt32.toNat_inj.mp (Int.ofNat_inj.mp equal)

/-- A finite map whose entries stand in the order of their keys. -/
structure Table (κ α : Type) [Ranked κ] where
  entries : List (κ × α)
  ordered : entries.Pairwise fun first second => rank first.1 < rank second.1

namespace Table

variable {κ α : Type} [Ranked κ]

instance [DecidableEq κ] [DecidableEq α] : DecidableEq (Table κ α) := fun first second =>
  decidable_of_iff (first.entries = second.entries) (by
    cases first
    cases second
    simp)

/-- The table without entries. -/
def empty : Table κ α := ⟨[], .nil⟩

instance : EmptyCollection (Table κ α) := ⟨empty⟩

/-- The value of the entry under a key. -/
def find? (key : κ) : List (κ × α) → Option α
  | [] => none
  | (other, value) :: rest => if rank other = rank key then some value else find? key rest

/-- The entries with one more, in its place; an entry under the same key is replaced. -/
def place (key : κ) (value : α) : List (κ × α) → List (κ × α)
  | [] => [(key, value)]
  | (other, old) :: rest =>
    if rank key < rank other then (key, value) :: (other, old) :: rest
    else if rank key = rank other then (key, value) :: rest
    else (other, old) :: place key value rest

theorem mem_place {key : κ} {value : α} {entries : List (κ × α)} {entry : κ × α}
    (placed : entry ∈ place key value entries) : entry = (key, value) ∨ entry ∈ entries := by
  induction entries with
  | nil => simpa [place] using placed
  | cons head rest ih =>
    simp only [place] at placed
    split at placed
    · simpa using placed
    · split at placed
      · rcases List.mem_cons.mp placed with rfl | old
        · exact .inl rfl
        · exact .inr (List.mem_cons_of_mem _ old)
      · rcases List.mem_cons.mp placed with rfl | later
        · exact .inr List.mem_cons_self
        · exact (ih later).imp_right (List.mem_cons_of_mem _)

theorem place_ordered (key : κ) (value : α) {entries : List (κ × α)}
    (ordered : entries.Pairwise fun first second => rank first.1 < rank second.1) :
    (place key value entries).Pairwise fun first second => rank first.1 < rank second.1 := by
  induction entries with
  | nil => simp [place]
  | cons head rest ih =>
    rcases List.pairwise_cons.mp ordered with ⟨headFirst, restOrdered⟩
    simp only [place]
    split
    · rename_i keyFirst
      refine List.pairwise_cons.mpr ⟨fun entry mem => ?_, ordered⟩
      rcases List.mem_cons.mp mem with rfl | later
      · exact keyFirst
      · exact Int.lt_trans keyFirst (headFirst entry later)
    · split
      · rename_i same
        exact List.pairwise_cons.mpr
          ⟨fun entry mem => same ▸ headFirst entry mem, restOrdered⟩
      · refine List.pairwise_cons.mpr ⟨fun entry mem => ?_, ih restOrdered⟩
        rcases mem_place mem with rfl | later
        · simp only
          omega
        · exact headFirst entry later

/-- The value under a key, if there is one. -/
def get? (table : Table κ α) (key : κ) : Option α :=
  find? key table.entries

/-- Whether there is a value under a key. -/
def contains (table : Table κ α) (key : κ) : Bool :=
  (table.get? key).isSome

/-- Puts a value under a key, in place of the one there. -/
def insert (table : Table κ α) (key : κ) (value : α) : Table κ α :=
  ⟨place key value table.entries, place_ordered key value table.ordered⟩

/-- The number of entries. -/
def size (table : Table κ α) : Nat :=
  table.entries.length

/-- The keys, in order. -/
def keys (table : Table κ α) : List κ :=
  table.entries.map Prod.fst

/-- The values, in the order of their keys. -/
def values (table : Table κ α) : List α :=
  table.entries.map Prod.snd

/-- The entries up to a key, the key itself included. -/
def upTo (table : Table κ α) (key : κ) : List (κ × α) :=
  table.entries.takeWhile fun entry => rank entry.1 ≤ rank key

@[simp]
theorem get?_empty (key : κ) : (empty : Table κ α).get? key = none :=
  rfl

@[simp]
theorem get?_insert_self (table : Table κ α) (key : κ) (value : α) :
    (table.insert key value).get? key = some value := by
  simp only [get?, insert]
  induction table.entries with
  | nil => simp [place, find?]
  | cons head rest ih =>
    simp only [place]
    split
    · simp [find?]
    · split
      · simp [find?]
      · rename_i different
        simp [find?, Ne.symm different, ih]

theorem get?_insert_of_ne (table : Table κ α) {key other : κ} (value : α)
    (different : other ≠ key) : (table.insert key value).get? other = table.get? other := by
  have ranks : rank key ≠ rank other := fun equal => different (rank_injective equal).symm
  simp only [get?, insert]
  induction table.entries with
  | nil => simp [place, find?, ranks]
  | cons head rest ih =>
    simp only [place]
    split
    · simp [find?, ranks]
    · split
      · rename_i same
        simp [find?, ranks, ← same]
      · simp [find?, ih]

theorem get?_insert [DecidableEq κ] (table : Table κ α) (key other : κ) (value : α) :
    (table.insert key value).get? other = if other = key then some value else table.get? other := by
  split
  · rename_i same
    rw [same, get?_insert_self]
  · rename_i different
    exact get?_insert_of_ne table value different

theorem find?_eq_some_iff {key : κ} {value : α} {entries : List (κ × α)}
    (ordered : entries.Pairwise fun first second => rank first.1 < rank second.1) :
    find? key entries = some value ↔ (key, value) ∈ entries := by
  induction entries with
  | nil => simp [find?]
  | cons head rest ih =>
    rcases head with ⟨other, old⟩
    rcases List.pairwise_cons.mp ordered with ⟨headFirst, restOrdered⟩
    simp only [find?, List.mem_cons, Prod.mk.injEq]
    split
    · rename_i same
      have notLater : (key, value) ∉ rest := fun later => by
        have := headFirst _ later
        simp only at this
        omega
      simp [rank_injective same, notLater, eq_comm]
    · rename_i different
      have distinct : key ≠ other := fun equal => different (equal ▸ rfl)
      simp [distinct, ih restOrdered]

theorem get?_eq_some_iff (table : Table κ α) {key : κ} {value : α} :
    table.get? key = some value ↔ (key, value) ∈ table.entries :=
  find?_eq_some_iff table.ordered

theorem eq_of_mem_iff {first second : List (κ × α)}
    (firstOrdered : first.Pairwise fun earlier later => rank earlier.1 < rank later.1)
    (secondOrdered : second.Pairwise fun earlier later => rank earlier.1 < rank later.1)
    (same : ∀ entry, entry ∈ first ↔ entry ∈ second) : first = second := by
  have distinct {entries : List (κ × α)}
      (ordered : entries.Pairwise fun earlier later => rank earlier.1 < rank later.1) :
      entries.Nodup := by
    apply ordered.imp
    rintro earlier _ before rfl
    exact Int.lt_irrefl _ before
  have permuted : first.Perm second :=
    (List.perm_ext_iff_of_nodup (distinct firstOrdered) (distinct secondOrdered)).mpr same
  apply permuted.eq_of_pairwise _ firstOrdered secondOrdered
  intro earlier later _ _ before after
  exact absurd after (Int.lt_asymm before)

/-- Tables that answer every look-up alike are equal. -/
@[ext]
theorem ext {first second : Table κ α} (same : ∀ key, first.get? key = second.get? key) :
    first = second := by
  have entries : first.entries = second.entries :=
    eq_of_mem_iff first.ordered second.ordered fun entry => by
      rw [← get?_eq_some_iff, ← get?_eq_some_iff, same]
  cases first
  cases second
  simpa using entries

end Table

end TimedGraph
