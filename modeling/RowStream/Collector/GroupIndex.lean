import RowStream.Aggregate.State
import RowStream.Scalar.Key

/-!
# Groups and their index

Groups stand in the order in which they were opened, and an index finds the group of a key by the hash
of the key. An entry of the index answers to a key if it has the same hash and its key is the same, so
that a hash function decides nothing as long as it does not tell keys apart that are the same.

* `GroupKey`, `Hasher` — keys with their equality, and what is made of the bytes that they feed;
  `Hasher.hash_eq` says that keys that are the same are hashed alike.
* `GroupIndex` — the index; `GroupIndex.slot?_insert` is what it is used for.
* `IndexedGroups` — groups with an index that finds the first group of a key, and nothing else.
-/

namespace RowStream

/-! ## Keys

A lookup by hash is right only if keys that are the same are hashed alike. This is a fact about what
keys feed to the hash, and holds for every hash function. -/

/-- The key of a group. -/
structure GroupKey where
  scalars : Row

namespace GroupKey

/-- Keys are the same if their scalars belong together, position by position. -/
instance : BEq GroupKey := ⟨fun a b => Scalar.sameKeys a.scalars b.scalars⟩

instance : EquivBEq GroupKey where
  rfl := Scalar.sameKeys_refl _
  symm h := (Scalar.sameKeys_comm _ _).trans h
  trans h h' := (Scalar.sameKeys_congr h _).trans h'

/-- The bytes that a key feeds to a hash: how many scalars it has, and theirs. -/
def fed (key : GroupKey) : List UInt8 :=
  littleEndian key.scalars.length 8 ++ Scalar.fedAll key.scalars

end GroupKey

/-- A hash function: what is made of the bytes that it is fed. -/
structure Hasher where
  finish : List UInt8 → UInt64

namespace Hasher

/-- Mixes in one byte after the other. -/
def standard : Hasher where
  finish := List.foldl (fun hash byte => (hash ^^^ byte.toUInt64) * 0x100000001b3) 0xcbf29ce484222325

def hash (hasher : Hasher) (key : GroupKey) : UInt64 := hasher.finish key.fed

/-- **Keys that are the same are hashed alike**, whatever the hash function. -/
theorem hash_eq (hasher : Hasher) {a b : GroupKey} (h : (a == b) = true) :
    hasher.hash a = hasher.hash b := by
  obtain ⟨hlength, hfed⟩ := Scalar.fedAll_eq_of_sameKeys (show Scalar.sameKeys _ _ = true from h)
  unfold hash GroupKey.fed
  rw [hlength, hfed]

end Hasher

/-! ## The index

The index is a map from keys to places. Two keys with one hash are told apart by their equality;
keys that are the same cannot have two hashes. -/

/-- A key with its hash, and the place of its group. -/
structure IndexEntry where
  hash : UInt64
  key : GroupKey
  slot : Nat

/-- The places of groups, found by the hashes of their keys. -/
structure GroupIndex where
  hasher : Hasher
  entries : List IndexEntry

namespace GroupIndex

def empty (hasher : Hasher) : GroupIndex := ⟨hasher, []⟩

/-- Whether an entry has a hash and a key. Keys are compared only where the hashes are the same. -/
def answers (hash : UInt64) (key : GroupKey) (e : IndexEntry) : Bool := e.hash == hash && e.key == key

/-- The place of the group of a key, if there is one. -/
def slot? (index : GroupIndex) (key : GroupKey) : Option Nat :=
  (index.entries.find? (answers (index.hasher.hash key) key)).map (·.slot)

def insert (index : GroupIndex) (key : GroupKey) (slot : Nat) : GroupIndex :=
  { index with entries := ⟨index.hasher.hash key, key, slot⟩ :: index.entries }

/-- **What was put in is found** under every key that is the same, and does not stand in the way of
others. -/
theorem slot?_insert (index : GroupIndex) (key other : GroupKey) (slot : Nat) :
    (index.insert key slot).slot? other = if key == other then some slot else index.slot? other := by
  unfold slot? insert
  rw [List.find?_cons]
  cases hsame : key == other with
  | true =>
    -- the same key has the same hash, so that the entry is not passed over
    have hanswers : answers (index.hasher.hash other) other ⟨index.hasher.hash key, key, slot⟩ = true := by
      simp [answers, hsame, index.hasher.hash_eq hsame]
    simp [hanswers]
  | false => simp [answers, hsame]

end GroupIndex

/-! ## Groups

Groups and index are changed together: a group that is opened gets the next place and an entry, and
states are changed in place. So the link between the two is part of the type. -/

/-- The states of the rows with one key. -/
structure GroupState where
  key : Row
  states : List AggState

/-- Groups in the order in which they were opened, with an index. -/
structure IndexedGroups where
  list : List GroupState
  index : GroupIndex
  /-- The index finds the first group of a key, where it is in the list. -/
  indexed : ∀ key, index.slot? ⟨key⟩ = list.findIdx? fun g => Scalar.sameKeys g.key key

namespace IndexedGroups

def empty (hasher : Hasher) : IndexedGroups := ⟨[], .empty hasher, fun _ => rfl⟩

/-- The place of the group of a key, if there is one. -/
def slot? (groups : IndexedGroups) (key : Row) : Option Nat := groups.index.slot? ⟨key⟩

/-- **The hash function decides nothing**: what is found depends on the groups alone. -/
theorem slot?_congr {groups groups' : IndexedGroups} (h : groups.list = groups'.list) (key : Row) :
    groups.slot? key = groups'.slot? key := by
  unfold slot?
  rw [groups.indexed, groups'.indexed, h]

/-- A group that is put at the end, and its key into the index, is found there. -/
theorem indexed_concat {groups : IndexedGroups} {key : Row} (h : groups.slot? key = none)
    (states : List AggState) (other : Row) :
    (groups.index.insert ⟨key⟩ groups.list.length).slot? ⟨other⟩ =
      (groups.list ++ [(⟨key, states⟩ : GroupState)]).findIdx? fun g =>
        Scalar.sameKeys g.key other := by
  rw [GroupIndex.slot?_insert, List.findIdx?_append]
  cases hsame : (GroupKey.mk key == GroupKey.mk other) with
  | true =>
    have hkeys : Scalar.sameKeys key other = true := hsame
    -- no earlier group has the key
    have hnone : (groups.list.findIdx? fun g => Scalar.sameKeys g.key other) = none := by
      rw [← h, slot?, groups.indexed]
      simp only [Scalar.sameKeys_congr_right hkeys]
    simp [hnone, hkeys]
  | false =>
    have hkeys : Scalar.sameKeys key other = false := hsame
    simp [groups.indexed, hkeys]

/-- The groups with one for a key that has none. -/
def opened (groups : IndexedGroups) (key : Row) (states : List AggState) : IndexedGroups :=
  match h : groups.slot? key with
  | some _ => groups
  | none =>
    ⟨groups.list ++ [⟨key, states⟩], groups.index.insert ⟨key⟩ groups.list.length,
      indexed_concat h states⟩

/-- Where a key is found depends on the keys alone, -/
theorem findIdx?_key (key : Row) (list : List GroupState) :
    (list.findIdx? fun g => Scalar.sameKeys g.key key) =
      (list.map (·.key)).findIdx? fun k => Scalar.sameKeys k key := by
  rw [List.findIdx?_map]
  rfl

/-- and these stay as they are when states change. -/
theorem map_key_modify (slot : Nat) (states : List AggState) (list : List GroupState) :
    (list.modify slot fun g => { g with states }).map (·.key) = list.map (·.key) := by
  apply List.ext_getElem?
  intro i
  simp only [List.getElem?_map, List.getElem?_modify]
  cases list[i]? with
  | none => rfl
  | some g => by_cases hi : slot = i <;> simp [hi]

/-- The groups with other states in one place. -/
def setStates (groups : IndexedGroups) (slot : Nat) (states : List AggState) : IndexedGroups where
  list := groups.list.modify slot fun g => { g with states }
  index := groups.index
  indexed key := by rw [groups.indexed, findIdx?_key, findIdx?_key, map_key_modify]

theorem opened_of_isSome {groups : IndexedGroups} {key : Row} (h : (groups.slot? key).isSome)
    (states : List AggState) : groups.opened key states = groups := by
  unfold opened
  split
  · rfl
  · next hnone => simp [hnone] at h

theorem list_opened (groups : IndexedGroups) (key : Row) (states : List AggState) :
    (groups.opened key states).list =
      if (groups.slot? key).isSome then groups.list else groups.list ++ [⟨key, states⟩] := by
  unfold opened
  split
  · next h => simp [h]
  · next h => simp [h]

theorem slot?_opened (groups : IndexedGroups) (key : Row) (states : List AggState) :
    (groups.opened key states).slot? key = (groups.slot? key).or (some groups.list.length) := by
  unfold opened
  split
  · next h => simp [h]
  · next h =>
    show (groups.index.insert ⟨key⟩ groups.list.length).slot? ⟨key⟩ = _
    rw [GroupIndex.slot?_insert, if_pos BEq.rfl, h]
    rfl

end IndexedGroups

end RowStream
