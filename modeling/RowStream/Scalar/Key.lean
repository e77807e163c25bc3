import RowStream.Scalar.Order
import RowStream.Scalar.Size

/-!
# Keys

Two scalars belong to one group if and only if they have the same canonical form, in which all NaNs
are one word, both zeros are another, and arrays are canonical item by item. So belonging together is
an equivalence, whatever is nested in the keys. What a scalar feeds to a hash is its canonical form, so
that scalars that belong together are hashed alike, whatever the hash function.

* `FloatKeys` — what the canonical form of a floating-point number rests on, for both widths.
* `Scalar.canonical` — canonical forms of scalars.
* `Scalar.sameKey_iff`, `Scalar.sameKeys_iff` — what they are for.
* `Scalar.fed`, `Scalar.fed_eq_of_sameKey` — what hashing reads of a scalar.
-/

namespace RowStream

/-! ## Floating-point numbers

Numbers compare by a key, an integer that is the same for both zeros and different otherwise. With
NaNs set aside this is all that is needed to give each class of equal numbers one word. -/

/-- Numbers that are compared by a key, which only the zeros share. -/
structure FloatKeys (α : Type) where
  isNaN : α → Bool
  key : α → Int
  nan : α
  zero : α
  isNaN_nan : isNaN nan = true
  isNaN_zero : isNaN zero = false
  key_zero : key zero = 0
  key_inj : ∀ x y, key x ≠ 0 → key x = key y → x = y

namespace FloatKeys

variable {α : Type} (f : FloatKeys α)

/-- One word for all NaNs and one for both zeros. -/
def canonical (x : α) : α := if f.isNaN x then f.nan else if f.key x = 0 then f.zero else x

theorem isNaN_canonical (x : α) : f.isNaN (f.canonical x) = f.isNaN x := by
  unfold canonical
  split
  · rw [f.isNaN_nan, ‹f.isNaN x = true›]
  · split
    · rw [f.isNaN_zero, Bool.eq_false_iff.2 ‹¬f.isNaN x = true›]
    · rfl

theorem key_canonical {x : α} (h : f.isNaN x = false) : f.key (f.canonical x) = f.key x := by
  unfold canonical
  rw [h, if_neg Bool.false_ne_true]
  split
  · rw [f.key_zero, ‹f.key x = 0›]
  · rfl

/-- Numbers with one key have one canonical form. -/
theorem canonical_of_key_eq {x y : α} (hx : f.isNaN x = false) (hy : f.isNaN y = false)
    (h : f.key x = f.key y) : f.canonical x = f.canonical y := by
  unfold canonical
  rw [hx, hy, ← h]
  by_cases hzero : f.key x = 0
  · simp [hzero]
  · simp [f.key_inj x y hzero h]

/-- A canonical form is its own. -/
theorem canonical_canonical (x : α) : f.canonical (f.canonical x) = f.canonical x := by
  cases hx : f.isNaN x with
  | true => simp [canonical, hx, f.isNaN_nan]
  | false =>
    have hcanonical : f.isNaN (f.canonical x) = false := by rw [f.isNaN_canonical, hx]
    exact f.canonical_of_key_eq hcanonical hx (f.key_canonical hx)

theorem canonical_ne {x y : α} (h : f.isNaN x ≠ f.isNaN y) : f.canonical x ≠ f.canonical y := by
  intro heq
  apply h
  rw [← f.isNaN_canonical x, heq, f.isNaN_canonical]

/-- **Canonical forms decide** whether numbers are both NaN or compare equal. -/
theorem same_iff (x y : α) :
    ((f.isNaN x && f.isNaN y) || (!f.isNaN x && !f.isNaN y && f.key x == f.key y)) = true ↔
      f.canonical x = f.canonical y := by
  cases hx : f.isNaN x <;> cases hy : f.isNaN y
  · constructor
    · intro h
      exact f.canonical_of_key_eq hx hy (by simpa using h)
    · intro h
      have hkeys := congrArg f.key h
      rw [f.key_canonical hx, f.key_canonical hy] at hkeys
      simpa using hkeys
  · simp [f.canonical_ne (x := x) (y := y) (by simp [hx, hy])]
  · simp [f.canonical_ne (x := x) (y := y) (by simp [hx, hy])]
  · -- all NaNs are one word
    simp [canonical, hx, hy]

end FloatKeys

/-- The key of a word that has one sign bit. -/
def signedMagnitude (sign word : Nat) : Int :=
  if word < sign then (word % sign : Nat) else -((word % sign : Nat) : Int)

/-- A word that is no zero is known from its key. -/
theorem signedMagnitude_inj (sign : Nat) {m n : Nat} (hm : m < 2 * sign) (hn : n < 2 * sign)
    (hzero : signedMagnitude sign m ≠ 0) (h : signedMagnitude sign m = signedMagnitude sign n) :
    m = n := by
  have hmod {k : Nat} (hk : k < 2 * sign) (hsign : ¬k < sign) : k % sign = k - sign := by
    rw [Nat.mod_eq_sub_mod (by omega), Nat.mod_eq_of_lt (by omega)]
  unfold signedMagnitude at h hzero
  -- words with one sign have different magnitudes; with two signs, only the zeros share a key
  by_cases hmsign : m < sign <;> by_cases hnsign : n < sign <;>
    simp only [hmsign, hnsign, if_true, if_false] at h hzero
  · rw [Nat.mod_eq_of_lt hmsign, Nat.mod_eq_of_lt hnsign] at h
    omega
  · omega
  · omega
  · rw [hmod hm hmsign, hmod hn hnsign] at h
    omega

def Binary32.keys : FloatKeys Binary32 where
  isNaN := isNaN
  key := key
  nan := ⟨0x7fc00000⟩
  zero := ⟨0⟩
  isNaN_nan := by decide
  isNaN_zero := by decide
  key_zero := by decide
  key_inj x y hzero h := by
    have hbits : x.bits.toNat = y.bits.toNat :=
      signedMagnitude_inj Format.binary32.signWord x.bits.toNat_lt y.bits.toNat_lt hzero h
    obtain ⟨bits⟩ := x
    exact congrArg Binary32.mk (UInt32.toNat_inj.1 hbits)

def Binary64.keys : FloatKeys Binary64 where
  isNaN := isNaN
  key := key
  nan := ⟨0x7ff8000000000000⟩
  zero := ⟨0⟩
  isNaN_nan := by decide
  isNaN_zero := by decide
  key_zero := by decide
  key_inj x y hzero h := by
    have hbits : x.bits.toNat = y.bits.toNat :=
      signedMagnitude_inj Format.binary64.signWord x.bits.toNat_lt y.bits.toNat_lt hzero h
    obtain ⟨bits⟩ := x
    exact congrArg Binary64.mk (UInt64.toNat_inj.1 hbits)

/-! ## Scalars

Canonical forms of arrays are arrays of canonical forms, by joint induction. -/

namespace Scalar

mutual

/-- The scalar that stands for all that belong to one group with this one. -/
def canonical : Scalar → Scalar
  | float32 x => float32 (Binary32.keys.canonical x)
  | float64 x => float64 (Binary64.keys.canonical x)
  | array items => array (canonicals items)
  | v => v

def canonicals : List Scalar → List Scalar
  | [] => []
  | v :: vs => canonical v :: canonicals vs

end

mutual

/-- **Scalars belong together if their canonical forms are the same.** -/
theorem sameKey_iff : (a b : Scalar) → (sameKey a b = true ↔ a.canonical = b.canonical)
  | array as, b => by
    cases b <;> simp [sameKey, canonical, sameKeys_iff as]
  | float32 x, b => by
    cases b <;> simp [sameKey, canonical]
    exact Binary32.keys.same_iff x _
  | float64 x, b => by
    cases b <;> simp [sameKey, canonical]
    exact Binary64.keys.same_iff x _
  | null, b | bool _, b | int32 _, b | int64 _, b | text _, b | bytes _, b => by
    cases b <;> simp [sameKey, canonical]

theorem sameKeys_iff : (a b : List Scalar) → (sameKeys a b = true ↔ canonicals a = canonicals b)
  | [], b => by cases b <;> simp [sameKeys, canonicals]
  | a :: as, b => by
    cases b <;> simp [sameKeys, canonicals, sameKey_iff a, sameKeys_iff as]

end

theorem sameKeys_refl (a : List Scalar) : sameKeys a a = true := (sameKeys_iff a a).2 rfl

theorem sameKeys_comm (a b : List Scalar) : sameKeys a b = sameKeys b a := by
  rw [Bool.eq_iff_iff, sameKeys_iff, sameKeys_iff, eq_comm]

/-- Lists of which one belongs to another belong to the same lists. -/
theorem sameKeys_congr {a b : List Scalar} (h : sameKeys a b = true) (c : List Scalar) :
    sameKeys a c = sameKeys b c := by
  rw [Bool.eq_iff_iff, sameKeys_iff, sameKeys_iff, (sameKeys_iff a b).1 h]

theorem sameKeys_congr_right {a b : List Scalar} (h : sameKeys a b = true) (c : List Scalar) :
    sameKeys c a = sameKeys c b := by
  rw [sameKeys_comm c, sameKeys_comm c, sameKeys_congr h]

end Scalar

/-! ## Hashing

Hashing reads the canonical form, one kind of value after a tag of its own. So scalars with one
canonical form feed the same bytes. -/

/-- A number in so many bytes, the least significant one first. -/
def littleEndian (n : Nat) : (width : Nat) → List UInt8
  | 0 => []
  | width + 1 => n.toUInt8 :: littleEndian (n / 256) width

namespace Scalar

mutual

/-- The bytes that a scalar feeds to a hash: the rank of its type and its value, floating-point numbers
in canonical form. A text ends with a byte that no text has, and what has a length begins with it. -/
def fed : Scalar → List UInt8
  | null => [0]
  | bool b => [1, b.toUInt8]
  | int32 n => 2 :: littleEndian n.toUInt32.toNat 4
  | int64 n => 3 :: littleEndian n.toUInt64.toNat 8
  | float32 x => 4 :: littleEndian (Binary32.keys.canonical x).bits.toNat 4
  | float64 x => 5 :: littleEndian (Binary64.keys.canonical x).bits.toNat 8
  | text s => 6 :: s.toUTF8.data.toList ++ [0xff]
  | bytes b => 7 :: littleEndian b.length 8 ++ b
  | array items => 8 :: littleEndian items.length 8 ++ fedAll items

/-- The bytes that several scalars feed to a hash, one after the other. -/
def fedAll : List Scalar → List UInt8
  | [] => []
  | v :: vs => fed v ++ fedAll vs

end

theorem length_canonicals (vs : List Scalar) : (canonicals vs).length = vs.length := by
  induction vs with
  | nil => rfl
  | cons v vs ih => rw [canonicals, List.length_cons, List.length_cons, ih]

mutual

/-- Hashing reads the canonical form. -/
theorem fed_canonical : (v : Scalar) → fed v.canonical = fed v
  | array items => by simp [canonical, fed, fedAll_canonicals items, length_canonicals]
  | float32 x => by simp [canonical, fed, Binary32.keys.canonical_canonical]
  | float64 x => by simp [canonical, fed, Binary64.keys.canonical_canonical]
  | null | bool _ | int32 _ | int64 _ | text _ | bytes _ => by simp [canonical]

theorem fedAll_canonicals : (vs : List Scalar) → fedAll (canonicals vs) = fedAll vs
  | [] => rfl
  | v :: vs => by rw [canonicals, fedAll, fedAll, fed_canonical v, fedAll_canonicals vs]

end

/-- **Scalars that belong together are hashed alike.** -/
theorem fed_eq_of_sameKey {a b : Scalar} (h : sameKey a b = true) : fed a = fed b := by
  rw [← fed_canonical a, (sameKey_iff a b).1 h, fed_canonical]

/-- So are lists of which one belongs to the other, which are of one length as well. -/
theorem fedAll_eq_of_sameKeys {a b : List Scalar} (h : sameKeys a b = true) :
    a.length = b.length ∧ fedAll a = fedAll b := by
  have hcanonical := (sameKeys_iff a b).1 h
  constructor
  · rw [← length_canonicals a, hcanonical, length_canonicals]
  · rw [← fedAll_canonicals a, hcanonical, fedAll_canonicals]

end Scalar

end RowStream
