import Mathlib.Algebra.Group.Nat.Defs
import Mathlib.Data.List.Basic

/-! Little-endian bytes, and arrays of elements of one size seen as memory: a block of elements is
the concatenation of their bytes, and what is written over the bytes is read back as elements. -/

namespace Bytes

def encode : ℕ → ℕ → List UInt8
  | 0, _ => []
  | size + 1, n => UInt8.ofNat n :: encode size (n / 256)

def value : List UInt8 → ℕ
  | [] => 0
  | b :: bs => b.toNat + 256 * value bs

theorem length_encode (size n : ℕ) : (encode size n).length = size := by
  induction size generalizing n with
  | zero => rfl
  | succ size ih => rw [encode, List.length_cons, ih]

theorem value_lt (bs : List UInt8) : value bs < 256 ^ bs.length := by
  induction bs with
  | nil => exact Nat.one_pos
  | cons b bs ih =>
    have hb := b.toNat_lt
    rw [value, List.length_cons, Nat.pow_succ]
    omega

theorem value_encode {size n : ℕ} (h : n < 256 ^ size) : value (encode size n) = n := by
  induction size generalizing n with
  | zero =>
    rw [Nat.pow_zero, Nat.lt_one_iff] at h
    exact h.symm
  | succ size ih =>
    rw [Nat.pow_succ] at h
    have hdiv : n / 256 < 256 ^ size := Nat.div_lt_of_lt_mul (Nat.mul_comm _ _ ▸ h)
    have hbyte : (UInt8.ofNat n).toNat = n % 256 := UInt8.toNat_ofNat'
    rw [encode, value, ih hdiv, hbyte]
    omega

theorem encode_value (bs : List UInt8) : encode bs.length (value bs) = bs := by
  induction bs with
  | nil => rfl
  | cons b bs ih =>
    have hb := b.toNat_lt
    have hlow : (b.toNat + 256 * value bs) % 256 = b.toNat := by omega
    have hbyte : UInt8.ofNat (b.toNat + 256 * value bs) = b := by
      apply UInt8.toNat.inj
      rw [UInt8.toNat_ofNat']
      exact hlow
    have hhigh : (b.toNat + 256 * value bs) / 256 = value bs := by omega
    rw [List.length_cons, value, encode, hbyte, hhigh, ih]

/-- A type whose values take a fixed number of bytes, each value its own. -/
class Scalar (ε : Type*) where
  size : ℕ
  size_pos : 0 < size
  toBytes : ε → List UInt8
  ofBytes : List UInt8 → ε
  length_toBytes : ∀ x, (toBytes x).length = size
  ofBytes_toBytes : ∀ x, ofBytes (toBytes x) = x
  toBytes_ofBytes : ∀ bs, bs.length = size → toBytes (ofBytes bs) = bs

@[reducible] def Scalar.littleEndian {ε : Type*} (size : ℕ) (size_pos : 0 < size) (toNat : ε → ℕ)
    (ofNat : ℕ → ε) (toNat_lt : ∀ x, toNat x < 256 ^ size) (ofNat_toNat : ∀ x, ofNat (toNat x) = x)
    (toNat_ofNat : ∀ n, n < 256 ^ size → toNat (ofNat n) = n) : Scalar ε where
  size := size
  size_pos := size_pos
  toBytes x := encode size (toNat x)
  ofBytes bs := ofNat (value bs)
  length_toBytes x := length_encode size (toNat x)
  ofBytes_toBytes x := by rw [value_encode (toNat_lt x), ofNat_toNat]
  toBytes_ofBytes bs h := by
    subst h
    rw [toNat_ofNat _ (value_lt bs), encode_value]

instance : Scalar UInt8 :=
  .littleEndian 1 (by decide) UInt8.toNat UInt8.ofNat (fun x => x.toNat_lt)
    (fun _ => UInt8.ofNat_toNat) fun _ h => UInt8.toNat_ofNat_of_lt' h

instance : Scalar UInt16 :=
  .littleEndian 2 (by decide) UInt16.toNat UInt16.ofNat (fun x => x.toNat_lt)
    (fun _ => UInt16.ofNat_toNat) fun _ h => UInt16.toNat_ofNat_of_lt' h

instance : Scalar UInt32 :=
  .littleEndian 4 (by decide) UInt32.toNat UInt32.ofNat (fun x => x.toNat_lt)
    (fun _ => UInt32.ofNat_toNat) fun _ h => UInt32.toNat_ofNat_of_lt' h

instance : Scalar Int8 :=
  .littleEndian 1 (by decide) (fun x => x.toUInt8.toNat) (fun n => (UInt8.ofNat n).toInt8)
    (fun x => x.toUInt8.toNat_lt) (fun x => congrArg Int8.ofUInt8 UInt8.ofNat_toNat)
    fun _ h => UInt8.toNat_ofNat_of_lt' h

instance : Scalar Int16 :=
  .littleEndian 2 (by decide) (fun x => x.toUInt16.toNat) (fun n => (UInt16.ofNat n).toInt16)
    (fun x => x.toUInt16.toNat_lt) (fun x => congrArg Int16.ofUInt16 UInt16.ofNat_toNat)
    fun _ h => UInt16.toNat_ofNat_of_lt' h

instance : Scalar Int32 :=
  .littleEndian 4 (by decide) (fun x => x.toUInt32.toNat) (fun n => (UInt32.ofNat n).toInt32)
    (fun x => x.toUInt32.toNat_lt) (fun x => congrArg Int32.ofUInt32 UInt32.ofNat_toNat)
    fun _ h => UInt32.toNat_ofNat_of_lt' h

section Memory
variable {ε : Type*} [Scalar ε]

def memory (xs : List ε) : List UInt8 := xs.flatMap Scalar.toBytes

def elements (ε : Type*) [Scalar ε] : ℕ → List UInt8 → List ε
  | 0, _ => []
  | n + 1, bs => Scalar.ofBytes (bs.take (Scalar.size ε)) :: elements ε n (bs.drop (Scalar.size ε))

/-- Memory after a copy from index 0. -/
def write (written bs : List UInt8) : List UInt8 := written ++ bs.drop written.length

theorem length_memory (xs : List ε) : (memory xs).length = Scalar.size ε * xs.length := by
  unfold memory
  induction xs with
  | nil => rfl
  | cons x xs ih =>
    rw [List.flatMap_cons, List.length_append, Scalar.length_toBytes, ih, List.length_cons]
    exact (Nat.add_comm _ _).trans (Nat.mul_succ _ _).symm

theorem length_elements (n : ℕ) (bs : List UInt8) : (elements ε n bs).length = n := by
  induction n generalizing bs with
  | zero => rfl
  | succ n ih => rw [elements, List.length_cons, ih]

theorem elements_memory (xs : List ε) : elements ε xs.length (memory xs) = xs := by
  induction xs with
  | nil => rfl
  | cons x xs ih =>
    have hsize := Scalar.length_toBytes x
    have hsplit : memory (x :: xs) = Scalar.toBytes x ++ memory xs := List.flatMap_cons
    rw [List.length_cons, elements, hsplit, List.take_left' hsize, List.drop_left' hsize,
      Scalar.ofBytes_toBytes, ih]

theorem memory_elements {n : ℕ} {bs : List UInt8} (h : bs.length = Scalar.size ε * n) :
    memory (elements ε n bs) = bs := by
  induction n generalizing bs with
  | zero => exact (List.length_eq_zero_iff.mp h).symm
  | succ n ih =>
    have hle : Scalar.size ε ≤ bs.length := by
      rw [h, Nat.mul_succ]
      exact Nat.le_add_left _ _
    have htake : (bs.take (Scalar.size ε)).length = Scalar.size ε := by
      rw [List.length_take, Nat.min_eq_left hle]
    have hdrop : (bs.drop (Scalar.size ε)).length = Scalar.size ε * n := by
      rw [List.length_drop, h, Nat.mul_succ, Nat.add_sub_cancel]
    have hrest := ih hdrop
    unfold memory at hrest ⊢
    rw [elements, List.flatMap_cons, Scalar.toBytes_ofBytes _ htake, hrest, List.take_append_drop]

theorem memory_uint8 (bs : List UInt8) : memory bs = bs := by
  have hbyte (b : UInt8) : Scalar.toBytes b = [b] := congrArg (fun b => [b]) UInt8.ofNat_toNat
  unfold memory
  induction bs with
  | nil => rfl
  | cons b bs ih => rw [List.flatMap_cons, hbyte, ih, List.singleton_append]

theorem elements_uint8 (bs : List UInt8) : elements UInt8 bs.length bs = bs := by
  have h := elements_memory bs
  rw [memory_uint8] at h
  exact h

theorem write_of_length_le {written bs : List UInt8} (h : bs.length ≤ written.length) :
    write written bs = written := by
  rw [write, List.drop_eq_nil_of_le h, List.append_nil]

theorem length_write {written bs : List UInt8} (h : written.length ≤ bs.length) :
    (write written bs).length = bs.length := by
  rw [write, List.length_append, List.length_drop, Nat.add_sub_cancel' h]

theorem getElem?_write (written bs : List UInt8) (i : ℕ) :
    (write written bs)[i]? = if i < written.length then written[i]? else bs[i]? := by
  unfold write
  split
  · rename_i h
    exact List.getElem?_append_left h
  · rename_i h
    have hle := Nat.le_of_not_lt h
    rw [List.getElem?_append_right hle, List.getElem?_drop, Nat.add_sub_cancel' hle]

end Memory
end Bytes
