import V8InspectorMinimal.Base.Loops
import V8InspectorMinimal.SoyV8.Values

/-! `TV8Allocator`, which allocates the memory of array buffers. V8 wants it set to zero, which
`Allocate` does byte by byte, counting in an `int`. -/

namespace V8Min.SoyV8
open Loops Traversal

def Block (length : UInt64) := {bytes : List UInt8 // bytes.length = length.toNat}

/-- The heap decides what `AllocRaw` gives for a length, `none` for null. -/
structure TV8Allocator where
  allocRaw : (length : UInt64) → Option (Block length)

namespace TV8Allocator
variable (allocator : TV8Allocator) (length : UInt64)

def allocateUninitialized : Option (Block length) := allocator.allocRaw length

def writeZero (i : Int32) : Option (List UInt8) → Option (List UInt8) × Except Fault Unit
  -- `Bytes[i] = 0` behind null, or outside of the block
  | none => (none, .error .undefinedBehaviour)
  | some bytes =>
    if 0 ≤ i.toInt ∧ i.toInt < bytes.length then (some (bytes.set i.toInt.toNat 0), .ok ())
    else (some bytes, .error .undefinedBehaviour)

def allocate (fuel : ℕ) : Option (Option (List UInt8) × Except Fault Unit) :=
  intLoop (fun i _ => toSizeT i < length) (fun i bytes => some (writeZero i bytes)) fuel
    ((allocator.allocateUninitialized length).map Subtype.val)

def Zeroes : Prop :=
  Returns (allocator.allocate length)
    ((allocator.allocateUninitialized length).map fun _ => List.replicate length.toNat 0, .ok ())

variable {allocator length}

theorem set_replicate_append {bytes : List UInt8} {m : ℕ} (hm : m < bytes.length) :
    (List.replicate m 0 ++ bytes.drop m).set m 0 =
      List.replicate (m + 1) 0 ++ bytes.drop (m + 1) := by
  have hlength : (List.replicate m (0 : UInt8)).length = m := List.length_replicate
  rw [List.set_append_right _ _ (Nat.le_of_eq hlength), hlength, Nat.sub_self,
    List.drop_eq_getElem_cons hm, List.set_cons_zero, List.replicate_succ', List.append_assoc,
    List.singleton_append]

theorem replicate_append_eq_iff {l : List UInt8} {m n : ℕ} (hn : m + l.length = n) :
    List.replicate m 0 ++ l = List.replicate n 0 ↔ ∀ b ∈ l, b = 0 := by
  rw [← hn, List.replicate_add, List.append_cancel_left_eq, List.eq_replicate_iff]
  exact and_iff_right rfl

theorem writeZero_of_lt {bytes : List UInt8} {k : ℕ} (hk : k < bytes.length) (hk31 : k < 2 ^ 31) :
    writeZero (.ofNat k) (some bytes) = (some (bytes.set k 0), .ok ()) := by
  have hindex : (Int32.ofNat k).toInt = k := Int32.toInt_ofNat_of_lt hk31
  rw [writeZero, hindex, if_pos ⟨Int.natCast_nonneg k, Int.ofNat_lt.mpr hk⟩, Int.toNat_natCast]

theorem forEach_writeZero {bytes : List UInt8} {m : ℕ} (hm : m ≤ bytes.length)
    (hm31 : m ≤ 2 ^ 31) :
    forEach (fun k bytes => some (writeZero (.ofNat k) bytes)) (List.range m) (some bytes) =
      some (some (List.replicate m 0 ++ bytes.drop m), .ok ()) := by
  induction m with
  | zero => rfl
  | succ m ih =>
    have hbefore := ih (Nat.le_of_succ_le hm) (Nat.le_of_succ_le hm31)
    have hlength : m < (List.replicate m 0 ++ bytes.drop m).length := by
      rw [List.length_append, List.length_replicate, List.length_drop]
      omega
    have hwrite := writeZero_of_lt hlength hm31
    rw [set_replicate_append hm] at hwrite
    rw [List.range_succ, forEach_append_ok hbefore]
    exact forEach_cons_ok (congrArg some hwrite)

theorem allocate_returns {result : Option (List UInt8) × Except Fault Unit}
    (hloop : forEach (fun k bytes => some (writeZero (.ofNat k) bytes))
      (List.range (sizeRounds length.toNat))
      ((allocator.allocateUninitialized length).map Subtype.val) = some result) :
    Returns (allocator.allocate length) result :=
  ⟨sizeRounds length.toNat + 1, fun _ hfuel => (intLoop_sizeT length hfuel _).trans hloop⟩

theorem zeroes_iff_of_null (hnull : allocator.allocateUninitialized length = none) :
    allocator.Zeroes length ↔ length = 0 := by
  unfold Zeroes
  constructor
  · intro hzeroes
    by_contra hlength
    have hpos : 0 < sizeRounds length.toNat := by
      have hne : length.toNat ≠ 0 := fun h => hlength (UInt64.toNat_inj.mp h)
      unfold sizeRounds
      split_ifs <;> omega
    have hfails : forEach (fun k bytes => some (writeZero (.ofNat k) bytes))
        (List.range (sizeRounds length.toNat))
        ((allocator.allocateUninitialized length).map Subtype.val) =
        some (none, .error .undefinedBehaviour) := by
      rw [hnull]
      exact forEach_range_error hpos rfl rfl
    have hresult := hzeroes.unique (allocate_returns hfails)
    exact absurd (congrArg Prod.snd hresult) (by simp)
  · rintro rfl
    apply allocate_returns
    rw [hnull]
    rfl

section Block
variable {block : Block length}

theorem allocate_of_le (hblock : allocator.allocateUninitialized length = some block)
    (hle : length.toNat ≤ 2 ^ 64 - 2 ^ 31) :
    Returns (allocator.allocate length) (some
      (List.replicate (min length.toNat (2 ^ 31)) 0 ++ block.val.drop (2 ^ 31)), .ok ()) := by
  have hmin : min length.toNat (2 ^ 31) ≤ block.val.length :=
    block.property.symm ▸ Nat.min_le_left _ _
  have hdrop : block.val.drop (min length.toNat (2 ^ 31)) = block.val.drop (2 ^ 31) := by
    have hlength := block.property
    rcases Nat.le_total length.toNat (2 ^ 31) with hshort | hlong
    · rw [List.drop_eq_nil_of_le (by omega), List.drop_eq_nil_of_le (by omega)]
    · rw [Nat.min_eq_right hlong]
  apply allocate_returns
  rw [hblock, sizeRounds_of_le hle, ← hdrop]
  exact forEach_writeZero hmin (Nat.min_le_right _ _)

theorem allocate_of_lt (hblock : allocator.allocateUninitialized length = some block)
    (hlt : 2 ^ 64 - 2 ^ 31 < length.toNat) :
    ∃ bytes, Returns (allocator.allocate length) (some bytes, .error .undefinedBehaviour) := by
  have hlength : 2 ^ 31 ≤ block.val.length := by
    rw [block.property]
    omega
  have hbefore := forEach_writeZero hlength (Nat.le_refl _)
  refine ⟨List.replicate (2 ^ 31) 0 ++ block.val.drop (2 ^ 31), allocate_returns ?_⟩
  rw [hblock]
  refine forEach_range_error (lt_sizeRounds hlt) hbefore (congrArg some ?_)
  have hnegative : ¬ 0 ≤ (Int32.ofNat (2 ^ 31)).toInt := by decide
  rw [writeZero, if_neg fun h => hnegative h.1]

theorem zeroes_iff_of_block (hblock : allocator.allocateUninitialized length = some block) :
    allocator.Zeroes length ↔
      length.toNat ≤ 2 ^ 64 - 2 ^ 31 ∧ ∀ b ∈ block.val.drop (2 ^ 31), b = 0 := by
  unfold Zeroes
  rw [hblock, Option.map_some]
  rcases Nat.lt_or_ge (2 ^ 64 - 2 ^ 31) length.toNat with hlt | hle
  · obtain ⟨bytes, hfails⟩ := allocate_of_lt hblock hlt
    rw [hfails.returns_iff]
    constructor
    · intro hresult
      exact absurd (congrArg Prod.snd hresult) (by simp)
    · intro h
      exact absurd h.1 (Nat.not_le_of_lt hlt)
  · have hlength : min length.toNat (2 ^ 31) + (block.val.drop (2 ^ 31)).length =
        length.toNat := by
      rw [List.length_drop, block.property]
      omega
    have hzeroes := replicate_append_eq_iff hlength
    rw [(allocate_of_le hblock hle).returns_iff, and_iff_right hle, ← hzeroes]
    simp

end Block

variable (allocator length) in
/-- The condition under which `Allocate` does what V8 asks: the bytes that the loop does not come to
are zero already, and there is a block if the loop makes any round. -/
def Clears : Prop :=
  match allocator.allocateUninitialized length with
  | none => length = 0
  | some block => length.toNat ≤ 2 ^ 64 - 2 ^ 31 ∧ ∀ b ∈ block.val.drop (2 ^ 31), b = 0

theorem zeroes_iff_clears : allocator.Zeroes length ↔ allocator.Clears length := by
  unfold Clears
  cases hblock : allocator.allocateUninitialized length with
  | none => exact zeroes_iff_of_null hblock
  | some block => exact zeroes_iff_of_block hblock

theorem Clears.of_le {block : Block length}
    (hblock : allocator.allocateUninitialized length = some block) (hle : length.toNat ≤ 2 ^ 31) :
    allocator.Clears length := by
  have hnil : block.val.drop (2 ^ 31) = [] := by
    rw [List.drop_eq_nil_iff, block.property]
    exact hle
  unfold Clears
  rw [hblock]
  show _ ∧ ∀ b ∈ block.val.drop (2 ^ 31), b = 0
  rw [hnil]
  exact ⟨Nat.le_trans hle (by decide), fun b hb => absurd hb List.not_mem_nil⟩

def ones : TV8Allocator where
  allocRaw length := some ⟨List.replicate length.toNat 1, List.length_replicate⟩

theorem le_of_clears_ones (hclears : ones.Clears length) : length.toNat ≤ 2 ^ 31 := by
  have hzero : ∀ b ∈ (List.replicate length.toNat (1 : UInt8)).drop (2 ^ 31), b = 0 := hclears.2
  rw [List.drop_replicate] at hzero
  by_contra hlt
  have hmem : 1 ∈ List.replicate (length.toNat - 2 ^ 31) (1 : UInt8) :=
    List.mem_replicate.mpr ⟨by omega, rfl⟩
  exact absurd (hzero 1 hmem) (by decide)

/-- The exact condition, for a block or a null that is given and for every block of a length. -/
theorem allocate_zeroes_iff (length : UInt64) :
    (∀ allocator : TV8Allocator, allocator.Zeroes length ↔ allocator.Clears length) ∧
      ((∀ allocator : TV8Allocator, (allocator.allocateUninitialized length).isSome →
        allocator.Zeroes length) ↔ length.toNat ≤ 2 ^ 31) := by
  refine ⟨fun allocator => zeroes_iff_clears, fun hall => ?_, fun hle allocator hsome => ?_⟩
  · have hones : ones.Zeroes length := hall ones rfl
    exact le_of_clears_ones (zeroes_iff_clears.mp hones)
  · obtain ⟨block, hblock⟩ := Option.isSome_iff_exists.mp hsome
    exact zeroes_iff_clears.mpr (.of_le hblock hle)

def exhausted : TV8Allocator where
  allocRaw _ := none

theorem allocate_leaves_ones :
    Returns (ones.allocate 2147483649)
        (some (List.replicate 2147483648 0 ++ [1]), .ok ()) ∧
      ¬ ones.Zeroes 2147483649 ∧
      exhausted.allocate 1 2 = some (none, .error .undefinedBehaviour) ∧ ¬ exhausted.Zeroes 1 := by
  have hlength : (2147483649 : UInt64).toNat = 2147483649 := by decide
  have hblock : ones.allocateUninitialized 2147483649 =
      some ⟨List.replicate (2147483649 : UInt64).toNat 1, List.length_replicate⟩ := rfl
  have hreturns := allocate_of_le hblock (by decide)
  rw [List.drop_replicate, hlength] at hreturns
  refine ⟨hreturns, fun hzeroes => ?_, rfl, fun hzeroes => ?_⟩
  · have hle := le_of_clears_ones (zeroes_iff_clears.mp hzeroes)
    exact absurd hle (by decide)
  · have hnull : (1 : UInt64) = 0 := zeroes_iff_clears.mp hzeroes
    exact absurd hnull (by decide)

end TV8Allocator
end V8Min.SoyV8
