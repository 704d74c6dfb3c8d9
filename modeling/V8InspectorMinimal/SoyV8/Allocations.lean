import V8InspectorMinimal.Base.Blocks
import V8InspectorMinimal.Base.Runs
import V8InspectorMinimal.SoyV8.Allocator

/-! `TV8Allocator` over many calls. Behind it is one memory, in which the heap chooses the blocks
that it gives out. As long as the heap gives out what is unused, V8 sees buffers of which each has
bytes of its own. -/

namespace V8Min.SoyV8.TV8Allocator
open Blocks Function Loops Runs Traversal

structure Arena where
  memory : Pointer → UInt8 := fun _ => 0
  blocks : ℕ → Option Region := fun _ => none
  next : ℕ := 0

namespace Arena

def bytes (s : Arena) (r : Region) : List UInt8 :=
  (List.range r.length).map fun i => s.memory (r.start + i)

theorem length_bytes (s : Arena) (r : Region) : (s.bytes r).length = r.length := by
  rw [bytes, List.length_map, List.length_range]

def Unused (s : Arena) (r : Region) : Prop := ∀ k < s.next, ∀ r' ∈ s.blocks k, r'.Apart r

instance (s : Arena) (r : Region) : Decidable (s.Unused r) :=
  inferInstanceAs (Decidable (∀ k < s.next, ∀ r' ∈ s.blocks k, r'.Apart r))

def allocator (s : Arena) (data : Option Pointer) : TV8Allocator where
  allocRaw length := data.map fun start =>
    ⟨s.bytes ⟨start, length.toNat⟩, s.length_bytes _⟩

def give (s : Arena) (r : Region) (bytes : List UInt8) : Arena where
  memory := overwrite s.memory r.start bytes
  blocks := update s.blocks s.next (some r)
  next := s.next + 1

def receive (s : Arena) (data : Option Pointer) (length : UInt64) (bytes : Option (List UInt8)) :
    Arena :=
  match data, bytes with
  | some start, some bytes => s.give ⟨start, length.toNat⟩ bytes
  | _, _ => s

end Arena

/-- With the calls, what V8 writes into a block, and what the heap writes by itself. -/
inductive AllocatorAct where
  | allocate (length : UInt64) (data : Option Pointer)
  | allocateUninitialized (length : UInt64) (data : Option Pointer)
  | free (k : ℕ)
  | write (k i : ℕ) (b : UInt8)
  | heapWrites (address : Pointer) (b : UInt8)
  deriving DecidableEq

def arenaStep (s : Arena) : AllocatorAct → Option (Except Fault Arena)
  | .allocate length data =>
    ((s.allocator data).allocate length (sizeRounds length.toNat + 1)).map fun
      | (bytes, .ok ()) => .ok (s.receive data length bytes)
      | (_, .error e) => .error e
  | .allocateUninitialized length data =>
    some (.ok (s.receive data length
      (((s.allocator data).allocateUninitialized length).map Subtype.val)))
  -- FreeRaw, with the data and the length of the block
  | .free k => (s.blocks k).map fun _ => .ok { s with blocks := update s.blocks k none }
  | .write k i b =>
    (s.blocks k).bind fun r =>
      if i < r.length then some (.ok { s with memory := update s.memory (r.start + i) b })
      else none
  | .heapWrites address b => some (.ok { s with memory := update s.memory address b })

/-- The contract of SoyLib's heap: what `AllocRaw` gives is unused, and so is all that the heap
writes to by itself. -/
def HeapContract (s : Arena) : AllocatorAct → Prop
  | .allocate length data | .allocateUninitialized length data =>
    ∀ start ∈ data, s.Unused ⟨start, length.toNat⟩
  | .heapWrites address _ => s.Unused ⟨address, 1⟩
  | .free _ | .write _ _ _ => True

instance (s : Arena) : DecidablePred (HeapContract s)
  | .allocate length data | .allocateUninitialized length data =>
    inferInstanceAs (Decidable (∀ start ∈ data, s.Unused ⟨start, length.toNat⟩))
  | .heapWrites address _ => inferInstanceAs (Decidable (s.Unused ⟨address, 1⟩))
  | .free _ | .write _ _ _ => .isTrue trivial

structure Buffers where
  known : ℕ → Option (List (Option UInt8)) := fun _ => none
  next : ℕ := 0

def Buffers.give (x : Buffers) (data : Option Pointer) (known : List (Option UInt8)) : Buffers :=
  match data with
  | some _ => { known := update x.known x.next (some known), next := x.next + 1 }
  | none => x

def bufferStep (x : Buffers) : AllocatorAct → Option Buffers
  | .allocate length data => some (x.give data (List.replicate length.toNat (some 0)))
  | .allocateUninitialized length data => some (x.give data (List.replicate length.toNat none))
  | .free k => (x.known k).map fun _ => { x with known := update x.known k none }
  | .write k i b =>
    (x.known k).map fun known => { x with known := update x.known k (some (known.set i (some b))) }
  | .heapWrites _ _ => some x

def AllocatorAct.Served : AllocatorAct → Prop
  | .allocate length data => length.toNat ≤ 2 ^ 31 ∧ (data = none → length = 0)
  | _ => True

instance : DecidablePred AllocatorAct.Served
  | .allocate length data => inferInstanceAs (Decidable (_ ∧ (data = none → length = 0)))
  | .allocateUninitialized _ _ | .free _ | .write _ _ _ | .heapWrites _ _ => .isTrue trivial

/-! ## A call -/

theorem allocate_eq_zeroes {allocator : TV8Allocator} {length : UInt64}
    (hlength : length.toNat ≤ 2 ^ 31)
    (hsome : (allocator.allocateUninitialized length).isSome) :
    allocator.allocate length (sizeRounds length.toNat + 1) =
      some (some (List.replicate length.toNat 0), .ok ()) := by
  obtain ⟨block, hblock⟩ := Option.isSome_iff_exists.mp hsome
  have hrounds : sizeRounds length.toNat = length.toNat := sizeRounds_eq_iff.mpr hlength
  have hzeroes := forEach_writeZero (Nat.le_of_eq block.property.symm) hlength
  rw [List.drop_eq_nil_of_le (Nat.le_of_eq block.property), List.append_nil] at hzeroes
  rw [allocate, intLoop_sizeT length (Nat.lt_succ_self _), hrounds, hblock]
  exact hzeroes

structure ArenaInv (s : Arena) (x : Buffers) : Prop where
  represents : Represents s.memory s.blocks x.known
  next : x.next = s.next
  fresh : ∀ k, s.next ≤ k → s.blocks k = none

def StepBuffers (r : Except Fault Arena) (y : Option Buffers) : Prop :=
  ∃ t z, r = .ok t ∧ y = some z ∧ ArenaInv t z

section Step
variable {s : Arena} {x : Buffers}

theorem ArenaInv.apart (h : ArenaInv s x) {r : Region} (hunused : s.Unused r) (k : ℕ)
    (r' : Region) (hk : s.blocks k = some r') : r'.Apart r := by
  have hlt : k < s.next := by
    by_contra hge
    rw [h.fresh k (Nat.le_of_not_lt hge)] at hk
    cases hk
  exact hunused k hlt r' hk

theorem ArenaInv.give (h : ArenaInv s x) {start : Pointer} {length : UInt64}
    (hunused : s.Unused ⟨start, length.toNat⟩) {bytes : List UInt8} {known : List (Option UInt8)}
    (hbytes : bytes.length = length.toNat) (hlength : known.length = length.toNat)
    (hknown : ∀ (i : ℕ) (b : UInt8), known[i]? = some (some b) → bytes[i]? = some b) :
    ArenaInv (s.receive (some start) length (some bytes)) (x.give (some start) known) where
  represents := by
    have hacquire := h.represents.acquire (o := s.next) (h.apart hunused) hlength hbytes hknown
    show Represents _ _ (update x.known x.next _)
    rw [h.next]
    exact hacquire
  next := congrArg (· + 1) h.next
  fresh k hk := by
    have hne : k ≠ s.next := Nat.ne_of_gt hk
    show update s.blocks s.next _ k = none
    rw [update_of_ne hne]
    exact h.fresh k (Nat.le_of_lt hk)

theorem arenaInv_step (h : ArenaInv s x) {a : AllocatorAct} (hunused : HeapContract s a)
    (ha : a.Served) {r : Except Fault Arena} (hr : arenaStep s a = some r) :
    StepBuffers r (bufferStep x a) := by
  cases a with
  | allocate length data =>
    cases data with
    | none =>
      -- with a null there is nothing to clear
      obtain rfl : length = 0 := ha.2 rfl
      exact ⟨s, x, (Option.some.inj hr).symm, rfl, h⟩
    | some start =>
      rw [arenaStep, allocate_eq_zeroes ha.1 rfl] at hr
      refine ⟨_, _, (Option.some.inj hr).symm, rfl, h.give (hunused start rfl)
        List.length_replicate List.length_replicate fun i b hi => ?_⟩
      rw [List.getElem?_replicate] at hi ⊢
      split at hi
      · rename_i hlt
        rw [if_pos hlt]
        exact Option.some.inj hi
      · cases hi
  | allocateUninitialized length data =>
    cases data with
    | none => exact ⟨s, x, (Option.some.inj hr).symm, rfl, h⟩
    | some start =>
      refine ⟨_, _, (Option.some.inj hr).symm, rfl, h.give (hunused start rfl)
        (s.length_bytes _) List.length_replicate fun i b hi => ?_⟩
      rw [List.getElem?_replicate] at hi
      split at hi <;> cases hi
  | free k =>
    obtain ⟨region, hk, rfl⟩ := Option.map_eq_some_iff.mp hr
    obtain ⟨known, hknown, -⟩ := h.represents.exists_known hk
    refine ⟨_, _, rfl, congrArg (Option.map _) hknown, h.represents.release k, h.next,
      fun k' hk' => ?_⟩
    by_cases heq : k' = k
    · exact heq ▸ update_self ..
    · exact (update_of_ne heq ..).trans (h.fresh k' hk')
  | write k i b =>
    obtain ⟨region, hk, hr⟩ := Option.bind_eq_some_iff.mp hr
    obtain ⟨hi, hr⟩ := Option.ite_none_right_eq_some.mp hr
    obtain ⟨known, hknown, -⟩ := h.represents.exists_known hk
    obtain rfl := Option.some.inj hr
    exact ⟨_, _, rfl, congrArg (Option.map _) hknown, h.represents.store hk hknown hi b, h.next,
      h.fresh⟩
  | heapWrites address b =>
    obtain rfl := Option.some.inj hr
    -- the heap writes where no block is
    refine ⟨_, _, rfl, rfl, h.represents.frame fun k region address' hk hin => ?_, h.next, h.fresh⟩
    apply update_of_ne
    rintro rfl
    exact (h.apart hunused k region hk).not_contains hin ⟨Nat.le_refl _, Nat.lt_succ_self _⟩

end Step

/-- If the heap keeps its contract, every block of `Allocate` is one of zeroes until V8 writes into
it, wherever the heap puts the blocks and whatever it does with the rest of the memory. -/
theorem allocations_kept (acts : List AllocatorAct)
    (hheap : AllSteps (untilError arenaStep) (OfState HeapContract) (.ok {}) acts)
    (hserved : ∀ a ∈ acts, a.Served) (r : Except Fault Arena)
    (hrun : run (untilError arenaStep) (.ok {}) acts = some r) :
    ∃ s x, r = .ok s ∧ run bufferStep {} acts = some x ∧
      ∀ k region, s.blocks k = some region → ∃ known, x.known k = some known ∧
        known.length = region.length ∧
        ∀ (i : ℕ) (b : UInt8), known[i]? = some (some b) → s.memory (region.start + i) = b := by
  have hempty : ArenaInv {} {} :=
    ⟨⟨fun _ => rfl, fun _ _ _ => nofun, fun _ _ _ _ => nofun⟩, rfl, fun _ _ => rfl⟩
  have hok : AllSteps (untilError arenaStep)
      (OfState fun s a => HeapContract s a ∧ a.Served) (.ok {}) acts := by
    have hboth := hheap.and (allSteps_of_forall_mem hserved _)
    refine AllSteps.imp (I := fun _ => True) (fun r a _ ha _ _ => ⟨trivial, ?_⟩) trivial hboth
    cases r with
    | error e => trivial
    | ok s => exact ha
  have hstep (s : Arena) (x : Buffers) (a : AllocatorAct) (r : Except Fault Arena)
      (ha : HeapContract s a ∧ a.Served) (h : ArenaInv s x) (hr : arenaStep s a = some r) :
      StepBuffers r (bufferStep x a) := arenaInv_step h ha.1 ha.2 hr
  obtain ⟨s, x, hr, hx, h⟩ := run_refines hstep hempty hok hrun
  refine ⟨s, x, hr, hx, fun k region hk => ?_⟩
  obtain ⟨known, hknown, hlength⟩ := h.represents.exists_known hk
  exact ⟨known, hknown, hlength, h.represents.reads k region known hk hknown⟩

def reusedBlock : List AllocatorAct :=
  -- a block that is put where another one was, next to one that V8 has written into
  [.allocate 2 (some 10), .allocate 3 (some 12), .write 0 1 7, .write 1 0 8, .free 0,
    .heapWrites 10 9, .allocate 2 (some 10), .allocate 0 none, .write 2 0 5]

theorem allocations_kept_reusedBlock : ∃ s,
    run (untilError arenaStep) (.ok {}) reusedBlock = some (.ok s) ∧
      s.blocks 1 = some ⟨12, 3⟩ ∧ s.blocks 2 = some ⟨10, 2⟩ ∧
      s.memory 10 = 5 ∧ s.memory 11 = 0 ∧ s.memory 12 = 8 := by
  have hblocks : (run (guarded (untilError arenaStep) (OfState HeapContract)) (.ok {})
      reusedBlock).map (fun r => r.toOption.map fun s => (s.blocks 1, s.blocks 2)) =
        some (some (some ⟨12, 3⟩, some ⟨10, 2⟩)) := by decide +kernel
  have hknown : (run bufferStep {} reusedBlock).map (fun x => (x.known 1, x.known 2)) =
      some (some [some 8, some 0, some 0], some [some 5, some 0]) := by decide +kernel
  obtain ⟨r, hguarded, hsome⟩ := Option.map_eq_some_iff.mp hblocks
  obtain ⟨hr, hheap⟩ := run_guarded hguarded
  obtain ⟨s, x, rfl, hx, hkept⟩ := allocations_kept reusedBlock hheap (by decide) r hr
  obtain ⟨hblock₁, hblock₂⟩ := Prod.mk.inj (Option.some.inj hsome)
  rw [hx] at hknown
  obtain ⟨hknown₁, hknown₂⟩ := Prod.mk.inj (Option.some.inj hknown)
  obtain ⟨known₁, hk₁, -, hread₁⟩ := hkept 1 _ hblock₁
  obtain ⟨known₂, hk₂, -, hread₂⟩ := hkept 2 _ hblock₂
  obtain rfl := Option.some.inj (hk₁.symm.trans hknown₁)
  obtain rfl := Option.some.inj (hk₂.symm.trans hknown₂)
  exact ⟨s, hr, hblock₁, hblock₂, hread₂ 0 5 rfl, hread₂ 1 0 rfl, hread₁ 0 8 rfl⟩

end V8Min.SoyV8.TV8Allocator
