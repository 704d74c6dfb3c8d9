import V8InspectorMinimal.Base.Cells
import V8InspectorMinimal.Base.Runs
import V8InspectorMinimal.SoyV8.Values

/-! What keeps JS values alive for the program: `V8Storage`, which `GetPersistent` makes and
`shared_ptr`s count, and the `Persist` that `GetLocal` takes. Both are a `Persistent` of v8.h, with
other traits. -/

namespace V8Min.SoyV8
open Cells Function Runs

abbrev Cell := ℕ

abbrev StorageCells := Cell → Option Value

abbrev LocalHandle := Option Value

/-! ## `Persistent` -/

structure Persistent where
  val : Option Cell := none
  deriving DecidableEq

inductive PersistentTraits where
  | nonCopyable
  | copyable

def PersistentTraits.kResetInDestructor : PersistentTraits → Bool
  | .nonCopyable => false
  | .copyable => true

def globalizeReference (cells : StorageCells) (fresh : Cell) (v : Value) : StorageCells :=
  update cells fresh (some v)

def copyPersistent (cells : StorageCells) (fresh c : Cell) : Except Fault StorageCells :=
  match cells c with
  | none => .error .undefinedBehaviour
  | some v => .ok (update cells fresh (some v))

def disposeGlobal (cells : StorageCells) (c : Cell) : Except Fault StorageCells :=
  match cells c with
  | none => .error .undefinedBehaviour
  | some _ => .ok (update cells c none)

def newLocal (cells : StorageCells) (that : Persistent) : Except Fault LocalHandle :=
  match that.val with
  | none => .ok none
  | some c =>
    match cells c with
    | none => .error .undefinedBehaviour
    | some v => .ok (some v)

namespace Persistent

def reset (cells : StorageCells) (p : Persistent) : Except Fault (StorageCells × Persistent) :=
  match p.val with
  | none => .ok (cells, p)
  | some c => do
    let cells ← disposeGlobal cells c
    .ok (cells, {})

def resetTo (cells : StorageCells) (fresh : Cell) (p : Persistent) (other : LocalHandle) :
    Except Fault (StorageCells × Persistent) := do
  let (cells, p) ← p.reset cells
  match other with
  | none => .ok (cells, p)
  | some v => .ok (globalizeReference cells fresh v, { val := some fresh })

/-- `Copy`, where `none` is for a copy of the `Persistent` itself, which is read after `Reset`. -/
def copy (cells : StorageCells) (fresh : Cell) (p : Persistent) (that : Option Persistent) :
    Except Fault (StorageCells × Persistent) := do
  let (cells, p) ← p.reset cells
  match (that.getD p).val with
  | none => .ok (cells, p)
  | some c => do
    let cells ← copyPersistent cells fresh c
    .ok (cells, { val := some fresh })

def destroy (traits : PersistentTraits) (cells : StorageCells) (p : Persistent) :
    Except Fault StorageCells :=
  if traits.kResetInDestructor then (p.reset cells).map Prod.fst else .ok cells

end Persistent

def newV8Storage (cells : StorageCells) (fresh : Cell) (handle : LocalHandle) :
    Except Fault (StorageCells × Persistent) :=
  ({} : Persistent).resetTo cells fresh handle

/-- The destructor, which resets `mPersistent` because its own destructor does not. -/
def destroyV8Storage (cells : StorageCells) (mPersistent : Persistent) :
    Except Fault (StorageCells × Persistent) := do
  let (cells, mPersistent) ← mPersistent.reset cells
  let cells ← mPersistent.destroy .nonCopyable cells
  .ok (cells, mPersistent)

def getLocal (cells : StorageCells) (fresh : Cell) (persistentHandle : Persistent) :
    Except Fault (StorageCells × LocalHandle) := do
  -- the parameter is a copy, with a cell of its own
  let (cells, persistentHandle) ← ({} : Persistent).copy cells fresh (some persistentHandle)
  let localHandle ← newLocal cells persistentHandle
  let cells ← persistentHandle.destroy .copyable cells
  .ok (cells, localHandle)

/-! ## A program and its variables -/

structure Shared (α : Type) where
  object : α
  useCount : ℕ

structure Variables (α : Type) where
  storages : List (Shared α) := []
  persists : List (Option α) := []
  locals : List LocalHandle := []

namespace Variables
variable {α : Type} (s : Variables α)

def addStorage (a : α) : Variables α := { s with storages := s.storages ++ [⟨a, 1⟩] }

def setStorage (k : ℕ) (shared : Shared α) : Variables α :=
  { s with storages := s.storages.set k shared }

def addPersist (a : α) : Variables α := { s with persists := s.persists ++ [some a] }

def setPersist (j : ℕ) (persist : Option α) : Variables α :=
  { s with persists := s.persists.set j persist }

def addLocal (l : LocalHandle) : Variables α := { s with locals := s.locals ++ [l] }

def storage? (k : ℕ) : Option (α × ℕ) :=
  match s.storages[k]? with
  | some ⟨a, n + 1⟩ => some (a, n)
  | _ => none

def persist? (j : ℕ) : Option α := s.persists[j]?.join

end Variables

inductive PersistentAct where
  | getPersistent (fresh : Cell) (handle : LocalHandle)
  | copySharedPtr (k : ℕ)
  | destroySharedPtr (k : ℕ)
  | storageGetLocal (k : ℕ)
  | newPersist (fresh : Cell) (handle : LocalHandle)
  | copyPersist (fresh : Cell) (j : ℕ)
  | assignPersist (fresh : Cell) (i j : ℕ)
  | getLocal (fresh : Cell) (j : ℕ)
  | destroyPersist (j : ℕ)

structure Program where
  cells : StorageCells := fun _ => none
  vars : Variables Persistent := {}

/-- `none` where a variable that is used does not exist, or where V8 would take a cell in use. -/
def persistentStep (s : Program) : PersistentAct → Option (Except Fault Program)
  | .getPersistent fresh handle =>
    if s.cells fresh = none then some do
      let (cells, mPersistent) ← newV8Storage s.cells fresh handle
      .ok { cells, vars := s.vars.addStorage mPersistent }
    else none
  | .copySharedPtr k =>
    (s.vars.storage? k).map fun (mPersistent, n) =>
      .ok { s with vars := s.vars.setStorage k ⟨mPersistent, n + 2⟩ }
  | .destroySharedPtr k =>
    (s.vars.storage? k).map fun
      | (mPersistent, n + 1) => .ok { s with vars := s.vars.setStorage k ⟨mPersistent, n + 1⟩ }
      | (mPersistent, 0) => do
        let (cells, mPersistent) ← destroyV8Storage s.cells mPersistent
        .ok { cells, vars := s.vars.setStorage k ⟨mPersistent, 0⟩ }
  | .storageGetLocal k =>
    (s.vars.storage? k).map fun (mPersistent, _) => do
      let l ← newLocal s.cells mPersistent
      .ok { s with vars := s.vars.addLocal l }
  | .newPersist fresh handle =>
    if s.cells fresh = none then some do
      let (cells, p) ← ({} : Persistent).resetTo s.cells fresh handle
      .ok { cells, vars := s.vars.addPersist p }
    else none
  | .copyPersist fresh j =>
    if s.cells fresh = none then
      (s.vars.persist? j).map fun that => do
        let (cells, p) ← ({} : Persistent).copy s.cells fresh (some that)
        .ok { cells, vars := s.vars.addPersist p }
    else none
  | .assignPersist fresh i j =>
    (s.vars.persist? i).bind fun p =>
      -- the cell that `Reset` gives back may be taken at once
      if s.cells fresh = none ∨ p.val = some fresh then
        (s.vars.persist? j).map fun that => do
          let (cells, p) ← p.copy s.cells fresh (if i = j then none else some that)
          .ok { cells, vars := s.vars.setPersist i (some p) }
      else none
  | .getLocal fresh j =>
    if s.cells fresh = none then
      (s.vars.persist? j).map fun persistentHandle => do
        let (cells, l) ← getLocal s.cells fresh persistentHandle
        .ok { cells, vars := s.vars.addLocal l }
    else none
  | .destroyPersist j =>
    (s.vars.persist? j).map fun p => do
      let cells ← p.destroy .copyable s.cells
      .ok { cells, vars := s.vars.setPersist j none }

/-- What the variables are for: each keeps the object itself. One that is assigned to itself loses
it. -/
def keep (x : Variables LocalHandle) : PersistentAct → Option (Variables LocalHandle)
  | .getPersistent _ handle => some (x.addStorage handle)
  | .copySharedPtr k => (x.storage? k).map fun (v, n) => x.setStorage k ⟨v, n + 2⟩
  | .destroySharedPtr k =>
    (x.storage? k).map fun
      | (v, n + 1) => x.setStorage k ⟨v, n + 1⟩
      | (_, 0) => x.setStorage k ⟨none, 0⟩
  | .storageGetLocal k => (x.storage? k).map fun (v, _) => x.addLocal v
  | .newPersist _ handle => some (x.addPersist handle)
  | .copyPersist _ j => (x.persist? j).map fun v => x.addPersist v
  | .assignPersist _ i j =>
    (x.persist? i).bind fun _ =>
      (x.persist? j).map fun v => x.setPersist i (some (if i = j then none else v))
  | .getLocal _ j => (x.persist? j).map fun v => x.addLocal v
  | .destroyPersist j => (x.persist? j).map fun _ => x.setPersist j none

/-! ## Who owns a cell -/

inductive Owner where
  | storage (k : ℕ)
  | persist (j : ℕ)
  | parameter
  deriving DecidableEq

def Variables.held {α β : Type} (s : Variables α) (get : α → Option β) : Owner → Option β
  | .storage k => s.storages[k]?.bind fun shared => get shared.object
  | .persist j => (s.persist? j).bind get
  | .parameter => none

theorem getElem?_concat_of_ne {α : Type} {l : List α} {k : ℕ} (hk : k ≠ l.length) (a : α) :
    (l ++ [a])[k]? = l[k]? := by
  rcases Nat.lt_or_gt_of_ne hk with hlt | hgt
  · exact List.getElem?_append_left hlt
  · have hle : (l ++ [a]).length ≤ k := by
      rw [List.length_append, List.length_singleton]
      exact hgt
    rw [List.getElem?_eq_none hle, List.getElem?_eq_none (Nat.le_of_lt hgt)]

theorem Variables.storage?_eq_some {α : Type} {s : Variables α} {k n : ℕ} {a : α} :
    s.storage? k = some (a, n) ↔ s.storages[k]? = some ⟨a, n + 1⟩ := by
  unfold storage?
  split
  · rename_i b m hk
    rw [hk]
    simp
  · rename_i hk
    exact iff_of_false nofun (hk a n)

section Held
variable {α β : Type} {s : Variables α} (get : α → Option β) {j k n : ℕ} {a : α}

theorem held_storage (hk : s.storage? k = some (a, n)) : s.held get (.storage k) = get a := by
  rw [Variables.held, Variables.storage?_eq_some.mp hk, Option.bind_some]

theorem held_persist (hj : s.persist? j = some a) : s.held get (.persist j) = get a := by
  rw [Variables.held, hj, Option.bind_some]

theorem held_addStorage (a : α) : (s.addStorage a).held get =
    update (s.held get) (.storage s.storages.length) (get a) := by
  funext o
  by_cases heq : o = .storage s.storages.length
  · rw [heq, update_self]
    show ((s.storages ++ [⟨a, 1⟩])[s.storages.length]?).bind _ = _
    rw [List.getElem?_concat_length, Option.bind_some]
  · rw [update_of_ne heq]
    cases o with
    | storage k =>
      have hne : k ≠ s.storages.length := fun h => heq (congrArg Owner.storage h)
      exact congrArg (Option.bind · _) (getElem?_concat_of_ne hne _)
    | _ => rfl

theorem held_setStorage (hk : s.storage? k = some (a, n)) (shared : Shared α) :
    (s.setStorage k shared).held get =
      update (s.held get) (.storage k) (get shared.object) := by
  have hlt := (List.getElem?_eq_some_iff.mp (Variables.storage?_eq_some.mp hk)).1
  funext o
  by_cases heq : o = .storage k
  · rw [heq, update_self]
    show ((s.storages.set k shared)[k]?).bind _ = _
    rw [List.getElem?_set_self hlt, Option.bind_some]
  · rw [update_of_ne heq]
    cases o with
    | storage k' =>
      have hne : k ≠ k' := fun h => heq (congrArg Owner.storage h.symm)
      exact congrArg (Option.bind · _) (List.getElem?_set_ne hne)
    | _ => rfl

theorem held_addPersist (a : α) : (s.addPersist a).held get =
    update (s.held get) (.persist s.persists.length) (get a) := by
  funext o
  by_cases heq : o = .persist s.persists.length
  · rw [heq, update_self]
    show ((s.persists ++ [some a])[s.persists.length]?).join.bind _ = _
    rw [List.getElem?_concat_length]
    rfl
  · rw [update_of_ne heq]
    cases o with
    | persist j =>
      have hne : j ≠ s.persists.length := fun h => heq (congrArg Owner.persist h)
      exact congrArg (fun x => (Option.join x).bind _) (getElem?_concat_of_ne hne _)
    | _ => rfl

theorem held_setPersist (hj : s.persist? j = some a) (persist : Option α) :
    (s.setPersist j persist).held get = update (s.held get) (.persist j) (persist.bind get) := by
  have hlt := (List.getElem?_eq_some_iff.mp (Option.join_eq_some_iff.mp hj)).1
  funext o
  by_cases heq : o = .persist j
  · rw [heq, update_self]
    show ((s.persists.set j persist)[j]?).join.bind _ = _
    rw [List.getElem?_set_self hlt]
    rfl
  · rw [update_of_ne heq]
    cases o with
    | persist j' =>
      have hne : j ≠ j' := fun h => heq (congrArg Owner.persist h.symm)
      exact congrArg (fun x => (Option.join x).bind _) (List.getElem?_set_ne hne)
    | _ => rfl

theorem held_storage_length : s.held get (.storage s.storages.length) = none := by
  rw [Variables.held, List.getElem?_eq_none (Nat.le_refl _), Option.bind_none]

theorem held_persist_length : s.held get (.persist s.persists.length) = none := by
  rw [Variables.held, Variables.persist?, List.getElem?_eq_none (Nat.le_refl _)]
  rfl

end Held

/-! ## What the functions do with the cells -/

section Operations
variable {cells : StorageCells} {owns : Owner → Option Cell} {holds : Owner → Option Value}
  {o o' : Owner} {p that : Persistent} {fresh : Cell}

theorem newLocal_eq (h : Represents cells owns holds) (ho : owns o = p.val) :
    newLocal cells p = .ok (holds o) := by
  unfold newLocal
  cases hval : p.val with
  | none => rw [h.holds_eq_none (ho.trans hval)]
  | some c =>
    obtain ⟨v, hc, hv⟩ := h.exists_value (ho.trans hval)
    simp only [hc, hv]

theorem reset_eq (h : Represents cells owns holds) (ho : owns o = p.val) :
    ∃ cells', p.reset cells = .ok (cells', {}) ∧
      Represents cells' (update owns o none) (update holds o none) ∧
      ∀ c, cells c = none ∨ p.val = some c → cells' c = none := by
  unfold Persistent.reset
  cases hval : p.val with
  | none =>
    obtain ⟨howns, hholds⟩ := h.update_none (ho.trans hval)
    have hp : p = {} := congrArg Persistent.mk hval
    refine ⟨cells, by rw [hp], by rwa [howns, hholds], ?_⟩
    rintro c (hc | hc)
    · exact hc
    · cases hc
  | some c =>
    obtain ⟨v, hc, -⟩ := h.exists_value (ho.trans hval)
    refine ⟨update cells c none, ?_, h.release (ho.trans hval), ?_⟩
    · simp only [disposeGlobal, hc]
      rfl
    · rintro c' (hc' | hc')
      · by_cases heq : c' = c
        · rw [heq, update_self]
        · rw [update_of_ne heq, hc']
      · rw [Option.some.inj hc', update_self]

theorem resetTo_eq (h : Represents cells owns holds) (ho : owns o = p.val)
    (hfresh : cells fresh = none ∨ p.val = some fresh) (other : LocalHandle) :
    ∃ cells' p', p.resetTo cells fresh other = .ok (cells', p') ∧
      Represents cells' (update owns o p'.val) (update holds o other) := by
  obtain ⟨cells₁, hreset, h₁, hfree⟩ := reset_eq h ho
  unfold Persistent.resetTo
  rw [hreset]
  cases other with
  | none => exact ⟨cells₁, {}, rfl, h₁⟩
  | some v =>
    have hacquire := h₁.acquire (hfree fresh hfresh) (update_self _ _ _) v
    rw [update_idem, update_idem] at hacquire
    exact ⟨_, _, rfl, hacquire⟩

theorem copy_self_eq (fresh : Cell) (h : Represents cells owns holds) (ho : owns o = p.val) :
    ∃ cells', p.copy cells fresh none = .ok (cells', {}) ∧
      Represents cells' (update owns o none) (update holds o none) := by
  obtain ⟨cells₁, hreset, h₁, -⟩ := reset_eq h ho
  unfold Persistent.copy
  rw [hreset]
  exact ⟨cells₁, rfl, h₁⟩

theorem copy_eq (h : Represents cells owns holds) (ho : owns o = p.val) (ho' : owns o' = that.val)
    (hne : o' ≠ o) (hfresh : cells fresh = none ∨ p.val = some fresh) :
    ∃ cells' p', p.copy cells fresh (some that) = .ok (cells', p') ∧
      Represents cells' (update owns o p'.val) (update holds o (holds o')) := by
  obtain ⟨cells₁, hreset, h₁, hfree⟩ := reset_eq h ho
  unfold Persistent.copy
  rw [hreset]
  cases hval : that.val with
  | none =>
    rw [h.holds_eq_none (ho'.trans hval)]
    refine ⟨cells₁, {}, ?_, h₁⟩
    show (match that.val with | none => _ | some c => _) = _
    rw [hval]
  | some c =>
    -- `that` is another variable, which keeps its cell through the `Reset`
    have hother : update owns o none o' = some c := by rw [update_of_ne hne, ho', hval]
    obtain ⟨v, hc, hv⟩ := h₁.exists_value hother
    rw [update_of_ne hne] at hv
    have hacquire := h₁.acquire (hfree fresh hfresh) (update_self _ _ _) v
    rw [update_idem, update_idem, ← hv] at hacquire
    refine ⟨_, _, ?_, hacquire⟩
    show (match that.val with | none => _ | some c => _) = _
    rw [hval]
    simp only [copyPersistent, hc, hv]
    rfl

theorem destroyV8Storage_eq (h : Represents cells owns holds) (ho : owns o = p.val) :
    ∃ cells', destroyV8Storage cells p = .ok (cells', {}) ∧
      Represents cells' (update owns o none) (update holds o none) := by
  obtain ⟨cells₁, hreset, h₁, -⟩ := reset_eq h ho
  unfold destroyV8Storage
  rw [hreset]
  exact ⟨cells₁, rfl, h₁⟩

theorem destroy_copyable_eq (h : Represents cells owns holds) (ho : owns o = p.val) :
    ∃ cells', p.destroy .copyable cells = .ok cells' ∧
      Represents cells' (update owns o none) (update holds o none) := by
  obtain ⟨cells₁, hreset, h₁, -⟩ := reset_eq h ho
  refine ⟨cells₁, ?_, h₁⟩
  show (p.reset cells).map Prod.fst = .ok cells₁
  rw [hreset]
  rfl

theorem getLocal_eq (h : Represents cells owns holds) (hparam : owns .parameter = none)
    (ho : owns o = p.val) (hne : o ≠ .parameter) (hfresh : cells fresh = none) :
    ∃ cells', getLocal cells fresh p = .ok (cells', holds o) ∧
      Represents cells' owns holds := by
  obtain ⟨cells₁, param, hcopy, h₁⟩ :=
    copy_eq (p := {}) h hparam ho hne (Or.inl hfresh)
  have hnew := newLocal_eq h₁ (update_self Owner.parameter param.val owns)
  rw [update_self] at hnew
  obtain ⟨cells₂, hdestroy, h₂⟩ := destroy_copyable_eq h₁ (update_self _ _ _)
  obtain ⟨howns, hholds⟩ := h.update_none hparam
  rw [update_idem, update_idem, howns, hholds] at h₂
  refine ⟨cells₂, ?_, h₂⟩
  unfold getLocal
  simp only [hcopy, bind, Except.bind, hnew, hdestroy]

end Operations

/-! ## The program keeps what its variables are for -/

structure Keeps (s : Program) (x : Variables LocalHandle) : Prop where
  represents : Represents s.cells (s.vars.held Persistent.val) (x.held id)
  useCounts : s.vars.storages.map Shared.useCount = x.storages.map Shared.useCount
  alive : s.vars.persists.map Option.isSome = x.persists.map Option.isSome
  locals : s.vars.locals = x.locals

namespace Keeps
variable {s : Program} {x : Variables LocalHandle} {cells : StorageCells} {p : Persistent}

theorem initial : Keeps {} {} where
  represents := by
    apply represents_empty
    · intro o
      cases o <;> rfl
    · intro o
      cases o <;> rfl
  useCounts := rfl
  alive := rfl
  locals := rfl

theorem storage (h : Keeps s x) {k n : ℕ} (hk : s.vars.storage? k = some (p, n)) :
    ∃ v, x.storage? k = some (v, n) ∧ s.vars.held Persistent.val (.storage k) = p.val ∧
      x.held id (.storage k) = v := by
  have hcount := congrArg (·[k]?) h.useCounts
  simp only [List.getElem?_map, Variables.storage?_eq_some.mp hk, Option.map_some] at hcount
  obtain ⟨⟨v, m⟩, hv, hm⟩ := Option.map_eq_some_iff.mp hcount.symm
  obtain rfl : m = n + 1 := hm
  have hstorage := Variables.storage?_eq_some.mpr hv
  exact ⟨v, hstorage, held_storage _ hk, held_storage _ hstorage⟩

theorem persist (h : Keeps s x) {j : ℕ} (hj : s.vars.persist? j = some p) :
    ∃ v, x.persist? j = some v ∧ s.vars.held Persistent.val (.persist j) = p.val ∧
      x.held id (.persist j) = v := by
  have halive := congrArg (·[j]?) h.alive
  simp only [List.getElem?_map, Option.join_eq_some_iff.mp hj, Option.map_some] at halive
  obtain ⟨v?, hv?, hsome⟩ := Option.map_eq_some_iff.mp halive.symm
  obtain ⟨v, rfl⟩ := Option.isSome_iff_exists.mp hsome
  have hpersist := Option.join_eq_some_iff.mpr hv?
  exact ⟨v, hpersist, held_persist _ hj, held_persist _ hpersist⟩

theorem length_storages (h : Keeps s x) : s.vars.storages.length = x.storages.length := by
  have hlength := congrArg List.length h.useCounts
  rwa [List.length_map, List.length_map] at hlength

theorem length_persists (h : Keeps s x) : s.vars.persists.length = x.persists.length := by
  have hlength := congrArg List.length h.alive
  rwa [List.length_map, List.length_map] at hlength

theorem addStorage (h : Keeps s x) {v : LocalHandle}
    (hrep : Represents cells
      (update (s.vars.held Persistent.val) (.storage s.vars.storages.length) p.val)
      (update (x.held id) (.storage s.vars.storages.length) v)) :
    Keeps { cells, vars := s.vars.addStorage p } (x.addStorage v) where
  represents := by
    rw [held_addStorage, held_addStorage, ← h.length_storages]
    exact hrep
  useCounts := by
    show (s.vars.storages ++ [_]).map _ = (x.storages ++ [_]).map _
    rw [List.map_append, List.map_append, h.useCounts]
    rfl
  alive := h.alive
  locals := h.locals

theorem setStorage (h : Keeps s x) {k n m : ℕ} {v v' : LocalHandle} {p' : Persistent}
    (hk : s.vars.storage? k = some (p, n)) (hv : x.storage? k = some (v, n))
    (hrep : Represents cells (update (s.vars.held Persistent.val) (.storage k) p'.val)
      (update (x.held id) (.storage k) v')) :
    Keeps { cells, vars := s.vars.setStorage k ⟨p', m⟩ } (x.setStorage k ⟨v', m⟩) where
  represents := by
    rw [held_setStorage _ hk, held_setStorage _ hv]
    exact hrep
  useCounts := by
    show (s.vars.storages.set k _).map _ = (x.storages.set k _).map _
    rw [List.map_set, List.map_set, h.useCounts]
  alive := h.alive
  locals := h.locals

theorem addPersist (h : Keeps s x) {v : LocalHandle}
    (hrep : Represents cells
      (update (s.vars.held Persistent.val) (.persist s.vars.persists.length) p.val)
      (update (x.held id) (.persist s.vars.persists.length) v)) :
    Keeps { cells, vars := s.vars.addPersist p } (x.addPersist v) where
  represents := by
    rw [held_addPersist, held_addPersist, ← h.length_persists]
    exact hrep
  useCounts := h.useCounts
  alive := by
    show (s.vars.persists ++ [_]).map _ = (x.persists ++ [_]).map _
    rw [List.map_append, List.map_append, h.alive]
    rfl
  locals := h.locals

theorem setPersist (h : Keeps s x) {j : ℕ} {v : LocalHandle} {q : Option Persistent}
    {w : Option LocalHandle} (hj : s.vars.persist? j = some p) (hv : x.persist? j = some v)
    (hsome : q.isSome = w.isSome)
    (hrep : Represents cells
      (update (s.vars.held Persistent.val) (.persist j) (q.bind Persistent.val))
      (update (x.held id) (.persist j) (w.bind id))) :
    Keeps { cells, vars := s.vars.setPersist j q } (x.setPersist j w) where
  represents := by
    rw [held_setPersist _ hj, held_setPersist _ hv]
    exact hrep
  useCounts := h.useCounts
  alive := by
    show (s.vars.persists.set j _).map _ = (x.persists.set j _).map _
    rw [List.map_set, List.map_set, h.alive, hsome]
  locals := h.locals

theorem addLocal (h : Keeps s x) (hrep : Represents cells (s.vars.held Persistent.val) (x.held id))
    (l : LocalHandle) : Keeps { cells, vars := s.vars.addLocal l } (x.addLocal l) where
  represents := hrep
  useCounts := h.useCounts
  alive := h.alive
  locals := congrArg (· ++ [l]) h.locals

end Keeps

/-- The step is defined, and it is that of the variables which keep the objects themselves. -/
def StepKept (result : Except Fault Program) (kept : Option (Variables LocalHandle)) : Prop :=
  ∃ s x, result = .ok s ∧ kept = some x ∧ Keeps s x

section Steps
variable {s : Program} {x : Variables LocalHandle} {r : Except Fault Program}

theorem getPersistent_kept (h : Keeps s x) {fresh : Cell} {handle : LocalHandle}
    (hr : persistentStep s (.getPersistent fresh handle) = some r) :
    StepKept r (keep x (.getPersistent fresh handle)) := by
  obtain ⟨hfresh, hr⟩ := Option.ite_none_right_eq_some.mp hr
  obtain ⟨cells, p, hnew, hrep⟩ :=
    resetTo_eq (p := {}) h.represents (held_storage_length _) (Or.inl hfresh) handle
  refine ⟨_, _, ?_, rfl, h.addStorage hrep⟩
  rw [← Option.some.inj hr]
  unfold newV8Storage
  rw [hnew]
  rfl

theorem copySharedPtr_kept (h : Keeps s x) {k : ℕ}
    (hr : persistentStep s (.copySharedPtr k) = some r) :
    StepKept r (keep x (.copySharedPtr k)) := by
  obtain ⟨⟨p, n⟩, hk, rfl⟩ := Option.map_eq_some_iff.mp hr
  obtain ⟨v, hv, ho, hx⟩ := h.storage hk
  refine ⟨_, _, rfl, congrArg (Option.map _) hv, h.setStorage hk hv ?_⟩
  rw [← ho, ← hx, update_eq_self, update_eq_self]
  exact h.represents

theorem destroySharedPtr_kept (h : Keeps s x) {k : ℕ}
    (hr : persistentStep s (.destroySharedPtr k) = some r) :
    StepKept r (keep x (.destroySharedPtr k)) := by
  obtain ⟨⟨p, n⟩, hk, rfl⟩ := Option.map_eq_some_iff.mp hr
  obtain ⟨v, hv, ho, hx⟩ := h.storage hk
  cases n with
  | zero =>
    obtain ⟨cells, hdestroy, hrep⟩ := destroyV8Storage_eq h.represents ho
    refine ⟨_, _, ?_, congrArg (Option.map _) hv, h.setStorage hk hv hrep⟩
    simp only [hdestroy]
    rfl
  | succ n =>
    refine ⟨_, _, rfl, congrArg (Option.map _) hv, h.setStorage hk hv ?_⟩
    rw [← ho, ← hx, update_eq_self, update_eq_self]
    exact h.represents

theorem storageGetLocal_kept (h : Keeps s x) {k : ℕ}
    (hr : persistentStep s (.storageGetLocal k) = some r) :
    StepKept r (keep x (.storageGetLocal k)) := by
  obtain ⟨⟨p, n⟩, hk, rfl⟩ := Option.map_eq_some_iff.mp hr
  obtain ⟨v, hv, ho, rfl⟩ := h.storage hk
  have hnew := newLocal_eq h.represents ho
  refine ⟨_, _, ?_, congrArg (Option.map _) hv, h.addLocal h.represents _⟩
  simp only [hnew]
  rfl

theorem newPersist_kept (h : Keeps s x) {fresh : Cell} {handle : LocalHandle}
    (hr : persistentStep s (.newPersist fresh handle) = some r) :
    StepKept r (keep x (.newPersist fresh handle)) := by
  obtain ⟨hfresh, hr⟩ := Option.ite_none_right_eq_some.mp hr
  obtain ⟨cells, p, hnew, hrep⟩ :=
    resetTo_eq (p := {}) h.represents (held_persist_length _) (Or.inl hfresh) handle
  refine ⟨_, _, ?_, rfl, h.addPersist hrep⟩
  rw [← Option.some.inj hr, hnew]
  rfl

theorem copyPersist_kept (h : Keeps s x) {fresh : Cell} {j : ℕ}
    (hr : persistentStep s (.copyPersist fresh j) = some r) :
    StepKept r (keep x (.copyPersist fresh j)) := by
  obtain ⟨hfresh, hr⟩ := Option.ite_none_right_eq_some.mp hr
  obtain ⟨that, hj, rfl⟩ := Option.map_eq_some_iff.mp hr
  obtain ⟨v, hv, ho, rfl⟩ := h.persist hj
  have hlt := (List.getElem?_eq_some_iff.mp (Option.join_eq_some_iff.mp hj)).1
  have hne : Owner.persist j ≠ .persist s.vars.persists.length :=
    fun heq => Nat.ne_of_lt hlt (Owner.persist.inj heq)
  obtain ⟨cells, p, hcopy, hrep⟩ :=
    copy_eq (p := {}) h.represents (held_persist_length _) ho hne (Or.inl hfresh)
  refine ⟨_, _, ?_, congrArg (Option.map _) hv, h.addPersist hrep⟩
  rw [hcopy]
  rfl

theorem assignPersist_kept (h : Keeps s x) {fresh : Cell} {i j : ℕ}
    (hr : persistentStep s (.assignPersist fresh i j) = some r) :
    StepKept r (keep x (.assignPersist fresh i j)) := by
  obtain ⟨p, hi, hr⟩ := Option.bind_eq_some_iff.mp hr
  obtain ⟨hfresh, hr⟩ := Option.ite_none_right_eq_some.mp hr
  obtain ⟨that, hj, rfl⟩ := Option.map_eq_some_iff.mp hr
  obtain ⟨v, hv, ho, -⟩ := h.persist hi
  obtain ⟨v', hv', ho', rfl⟩ := h.persist hj
  have hkeep : keep x (.assignPersist fresh i j) = some (x.setPersist i
      (some (if i = j then none else x.held id (.persist j)))) := by
    simp only [keep, hv, hv', Option.bind_some, Option.map_some]
  rw [hkeep]
  -- assigned to itself, it has reset what it would copy
  by_cases hij : i = j
  · obtain ⟨cells, hcopy, hrep⟩ := copy_self_eq fresh h.represents ho
    rw [if_pos hij, if_pos hij, hcopy]
    exact ⟨_, _, rfl, rfl, h.setPersist (q := some {}) (w := some none) hi hv rfl hrep⟩
  · have hne : Owner.persist j ≠ .persist i := fun heq => hij (Owner.persist.inj heq).symm
    obtain ⟨cells, p', hcopy, hrep⟩ := copy_eq h.represents ho ho' hne hfresh
    rw [if_neg hij, if_neg hij, hcopy]
    exact ⟨_, _, rfl, rfl, h.setPersist (q := some p') (w := some _) hi hv rfl hrep⟩

theorem getLocal_kept (h : Keeps s x) {fresh : Cell} {j : ℕ}
    (hr : persistentStep s (.getLocal fresh j) = some r) :
    StepKept r (keep x (.getLocal fresh j)) := by
  obtain ⟨hfresh, hr⟩ := Option.ite_none_right_eq_some.mp hr
  obtain ⟨p, hj, rfl⟩ := Option.map_eq_some_iff.mp hr
  obtain ⟨v, hv, ho, rfl⟩ := h.persist hj
  obtain ⟨cells, hget, hrep⟩ := getLocal_eq h.represents rfl ho nofun hfresh
  refine ⟨_, _, ?_, congrArg (Option.map _) hv, h.addLocal hrep _⟩
  rw [hget]
  rfl

theorem destroyPersist_kept (h : Keeps s x) {j : ℕ}
    (hr : persistentStep s (.destroyPersist j) = some r) :
    StepKept r (keep x (.destroyPersist j)) := by
  obtain ⟨p, hj, rfl⟩ := Option.map_eq_some_iff.mp hr
  obtain ⟨v, hv, ho, -⟩ := h.persist hj
  obtain ⟨cells, hdestroy, hrep⟩ := destroy_copyable_eq h.represents ho
  refine ⟨_, _, ?_, congrArg (Option.map _) hv, h.setPersist (q := none) (w := none) hj hv rfl hrep⟩
  rw [hdestroy]
  rfl

theorem persistentStep_kept (h : Keeps s x) {a : PersistentAct}
    (hr : persistentStep s a = some r) : StepKept r (keep x a) := by
  cases a with
  | getPersistent fresh handle => exact getPersistent_kept h hr
  | copySharedPtr k => exact copySharedPtr_kept h hr
  | destroySharedPtr k => exact destroySharedPtr_kept h hr
  | storageGetLocal k => exact storageGetLocal_kept h hr
  | newPersist fresh handle => exact newPersist_kept h hr
  | copyPersist fresh j => exact copyPersist_kept h hr
  | assignPersist fresh i j => exact assignPersist_kept h hr
  | getLocal fresh j => exact getLocal_kept h hr
  | destroyPersist j => exact destroyPersist_kept h hr

end Steps

/-- Whatever the program does with its variables, and whichever free cells V8 takes, they give the
objects that they are for, and a cell is in use as long as one of them owns it. -/
theorem persistent_cells_kept (acts : List PersistentAct) (r : Except Fault Program)
    (hrun : run (untilError persistentStep) (.ok {}) acts = some r) :
    ∃ s x, r = .ok s ∧ run keep {} acts = some x ∧ s.vars.locals = x.locals ∧
      (∀ c, (s.cells c).isSome ↔ ∃ o, s.vars.held Persistent.val o = some c) ∧
      (∀ o o' c, s.vars.held Persistent.val o = some c → s.vars.held Persistent.val o' = some c →
        o = o') ∧
      ∀ o, (s.vars.held Persistent.val o).bind s.cells = x.held id o := by
  have hstep (s : Program) (x : Variables LocalHandle) (a : PersistentAct)
      (r : Except Fault Program) (_ : True) (h : Keeps s x) (hr : persistentStep s a = some r) :
      StepKept r (keep x a) := persistentStep_kept h hr
  have hok : AllSteps (untilError persistentStep) (OfState fun _ _ => True) (.ok {}) acts :=
    allSteps_of_forall (fun r _ => by cases r <;> trivial) _ acts
  obtain ⟨s, x, hr, hx, h⟩ := run_refines hstep Keeps.initial hok hrun
  refine ⟨s, x, hr, hx, h.locals, fun c => h.represents.isSome_iff, h.represents.alone, fun o => ?_⟩
  cases ho : s.vars.held Persistent.val o with
  | none => exact (h.represents.holds_eq_none ho).symm
  | some c =>
    obtain ⟨v, hc, hv⟩ := h.represents.exists_value ho
    exact hc.trans hv.symm

def reusedCell : List PersistentAct :=
  -- a storage whose cell is taken again by a `Persist`, and what is read of both and of a copy
  [.getPersistent 0 (some (.object 7)), .copySharedPtr 0, .destroySharedPtr 0, .storageGetLocal 0,
    .destroySharedPtr 0, .newPersist 0 (some .null), .copyPersist 1 0, .destroyPersist 0,
    .getLocal 0 1]

theorem persistent_cells_kept_reused : ∃ s,
    run (untilError persistentStep) (.ok {}) reusedCell = some (.ok s) ∧
    s.vars.locals = [some (.object 7), some .null] ∧
    ∀ c, (s.cells c).isSome ↔ ∃ o, s.vars.held Persistent.val o = some c := by
  have hsome : (run (untilError persistentStep) (.ok {}) reusedCell).isSome = true := rfl
  have hlocals : (run keep {} reusedCell).map Variables.locals =
      some [some (.object 7), some .null] := rfl
  obtain ⟨r, hr⟩ := Option.isSome_iff_exists.mp hsome
  obtain ⟨s, x, rfl, hx, hsame, hcells, -⟩ := persistent_cells_kept reusedCell r hr
  rw [hx, Option.map_some] at hlocals
  exact ⟨s, hr, hsame.trans (Option.some.inj hlocals), hcells⟩

end V8Min.SoyV8
