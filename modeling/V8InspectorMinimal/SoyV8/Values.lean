import V8InspectorMinimal.Base.Bytes
import V8InspectorMinimal.Base.Doubles

/-! The JS values that SoyV8.cpp takes apart and makes: primitives, and references into a heap of
objects. The types are those that V8 answers for a value: an `External` is also an `Object`, with
internal fields of V8's own. -/

namespace V8Min.SoyV8
open Doubles

abbrev Ref := ℕ

abbrev Pointer := ℕ

inductive Value where
  | undefined
  | null
  | boolean (b : Bool)
  | number (x : Double)
  | string (s : List UInt16)
  -- a symbol or a BigInt
  | otherPrimitive
  | object (r : Ref)
  deriving DecidableEq

inductive ArrayType where
  | int8Array
  | uint8Array
  | uint8ClampedArray
  | int16Array
  | uint16Array
  | int32Array
  | uint32Array
  | float32Array
  | float64Array
  -- one that the program has no name for
  | other (elementSize : ℕ)
  deriving DecidableEq

def ArrayType.elementSize : ArrayType → ℕ
  | .int8Array | .uint8Array | .uint8ClampedArray => 1
  | .int16Array | .uint16Array => 2
  | .int32Array | .uint32Array | .float32Array => 4
  | .float64Array => 8
  | .other e => e

structure TypedArray where
  type : ArrayType
  buffer : Ref
  byteOffset : ℕ
  length : ℕ
  deriving DecidableEq

def TypedArray.byteLength (a : TypedArray) : ℕ := a.type.elementSize * a.length

inductive Contents where
  | ordinary
  | function
  | map
  | date
  | promise
  | external (p : Pointer)
  | array (elements : List Value)
  | arrayBuffer (bytes : List UInt8)
  | typedArray (a : TypedArray)
  deriving DecidableEq

namespace Contents

def elements? : Contents → Option (List Value)
  | .array xs => some xs
  | _ => none

def bytes? : Contents → Option (List UInt8)
  | .arrayBuffer bytes => some bytes
  | _ => none

def typedArray? : Contents → Option TypedArray
  | .typedArray a => some a
  | _ => none

def external? : Contents → Option Pointer
  | .external p => some p
  | _ => none

end Contents

structure Object where
  contents : Contents := .ordinary
  internalFields : List Value := []
  deriving DecidableEq

def bufferAt (objects : List Object) (r : Ref) : Option (List UInt8) :=
  objects[r]?.bind fun o => o.contents.bytes?

def Contents.Fits (objects : List Object) : Contents → Prop
  | .typedArray a =>
    ∃ bytes ∈ bufferAt objects a.buffer, a.byteOffset + a.byteLength ≤ bytes.length
  | .arrayBuffer bytes => bytes.length < 2 ^ 64
  | _ => True

instance (objects : List Object) : DecidablePred (Contents.Fits objects)
  | .typedArray a => inferInstanceAs (Decidable (∃ bytes ∈ bufferAt objects a.buffer, _))
  | .arrayBuffer bytes => inferInstanceAs (Decidable (bytes.length < 2 ^ 64))
  | .ordinary | .function | .map | .date | .promise | .external _ | .array _ =>
    inferInstanceAs (Decidable True)

structure Heap where
  objects : List Object
  fits : ∀ o ∈ objects, o.contents.Fits objects

namespace Heap

def object? (h : Heap) : Value → Option Object
  | .object r => h.objects[r]?
  | _ => none

def contents? (h : Heap) (v : Value) : Option Contents := (h.object? v).map Object.contents

def array? (h : Heap) (v : Value) : Option (List Value) := (h.contents? v).bind Contents.elements?

def typedArray? (h : Heap) (v : Value) : Option TypedArray :=
  (h.contents? v).bind Contents.typedArray?

def external? (h : Heap) (v : Value) : Option Pointer := (h.contents? v).bind Contents.external?

def bufferContents (h : Heap) (a : TypedArray) : List UInt8 := (bufferAt h.objects a.buffer).getD []

def viewBytes (h : Heap) (a : TypedArray) : List UInt8 :=
  ((h.bufferContents a).drop a.byteOffset).take a.byteLength

end Heap

/-! ## What a value is asked -/

inductive CastType where
  | typedArray (type : ArrayType)
  | number
  | function
  | boolean
  | array
  | string
  deriving DecidableEq

section Types
variable (h : Heap)

def isArrayOfType (type : ArrayType) (v : Value) : Bool :=
  match h.typedArray? v with
  | some a => a.type = type
  | none => false

def isContents (c : Contents) (v : Value) : Bool := h.contents? v = some c

def getTypeName (v : Value) : String :=
  if v = .undefined then "Undefined"
  else if v = .null then "Null"
  else if isContents h .function v then "Function"
  else if v matches .string _ then "String"
  else if isContents h .map v then "Map"
  else if isContents h .date v then "Date"
  else if (h.array? v).isSome then "Array"
  else if v matches .boolean _ then "Boolean"
  else if v matches .number _ then "Number"
  else if isContents h .promise v then "Promise"
  else if isArrayOfType h .float32Array v then "Float32Array"
  else if isArrayOfType h .float64Array v then "Float64Array"
  else if isArrayOfType h .uint8ClampedArray v then "Uint8ClampedArray"
  else if isArrayOfType h .int8Array v then "Int8Array"
  else if isArrayOfType h .int16Array v then "Int16Array"
  else if isArrayOfType h .int32Array v then "Int32Array"
  else if isArrayOfType h .uint8Array v then "Uint8Array"
  else if isArrayOfType h .uint16Array v then "Uint16Array"
  else if isArrayOfType h .uint32Array v then "Uint32Array"
  else if (h.object? v).isSome then "Object"
  else "Unknown type"

end Types

inductive AssertException where
  | cast (typeName : String) (type : CastType)
  | elementSize (v8 array : ℕ)
  | bytesWritten (written expected : ℕ)
  | unhandledElement (typeName enumArray context : String)
  | missingInternalField (index count : ℕ)
  | notExternal (typeName : String)
  | internalFieldNull
  deriving DecidableEq

def AssertException.what (soyTypeName : CastType → String) : AssertException → String
  | .cast typeName type => s!"Trying to cast {typeName} to other type {soyTypeName type}"
  | .elementSize v8 array =>
    s!"Trying to copy v8 array(elementsize={v8}) into array(elementsize={array} but element " ++
      "sizes misaligned"
  | .bytesWritten written expected =>
    s!"Copying v8 array, wrote {written} bytes, expected {expected}"
  | .unhandledElement typeName enumArray context =>
    s!"Unhandled element type({typeName}) in EnumArray<{enumArray}>. Context: {context}"
  | .missingInternalField index count => s!"Object missing internal field {index}/{count}"
  | .notExternal typeName =>
    s!"Getting object from Value({typeName}) is not internally backed (!IsExternal)"
  | .internalFieldNull => "Internal Field is null"

/-- How a call fails: by an exception, or by doing what C++ or V8 leaves undefined. -/
inductive Fault where
  | threw (e : AssertException)
  | undefinedBehaviour
  deriving DecidableEq

/-- `IsType` and the cast after it, in one: `as?` is how a value is seen as one of the type. -/
def safeCast {α : Type} (h : Heap) (type : CastType) (as? : Value → Option α) (v : Value) :
    Except Fault α :=
  match as? v with
  | some x => .ok x
  | none => .error (.threw (.cast (getTypeName h v) type))

def Heap.asArrayOfType (h : Heap) (type : ArrayType) (v : Value) : Option TypedArray :=
  (h.typedArray? v).filter fun a => a.type = type

theorem Heap.asArrayOfType_eq_some {h : Heap} {type : ArrayType} {v : Value} {a : TypedArray} :
    h.asArrayOfType type v = some a ↔ h.typedArray? v = some a ∧ a.type = type := by
  unfold asArrayOfType
  rw [Option.filter_eq_some_iff, decide_eq_true_iff]

/-! ## Memory -/

theorem Contents.fits_iff {objects : List Object} {c : Contents} : c.Fits objects ↔
    (∀ a, c.typedArray? = some a → ∃ bytes, bufferAt objects a.buffer = some bytes ∧
      a.byteOffset + a.byteLength ≤ bytes.length) ∧
    ∀ bytes, c.bytes? = some bytes → bytes.length < 2 ^ 64 := by
  cases c with
  | typedArray a => simp [Fits, typedArray?, bytes?]
  | arrayBuffer bytes => simp [Fits, typedArray?, bytes?]
  | _ => simp [Fits, typedArray?, bytes?]

theorem Heap.exists_object_of_typedArray? {h : Heap} {v : Value} {a : TypedArray}
    (hv : h.typedArray? v = some a) : ∃ o ∈ h.objects, o.contents.typedArray? = some a := by
  obtain ⟨c, hc, ha⟩ := Option.bind_eq_some_iff.mp hv
  obtain ⟨o, ho, rfl⟩ := Option.map_eq_some_iff.mp hc
  cases v with
  | object r => exact ⟨o, List.mem_of_getElem? ho, ha⟩
  | _ => cases ho

theorem Heap.view_inside {h : Heap} {v : Value} {a : TypedArray} (hv : h.typedArray? v = some a) :
    a.byteOffset + a.byteLength ≤ (h.bufferContents a).length := by
  obtain ⟨o, ho, ha⟩ := exists_object_of_typedArray? hv
  obtain ⟨bytes, hbytes, hle⟩ := (Contents.fits_iff.mp (h.fits o ho)).1 a ha
  rw [bufferContents, hbytes]
  exact hle

theorem Heap.bufferContents_lt (h : Heap) (a : TypedArray) :
    (h.bufferContents a).length < 2 ^ 64 := by
  unfold bufferContents
  cases hb : bufferAt h.objects a.buffer with
  | none => exact Nat.two_pow_pos 64
  | some bytes =>
    obtain ⟨o, ho, hbytes⟩ := Option.bind_eq_some_iff.mp hb
    exact (Contents.fits_iff.mp (h.fits o (List.mem_of_getElem? ho))).2 bytes hbytes

theorem Heap.length_viewBytes {h : Heap} {v : Value} {a : TypedArray}
    (hv : h.typedArray? v = some a) : (h.viewBytes a).length = a.byteLength := by
  have hinside := view_inside hv
  unfold viewBytes
  rw [List.length_take, List.length_drop]
  omega

end V8Min.SoyV8
