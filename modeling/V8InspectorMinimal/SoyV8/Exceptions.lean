import Mathlib.Algebra.Order.BigOperators.Group.List
import Mathlib.Algebra.Order.Group.Nat
import V8InspectorMinimal.Base.Loops
import V8InspectorMinimal.SoyV8.Strings

/-! What is reported of a JS exception: the text of `V8Exception`, and what `MessageHandler` of
v8Minimal.cpp prints. Both go through the frames of a stack trace, whose names may be missing. -/

namespace V8Min.SoyV8
open Text Loops Traversal

/-- Something that is given to `String::Utf8Value`, and the bytes that come of it. A conversion may
run script and may fail, then there are none. -/
structure WithUtf8 (α : Type) where
  value : α
  utf8 : Option (List UInt8)
  deriving DecidableEq

def utf8Value {α : Type} (handle : Option (WithUtf8 α)) : Option (List UInt8) :=
  handle.bind WithUtf8.utf8

/-- The handles that `GetScriptName` and `GetFunctionName` give. A script without a name and an
anonymous function have empty ones. -/
structure StackFrame where
  scriptName : Option (WithUtf8 (List UInt16))
  functionName : Option (WithUtf8 (List UInt16))
  deriving DecidableEq

structure StackTrace where
  frames : List StackFrame
  -- `GetFrameCount` is an `int`
  length_lt : frames.length < 2 ^ 31

def StackTrace.getFrameCount (trace : StackTrace) : Int32 := .ofNat trace.frames.length

def StackTrace.getFrame (trace : StackTrace) (index : UInt32) : Option StackFrame :=
  trace.frames[index.toNat]?

structure TryCatch where
  exception : Option (WithUtf8 Value)
  stackTrace : Option StackTrace

def literal (text : String) : StdString := utf8Encode text.toList

/-! ## `V8Exception` -/

def description (exception : WithUtf8 Value) : StdString :=
  match utf8Value (some exception) with
  | none => literal ": <null> possibly not an exception"
  | some bytes => literal ": " ++ cText (cStr bytes)

def frameText (trace : StackTrace) (fi : Int32) : Except Fault StdString :=
  match trace.getFrame fi.toUInt32 with
  | none => .error .undefinedBehaviour
  | some frame =>
    match utf8Value frame.functionName with
    | none => .error .undefinedBehaviour
    | some bytes => .ok (literal "\n" ++ literal "in " ++ cText (cStr bytes))

def v8Exception (tryCatch : TryCatch) (context : StdString) (fuel : ℕ) :
    Option (StdString × Except Fault Unit) :=
  match tryCatch.exception with
  | none => some (context ++ literal "<Empty Exception>", .ok ())
  | some exception =>
    let mError := context ++ description exception
    match tryCatch.stackTrace with
    | none => some (mError ++ literal "\n<missing stacktrace>", .ok ())
    | some trace =>
      intLoop (fun fi _ => fi < trace.getFrameCount)
        (fun fi mError => some (appendOut (frameText trace) fi mError)) fuel mError

/-! ## `MessageHandler` -/

def enumStringOf (h : Heap) (handle : Option (WithUtf8 Value)) : Except Fault StdString :=
  match handle with
  | none => .error .undefinedBehaviour
  | some v =>
    match safeCast h .string asString v.value with
    | .error e => .error e
    | .ok _ => .ok (cText (cStr ((utf8Value (some v)).getD nullText)))

theorem enumString_eq_enumStringOf (v8 : V8Strings) (h : Heap) (handle : Option Value) :
    enumString v8 h handle =
      enumStringOf h (handle.map fun v => ⟨v, (asString v).bind v8.utf8Value⟩) := by
  rcases handle with _ | v
  · rfl
  · cases v <;> rfl

def asValue (name : Option (WithUtf8 (List UInt16))) : Option (WithUtf8 Value) :=
  name.map fun s => ⟨.string s.value, s.utf8⟩

def sizeLine (stackSize : Int32) : StdString :=
  literal "exception: stack size x" ++ literal (toString stackSize)

def stackLine (i : Int32) (scriptName funcName : StdString) : StdString :=
  literal "stack #" ++ literal (toString i) ++ literal " " ++ scriptName ++ literal ", " ++
    funcName ++ literal "()"

def frameLine (h : Heap) (trace : StackTrace) (i : Int32) : Except Fault (List StdString) :=
  match trace.getFrame i.toUInt32 with
  | none => .error .undefinedBehaviour
  | some frame =>
    match enumStringOf h (asValue frame.scriptName) with
    | .error e => .error e
    | .ok scriptName =>
      match enumStringOf h (asValue frame.functionName) with
      | .error e => .error e
      | .ok funcName => .ok [stackLine i scriptName funcName]

def messageHandler (h : Heap) (contextIsEmpty inspectorIsNull : Bool)
    (stackTrace : Option StackTrace) (debug : List StdString) (fuel : ℕ) :
    Option (List StdString × Except Fault Unit) :=
  if contextIsEmpty then some (debug, .ok ())
  else if inspectorIsNull then some (debug, .ok ())
  else
    match stackTrace with
    | none => some (debug, .ok ())
    | some trace =>
      intLoop (fun i _ => i < trace.getFrameCount)
        (fun i debug => some (appendOut (frameLine h trace) i debug)) fuel
        (debug ++ [sizeLine trace.getFrameCount])

/-! ## When the reports are whole -/

def textOf (utf8 : Option (List UInt8)) : StdString := cText (cStr (utf8.getD nullText))

section Frames
variable {trace : StackTrace} {k : ℕ} {frame : StackFrame}

theorem StackTrace.getFrame_ofNat (hframe : trace.frames[k]? = some frame) :
    trace.getFrame (Int32.ofNat k).toUInt32 = some frame := by
  have hk : k < trace.frames.length := (List.getElem?_eq_some_iff.mp hframe).1
  have hlt := trace.length_lt
  rw [getFrame, toNat_toUInt32 (by omega), hframe]

theorem frameText_of_isSome (hframe : trace.frames[k]? = some frame)
    (hname : (utf8Value frame.functionName).isSome) :
    frameText trace (.ofNat k) =
      .ok (literal "\nin " ++ textOf (utf8Value frame.functionName)) := by
  obtain ⟨bytes, hbytes⟩ := Option.isSome_iff_exists.mp hname
  unfold frameText
  rw [StackTrace.getFrame_ofNat hframe]
  simp only [hbytes]
  rfl

theorem isSome_of_isOut_frameText (hframe : trace.frames[k]? = some frame)
    (hout : isOut (frameText trace) (.ofNat k) = true) :
    (utf8Value frame.functionName).isSome := by
  unfold isOut frameText at hout
  rw [StackTrace.getFrame_ofNat hframe] at hout
  cases hname : utf8Value frame.functionName with
  | none =>
    simp only [hname] at hout
    exact absurd hout Bool.false_ne_true
  | some bytes => rfl

theorem enumStringOf_asValue (h : Heap) (s : WithUtf8 (List UInt16)) :
    enumStringOf h (asValue (some s)) = .ok (textOf s.utf8) := rfl

theorem frameLine_of_isSome (h : Heap) (hframe : trace.frames[k]? = some frame)
    (hscript : frame.scriptName.isSome) (hfunction : frame.functionName.isSome) :
    frameLine h trace (.ofNat k) = .ok [stackLine (.ofNat k) (textOf (utf8Value frame.scriptName))
      (textOf (utf8Value frame.functionName))] := by
  obtain ⟨s, hs⟩ := Option.isSome_iff_exists.mp hscript
  obtain ⟨f, hf⟩ := Option.isSome_iff_exists.mp hfunction
  unfold frameLine
  rw [StackTrace.getFrame_ofNat hframe]
  simp only [hs, hf, enumStringOf_asValue]
  rfl

theorem isSome_of_isOut_frameLine (h : Heap) (hframe : trace.frames[k]? = some frame)
    (hout : isOut (frameLine h trace) (.ofNat k) = true) :
    frame.scriptName.isSome ∧ frame.functionName.isSome := by
  unfold isOut frameLine at hout
  rw [StackTrace.getFrame_ofNat hframe] at hout
  cases hs : frame.scriptName with
  | none =>
    simp only [hs] at hout
    exact absurd hout Bool.false_ne_true
  | some s =>
    cases hf : frame.functionName with
    | none =>
      simp only [hs, hf, enumStringOf_asValue] at hout
      exact absurd hout Bool.false_ne_true
    | some f => exact ⟨rfl, rfl⟩

theorem StackTrace.exists_isOut {ε : Type} {out : Int32 → Except Fault (List ε)} {s s' : List ε}
    (hreturns : Returns (fun fuel => intLoop (fun i _ => i < trace.getFrameCount)
      (fun i s => some (appendOut out i s)) fuel s) (s', .ok ())) (hmem : frame ∈ trace.frames) :
    ∃ k, trace.frames[k]? = some frame ∧ isOut out (.ofNat k) = true := by
  obtain ⟨k, hframe⟩ := List.mem_iff_getElem?.mp hmem
  have hk : k < trace.frames.length := (List.getElem?_eq_some_iff.mp hframe).1
  exact ⟨k, hframe, isOut_of_returns trace.length_lt hreturns k hk⟩

end Frames

/-- The constructor ends, and `mError` is the context, the description and a line for each frame, in
order and with the name of the frame if there is one. -/
def V8ExceptionReports (exception : WithUtf8 Value) (trace : StackTrace) (context : StdString) :
    Prop :=
  ∃ names : ℕ → StdString,
    (∀ k frame bytes, trace.frames[k]? = some frame →
      utf8Value frame.functionName = some bytes → names k = bytes) ∧
    Returns (v8Exception ⟨some exception, some trace⟩ context)
      (context ++ description exception ++
        (List.range trace.frames.length).flatMap fun k => literal "\nin " ++ names k, .ok ())

def MessageHandlerReports (h : Heap) (trace : StackTrace) (debug : List StdString) : Prop :=
  ∃ scriptNames funcNames : ℕ → StdString,
    (∀ k frame bytes, trace.frames[k]? = some frame →
      (utf8Value frame.scriptName = some bytes → scriptNames k = cText (cStr bytes)) ∧
      (utf8Value frame.functionName = some bytes → funcNames k = cText (cStr bytes))) ∧
    Returns (messageHandler h false false (some trace) debug)
      (debug ++ [sizeLine trace.getFrameCount] ++ (List.range trace.frames.length).map
        fun k => stackLine (.ofNat k) (scriptNames k) (funcNames k), .ok ())

section Reports
variable {trace : StackTrace}

def nameAt (trace : StackTrace) (name : StackFrame → Option (WithUtf8 (List UInt16))) (k : ℕ) :
    StdString :=
  textOf (trace.frames[k]?.bind fun frame => utf8Value (name frame))

theorem nameAt_of_frame {name : StackFrame → Option (WithUtf8 (List UInt16))} {k : ℕ}
    {frame : StackFrame} (hframe : trace.frames[k]? = some frame) :
    nameAt trace name k = textOf (utf8Value (name frame)) := by
  rw [nameAt, hframe, Option.bind_some]

theorem nameAt_of_utf8 {name : StackFrame → Option (WithUtf8 (List UInt16))} {k : ℕ}
    {frame : StackFrame} {bytes : List UInt8} (hframe : trace.frames[k]? = some frame)
    (hbytes : utf8Value (name frame) = some bytes) : nameAt trace name k = cText (cStr bytes) := by
  rw [nameAt_of_frame hframe, hbytes]
  rfl

theorem v8Exception_returns (exception : WithUtf8 Value) (context : StdString)
    (hnames : ∀ frame ∈ trace.frames, (utf8Value frame.functionName).isSome) :
    Returns (v8Exception ⟨some exception, some trace⟩ context)
      (context ++ description exception ++ (List.range trace.frames.length).flatMap
        fun k => literal "\nin " ++ nameAt trace StackFrame.functionName k, .ok ()) := by
  refine returns_of_out trace.length_lt (fun k hk => ?_) _
  have hframe := List.getElem?_eq_getElem hk
  rw [nameAt_of_frame hframe]
  exact frameText_of_isSome hframe (hnames _ (List.getElem_mem hk))

theorem length_flatMap_le {α β : Type*} {f g : α → List β} {l : List α}
    (hle : ∀ a ∈ l, (f a).length ≤ (g a).length) :
    (l.flatMap f).length ≤ (l.flatMap g).length := by
  rw [List.length_flatMap, List.length_flatMap]
  exact List.sum_le_sum hle

theorem eq_of_flatMap_eq {α β : Type*} {f g : α → List β} {l : List α}
    (hle : ∀ a ∈ l, (f a).length ≤ (g a).length) (h : l.flatMap f = l.flatMap g) :
    ∀ a ∈ l, f a = g a := by
  induction l with
  | nil => exact fun a ha => absurd ha List.not_mem_nil
  | cons a l ih =>
    obtain ⟨ha, hl⟩ := List.forall_mem_cons.mp hle
    rw [List.flatMap_cons, List.flatMap_cons] at h
    have hlength : (f a).length = (g a).length := by
      have hsum := congrArg List.length h
      rw [List.length_append, List.length_append] at hsum
      have hrest := length_flatMap_le hl
      omega
    obtain ⟨hhead, htail⟩ := List.append_inj h hlength
    exact List.forall_mem_cons.mpr ⟨hhead, ih hl htail⟩

theorem v8ExceptionReports_iff (exception : WithUtf8 Value) (context : StdString) :
    V8ExceptionReports exception trace context ↔
      ∀ frame ∈ trace.frames, ∃ bytes, utf8Value frame.functionName = some bytes ∧ 0 ∉ bytes := by
  constructor
  · rintro ⟨names, hnames, hreturns⟩
    have hsome : ∀ frame ∈ trace.frames, (utf8Value frame.functionName).isSome := by
      intro frame hmem
      obtain ⟨k, hframe, hout⟩ := trace.exists_isOut hreturns hmem
      exact isSome_of_isOut_frameText hframe hout
    have hnameAt : ∀ k < trace.frames.length,
        nameAt trace StackFrame.functionName k = cText (cStr (names k)) := by
      intro k hk
      have hframe := List.getElem?_eq_getElem hk
      obtain ⟨bytes, hbytes⟩ := Option.isSome_iff_exists.mp (hsome _ (List.getElem_mem hk))
      rw [nameAt_of_utf8 hframe hbytes, hnames k _ bytes hframe hbytes]
    -- what is appended is no longer than the names, so that none of them has been cut
    have htexts := List.append_cancel_left
      (congrArg Prod.fst ((v8Exception_returns exception context hsome).unique hreturns))
    have hwhole := eq_of_flatMap_eq (fun k hk => by
      rw [hnameAt k (List.mem_range.mp hk), List.length_append, List.length_append]
      exact Nat.add_le_add_left (length_cText_cStr_le _) _) htexts
    intro frame hmem
    obtain ⟨k, hframe⟩ := List.mem_iff_getElem?.mp hmem
    have hk : k < trace.frames.length := (List.getElem?_eq_some_iff.mp hframe).1
    obtain ⟨bytes, hbytes⟩ := Option.isSome_iff_exists.mp (hsome frame hmem)
    have hname := List.append_cancel_left (hwhole k (List.mem_range.mpr hk))
    rw [hnameAt k hk, hnames k frame bytes hframe hbytes] at hname
    exact ⟨bytes, hbytes, cText_cStr_eq_self_iff.mp hname⟩
  · intro hnames
    refine ⟨nameAt trace StackFrame.functionName, fun k frame bytes hframe hbytes => ?_,
      v8Exception_returns exception context fun frame hmem => ?_⟩
    · obtain ⟨bytes', hbytes', hnul⟩ := hnames frame (List.mem_of_getElem? hframe)
      obtain rfl : bytes' = bytes := Option.some.inj (hbytes'.symm.trans hbytes)
      rw [nameAt_of_utf8 hframe hbytes, cText_cStr_eq_self_iff.mpr hnul]
    · obtain ⟨bytes, hbytes, -⟩ := hnames frame hmem
      exact Option.isSome_iff_exists.mpr ⟨bytes, hbytes⟩

theorem messageHandlerReports_iff (h : Heap) (debug : List StdString) :
    MessageHandlerReports h trace debug ↔
      ∀ frame ∈ trace.frames, frame.scriptName.isSome ∧ frame.functionName.isSome := by
  constructor
  · rintro ⟨scriptNames, funcNames, -, hreturns⟩ frame hmem
    obtain ⟨k, hframe, hout⟩ := trace.exists_isOut hreturns hmem
    exact isSome_of_isOut_frameLine h hframe hout
  · intro hnames
    refine ⟨nameAt trace StackFrame.scriptName, nameAt trace StackFrame.functionName,
      fun k frame bytes hframe => ⟨nameAt_of_utf8 hframe, nameAt_of_utf8 hframe⟩, ?_⟩
    rw [List.map_eq_flatMap]
    refine returns_of_out trace.length_lt (fun k hk => ?_) _
    have hframe := List.getElem?_eq_getElem hk
    obtain ⟨hscript, hfunction⟩ := hnames _ (List.getElem_mem hk)
    rw [nameAt_of_frame hframe, nameAt_of_frame hframe]
    exact frameLine_of_isSome h hframe hscript hfunction

end Reports

/-- The exact conditions under which the two reports are made. -/
theorem exception_reports_iff (trace : StackTrace) (exception : WithUtf8 Value)
    (context : StdString) (h : Heap) (debug : List StdString) :
    (V8ExceptionReports exception trace context ↔
      ∀ frame ∈ trace.frames, ∃ bytes, utf8Value frame.functionName = some bytes ∧ 0 ∉ bytes) ∧
    (MessageHandlerReports h trace debug ↔
      ∀ frame ∈ trace.frames, frame.scriptName.isSome ∧ frame.functionName.isSome) :=
  ⟨v8ExceptionReports_iff exception context, messageHandlerReports_iff h debug⟩

def anonymousTrace : StackTrace where
  frames := [{ scriptName := some ⟨[0x61], some [0x61]⟩, functionName := none }]
  length_lt := by decide

theorem anonymous_function_crashes :
    (v8Exception ⟨some ⟨.object 0, some (literal "Error")⟩, some anonymousTrace⟩ [] 2).map
        Prod.snd = some (.error .undefinedBehaviour) ∧
      (messageHandler ⟨[{}], by decide⟩ false false (some anonymousTrace) [] 2).map Prod.snd =
        some (.error .undefinedBehaviour) ∧
      ¬ V8ExceptionReports ⟨.object 0, some (literal "Error")⟩ anonymousTrace [] ∧
      ¬ MessageHandlerReports ⟨[{}], by decide⟩ anonymousTrace [] := by
  have hframe : { scriptName := some ⟨[0x61], some [0x61]⟩, functionName := none } ∈
      anonymousTrace.frames := List.mem_singleton.mpr rfl
  refine ⟨rfl, rfl, fun hreports => ?_, fun hreports => ?_⟩
  · obtain ⟨bytes, hname, -⟩ := (v8ExceptionReports_iff _ _).mp hreports _ hframe
    exact absurd hname.symm (Option.some_ne_none bytes)
  · have hname := ((messageHandlerReports_iff _ _).mp hreports _ hframe).2
    exact absurd hname Bool.false_ne_true

end V8Min.SoyV8
