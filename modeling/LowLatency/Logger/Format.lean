import LowLatency.Library.Words
import Mathlib.Data.List.Basic

namespace LowLatency.Logger

open Library.Words

def percent : Byte := 0x25

inductive LogType
  | char
  | integer
  | longInteger
  | longLongInteger
  | unsignedInteger
  | unsignedLongInteger
  | unsignedLongLongInteger
  | float
  | double
  deriving DecidableEq

/-- The union of a `LogElement`: which member was stored last, and its bits. -/
inductive Value
  | c (v : BitVec 8)
  | i (v : BitVec 32)
  | l (v : BitVec 64)
  | ll (v : BitVec 64)
  | u (v : BitVec 32)
  | ul (v : BitVec 64)
  | ull (v : BitVec 64)
  | f (v : BitVec 32)
  | d (v : BitVec 64)
  deriving DecidableEq

structure LogElement where
  type : LogType
  value : Value
  deriving DecidableEq

/-- The `switch` of `flushQueue()`: the union member that `type_` selects. There
is no value to write when another member was stored. -/
def LogElement.member : LogElement → Option Value
  | ⟨.char, .c v⟩ => some (.c v)
  | ⟨.integer, .i v⟩ => some (.i v)
  | ⟨.longInteger, .l v⟩ => some (.l v)
  | ⟨.longLongInteger, .ll v⟩ => some (.ll v)
  | ⟨.unsignedInteger, .u v⟩ => some (.u v)
  | ⟨.unsignedLongInteger, .ul v⟩ => some (.ul v)
  | ⟨.unsignedLongLongInteger, .ull v⟩ => some (.ull v)
  | ⟨.float, .f v⟩ => some (.f v)
  | ⟨.double, .d v⟩ => some (.d v)
  | _ => none

inductive Arg
  | char (v : BitVec 8)
  | int (v : BitVec 32)
  | long (v : BitVec 64)
  | longLong (v : BitVec 64)
  | unsigned (v : BitVec 32)
  | unsignedLong (v : BitVec 64)
  | unsignedLongLong (v : BitVec 64)
  | float (v : BitVec 32)
  | double (v : BitVec 64)
  | cString (bytes : List Byte)
  | string (bytes : List Byte)

def pushChar (v : Byte) : LogElement := ⟨.char, .c v⟩

/-- `pushValue(const char*)`: one element for each character before the first NUL. -/
def pushCString (bytes : List Byte) : List LogElement :=
  (bytes.takeWhile (· ≠ 0)).map pushChar

def pushValue : Arg → List LogElement
  | .char v => [pushChar v]
  | .int v => [⟨.integer, .i v⟩]
  | .long v => [⟨.longInteger, .l v⟩]
  | .longLong v => [⟨.longLongInteger, .ll v⟩]
  | .unsigned v => [⟨.unsignedInteger, .u v⟩]
  | .unsignedLong v => [⟨.unsignedLongInteger, .ul v⟩]
  | .unsignedLongLong v => [⟨.unsignedLongLongInteger, .ull v⟩]
  | .float v => [⟨.float, .f v⟩]
  | .double v => [⟨.double, .d v⟩]
  | .cString bytes => pushCString bytes
  -- `value.c_str()` forgets `value.size()`.
  | .string bytes => pushCString (bytes ++ [0])

inductive Action
  | push (e : LogElement)
  | extraArguments
  | missingArgument
  deriving DecidableEq

def pushes (es : List LogElement) : List Action := es.map .push

def logRest : List Byte → List Action
  | [] => []
  | [c] => if c = percent then [.missingArgument, .push (pushChar c)] else [.push (pushChar c)]
  | c :: c' :: s =>
    if c = percent then
      if c' = percent then .push (pushChar c') :: logRest s
      else .missingArgument :: .push (pushChar c) :: logRest (c' :: s)
    else .push (pushChar c) :: logRest (c' :: s)

/-- `log(s, value, args...)` continues with `rest` after the placeholder that
takes `value`. -/
def logValue (value : Arg) (rest : List Byte → List Action) : List Byte → List Action
  | [] => [.extraArguments]
  | [c] =>
    if c = percent then pushes (pushValue value) ++ rest []
    else [.push (pushChar c), .extraArguments]
  | c :: c' :: s =>
    if c = percent then
      if c' = percent then .push (pushChar c') :: logValue value rest s
      else pushes (pushValue value) ++ rest (c' :: s)
    else .push (pushChar c) :: logValue value rest (c' :: s)

def log : List Arg → List Byte → List Action
  | [] => logRest
  | value :: args => logValue value (log args)

structure Call where
  format : List Byte
  args : List Arg

/-- The elements that a call enqueues, in a build without asserts. -/
def Call.elements (call : Call) : List LogElement :=
  (log call.args call.format).filterMap fun
    | .push e => some e
    | _ => none

def LogElement.WellTyped (e : LogElement) : Prop := e.member = some e.value

theorem pushChar_wellTyped (v : Byte) : (pushChar v).WellTyped := rfl

theorem pushCString_wellTyped (bytes : List Byte) :
    ∀ e ∈ pushCString bytes, e.WellTyped := by
  intro e he
  obtain ⟨v, -, rfl⟩ := List.mem_map.mp he
  exact pushChar_wellTyped v

theorem pushValue_wellTyped (a : Arg) : ∀ e ∈ pushValue a, e.WellTyped := by
  cases a with
  | cString bytes => exact pushCString_wellTyped bytes
  | string bytes => exact pushCString_wellTyped _
  | _ => simp [pushValue, pushChar, LogElement.WellTyped, LogElement.member]

def Action.WellTyped : Action → Prop
  | .push e => e.WellTyped
  | _ => True

theorem logRest_wellTyped (s : List Byte) : ∀ a ∈ logRest s, a.WellTyped := by
  fun_induction logRest s with
  | case1 => simp
  | case2 => simp [Action.WellTyped, pushChar_wellTyped]
  | case3 c h => simp [Action.WellTyped, pushChar_wellTyped]
  | case4 s ih => simpa [Action.WellTyped, pushChar_wellTyped] using ih
  | case5 c' s h ih => simpa [Action.WellTyped, pushChar_wellTyped] using ih
  | case6 c c' s h ih => simpa [Action.WellTyped, pushChar_wellTyped] using ih

theorem pushes_wellTyped (a : Arg) : ∀ x ∈ pushes (pushValue a), x.WellTyped := by
  intro x hx
  obtain ⟨e, he, rfl⟩ := List.mem_map.mp hx
  exact pushValue_wellTyped a e he

theorem logValue_wellTyped (value : Arg) (rest : List Byte → List Action)
    (hrest : ∀ s, ∀ a ∈ rest s, a.WellTyped) (s : List Byte) :
    ∀ a ∈ logValue value rest s, a.WellTyped := by
  have hvalue (t : List Byte) : ∀ a ∈ pushes (pushValue value) ++ rest t, a.WellTyped := by
    intro a ha
    rcases List.mem_append.mp ha with ha | ha
    · exact pushes_wellTyped value a ha
    · exact hrest t a ha
  fun_induction logValue value rest s with
  | case1 => simp [Action.WellTyped]
  | case2 => exact hvalue []
  | case3 c h => simp [Action.WellTyped, pushChar_wellTyped]
  | case4 s ih => simpa [Action.WellTyped, pushChar_wellTyped] using ih
  | case5 c' s h => exact hvalue _
  | case6 c c' s h ih => simpa [Action.WellTyped, pushChar_wellTyped] using ih

theorem log_wellTyped (args : List Arg) : ∀ s, ∀ a ∈ log args s, a.WellTyped := by
  induction args with
  | nil => exact logRest_wellTyped
  | cons value args ih => exact logValue_wellTyped value (log args) ih

theorem Call.elements_wellTyped (call : Call) : ∀ e ∈ call.elements, e.WellTyped := by
  intro e he
  obtain ⟨a, ha, hae⟩ := List.mem_filterMap.mp he
  have hw := log_wellTyped call.args call.format a ha
  cases a with
  | push e' =>
    obtain rfl : e' = e := by simpa using hae
    exact hw
  | extraArguments | missingArgument => simp at hae

end LowLatency.Logger
