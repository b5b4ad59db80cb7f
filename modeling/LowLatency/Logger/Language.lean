import LowLatency.Logger.Format
import Mathlib.Data.List.Chain

namespace LowLatency.Logger

open Library.Words

/-- What a format string is made of. A literal character is not a percent sign. -/
inductive Token
  | char (c : {c : Byte // c ≠ percent})
  | percent
  | placeholder
  deriving DecidableEq

/-- The greedy reading of a format string, from left to right. -/
def reading : List Byte → List Token
  | [] => []
  | [c] => if h : c = percent then [.placeholder] else [.char ⟨c, h⟩]
  | c :: c' :: s =>
    if h : c = percent then
      if c' = percent then .percent :: reading s else .placeholder :: reading (c' :: s)
    else .char ⟨c, h⟩ :: reading (c' :: s)

def placeholders (ts : List Token) : ℕ := ts.count .placeholder

/-- The elements that stand for a list of tokens: each placeholder takes the
next argument, and is a percent sign when there is none left. -/
def render : List Token → List Arg → List LogElement
  | [], _ => []
  | .char c :: ts, args => pushChar c :: render ts args
  | .percent :: ts, args => pushChar percent :: render ts args
  | .placeholder :: ts, [] => pushChar percent :: render ts []
  | .placeholder :: ts, value :: args => pushValue value ++ render ts args

def actions : List Token → List Arg → List Action
  | [], [] => []
  | [], _ :: _ => [.extraArguments]
  | .char c :: ts, args => .push (pushChar c) :: actions ts args
  | .percent :: ts, args => .push (pushChar percent) :: actions ts args
  | .placeholder :: ts, [] => .missingArgument :: .push (pushChar percent) :: actions ts []
  | .placeholder :: ts, value :: args => pushes (pushValue value) ++ actions ts args

section Reading

theorem reading_char (c : {c : Byte // c ≠ percent}) (s : List Byte) :
    reading (c.1 :: s) = .char c :: reading s := by
  cases s with
  | nil => simp [reading, c.2]
  | cons c' s => rw [reading, dif_neg c.2]

theorem reading_percent (s : List Byte) :
    reading (percent :: percent :: s) = .percent :: reading s := by
  rw [reading, dif_pos rfl, if_pos rfl]

theorem reading_placeholder {s : List Byte} (hs : s.head? ≠ some percent) :
    reading (percent :: s) = .placeholder :: reading s := by
  cases s with
  | nil => simp [reading]
  | cons c s =>
    have hc : c ≠ percent := fun h ↦ hs (by rw [h, List.head?_cons])
    rw [reading, dif_pos rfl, if_neg hc]

theorem logRest_eq (s : List Byte) : logRest s = actions (reading s) [] := by
  fun_induction logRest s with
  | case1 => rfl
  | case2 => rfl
  | case3 c h => simp [reading, h, actions]
  | case4 s ih => rw [reading_percent, ih, actions]
  | case5 c' s h ih => rw [reading_placeholder (by simpa using h), ih, actions]
  | case6 c c' s h ih => rw [reading_char ⟨c, h⟩, ih, actions]

theorem logValue_eq (value : Arg) (args : List Arg) (rest : List Byte → List Action)
    (hrest : ∀ s, rest s = actions (reading s) args) (s : List Byte) :
    logValue value rest s = actions (reading s) (value :: args) := by
  fun_induction logValue value rest s with
  | case1 => rfl
  | case2 => rw [hrest]; rfl
  | case3 c h => simp [reading, h, actions]
  | case4 s ih => rw [reading_percent, ih, actions]
  | case5 c' s h => rw [hrest, reading_placeholder (by simpa using h), actions]
  | case6 c c' s h ih => rw [reading_char ⟨c, h⟩, ih, actions]

theorem log_eq_actions (args : List Arg) (s : List Byte) :
    log args s = actions (reading s) args := by
  induction args generalizing s with
  | nil => exact logRest_eq s
  | cons value args ih => exact logValue_eq value args (log args) ih s

end Reading

section Actions

@[simp] theorem placeholders_nil : placeholders [] = 0 := rfl

@[simp] theorem placeholders_char (c : {c : Byte // c ≠ percent}) (ts : List Token) :
    placeholders (.char c :: ts) = placeholders ts := by simp [placeholders]

@[simp] theorem placeholders_percent (ts : List Token) :
    placeholders (.percent :: ts) = placeholders ts := by simp [placeholders]

@[simp] theorem placeholders_placeholder (ts : List Token) :
    placeholders (.placeholder :: ts) = placeholders ts + 1 := by simp [placeholders]

theorem extraArguments_notMem_pushes (es : List LogElement) :
    Action.extraArguments ∉ pushes es := by simp [pushes]

theorem missingArgument_notMem_pushes (es : List LogElement) :
    Action.missingArgument ∉ pushes es := by simp [pushes]

theorem extraArguments_mem_iff (ts : List Token) (args : List Arg) :
    .extraArguments ∈ actions ts args ↔ placeholders ts < args.length := by
  fun_induction actions ts args with
  | case1 => simp
  | case2 => simp
  | case3 c ts args ih => simpa using ih
  | case4 ts args ih => simpa using ih
  | case5 ts ih => simpa using ih
  | case6 ts value args ih =>
    rw [List.mem_append, or_iff_right (extraArguments_notMem_pushes _), ih]
    simp

theorem missingArgument_mem_iff (ts : List Token) (args : List Arg) :
    .missingArgument ∈ actions ts args ↔ args.length < placeholders ts := by
  fun_induction actions ts args with
  | case1 => simp
  | case2 => simp
  | case3 c ts args ih => simpa using ih
  | case4 ts args ih => simpa using ih
  | case5 ts ih => simp
  | case6 ts value args ih =>
    rw [List.mem_append, or_iff_right (missingArgument_notMem_pushes _), ih]
    simp

theorem actions_eq_pushes {ts : List Token} {args : List Arg}
    (h : placeholders ts = args.length) : actions ts args = pushes (render ts args) := by
  fun_induction actions ts args with
  | case1 => rfl
  | case2 => simp at h
  | case3 c ts args ih => rw [ih (by simpa using h)]; rfl
  | case4 ts args ih => rw [ih (by simpa using h)]; rfl
  | case5 ts ih => simp at h
  | case6 ts value args ih =>
    rw [ih (by simpa using h), render, pushes, pushes, pushes, List.map_append]

def pushed (as : List Action) : List LogElement :=
  as.filterMap fun
    | .push e => some e
    | _ => none

theorem pushed_append (as bs : List Action) : pushed (as ++ bs) = pushed as ++ pushed bs :=
  List.filterMap_append

theorem pushed_pushes (es : List LogElement) : pushed (pushes es) = es := by
  simp [pushed, pushes]

theorem pushed_actions (ts : List Token) (args : List Arg) :
    pushed (actions ts args) = render ts args := by
  fun_induction actions ts args with
  | case1 => rfl
  | case2 => rfl
  | case3 c ts args ih => exact congrArg _ ih
  | case4 ts args ih => exact congrArg _ ih
  | case5 ts ih => exact congrArg _ ih
  | case6 ts value args ih => rw [pushed_append, pushed_pushes, ih, render]

theorem Call.elements_eq (call : Call) :
    call.elements = render (reading call.format) call.args := by
  rw [← pushed_actions, ← log_eq_actions]
  rfl

/-- `log()` carries out the greedy reading of its format string: it reaches an
assert exactly when the number of placeholders and of arguments differ, and
then on the side that is short, and what it pushes is the reading in any case. -/
theorem log_implements_reading (s : List Byte) (args : List Arg) :
    (placeholders (reading s) = args.length → log args s = pushes (render (reading s) args)) ∧
    (.extraArguments ∈ log args s ↔ placeholders (reading s) < args.length) ∧
    (.missingArgument ∈ log args s ↔ args.length < placeholders (reading s)) ∧
    (Call.mk s args).elements = render (reading s) args := by
  rw [log_eq_actions]
  exact ⟨actions_eq_pushes, extraArguments_mem_iff _ _, missingArgument_mem_iff _ _,
    Call.elements_eq _⟩

end Actions

section Encoding

def Token.encode : Token → List Byte
  | .char c => [c.1]
  | .percent => [Logger.percent, Logger.percent]
  | .placeholder => [Logger.percent]

def encode (ts : List Token) : List Byte := ts.flatMap Token.encode

def Separated (ts : List Token) : Prop :=
  ts.IsChain fun t t' ↦ t = .placeholder → t' ≠ .placeholder ∧ t' ≠ .percent

theorem separated_cons {t : Token} (ht : t ≠ .placeholder) (ts : List Token) :
    Separated (t :: ts) ↔ Separated ts := by
  cases ts with
  | nil => simp [Separated]
  | cons t' ts =>
    unfold Separated
    rw [List.isChain_cons_cons, and_iff_right fun h ↦ absurd h ht]

theorem separated_placeholder (c : {c : Byte // c ≠ percent}) (ts : List Token) :
    Separated (.placeholder :: .char c :: ts) ↔ Separated (.char c :: ts) := by
  unfold Separated
  rw [List.isChain_cons_cons, and_iff_right fun _ ↦ ⟨nofun, nofun⟩]

theorem not_separated {t : Token} (ht : t = .placeholder ∨ t = .percent) (ts : List Token) :
    ¬ Separated (.placeholder :: t :: ts) := by
  unfold Separated
  rw [List.isChain_cons_cons]
  rintro ⟨h, -⟩
  exact ht.elim (h rfl).1 (h rfl).2

/-- Where a placeholder is followed by another one or by a percent sign, the
scanner takes the first two percent signs of the run together. -/
theorem reading_run {t : Token} (ht : t = .placeholder ∨ t = .percent) (ts : List Token) :
    ∃ s, reading (encode (.placeholder :: t :: ts)) = .percent :: s := by
  rcases ht with rfl | rfl
  · exact ⟨_, reading_percent _⟩
  · exact ⟨_, reading_percent _⟩

theorem reading_encode_iff (ts : List Token) : reading (encode ts) = ts ↔ Separated ts := by
  induction ts with
  | nil => exact iff_of_true rfl .nil
  | cons t ts ih =>
    cases t with
    | char c =>
      rw [separated_cons (t := .char c) nofun, ← ih]
      show reading (c.1 :: encode ts) = _ ↔ _
      rw [reading_char, List.cons.injEq, and_iff_right rfl]
    | percent =>
      rw [separated_cons (t := .percent) nofun, ← ih]
      show reading (percent :: percent :: encode ts) = _ ↔ _
      rw [reading_percent, List.cons.injEq, and_iff_right rfl]
    | placeholder =>
      cases ts with
      | nil => exact iff_of_true rfl (.singleton _)
      | cons t' ts =>
        cases t' with
        | char c =>
          rw [separated_placeholder, ← ih]
          show reading (percent :: encode (.char c :: ts)) = _ ↔ _
          rw [reading_placeholder (by simpa [encode, Token.encode] using c.2), List.cons.injEq,
            and_iff_right rfl]
        | percent =>
          obtain ⟨s, hs⟩ := reading_run (.inr rfl) ts
          rw [hs]
          exact iff_of_false nofun (not_separated (.inr rfl) ts)
        | placeholder =>
          obtain ⟨s, hs⟩ := reading_run (.inl rfl) ts
          rw [hs]
          exact iff_of_false nofun (not_separated (.inl rfl) ts)

def glyph : Token → LogElement
  | .char c => pushChar c
  | .percent => pushChar percent
  | .placeholder => ⟨.integer, .i 0⟩

theorem glyph_injective : Function.Injective glyph := by
  intro t t' h
  cases t with
  | char c =>
    cases t' with
    | char c' =>
      have hc : c.1 = c'.1 := by simpa [glyph, pushChar] using h
      rw [Subtype.ext hc]
    | percent => exact absurd (by simpa [glyph, pushChar] using h) c.2
    | placeholder => cases h
  | percent =>
    cases t' with
    | char c => exact absurd (by simpa [glyph, pushChar] using h.symm) c.2
    | percent => rfl
    | placeholder => cases h
  | placeholder =>
    cases t' with
    | char | percent => cases h
    | placeholder => rfl

theorem render_glyph (ts : List Token) :
    render ts (List.replicate (placeholders ts) (.int 0)) = ts.map glyph := by
  induction ts with
  | nil => rfl
  | cons t ts ih =>
    cases t with
    | char c => simpa [render, glyph] using ih
    | percent => simpa [render, glyph] using ih
    | placeholder =>
      rw [placeholders_placeholder, List.replicate_succ, render, ih]
      rfl

/-- A list of tokens can be logged through its encoding, whatever the values,
exactly when its placeholders are separated from what would run into them. -/
theorem log_encode_iff (ts : List Token) :
    (∀ args : List Arg, args.length = placeholders ts →
      log args (encode ts) = pushes (render ts args)) ↔ Separated ts := by
  rw [← reading_encode_iff]
  constructor
  · intro h
    have hlog := h (List.replicate (placeholders ts) (.int 0)) (by simp)
    rw [log_eq_actions] at hlog
    have hextra :=
      extraArguments_notMem_pushes (render ts (List.replicate (placeholders ts) (.int 0)))
    have hmissing :=
      missingArgument_notMem_pushes (render ts (List.replicate (placeholders ts) (.int 0)))
    rw [← hlog, extraArguments_mem_iff, List.length_replicate] at hextra
    rw [← hlog, missingArgument_mem_iff, List.length_replicate] at hmissing
    have hcount : placeholders (reading (encode ts)) = placeholders ts := by omega
    have hsame := congrArg pushed hlog
    rw [pushed_pushes, pushed_actions, render_glyph, ← hcount, render_glyph] at hsame
    exact List.map_injective_iff.mpr glyph_injective hsame
  · intro h args hargs
    rw [log_eq_actions, h, actions_eq_pushes hargs.symm]

end Encoding

end LowLatency.Logger
