import LowLatency.Logger.Language
import LowLatency.Logger.Threads

namespace LowLatency.Logger

open Library.Words Library.BoundedFifo

theorem pushValue_string_cons {c : Byte} (hc : c ≠ 0) (v : List Byte) :
    pushValue (.string (c :: v)) = pushChar c :: pushValue (.string v) := by
  rw [pushValue, pushCString, List.cons_append, List.takeWhile_cons_of_pos (by simpa using hc)]
  rfl

theorem pushValue_string_iff (v : List Byte) :
    pushValue (.string v) = v.map pushChar ↔ 0 ∉ v := by
  induction v with
  | nil => exact iff_of_true rfl List.not_mem_nil
  | cons c v ih =>
    by_cases hc : c = 0
    · subst hc
      exact iff_of_false nofun (fun h ↦ h List.mem_cons_self)
    · rw [pushValue_string_cons hc, List.map_cons, List.cons.injEq, and_iff_right rfl, ih,
        List.mem_cons, not_or, and_iff_right (Ne.symm hc)]

theorem render_append {ts : List Token} {args : List Arg} (h : args.length = placeholders ts)
    (us : List Token) (args' : List Arg) :
    render (ts ++ us) (args ++ args') = render ts args ++ render us args' := by
  fun_induction render ts args with
  | case1 args =>
    obtain rfl := List.length_eq_zero_iff.mp h
    rfl
  | case2 c ts args ih => simpa [render] using ih (by simpa using h)
  | case3 ts args ih => simpa [render] using ih (by simpa using h)
  | case4 ts ih => simp at h
  | case5 ts value args ih => simpa [render] using ih (by simpa using h)

def values (es : List LogElement) : List (Option Value) := es.map fun e ↦ some e.value

section Placeholder

variable {format : List Byte} {ts us : List Token} {args args' : List Arg}

theorem elements_at_placeholder (hformat : reading format = ts ++ .placeholder :: us)
    (hargs : args.length = placeholders ts) (v : List Byte) :
    (Call.mk format (args ++ .string v :: args')).elements =
      render ts args ++ (pushValue (.string v) ++ render us args') := by
  rw [Call.elements_eq, hformat, render_append hargs, render]

/-- A string is logged whole through its placeholder, and is whole in the file
once the logger is destroyed, exactly when no byte of it is a NUL. -/
theorem string_logged_whole_iff (hformat : reading format = ts ++ .placeholder :: us)
    (hargs : args.length = placeholders ts) (v : List Byte) (before after : List Call) :
    ((Call.mk format (args ++ .string v :: args')).elements =
        render ts args ++ (v.map pushChar ++ render us args') ∧
      ∀ s : State, Relation.ReflTransGen (Step logQueueSize) (State.initial
          ((before ++ ⟨format, args ++ .string v :: args'⟩ :: after).flatMap Call.elements)) s →
        s.app = .joined →
        s.file = values (before.flatMap Call.elements) ++ (values (render ts args) ++
          (v.map (fun c ↦ some (.c c)) ++ values (render us args'))) ++
          values (after.flatMap Call.elements)) ↔
    0 ∉ v := by
  rw [elements_at_placeholder hformat hargs, List.append_cancel_left_eq,
    List.append_cancel_right_eq, pushValue_string_iff, and_iff_left_iff_imp]
  intro hv s hs hj
  have hinv := run_inv hs
  obtain ⟨hfile, hpushed⟩ := hinv.joined_file hj
  rw [hinv.pushed_members, hpushed, List.flatMap_append, List.flatMap_cons,
    elements_at_placeholder hformat hargs, (pushValue_string_iff v).mpr hv] at hfile
  rw [hfile]
  simp [values, pushChar, Function.comp_def]

end Placeholder

theorem string_logged_whole_iff_hi :
    (Call.mk [percent] ([] ++ .string [0x68, 0x69] :: [])).elements =
      [pushChar 0x68, pushChar 0x69] :=
  ((@string_logged_whole_iff [percent] [] [] [] [] rfl rfl [0x68, 0x69] [] []).mpr (by decide)).1

theorem exists_joined {n : ℕ} (hn : 0 < n) (todo : List LogElement)
    (file : List (Option Value)) (pushed : List LogElement) :
    ∃ s : State,
      Relation.ReflTransGen (Step n) ⟨[], true, .pushing todo, .fetching, file, pushed⟩ s ∧
      s.app = .joined := by
  induction todo generalizing file pushed with
  | nil =>
    exact ⟨_, (((((((Relation.ReflTransGen.refl.tail (.destroy rfl)).tail (.drained rfl rfl)).tail
      (.stop rfl)).tail (.fetchNone rfl rfl)).tail (.wake rfl)).tail (.checkStopped rfl rfl)).tail
      (.join rfl rfl)), rfl⟩
  | cons e todo ih =>
    obtain ⟨s, hs, hj⟩ := ih (file ++ [e.member]) (pushed ++ [e])
    exact ⟨s, .head (.slot (.inl rfl) hn.ne) <| .head (.publish rfl (enqueue_iff.mpr ⟨hn, rfl⟩)) <|
      .head (.fetchSome rfl (by simp)) <| .head (.write rfl rfl) <|
      .head (.release rfl (dequeue_iff.mpr rfl)) hs, hj⟩

/-- Logging `"a\0b"` through `"%"` enqueues one element and not three, and there
is a run in which the file holds the one letter when the logger is gone. -/
theorem string_cut_at_nul :
    (Call.mk [percent] [.string [0x61, 0, 0x62]]).elements ≠
      ([0x61, 0, 0x62] : List Byte).map pushChar ∧
    ∃ s : State, Relation.ReflTransGen (Step logQueueSize)
        (State.initial ([⟨[percent], [.string [0x61, 0, 0x62]]⟩].flatMap Call.elements)) s ∧
      s.app = .joined ∧ s.file = [some (.c 0x61)] := by
  refine ⟨by decide, ?_⟩
  obtain ⟨s, hs, hj⟩ := exists_joined (n := logQueueSize) (by decide) [pushChar 0x61] [] []
  have hrun : Relation.ReflTransGen (Step logQueueSize) (State.initial [pushChar 0x61]) s :=
    .head (.checkRunning rfl rfl) hs
  obtain ⟨hfile, hpushed⟩ := (run_inv hrun).joined_file hj
  refine ⟨s, hrun, hj, ?_⟩
  rw [hfile, hpushed]
  rfl

end LowLatency.Logger
