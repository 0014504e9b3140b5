import Mathlib.Data.List.Induction
import Mathlib.Data.List.Infix
import Feedforward.Proofs.Writing

/-! Steps of writing in any order. A level that is not open cannot be closed, so
the level is the net count of levels opened, less the least that this count has
been; what a step adds to the text depends on the steps before it by this alone. -/
namespace Feedforward.Writer

/-- Levels opened less levels closed, as if more could be closed than are open. -/
def net (steps : List Step) : Int := steps.count .indent - steps.count .dedent

/-- The least net count on the way, which starts at zero. -/
def lowest (steps : List Step) : Int := (steps.inits.map net).foldl min 0

/-- How far the net count is above the least that it has been. -/
def depthAfter (steps : List Step) : Nat := (net steps - lowest steps).toNat

def added (width : Nat) (before : List Step) : Step → List Char
  | .line text =>
    if text = "" then ['\n']
    else List.replicate (width * depthAfter before) ' ' ++ text.toList ++ ['\n']
  | .blank => ['\n']
  | .indent | .dedent => []

theorem net_concat (steps : List Step) (s : Step) : net (steps ++ [s]) = net steps + net [s] := by
  simp only [net, List.count_append]
  omega

theorem lowest_concat (steps : List Step) (s : Step) :
    lowest (steps ++ [s]) = min (lowest steps) (net (steps ++ [s])) := by
  simp [lowest, List.inits_append, List.foldl_append]

theorem lowest_le_net (steps : List Step) : lowest steps ≤ net steps := by
  induction steps using List.reverseRecOn with
  | nil => decide
  | append_singleton steps s _ =>
    rw [lowest_concat]
    exact Int.min_le_right _ _

theorem coe_depthAfter (steps : List Step) : (depthAfter steps : Int) = net steps - lowest steps :=
  Int.toNat_of_nonneg (Int.sub_nonneg_of_le (lowest_le_net steps))

theorem level_step (w : Writer) (s : Step) :
    ((w.step s).level : Int) = max 0 (w.level + net [s]) := by
  cases s with
  | line text =>
    rw [step_line_output, show net [.line text] = 0 from rfl]
    dsimp only
    omega
  | blank =>
    rw [step, show net [.blank] = 0 from rfl]
    dsimp only
    omega
  | indent =>
    rw [step, show net [.indent] = 1 from rfl]
    dsimp only
    omega
  | dedent =>
    rw [step, show net [.dedent] = -1 from rfl]
    dsimp only
    omega

/-- Where the net count would go below its least value, that value goes along. -/
theorem depthAfter_concat (steps : List Step) (s : Step) :
    (depthAfter (steps ++ [s]) : Int) = max 0 (depthAfter steps + net [s]) := by
  rw [coe_depthAfter, coe_depthAfter, lowest_concat, net_concat]
  omega

theorem output_step {w : Writer} {before : List Step} (h : w.level = depthAfter before)
    (s : Step) : (w.step s).output.toList = w.output.toList ++ added w.width before s := by
  cases s with
  | line text =>
    by_cases htext : text = ""
    · simp [step_line_output, marginLine, added, htext]
    · simp [step_line_output, marginLine, added, htext, h, Nat.mul_comm]
  | blank => simp [step, added]
  | indent | dedent => simp [step, added]

theorem width_step (w : Writer) (s : Step) : (w.step s).width = w.width := by
  cases s with
  | line text => rw [step_line_output]
  | blank | indent | dedent => rfl

def addedBy (width : Nat) (steps : List Step) : List Char :=
  steps.zipIdx.flatMap fun (s, i) => added width (steps.take i) s

theorem addedBy_concat (width : Nat) (steps : List Step) (s : Step) :
    addedBy width (steps ++ [s]) = addedBy width steps ++ added width steps s := by
  have hfront : ∀ p ∈ steps.zipIdx,
      added width ((steps ++ [s]).take p.2) p.1 = added width (steps.take p.2) p.1 := by
    intro p hp
    have hlt := List.snd_lt_of_mem_zipIdx hp
    rw [List.take_append_of_le_length (by omega)]
  simp only [addedBy, List.zipIdx_append, List.flatMap_append, Nat.zero_add]
  rw [List.flatMap_congr hfront]
  simp

theorem run_eq_history (width : Nat) (steps : List Step) :
    (new width).run steps =
      ⟨width, depthAfter steps, String.ofList (addedBy width steps)⟩ := by
  induction steps using List.reverseRecOn with
  | nil => rfl
  | append_singleton steps s ih =>
    have hlevel : ((new width).run steps).level = depthAfter steps := by rw [ih]
    have hnext := level_step ((new width).run steps) s
    rw [hlevel, ← depthAfter_concat, Int.natCast_inj] at hnext
    have houtput := output_step hlevel s
    have hwidth := width_step ((new width).run steps) s
    rw [run_append, run_cons, run_nil]
    generalize ((new width).run steps).step s = w at houtput hnext hwidth ⊢
    obtain ⟨wwidth, level, output⟩ := w
    rw [ih] at houtput hwidth
    rw [mk.injEq, ← String.toList_inj, houtput, addedBy_concat, String.toList_ofList]
    exact ⟨hwidth, hnext, by simp⟩

theorem output_prefix_step (w : Writer) (s : Step) :
    w.output.toList <+: (w.step s).output.toList := by
  cases s with
  | line text =>
    rw [step_line_output, String.toList_append, String.toList_append, List.append_assoc]
    exact List.prefix_append _ _
  | blank =>
    change _ <+: (w.output ++ "\n").toList
    rw [String.toList_append]
    exact List.prefix_append _ _
  | indent | dedent => exact List.prefix_refl _

theorem output_prefix_of_mem_trace {w b : Writer} {steps : List Step} (h : b ∈ w.trace steps) :
    w.output.toList <+: b.output.toList := by
  induction steps generalizing w with
  | nil => cases h
  | cons s steps ih =>
    rcases List.mem_cons.mp h with rfl | h
    · exact output_prefix_step w s
    · exact (output_prefix_step w s).trans (ih h)

theorem trace_pairwise (w : Writer) (steps : List Step) :
    (w.trace steps).Pairwise fun a b => a.output.toList <+: b.output.toList := by
  induction steps generalizing w with
  | nil => exact List.Pairwise.nil
  | cons s steps ih =>
    exact List.pairwise_cons.mpr ⟨fun b hb => output_prefix_of_mem_trace hb, ih (w.step s)⟩

theorem trace_eq_run (w : Writer) (steps : List Step) :
    w.trace steps = steps.inits.tail.map w.run := by
  induction steps generalizing w with
  | nil => rfl
  | cons s steps ih =>
    have hinits : steps.inits = [] :: steps.inits.tail := by cases steps <;> simp
    have hrun : w.run ∘ (s :: ·) = (w.step s).run := rfl
    rw [trace, ih, List.inits_cons, List.tail_cons, List.map_map, hrun]
    conv_rhs => rw [hinits, List.map_cons, run_nil]

/-- The text is what the steps add to it one after the other, each line at the
level that the steps before it lead to: their net count, less the least of zero
and of all net counts up to there. What a step leaves of the text no later one
changes. -/
theorem run_by_history (width : Nat) (steps : List Step) :
    (render width steps).toList =
        steps.zipIdx.flatMap (fun (s, i) => added width (steps.take i) s) ∧
      ((new width).run steps).level = depthAfter steps ∧
      (∀ before, (depthAfter before : Int) = net before - lowest before) ∧
      (new width).trace steps = steps.inits.tail.map (new width).run ∧
      ((new width).trace steps).Pairwise fun a b => a.output.toList <+: b.output.toList := by
  have hrun := run_eq_history width steps
  refine ⟨?_, ?_, coe_depthAfter, trace_eq_run _ steps, trace_pairwise _ steps⟩
  · rw [render, hrun, String.toList_ofList, addedBy]
  · rw [hrun]

example : depthAfter [.dedent, .dedent, .indent, .line "a", .indent] = 2 := by decide

end Feedforward.Writer
