import Feedforward.Proofs.Code.Blocks

/-! Generated code keeps everything: it determines the model and the indent. The
name is that of its class, the sizes and activations are those of the program
that it sets up and runs, and the margins give the indent. -/
namespace Feedforward

def Statement.isActivation : Statement → Bool
  | .relu | .sigmoid => true
  | .setWeight _ _ _ | .setBias _ _ | .affine _ => false

namespace Activation

theorem isActivation_of_mem {a : Activation} {s : Statement} (h : s ∈ a.statements) :
    s.isActivation = true := by
  cases a with
  | relu | sigmoid =>
    cases List.mem_singleton.mp h
    rfl
  | none => cases h

theorem statements_inj {a b : Activation} : a.statements = b.statements ↔ a = b := by
  cases a <;> cases b <;> simp [statements]

/-- The activation of a layer ends where the next layer starts. -/
theorem statements_append_inj {a b : Activation} {ss ts : List Statement}
    (hss : ∀ s ∈ ss.head?, s.isActivation = false) (hts : ∀ s ∈ ts.head?, s.isActivation = false)
    (h : a.statements ++ ss = b.statements ++ ts) : a = b ∧ ss = ts := by
  have hsplit {a : Activation} {ss : List Statement}
      (hss : ∀ s ∈ ss.head?, s.isActivation = false) :
      (a.statements ++ ss).takeWhile Statement.isActivation = a.statements := by
    rw [List.takeWhile_append_of_pos fun s hs => isActivation_of_mem hs]
    cases ss with
    | nil => simp
    | cons s ss => rw [List.takeWhile_cons_of_neg (by simp [hss s rfl]), List.append_nil]
  have hab : a = b := by
    rw [← statements_inj, ← hsplit hss, h, hsplit hts]
  subst hab
  exact ⟨rfl, List.append_cancel_left h⟩

end Activation

namespace Parameter

theorem head?_forward_chain (index cols : Nat) (ls : List Layer) :
    ∀ s ∈ ((chain index cols ls).flatMap forward).head?, s.isActivation = false := by
  intro s hs
  cases ls with
  | nil => cases hs
  | cons l ls =>
    cases hs
    rfl

/-- Layers can be told from their statements, and so can the size before the first. -/
theorem chain_inj {index cols cols' : Nat} {ls ls' : List Layer}
    (hsetup : (chain index cols ls).flatMap setup = (chain index cols' ls').flatMap setup)
    (hforward : (chain index cols ls).flatMap forward = (chain index cols' ls').flatMap forward) :
    ls = ls' ∧ (ls ≠ [] → cols = cols') := by
  induction ls generalizing index cols cols' ls' with
  | nil =>
    cases ls' with
    | nil => exact ⟨rfl, fun h => absurd rfl h⟩
    | cons l' ls' => cases hsetup
  | cons l ls ih =>
    cases ls' with
    | nil => cases hsetup
    | cons l' ls' =>
      simp only [chain, List.flatMap_cons, setup, forward, List.cons_append, List.nil_append,
        List.cons.injEq, Statement.setWeight.injEq, Statement.setBias.injEq, true_and]
        at hsetup hforward
      obtain ⟨⟨-, hcols⟩, hunits, hsetup⟩ := hsetup
      obtain ⟨hactivation, hforward⟩ := Activation.statements_append_inj
        (head?_forward_chain _ _ ls) (head?_forward_chain _ _ ls') hforward
      rw [hunits] at hsetup hforward
      obtain ⟨rfl, -⟩ := ih hsetup hforward
      obtain ⟨units, activation⟩ := l
      cases hunits
      cases hactivation
      exact ⟨rfl, fun _ => hcols⟩

end Parameter

namespace Model

theorem ext_of_program {m m' : Model} (hname : m.name = m'.name)
    (hprogram : m.program = m'.program) : m = m' := by
  obtain ⟨hlayers, hsize⟩ := Parameter.chain_inj (congrArg Program.setup hprogram)
    (congrArg Program.forward hprogram)
  have hsize := hsize m.layers_ne_nil
  cases m
  cases m'
  cases hname
  cases hlayers
  cases hsize
  rfl

end Model

namespace Target

theorem constructorLine_mem_outline (t : Target) (m : Model) :
    ⟨1, (t.constructorLine m.name).toList⟩ ∈ t.outline m := by
  rw [outline_eq]
  simp only [List.mem_append]
  refine .inl (.inl (.inl (.inl ?_)))
  cases t <;> simp [dialect, Dialect.cpp, Dialect.python, Dialect.javascript, Writer.outline,
    constructorLine]

theorem indent_eq_of_generate {t : Target} {indent indent' : Nat} {m : Model}
    (h : t.generate indent m = t.generate indent' m) : indent = indent' := by
  have hlines : (t.outline m).map (CodeLine.chars indent) =
      (t.outline m).map (CodeLine.chars indent') := by
    rw [← lines_generate, ← lines_generate, h]
  have hline := List.map_inj_left.mp hlines _ (t.constructorLine_mem_outline m)
  have hlength := congrArg List.length hline
  simpa [CodeLine.chars] using hlength

/-- Two models have the same code only if they are the same model, written with
the same indent. -/
theorem generate_eq_generate_iff (t : Target) (indent indent' : Nat) (m m' : Model) :
    t.generate indent m = t.generate indent' m' ↔ m = m' ∧ indent = indent' := by
  constructor
  · intro h
    have hname : m.name = m'.name := by
      have hclass := t.classNames_generate indent m
      rw [h, classNames_generate, List.singleton_inj, String.toList_inj] at hclass
      exact hclass.symm
    have hprogram : m.program = m'.program := by
      rw [m.program_eq_declared, m'.program_eq_declared, ← t.readProgram_generate_eq indent m, h,
        readProgram_generate_eq]
    obtain rfl := Model.ext_of_program hname hprogram
    exact ⟨rfl, indent_eq_of_generate h⟩
  · rintro ⟨rfl, rfl⟩
    rfl

end Target
end Feedforward
