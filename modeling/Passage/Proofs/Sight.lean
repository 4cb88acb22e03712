import Passage.Proofs.Simulation

/-!
# What rules see

Two relations between environments that evaluation respects. The first one is equality, with an
invariant beside it: more depth never changes an outcome, and what is visible to rules is afterwards
what it was. The second one compares what is visible: remembered trees and the journal have no
influence. So the depth can be left out: an expression `Evaluates` to a result, and a rule `Checks`
with one, if they come to it at some depth, and then to no other.
-/
namespace Passage

open Passage.Action

/-- An environment follows itself, together with whatever holds of it at the start and is not lost
by what evaluation does: what is visible stays the same, but for frames that are pushed and
popped. -/
theorem Simulation.ofInvariant {P : List Frame → Env → Prop}
    (hvisible : ∀ {frames s t}, t.visible = s.visible → P frames s → P frames t)
    (hpush : ∀ {frames s}, P frames s → ∀ frame, P (frame :: frames) (s.push frame))
    (hpop : ∀ {frame frames s}, P (frame :: frames) s → P frames s.pop) (context : Option String) :
    Simulation (fun frames s t => s = t ∧ P frames s) (fun _ => False) context context where
  lookup := by
    intro _ s t h name
    rw [h.1]
    exact .inr rfl
  strictArity := by
    intro _ s t h
    rw [h.1]
    exact .inl rfl
  reaches := by
    intro _ s t h region
    rw [h.1]
  readRule := by
    intro _ s t h text
    rw [← h.1]
    exact .inr ⟨rfl, rfl, hvisible (s.visible_readRule text) h.2⟩
  hosts := by
    intro _ s t h number args
    rw [h.1]
  message := by
    intro _ s t h text
    rw [← h.1]
    exact ⟨rfl, hvisible (s.visible_note _) h.2⟩
  hostCall := by
    intro _ s t h name args
    rw [← h.1]
    exact ⟨rfl, hvisible (s.visible_note _) h.2⟩
  push := by
    intro _ s t h frame
    rw [← h.1]
    exact ⟨rfl, hpush h.2 frame⟩
  pop := by
    intro _ _ s t h
    rw [← h.1]
    exact ⟨rfl, hpop h.2⟩

/-- Environments that look the same to rules. -/
theorem Simulation.visible (context : Option String) :
    Simulation (fun _ s t => s.visible = t.visible) (fun _ => False) context context where
  lookup := by
    intro _ s t h name
    refine .inr ?_
    rw [← s.lookup_visible, h, t.lookup_visible]
  strictArity := by
    intro _ s t h
    exact .inl (congrArg (·.config.strictArity) h)
  reaches := by
    intro _ s t h region
    rw [← s.reaches_visible, h, t.reaches_visible]
  readRule := by
    intro _ s t h text
    have hconfig : s.visible.config = t.visible.config := by rw [h]
    refine .inr ⟨?_, h⟩
    rw [s.fst_readRule, t.fst_readRule]
    exact congrArg (fun config => RuleText.expr ⟨text, config.allowTrailing⟩) hconfig
  hosts := by
    intro _ s t h number args
    exact congrArg (fun env => env.hosts number args context) h
  message := by intro _ s t h text; exact h
  hostCall := by intro _ s t h name args; exact h
  push := by
    intro _ s t h frame
    rw [Env.visible_push, h, Env.visible_push]
  pop := by
    intro _ _ s t h
    rw [Env.visible_pop, h, Env.visible_pop]

/-- More depth does not change the outcome of an evaluation. -/
theorem evaluate_deeper {context : Option String} {depth depth' : Nat} (hle : depth ≤ depth')
    {e : Expr} {env after : Env} {result : Except Fault Expr}
    (h : (evaluate context depth e).outcome env = some (result, after)) :
    (evaluate context depth' e).outcome env = some (result, after) := by
  have hself := Simulation.ofInvariant (P := fun _ _ => True) (fun _ _ => trivial)
    (fun _ _ => trivial) (fun _ => trivial) context
  obtain ⟨_, ho, rfl, _⟩ := (hself.follows_evaluate hle [] e).always h ⟨rfl, trivial⟩
  exact ho

/-- Evaluation leaves an environment that looks the same to rules, frames included. -/
theorem keeps_evaluate (context : Option String) (depth : Nat) (e : Expr) :
    Keeps Env.visible (evaluate context depth e) := by
  intro env result after h
  -- The frames pushed since the start are above those of the start, and nothing else has changed.
  have hself := Simulation.ofInvariant
    (P := fun frames now => now.visible = { env.visible with stack := frames ++ env.stack })
    (fun hsame h => hsame.trans h)
    (fun h frame => by rw [Env.visible_push, h]; rfl)
    (fun h => by rw [Env.visible_pop, h]; rfl) context
  obtain ⟨_, _, _, hafter⟩ :=
    (hself.follows_evaluate (Nat.le_refl depth) [] e).always h ⟨rfl, rfl⟩
  exact hafter

theorem keeps_checkRule (context : Option String) (depth : Nat) (rule : String) :
    Keeps Env.visible (checkRule depth rule context) := by
  refine keeps_bind ?_ fun root => keeps_bind ?_ fun holds => keeps_bind ?_ fun _ => ?_
  · intro env result after h
    rw [Check.outcome_readRule] at h
    cases h
    exact env.visible_readRule rule
  · refine keeps_mapError _ (keeps_bind (keeps_evaluate context depth root) fun value => ?_)
    exact keeps_ofExcept value.toTruth
  · exact keeps_update fun env => env.visible_note _
  · exact keeps_pure holds

/-- At least the depth, in an environment that looks the same: the same result. -/
theorem evaluate_visible {context : Option String} {depth depth' : Nat} (hle : depth ≤ depth')
    {e : Expr} {s t after : Env} (hst : s.visible = t.visible) {result : Except Fault Expr}
    (h : (evaluate context depth e).outcome s = some (result, after)) :
    ∃ after', (evaluate context depth' e).outcome t = some (result, after') ∧
      after'.visible = t.visible := by
  have hfollows := (Simulation.visible context).follows_evaluate hle [] e
  obtain ⟨after', ho, _⟩ := hfollows.always h hst
  exact ⟨after', ho, keeps_evaluate context depth' e t _ _ ho⟩

theorem checkRule_visible {context : Option String} {depth depth' : Nat} (hle : depth ≤ depth')
    {rule : String} {s t after : Env} (hst : s.visible = t.visible)
    {result : Except CheckError Bool}
    (h : (checkRule depth rule context).outcome s = some (result, after)) :
    ∃ after', (checkRule depth' rule context).outcome t = some (result, after') ∧
      after'.visible = t.visible := by
  have hfollows := (Simulation.visible context).follows_checkRule_always
    (fun h _ _ => h) hle [] rule
  obtain ⟨after', ho, _⟩ := hfollows.always h hst
  exact ⟨after', ho, keeps_checkRule context depth' rule t _ _ ho⟩

namespace Env

/-- An expression comes to a result under a context, at some depth. -/
def Evaluates (env : Env) (context : Option String) (e : Expr)
    (result : Except Fault Expr) : Prop :=
  ∃ depth after, (evaluate context depth e).outcome env = some (result, after)

/-- The check of a rule under a context comes to a result, at some depth. -/
def Checks (env : Env) (context : Option String) (rule : String)
    (result : Except CheckError Bool) : Prop :=
  ∃ depth after, (checkRule depth rule context).outcome env = some (result, after)

variable {s t : Env} {context : Option String}

theorem Evaluates.of_visible {e : Expr} {result : Except Fault Expr} (hst : s.visible = t.visible)
    (h : s.Evaluates context e result) : t.Evaluates context e result := by
  obtain ⟨depth, after, ho⟩ := h
  obtain ⟨after', ho', _⟩ := evaluate_visible (Nat.le_refl depth) hst ho
  exact ⟨depth, after', ho'⟩

theorem Checks.of_visible {rule : String} {result : Except CheckError Bool}
    (hst : s.visible = t.visible) (h : s.Checks context rule result) :
    t.Checks context rule result := by
  obtain ⟨depth, after, ho⟩ := h
  obtain ⟨after', ho', _⟩ := checkRule_visible (Nat.le_refl depth) hst ho
  exact ⟨depth, after', ho'⟩

theorem Evaluates.unique {e : Expr} {result result' : Except Fault Expr}
    (h : s.Evaluates context e result) (h' : s.Evaluates context e result') : result = result' := by
  obtain ⟨depth, after, ho⟩ := h
  obtain ⟨depth', after', ho'⟩ := h'
  have hl := evaluate_deeper (Nat.le_max_left depth depth') ho
  have hr := evaluate_deeper (Nat.le_max_right depth depth') ho'
  rw [hl] at hr
  cases hr
  rfl

theorem Checks.unique {rule : String} {result result' : Except CheckError Bool}
    (h : s.Checks context rule result) (h' : s.Checks context rule result') : result = result' := by
  obtain ⟨depth, after, ho⟩ := h
  obtain ⟨depth', after', ho'⟩ := h'
  obtain ⟨_, hl, _⟩ := checkRule_visible (Nat.le_max_left depth depth') (Eq.refl s.visible) ho
  obtain ⟨_, hr, _⟩ := checkRule_visible (Nat.le_max_right depth depth') (Eq.refl s.visible) ho'
  rw [hl] at hr
  cases hr
  rfl

end Env

end Passage
