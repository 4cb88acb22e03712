import Passage.Proofs.Inlining
import Passage.Proofs.PlainRules

/-!
# What calls come to

A call of a helper comes to what its body comes to under the frame of its parameters, and a call of
`eval` to what the text read comes to in the place of the call. Neither the depth nor what
evaluation leaves in memory and journal matters, so what a call comes to can be put together from
what its parts come to (`Env.evaluates_helper`, `Env.evaluates_evalText`).
-/
namespace Passage.Env

open Passage.Action

variable {env now : Env} {context : Option String} {name text : String} {args arg body e : Expr}
  {params : List String} {exprs values : List Expr} {result : Except Fault Expr}

/-- Expressions that come to values do so together, one after the other, at some depth. -/
theorem exists_outcome_mapM (h : exprs.Forall₂ (fun e value =>
    env.Evaluates context e (.ok value)) values) (hnow : now.visible = env.visible) :
    ∃ depth after, (exprs.mapM (evaluate context depth)).outcome now = some (.ok values, after) ∧
      after.visible = env.visible := by
  induction h generalizing now with
  | nil => exact ⟨0, now, rfl, hnow⟩
  | @cons e value exprs values he _ ih =>
    obtain ⟨depth, mid, hmid⟩ := he.of_visible hnow.symm
    have hseen := (keeps_evaluate context depth e now _ mid hmid).trans hnow
    obtain ⟨depth', after, hrest, hafter⟩ := ih hseen
    refine ⟨max depth depth', after, ?_, hafter⟩
    rw [List.mapM_cons, outcome_bind_ok (evaluate_deeper (Nat.le_max_left _ _) hmid),
      outcome_bind_ok (outcome_mapM_deeper (Nat.le_max_right _ _) hrest)]
    rfl

/-- The call of a helper comes to what its body comes to under the frame of its arguments. -/
theorem evaluates_helper (hname : env.lookup name context = .ok (.function params body))
    (hargs : args.arguments.Forall₂ (fun e value => env.Evaluates context e (.ok value)) values)
    (hlength : values.length = params.length)
    (hbody : (env.push (.ofList (params.zip values))).Evaluates context body result) :
    env.Evaluates context (.call (.var name) args) result := by
  obtain ⟨depth, mid, hmid, hseen⟩ := exists_outcome_mapM hargs rfl
  have hpushed : (env.push (.ofList (params.zip values))).visible =
      (mid.push (.ofList (params.zip values))).visible := by
    rw [visible_push, visible_push, hseen]
  obtain ⟨depth', inner, hinner⟩ := hbody.of_visible hpushed
  have hcallee : (evaluate context (depth + depth' + 1) (.var name)).outcome env =
      some (.ok (.function params body), env) := by
    show some (env.lookup name context, env) = _
    rw [hname]
  refine ⟨depth + depth' + 2, inner.pop, ?_⟩
  rw [outcome_call hcallee (outcome_mapM_deeper (by omega) hmid) hlength]
  exact Eval.outcome_inFrame (evaluate_deeper (by omega) hinner)

/-- A text that is evaluated means what it would mean in the place of the call. -/
theorem evaluates_evalText (hname : env.lookup name context = .ok (.native .evalText))
    (hargs : args.arguments = [arg]) (harg : env.Evaluates context arg (.ok (.text text)))
    (hread : RuleText.expr ⟨text, env.config.allowTrailing⟩ = .ok e)
    (he : env.Evaluates context e result) :
    env.Evaluates context (.call (.var name) args) result := by
  obtain ⟨depth, mid, hmid, hseen⟩ := exists_outcome_mapM (.cons harg .nil) (Eq.refl env.visible)
  have hconfig : mid.config = env.config := by
    show mid.visible.config = env.visible.config
    rw [hseen]
  have hreading : (Eval.readRule text).outcome mid = some (.ok e, (mid.readRule text).2) := by
    rw [Eval.outcome_readRule, mid.fst_readRule, hconfig, hread]
    rfl
  obtain ⟨depth', after, hafter⟩ := he.of_visible ((mid.visible_readRule text).trans hseen).symm
  have hcallee : (evaluate context (depth + depth' + 1) (.var name)).outcome env =
      some (.ok (.native .evalText), env) := by
    show some (env.lookup name context, env) = _
    rw [hname]
  refine ⟨depth + depth' + 2, after, ?_⟩
  show (evaluate context (depth + depth' + 1) (.var name) >>= _).outcome env = _
  rw [outcome_bind_ok hcallee, hargs]
  show ([arg].mapM (evaluate context (depth + depth' + 1)) >>= _).outcome env = _
  rw [outcome_bind_ok (outcome_mapM_deeper (by omega) hmid)]
  show (Eval.readRule text >>= _).outcome mid = _
  rw [outcome_bind_ok hreading]
  exact evaluate_deeper (by omega) hafter

end Passage.Env
