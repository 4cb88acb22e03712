import Passage.Proofs.Grammar
import Passage.Proofs.Upheld

/-!
# Demands of the configuration

A configuration can demand that calls give functions the right number of arguments, and that texts
are read to their end. A demand answers nothing by itself: where it is not met there is a complaint,
and everything else is answered as it would be without the demand.
-/
namespace Passage

/-- The first configuration is the second one, perhaps with more demands. -/
structure Config.Tightens (tight loose : Config) : Prop where
  arity : loose.strictArity = true → tight.strictArity = true
  trailing : tight.allowTrailing = true → loose.allowTrailing = true
  rest : { tight with
    strictArity := loose.strictArity, allowTrailing := loose.allowTrailing } = loose

/-- Rules see the same in both environments, but for the demands of their configurations. -/
structure Env.Tightens (s t : Env) : Prop where
  config : s.config.Tightens t.config
  rest : { s.visible with config := t.config } = t.visible

/-- The complaints that nothing but a demand gives rise to. -/
def Fault.IsDemand : Fault → Prop
  | arity _ _ _ | unreadable (.grammar (.leftOver _) _ _) => True
  | _ => False

/-- Reading a text to its end differs from reading its front at most by a complaint about what is
left. -/
theorem RuleText.expr_to_end (text : String) :
    (∃ found position, expr ⟨text, false⟩ = .error (.grammar (.leftOver found) position text)) ∨
      expr ⟨text, false⟩ = expr ⟨text, true⟩ := by
  unfold expr
  cases Token.scan text with
  | error e => exact .inr rfl
  | ok tokens =>
    dsimp only
    unfold Expr.ofSymbols
    cases Reading.readWhole (tokens.map Token.symbol) with
    | error refusal => exact .inr rfl
    | ok pair =>
      obtain ⟨e, rest⟩ := pair
      cases rest with
      | nil => exact .inr rfl
      | cons symbol later => exact .inl ⟨symbol, _, rfl⟩

namespace Config.Tightens

variable {tight loose : Config}

theorem strictArity (h : tight.Tightens loose) :
    tight.strictArity = loose.strictArity ∨
      loose.strictArity = false ∧ ∀ callee expected got,
      (Fault.arity callee expected got).IsDemand := by
  cases hloose : loose.strictArity with
  | true => exact .inl (h.arity hloose)
  | false => exact .inr ⟨rfl, fun _ _ _ => trivial⟩

theorem reads (h : tight.Tightens loose) (text : String) :
    (∃ e, RuleText.expr ⟨text, tight.allowTrailing⟩ = .error e ∧ (Fault.unreadable e).IsDemand) ∨
      RuleText.expr ⟨text, tight.allowTrailing⟩ = RuleText.expr ⟨text, loose.allowTrailing⟩ := by
  cases htight : tight.allowTrailing with
  | true =>
    rw [h.trailing htight]
    exact .inr rfl
  | false =>
    cases loose.allowTrailing with
    | false => exact .inr rfl
    | true =>
      rcases RuleText.expr_to_end text with ⟨found, position, he⟩ | hsame
      · exact .inl ⟨_, he, trivial⟩
      · exact .inr hsame

end Config.Tightens

/-- What is answered under more demands is upheld under fewer. -/
theorem Env.Tightens.upheldBy {s t : Env} (h : s.Tightens t) : s.UpheldBy Fault.IsDemand t where
  selector := (congrArg Config.selector h.config.rest :)
  contexts := (congrArg Config.contexts h.config.rest :)
  atRoot := (congrArg Config.atRoot h.config.rest :)
  arity := h.config.strictArity
  reads := h.config.reads
  globals name := .inr (congrArg (fun env => env.globals.get? name) h.rest :)
  hosts := (congrArg Env.hosts h.rest :)
  stack := (congrArg Env.stack h.rest :)
  graphs := (congrArg Env.graphs h.rest :)
  graphRoot := (congrArg Env.graphRoot h.rest :)

open Simulation

/-- Demands cost answers and change none. Whatever an evaluation, a rule check or a survey comes to
under more demands, it comes to under fewer as well, to at least the same depth: the same value or
verdict, the same graphs with their edges in the same order, told with the same messages on the way.
Only a complaint that some demand is not met need not be met again. -/
theorem answers_without_demands {s t : Env} (h : s.Tightens t) {depth depth' : Nat}
    (hle : depth ≤ depth') :
    (∀ context e result after, (evaluate context depth e).outcome s = some (result, after) →
      (∀ fault, result = .error fault → ¬fault.IsDemand) →
        ∃ after', (evaluate context depth' e).outcome t = some (result, after') ∧
          s.ToldAlike t after after') ∧
    (∀ context rule result after, (checkRule depth rule context).outcome s = some (result, after) →
      (∀ e, result = .error e → ¬ExcusedCheck Fault.IsDemand e) →
        ∃ after', (checkRule depth' rule context).outcome t = some (result, after') ∧
          s.ToldAlike t after after') ∧
    ∀ regions root result after, (Survey.build depth regions root).outcome s =
      some (result, after) → (∀ e, result = .error e → ¬ExcusedCheck Fault.IsDemand e) →
        ∃ after', (Survey.build depth' regions root).outcome t = some (result, after') ∧
          s.ToldAlike t after after' ∧ after'.graphs = after.graphs := by
  have hupheld := h.upheldBy
  refine ⟨?_, ?_, ?_⟩
  · intro context e result after ho hresult
    exact hupheld.evaluates hle ho hresult
  · intro context rule result after ho hresult
    exact hupheld.checks hle ho hresult
  · intro regions root result after ho hresult
    exact hupheld.surveys hle ho hresult

/-- A helper that makes nothing of its second argument. Called without one, in a text that goes on
behind its expression, it is refused under both demands and answered under none. A survey that has
no need of such a call comes to the same in both environments. -/
theorem answers_without_demands_spare_argument :
    let spare : Expr := .function ["x", "y"] (.call (.var "debug") (.var "x"))
    let globals := (Env.builtins.insert "spare" spare).insert "key" (.bool true)
    let tight : Env := .fresh { strictArity := true } globals Env.noHosts
    let loose : Env := .fresh { allowTrailing := true } globals Env.noHosts
    let call : Expr := .call (.var "eval") (.text "spare(key) key")
    let regions : List Region :=
      [⟨"yard", "", [⟨"gate", "eval(\"spare(key, AGE)\")", "at(\"gate\", spare(key, AGE))"⟩,
        ⟨"hall", "FALSE", "at(\"cellar\", spare(key))"⟩], []⟩]
    tight.Tightens loose ∧
    ((evaluate none 8 call).outcome tight).map Prod.fst =
      some (.error (.unreadable (.grammar (.leftOver (.name "key")) 12 "spare(key) key"))) ∧
    ((evaluate none 8 call).outcome loose).map Prod.fst = some (.ok (.bool true)) ∧
    ∃ survey after after', (Survey.build 8 regions none).outcome tight = some (.ok survey, after) ∧
      (survey.first.edges, survey.second.edges) = ([("yard", "gate")], [("yard", "gate")]) ∧
      (Survey.build 8 regions none).outcome loose = some (.ok survey, after') ∧
      tight.ToldAlike loose after after' := by
  intro spare globals tight loose call regions
  have htightens : tight.Tightens loose := by
    refine ⟨⟨fun _ => rfl, fun h => ?_, rfl⟩, rfl⟩
    cases h
  have hrun : (((Survey.build 8 regions none).outcome tight).bind
      fun pair => pair.1.toOption.map fun survey => (survey.first.edges, survey.second.edges)) =
      some ([("yard", "gate")], [("yard", "gate")]) := by
    decide +kernel
  obtain ⟨survey, after, hbuild, hedges⟩ := Action.ok_of_seen hrun
  obtain ⟨after', hbuild', htold, -⟩ :=
    (answers_without_demands htightens (Nat.le_refl 8)).2.2 regions none _ after hbuild nofun
  refine ⟨htightens, ?_, ?_, survey, after, after', hbuild, hedges, hbuild', htold⟩
  · decide +kernel
  · decide +kernel

end Passage
