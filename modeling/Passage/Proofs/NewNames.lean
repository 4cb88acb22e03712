import Passage.Proofs.Upheld

/-!
# New names

Names are looked up while a rule is evaluated, so a global that is added could come in anywhere:
where an argument is missing, in a text put together by a helper, in a place that no rule has come
to so far. But a name is looked up among the globals only once all else has failed, and before it
was added this was the end of the evaluation. So a new name changes the answer only where it was
asked for in vain.
-/
namespace Passage

/-- Rules see the same in both environments, but for names that the second one binds in addition. -/
structure Env.ExtendedBy (s t : Env) : Prop where
  globals : ∀ name value, s.globals.get? name = some value → t.globals.get? name = some value
  rest : { s.visible with globals := t.globals } = t.visible

/-- The second environment binds a name that the first one does not know. -/
def Env.Lacks (s t : Env) (name : String) : Prop := name ∈ t.globals.names ∧ name ∉ s.globals.names

/-- A new name was asked for in vain. -/
def Env.Missed (s t : Env) (fault : Fault) : Prop :=
  ∃ name, s.Lacks t name ∧ fault = .undefined name

namespace Env.ExtendedBy

variable {s t : Env}

theorem get?_globals (h : s.ExtendedBy t) (name : String) :
    s.globals.get? name = none ∧ s.Missed t (.undefined name) ∨
      s.globals.get? name = t.globals.get? name := by
  cases hs : s.globals.get? name with
  | some value => exact .inr (h.globals name value hs).symm
  | none =>
    cases ht : t.globals.get? name with
    | none => exact .inr rfl
    | some value =>
      have hknown : name ∈ t.globals.names := by
        rw [← Table.contains_iff, Table.contains, ht, Option.isSome_some]
      exact .inl ⟨rfl, name, ⟨hknown, Table.get?_eq_none_iff.mp hs⟩, rfl⟩

/-- To bind a name that is not bound yet is to add it. -/
theorem bind {name : String} (h : name ∉ s.globals.names) (value : Expr) :
    s.ExtendedBy (s.bind name value) where
  globals := by
    intro other found hfound
    have hne : other ≠ name := by
      rintro rfl
      rw [Table.get?_eq_none_iff.mpr h] at hfound
      cases hfound
    exact (s.globals.get?_insert_of_ne value hne).trans hfound
  rest := rfl

theorem trans {u : Env} (h : s.ExtendedBy t) (h' : t.ExtendedBy u) : s.ExtendedBy u where
  globals name value hvalue := h'.globals name value (h.globals name value hvalue)
  rest := by
    have hrest := congrArg (fun env => { env with globals := u.globals }) h.rest
    exact hrest.trans h'.rest

/-- What is answered without the new names is upheld with them. -/
theorem upheldBy (h : s.ExtendedBy t) : s.UpheldBy (s.Missed t) t where
  selector := (congrArg (fun env => env.config.selector) h.rest :)
  contexts := (congrArg (fun env => env.config.contexts) h.rest :)
  atRoot := (congrArg (fun env => env.config.atRoot) h.rest :)
  arity := .inl (congrArg (fun env => env.config.strictArity) h.rest :)
  reads text := .inr
    (congrArg (fun env => RuleText.expr ⟨text, env.config.allowTrailing⟩) h.rest :)
  globals := h.get?_globals
  hosts := (congrArg Env.hosts h.rest :)
  stack := (congrArg Env.stack h.rest :)
  graphs := (congrArg Env.graphs h.rest :)
  graphRoot := (congrArg Env.graphRoot h.rest :)

end Env.ExtendedBy

theorem Env.not_missed {s t : Env} {result : Except Fault Expr}
    (h : ∀ name, s.Lacks t name → result ≠ .error (.undefined name)) (fault : Fault)
    (hresult : result = .error fault) : ¬s.Missed t fault := by
  rintro ⟨name, hlacks, rfl⟩
  exact h name hlacks hresult

theorem Env.not_missed_check {s t : Env} {α : Type} {result : Except CheckError α}
    (h : ∀ name tree, s.Lacks t name → result ≠ .error (.failed tree (.undefined name)))
    (e : CheckError) (hresult : result = .error e) : ¬Simulation.ExcusedCheck (s.Missed t) e := by
  cases e with
  | unreadable error =>
    rintro ⟨_, _, hfault⟩
    cases hfault
  | host failure =>
    rintro ⟨_, _, hfault⟩
    cases hfault
  | failed tree cause =>
    rintro ⟨name, hlacks, rfl⟩
    exact h name tree hlacks hresult

/-- New names change no answer. Whatever an evaluation, a rule check or a survey comes to, it comes
to with the new names as well, to at least the same depth, be it a value or an error, told with the
same messages on the way, unless it failed for want of one of these names. -/
theorem answers_with_new_names {s t : Env} (h : s.ExtendedBy t) {depth depth' : Nat}
    (hle : depth ≤ depth') :
    (∀ context e result after, (evaluate context depth e).outcome s = some (result, after) →
      (∀ name, s.Lacks t name → result ≠ .error (.undefined name)) →
        ∃ after', (evaluate context depth' e).outcome t = some (result, after') ∧
          s.ToldAlike t after after') ∧
    (∀ context rule result after, (checkRule depth rule context).outcome s = some (result, after) →
      (∀ name tree, s.Lacks t name → result ≠ .error (.failed tree (.undefined name))) →
        ∃ after', (checkRule depth' rule context).outcome t = some (result, after') ∧
          s.ToldAlike t after after') ∧
    ∀ regions root result after, (Survey.build depth regions root).outcome s =
      some (result, after) →
      (∀ name tree, s.Lacks t name → result ≠ .error (.failed tree (.undefined name))) →
        ∃ after', (Survey.build depth' regions root).outcome t = some (result, after') ∧
          s.ToldAlike t after after' ∧ after'.graphs = after.graphs := by
  have hupheld := h.upheldBy
  refine ⟨?_, ?_, ?_⟩
  · intro context e result after ho hresult
    exact hupheld.evaluates hle ho (Env.not_missed hresult)
  · intro context rule result after ho hresult
    exact hupheld.checks hle ho (Env.not_missed_check hresult)
  · intro regions root result after ho hresult
    exact hupheld.surveys hle ho (Env.not_missed_check hresult)

/-- A lamp is added, and a name like the parameter that the helper is not always given an argument
for. Where the helper does not come to need it, it is answered as before. A rule that fails for want
of the cellar fails as before; the one that failed for want of the lamp does not. -/
theorem answers_with_new_names_lamp :
    let unlock : Expr := .function ["door", "light"]
      (.binary .and (.call (.var "eval") (.var "door"))
        (.call (.var "at") (.binary .sequence (.text "gate") (.var "light"))))
    let before : Env :=
      .fresh {} ((Env.builtins.insert "unlock" unlock).insert "key" (.bool true)) Env.noHosts
    let now : Env := (before.bind "lamp" (.bool true)).bind "light" (.text "on")
    let regions : List Region := [⟨"yard", "", [⟨"hall", "unlock(\"debug(key)\")", "key"⟩], []⟩]
    let rule : Expr := .call (.var "unlock") (.text "cellar")
    before.ExtendedBy now ∧
    ((checkRule 8 "lamp" none).outcome before).map Prod.fst =
      some (.error (.failed (.var "lamp") (.undefined "lamp"))) ∧
    ((checkRule 8 "lamp" none).outcome now).map Prod.fst = some (.ok true) ∧
    (∃ after after',
      (checkRule 8 "unlock(\"cellar\")" none).outcome before =
        some (.error (.failed rule (.undefined "cellar")), after) ∧
      (checkRule 8 "unlock(\"cellar\")" none).outcome now =
        some (.error (.failed rule (.undefined "cellar")), after') ∧
          before.ToldAlike now after after') ∧
    ∃ survey after after', (Survey.build 8 regions none).outcome before = some (.ok survey, after) ∧
      (survey.first.edges, survey.second.edges) = ([], [("yard", "hall")]) ∧
      (Survey.build 8 regions none).outcome now = some (.ok survey, after') ∧
      before.ToldAlike now after after' := by
  intro unlock before now regions rule
  have hextended : before.ExtendedBy now :=
    (Env.ExtendedBy.bind (by decide) (.bool true)).trans
      (Env.ExtendedBy.bind (by decide) (.text "on"))
  obtain ⟨-, hchecks, hsurveys⟩ := answers_with_new_names hextended (Nat.le_refl 8)
  have hcheck : ((checkRule 8 "unlock(\"cellar\")" none).outcome before).map Prod.fst =
      some (.error (.failed rule (.undefined "cellar"))) := by
    decide +kernel
  obtain ⟨⟨_, failed⟩, hfails, rfl⟩ := Option.map_eq_some_iff.mp hcheck
  have hother (name : String) (tree : Expr) (hlacks : before.Lacks now name) :
      (.error (.failed rule (.undefined "cellar")) : Except CheckError Bool) ≠
        .error (.failed tree (.undefined name)) := by
    rintro ⟨⟩
    exact absurd hlacks.1 (by decide)
  obtain ⟨failed', hfails', htold⟩ := hchecks none _ _ failed hfails hother
  have hrun : (((Survey.build 8 regions none).outcome before).bind
      fun pair => pair.1.toOption.map fun survey => (survey.first.edges, survey.second.edges)) =
      some ([], [("yard", "hall")]) := by
    decide +kernel
  obtain ⟨survey, after, hbuild, hedges⟩ := Action.ok_of_seen hrun
  obtain ⟨after', hbuild', htold', -⟩ := hsurveys regions none _ after hbuild fun _ _ _ => nofun
  refine ⟨hextended, ?_, ?_, ⟨failed, failed', hfails, hfails', htold⟩, survey, after, after',
    hbuild, hedges, hbuild', htold'⟩
  · decide +kernel
  · decide +kernel

end Passage
