import Passage.Proofs.KnownHosts
import Passage.Proofs.PlainRules

/-!
# What the check of a rule reports

A text that is no expression is reported as it is; whatever goes wrong in the evaluation of one that
is, or with its value, is reported with the tree, once. `Env.checks_iff` derives the reports from
what the tree evaluates to. That none of them is a failure of the host program depends on its
functions, as far as they can be got hold of.
-/
namespace Passage

open Passage.Action

theorem Expr.isOwn_of_toTruth {v : Expr} {cause : Fault} (h : v.toTruth = .error cause) :
    cause.isOwn = true := by
  cases v with
  | bool b => cases h
  | _ => cases h; rfl

/-- What has no truth value is a fault, or a value of another kind. -/
theorem Expr.cases_of_toTruth {result : Except Fault Expr} {cause : Fault}
    (h : (result >>= toTruth) = .error cause) :
    result = .error cause ∨ ∃ v, result = .ok v ∧ v.toTruth = .error cause := by
  cases result with
  | error fault => cases h; exact .inl rfl
  | ok v => exact .inr ⟨v, rfl, h⟩

theorem Check.cases_of_judge {depth : Nat} {context : Option String} {e : Expr} {env after : Env}
    {verdict : Except CheckError Bool}
    (h : (Check.judge depth context e).outcome env = some (verdict, after)) :
    ∃ result, env.Evaluates context e result ∧
      verdict = (result >>= Expr.toTruth).mapError (CheckError.ofFault e) := by
  obtain ⟨inner, hinner, rfl⟩ := cases_of_mapError h
  rcases cases_of_bind hinner with ⟨value, mid, hvalue, htruth⟩ | ⟨fault, hfault, rfl⟩
  · cases htruth
    exact ⟨.ok value, ⟨depth, after, hvalue⟩, rfl⟩
  · exact ⟨.error fault, ⟨depth, after, hfault⟩, rfl⟩

namespace Env

variable {env : Env} {known : Nat → Prop} {context : Option String} {rule : String} {e : Expr}

theorem checks_of_unreadable {error : ReadError}
    (h : RuleText.expr ⟨rule, env.config.allowTrailing⟩ = .error error) :
    env.Checks context rule (.error (.unreadable error)) :=
  ⟨0, _, outcome_bind_error (Check.outcome_readRule_error h) _⟩

/-- The check of a rule that is read comes to what its tree evaluates to, as a truth value. -/
theorem checks_iff (hread : RuleText.expr ⟨rule, env.config.allowTrailing⟩ = .ok e)
    {verdict : Except CheckError Bool} : env.Checks context rule verdict ↔
      ∃ result, env.Evaluates context e result ∧
        verdict = (result >>= Expr.toTruth).mapError (CheckError.ofFault e) := by
  constructor
  · intro h
    obtain ⟨depth, after, ho⟩ := h
    rw [checkRule, outcome_bind_ok (Check.outcome_readRule_ok hread)] at ho
    have hjudged : ∃ mid, (Check.judge depth context e).outcome (env.readRule rule).2 =
        some (verdict, mid) := by
      rcases cases_of_bind ho with ⟨holds, mid, hjudge, hrest⟩ | ⟨error, hjudge, rfl⟩
      · cases hrest
        exact ⟨mid, hjudge⟩
      · exact ⟨after, hjudge⟩
    obtain ⟨mid, hjudge⟩ := hjudged
    obtain ⟨result, hresult, rfl⟩ := Check.cases_of_judge hjudge
    exact ⟨result, hresult.of_visible (env.visible_readRule rule), rfl⟩
  · intro h
    obtain ⟨result, hresult, rfl⟩ := h
    exact checks_of_result hread hresult

theorem checks_ok_iff (hread : RuleText.expr ⟨rule, env.config.allowTrailing⟩ = .ok e) {b : Bool} :
    env.Checks context rule (.ok b) ↔ env.Evaluates context e (.ok (.bool b)) := by
  rw [checks_iff hread]
  constructor
  · intro h
    obtain ⟨result, hresult, hverdict⟩ := h
    cases result with
    | error fault => cases hverdict
    | ok v =>
      cases v with
      | bool c => cases hverdict; exact hresult
      | _ => cases hverdict
  · intro h
    exact ⟨.ok (.bool b), h, rfl⟩

theorem exists_checks_iff (hread : RuleText.expr ⟨rule, env.config.allowTrailing⟩ = .ok e) :
    (∃ verdict, env.Checks context rule verdict) ↔ ∃ result, env.Evaluates context e result := by
  constructor
  · intro h
    obtain ⟨verdict, hverdict⟩ := h
    obtain ⟨result, hresult, _⟩ := (checks_iff hread).mp hverdict
    exact ⟨result, hresult⟩
  · intro h
    obtain ⟨result, hresult⟩ := h
    exact ⟨_, checks_of_result hread hresult⟩

namespace Knows

/-- Where no host function fails on its own account, no evaluation does. -/
theorem isOwn (h : env.Knows known) (he : e.CallsOnly known) {cause : Fault}
    (hcause : env.Evaluates context e (.error cause)) : cause.isOwn = true := by
  obtain ⟨depth, after, ho⟩ := hcause
  exact (trusted_evaluate depth e he env h _ after ho).1

/-- What keeps a rule that is read from a truth value is a fault of the rule language. -/
theorem isOwn_of_toTruth (h : env.Knows known)
    (hread : RuleText.expr ⟨rule, env.config.allowTrailing⟩ = .ok e) {result : Except Fault Expr}
    (hresult : env.Evaluates context e result) {cause : Fault}
    (hcause : (result >>= Expr.toTruth) = .error cause) : cause.isOwn = true := by
  rcases Expr.cases_of_toTruth hcause with rfl | ⟨v, rfl, hvalue⟩
  · exact h.isOwn (Expr.callsOnly_of_read hread) hresult
  · exact Expr.isOwn_of_toTruth hvalue

/-- The errors that a check reports of a rule that is read. -/
theorem checks_error_iff (h : env.Knows known)
    (hread : RuleText.expr ⟨rule, env.config.allowTrailing⟩ = .ok e) {error : CheckError} :
    env.Checks context rule (.error error) ↔ ∃ result cause, env.Evaluates context e result ∧
      (result >>= Expr.toTruth) = .error cause ∧ error = .failed e cause := by
  rw [checks_iff hread]
  constructor
  · intro hchecks
    obtain ⟨result, hresult, herror⟩ := hchecks
    cases htruth : result >>= Expr.toTruth with
    | ok b =>
      rw [htruth] at herror
      cases herror
    | error cause =>
      rw [htruth] at herror
      cases herror
      exact ⟨result, cause, hresult, htruth,
        CheckError.ofFault_of_isOwn (h.isOwn_of_toTruth hread hresult htruth) e⟩
  · intro hcauses
    obtain ⟨result, cause, hresult, htruth, rfl⟩ := hcauses
    refine ⟨result, hresult, ?_⟩
    rw [htruth]
    exact congrArg Except.error
      (CheckError.ofFault_of_isOwn (h.isOwn_of_toTruth hread hresult htruth) e).symm

/-- Every error is a complaint about the rule, or a cause together with its tree. -/
theorem cases_of_checks_error (h : env.Knows known) {error : CheckError}
    (hchecks : env.Checks context rule (.error error)) :
    (∃ complaint, RuleText.expr ⟨rule, env.config.allowTrailing⟩ = .error complaint ∧
      error = .unreadable complaint) ∨ ∃ e cause, error = .failed e cause := by
  cases hread : RuleText.expr ⟨rule, env.config.allowTrailing⟩ with
  | error complaint =>
    cases hchecks.unique (checks_of_unreadable hread)
    exact .inl ⟨complaint, rfl, rfl⟩
  | ok e =>
    obtain ⟨_, cause, _, _, herror⟩ := (h.checks_error_iff hread).mp hchecks
    exact .inr ⟨e, cause, herror⟩

end Knows

end Env

/-- The check of a rule reports the complaint about a text that is no expression as it is, and only
that, and never a failure of the host program. Of a text that is read, it returns a truth value
exactly if the tree evaluates to it. In every other case it reports the tree together with the
cause: the fault of the evaluation, or that of a value that is no truth value. The cause is a fault
of the rule language, also where it is a text inside that is no expression. The check comes to an
end exactly if the evaluation does. -/
theorem check_taxonomy {env : Env} {known : Nat → Prop} (h : env.Knows known)
    (context : Option String) (rule : String) :
    (∀ error, env.Checks context rule (.error (.unreadable error)) ↔
      RuleText.expr ⟨rule, env.config.allowTrailing⟩ = .error error) ∧
    (∀ failure, ¬ env.Checks context rule (.error (.host failure))) ∧
    ∀ t, RuleText.expr ⟨rule, env.config.allowTrailing⟩ = .ok t →
      (∀ b, env.Checks context rule (.ok b) ↔ env.Evaluates context t (.ok (.bool b))) ∧
      (∀ error, env.Checks context rule (.error error) ↔
        ∃ result cause, env.Evaluates context t result ∧ (result >>= Expr.toTruth) = .error cause ∧
          error = .failed t cause) ∧
      (∀ cause, env.Checks context rule (.error (.failed t cause)) → cause.isOwn = true) ∧
      (∀ cause, (CheckError.failed t cause).message =
        "Error while evaluating this expression: " ++ t.render ++ "\n" ++ cause.message) ∧
      ((∃ verdict, env.Checks context rule verdict) ↔
        ∃ result, env.Evaluates context t result) := by
  refine ⟨fun error => ?_, fun failure hchecks => ?_, fun t hread => ?_⟩
  · refine ⟨fun hchecks => ?_, Env.checks_of_unreadable⟩
    rcases h.cases_of_checks_error hchecks with ⟨complaint, hread, herror⟩ | ⟨_, _, herror⟩
    · cases herror
      exact hread
    · cases herror
  · rcases h.cases_of_checks_error hchecks with ⟨_, _, herror⟩ | ⟨_, _, herror⟩
    · cases herror
    · cases herror
  · refine ⟨fun b => Env.checks_ok_iff hread, fun error => h.checks_error_iff hread,
      fun cause hchecks => ?_, fun _ => rfl, Env.exists_checks_iff hread⟩
    obtain ⟨result, _, hresult, htruth, herror⟩ := (h.checks_error_iff hread).mp hchecks
    cases herror
    exact h.isOwn_of_toTruth hread hresult htruth

/-- A helper evaluates a text that is no expression. The check of the rule that calls it reports the
complaint about this text, together with its own tree. A host function is asked on the way; others
would fail by themselves, but none of them is bound to a name. -/
theorem check_taxonomy_unreadable_inside :
    let read : Expr := .function ["source"] (.call (.var "eval") (.var "source"))
    let globals := (Env.builtins.insert "read" read).insert "tell" (.native (.host 0 "tell" false))
    let hosts : Nat → Host := fun number =>
      if number = 0 then fun _ _ => .ok (.bool true) else Env.noHosts number
    let env : Env := .fresh {} globals hosts
    env.Knows (· = 0) ∧ ∃ t error,
      RuleText.expr ⟨"tell() AND read(\"key OR\")", false⟩ = .ok t ∧
      RuleText.expr ⟨"key OR", false⟩ = .error error ∧
      env.Checks none "tell() AND read(\"key OR\")" (.error (.failed t (.unreadable error))) ∧
      (CheckError.failed t (.unreadable error)).message =
        "Error while evaluating this expression: (tell() AND read(\"key OR\"))\n" ++
          error.message := by
  intro read globals hosts env
  have hknows : env.Knows (· = 0) := by
    refine ⟨?_, ?_, ?_⟩
    · have hread : read.CallsOnly (· = 0) := ⟨trivial, trivial⟩
      have htell : (Expr.native (.host 0 "tell" false)).CallsOnly (· = 0) := rfl
      exact (Env.callsOnly_builtins.insert "read" hread).insert "tell" htell
    · intro frame hframe
      cases hframe
    · intro number hnumber args context _
      subst hnumber
      trivial
  have hread : RuleText.expr ⟨"tell() AND read(\"key OR\")", false⟩ =
      .ok (.binary .and (.call (.var "tell") .empty) (.call (.var "read") (.text "key OR"))) := by
    rfl
  have hinside : RuleText.expr ⟨"key OR", false⟩ =
      .error (.grammar (.missingRight .or) 7 "key OR") := by
    rfl
  have hrun : ((evaluate none 8 (.binary .and (.call (.var "tell") .empty)
      (.call (.var "read") (.text "key OR")))).outcome env).map Prod.fst =
      some (.error (.unreadable (.grammar (.missingRight .or) 7 "key OR"))) := by
    decide +kernel
  obtain ⟨⟨result, after⟩, ho, rfl⟩ := Option.map_eq_some_iff.mp hrun
  obtain ⟨_, herrors, _, hmessage, _⟩ :=
    (check_taxonomy hknows none "tell() AND read(\"key OR\")").2.2 _ hread
  refine ⟨hknows, _, _, hread, hinside, ?_, ?_⟩
  · exact (herrors _).mpr ⟨_, _, ⟨8, after, ho⟩, rfl, rfl⟩
  · rw [hmessage]
    rfl

end Passage
