import Passage.Proofs.Drafts
import Passage.Proofs.Reachability

/-!
# Plain rules

A plain rule is made of truth values, flags that stand for truth values, the selector compared with
a text, the operators `AND` and `OR`, and `at` before another plain rule. `Draft.plain_truth` is the
induction over such rules: they come to a truth value against every draft, and neither more edges
nor granted flags turn a true one false.
-/
namespace Passage

open Passage.Action

namespace Env

variable {env : Env} {context : Option String}

theorem evaluates_value {e : Expr} (h : e.isValue = true) : env.Evaluates context e (.ok e) := by
  refine ⟨1, env, ?_⟩
  rw [evaluate_of_isValue h]
  rfl

theorem evaluates_var (name : String) :
    env.Evaluates context (.var name) (env.lookup name context) :=
  ⟨1, env, rfl⟩

/-- The depths of two results can be made the same, one evaluation after the other. -/
theorem Evaluates.andThen {first second : Expr} {a b : Except Fault Expr}
    (hfirst : env.Evaluates context first a) (hsecond : env.Evaluates context second b) :
    ∃ depth mid after, (evaluate context depth first).outcome env = some (a, mid) ∧
      mid.visible = env.visible ∧ (evaluate context depth second).outcome mid =
        some (b, after) := by
  obtain ⟨depth, mid, hmid⟩ := hfirst
  obtain ⟨depth', after, hafter⟩ := hsecond
  have hdeeper := evaluate_deeper (Nat.le_max_left depth depth') hmid
  have hseen := keeps_evaluate context _ first env _ _ hdeeper
  obtain ⟨after', hlast, _⟩ := evaluate_visible (Nat.le_max_right depth depth') hseen.symm hafter
  exact ⟨_, mid, after', hdeeper, hseen, hlast⟩

theorem evaluate_binary {op : BinaryOp} (hop : op ≠ .sequence) (depth : Nat) (lhs rhs : Expr) :
    evaluate context (depth + 1) (.binary op lhs rhs) =
      (evaluate context depth lhs >>= fun l => evaluate context depth rhs >>= fun r =>
        Action.ofExcept (combine op l r)) := by
  cases op with
  | sequence => exact absurd rfl hop
  | or | and | equal => rfl

/-- Both operands are evaluated, and joined if both have values. -/
theorem evaluates_operands {op : BinaryOp} {lhs rhs : Expr} {l r : Except Fault Expr}
    (hop : op ≠ .sequence) (hl : env.Evaluates context lhs l) (hr : env.Evaluates context rhs r) :
    env.Evaluates context (.binary op lhs rhs) (l >>= fun l => r >>= fun r => combine op l r) := by
  obtain ⟨depth, mid, after, hlhs, _, hrhs⟩ := hl.andThen hr
  cases l with
  | error e =>
    refine ⟨depth + 1, mid, ?_⟩
    rw [evaluate_binary hop, outcome_bind_error hlhs]
    rfl
  | ok l =>
    refine ⟨depth + 1, after, ?_⟩
    rw [evaluate_binary hop, outcome_bind_ok hlhs]
    cases r with
    | error e => rw [outcome_bind_error hrhs]; rfl
    | ok r => rw [outcome_bind_ok hrhs]; rfl

/-- Two operands that have values are joined. -/
theorem evaluates_binary {op : BinaryOp} {lhs rhs l r : Expr} (hop : op ≠ .sequence)
    (hl : env.Evaluates context lhs (.ok l)) (hr : env.Evaluates context rhs (.ok r)) :
    env.Evaluates context (.binary op lhs rhs) (combine op l r) :=
  evaluates_operands hop hl hr

/-- Before a region that is not reached the guarded expression is left alone. -/
theorem evaluates_atPlace {name place : String} {args guarded : Expr} {result : Except Fault Expr}
    (hname : env.lookup name context = .ok (.native .atPlace))
    (hargs : args.arguments = [.text place, guarded])
    (hresult : if env.reaches place then env.Evaluates context guarded result
      else result = .ok (.bool false)) :
    env.Evaluates context (.call (.var name) args) result := by
  have hreduce (depth : Nat) :
      (evaluate context (depth + 2) (.call (.var name) args)).outcome env =
        (if env.reaches place then evaluate context (depth + 1) guarded
          else pure (.bool false)).outcome env := by
    have hvar : (evaluate context (depth + 1) (.var name)).outcome env =
        some (.ok (.native .atPlace), env) := by
      show some (env.lookup name context, env) = _
      rw [hname]
    have hplace : (evaluate context (depth + 1) (.text place)).outcome env =
        some (.ok (.text place), env) := rfl
    show (evaluate context (depth + 1) (.var name) >>= _).outcome env = _
    rw [outcome_bind_ok hvar, hargs]
    show (evaluate context (depth + 1) (.text place) >>= _).outcome env = _
    rw [outcome_bind_ok hplace]
    show ((Action.read (·.reaches place) : Eval Bool) >>= _).outcome env = _
    rw [outcome_bind_ok (outcome_read _ env)]
  cases hreach : env.reaches place with
  | false =>
    rw [hreach, if_neg (by decide)] at hresult
    refine ⟨2, env, ?_⟩
    rw [hreduce, hreach, hresult]
    rfl
  | true =>
    rw [hreach, if_pos rfl] at hresult
    obtain ⟨depth, after, hguarded⟩ := hresult
    refine ⟨depth + 2, after, ?_⟩
    rw [hreduce, hreach, if_pos rfl]
    exact evaluate_deeper (Nat.le_succ depth) hguarded

/-- A rule that is read and comes to a result is checked with this result, as a truth value or as
the fault of this rule. -/
theorem checks_of_result {rule : String} {e : Expr} {result : Except Fault Expr}
    (hread : RuleText.expr ⟨rule, env.config.allowTrailing⟩ = .ok e)
    (h : env.Evaluates context e result) :
    env.Checks context rule ((result >>= Expr.toTruth).mapError (CheckError.ofFault e)) := by
  have hseen : env.visible = (env.readRule rule).2.visible := (env.visible_readRule rule).symm
  obtain ⟨depth, after, hvalue⟩ := h.of_visible hseen
  have hrule := Check.outcome_readRule_ok hread
  have hjudge : (Check.judge depth context e).outcome (env.readRule rule).2 =
      some ((result >>= Expr.toTruth).mapError (CheckError.ofFault e), after) := by
    rw [Check.judge, outcome_mapError]
    cases result with
    | error fault => rw [outcome_bind_error hvalue]; rfl
    | ok value => rw [outcome_bind_ok hvalue]; rfl
  cases hresult : (result >>= Expr.toTruth).mapError (CheckError.ofFault e) with
  | error fault =>
    rw [hresult] at hjudge
    refine ⟨depth, after, ?_⟩
    rw [checkRule, outcome_bind_ok hrule, outcome_bind_error hjudge]
  | ok holds =>
    rw [hresult] at hjudge
    refine ⟨depth, after.note (.verdict context e holds), ?_⟩
    rw [checkRule, outcome_bind_ok hrule, outcome_bind_ok hjudge]
    rfl

/-- A rule that is read and comes to a truth value has this verdict. -/
theorem checks_of_evaluates {rule : String} {e : Expr} {holds : Bool}
    (hread : RuleText.expr ⟨rule, env.config.allowTrailing⟩ = .ok e)
    (h : env.Evaluates context e (.ok (.bool holds))) : env.Checks context rule (.ok holds) :=
  checks_of_result hread h

/-- The expressions of plain rules: the same names mean the same under the labels of both
contexts. -/
inductive Plain (env : Env) : Expr → Prop
  | bool (b : Bool) : Plain env (.bool b)
  | flag {name : String} {b : Bool} :
      (∀ side, env.lookup name (some (env.config.contexts.label side)) = .ok (.bool b)) →
      Plain env (.var name)
  | selector (literal : String) :
      (∀ side, env.lookup env.config.selector (some (env.config.contexts.label side)) =
        .ok (.text (env.config.contexts.label side))) →
      Plain env (.binary .equal (.var env.config.selector) (.text literal))
  | or {lhs rhs : Expr} : Plain env lhs → Plain env rhs → Plain env (.binary .or lhs rhs)
  | and {lhs rhs : Expr} : Plain env lhs → Plain env rhs → Plain env (.binary .and lhs rhs)
  | atPlace {name place : String} {args guarded : Expr} :
      (∀ side, env.lookup name (some (env.config.contexts.label side)) = .ok (.native .atPlace)) →
      args.arguments = [.text place, guarded] → Plain env guarded →
      Plain env (.call (.var name) args)

/-- The text of a rule is read as a plain expression. -/
def PlainRule (env : Env) (rule : String) : Prop :=
  ∃ e, RuleText.expr ⟨rule, env.config.allowTrailing⟩ = .ok e ∧ env.Plain e

/-! ## Granted flags -/

/-- To rules, the second environment differs from the first one only in flags that have been
granted. -/
structure Grants (s t : Env) : Prop where
  config : t.config = s.config
  hosts : t.hosts = s.hosts
  stack : t.stack = s.stack
  globals : ∀ name, t.globals.get? name = s.globals.get? name ∨
    s.globals.get? name = some (.bool false) ∧ t.globals.get? name = some (.bool true)

namespace Grants

variable {s t : Env}

theorem refl (env : Env) : env.Grants env := ⟨rfl, rfl, rfl, fun _ => .inl rfl⟩

/-- What is bound to a truth value can be granted. -/
theorem bind {name : String} {b : Bool} (h : env.globals.get? name = some (.bool b)) :
    env.Grants (env.bind name (.bool true)) := by
  refine ⟨rfl, rfl, rfl, fun other => ?_⟩
  have hget : (env.bind name (.bool true)).globals.get? other =
      if other = name then some (.bool true) else env.globals.get? other :=
    Table.get?_insert env.globals name other (.bool true)
  rw [hget]
  by_cases hname : other = name
  · subst hname
    rw [if_pos rfl, h]
    cases b with
    | false => exact .inr ⟨rfl, rfl⟩
    | true => exact .inl rfl
  · rw [if_neg hname]
    exact .inl rfl

/-- A name means the same as before, or it has been granted; the label of the context makes no
difference. -/
theorem lookup (h : s.Grants t) (name : String) :
    (∀ label, t.lookup name (some label) = s.lookup name (some label)) ∨
      ∀ label, s.lookup name (some label) = .ok (.bool false) ∧
        t.lookup name (some label) = .ok (.bool true) := by
  have hlocal : t.local? name = s.local? name := by rw [local?, local?, h.stack]
  unfold Env.lookup
  rw [hlocal, h.config]
  cases s.local? name with
  | some value => exact .inl fun _ => rfl
  | none =>
    by_cases hselector : name = s.config.selector
    · simp only [hselector, decide_true, implies_true, true_or]
    · simp only [hselector, decide_false]
      rcases h.globals name with hsame | ⟨hfalse, htrue⟩
      · rw [hsame]
        exact .inl fun _ => rfl
      · rw [hfalse, htrue]
        exact .inr fun _ => ⟨rfl, rfl⟩

/-- Only what stands for `FALSE` has another meaning after it was granted. -/
theorem lookup_eq (h : s.Grants t) {name label : String} {value : Expr}
    (hvalue : value ≠ .bool false) (hname : s.lookup name (some label) = .ok value) :
    t.lookup name (some label) = .ok value := by
  rcases h.lookup name with hsame | hgranted
  · rw [hsame, hname]
  · rw [(hgranted label).1] at hname
    cases hname
    exact absurd rfl hvalue

theorem lookup_flag (h : s.Grants t) {name : String} {b : Bool}
    (hname : ∀ side, s.lookup name (some (s.config.contexts.label side)) = .ok (.bool b)) :
    ∃ b', (∀ side, t.lookup name (some (s.config.contexts.label side)) = .ok (.bool b')) ∧
      (b = true → b' = true) := by
  rcases h.lookup name with hsame | hgranted
  · refine ⟨b, fun side => ?_, id⟩
    rw [hsame, hname side]
  · exact ⟨true, fun side => (hgranted _).2, fun _ => rfl⟩

theorem plain (h : s.Grants t) {e : Expr} (he : s.Plain e) : t.Plain e := by
  have hconfig := h.config
  induction he with
  | bool b => exact .bool b
  | flag hname =>
    obtain ⟨b', hname', _⟩ := h.lookup_flag hname
    exact .flag (b := b') (by rw [hconfig]; exact hname')
  | selector literal hselector =>
    have hselector' (side : Side) := h.lookup_eq (by simp) (hselector side)
    rw [← hconfig] at hselector' ⊢
    exact .selector literal hselector'
  | or _ _ ihl ihr => exact .or ihl ihr
  | and _ _ ihl ihr => exact .and ihl ihr
  | atPlace hname hargs _ ih =>
    refine .atPlace (fun side => ?_) hargs ih
    rw [hconfig]
    exact h.lookup_eq (by simp) (hname side)

theorem plainRule (h : s.Grants t) {rule : String} (hrule : s.PlainRule rule) :
    t.PlainRule rule := by
  obtain ⟨e, hread, he⟩ := hrule
  refine ⟨e, ?_, h.plain he⟩
  rw [h.config]
  exact hread

end Grants

end Env

namespace Draft

variable {draft larger : Draft} {root : Option String} {env : Env} {context : Option String}

theorem lookup_publish (draft : Draft) (root : Option String) (env : Env) (name : String)
    (context : Option String) :
    (draft.publish root env).lookup name context = env.lookup name context := rfl

theorem reaches_publish (draft : Draft) (root : Option String) (env : Env) (place : String) :
    (draft.publish root env).reaches place = true ↔
      ∃ start, root = some start ∧ ∃ side, (draft.graph side).canReach start place = true := by
  have hroot : (draft.publish root env).graphRoot = root := rfl
  unfold Env.reaches
  rw [hroot]
  cases root with
  | none => simp
  | some start =>
    simp only [graphOf_publish, List.any_cons, List.any_nil, Option.any_some, Bool.or_false,
      Bool.or_eq_true, Option.some.injEq, exists_eq_left']
    constructor
    · intro h
      rcases h with h | h
      · exact ⟨.first, h⟩
      · exact ⟨.second, h⟩
    · intro ⟨side, h⟩
      cases side with
      | first => exact .inl h
      | second => exact .inr h

theorem Below.leads (hdraft : draft.Coherent) (hlarger : larger.Coherent) (hle : draft.Below larger)
    (side : Side) {source destination : String} (h : (draft.graph side).Leads source destination) :
    (larger.graph side).Leads source destination := by
  have hedge := (hdraft side source destination).mpr (Graph.hasEdge_iff.mpr h)
  exact Graph.hasEdge_iff.mp ((hlarger side source destination).mp (hle side _ hedge))

/-- More edges, and no region gets out of reach. -/
theorem Below.reaches (hdraft : draft.Coherent) (hlarger : larger.Coherent)
    (hle : draft.Below larger) {s t : Env} {place : String}
    (h : (draft.publish root s).reaches place = true) :
    (larger.publish root t).reaches place = true := by
  rw [reaches_publish] at h ⊢
  obtain ⟨start, hroot, side, hreach⟩ := h
  exact ⟨start, hroot, side, Graph.canReach_mono (fun _ _ => hle.leads hdraft hlarger side) hreach⟩

/-- Against a draft and, with flags granted, one with more edges, a plain expression has truth
values in this order. -/
theorem plain_truth {s t : Env} {e : Expr} (h : s.Plain e) (hgrants : s.Grants t)
    (hdraft : draft.Coherent) (hlarger : larger.Coherent) (hle : draft.Below larger)
    (root : Option String) (side : Side) :
    ∃ b b' : Bool,
      (draft.publish root s).Evaluates (some (s.config.contexts.label side)) e (.ok (.bool b)) ∧
      (larger.publish root t).Evaluates (some (s.config.contexts.label side)) e (.ok (.bool b')) ∧
      (b = true → b' = true) := by
  induction h with
  | bool b => exact ⟨b, b, Env.evaluates_value rfl, Env.evaluates_value rfl, id⟩
  | @flag name b hname =>
    obtain ⟨b', hname', himp⟩ := hgrants.lookup_flag hname
    refine ⟨b, b', ?_, ?_, himp⟩
    · rw [← hname side, ← lookup_publish draft root s]
      exact Env.evaluates_var name
    · rw [← hname' side, ← lookup_publish larger root t]
      exact Env.evaluates_var name
  | selector literal hselector =>
    have hvalue (d : Draft) (env : Env)
        (hlabel : env.lookup s.config.selector (some (s.config.contexts.label side)) =
          .ok (.text (s.config.contexts.label side))) :
        (d.publish root env).Evaluates (some (s.config.contexts.label side))
          (.binary .equal (.var s.config.selector) (.text literal))
          (.ok (.bool (s.config.contexts.label side == literal))) := by
      have hvar : (d.publish root env).Evaluates (some (s.config.contexts.label side))
          (.var s.config.selector) (.ok (.text (s.config.contexts.label side))) := by
        rw [← hlabel, ← lookup_publish d root env]
        exact Env.evaluates_var s.config.selector
      exact Env.evaluates_binary (by decide) hvar (Env.evaluates_value rfl)
    refine ⟨_, _, hvalue draft s (hselector side), hvalue larger t ?_, id⟩
    exact hgrants.lookup_eq (by simp) (hselector side)
  | or _ _ ihl ihr =>
    obtain ⟨l, l', hl, hl', hlimp⟩ := ihl
    obtain ⟨r, r', hr, hr', hrimp⟩ := ihr
    refine ⟨l || r, l' || r', Env.evaluates_binary (by decide) hl hr,
      Env.evaluates_binary (by decide) hl' hr', ?_⟩
    intro h
    rw [Bool.or_eq_true] at h ⊢
    exact h.imp hlimp hrimp
  | and _ _ ihl ihr =>
    obtain ⟨l, l', hl, hl', hlimp⟩ := ihl
    obtain ⟨r, r', hr, hr', hrimp⟩ := ihr
    refine ⟨l && r, l' && r', Env.evaluates_binary (by decide) hl hr,
      Env.evaluates_binary (by decide) hl' hr', ?_⟩
    intro h
    rw [Bool.and_eq_true] at h ⊢
    exact h.imp hlimp hrimp
  | @atPlace name place args guarded hname hargs _ ih =>
    obtain ⟨b, b', hb, hb', himp⟩ := ih
    have hcall (d : Draft) (env : Env) {c : Bool}
        (hat : env.lookup name (some (s.config.contexts.label side)) = .ok (.native .atPlace))
        (hguarded : (d.publish root env).Evaluates (some (s.config.contexts.label side)) guarded
          (.ok (.bool c))) :
        (d.publish root env).Evaluates (some (s.config.contexts.label side))
          (.call (.var name) args) (.ok (.bool ((d.publish root env).reaches place && c))) := by
      refine Env.evaluates_atPlace hat hargs ?_
      cases (d.publish root env).reaches place with
      | false => rfl
      | true => exact hguarded
    -- The only place where the drafts matter: what is reached in one is reached in the larger one.
    refine ⟨_, _, hcall draft s (hname side) hb,
      hcall larger t (hgrants.lookup_eq (by simp) (hname side)) hb', ?_⟩
    intro h
    rw [Bool.and_eq_true] at h ⊢
    exact ⟨hle.reaches hdraft hlarger h.1, himp h.2⟩

/-- The check of a plain rule comes to a verdict, and to one in the same order. -/
theorem plain_verdict {s t : Env} {rule : String} (h : s.PlainRule rule) (hgrants : s.Grants t)
    (hdraft : draft.Coherent) (hlarger : larger.Coherent) (hle : draft.Below larger)
    (root : Option String) (side : Side) :
    ∃ b b' : Bool,
      (draft.publish root s).Checks (some (s.config.contexts.label side)) rule (.ok b) ∧
      (larger.publish root t).Checks (some (s.config.contexts.label side)) rule (.ok b') ∧
      (b = true → b' = true) := by
  obtain ⟨e, hread, he⟩ := h
  obtain ⟨b, b', hvalue, hvalue', himp⟩ := plain_truth he hgrants hdraft hlarger hle root side
  refine ⟨b, b', Env.checks_of_evaluates hread hvalue, Env.checks_of_evaluates ?_ hvalue', himp⟩
  rw [← hgrants.config] at hread
  exact hread

end Draft

end Passage
