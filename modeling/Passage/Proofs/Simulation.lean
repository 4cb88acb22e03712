import Passage.Check
import Passage.Proofs.Actions

/-!
# Two evaluations side by side

An expression evaluated in two environments that are related, under two contexts, gives the same
result in both, as long as the relation answers for what evaluation asks of an environment: names,
the switches of the configuration, texts to read, regions reached, host functions, frames. The
relation may look at the frames pushed since both evaluations began. The induction over depth and
expression is done once, in `Simulation.follows_evaluate`.
-/
namespace Passage

open Passage.Action

namespace Env

/-- Removes the innermost frame. -/
def pop (env : Env) : Env := { env with stack := env.stack.tail }

/-- The environment as rules see it: without the trees remembered and without the journal. -/
def visible (env : Env) : Env := { env with trees := .empty, journal := [] }

@[simp] theorem visible_note (env : Env) (event : Event) : (env.note event).visible = env.visible :=
  rfl

@[simp] theorem visible_push (env : Env) (frame : Frame) :
    (env.push frame).visible = env.visible.push frame := rfl

@[simp] theorem visible_pop (env : Env) : env.pop.visible = env.visible.pop := rfl

@[simp] theorem visible_readRule (env : Env) (text : String) :
    (env.readRule text).2.visible = env.visible := rfl

theorem lookup_visible (env : Env) (name : String) (context : Option String) :
    env.visible.lookup name context = env.lookup name context := rfl

theorem reaches_visible (env : Env) (region : String) :
    env.visible.reaches region = env.reaches region := rfl

end Env

namespace Eval

theorem outcome_lookup (name : String) (context : Option String) (env : Env) :
    (lookup name context).outcome env = some (env.lookup name context, env) := rfl

theorem outcome_readRule (text : String) (env : Env) :
    (readRule text).outcome env =
      some ((env.readRule text).1.mapError .unreadable, (env.readRule text).2) := rfl

theorem outcome_callHost (number : Nat) (name : String) (args : List Expr)
    (context : Option String) (env : Env) :
    (callHost number name args context).outcome env =
      some (env.hosts number args context, env.note (.hostCall name args context)) := rfl

/-- The body of a call sees one frame more, and its caller gets back what the body left below it. -/
theorem cases_of_inFrame {frame : Frame} {body : Eval Expr} {env after : Env}
    {result : Except Fault Expr} (h : (inFrame frame body).outcome env = some (result, after)) :
    ∃ inner, body.outcome (env.push frame) = some (result, inner) ∧ after = inner.pop := by
  obtain ⟨⟨inner, left⟩, hbody, he⟩ := Option.map_eq_some_iff.mp h
  cases he
  exact ⟨left, hbody, rfl⟩

theorem outcome_inFrame {frame : Frame} {body : Eval Expr} {env inner : Env}
    {result : Except Fault Expr} (h : body.outcome (env.push frame) = some (result, inner)) :
    (inFrame frame body).outcome env = some (result, inner.pop) := by
  show (body.outcome (env.push frame)).map _ = _
  rw [h]
  rfl

end Eval

theorem Check.outcome_readRule (text : String) (env : Env) :
    (Check.readRule text).outcome env =
      some ((env.readRule text).1.mapError .unreadable, (env.readRule text).2) := rfl

theorem Check.outcome_readRule_ok {text : String} {env : Env} {e : Expr}
    (h : RuleText.expr ⟨text, env.config.allowTrailing⟩ = .ok e) :
    (Check.readRule text).outcome env = some (.ok e, (env.readRule text).2) := by
  rw [outcome_readRule, env.fst_readRule, h]
  rfl

theorem Check.outcome_readRule_error {text : String} {env : Env} {error : ReadError}
    (h : RuleText.expr ⟨text, env.config.allowTrailing⟩ = .error error) :
    (Check.readRule text).outcome env = some (.error (.unreadable error),
      (env.readRule text).2) := by
  rw [outcome_readRule, env.fst_readRule, h]
  rfl

/-- What two related environments have to agree on. The relation is told the frames pushed since the
two evaluations began, the innermost first; a fault that is excused ends the comparison. -/
structure Simulation (R : List Frame → Env → Env → Prop) (Excused : Fault → Prop)
    (context context' : Option String) : Prop where
  lookup : ∀ {frames s t}, R frames s t → ∀ name,
    (∃ e, s.lookup name context = .error e ∧ Excused e) ∨
      s.lookup name context = t.lookup name context'
  strictArity : ∀ {frames s t}, R frames s t →
    s.config.strictArity = t.config.strictArity ∨
      t.config.strictArity = false ∧ ∀ callee expected got, Excused (.arity callee expected got)
  reaches : ∀ {frames s t}, R frames s t → ∀ region, s.reaches region = t.reaches region
  readRule : ∀ {frames s t}, R frames s t → ∀ text,
    (∃ e, (s.readRule text).1 = .error e ∧ Excused (.unreadable e)) ∨
      (s.readRule text).1 = (t.readRule text).1 ∧
        R frames (s.readRule text).2 (t.readRule text).2
  hosts : ∀ {frames s t}, R frames s t → ∀ number args,
    s.hosts number args context = t.hosts number args context'
  message : ∀ {frames s t}, R frames s t → ∀ text,
    R frames (s.note (.message text)) (t.note (.message text))
  hostCall : ∀ {frames s t}, R frames s t → ∀ name args,
    R frames (s.note (.hostCall name args context)) (t.note (.hostCall name args context'))
  push : ∀ {frames s t}, R frames s t → ∀ frame, R (frame :: frames) (s.push frame) (t.push frame)
  pop : ∀ {frame frames s t}, R (frame :: frames) s t → R frames s.pop t.pop

namespace Simulation

variable {R : List Frame → Env → Env → Prop} {Excused : Fault → Prop}
  {context context' : Option String}

/-- Where nothing is excused, the comparison goes both ways. -/
theorem symm (S : Simulation R (fun _ => False) context context') :
    Simulation (fun frames t s => R frames s t) (fun _ => False) context' context where
  lookup := by
    intro _ t s h name
    rcases S.lookup h name with ⟨_, _, hx⟩ | heq
    · exact hx.elim
    · exact .inr heq.symm
  strictArity := by
    intro _ t s h
    rcases S.strictArity h with heq | ⟨_, hx⟩
    · exact .inl heq.symm
    · exact (hx .empty 0 0).elim
  reaches h region := (S.reaches h region).symm
  readRule := by
    intro _ t s h text
    rcases S.readRule h text with ⟨_, _, hx⟩ | ⟨heq, hafter⟩
    · exact hx.elim
    · exact .inr ⟨heq.symm, hafter⟩
  hosts h number args := (S.hosts h number args).symm
  message := S.message
  hostCall := S.hostCall
  push := S.push
  pop := S.pop

/-- A comparison can carry along more than evaluation asks for, if nothing that evaluation does
loses it. -/
theorem and (S : Simulation R (fun _ => False) context context') {Q : List Frame → Env → Env → Prop}
    (hread : ∀ {frames s t}, Q frames s t →
      ∀ text, Q frames (s.readRule text).2 (t.readRule text).2)
    (hmessage : ∀ {frames s t}, Q frames s t → ∀ text,
      Q frames (s.note (.message text)) (t.note (.message text)))
    (hcall : ∀ {frames s t}, Q frames s t → ∀ name args,
      Q frames (s.note (.hostCall name args context)) (t.note (.hostCall name args context')))
    (hpush : ∀ {frames s t}, Q frames s t →
      ∀ frame, Q (frame :: frames) (s.push frame) (t.push frame))
    (hpop : ∀ {frame frames s t}, Q (frame :: frames) s t → Q frames s.pop t.pop) :
    Simulation (fun frames s t => R frames s t ∧
      Q frames s t) (fun _ => False) context context' where
  lookup h name := S.lookup h.1 name
  strictArity h := S.strictArity h.1
  reaches h region := S.reaches h.1 region
  readRule := by
    intro _ s t h text
    rcases S.readRule h.1 text with ⟨_, _, hx⟩ | ⟨heq, hafter⟩
    · exact hx.elim
    · exact .inr ⟨heq, hafter, hread h.2 text⟩
  hosts h number args := S.hosts h.1 number args
  message h text := ⟨S.message h.1 text, hmessage h.2 text⟩
  hostCall h name args := ⟨S.hostCall h.1 name args, hcall h.2 name args⟩
  push h frame := ⟨S.push h.1 frame, hpush h.2 frame⟩
  pop h := ⟨S.pop h.1, hpop h.2⟩

theorem follows_lookup (S : Simulation R Excused context context') (frames : List Frame)
    (name : String) :
    Follows (R frames) Excused (Eval.lookup name context) (Eval.lookup name context') := by
  intro s t hst result after h
  rw [Eval.outcome_lookup] at h
  cases h
  rcases S.lookup hst name with ⟨e, he, hx⟩ | heq
  · exact .inl ⟨e, he, hx⟩
  · exact .inr ⟨t, by rw [Eval.outcome_lookup, heq], hst⟩

theorem follows_readRule (S : Simulation R Excused context context') (frames : List Frame)
    (text : String) :
    Follows (R frames) Excused (Eval.readRule text) (Eval.readRule text) := by
  intro s t hst result after h
  rw [Eval.outcome_readRule] at h
  cases h
  rcases S.readRule hst text with ⟨e, he, hx⟩ | ⟨heq, hafter⟩
  · exact .inl ⟨.unreadable e, by rw [he]; rfl, hx⟩
  · exact .inr ⟨(t.readRule text).2, by rw [Eval.outcome_readRule, heq], hafter⟩

theorem follows_callHost (S : Simulation R Excused context context') (frames : List Frame)
    (number : Nat) (name : String) (args : List Expr) :
    Follows (R frames) Excused (Eval.callHost number name args context)
      (Eval.callHost number name args context') := by
  intro s t hst result after h
  rw [Eval.outcome_callHost] at h
  cases h
  exact .inr ⟨_, by rw [Eval.outcome_callHost, S.hosts hst number args], S.hostCall hst name args⟩

theorem follows_inFrame (S : Simulation R Excused context context') (frames : List Frame)
    (frame : Frame) {body body' : Eval Expr}
    (h : Follows (R (frame :: frames)) Excused body body') :
    Follows (R frames) Excused (Eval.inFrame frame body) (Eval.inFrame frame body') := by
  intro s t hst result after ho
  obtain ⟨inner, hbody, rfl⟩ := Eval.cases_of_inFrame ho
  rcases h _ _ (S.push hst frame) result inner hbody with hx | ⟨inner', hbody', hinner⟩
  · exact .inl hx
  · exact .inr ⟨inner'.pop, Eval.outcome_inFrame hbody', S.pop hinner⟩

/-- Evaluators that follow one another on every expression, whatever frames are there. -/
def Steps (R : List Frame → Env → Env → Prop) (Excused : Fault → Prop)
    (ev ev' : Expr → Eval Expr) : Prop :=
  ∀ frames e, Follows (R frames) Excused (ev e) (ev' e)

variable {ev ev' : Expr → Eval Expr}

theorem follows_applyNative (S : Simulation R Excused context context')
    (h : Steps R Excused ev ev') (frames : List Frame) (n : Native) (args : List Expr) :
    Follows (R frames) Excused (applyNative ev context n args)
      (applyNative ev' context' n args) := by
  cases n with
  | evalText =>
    rcases args with _ | ⟨source, _ | ⟨second, rest⟩⟩
    · exact follows_throw _
    · cases source with
      | text s => exact follows_bind (S.follows_readRule frames s) fun e => h frames e
      | _ => exact follows_throw _
    · cases source <;> exact follows_throw _
  | debug =>
    match args with
    | [value] =>
      refine follows_bind (follows_update fun s t hst => S.message hst value.render) fun _ => ?_
      exact follows_pure value
    | [] | _ :: _ :: _ => exact follows_throw _
  | atPlace =>
    match args with
    | [place, guarded] =>
      refine follows_bind (h frames place) fun value => ?_
      cases value with
      | text region =>
        refine follows_bind (follows_read fun s t hst => S.reaches hst region) fun reached => ?_
        cases reached with
        | true => exact h frames guarded
        | false => exact follows_pure _
      | _ => exact follows_throw _
    | [] | [_] | _ :: _ :: _ :: _ => exact follows_throw _
  | host number name isLazy => exact S.follows_callHost frames number name args

/-- The check of the number of arguments: where only the first environment is strict, its complaint
is excused. -/
theorem follows_guarded (S : Simulation R Excused context context') (frames : List Frame)
    (callee : Expr) (expected got : Nat) {body body' : Eval Expr}
    (h : Follows (R frames) Excused body body') :
    Follows (R frames) Excused
      (do if (← Action.read (·.config.strictArity)) ∧ got ≠ expected then
            throw (.arity callee expected got)
          else body)
      (do if (← Action.read (·.config.strictArity)) ∧ got ≠ expected then
            throw (.arity callee expected got)
          else body') := by
  intro s t hst result after ho
  rw [outcome_bind_ok (outcome_read _ _)] at ho ⊢
  by_cases hgot : got = expected
  · rw [if_neg (fun hc => hc.2 hgot)] at ho ⊢
    exact h s t hst result after ho
  · rcases S.strictArity hst with heq | ⟨hfree, hx⟩
    · rw [← heq]
      by_cases hstrict : s.config.strictArity = true
      · rw [if_pos ⟨hstrict, hgot⟩] at ho ⊢
        exact follows_throw _ s t hst result after ho
      · rw [if_neg (fun hc => hstrict hc.1)] at ho ⊢
        exact h s t hst result after ho
    · by_cases hstrict : s.config.strictArity = true
      · rw [if_pos ⟨hstrict, hgot⟩] at ho
        cases ho
        exact .inl ⟨_, rfl, hx callee expected got⟩
      · rw [if_neg (fun hc => hstrict hc.1)] at ho
        rw [hfree, if_neg (fun hc => Bool.false_ne_true hc.1)]
        exact h s t hst result after ho

theorem follows_apply (S : Simulation R Excused context context')
    (h : Steps R Excused ev ev') (frames : List Frame) (callee : Expr) (args : List Expr)
    (f : Expr) :
    Follows (R frames) Excused (apply ev context callee args f)
      (apply ev' context' callee args f) := by
  cases f with
  | function params body =>
    refine follows_bind (follows_mapM (h frames) args) fun values => ?_
    exact S.follows_guarded frames callee params.length values.length
      (S.follows_inFrame frames _ (h _ body))
  | native n =>
    show Follows (R frames) Excused (if n.isLazy then _ else _) (if n.isLazy then _ else _)
    split
    · exact S.follows_applyNative h frames n args
    · exact follows_bind (follows_mapM (h frames) args) fun values =>
        S.follows_applyNative h frames n values
  | _ => exact follows_throw _

theorem follows_reduce (S : Simulation R Excused context context')
    (h : Steps R Excused ev ev') (frames : List Frame) (e : Expr) :
    Follows (R frames) Excused (reduce ev context e) (reduce ev' context' e) := by
  cases e with
  | var name => exact S.follows_lookup frames name
  | binary op lhs rhs =>
    cases op with
    | sequence => exact follows_throw _
    | or | and | equal =>
      refine follows_bind (h frames lhs) fun l => ?_
      exact follows_bind (h frames rhs) fun r => follows_ofExcept _
  | call callee args =>
    exact follows_bind (h frames callee) fun f => S.follows_apply h frames callee args.arguments f
  | empty | bool _ | text _ | function _ _ | native _ => exact follows_pure _

/-- Evaluation to at least the depth follows evaluation in a related environment. -/
theorem follows_evaluate (S : Simulation R Excused context context') {depth depth' : Nat}
    (hle : depth ≤ depth') (frames : List Frame) (e : Expr) :
    Follows (R frames) Excused (evaluate context depth e) (evaluate context' depth' e) := by
  induction depth generalizing depth' frames e with
  | zero => exact follows_tooDeep _
  | succ depth ih =>
    obtain ⟨lower, rfl⟩ : ∃ lower, depth' = lower + 1 := ⟨depth' - 1, by omega⟩
    exact S.follows_reduce (fun frames e => ih (by omega) frames e) frames e

/-- Errors of a rule check whose cause is excused. -/
def ExcusedCheck (Excused : Fault → Prop) : CheckError → Prop
  | .unreadable error => Excused (.unreadable error)
  | .failed _ cause => Excused cause
  | .host failure => Excused (.host failure)

theorem excusedCheck_ofFault (rule : Expr) {fault : Fault} (h : Excused fault) :
    ExcusedCheck Excused (CheckError.ofFault rule fault) := by
  cases fault <;> exact h

theorem not_excusedCheck (e : CheckError) : ¬ExcusedCheck (fun _ => False) e := by
  cases e with
  | unreadable _ | failed _ _ | host _ => exact id

theorem follows_checkRead (S : Simulation R Excused context context') (frames : List Frame)
    (text : String) :
    Follows (R frames) (ExcusedCheck Excused) (Check.readRule text) (Check.readRule text) := by
  intro s t hst result after h
  rw [Check.outcome_readRule] at h
  cases h
  rcases S.readRule hst text with ⟨e, he, hx⟩ | ⟨heq, hafter⟩
  · exact .inl ⟨.unreadable e, by rw [he]; rfl, hx⟩
  · exact .inr ⟨(t.readRule text).2, by rw [Check.outcome_readRule, heq], hafter⟩

/-- A rule check follows the check in a related environment, if the relation lets both verdicts go
on record. -/
theorem follows_checkRule (S : Simulation R Excused context context')
    (hverdict : ∀ {frames s t}, R frames s t → ∀ tree holds,
      R frames (s.note (.verdict context tree holds)) (t.note (.verdict context' tree holds)))
    {depth depth' : Nat} (hle : depth ≤ depth') (frames : List Frame) (rule : String) :
    Follows (R frames) (ExcusedCheck Excused) (checkRule depth rule context)
      (checkRule depth' rule context') := by
  refine follows_bind (S.follows_checkRead frames rule) fun root => follows_bind ?_ fun holds =>
    follows_bind ?_ fun _ => ?_
  · refine follows_mapError (fun fault hx => excusedCheck_ofFault root hx) ?_
    exact follows_bind (S.follows_evaluate hle frames root) fun value => follows_ofExcept _
  · exact follows_update fun s t hst => hverdict hst root holds
  · exact follows_pure holds

/-- Where nothing is excused in an evaluation, nothing is excused in a rule check. -/
theorem follows_checkRule_always (S : Simulation R (fun _ => False) context context')
    (hverdict : ∀ {frames s t}, R frames s t → ∀ tree holds,
      R frames (s.note (.verdict context tree holds)) (t.note (.verdict context' tree holds)))
    {depth depth' : Nat} (hle : depth ≤ depth') (frames : List Frame) (rule : String) :
    Follows (R frames) (fun _ => False) (checkRule depth rule context)
      (checkRule depth' rule context') :=
  (S.follows_checkRule hverdict hle frames rule).imp not_excusedCheck

end Simulation

end Passage
