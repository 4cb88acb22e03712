import Passage.Proofs.Simulation

/-!
# The innermost frame

Names are looked up in the innermost frame, so the frames below it do not matter: two environments
that differ in these alone cannot be told apart by any evaluation, through calls, `eval` and `at` as
well (`Env.SameInnermost.outcome_evaluate`). So calls may as well hide the frames of their callers:
the evaluator that carries out the body of every call on a stack of one frame (`Secluded.evaluate`)
is evaluation.
-/
namespace Passage

open Passage.Action

/-- The same environment, but for frames that cannot be seen. No frame at all is as good as one
without bindings. -/
structure Env.SameInnermost (s t : Env) : Prop where
  innermost : ∀ name, s.local? name = t.local? name
  rest : { s with stack := t.stack } = t

/-- Two evaluations under way that began in `s` and `t`: the frames pushed since then are the same,
and nothing but the frames below them differs. -/
def Env.Abreast (s t : Env) (frames : List Frame) (now now' : Env) : Prop :=
  now.stack = frames ++ s.stack ∧ now' = { now with stack := frames ++ t.stack }

namespace Env

variable {s t now now' : Env} {frames : List Frame}

theorem SameInnermost.start (h : s.SameInnermost t) : s.Abreast t [] s t := ⟨rfl, h.rest.symm⟩

theorem Abreast.local? (h : s.SameInnermost t) (hnow : s.Abreast t frames now now')
    (name : String) : now.local? name = now'.local? name := by
  obtain ⟨hstack, rfl⟩ := hnow
  cases frames with
  | nil =>
    have hs : now.local? name = s.local? name := by
      rw [Env.local?, hstack, List.nil_append, Env.local?]
    exact hs.trans (h.innermost name)
  | cons frame frames =>
    rw [Env.local?, hstack, List.cons_append, Env.local?, List.cons_append]; rfl

theorem Abreast.lookup (h : s.SameInnermost t) (hnow : s.Abreast t frames now now') (name : String)
    (context : Option String) : now.lookup name context = now'.lookup name context := by
  have hlocal := hnow.local? h name
  obtain ⟨_, rfl⟩ := hnow
  unfold Env.lookup
  rw [hlocal]

theorem Abreast.note (hnow : s.Abreast t frames now now') (event : Event) :
    s.Abreast t frames (now.note event) (now'.note event) := by
  obtain ⟨hstack, rfl⟩ := hnow
  exact ⟨hstack, rfl⟩

theorem Abreast.push (hnow : s.Abreast t frames now now') (frame : Frame) :
    s.Abreast t (frame :: frames) (now.push frame) (now'.push frame) := by
  obtain ⟨hstack, rfl⟩ := hnow
  exact ⟨congrArg (frame :: ·) hstack, rfl⟩

theorem Abreast.pop {frame : Frame} (hnow : s.Abreast t (frame :: frames) now now') :
    s.Abreast t frames now.pop now'.pop := by
  obtain ⟨hstack, rfl⟩ := hnow
  exact ⟨congrArg List.tail hstack, rfl⟩

end Env

theorem Simulation.abreast {s t : Env} (h : s.SameInnermost t) (context : Option String) :
    Simulation (s.Abreast t) (fun _ => False) context context where
  lookup hnow name := .inr (hnow.lookup h name context)
  strictArity := by
    rintro _ now _ ⟨_, rfl⟩
    exact .inl rfl
  reaches := by
    rintro _ now _ ⟨_, rfl⟩ region
    rfl
  readRule := by
    rintro _ now _ ⟨hstack, rfl⟩ text
    exact .inr ⟨rfl, hstack, rfl⟩
  hosts := by
    rintro _ now _ ⟨_, rfl⟩ number args
    rfl
  message hnow text := hnow.note (.message text)
  hostCall hnow name args := hnow.note (.hostCall name args context)
  push hnow frame := hnow.push frame
  pop hnow := hnow.pop

/-- An evaluation comes to the same, and leaves each environment with its own frames. -/
theorem Env.SameInnermost.outcome_evaluate {s t : Env} (h : s.SameInnermost t)
    (context : Option String) (depth : Nat) (e : Expr) :
    (evaluate context depth e).outcome t =
      ((evaluate context depth e).outcome s).map
        (Prod.map id fun after => { after with stack := t.stack }) := by
  have S := Simulation.abreast h context
  have hseen : ∀ now now', s.Abreast t [] now now' → { now with stack := t.stack } = id now' := by
    rintro now _ ⟨_, rfl⟩
    rfl
  have hsame := outcome_eq_of_follows (S.follows_evaluate (Nat.le_refl depth) [] e)
    (S.symm.follows_evaluate (Nat.le_refl depth) [] e) hseen h.start
  rw [hsame, Prod.map_id, Option.map_id]
  rfl

/-- Carries out the body of a call where its frame is the only one. -/
def Eval.alone (frame : Frame) (body : Eval α) : Eval α :=
  Action.ofOutcome fun env =>
    (body.outcome { env with stack := [frame] }).map fun (result, after) =>
      (result, { after with stack := env.stack })

namespace Secluded

/-- Calls an evaluated callee, as `Passage.apply` does, where the body of a function sees no frame
but its own. -/
def apply (evaluate : Expr → Eval Expr) (context : Option String) (callee : Expr)
    (args : List Expr) : Expr → Eval Expr
  | .function params body => do
    let values ← args.mapM evaluate
    if (← Action.read (·.config.strictArity)) ∧ values.length ≠ params.length then
      throw (.arity callee params.length values.length)
    else
      Eval.alone (.ofList (params.zip values)) (evaluate body)
  | f => Passage.apply evaluate context callee args f

def reduce (evaluate : Expr → Eval Expr) (context : Option String) : Expr → Eval Expr
  | .call callee args => do
    let f ← evaluate callee
    apply evaluate context callee args.arguments f
  | e => Passage.reduce evaluate context e

/-- Evaluation within a depth, where every call hides the frames of its callers. -/
def evaluate (context : Option String) : Nat → Expr → Eval Expr
  | 0, _ => tooDeep
  | depth + 1, e => reduce (evaluate context depth) context e

end Secluded

/-- The body of a call sees its own frame, and none of those below. -/
theorem Eval.inFrame_evaluate (frame : Frame) (context : Option String) (depth : Nat)
    (body : Expr) :
    inFrame frame (evaluate context depth body) = alone frame (evaluate context depth body) := by
  refine Action.ext fun env => ?_
  have hsame : Env.SameInnermost { env with stack := [frame] } (env.push frame) :=
    ⟨fun _ => rfl, rfl⟩
  show ((evaluate context depth body).outcome (env.push frame)).map _ =
    ((evaluate context depth body).outcome { env with stack := [frame] }).map _
  rw [hsame.outcome_evaluate, Option.map_map]
  rfl

theorem Secluded.apply_evaluate (context : Option String) (depth : Nat) (callee : Expr)
    (args : List Expr) (f : Expr) :
    apply (Passage.evaluate context depth) context callee args f =
      Passage.apply (Passage.evaluate context depth) context callee args f := by
  cases f with
  | function params body =>
    unfold apply Passage.apply
    simp only [Eval.inFrame_evaluate]
  | _ => rfl

theorem Secluded.evaluate_eq (context : Option String) (depth : Nat) (e : Expr) :
    evaluate context depth e = Passage.evaluate context depth e := by
  induction depth generalizing e with
  | zero => rfl
  | succ depth ih =>
    have hsame : evaluate context depth = Passage.evaluate context depth := funext ih
    show reduce (evaluate context depth) context e = Passage.reduce _ context e
    rw [hsame]
    cases e with
    | call callee args =>
      exact congrArg (fun next => Passage.evaluate context depth callee >>= next)
        (funext (apply_evaluate context depth callee args.arguments))
    | _ => rfl

/-- The innermost frame is the only one that evaluation sees. In environments that differ in the
frames below it alone, an expression comes to the same value or fault, with the same journal, at
every depth. So a call may as well be carried out where the frames of its callers are gone, at any
depth of calls, and through `eval` and `at` as well. -/
theorem innermost_frame_only :
    (∀ s t : Env, s.SameInnermost t → ∀ context depth e,
      (evaluate context depth e).outcome t =
        ((evaluate context depth e).outcome s).map
          (Prod.map id fun after => { after with stack := t.stack })) ∧
    ∀ context depth e, Secluded.evaluate context depth e = evaluate context depth e :=
  ⟨fun _ _ h => h.outcome_evaluate, Secluded.evaluate_eq⟩

/-- A callee looks for a parameter of its caller, in a text evaluated behind a region that is
reached. It finds none, with no call in progress before and with a caller that has such a parameter
as well. -/
theorem innermost_frame_only_callers_parameter :
    let peek : Expr := .function ["place"]
      (.call (.var "at") (.binary .sequence (.var "place") (.call (.var "eval") (.text "hidden"))))
    let outer : Expr := .function ["hidden"] (.call (.var "peek") (.text "gate"))
    let globals := (Env.builtins.insert "peek" peek).insert "outer" outer
    let graphs := .ofList [("ADULT", .ofEdges [("home", "gate")])]
    let s := { Env.fresh {} globals Env.noHosts with graphs := graphs, graphRoot := some "home" }
    let t := { s with stack := [.empty, .ofList [("hidden", .bool true)]] }
    let e : Expr := .call (.var "outer") (.bool true)
    ∃ after, (evaluate none 8 e).outcome s = some (.error (.undefined "hidden"), after) ∧
      (evaluate none 8 e).outcome t =
        some (.error (.undefined "hidden"), { after with stack := t.stack }) := by
  intro peek outer globals graphs s t e
  have hsame : s.SameInnermost t := ⟨fun _ => rfl, rfl⟩
  have hrun : ((evaluate none 8 e).outcome s).map Prod.fst =
      some (.error (.undefined "hidden")) := by
    decide +kernel
  obtain ⟨⟨result, after⟩, ho, rfl⟩ := Option.map_eq_some_iff.mp hrun
  refine ⟨after, ho, ?_⟩
  rw [innermost_frame_only.1 s t hsame none 8 e, ho]
  rfl

end Passage
