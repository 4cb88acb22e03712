import Passage.Seed
import Passage.Proofs.Upkeep
import Passage.Proofs.Sight

/-!
# Final values

A fully evaluated expression can be fed back into the evaluator unchanged. What evaluation comes to
is of this kind if the bindings that it starts from are (`Env.BindsFinal`): a name gives what is
bound to it as it stands, so an expression that is not evaluated there would get out. A lazy
function of the host program could give one of its arguments back unevaluated; `at` does not, and is
the only one allowed.
-/
namespace Passage

open Passage.Action

/-- No function but `at` receives its arguments unevaluated. -/
def Native.EagerButAt (n : Native) : Prop := n.isLazy = true → n = .atPlace

/-- A value in which every native function evaluates its arguments, `at` aside. -/
structure Expr.Final (e : Expr) : Prop where
  isValue : e.isValue = true
  eager : e.Natives Native.EagerButAt

namespace Env

/-- Given final values, the functions of the host program return such a value, or fail. -/
def HostsFinal (hosts : Nat → Host) : Prop :=
  ∀ number args context, (∀ arg ∈ args, Expr.Final arg) →
    Fits Expr.Final (fun _ => True) (hosts number args context)

/-- An environment with nothing but final values in its bindings and in the frames of its calls. -/
structure BindsFinal (env : Env) : Prop where
  globals : env.globals.All Expr.Final
  stack : ∀ frame ∈ env.stack, frame.All Expr.Final
  hosts : HostsFinal env.hosts

theorem BindsFinal.bindAll {env : Env} (h : env.BindsFinal) {bindings : List (String × Expr)}
    (hbindings : ∀ binding ∈ bindings, binding.2.Final) : (env.bindAll bindings).BindsFinal :=
  ⟨h.globals.insertAll hbindings, h.stack, h.hosts⟩

end Env

/-- A final value evaluates to itself and leaves any environment as it was. -/
theorem Expr.Final.outcome_evaluate {value : Expr} (h : value.Final)
    (context : Option String) (depth : Nat) (env : Env) :
    (evaluate context (depth + 1) value).outcome env = some (.ok value, env) := by
  rw [evaluate_of_isValue h.isValue]
  rfl

section Seeding

theorem Expr.final_bool (b : Bool) : (Expr.bool b).Final := ⟨rfl, trivial⟩

theorem Expr.final_text (s : String) : (Expr.text s).Final := ⟨rfl, trivial⟩

theorem Env.final_builtins : Env.builtins.All Expr.Final := by
  refine Env.all_builtins ⟨rfl, ?_⟩ ⟨rfl, ?_⟩ ⟨rfl, ?_⟩
  · intro h
    cases h
  · intro h
    cases h
  · exact fun _ => rfl

/-- The body of a helper is read from a text, which brings in no native functions at all. -/
theorem Helper.final_compile (helper : Helper) :
    Fits Expr.Final (fun _ => True) helper.compile := by
  unfold Helper.compile
  cases hbody : Expr.ofText helper.body with
  | ok body =>
    have heager : body.Natives Native.EagerButAt := Expr.natives_of_read hbody
    exact ⟨rfl, heager⟩
  | error cause => trivial

theorem Seed.final_bindings (seed : Seed) (config : Config) :
    Fits (fun bindings => ∀ binding ∈ bindings, binding.2.Final) (fun _ => True)
      (seed.bindings config) := by
  have hhelpers : Fits
      (fun bindings : List (String × Expr) => ∀ binding ∈ bindings, binding.2.Final)
      (fun _ => True) (seed.helpers.mapM fun helper => do return (helper.name, ← helper.compile)) :=
    fits_mapM fun helper _ => fits_bind helper.final_compile fun _ hf => hf
  refine fits_bind hhelpers fun helpers hhelpers => ?_
  intro binding hbinding
  rw [List.mem_append, List.mem_append] at hbinding
  rcases hbinding with (hflag | hhelper) | hselector
  · obtain ⟨name, _, rfl⟩ := List.mem_map.mp hflag
    exact Expr.final_bool false
  · exact hhelpers binding hhelper
  · obtain rfl := List.mem_singleton.mp hselector
    exact Expr.final_text _

/-- A new world binds final values only. -/
theorem Seed.bindsFinal (seed : Seed) (config : Config) {hosts : Nat → Host}
    (hhosts : Env.HostsFinal hosts) :
    Fits Env.BindsFinal (fun _ => True) (seed.env config hosts) := by
  refine fits_bind (seed.final_bindings config) fun bindings hbindings => ?_
  exact ⟨Env.final_builtins.insertAll hbindings, fun frame hframe =>
    absurd hframe List.not_mem_nil, hhosts⟩

end Seeding

/-- Evaluation keeps to final values, in the bindings, in the frames and in what it comes to. -/
theorem Upkeep.final (context : Option String) :
    Upkeep Env.BindsFinal Native.EagerButAt Expr.Final (fun _ => True) context where
  own _ _ := trivial
  values _ he hvalue := ⟨hvalue, he⟩
  natives _ hv := hv.eager
  globals h := h.globals
  stack h := h.stack
  hosts := by
    intro env h number name isLazy args heager hargs
    -- A function of the host program is not `at`, so it is eager and is given final values.
    have hlazy : (Native.host number name isLazy).isLazy ≠ true := fun h => nomatch heager h
    refine h.hosts number args context fun arg harg => ?_
    have htakes := hargs arg harg
    rwa [Native.Takes, if_neg hlazy] at htakes
  note h _ := ⟨h.globals, h.stack, h.hosts⟩
  readRule h _ := ⟨h.globals, h.stack, h.hosts⟩
  push h _ hframe := ⟨h.globals, List.forall_mem_cons.mpr ⟨hframe, h.stack⟩, h.hosts⟩
  pop h := ⟨h.globals, fun frame hframe => h.stack frame (List.mem_of_mem_tail hframe), h.hosts⟩

/-- Fails where a frame binds what is no value. -/
def Inspected.refuse : Expr → Eval Unit := fun _ => do
  let final ← Action.read fun now =>
    now.stack.all fun frame => frame.entries.all fun entry => entry.2.isValue
  if final then pure () else throw .emptyStack

theorem Inspected.outcome_refuse {now : Env} (h : ∀ frame ∈ now.stack, frame.All Expr.Final)
    (step : Expr) : (refuse step).outcome now = some (.ok (), now) := by
  have hall : (now.stack.all fun frame => frame.entries.all fun entry =>
      entry.2.isValue) = true := by
    refine List.all_eq_true.mpr fun frame hframe => List.all_eq_true.mpr fun entry hentry => ?_
    exact (h frame hframe entry.1 entry.2 (Table.get?_eq_some_iff.mpr hentry)).isValue
  exact congrArg (fun final : Bool =>
    (if final then pure () else throw .emptyStack : Eval Unit).outcome now) hall

/-- A new world binds final values only, whatever final values are bound in it later on; a grant
binds `TRUE`. In every such environment an expression comes to a final value, if it comes to a
value. Evaluated again, this value is left as it is, under every context and in every environment,
and nothing is told of it. At every step on the way, at any depth, the frames of the calls in
progress bind final values only: a look at them before each step, which may do as it pleases with
any other frame, changes nothing. -/
theorem evaluated_is_final :
    (∀ (seed : Seed) config hosts env bindings, Env.HostsFinal hosts →
      seed.env config hosts = .ok env → (∀ binding ∈ bindings, Expr.Final binding.2) →
      (env.bindAll bindings).BindsFinal) ∧
    ∀ env : Env, env.BindsFinal → ∀ context e, e.Natives Native.EagerButAt →
      (∀ value, env.Evaluates context e (.ok value) → value.Final ∧ ∀ other context' depth,
        (evaluate context' (depth + 1) value).outcome other = some (.ok value, other)) ∧
      ∀ inspect, (∀ step now, (∀ frame ∈ now.stack, frame.All Expr.Final) →
          (inspect step).outcome now = some (.ok (), now)) →
        ∀ depth, (Inspected.evaluate inspect context depth e).outcome env =
          (evaluate context depth e).outcome env := by
  refine ⟨?_, fun env henv context e he => ⟨?_, ?_⟩⟩
  · intro seed config hosts env bindings hhosts hseed hbindings
    have hnew := seed.bindsFinal config hhosts
    rw [hseed] at hnew
    exact Env.BindsFinal.bindAll hnew hbindings
  · intro value hvalue
    obtain ⟨depth, after, ho⟩ := hvalue
    have hfinal : value.Final :=
      ((Upkeep.final context).ensures_evaluate depth he env henv _ after ho).1
    exact ⟨hfinal, fun other context' depth => hfinal.outcome_evaluate context' depth other⟩
  · intro inspect hsilent depth
    have hconcur := (Upkeep.final context).concur_inspected (fun step now h =>
      hsilent step now h.stack)
    exact (hconcur depth e he).2 env henv

/-- A helper is handed to itself. A function of the host program returns it, so that the call comes
to a function whose body is far from evaluated; a message is told on the way, and none when the
function is evaluated again. -/
theorem evaluated_is_final_returned_helper :
    let text := "first(f, debug(at(place, eval(\"key\"))))"
    let seed : Seed := ⟨["key"], [], [⟨"pick", ["f", "place"], text⟩], none⟩
    let hosts : Nat → Host := fun _ args _ => match args with
      | arg :: _ => .ok arg
      | [] => .error (.host .noSuchArgument)
    let bindings := [("first", .native (.host 0 "first" false)), ("key", .bool true)]
    let e : Expr := .call (.var "pick") (.binary .sequence (.var "pick") (.text "gate"))
    ∃ created body after, seed.env {} hosts = .ok created ∧ Expr.ofText text = .ok body ∧
      let graphs := .ofList [("ADULT", .ofEdges [("home", "gate")])]
      let env := { created.bindAll bindings with graphs := graphs, graphRoot := some "home" }
      let value := .function ["f", "place"] body
      (Inspected.evaluate Inspected.refuse none 8 e).outcome env = some (.ok value, after) ∧
        after.journal = [.message "TRUE", .hostCall "first" [value, .bool true] none] ∧
        (evaluate (some "CHILD") 1 value).outcome after = some (.ok value, after) := by
  intro text seed hosts bindings e
  let guarded : Expr := .call (.var "at") (.binary .sequence (.var "place")
    (.call (.var "eval") (.text "key")))
  let body : Expr := .call (.var "first") (.binary .sequence (.var "f")
    (.call (.var "debug") guarded))
  let seeded : List (String × Expr) :=
    [("key", .bool false), ("pick", .function ["f", "place"] body), ("AGE", .text "CHILD")]
  let globals := Env.builtins.insertAll seeded
  let graphs : Table Graph := .ofList [("ADULT", .ofEdges [("home", "gate")])]
  let env : Env :=
    { (Env.fresh {} globals hosts).bindAll bindings with
      graphs := graphs, graphRoot := some "home" }
  have hbody : Expr.ofText text = .ok body := by decide +kernel
  have hseeded : seed.bindings {} = .ok seeded := by decide +kernel
  have hseed : seed.env {} hosts = .ok (.fresh {} globals hosts) := by
    show (seed.bindings {} >>= _) = _
    rw [hseeded]
    rfl
  have hhosts : Env.HostsFinal hosts := by
    intro number args context hargs
    cases args with
    | nil => trivial
    | cons arg rest => exact hargs arg List.mem_cons_self
  have hbindings : ∀ binding ∈ bindings, Expr.Final binding.2 := by
    have hfirst : (Expr.native (.host 0 "first" false)).Final := ⟨rfl, nofun⟩
    simpa [bindings] using ⟨hfirst, Expr.final_bool true⟩
  have henv : env.BindsFinal := by
    have hbound := evaluated_is_final.1 seed {} hosts _ bindings hhosts hseed hbindings
    exact ⟨hbound.globals, hbound.stack, hbound.hosts⟩
  have hrun : ((evaluate none 8 e).outcome env).map (fun (result, after) =>
    (result, after.journal)) =
      some (.ok (.function ["f", "place"] body), [.message "TRUE",
        .hostCall "first" [.function ["f", "place"] body, .bool true] none]) := by
    decide +kernel
  obtain ⟨⟨result, after⟩, ho, hresult⟩ := Option.map_eq_some_iff.mp hrun
  obtain ⟨rfl, hjournal⟩ := Prod.mk.inj hresult
  have he : e.Natives Native.EagerButAt := ⟨trivial, trivial, trivial⟩
  obtain ⟨hvalue, hsame⟩ := evaluated_is_final.2 env henv none e he
  refine ⟨_, body, after, hseed, hbody, ?_, hjournal, ?_⟩
  · exact (hsame Inspected.refuse (fun step _ h => Inspected.outcome_refuse h step) 8).trans ho
  · exact (hvalue _ ⟨8, after, ho⟩).2 after (some "CHILD") 0

end Passage
