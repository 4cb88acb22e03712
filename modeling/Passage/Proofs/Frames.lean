import Passage.Proofs.Sight
import Passage.Session

/-!
# Frames are given back

Whatever an evaluation comes to, the frames of the calls in progress are afterwards those that were
there before, and nothing else that rules see has changed. A survey replaces the published graphs
and the place they are measured from, and nothing else. So a session that starts without a frame
never has one between two requests, unless a request puts it there by hand.
-/
namespace Passage

open Passage.Action

/-- What rules see apart from the published graphs. -/
def Env.settled (env : Env) : Env := { env.visible with graphs := .empty, graphRoot := none }

theorem Action.Keeps.settled {ε α : Type} {act : Action Env ε α} (h : Keeps Env.visible act) :
    Keeps Env.settled act :=
  h.comp fun env => { env with graphs := .empty, graphRoot := none }

theorem Action.Keeps.stack {ε α : Type} {act : Action Env ε α} (h : Keeps Env.settled act) :
    Keeps Env.stack act :=
  h.comp Env.stack

namespace Survey

theorem settled_record (step : Step) (env : Env) : (record step env).settled = env.settled := by
  unfold record
  split
  · rfl
  · rfl

theorem keeps_byLabel (depth : Nat) (side : Side) (rule : String) :
    Keeps Env.visible (Judge.byLabel depth side rule) :=
  keeps_bind (keeps_read _) fun contexts => keeps_checkRule (some (contexts.label side)) depth rule

variable {judge : Judge}

theorem keeps_ask (hjudge : ∀ side rule, Keeps Env.visible (judge side rule)) (step : Step) :
    Keeps Env.settled (ask judge step) := by
  refine keeps_bind (keeps_read _) fun isKnown => ?_
  cases isKnown with
  | true => exact keeps_pure none
  | false =>
    refine keeps_bind (hjudge step.side step.rule).settled fun holds => ?_
    cases holds with
    | true => exact keeps_bind (keeps_update (settled_record step)) fun _ => keeps_pure (some true)
    | false => exact keeps_pure (some false)

theorem keeps_pass (hjudge : ∀ side rule, Keeps Env.visible (judge side rule)) (steps : List Step) :
    Keeps Env.settled (pass judge steps) := by
  induction steps with
  | nil => exact keeps_pure []
  | cons step rest ih =>
    exact keeps_bind (keeps_ask hjudge step) fun verdict => keeps_bind ih fun round => keeps_pure _

theorem keeps_passes (hjudge : ∀ side rule, Keeps Env.visible (judge side rule))
    (steps : List Step) (left number : Nat) :
    Keeps Env.settled (passes judge steps left number) := by
  induction left generalizing number with
  | zero => exact keeps_tooDeep
  | succ left ih =>
    refine keeps_bind (keeps_pass hjudge steps) fun round => ?_
    refine keeps_bind (keeps_update fun env => rfl) fun _ => ?_
    cases round.grew with
    | true => exact keeps_bind (ih (number + 1)) fun later => keeps_pure _
    | false => exact keeps_pure [round]

/-- A survey leaves alone all that rules see but the published graphs, also when a rule fails. -/
theorem keeps_build (depth : Nat) (regions : List Region) (root : Option String) :
    Keeps Env.settled (build depth regions root) := by
  refine keeps_bind (keeps_update fun env => rfl) fun _ => ?_
  refine keeps_bind (keeps_passes (keeps_byLabel depth) (steps regions) _ 1) fun rounds => ?_
  refine keeps_bind (keeps_read _) fun first => ?_
  exact keeps_bind (keeps_read _) fun second => keeps_pure _

end Survey

theorem keeps_holding (depth : Nat) (context : Option String) (things : List Obtainable) :
    Keeps Env.visible (holding depth context things) := by
  induction things with
  | nil => exact keeps_pure []
  | cons thing rest ih =>
    refine keeps_bind (keeps_checkRule context depth thing.rule) fun holds => ?_
    exact keeps_bind ih fun later => keeps_pure _

namespace Atlas

/-- The frames of an atlas are those of its environment. -/
def frames (atlas : Atlas) : List Frame := atlas.env.stack

variable {ε α : Type}

theorem keeps_inEnv {act : Action Env ε α} (h : Keeps Env.stack act) :
    Keeps frames (inEnv act) := by
  refine keeps_onPart ?_ h
  exact fun _ _ hkept => hkept

theorem keeps_build (depth : Nat) : Keeps frames (build depth) := by
  refine keeps_bind (keeps_read _) fun regions => ?_
  refine keeps_bind (keeps_read _) fun root => ?_
  refine keeps_bind (keeps_inEnv (Survey.keeps_build depth regions root).stack) fun survey => ?_
  refine keeps_bind (keeps_read _) fun contexts => ?_
  exact keeps_bind (keeps_update fun _ => rfl) fun _ => keeps_pure _

theorem keeps_choose (label : String) (graphs : Table Graph) :
    Keeps frames (match graphs.get? label with
      | some g => (pure g : Tour AtlasError Graph)
      | none => throw (.unknownContext label (graphs.sorted.map Prod.fst))) := by
  cases graphs.get? label with
  | some g => exact keeps_pure g
  | none => exact keeps_throw _

theorem keeps_graph (depth : Nat) (label : String) : Keeps frames (graph depth label) := by
  refine keeps_bind (keeps_read _) fun built => ?_
  cases built with
  | some graphs => exact keeps_bind (keeps_pure graphs) (keeps_choose label)
  | none => exact keeps_bind (keeps_mapError _ (keeps_build depth)) (keeps_choose label)

theorem keeps_available (depth : Nat) (label root : String) :
    Keeps frames (available depth label root) := by
  refine keeps_bind (keeps_graph depth label) fun g => ?_
  refine keeps_bind (keeps_read _) fun regions => ?_
  exact keeps_mapError _ (keeps_inEnv (keeps_holding depth _ _).settled.stack)

end Atlas

/-- Requests that neither push a frame nor remove one by hand. -/
def Request.leavesFrames : Request → Bool
  | .push _ | .pop => false
  | _ => true

namespace Session

/-- The frames of the calls in progress. -/
def frames (session : Session) : List Frame := session.atlas.env.stack

variable {α : Type}

theorem keeps_onAtlas {act : Action Atlas Failure α} (h : Keeps Atlas.frames act) :
    Keeps frames (onAtlas act) := by
  refine keeps_onPart ?_ h
  exact fun _ _ hkept => hkept

theorem keeps_onEnv {act : Action Env Failure α} (h : Keeps Env.stack act) :
    Keeps frames (onEnv act) :=
  keeps_onAtlas (Atlas.keeps_inEnv h)

theorem keeps_eval {act : Eval α} (h : Keeps Env.stack act) : Keeps frames (eval act) :=
  keeps_onEnv (keeps_mapError _ h)

theorem keeps_ask {act : Check α} (h : Keeps Env.stack act) : Keeps frames (ask act) :=
  keeps_onEnv (keeps_mapError _ h)

theorem keeps_tour {act : Tour AtlasError α} (h : Keeps Atlas.frames act) :
    Keeps frames (tour act) :=
  keeps_onAtlas (keeps_mapError _ h)

theorem keeps_readEnv (look : Env → α) : Keeps frames (readEnv look) :=
  keeps_onEnv (keeps_read look)

theorem keeps_changeEnv {change : Env → Env} (h : ∀ env, (change env).stack = env.stack) :
    Keeps frames (changeEnv change) :=
  keeps_bind (keeps_onEnv (keeps_update h)) fun _ => keeps_pure _

theorem keeps_readText (text : String) : Keeps frames (readText text) := keeps_ofExcept _

/-- The value of an expression, as an answer made of it. -/
theorem keeps_evaluated (depth : Nat) (context : Option String) (e : Expr) :
    Keeps frames (eval (Passage.evaluate context depth e)) :=
  keeps_eval (keeps_evaluate context depth e).settled.stack

theorem keeps_answer (depth : Nat) (request : Request) (h : request.leavesFrames = true) :
    Keeps frames (answer depth request) := by
  cases request with
  | push bindings => cases h
  | pop => cases h
  | evaluateText text context =>
    refine keeps_bind (keeps_readText text) fun e => ?_
    exact keeps_bind (keeps_evaluated depth context e) fun value => keeps_pure _
  | evaluate e context =>
    exact keeps_bind (keeps_evaluated depth context e) fun value => keeps_pure _
  | truthOf text context =>
    refine keeps_bind (keeps_readText text) fun e => ?_
    refine keeps_bind (keeps_evaluated depth context e) fun value => ?_
    exact keeps_bind (keeps_eval (keeps_ofExcept _)) fun b => keeps_pure _
  | textOf text context =>
    refine keeps_bind (keeps_readText text) fun e => ?_
    refine keeps_bind (keeps_evaluated depth context e) fun value => ?_
    exact keeps_bind (keeps_eval (keeps_ofExcept _)) fun s => keeps_pure _
  | check rule context =>
    exact keeps_bind (keeps_ask (keeps_checkRule context depth rule).settled.stack) fun b =>
      keeps_pure _
  | bind name value => exact keeps_changeEnv fun _ => rfl
  | bindText name text =>
    exact keeps_bind (keeps_readText text) fun e => keeps_changeEnv fun _ => rfl
  | bindHelper helper =>
    exact keeps_bind (keeps_ofExcept _) fun f => keeps_changeEnv fun _ => rfl
  | bindHost name isLazy host =>
    exact keeps_bind (keeps_update fun _ => rfl) fun _ => keeps_pure _
  | lookup name context =>
    refine keeps_bind (keeps_eval fun env result after ho => ?_) fun value => keeps_pure _
    rw [Eval.outcome_lookup] at ho
    cases ho
    rfl
  | globals => exact keeps_bind (keeps_readEnv _) fun bindings => keeps_pure _
  | frame =>
    refine keeps_bind (keeps_readEnv _) fun stack => ?_
    cases stack with
    | nil => exact keeps_pure _
    | cons frame rest => exact keeps_pure _
  | publish graphs root => exact keeps_changeEnv fun _ => rfl
  | published =>
    exact keeps_bind (keeps_readEnv _) fun root => keeps_bind (keeps_readEnv _) fun graphs =>
      keeps_pure _
  | survey records root =>
    have hbuilt (regions : List Region) :
        Keeps frames (do
          let survey ← ask (Survey.build depth regions root)
          return Answer.survey survey.first survey.second) :=
      keeps_bind (keeps_ask (Survey.keeps_build depth regions root).stack) fun s => keeps_pure _
    cases records with
    | none => exact keeps_bind (keeps_read _) hbuilt
    | some records => exact keeps_bind (keeps_ofExcept _) hbuilt
  | availableIn label root context =>
    refine keeps_bind (keeps_readEnv _) fun found => ?_
    cases found with
    | none => exact keeps_throw _
    | some g =>
      refine keeps_bind (keeps_read _) fun regions => ?_
      exact keeps_bind (keeps_ask (keeps_holding depth context _).settled.stack) fun ids =>
        keeps_pure _
  | grant name => exact keeps_bind (keeps_onAtlas (keeps_update fun _ => rfl)) fun _ => keeps_pure _
  | revoke name =>
    exact keeps_bind (keeps_onAtlas (keeps_update fun _ => rfl)) fun _ => keeps_pure _
  | build =>
    exact keeps_bind (keeps_onAtlas (keeps_mapError _ (Atlas.keeps_build depth))) fun graphs =>
      keeps_pure _
  | graph label =>
    exact keeps_bind (keeps_tour (Atlas.keeps_graph depth label)) fun g => keeps_pure _
  | reachable label root =>
    refine keeps_bind (keeps_tour ?_) fun ids => keeps_pure _
    exact keeps_bind (Atlas.keeps_graph depth label) fun g => keeps_pure _
  | canReach label source destination =>
    refine keeps_bind (keeps_tour ?_) fun b => keeps_pure _
    exact keeps_bind (Atlas.keeps_graph depth label) fun g => keeps_pure _
  | available label root =>
    exact keeps_bind (keeps_tour (Atlas.keeps_available depth label root)) fun ids => keeps_pure _

theorem frames_step {depth : Nat} {session next : Session} {request : Request} {report : Report}
    (hleaves : request.leavesFrames = true) (h : session.step depth request = some (report, next)) :
    next.frames = session.frames ∧ report.frames = session.frames.length := by
  obtain ⟨⟨result, after⟩, hanswer, he⟩ := Option.map_eq_some_iff.mp h
  cases he
  have hkept : next.frames = session.frames :=
    keeps_answer depth request hleaves session.clearJournal result next hanswer
  exact ⟨hkept, congrArg List.length hkept⟩

/-- Every report of a run counts the frames that were there at its start. -/
theorem frames_run {depth : Nat} {session : Session} {requests : List Request}
    {reports : List Report} (hleaves : ∀ request ∈ requests, request.leavesFrames = true)
    (h : run depth session requests = some reports) :
    ∀ report ∈ reports, report.frames = session.frames.length := by
  induction requests generalizing session reports with
  | nil => cases h; simp
  | cons request rest ih =>
    obtain ⟨⟨report, next⟩, hstep, h⟩ := Option.bind_eq_some_iff.mp h
    obtain ⟨later, hlater, h⟩ := Option.bind_eq_some_iff.mp h
    cases h
    obtain ⟨hnext, hreport⟩ := frames_step (hleaves request List.mem_cons_self) hstep
    have hrest := ih (fun r hr => hleaves r (List.mem_cons_of_mem request hr)) hlater
    rw [hnext] at hrest
    exact List.forall_mem_cons.mpr ⟨hreport, hrest⟩

theorem frames_envOf {config : Config} {world : World} {env : Env}
    (h : envOf config world = .ok env) : env.stack = [] := by
  cases world with
  | plain withBuiltins globals => cases h; rfl
  | seeded seed =>
    change (seed.bindings config >>= _) = _ at h
    cases hb : seed.bindings config with
    | error e => rw [hb] at h; cases h
    | ok bindings => rw [hb] at h; cases h; rfl

/-- A new session has no call in progress. -/
theorem frames_new {config : Config} {world : World} {records : List RegionRecord}
    {root : Option String} {echo : Bool} {session : Session}
    (h : new config world records root echo = .ok session) : session.frames = [] := by
  change ((envOf config world).mapError Failure.helper >>= _) = _ at h
  cases henv : envOf config world with
  | error e => rw [henv] at h; cases h
  | ok env =>
    rw [henv] at h
    change ((records.mapM Region.ofRecord).mapError Failure.region >>= _) = _ at h
    cases hr : records.mapM Region.ofRecord with
    | error e => rw [hr] at h; cases h
    | ok regions =>
      rw [hr] at h
      cases h
      exact frames_envOf henv

end Session

/-- Rules cannot tell the environment after from the one before. -/
structure Env.Undisturbed (before after : Env) : Prop where
  stack : after.stack = before.stack
  globals : after.globals = before.globals
  config : after.config = before.config
  hosts : after.hosts = before.hosts
  graphs : after.graphs = before.graphs
  graphRoot : after.graphRoot = before.graphRoot

theorem Env.undisturbed_of_visible {before after : Env} (h : after.visible = before.visible) :
    before.Undisturbed after := by
  simp only [visible, Env.mk.injEq] at h
  obtain ⟨hconfig, hhosts, hglobals, hstack, hgraphs, hroot, -, -⟩ := h
  exact ⟨hstack, hglobals, hconfig, hhosts, hgraphs, hroot⟩

/-- Evaluations and rule checks, however they end, disturb nothing; surveys leave the frames as they
were; so a session whose requests do not push or pop frames by hand has none after any request. -/
theorem frames_released :
    (∀ env context depth e result after,
      (evaluate context depth e).outcome env = some (result, after) → env.Undisturbed after) ∧
    (∀ env context depth rule result after,
      (checkRule depth rule context).outcome env = some (result, after) → env.Undisturbed after) ∧
    (∀ env depth regions root result after,
      (Survey.build depth regions root).outcome env = some (result, after) →
        after.stack = env.stack) ∧
    (∀ config world records root echo session,
      Session.new config world records root echo = .ok session →
        ∀ depth requests reports, (∀ request ∈ requests, request.leavesFrames = true) →
          Session.run depth session requests = some reports →
            ∀ report ∈ reports, report.frames = 0) := by
  refine ⟨?_, ?_, ?_, ?_⟩
  · intro env context depth e result after h
    exact Env.undisturbed_of_visible (keeps_evaluate context depth e env result after h)
  · intro env context depth rule result after h
    exact Env.undisturbed_of_visible (keeps_checkRule context depth rule env result after h)
  · intro env depth regions root result after h
    exact (Survey.keeps_build depth regions root).stack env result after h
  · intro config world records root echo session hnew depth requests reports hleaves hrun report hr
    have hcount := Session.frames_run hleaves hrun report hr
    rw [Session.frames_new hnew] at hcount
    exact hcount

/-- A call inside of another call whose body fails: the frame that was there before is alone
again. -/
theorem frames_released_failing_body :
    let frame : Frame := .ofList [("x", .text "outer")]
    let env := (Env.fresh {} .empty Env.noHosts).push frame
    let inner := Expr.call (.function ["x"]
      (.binary .and (.bool true) (.var "missing"))) (.bool false)
    let outer := Expr.call (.function ["y"] inner) (.bool true)
    ∃ after, (evaluate none 5 outer).outcome env = some (.error (.undefined "missing"), after) ∧
      env.Undisturbed after := by
  intro frame env inner outer
  have h : (evaluate none 5 outer).outcome env = some (.error (.undefined "missing"), env) := by
    rfl
  exact ⟨env, h, frames_released.1 env none 5 outer _ env h⟩

end Passage
