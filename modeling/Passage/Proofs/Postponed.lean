import Passage.Proofs.PlainRules
import Passage.Proofs.Renewal
import Passage.Proofs.Writing

/-!
# Surveys that are put off

A grant or a revocation gives up the graphs at hand, but the published ones stay until the next
survey, which the next query makes. Rules see the published graphs through `at`. So what a rule
comes to between a grant and the next query is judged by the graphs of the last survey: it is the
same as after the query exactly as far as the two surveys reach the same regions.
-/
namespace Passage

open Passage.Action

/-- Environments that differ in nothing but the trees remembered, the journal and the published
graphs, from which the same regions are reached. -/
theorem Simulation.reaching (context : Option String) :
    Simulation (fun _ s t => s.settled = t.settled ∧ ∀ region, s.reaches region = t.reaches region)
      (fun _ => False) context context where
  lookup := by
    intro _ s t h name
    exact .inr (congrArg (fun env => env.lookup name context) h.1)
  strictArity := by
    intro _ s t h
    exact .inl (congrArg (fun env => env.config.strictArity) h.1)
  reaches h := h.2
  readRule := by
    intro _ s t h text
    have hconfig : s.config = t.config := congrArg (fun env => env.config) h.1
    refine .inr ⟨?_, h⟩
    rw [s.fst_readRule, t.fst_readRule, hconfig]
  hosts := by
    intro _ s t h number args
    exact congrArg (fun env => env.hosts number args context) h.1
  message h _ := h
  hostCall h _ _ := h
  push := by
    intro _ s t h frame
    exact ⟨congrArg (fun env => env.push frame) h.1, h.2⟩
  pop := by
    intro _ _ s t h
    exact ⟨congrArg Env.pop h.1, h.2⟩

namespace Env

variable {s t : Env} {context : Option String}

/-- What is reached depends on the published graphs alone, and on the region they are measured
from. -/
theorem reaches_congr (hgraph : ∀ side, s.graphOf side = t.graphOf side)
    (hroot : s.graphRoot = t.graphRoot) (region : String) :
    s.reaches region = t.reaches region := by
  have hgraphs : s.graphOf = t.graphOf := funext hgraph
  unfold reaches
  rw [hroot, hgraphs]

/-- A rule is checked with the same result where the same regions are reached. -/
theorem Checks.of_reach {rule : String} {result : Except CheckError Bool}
    (hst : s.settled = t.settled) (hreach : ∀ region, s.reaches region = t.reaches region)
    (h : s.Checks context rule result) :
    t.Checks context rule result := by
  obtain ⟨depth, after, ho⟩ := h
  have hfollows := (Simulation.reaching context).follows_checkRule_always (fun h _ _ => h)
    (Nat.le_refl depth) [] rule
  obtain ⟨after', ho', -⟩ := hfollows.always ho ⟨hst, hreach⟩
  exact ⟨depth, after', ho'⟩

/-- The rule that holds exactly if a region is reached. -/
def placeRule (region : String) : String := "at(\x22" ++ region ++ "\x22, TRUE)"

theorem checks_placeRule {region : String} (hregion : '\x22' ∉ region.toList)
    (hat : s.lookup "at" context = .ok (.native .atPlace)) :
    s.Checks context (placeRule region) (.ok (s.reaches region)) := by
  let args := Expr.binary .sequence (.text region) (.bool true)
  have hwritable : (Expr.call (.var "at") args).Writable :=
    .call (.var (by decide)) rfl rfl (.sequence (.text hregion) rfl (.bool true))
  have hrender : (Expr.call (.var "at") args).render = placeRule region := by
    apply String.toList_injective
    show ("at" ++ "(" ++ ("\x22" ++ region ++ "\x22" ++ ", " ++ "TRUE") ++ ")").toList =
      ("at(\x22" ++ region ++ "\x22, TRUE)").toList
    simp only [String.toList_append, List.append_assoc]
    rfl
  have hread : RuleText.expr ⟨placeRule region, s.config.allowTrailing⟩ =
      .ok (.call (.var "at") args) := by
    rw [← hrender]
    exact RuleText.expr_of_strict (Expr.Canonical.read (.inr hwritable)) _
  refine checks_of_evaluates hread (evaluates_atPlace hat rfl ?_)
  cases s.reaches region with
  | true => exact evaluates_value rfl
  | false => rfl

end Env

namespace Request

/-- Requests that ask for no graph, so that no survey is made for them. -/
def asksNoGraph : Request → Bool
  | grant _ | revoke _ | check _ _ => true
  | _ => false

theorem isQuery_eq_false {request : Request} (h : request.asksNoGraph = true) :
    request.isQuery = false := by
  cases request with
  | grant | revoke | check => rfl
  | _ => cases h

theorem isForAtlas_of_asksNoGraph {request : Request} (h : request.asksNoGraph = true) :
    request.isForAtlas = true := by
  cases request with
  | grant | revoke | check => rfl
  | _ => cases h

end Request

namespace Atlas

/-- Taking the graph of a label leaves alone all that rules see but the published graphs. -/
theorem keeps_settled_graph (depth : Nat) (label : String) :
    Keeps (fun atlas : Atlas => atlas.env.settled) (graph depth label) := by
  intro atlas result after ho
  rcases cases_of_graph ho with ⟨graphs, -, -, rfl⟩ | ⟨found, env, -, hsurvey, -, rfl⟩
  · rfl
  · have hkept : env.settled = atlas.env.settled := Survey.keeps_build depth _ _ _ _ _ hsurvey
    cases found with
    | ok survey => exact hkept
    | error error => exact hkept

theorem visible_of_seen {a b : Atlas} (h : b.seen = a.seen) : b.env.visible = a.env.visible :=
  congrArg Atlas.env h

end Atlas

namespace Session

theorem outcome_check (depth : Nat) (rule : String) (context : Option String) (session : Session) :
    (answer depth (.check rule context)).outcome session =
      ((checkRule depth rule context).outcome session.atlas.env).map fun (verdict, env) =>
        ((verdict.mapError Failure.check).map Answer.truth,
          { session with atlas := { session.atlas with env := env } }) := by
  have hask : (ask (checkRule depth rule context)).outcome session =
      ((checkRule depth rule context).outcome session.atlas.env).map fun (verdict, env) =>
        (verdict.mapError Failure.check, { session with
          atlas := { session.atlas with env := env } }) := by
    show ((((checkRule depth rule context).outcome session.atlas.env).map _).map _).map _ = _
    rw [Option.map_map, Option.map_map]
    rfl
  show (ask (checkRule depth rule context) >>= _).outcome session = _
  rw [outcome_bind, hask]
  cases (checkRule depth rule context).outcome session.atlas.env with
  | none => rfl
  | some pair =>
    obtain ⟨verdict, env⟩ := pair
    cases verdict with
    | ok holds => rfl
    | error error => rfl

/-- A session answers as its environment checks. -/
theorem answers_check_iff {session : Session} {rule : String} {context : Option String}
    {result : Except Failure Answer} :
    session.Answers (.check rule context) result ↔ ∃ verdict,
      session.atlas.env.Checks context rule verdict ∧
        result = (verdict.mapError Failure.check).map Answer.truth := by
  have hvisible : session.clearJournal.atlas.env.visible = session.atlas.env.visible := rfl
  rw [answers_iff]
  constructor
  · rintro ⟨depth, next, ho⟩
    rw [outcome_check] at ho
    obtain ⟨⟨verdict, env⟩, hchecked, he⟩ := Option.map_eq_some_iff.mp ho
    cases he
    have hcleared : session.clearJournal.atlas.env.Checks context rule verdict :=
      ⟨depth, env, hchecked⟩
    exact ⟨verdict, hcleared.of_visible hvisible, rfl⟩
  · rintro ⟨verdict, hchecks, rfl⟩
    obtain ⟨depth, env, hchecked⟩ := hchecks.of_visible hvisible.symm
    refine ⟨depth, { session.clearJournal with
      atlas := { session.clearJournal.atlas with env := env } }, ?_⟩
    rw [outcome_check, hchecked]
    rfl

/-- A session answers a check in one way. -/
theorem Answers.unique_check {session : Session} {rule : String} {context : Option String}
    {result result' : Except Failure Answer} (h : session.Answers (.check rule context) result)
    (h' : session.Answers (.check rule context) result') : result = result' := by
  obtain ⟨verdict, hchecks, rfl⟩ := answers_check_iff.mp h
  obtain ⟨verdict', hchecks', rfl⟩ := answers_check_iff.mp h'
  rw [hchecks.unique hchecks']

theorem Move.reaches {now next : Atlas} {request : Request} {result : Except Failure Answer}
    (h : Move now request result next) (hasks : request.asksNoGraph = true) (region : String) :
    next.env.reaches region = now.env.reaches region := by
  cases h with
  | grant name => rfl
  | revoke name => rfl
  | check hseen =>
    rw [← next.env.reaches_visible, Atlas.visible_of_seen hseen, now.env.reaches_visible]
  | build _ => cases hasks
  | query hquery =>
    rw [Request.isQuery_eq_false hasks] at hquery
    cases hquery
  | rebind hrebinds =>
    rw [Request.rebinds_eq_false (Request.isForAtlas_of_asksNoGraph hasks)] at hrebinds
    cases hrebinds

/-- Grants, revocations and checks leave the same regions reached. -/
theorem Past.reaches {start now : Session} {turns : List Turn} (h : Past start turns now)
    (hasks : ∀ turn ∈ turns, turn.request.asksNoGraph = true) (region : String) :
    now.atlas.env.reaches region = start.atlas.env.reaches region := by
  induction h with
  | start => rfl
  | @turn turns now next depth request report _ hstep ih =>
    have hrequest : request.asksNoGraph = true := hasks _ List.mem_cons_self
    have hmove := move_of_step (.inl (Request.isForAtlas_of_asksNoGraph hrequest)) hstep
    have hlast : next.atlas.env.reaches region = now.atlas.env.reaches region :=
      hmove.reaches hrequest region
    exact hlast.trans (ih fun turn hturn => hasks turn (List.mem_cons_of_mem _ hturn))

theorem settled_of_query {now next : Session} {query : Request} {depth : Nat} {report : Report}
    (hquery : query.isQuery = true) (hstep : now.step depth query = some (report, next)) :
    next.atlas.env.settled = now.atlas.env.settled := by
  obtain ⟨hanswer, -⟩ := step_eq_some_iff.mp hstep
  obtain ⟨label, goOn, honward, hgraph⟩ := answer_query hquery
  rw [hgraph, outcome_tour] at hanswer
  obtain ⟨⟨inner, after⟩, hact, he⟩ := Option.map_eq_some_iff.mp hanswer
  obtain ⟨-, rfl⟩ := Prod.mk.inj he
  have hkeeps : Keeps (fun atlas : Atlas => atlas.env.settled)
      (Atlas.graph depth label >>= goOn depth) := by
    refine keeps_bind (Atlas.keeps_settled_graph depth label) fun g => ?_
    exact (honward.keeps depth g).comp fun atlas =>
      { atlas.env with graphs := .empty, graphRoot := none }
  have hclear : now.clearJournal.atlas.env.settled = now.atlas.env.settled := rfl
  exact (hkeeps _ _ _ hact).trans hclear

end Session

open Session

/-- A query between a rule and the grants before it is not noticed by the rule as far as the query's
survey reaches the regions that the last one reached: then every rule is checked with the same
result before and after the query. Until the query, the rule that asks for a region is judged by
what was reached at the start, however many grants and revocations there were; after it, by what is
reached then. -/
theorem checks_around_query {start now next : Session} {turns : List Turn}
    (hpast : Past start turns now) (hasks : ∀ turn ∈ turns, turn.request.asksNoGraph = true)
    {query : Request}
    (hquery : query.isQuery = true) {depth : Nat} {report : Report}
    (hstep : now.step depth query = some (report, next)) :
    ((∀ region, next.atlas.env.reaches region = start.atlas.env.reaches region) →
      ∀ rule context result,
        now.Answers (.check rule context) result ↔ next.Answers (.check rule context) result) ∧
    ∀ region context, '\x22' ∉ region.toList →
      now.atlas.env.lookup "at" context = .ok (.native .atPlace) →
      now.Answers (.check (Env.placeRule region) context)
        (.ok (.truth (start.atlas.env.reaches region))) ∧
      next.Answers (.check (Env.placeRule region) context)
        (.ok (.truth (next.atlas.env.reaches region))) := by
  have hsettled := settled_of_query hquery hstep
  refine ⟨?_, ?_⟩
  · intro hsame rule context result
    have hreach (region : String) : next.atlas.env.reaches region =
        now.atlas.env.reaches region := by
      rw [hsame, hpast.reaches hasks]
    rw [answers_check_iff, answers_check_iff]
    constructor
    · rintro ⟨verdict, hchecks, heq⟩
      exact ⟨verdict, hchecks.of_reach hsettled.symm fun region => (hreach region).symm, heq⟩
    · rintro ⟨verdict, hchecks, heq⟩
      exact ⟨verdict, hchecks.of_reach hsettled hreach, heq⟩
  · intro region context hregion hat
    -- The same rule in both environments, each with the regions that its own graphs reach.
    have hatNext : next.atlas.env.lookup "at" context = .ok (.native .atPlace) := by
      rw [← hat]
      exact congrArg (fun env => env.lookup "at" context) hsettled
    rw [answers_check_iff, answers_check_iff, ← hpast.reaches hasks]
    exact ⟨⟨_, Env.checks_placeRule hregion hat, rfl⟩,
      ⟨_, Env.checks_placeRule hregion hatNext, rfl⟩⟩

/-- After the survey the region `b` is opened by a grant. A rule that asks for it is refused before
the next query and holds after it. -/
theorem check_before_query_out_of_date :
    let regions : List Region := [⟨"a", "", [⟨"b", "x", "x"⟩], []⟩]
    let globals := Env.builtins.insert "x" (.bool false)
    let first : Session := ⟨.new (.fresh {} globals Env.noHosts) regions none, 0, false⟩
    let check : Request := .check "at(\"b\", TRUE)" (some "CHILD")
    ∃ start turns now report next, (first.step 8 .build).map Prod.snd = some start ∧
      start.atlas.built.isSome = true ∧ replay 8 [] start [.grant "x"] = some (turns, now) ∧
      now.step 8 (.canReach "CHILD" "a" "b") = some (report, next) ∧
        report.result = .ok (.truth true) ∧
      ¬ ∀ result, now.Answers check result ↔ next.Answers check result := by
  intro regions globals first check
  have hrun : ((first.step 8 .build).bind fun built =>
      (replay 8 [] built.2 [.grant "x"]).bind fun past =>
        (past.2.step 8 (.canReach "CHILD" "a" "b")).bind fun asked =>
          (past.2.step 8 check).bind fun before => (asked.2.step 8 check).map fun after =>
            (built.2.atlas.built.isSome, [asked.1.result, before.1.result, after.1.result])) =
        some (true, [.ok (.truth true), .ok (.truth false), .ok (.truth true)]) := by
    decide +kernel
  obtain ⟨⟨_, start⟩, hbuild, hrun⟩ := Option.bind_eq_some_iff.mp hrun
  obtain ⟨⟨turns, now⟩, hreplay, hrun⟩ := Option.bind_eq_some_iff.mp hrun
  obtain ⟨⟨report, next⟩, hquery, hrun⟩ := Option.bind_eq_some_iff.mp hrun
  obtain ⟨⟨before, _⟩, hbefore, hrun⟩ := Option.bind_eq_some_iff.mp hrun
  obtain ⟨⟨after, _⟩, hafter, hseen⟩ := Option.map_eq_some_iff.mp hrun
  obtain ⟨hsome, hresults⟩ := Prod.mk.inj hseen
  simp only [List.cons.injEq, and_true] at hresults
  obtain ⟨hreport, hrefused, hholds⟩ := hresults
  refine ⟨start, turns, now, report, next, ?_, hsome, hreplay, hquery, hreport, ?_⟩
  · rw [hbuild]
    rfl
  · intro hsame
    have hnow : now.Answers check (.ok (.truth false)) := ⟨8, before, _, hbefore, hrefused⟩
    have hnext : next.Answers check (.ok (.truth true)) := ⟨8, after, _, hafter, hholds⟩
    have heq := hnow.unique_check ((hsame _).mpr hnext)
    cases heq

/-- A grant that opens no region: the rule that needs it holds before the next query and after
it. -/
theorem checks_around_query_same_regions :
    let regions : List Region := [⟨"yard", "", [⟨"hall", "TRUE", "TRUE"⟩], []⟩]
    let globals := Env.builtins.insert "lamp" (.bool false)
    let first : Session := ⟨.new (.fresh {} globals Env.noHosts) regions none, 0, false⟩
    let check : Request := .check "at(\"hall\", lamp)" none
    ∃ start turns now report next, (first.step 8 .build).map Prod.snd = some start ∧
      replay 8 [] start [.grant "lamp", .revoke "key"] = some (turns, now) ∧
      now.step 8 (.graph "ADULT") = some (report, next) ∧
      now.Answers check (.ok (.truth true)) ∧ next.Answers check (.ok (.truth true)) := by
  intro regions globals first check
  have hrun : ((first.step 8 .build).bind fun built =>
      (replay 8 [] built.2 [.grant "lamp", .revoke "key"]).bind fun past =>
        (past.2.step 8 (.graph "ADULT")).bind fun asked => (past.2.step 8 check).map fun before =>
          (past.1.all (·.request.asksNoGraph) &&
            decide (asked.2.atlas.env.graphOf .first = built.2.atlas.env.graphOf .first) &&
            decide (asked.2.atlas.env.graphOf .second = built.2.atlas.env.graphOf .second) &&
            decide (asked.2.atlas.env.graphRoot = built.2.atlas.env.graphRoot), before.1.result)) =
        some (true, .ok (.truth true)) := by
    decide +kernel
  obtain ⟨⟨_, start⟩, hbuild, hrun⟩ := Option.bind_eq_some_iff.mp hrun
  obtain ⟨⟨turns, now⟩, hreplay, hrun⟩ := Option.bind_eq_some_iff.mp hrun
  obtain ⟨⟨report, next⟩, hquery, hrun⟩ := Option.bind_eq_some_iff.mp hrun
  obtain ⟨⟨before, _⟩, hbefore, hseen⟩ := Option.map_eq_some_iff.mp hrun
  obtain ⟨hall, hholds⟩ := Prod.mk.inj hseen
  simp only [Bool.and_eq_true, decide_eq_true_eq] at hall
  obtain ⟨⟨⟨hturns, hfirst⟩, hsecond⟩, hroot⟩ := hall
  have hgraph (side : Side) : next.atlas.env.graphOf side = start.atlas.env.graphOf side := by
    cases side with
    | first => exact hfirst
    | second => exact hsecond
  have hreach := Env.reaches_congr hgraph hroot
  have hasks : ∀ turn ∈ turns, turn.request.asksNoGraph = true := List.all_eq_true.mp hturns
  have hnow : now.Answers check (.ok (.truth true)) := ⟨8, before, _, hbefore, hholds⟩
  have hnext : next.Answers check (.ok (.truth true)) :=
    ((checks_around_query (Past.start.replay hreplay) hasks rfl hquery).1 hreach _ _ _).mp hnow
  refine ⟨start, turns, now, report, next, ?_, hreplay, hquery, hnow, hnext⟩
  rw [hbuild]
  rfl

end Passage
