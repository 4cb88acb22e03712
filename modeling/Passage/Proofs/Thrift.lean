import Mathlib.Algebra.Ring.Nat
import Passage.Proofs.LeastSurvey
import Passage.Proofs.SettledSurveys

/-!
# Surveys waste nothing

The report of a survey lists what was asked in each pass, with the verdicts. Here it is compared
with the graphs and with the journal, where every rule that was checked and every pass leaves an
entry. Nothing is asked about an edge that is there, so each edge was found once; each pass but the
last one has found some; and the journal tells of exactly these questions, in the order of regions,
exits and contexts (`Survey.Thrifty`).
-/
namespace Passage

open Passage.Action

/-- Two steps that would add the same edge under the same context. -/
def Step.SameEdge (step other : Step) : Prop :=
  step.side = other.side ∧ step.source = other.source ∧ step.destination = other.destination

/-- Whether an event tells about a survey: a rule that got its verdict, or a pass. -/
def Event.isOfSurvey : Event → Bool
  | verdict _ _ _ | pass _ _ => true
  | message _ | hostCall _ _ _ => false

namespace Round

/-- The steps whose edges were found, in the order in which they were. -/
def found (round : Round) : List Step := (round.filter fun asked => asked.2).map Prod.fst

/-- What the journal tells about a step that was asked. -/
def verdict (config : Config) (asked : Step × Bool) : Event :=
  .verdict (some (config.contexts.label asked.1.side))
    ((RuleText.expr ⟨asked.1.rule, config.allowTrailing⟩).toOption.getD .empty) asked.2

/-- What the journal tells about a pass: every step that was asked, and in the end how many edges
were found. -/
def events (config : Config) (number : Nat) (round : Round) : List Event :=
  round.map (verdict config) ++
    [.pass number [(config.contexts.first, round.added .first),
      (config.contexts.second, round.added .second)]]

/-- What the journal tells about some passes, from the one with the given number on. -/
def trace (config : Config) : Nat → List Round → List Event
  | _, [] => []
  | number, round :: rest => round.events config number ++ trace config (number + 1) rest

variable {round rest : Round} {side : Side}

theorem added_eq (round : Round) (side : Side) :
    round.added side = (Step.edges side round.found).length := by
  induction round with
  | nil => rfl
  | cons asked rest ih =>
    obtain ⟨step, holds⟩ := asked
    unfold added at ih ⊢
    rw [List.countP_cons, ih]
    cases holds with
    | false => simp [found, Step.edges]
    | true => by_cases h : step.side = side <;> simp [found, Step.edges, h]

theorem found_append (round rest : Round) : found (round ++ rest) = round.found ++ found rest := by
  simp [found]

theorem grew_iff (round : Round) : round.grew = true ↔
    0 < round.added .first + round.added .second := by
  have hside (side : Side) : 0 < round.added side ↔
      ∃ asked ∈ round, asked.2 = true ∧ asked.1.side = side := by
    simp [added, List.countP_pos_iff]
  rw [grew, List.any_eq_true, Nat.add_pos_iff_pos_or_pos, hside, hside]
  constructor
  · rintro ⟨asked, hmem, hholds⟩
    cases hasked : asked.1.side with
    | first => exact .inl ⟨asked, hmem, hholds, hasked⟩
    | second => exact .inr ⟨asked, hmem, hholds, hasked⟩
  · intro h
    rcases h with ⟨asked, hmem, hholds, _⟩ | ⟨asked, hmem, hholds, _⟩
    · exact ⟨asked, hmem, hholds⟩
    · exact ⟨asked, hmem, hholds⟩

end Round

theorem Step.edges_append (side : Side) (steps later : List Step) :
    Step.edges side (steps ++ later) = Step.edges side steps ++ Step.edges side later := by
  simp [Step.edges]

/-! ## What is asked, and what is found -/

namespace Draft

variable {draft middle last : Draft} {root : Option String} {env : Env} {step other : Step}
  {steps rest : List Step} {round : Round} {rounds : List Round}

theorem knows_congr (h : step.SameEdge other) : draft.knows step = draft.knows other := by
  obtain ⟨hside, hsource, hdestination⟩ := h
  unfold knows
  rw [hside, hsource, hdestination]

/-- Nothing is asked about an edge that is there. -/
theorem Pass.unknown (h : Pass root env draft rest round last) :
    ∀ asked ∈ round, draft.knows asked.1 = false := by
  induction h with
  | done => simp
  | known _ _ ih => exact ih
  | @asked draft _ step _ _ holds hunknown _ _ ih =>
    intro asked hasked
    rcases List.mem_cons.mp hasked with rfl | hlater
    · exact hunknown
    · have hlast := ih asked hlater
      cases holds with
      | false => exact hlast
      | true =>
        rw [Bool.eq_false_iff] at hlast ⊢
        exact fun hknown => hlast (knows_add hknown step)

theorem Pass.knows_found (h : Pass root env draft rest round last) :
    ∀ asked ∈ round, asked.2 = true → last.knows asked.1 = true := by
  induction h with
  | done => simp
  | known _ _ ih => exact ih
  | @asked draft _ step _ _ holds _ _ hpass ih =>
    intro asked hasked hholds
    rcases List.mem_cons.mp hasked with rfl | hlater
    · cases hholds
      exact hpass.knows (knows_add_self draft step)
    · exact ih asked hlater hholds

/-- No step is asked once its edge has been found. -/
abbrev Once (asked : Round) : Prop :=
  asked.Pairwise fun earlier later => earlier.2 = true → ¬later.1.SameEdge earlier.1

/-- What is known of a draft is not asked later, not by another step either. -/
theorem not_sameEdge (hknown : draft.knows step = true) (hunknown : draft.knows other = false) :
    ¬other.SameEdge step := by
  intro hsame
  rw [knows_congr hsame, hknown] at hunknown
  cases hunknown

theorem Pass.once (h : Pass root env draft rest round last) : Once round := by
  induction h with
  | done => exact .nil
  | known _ _ ih => exact ih
  | @asked draft _ step _ _ holds _ _ hpass ih =>
    refine List.pairwise_cons.mpr ⟨fun later hlater hholds => ?_, ih⟩
    cases hholds
    exact not_sameEdge (knows_add_self draft step) (hpass.unknown later hlater)

theorem Pass.edges (h : Pass root env draft rest round last) (side : Side) :
    (last.graph side).edges = (draft.graph side).edges ++ Step.edges side round.found := by
  induction h with
  | done => exact (List.append_nil _).symm
  | known _ _ ih => exact ih
  | @asked draft _ step _ round holds hunknown _ _ ih =>
    cases holds with
    | false => exact ih
    | true =>
      have hfound : Round.found ((step, true) :: round) = step :: round.found := rfl
      rw [ih, answered, if_pos rfl, graph_add, hfound]
      by_cases hside : side = step.side
      · subst hside
        rw [if_pos rfl, Graph.edges_addEdge hunknown, Step.edges_cons_self, List.append_assoc,
          List.singleton_append]
      · rw [if_neg hside, Step.edges_cons_of_ne hside]

theorem Passes.unknown (h : Passes root env steps draft rounds last) :
    ∀ asked ∈ rounds.flatten, draft.knows asked.1 = false := by
  induction h with
  | last hpass _ => simpa using hpass.unknown
  | again hpass _ _ ih =>
    intro asked hasked
    rw [List.flatten_cons, List.mem_append] at hasked
    rcases hasked with hnow | hlater
    · exact hpass.unknown asked hnow
    · have hmiddle := ih asked hlater
      rw [Bool.eq_false_iff] at hmiddle ⊢
      exact fun hknown => hmiddle (hpass.knows hknown)

theorem Passes.once (h : Passes root env steps draft rounds last) : Once rounds.flatten := by
  induction h with
  | last hpass _ => simpa using hpass.once
  | again hpass _ hlater ih =>
    rw [List.flatten_cons]
    refine List.pairwise_append.mpr ⟨hpass.once, ih, fun asked hasked later hmem hholds => ?_⟩
    exact not_sameEdge (hpass.knows_found asked hasked hholds) (hlater.unknown later hmem)

theorem Passes.edges (h : Passes root env steps draft rounds last) (side : Side) :
    (last.graph side).edges = (draft.graph side).edges ++
      Step.edges side (Round.found rounds.flatten) := by
  induction h with
  | last hpass _ => simpa using hpass.edges side
  | again hpass _ _ ih =>
    rw [ih, hpass.edges, List.flatten_cons, Round.found_append, Step.edges_append,
      List.append_assoc]

theorem Passes.progress (h : Passes root env steps draft rounds last) :
    ∃ front final, rounds = front ++ [final] ∧ (∀ round ∈ front, round.grew = true) ∧
      final.grew = false := by
  induction h with
  | @last _ _ round _ hgrew => exact ⟨[], round, rfl, by simp, hgrew⟩
  | @again _ _ _ round _ _ hgrew _ ih =>
    obtain ⟨front, final, rfl, hfront, hfinal⟩ := ih
    exact ⟨round :: front, final, rfl, List.forall_mem_cons.mpr ⟨hgrew, hfront⟩, hfinal⟩

end Draft

/-- Counted pass by pass, the edges found are as many as there are steps that found one. -/
theorem Round.sum_added (rounds : List Round) (side : Side) :
    (rounds.map fun round => round.added side).sum =
      (Step.edges side (found rounds.flatten)).length :=
  List.countP_flatten.symm.trans (added_eq rounds.flatten side)

/-- Passes that each found something are not more than what they found. -/
theorem Round.length_le_sum {rounds : List Round} (h : ∀ round ∈ rounds, round.grew = true) :
    rounds.length ≤ (rounds.map fun round => round.added .first).sum +
      (rounds.map fun round => round.added .second).sum := by
  induction rounds with
  | nil => exact Nat.zero_le _
  | cons round rest ih =>
    have hround := (grew_iff round).mp (h round List.mem_cons_self)
    have hrest := ih fun other hother => h other (List.mem_cons_of_mem _ hother)
    rw [List.map_cons, List.map_cons, List.sum_cons, List.sum_cons, List.length_cons]
    omega

/-! ## What the journal tells -/

/-- Between two moments the journal has told these events of a survey, and perhaps others. -/
def Env.TellsOfSurvey (before after : Env) (events : List Event) : Prop :=
  ∃ told, after.journal = before.journal ++ told ∧ told.filter Event.isOfSurvey = events

namespace Env.TellsOfSurvey

variable {s t u : Env} {events later : List Event}

theorem refl (s : Env) : s.TellsOfSurvey s [] := ⟨[], (List.append_nil _).symm, rfl⟩

theorem trans (h : s.TellsOfSurvey t events) (hlater : t.TellsOfSurvey u later) :
    s.TellsOfSurvey u (events ++ later) := by
  obtain ⟨told, ht, rfl⟩ := h
  obtain ⟨told', hu, rfl⟩ := hlater
  exact ⟨told ++ told', by rw [hu, ht, List.append_assoc], List.filter_append told told'⟩

/-- What happens to anything but the journal is not told. -/
theorem congr {t' : Env} (h : s.TellsOfSurvey t events) (hjournal : t'.journal = t.journal) :
    s.TellsOfSurvey t' events := by
  unfold TellsOfSurvey
  rw [hjournal]
  exact h

theorem note (s : Env) (event : Event) :
    s.TellsOfSurvey (s.note event) ([event].filter Event.isOfSurvey) :=
  ⟨[event], rfl, rfl⟩

end Env.TellsOfSurvey

/-- An evaluation tells messages and calls of host functions only. -/
theorem tells_evaluate {context : Option String} {depth : Nat} {e : Expr} {env after : Env}
    {result : Except Fault Expr}
    (h : (evaluate context depth e).outcome env = some (result, after)) :
    env.TellsOfSurvey after [] := by
  have S := (Simulation.visible context).and (Q := fun _ now _ => env.TellsOfSurvey now [])
    (fun h _ => h.congr rfl) (fun h text => h.trans (.note _ (.message text)))
    (fun h name args => h.trans (.note _ (.hostCall name args context)))
    (fun h _ => h.congr rfl) (fun h => h.congr rfl)
  obtain ⟨_, _, _, htold⟩ := (S.follows_evaluate (Nat.le_refl depth) [] e).always h ⟨rfl, .refl env⟩
  exact htold

/-- A rule that is checked is told of once, with its tree and its verdict. -/
theorem tells_checkRule {context : Option String} {depth : Nat} {rule : String} {env after : Env}
    {holds : Bool} (h : (checkRule depth rule context).outcome env = some (.ok holds, after)) :
    env.TellsOfSurvey after [.verdict context
      ((RuleText.expr ⟨rule, env.config.allowTrailing⟩).toOption.getD .empty) holds] := by
  obtain ⟨tree, read, hread, h⟩ := ok_of_bind h
  obtain ⟨verdict, judged, hjudge, h⟩ := ok_of_bind h
  cases h
  have htree : RuleText.expr ⟨rule, env.config.allowTrailing⟩ = .ok tree ∧
      read.journal = env.journal := by
    rw [Check.outcome_readRule, env.fst_readRule] at hread
    cases hexpr : RuleText.expr ⟨rule, env.config.allowTrailing⟩ with
    | error error => rw [hexpr] at hread; cases hread
    | ok e => rw [hexpr] at hread; cases hread; exact ⟨rfl, rfl⟩
  have hjudged : env.TellsOfSurvey judged [] := by
    obtain ⟨inner, hinner, _⟩ := cases_of_mapError hjudge
    have htold : read.TellsOfSurvey judged [] := by
      rcases cases_of_bind hinner with ⟨value, mid, hvalue, htruth⟩ | ⟨fault, hfault, _⟩
      · cases htruth
        exact tells_evaluate hvalue
      · exact tells_evaluate hfault
    exact Env.TellsOfSurvey.trans ((Env.TellsOfSurvey.refl env).congr htree.2) htold
  rw [htree.1]
  exact hjudged.trans (.note judged _)

namespace Survey

variable {depth : Nat} {now after : Env} {rest : List Step} {round : Round} {rounds : List Round}

theorem config_of_keeps {α : Type} {act : Check α} (h : Keeps Env.settled act)
    {result : Except CheckError α} (ho : act.outcome now = some (result, after)) :
    after.config = now.config :=
  congrArg (fun env => env.config) (h now result after ho)

theorem tells_ask {step : Step} {verdict : Option Bool}
    (h : (ask (Judge.byLabel depth) step).outcome now = some (.ok verdict, after)) :
    now.TellsOfSurvey after (verdict.toList.map fun holds =>
      Round.verdict now.config (step, holds)) := by
  rw [ask, outcome_bind_ok (outcome_read _ now)] at h
  cases hknown : known step now with
  | true =>
    rw [hknown] at h
    cases h
    exact .refl _
  | false =>
    rw [hknown, if_neg (by decide)] at h
    obtain ⟨holds, judged, hjudge, h⟩ := ok_of_bind h
    rw [Judge.byLabel, outcome_bind_ok (outcome_read _ now)] at hjudge
    have htold := tells_checkRule hjudge
    cases holds with
    | false => cases h; exact htold
    | true => cases h; exact htold.congr (journal_record step judged)

theorem tells_pass (h : (pass (Judge.byLabel depth) rest).outcome now = some (.ok round, after)) :
    now.TellsOfSurvey after (round.map (Round.verdict now.config)) := by
  induction rest generalizing now round with
  | nil =>
    cases h
    exact .refl _
  | cons step rest ih =>
    obtain ⟨verdict, asked, hask, h⟩ := ok_of_bind h
    obtain ⟨later, mid, hpass, h⟩ := ok_of_bind h
    cases h
    have htold := ih hpass
    rw [config_of_keeps (keeps_ask (keeps_byLabel depth) step) hask] at htold
    have hboth := (tells_ask hask).trans htold
    cases verdict with
    | none => exact hboth
    | some holds => exact hboth

theorem tells_report {number : Nat} (h : (report number round).outcome now = some (.ok (), after)) :
    now.TellsOfSurvey after [.pass number [(now.config.contexts.first, round.added .first),
      (now.config.contexts.second, round.added .second)]] ∧ after.config = now.config := by
  cases h
  exact ⟨.note now _, rfl⟩

theorem tells_passes {left number : Nat}
    (h : (passes (Judge.byLabel depth) rest left number).outcome now = some (.ok rounds, after)) :
    now.TellsOfSurvey after (Round.trace now.config number rounds) := by
  induction left generalizing now number rounds with
  | zero => cases h
  | succ left ih =>
    obtain ⟨round, passed, hpass, h⟩ := ok_of_bind h
    obtain ⟨_, reported, hreport, h⟩ := ok_of_bind h
    obtain ⟨htold, hreported⟩ := tells_report hreport
    have hpassed := config_of_keeps (keeps_pass (keeps_byLabel depth) rest) hpass
    rw [hpassed] at htold hreported
    have hround : now.TellsOfSurvey reported (round.events now.config number) :=
      (tells_pass hpass).trans htold
    cases hgrew : round.grew with
    | false =>
      rw [hgrew] at h
      cases h
      exact hround.trans (.refl _)
    | true =>
      rw [hgrew] at h
      obtain ⟨later, mid, hlater, h⟩ := ok_of_bind h
      cases h
      have hrest := ih hlater
      rw [hreported] at hrest
      exact hround.trans hrest

theorem tells_build {env : Env} {regions : List Region} {root : Option String} {survey : Survey}
    (h : (build depth regions root).outcome env = some (.ok survey, after)) :
    env.TellsOfSurvey after (Round.trace env.config 1 survey.rounds) := by
  obtain ⟨_, _, hpublish, h⟩ := ok_of_bind h
  cases hpublish
  obtain ⟨rounds, passed, hpasses, h⟩ := ok_of_bind h
  cases h
  have htold := tells_passes hpasses
  exact htold

/-- A survey of regions that wastes nothing, by its report and by what was told of it. -/
structure Thrifty (env : Env) (regions : List Region) (root : Option String) (survey : Survey)
    (told : List Event) : Prop where
  /-- The passes begin with the bare graphs and end with those of the survey. Each goes through all
  steps, region by region, exit by exit and the first context before the second, and asks every step
  whose edge is missing when its turn comes, and no other. -/
  passes : ∃ last,
    Draft.Passes (rootFor env.config regions root) env (steps regions) (.bare regions)
      survey.rounds last ∧ survey.first = last.first ∧ survey.second = last.second
  /-- Every pass but the last one finds an edge, and the last one finds none. -/
  progress : ∃ front final, survey.rounds = front ++ [final] ∧
    (∀ round ∈ front, 0 < round.added .first + round.added .second) ∧
    final.added .first = 0 ∧ final.added .second = 0
  length_le : survey.rounds.length ≤ survey.first.edges.length + survey.second.edges.length + 1
  sum_added : ∀ side,
    (survey.rounds.map fun round => round.added side).sum = (survey.graph side).edges.length
  /-- The edges are those that steps have found, in this order. -/
  edges : ∀ side, (survey.graph side).edges = Step.edges side (Round.found survey.rounds.flatten)
  /-- No step is asked once its edge has been found. -/
  once : survey.rounds.flatten.Pairwise fun earlier later =>
    earlier.2 = true → ¬later.1.SameEdge earlier.1
  /-- No other rule was checked, and the counts of each pass are those told. -/
  told : told.filter Event.isOfSurvey = Round.trace env.config 1 survey.rounds

end Survey

open Draft

/-- Surveys come to an end and waste nothing. If every rule that is asked gets a verdict, the survey
ends, in the same way from some depth on. Whatever survey has ended, at whatever depth, it is
thrifty, by its report and by what was told of it since it began. -/
theorem surveys_thrifty (env : Env) (regions : List Region) (root : Option String) :
    (Decided (Survey.rootFor env.config regions root) env (Survey.steps regions) (bare regions) →
      ∃ enough survey, ∀ depth ≥ enough, ∃ after,
        (Survey.build depth regions root).outcome env = some (.ok survey, after)) ∧
    ∀ depth survey after, (Survey.build depth regions root).outcome env = some (.ok survey, after) →
      ∃ told, after.journal = env.journal ++ told ∧
      Survey.Thrifty env regions root survey told := by
  refine ⟨Survey.build_of_decided, fun depth survey after h => ?_⟩
  obtain ⟨told, hjournal, htold⟩ := Survey.tells_build h
  obtain ⟨last, hpasses, hfirst, hsecond, _⟩ := passes_of_build h
  have hedges (side : Side) : (survey.graph side).edges =
      Step.edges side (Round.found survey.rounds.flatten) := by
    have hgraph : survey.graph side = last.graph side := by
      cases side with
      | first => exact hfirst
      | second => exact hsecond
    rw [hgraph, hpasses.edges, edges_bare, List.nil_append]
  have hsum (side : Side) :
      (survey.rounds.map fun round => round.added side).sum = (survey.graph side).edges.length := by
    rw [Round.sum_added, hedges]
  obtain ⟨front, final, hrounds, hfront, hfinal⟩ := hpasses.progress
  have hnone : ¬0 < final.added .first + final.added .second := by
    rw [← Round.grew_iff, hfinal]
    decide
  refine ⟨told, hjournal, ⟨last, hpasses, hfirst, hsecond⟩,
    ⟨front, final, hrounds, ?_, by omega, by omega⟩, ?_, hsum, hedges, hpasses.once, htold⟩
  · exact fun round hround => (Round.grew_iff round).mp (hfront round hround)
  · have hlength := Round.length_le_sum hfront
    have hfirst := hsum .first
    have hsecond := hsum .second
    rw [hrounds, List.map_append, List.sum_append] at hfirst hsecond
    rw [hrounds, List.length_append, List.length_singleton]
    show _ ≤ (survey.graph .first).edges.length + (survey.graph .second).edges.length + 1
    omega

/-- Three exits, two of which lead from one place to the same other one, in regions of one name. The
tower is asked about once more for an adult and not at all for a child; the well takes a second
pass, and an adult is refused it three times. -/
theorem surveys_thrifty_shared_exit :
    let env : Env := .fresh {} Env.builtins Env.noHosts
    let regions : List Region :=
      [⟨"yard", "", [⟨"well", "at(\"tower\", TRUE)", "FALSE"⟩,
        ⟨"tower", "TRUE", "AGE == \"CHILD\""⟩], []⟩,
       ⟨"yard", "", [⟨"tower", "FALSE", "TRUE"⟩], []⟩]
    Decided (some "yard") env (Survey.steps regions) (bare regions) ∧
    (∃ enough survey, ∀ depth ≥ enough, ∃ after,
      (Survey.build depth regions none).outcome env = some (.ok survey, after)) ∧
    ∃ survey after, (Survey.build 8 regions none).outcome env = some (.ok survey, after) ∧
      Survey.Thrifty env regions none survey after.journal ∧
      survey.rounds.map (fun round => (round.added .first, round.added .second)) =
        [(1, 1), (1, 0), (0, 0)] ∧
      survey.rounds.flatten.map (fun asked => (asked.1.side, asked.1.destination, asked.2)) =
        [(.first, "well", false), (.second, "well", false), (.first, "tower", true),
          (.second, "tower", false), (.second, "tower", true), (.first, "well", true),
          (.second, "well", false), (.second, "well", false)] := by
  intro env regions
  have htrue : env.PlainRule "TRUE" := by
    have hread : RuleText.expr ⟨"TRUE", false⟩ = .ok (.bool true) := by rfl
    exact ⟨_, hread, .bool true⟩
  have hfalse : env.PlainRule "FALSE" := by
    have hread : RuleText.expr ⟨"FALSE", false⟩ = .ok (.bool false) := by rfl
    exact ⟨_, hread, .bool false⟩
  have hchild : env.PlainRule "AGE == \"CHILD\"" := by
    have hread : RuleText.expr ⟨"AGE == \"CHILD\"", false⟩ =
        .ok (.binary .equal (.var "AGE") (.text "CHILD")) := by rfl
    exact ⟨_, hread, .selector "CHILD" fun side => by cases side <;> rfl⟩
  have htower : env.PlainRule "at(\"tower\", TRUE)" := by
    have hread : RuleText.expr ⟨"at(\"tower\", TRUE)", false⟩ =
        .ok (.call (.var "at") (.binary .sequence (.text "tower") (.bool true))) := by rfl
    exact ⟨_, hread, .atPlace (fun side => by cases side <;> rfl) rfl (.bool true)⟩
  have hplain : ∀ region ∈ regions, ∀ exit ∈ region.exits, ∀ side,
      env.PlainRule (exit.rule side) := by
    have hall (first second : String) (hfirst : env.PlainRule first)
        (hsecond : env.PlainRule second) (place : String) (side : Side) :
        env.PlainRule (Exit.rule ⟨place, first, second⟩ side) := by
      cases side with
      | first => exact hfirst
      | second => exact hsecond
    simp only [regions, List.forall_mem_cons, List.not_mem_nil, false_implies,
      implies_true, and_true]
    exact ⟨⟨hall _ _ htower hfalse _, hall _ _ htrue hchild _⟩, hall _ _ hfalse htrue _⟩
  have hdecided : Decided (some "yard") env (Survey.steps regions) (bare regions) :=
    (steady_of_plain (some "yard") hplain).decided_from (coherent_bare regions)
  have hrun : (((Survey.build 8 regions none).outcome env).bind
      fun ended => ended.1.toOption.map fun survey =>
        (survey.rounds.map fun round => (round.added .first, round.added .second),
          survey.rounds.flatten.map fun asked => (asked.1.side, asked.1.destination, asked.2))) =
      some ([(1, 1), (1, 0), (0, 0)],
        [(.first, "well", false), (.second, "well", false), (.first, "tower", true),
          (.second, "tower", false), (.second, "tower", true), (.first, "well", true),
          (.second, "well", false), (.second, "well", false)]) := by
    decide +kernel
  obtain ⟨survey, after, hbuild, hseen⟩ := Action.ok_of_seen hrun
  obtain ⟨hcounts, hasked⟩ := Prod.mk.inj hseen
  obtain ⟨hends, hthrifty⟩ := surveys_thrifty env regions none
  obtain ⟨told, hjournal, hsurvey⟩ := hthrifty 8 survey after hbuild
  obtain rfl : after.journal = told := hjournal
  exact ⟨hdecided, hends hdecided, survey, after, hbuild, hsurvey, hcounts, hasked⟩

end Passage
