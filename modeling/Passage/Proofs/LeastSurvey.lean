import Mathlib.Data.List.Forall2
import Mathlib.Order.Bounds.Basic
import Mathlib.Order.BoundedOrder.Basic
import Passage.Proofs.Endings
import Passage.Proofs.PlainRules

/-!
# Least surveys

Where rules come to a verdict against any draft, and keep holding when the draft gets more edges, a
survey comes to an end and finds the least edges under which no exit is left whose rule holds and
whose edge is missing. Nothing in this description depends on the order of regions and exits, so
neither do the edges. Plain rules are of this kind.
-/
namespace Passage

namespace Draft

/-- The edges of both graphs, without their order. -/
def edgeSets (draft : Draft) : Set (String × String) × Set (String × String) :=
  ({edge | edge ∈ draft.first.edges}, {edge | edge ∈ draft.second.edges})

/-- No exit is left whose rule holds and whose edge is missing. -/
def Closed (root : Option String) (env : Env) (regions : List Region) (draft : Draft) : Prop :=
  ∀ region ∈ regions, ∀ exit ∈ region.exits, ∀ side,
    (draft.publish root env).Checks (some (env.config.contexts.label side))
      (exit.rule side) (.ok true) →
      (region.id, exit.destination) ∈ (draft.graph side).edges

/-- The rules of some steps come to a verdict against any draft, and keep holding when it grows. -/
structure Steady (root : Option String) (env : Env) (steps : List Step) : Prop where
  decided : ∀ draft : Draft, draft.Coherent → ∀ step ∈ steps,
    ∃ holds, draft.Verdict root env step holds
  kept : ∀ draft larger : Draft, draft.Coherent → larger.Coherent →
    draft.edgeSets ≤ larger.edgeSets →
    ∀ step ∈ steps, draft.Verdict root env step true → larger.Verdict root env step true

variable {draft larger last bound : Draft} {root : Option String} {env : Env} {step : Step}
  {steps rest : List Step} {round : Round} {rounds : List Round} {regions regions' : List Region}

theorem edgeSets_le_iff : draft.edgeSets ≤ larger.edgeSets ↔ draft.Below larger := by
  constructor
  · intro h side edge hedge
    cases side with
    | first => exact h.1 hedge
    | second => exact h.2 hedge
  · intro h
    exact ⟨fun edge hedge => h .first edge hedge, fun edge hedge => h .second edge hedge⟩

theorem closed_iff (hcoherent : draft.Coherent) : draft.Closed root env regions ↔
    ∀ step ∈ Survey.steps regions, draft.Verdict root env step true → draft.knows step = true := by
  constructor
  · intro h step hstep hverdict
    obtain ⟨region, hregion, exit, hexit, side, rfl⟩ := Survey.mem_steps.mp hstep
    exact (hcoherent side _ _).mp (h region hregion exit hexit side hverdict)
  · intro h region hregion exit hexit side hverdict
    have hstep := Survey.mem_steps.mpr ⟨region, hregion, exit, hexit, side, rfl⟩
    exact (hcoherent side _ _).mpr (h _ hstep hverdict)

/-! ## A survey comes to an end -/

/-- Rules that come to a verdict against any draft do so wherever they are asked. -/
theorem Steady.decided_from (hsteady : Steady root env steps) {start : Draft}
    (hcoherent : start.Coherent) : Decided root env steps start :=
  fun draft step _ h _ => hsteady.decided draft (h.coherent hcoherent) step
    (h.subset List.mem_cons_self)

/-! ## It finds the least edges -/

/-- What grows from a draft below a closed one stays below it. -/
theorem Grows.below_closed {history : List Step}
    (h : Grows root env (Survey.steps regions) draft history last)
    (hsteady : Steady root env (Survey.steps regions)) (hcoherent : draft.Coherent)
    (hbound : bound.Coherent) (hclosed : bound.Closed root env regions) (hle : draft.Below bound) :
    last.Below bound := by
  have hboth : last.Coherent ∧ last.Below bound := by
    refine h.invariant (P := fun d => d.Coherent ∧ d.Below bound) ?_ ⟨hcoherent, hle⟩
    intro d hd step hstep hverdict
    obtain ⟨hd, hbelow⟩ := hd
    refine ⟨hd.add step, fun side edge hedge => ?_⟩
    rcases mem_edges_add hedge with hold | ⟨rfl, rfl⟩
    · exact hbelow side edge hold
    · have hkept := hsteady.kept d bound hd hbound (edgeSets_le_iff.mpr hbelow) step hstep hverdict
      have hknown := (closed_iff hbound).mp hclosed step hstep hkept
      exact (hbound step.side _ _).mpr hknown
  exact hboth.2

theorem Passes.closed (h : Passes root env (Survey.steps regions) draft rounds last)
    (hcoherent : last.Coherent) : last.Closed root env regions := by
  rw [closed_iff hcoherent]
  intro step hstep hverdict
  cases hknown : last.knows step with
  | true => rfl
  | false => cases hverdict.unique (h.stable step hstep hknown)

/-- The edges of the drafts under which no exit is left whose rule holds and whose edge is
missing. -/
def closedEdges (root : Option String) (env : Env) (regions : List Region) :
    Set (Set (String × String) × Set (String × String)) :=
  {edges | ∃ draft : Draft, draft.Coherent ∧ draft.Closed root env regions ∧ draft.edgeSets = edges}

theorem isLeast_of_passes (hsteady : Steady root env (Survey.steps regions))
    (h : Passes root env (Survey.steps regions) (bare regions) rounds last) :
    IsLeast (closedEdges root env regions) last.edgeSets := by
  obtain ⟨history, hgrows⟩ := h.grows
  have hcoherent : last.Coherent := hgrows.coherent (coherent_bare regions)
  constructor
  · exact ⟨last, hcoherent, h.closed hcoherent, rfl⟩
  · intro edges hedges
    obtain ⟨bound, hbound, hclosed, rfl⟩ := hedges
    rw [edgeSets_le_iff]
    refine hgrows.below_closed hsteady (coherent_bare regions) hbound hclosed ?_
    intro side edge hedge
    rw [edges_bare] at hedge
    cases hedge

theorem steady_of_plain (root : Option String)
    (h : ∀ region ∈ regions, ∀ exit ∈ region.exits, ∀ side, env.PlainRule (exit.rule side)) :
    Steady root env (Survey.steps regions) := by
  have hplain : ∀ step ∈ Survey.steps regions, env.PlainRule step.rule := by
    intro step hstep
    obtain ⟨region, hregion, exit, hexit, side, rfl⟩ := Survey.mem_steps.mp hstep
    exact h region hregion exit hexit side
  constructor
  · intro draft hdraft step hstep
    obtain ⟨holds, _, hverdict, _, _⟩ := plain_verdict (hplain step hstep) (.refl env) hdraft hdraft
      (fun _ _ hedge => hedge) root step.side
    exact ⟨holds, hverdict⟩
  · intro draft larger hdraft hlarger hle step hstep hverdict
    obtain ⟨holds, holds', hbelow, habove, himp⟩ :=
      plain_verdict (hplain step hstep) (.refl env) hdraft
      hlarger (edgeSets_le_iff.mp hle) root step.side
    cases hverdict.unique hbelow
    rw [himp rfl] at habove
    exact habove

end Draft

open Draft

def Survey.edgeSets (survey : Survey) : Set (String × String) × Set (String × String) :=
  Draft.edgeSets ⟨survey.first, survey.second⟩

/-- The same regions in another order, each with the same exits in another order. -/
def Region.Shuffled (regions regions' : List Region) : Prop :=
  ∃ middle, regions.Perm middle ∧
    List.Forall₂ (fun r r' => r.id = r'.id ∧ r.exits.Perm r'.exits) middle regions'

theorem Region.Shuffled.mem_steps {regions regions' : List Region}
    (h : Region.Shuffled regions regions')
    (step : Step) : step ∈ Survey.steps regions ↔ step ∈ Survey.steps regions' := by
  obtain ⟨middle, hperm, hmembers⟩ := h
  have hmiddle : step ∈ Survey.steps regions ↔ step ∈ Survey.steps middle :=
    (hperm.flatMap_right Region.steps).mem_iff
  rw [hmiddle]
  clear hperm hmiddle
  induction hmembers with
  | nil => exact Iff.rfl
  | @cons region region' rest rest' hregion _ ih =>
    obtain ⟨hid, hexits⟩ := hregion
    have hsteps : step ∈ region.steps ↔ step ∈ region'.steps := by
      rw [Region.steps, Region.steps, hid]
      exact (hexits.flatMap_right _).mem_iff
    show step ∈ region.steps ++ Survey.steps rest ↔ step ∈ region'.steps ++ Survey.steps rest'
    rw [List.mem_append, List.mem_append]
    exact or_congr hsteps ih

namespace Draft

theorem Steady.of_shuffled {root : Option String} {env : Env} {regions regions' : List Region}
    (h : Steady root env (Survey.steps regions)) (hshuffled : Region.Shuffled regions regions') :
    Steady root env (Survey.steps regions') where
  decided draft hdraft step hstep :=
    h.decided draft hdraft step ((hshuffled.mem_steps step).mpr hstep)
  kept draft larger hdraft hlarger hle step hstep :=
    h.kept draft larger hdraft hlarger hle step ((hshuffled.mem_steps step).mpr hstep)

theorem closedEdges_of_shuffled {regions regions' : List Region} (root : Option String) (env : Env)
    (hshuffled : Region.Shuffled regions regions') :
    closedEdges root env regions = closedEdges root env regions' := by
  have hiff (draft : Draft) (hdraft : draft.Coherent) :
      draft.Closed root env regions ↔ draft.Closed root env regions' := by
    rw [closed_iff hdraft, closed_iff hdraft]
    constructor
    · intro h step hstep
      exact h step ((hshuffled.mem_steps step).mpr hstep)
    · intro h step hstep
      exact h step ((hshuffled.mem_steps step).mp hstep)
  ext edges
  constructor
  · intro h
    obtain ⟨draft, hdraft, hclosed, hedges⟩ := h
    exact ⟨draft, hdraft, (hiff draft hdraft).mp hclosed, hedges⟩
  · intro h
    obtain ⟨draft, hdraft, hclosed, hedges⟩ := h
    exact ⟨draft, hdraft, (hiff draft hdraft).mpr hclosed, hedges⟩

end Draft

namespace Survey

variable {env : Env} {root : Option String} {regions : List Region}

theorem build_of_steady (h : Steady (rootFor env.config regions root) env (steps regions)) :
    ∃ enough, ∀ depth ≥ enough, ∃ survey after,
      (build depth regions root).outcome env = some (.ok survey, after) := by
  obtain ⟨enough, survey, hbuild⟩ := build_of_decided (h.decided_from (coherent_bare regions))
  exact ⟨enough, fun depth hdepth => ⟨survey, hbuild depth hdepth⟩⟩

theorem isLeast_of_build (h : Steady (rootFor env.config regions root) env (steps regions))
    {depth : Nat} {survey : Survey} {after : Env}
    (ho : (build depth regions root).outcome env = some (.ok survey, after)) :
    IsLeast (closedEdges (rootFor env.config regions root) env regions) survey.edgeSets := by
  obtain ⟨last, hpasses, hfirst, hsecond, _⟩ := passes_of_build ho
  rw [edgeSets, hfirst, hsecond]
  exact isLeast_of_passes h hpasses

end Survey

/-- Where rules are steady, the survey comes to an end from some depth on, and the edges that it
finds are the least closed ones. The same regions in another order, from the same root, have a
survey as well, and it finds the same edges. Plain rules are steady. -/
theorem survey_least :
    (∀ env regions root, Steady (Survey.rootFor env.config regions root) env
      (Survey.steps regions) →
      (∃ enough, ∀ depth ≥ enough, ∃ survey after,
        (Survey.build depth regions root).outcome env = some (.ok survey, after)) ∧
      ∀ depth survey after, (Survey.build depth regions root).outcome env =
        some (.ok survey, after) →
        IsLeast (closedEdges (Survey.rootFor env.config regions root) env regions)
          survey.edgeSets) ∧
    (∀ env regions root, Steady (Survey.rootFor env.config regions root) env
      (Survey.steps regions) → ∀ regions' root', Region.Shuffled regions regions' →
        Survey.rootFor env.config regions' root' = Survey.rootFor env.config regions root →
          (∃ enough, ∀ depth ≥ enough, ∃ survey' after',
            (Survey.build depth regions' root').outcome env = some (.ok survey', after')) ∧
          ∀ depth survey after depth' survey' after',
            (Survey.build depth regions root).outcome env = some (.ok survey, after) →
            (Survey.build depth' regions' root').outcome env = some (.ok survey', after') →
              survey.edgeSets = survey'.edgeSets) ∧
    ∀ env regions root,
      (∀ region ∈ regions, ∀ exit ∈ region.exits, ∀ side, env.PlainRule (exit.rule side)) →
        Steady root env (Survey.steps regions) := by
  refine ⟨?_, ?_, fun env regions root h => steady_of_plain root h⟩
  · intro env regions root hsteady
    refine ⟨Survey.build_of_steady hsteady, fun depth survey after ho => ?_⟩
    exact Survey.isLeast_of_build hsteady ho
  · intro env regions root hsteady regions' root' hshuffled hroot
    have hsteady' := hsteady.of_shuffled hshuffled
    rw [← hroot] at hsteady'
    refine ⟨Survey.build_of_steady hsteady', ?_⟩
    intro depth survey after depth' survey' after' ho ho'
    have hleast := Survey.isLeast_of_build hsteady ho
    have hleast' := Survey.isLeast_of_build hsteady' ho'
    rw [hroot, ← closedEdges_of_shuffled _ env hshuffled] at hleast'
    exact hleast.unique hleast'

/-- The well can be reached once the tower is. Asked in the other order this takes one pass less,
and the edges come in another order. -/
theorem survey_least_both_orders :
    let env : Env := .fresh {} (Env.builtins.insert "bridge" (.bool true)) Env.noHosts
    let toWell : Exit := ⟨"well", "at(\"tower\", bridge)", "AGE == \"CHILD\""⟩
    let toTower : Exit := ⟨"tower", "bridge AND TRUE", "FALSE OR at(\"well\", TRUE)"⟩
    let regions : List Region := [⟨"yard", "", [toWell, toTower], []⟩, ⟨"tower", "", [], []⟩]
    let regions' : List Region := [⟨"tower", "", [], []⟩, ⟨"yard", "", [toTower, toWell], []⟩]
    ∃ survey after survey' after',
      (Survey.build 8 regions none).outcome env = some (.ok survey, after) ∧
      (Survey.build 8 regions' (some "yard")).outcome env = some (.ok survey', after') ∧
      survey.first.edges = [("yard", "tower"), ("yard", "well")] ∧
      survey'.second.edges = [("yard", "tower")] ∧
      IsLeast (closedEdges (some "yard") env regions) survey.edgeSets ∧
      survey.edgeSets = survey'.edgeSets := by
  intro env toWell toTower regions regions'
  have hbridge : env.Plain (.var "bridge") := by
    refine .flag (b := true) fun side => ?_
    cases side <;> rfl
  have hat (side : Side) : env.lookup "at" (some (env.config.contexts.label side)) =
      .ok (.native .atPlace) := by
    cases side <;> rfl
  have hchild : env.Plain (.binary .equal (.var "AGE") (.text "CHILD")) :=
    .selector "CHILD" fun side => by cases side <;> rfl
  have hplain : ∀ region ∈ regions, ∀ exit ∈ region.exits, ∀ side,
      env.PlainRule (exit.rule side) := by
    have hwell (side : Side) : env.PlainRule (toWell.rule side) := by
      cases side with
      | first =>
        have hread : RuleText.expr ⟨"at(\"tower\", bridge)", false⟩ =
          .ok (.call (.var "at") (.binary .sequence (.text "tower") (.var "bridge"))) := by rfl
        exact ⟨_, hread, .atPlace hat rfl hbridge⟩
      | second =>
        have hread : RuleText.expr ⟨"AGE == \"CHILD\"", false⟩ =
          .ok (.binary .equal (.var "AGE") (.text "CHILD")) := by rfl
        exact ⟨_, hread, hchild⟩
    have htower (side : Side) : env.PlainRule (toTower.rule side) := by
      cases side with
      | first =>
        have hread : RuleText.expr ⟨"bridge AND TRUE", false⟩ =
          .ok (.binary .and (.var "bridge") (.bool true)) := by rfl
        exact ⟨_, hread, .and hbridge (.bool true)⟩
      | second =>
        have hread : RuleText.expr ⟨"FALSE OR at(\"well\", TRUE)", false⟩ =
          .ok (.binary .or (.bool false)
            (.call (.var "at") (.binary .sequence (.text "well") (.bool true)))) := by rfl
        exact ⟨_, hread, .or (.bool false) (.atPlace hat rfl (.bool true))⟩
    simp only [regions, List.forall_mem_cons, List.not_mem_nil, false_implies,
      implies_true, and_true]
    exact ⟨hwell, htower⟩
  have hsteady := survey_least.2.2 env regions (some "yard") hplain
  have hshuffled : Region.Shuffled regions regions' :=
    ⟨_, .swap _ _ _, .cons ⟨rfl, .refl _⟩ (.cons ⟨rfl, .swap _ _ _⟩ .nil)⟩
  have hrun : (((Survey.build 8 regions none).outcome env).bind
      fun (result, _) => result.toOption.map fun survey => survey.first.edges) =
      some [("yard", "tower"), ("yard", "well")] := by
    decide +kernel
  have hrun' : (((Survey.build 8 regions' (some "yard")).outcome env).bind
      fun (result, _) => result.toOption.map fun survey => survey.second.edges) =
      some [("yard", "tower")] := by
    decide +kernel
  obtain ⟨survey, after, hbuild, hfirst⟩ := Action.ok_of_seen hrun
  obtain ⟨survey', after', hbuild', hsecond⟩ := Action.ok_of_seen hrun'
  refine ⟨survey, after, survey', after', hbuild, hbuild', hfirst, hsecond, ?_, ?_⟩
  · exact (survey_least.1 env regions none hsteady).2 8 survey after hbuild
  · exact (survey_least.2.1 env regions none hsteady regions' (some "yard") hshuffled rfl).2
      8 survey after 8 survey' after' hbuild hbuild'

end Passage
