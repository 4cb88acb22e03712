import Mathlib.Data.List.Flatten
import Mathlib.Tactic.Choose
import Passage.Proofs.LeastSurvey

/-!
# Granted items

Where rules are plain, granting an item loses nothing: no edge, no region within reach and nothing
that can be had. The edges that are found with the item leave no exit open without it, and those
found without it are the least ones of that kind, so the two surveys need not be followed side by
side. The things in reach are then more, and so are those among them whose rules hold.
-/
namespace Passage

open Passage.Action

/-- The exits of the regions and the things in them have plain rules. -/
structure Env.PlainRegions (env : Env) (regions : List Region) : Prop where
  exits : ∀ region ∈ regions, ∀ exit ∈ region.exits, ∀ side, env.PlainRule (exit.rule side)
  things : ∀ region ∈ regions, ∀ thing ∈ region.obtainables, env.PlainRule thing.rule

theorem Env.Grants.plainRegions {s t : Env} (h : s.Grants t) {regions : List Region}
    (hplain : s.PlainRegions regions) : t.PlainRegions regions where
  exits region hregion exit hexit side := h.plainRule (hplain.exits region hregion exit hexit side)
  things region hregion thing hthing := h.plainRule (hplain.things region hregion thing hthing)

/-- A test that the members pass more easily leaves more of them. -/
theorem filter_sublist_filter {α : Type} {p q : α → Bool} {list : List α}
    (h : ∀ x ∈ list, p x = true → q x = true) : (list.filter p).Sublist (list.filter q) := by
  have hboth : list.filter p = (list.filter q).filter p := by
    rw [List.filter_filter]
    refine List.filter_congr fun x hx => ?_
    cases hp : p x with
    | false => rfl
    | true => rw [h x hx hp]; rfl
  rw [hboth]
  exact List.filter_sublist

/-- The things in those of the regions that are found from a start. -/
def Graph.things (g : Graph) (regions : List Region) (start : String) : List Obtainable :=
  (regions.filter fun region => g.canReach start region.id).flatMap Region.obtainables

namespace Graph

variable {g g' : Graph} {regions : List Region} {start : String}

theorem mem_things {thing : Obtainable} (h : thing ∈ g.things regions start) :
    ∃ region ∈ regions, thing ∈ region.obtainables := by
  obtain ⟨region, hregion, hthing⟩ := List.mem_flatMap.mp h
  exact ⟨region, List.mem_of_mem_filter hregion, hthing⟩

theorem things_sublist (h : g.reachable start ⊆ g'.reachable start) :
    (g.things regions start).Sublist (g'.things regions start) := by
  refine List.Sublist.flatMap (filter_sublist_filter fun region _ hreach => ?_) _
  rw [canReach, List.contains_iff_mem] at hreach ⊢
  exact h hreach

theorem reachable_subset (h : ∀ source destination, g.Leads source destination →
    g'.Leads source destination) (start : String) : g.reachable start ⊆ g'.reachable start := by
  intro region hregion
  rw [← List.contains_iff_mem] at hregion ⊢
  exact canReach_mono h hregion

end Graph

namespace Draft

variable {draft larger : Draft} {root : Option String} {env s t : Env} {context : Option String}
  {regions : List Region}

theorem runs_checkRule {rule : String} {holds : Bool}
    (h : (draft.publish root env).Checks context rule (.ok holds)) :
    Runs root env draft (fun depth => checkRule depth rule context) holds draft := by
  obtain ⟨enough, mid, ho⟩ := h
  refine ⟨enough, fun depth hdepth now hshown => ?_⟩
  obtain ⟨after, hafter, hseen⟩ := checkRule_visible hdepth (Eq.symm hshown) ho
  exact ⟨after, hafter, hseen.trans hshown⟩

/-- Those of the things are listed whose rules hold. -/
theorem runs_holding {things : List Obtainable} {verdict : Obtainable → Bool}
    (h : ∀ thing ∈ things, (draft.publish root env).Checks context thing.rule
      (.ok (verdict thing))) :
    Runs root env draft (fun depth => holding depth context things)
      ((things.filter verdict).map Obtainable.id) draft := by
  induction things with
  | nil => exact runs_pure draft []
  | cons thing rest ih =>
    have hthing := runs_checkRule (h thing List.mem_cons_self)
    have hrest := ih fun other hother => h other (List.mem_cons_of_mem _ hother)
    have hids : ((thing :: rest).filter verdict).map Obtainable.id =
        if verdict thing then thing.id :: (rest.filter verdict).map Obtainable.id
        else (rest.filter verdict).map Obtainable.id := by
      rw [List.filter_cons]
      split
      · rfl
      · rfl
    rw [hids]
    exact hthing.bind (hrest.bind (runs_pure draft _))

/-- A draft that is closed with more flags granted is closed with fewer. -/
theorem Closed.of_grants (hgrants : s.Grants t) (hplain : s.PlainRegions regions)
    (hcoherent : draft.Coherent) (h : draft.Closed root t regions) :
    draft.Closed root s regions := by
  intro region hregion exit hexit side hholds
  obtain ⟨b, b', hbelow, habove, himp⟩ :=
    plain_verdict (hplain.exits region hregion exit hexit side)
    hgrants hcoherent hcoherent (fun _ _ hedge => hedge) root side
  cases hholds.unique hbelow
  rw [himp rfl, ← hgrants.config] at habove
  exact h region hregion exit hexit side habove

theorem closedEdges_of_grants (hgrants : s.Grants t) (hplain : s.PlainRegions regions)
    (root : Option String) : closedEdges root t regions ⊆ closedEdges root s regions := by
  intro edges hedges
  obtain ⟨draft, hcoherent, hclosed, rfl⟩ := hedges
  exact ⟨draft, hcoherent, hclosed.of_grants hgrants hplain hcoherent, rfl⟩

/-- What can be had against a draft can be had, with flags granted, against one with more edges. -/
theorem available_of_grants (hgrants : s.Grants t) (hplain : s.PlainRegions regions)
    (hdraft : draft.Coherent) (hlarger : larger.Coherent) (hle : draft.Below larger)
    {now now' : Env} (hnow : draft.Shown root s now) (hnow' : larger.Shown root t now')
    (side : Side) (start : String) :
    ∃ ids ids' : List String, ids.Sublist ids' ∧ ∃ enough, ∀ depth ≥ enough,
      (∃ final, (available depth regions (draft.graph side) start
        (some (s.config.contexts.label side))).outcome now = some (.ok ids, final)) ∧
      ∃ final', (available depth regions (larger.graph side) start
        (some (t.config.contexts.label side))).outcome now' = some (.ok ids', final') := by
  have hverdicts (thing : Obtainable) (hthing : ∃ region ∈ regions, thing ∈ region.obtainables) :
      ∃ b b' : Bool,
        (draft.publish root s).Checks (some (s.config.contexts.label side)) thing.rule (.ok b) ∧
        (larger.publish root t).Checks (some (s.config.contexts.label side)) thing.rule (.ok b') ∧
        (b = true → b' = true) := by
    obtain ⟨region, hregion, hmem⟩ := hthing
    exact plain_verdict (hplain.things region hregion thing hmem) hgrants hdraft
      hlarger hle root side
  choose! verdict verdict' hbelow habove himp using hverdicts
  rw [← hgrants.config] at habove
  have hthings : ((draft.graph side).things regions start).Sublist
      ((larger.graph side).things regions start) :=
    Graph.things_sublist (Graph.reachable_subset (fun _ _ => hle.leads hdraft hlarger side) start)
  have hids : ((((draft.graph side).things regions start).filter verdict).map Obtainable.id).Sublist
      ((((larger.graph side).things regions start).filter verdict').map Obtainable.id) := by
    refine ((hthings.filter verdict).trans (filter_sublist_filter fun thing hthing => ?_)).map _
    exact himp thing (Graph.mem_things hthing)
  obtain ⟨enough, hruns⟩ := runs_holding fun thing
    (hthing : thing ∈ (draft.graph side).things regions start) =>
      hbelow thing (Graph.mem_things hthing)
  obtain ⟨enough', hruns'⟩ := runs_holding fun thing
    (hthing : thing ∈ (larger.graph side).things regions start) =>
      habove thing (Graph.mem_things hthing)
  refine ⟨_, _, hids, max enough enough', fun depth hdepth => ⟨?_, ?_⟩⟩
  · obtain ⟨final, ho, _⟩ := hruns depth (by omega) now hnow
    exact ⟨final, ho⟩
  · obtain ⟨final', ho', _⟩ := hruns' depth (by omega) now' hnow'
    exact ⟨final', ho'⟩

end Draft

namespace Survey

variable {env after : Env} {regions : List Region} {root : Option String} {depth : Nat}
  {survey : Survey}

/-- The graphs of a finished survey are those of a draft that is shown afterwards. -/
theorem exists_draft (ho : (build depth regions root).outcome env = some (.ok survey, after)) :
    ∃ last : Draft, last.Coherent ∧ last.Shown (rootFor env.config regions root) env after ∧
      survey.edgeSets = last.edgeSets ∧ ∀ side, survey.graph side = last.graph side := by
  obtain ⟨last, hpasses, hfirst, hsecond, hshown⟩ := Draft.passes_of_build ho
  obtain ⟨history, hgrows⟩ := hpasses.grows
  refine ⟨last, hgrows.coherent (Draft.coherent_bare regions), hshown, ?_, fun side => ?_⟩
  · rw [edgeSets, hfirst, hsecond]
  · cases side with
    | first => exact hfirst
    | second => exact hsecond

end Survey

open Draft

/-- Where the rules of the regions are plain, flags that are granted lose nothing. With and without
them the survey comes to an end, from some depth on. For each of the contexts every edge that is
found without them is found with them, every region that can be reached from a start still can, and
the things that can be had there are listed in the same order, with others between them. -/
theorem grants_lose_nothing {s t : Env} (hgrants : s.Grants t) {regions : List Region}
    (hplain : s.PlainRegions regions) (root : Option String) :
    (∃ enough, ∀ depth ≥ enough, ∃ survey after survey' after',
      (Survey.build depth regions root).outcome s = some (.ok survey, after) ∧
      (Survey.build depth regions root).outcome t = some (.ok survey', after')) ∧
    ∀ depth survey after depth' survey' after',
      (Survey.build depth regions root).outcome s = some (.ok survey, after) →
      (Survey.build depth' regions root).outcome t = some (.ok survey', after') →
      ∀ side, (survey.graph side).edges ⊆ (survey'.graph side).edges ∧
        ∀ start, (survey.graph side).reachable start ⊆ (survey'.graph side).reachable start ∧
          ∃ ids ids' : List String, ids.Sublist ids' ∧ ∃ enough, ∀ depth ≥ enough,
            (∃ final, (available depth regions (survey.graph side) start
              (some (s.config.contexts.label side))).outcome after = some (.ok ids, final)) ∧
            ∃ final', (available depth regions (survey'.graph side) start
              (some (t.config.contexts.label side))).outcome after' = some (.ok ids', final') := by
  have hsteady (root : Option String) := steady_of_plain root hplain.exits
  have hsteady' (root : Option String) := steady_of_plain root (hgrants.plainRegions hplain).exits
  constructor
  · obtain ⟨enough, hbuild⟩ :=
      Survey.build_of_steady (hsteady (Survey.rootFor s.config regions root))
    obtain ⟨enough', hbuild'⟩ :=
      Survey.build_of_steady (hsteady' (Survey.rootFor t.config regions root))
    refine ⟨max enough enough', fun depth hdepth => ?_⟩
    obtain ⟨survey, after, ho⟩ := hbuild depth (by omega)
    obtain ⟨survey', after', ho'⟩ := hbuild' depth (by omega)
    exact ⟨survey, after, survey', after', ho, ho'⟩
  · intro depth survey after depth' survey' after' ho ho' side
    have hleast := Survey.isLeast_of_build (hsteady (Survey.rootFor s.config regions root)) ho
    have hleast' := Survey.isLeast_of_build (hsteady' (Survey.rootFor t.config regions root)) ho'
    obtain ⟨last, hcoherent, hshown, hedges, hgraph⟩ := Survey.exists_draft ho
    obtain ⟨last', hcoherent', hshown', hedges', hgraph'⟩ := Survey.exists_draft ho'
    rw [hgrants.config] at hleast' hshown'
    have hle : survey.edgeSets ≤ survey'.edgeSets :=
      hleast'.mono hleast (closedEdges_of_grants hgrants hplain _)
    rw [hedges, hedges', edgeSets_le_iff] at hle
    rw [hgraph, hgraph']
    refine ⟨fun edge hedge => hle side edge hedge, fun start => ⟨?_, ?_⟩⟩
    · exact Graph.reachable_subset (fun _ _ => hle.leads hcoherent hcoherent' side) start
    · exact available_of_grants hgrants hplain hcoherent hcoherent' hle hshown hshown' side start

/-- Without the key nothing but the yard is in reach. With it the hall is, and in the hall the lamp
can be had because the hall is reached. -/
theorem grants_lose_nothing_key :
    let regions : List Region :=
      [⟨"yard", "", [⟨"hall", "key AND AGE == \"CHILD\"", "FALSE OR key"⟩], []⟩,
       ⟨"hall", "", [], [⟨"lamp", "at(\"hall\", key)", "", ""⟩]⟩]
    let without : Env := .fresh {} (Env.builtins.insert "key" (.bool false)) Env.noHosts
    let granted : Env := without.bind "key" (.bool true)
    without.Grants granted ∧ without.PlainRegions regions ∧
    ∃ survey after survey' after',
      (Survey.build 8 regions none).outcome without = some (.ok survey, after) ∧
      (Survey.build 8 regions none).outcome granted = some (.ok survey', after') ∧
      (survey.first.edges = [] ∧ survey'.first.edges = [("yard", "hall")]) ∧
      survey.first.edges ⊆ survey'.first.edges ∧
      survey.first.reachable "yard" ⊆ survey'.first.reachable "yard" := by
  intro regions without granted
  have hgrants : without.Grants granted := .bind (b := false) rfl
  have hkey : without.Plain (.var "key") := by
    refine .flag (b := false) fun side => ?_
    cases side with
    | first => rfl
    | second => rfl
  have hat (side : Side) : without.lookup "at" (some (without.config.contexts.label side)) =
      .ok (.native .atPlace) := by
    cases side with
    | first => rfl
    | second => rfl
  have hchild : without.Plain (.binary .equal (.var "AGE") (.text "CHILD")) := by
    refine .selector "CHILD" fun side => ?_
    cases side with
    | first => rfl
    | second => rfl
  have hfirst : without.PlainRule "key AND AGE == \"CHILD\"" := by
    have hread : RuleText.expr ⟨"key AND AGE == \"CHILD\"", false⟩ =
      .ok (.binary .and (.var "key") (.binary .equal (.var "AGE") (.text "CHILD"))) := by rfl
    exact ⟨_, hread, .and hkey hchild⟩
  have hsecond : without.PlainRule "FALSE OR key" := by
    have hread : RuleText.expr ⟨"FALSE OR key", false⟩ =
      .ok (.binary .or (.bool false) (.var "key")) := by rfl
    exact ⟨_, hread, .or (.bool false) hkey⟩
  have hlamp : without.PlainRule "at(\"hall\", key)" := by
    have hread : RuleText.expr ⟨"at(\"hall\", key)", false⟩ =
      .ok (.call (.var "at") (.binary .sequence (.text "hall") (.var "key"))) := by rfl
    exact ⟨_, hread, .atPlace hat rfl hkey⟩
  have hplain : without.PlainRegions regions := by
    have hexit (side : Side) :
        without.PlainRule (Exit.rule ⟨"hall", "key AND AGE == \"CHILD\"",
          "FALSE OR key"⟩ side) := by
      cases side with
      | first => exact hfirst
      | second => exact hsecond
    constructor
    · simpa [regions] using hexit
    · simpa [regions] using hlamp
  have hrun : (((Survey.build 8 regions none).outcome without).bind
      fun (result, _) => result.toOption.map fun survey => survey.first.edges) = some [] := by
    decide +kernel
  have hrun' : (((Survey.build 8 regions none).outcome granted).bind
      fun (result, _) => result.toOption.map fun survey => survey.first.edges) =
      some [("yard", "hall")] := by
    decide +kernel
  obtain ⟨survey, after, ho, hedges⟩ := Action.ok_of_seen hrun
  obtain ⟨survey', after', ho', hedges'⟩ := Action.ok_of_seen hrun'
  obtain ⟨hle, hreach⟩ :=
    (grants_lose_nothing hgrants hplain none).2 8 survey after 8 survey' after' ho ho' .first
  refine ⟨hgrants, hplain, survey, after, survey', after', ho, ho', ⟨hedges, hedges'⟩, hle, ?_⟩
  exact (hreach "yard").1

end Passage
