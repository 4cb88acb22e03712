import Passage.Proofs.Frames
import Passage.Proofs.Passes
import Passage.Proofs.SurveySimulation

/-!
# Surveys of what is settled

A survey replaces all that was published before it asks its first rule, so it depends on nothing but
what is settled: configuration, host functions, globals and frames. From environments where these
are the same, and to at least the depth, it comes to the same result, adds the same to the journal,
and leaves environments that look the same to rules (`build_of_settled`). The depth can be left out
again: `Env.Surveys` says what a survey comes to.
-/
namespace Passage

open Passage.Action

/-- Since they were `s` and `t`, two environments have been told the same. -/
def Env.ToldAlike (s t now now' : Env) : Prop :=
  ∃ news, now.journal = s.journal ++ news ∧ now'.journal = t.journal ++ news

/-- Two surveys under way that began in `s` and `t`: the environments look the same to rules, and
have been told the same. -/
def Env.Alongside (s t now now' : Env) : Prop :=
  now.visible = now'.visible ∧ s.ToldAlike t now now'

theorem Env.ToldAlike.note {s t now now' : Env} (h : s.ToldAlike t now now') (event : Event) :
    s.ToldAlike t (now.note event) (now'.note event) := by
  obtain ⟨news, hnow, hnow'⟩ := h
  refine ⟨news ++ [event], ?_, ?_⟩
  · show now.journal ++ [event] = _
    rw [hnow, List.append_assoc]
  · show now'.journal ++ [event] = _
    rw [hnow', List.append_assoc]

theorem Simulation.alongside (s t : Env) (context : Option String) :
    Simulation (fun _ now now' => s.Alongside t now now') (fun _ => False) context context :=
  (Simulation.visible context).and (fun h _ => h) (fun h text => h.note (.message text))
    (fun h name args => h.note (.hostCall name args context)) (fun h _ => h) (fun h => h)

namespace Survey

theorem journal_record (step : Step) (env : Env) : (record step env).journal = env.journal := by
  unfold record
  split
  · rfl
  · rfl

theorem tracks_alongside (s t : Env) : Tracks (s.Alongside t) where
  contexts h := congrArg (fun env => env.config.contexts) h.1
  graphOf h side := congrArg (fun env => env.graphOf side) h.1
  publish h regions root := ⟨congrArg (publish regions root) h.1, h.2⟩
  record := by
    intro now now' h step
    refine ⟨?_, ?_⟩
    · rw [Draft.visible_record, Draft.visible_record, h.1]
    · unfold Env.ToldAlike
      rw [journal_record, journal_record]
      exact h.2
  passed h number added := ⟨h.1, h.2.note (.pass number added)⟩

theorem follows_byLabel (s t : Env) {depth depth' : Nat} (hle : depth ≤ depth') (side : Side)
    (rule : String) :
    Follows (s.Alongside t) (fun _ => False) (Judge.byLabel depth side rule)
      (Judge.byLabel depth' side rule) := by
  have hjudge := (tracks_alongside s t).follows_byLabel (Simulation.alongside s t)
    (fun h context tree holds => ⟨h.1, h.2.note (.verdict context tree holds)⟩) hle side rule
  exact hjudge.imp Simulation.not_excusedCheck

/-- Nothing is left of what was published before. -/
theorem visible_publish {s t : Env} (h : s.settled = t.settled) (regions : List Region)
    (root : Option String) : (publish regions root s).visible = (publish regions root t).visible :=
  congrArg (publish regions root) h

/-- To at least the depth, where the same is settled: the same result, told in the same way, and
environments that look the same afterwards. -/
theorem build_of_settled {depth depth' : Nat} (hle : depth ≤ depth') {s t after : Env}
    (h : s.settled = t.settled) {regions : List Region} {root : Option String}
    {result : Except CheckError Survey}
    (ho : (build depth regions root).outcome s = some (result, after)) :
    ∃ after', (build depth' regions root).outcome t = some (result, after') ∧
      s.Alongside t after after' := by
  have hrest := (tracks_alongside s t).follows_surveyed (follows_byLabel s t hle)
    (steps regions) ((steps regions).length + 1)
  have hstart : s.Alongside t (publish regions root s) (publish regions root t) :=
    ⟨visible_publish h regions root, [], (List.append_nil _).symm, (List.append_nil _).symm⟩
  rw [build, buildBy, outcome_bind_ok (outcome_update _ s)] at ho
  obtain ⟨after', ho', halong⟩ := hrest.always ho hstart
  refine ⟨after', ?_, halong⟩
  rw [build, buildBy, outcome_bind_ok (outcome_update _ t)]
  exact ho'

theorem contexts_of_build {depth : Nat} {env after : Env} {regions : List Region}
    {root : Option String} {result : Except CheckError Survey}
    (h : (build depth regions root).outcome env = some (result, after)) :
    after.config.contexts = env.config.contexts :=
  congrArg (fun env => env.config.contexts) (keeps_build depth regions root env result after h)

/-- A finished survey leaves its graphs published, and nothing else. -/
theorem graphs_of_build {depth : Nat} {env after : Env} {regions : List Region}
    {root : Option String} {survey : Survey}
    (h : (build depth regions root).outcome env = some (.ok survey, after)) :
    after.graphs = survey.byLabel env.config.contexts := by
  obtain ⟨last, _, hfirst, hsecond, hshown⟩ := Draft.passes_of_build h
  have hgraphs : after.visible.graphs = (Survey.mk last.first last.second []).byLabel
      env.config.contexts :=
    congrArg Env.graphs hshown
  refine Eq.trans hgraphs (Table.ext ?_)
  rw [entries_byLabel, entries_byLabel, hfirst, hsecond]

end Survey

/-- A survey of the regions comes to a result, at some depth, and leaves an environment that looks
to rules as it is given. -/
def Env.Surveys (env : Env) (regions : List Region) (root : Option String)
    (result : Except CheckError Survey) (seen : Env) : Prop :=
  ∃ depth after, (Survey.build depth regions root).outcome env = some (result, after) ∧
    after.visible = seen

namespace Env.Surveys

variable {s t seen seen' : Env} {regions : List Region} {root : Option String}
  {result result' : Except CheckError Survey}

theorem of_settled (hst : s.settled = t.settled) (h : s.Surveys regions root result seen) :
    t.Surveys regions root result seen := by
  obtain ⟨depth, after, ho, hseen⟩ := h
  obtain ⟨after', ho', halong⟩ := Survey.build_of_settled (Nat.le_refl depth) hst ho
  exact ⟨depth, after', ho', halong.1.symm.trans hseen⟩

/-- From some depth on the survey comes to its result. -/
theorem deeper (h : s.Surveys regions root result seen) :
    ∃ enough, ∀ depth ≥ enough, ∃ after,
      (Survey.build depth regions root).outcome s = some (result, after) ∧
      after.visible = seen := by
  obtain ⟨enough, after, ho, hseen⟩ := h
  refine ⟨enough, fun depth hdepth => ?_⟩
  obtain ⟨after', ho', halong⟩ := Survey.build_of_settled hdepth (Eq.refl s.settled) ho
  exact ⟨after', ho', halong.1.symm.trans hseen⟩

theorem unique (h : s.Surveys regions root result seen)
    (h' : s.Surveys regions root result' seen') : result = result' ∧ seen = seen' := by
  obtain ⟨enough, hdeep⟩ := h.deeper
  obtain ⟨enough', hdeep'⟩ := h'.deeper
  obtain ⟨after, ho, hseen⟩ := hdeep (max enough enough') (Nat.le_max_left enough enough')
  obtain ⟨after', ho', hseen'⟩ := hdeep' (max enough enough') (Nat.le_max_right enough enough')
  rw [ho] at ho'
  cases ho'
  exact ⟨rfl, hseen.symm.trans hseen'⟩

theorem settled (h : s.Surveys regions root result seen) : seen.settled = s.settled := by
  obtain ⟨depth, after, ho, rfl⟩ := h
  exact Survey.keeps_build depth regions root s result after ho

end Env.Surveys

/-- Which things can be had depends on what rules see, at least to the depth at which it was found
out. -/
theorem follows_holding {depth depth' : Nat} (hle : depth ≤ depth') (context : Option String)
    (things : List Obtainable) :
    Follows (fun s t : Env => s.visible = t.visible) (fun _ => False) (holding depth context things)
      (holding depth' context things) := by
  induction things with
  | nil => exact follows_pure []
  | cons thing rest ih =>
    refine follows_bind ?_ fun holds => follows_bind ih fun later => follows_pure _
    exact (Simulation.visible context).follows_checkRule_always (fun h _ _ => h) hle [] thing.rule

end Passage
