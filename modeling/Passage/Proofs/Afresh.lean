import Passage.Proofs.Renewal

/-!
# Surveys begin afresh

Two sessions whose atlases agree in all that a survey depends on report the same on a request for
one: the same result, be it graphs or an error, and the same messages, calls and lines of the trace.
A survey changes nothing of what the next one depends on. So with no call in progress the report is
that of a session whose environment is fresh, whatever past led to it; and asked again it is the
same once more.
-/
namespace Passage

open Passage.Action

/-- Requests for a survey, whatever graphs are at hand. -/
def Request.isSurvey : Request → Bool
  | survey _ _ | build => true
  | _ => false

/-- The same is settled, and the journals tell the same. -/
structure Env.Twins (s t : Env) : Prop where
  settled : s.settled = t.settled
  journal : s.journal = t.journal

theorem Survey.follows_build (depth : Nat) (regions : List Region) (root : Option String) :
    Follows Env.Twins (fun _ => False) (build depth regions root) (build depth regions root) := by
  intro s t h result after ho
  obtain ⟨after', ho', halong⟩ := build_of_settled (Nat.le_refl depth) h.settled ho
  obtain ⟨hvisible, news, hnews, hnews'⟩ := halong
  refine .inr ⟨after', ho', ?_, ?_⟩
  · exact congrArg (fun env => { env with graphs := .empty, graphRoot := none }) hvisible
  · rw [hnews, hnews', h.journal]

/-- With no call in progress a survey comes to what it comes to in a fresh environment. -/
theorem Survey.outcome_build_fresh {env : Env} (h : env.stack = []) (depth : Nat)
    (regions : List Region) (root : Option String) :
    ((build depth regions root).outcome env).map
        (Prod.map id fun after => (after.visible, after.journal)) =
      ((build depth regions root).outcome (.fresh env.config env.globals env.hosts)).map
        (Prod.map id fun after => (after.visible, env.journal ++ after.journal)) := by
  have hsettled : env.settled = (Env.fresh env.config env.globals env.hosts).settled := by
    unfold Env.settled Env.visible
    rw [h]
    rfl
  cases hhere : (build depth regions root).outcome env with
  | some pair =>
    obtain ⟨result, after⟩ := pair
    obtain ⟨after', hthere, hvisible, news, hnews, hnews'⟩ :=
      build_of_settled (Nat.le_refl depth) hsettled hhere
    have hjournal : after.journal = env.journal ++ after'.journal := by
      rw [hnews, hnews']
      rfl
    rw [hthere]
    simp only [Option.map_some, Prod.map_apply, hvisible, hjournal]
  | none =>
    cases hthere : (build depth regions root).outcome (.fresh env.config env.globals env.hosts) with
    | none => rfl
    | some pair =>
      obtain ⟨_, hback, _⟩ := build_of_settled (Nat.le_refl depth) hsettled.symm hthere
      rw [hhere] at hback
      cases hback

namespace Atlas

/-- What a survey of an atlas depends on. -/
def ground (atlas : Atlas) : Env × List Region × Option String :=
  (atlas.env.settled, atlas.regions, atlas.root)

/-- The same ground, and journals that tell the same. -/
structure Twins (a b : Atlas) : Prop extends Akin a b where
  journal : a.env.journal = b.env.journal

variable {ε α : Type} {a b : Atlas}

theorem akin_of_ground (h : a.ground = b.ground) : Akin a b := by
  obtain ⟨hsettled, hrest⟩ := Prod.mk.inj h
  obtain ⟨hregions, hroot⟩ := Prod.mk.inj hrest
  exact ⟨hsettled, hregions, hroot⟩

theorem follows_inEnv {act : Action Env ε α} (h : Follows Env.Twins (fun _ => False) act act) :
    Follows Twins (fun _ => False) (inEnv act) (inEnv act) :=
  follows_onPart (R := Env.Twins) (fun _ _ h => ⟨h.settled, h.journal⟩)
    (fun _ _ _ _ h hst => ⟨⟨hst.settled, h.regions, h.root⟩, hst.journal⟩) h

theorem follows_build (depth : Nat) :
    Follows Twins (fun _ => False) (build depth) (build depth) := by
  refine follows_bind (follows_read fun _ _ h => h.regions) fun regions => ?_
  refine follows_bind (follows_read fun _ _ h => h.root) fun root => ?_
  refine follows_bind (follows_inEnv (Survey.follows_build depth regions root)) fun survey => ?_
  have hcontexts (a b : Atlas) (h : a.Twins b) : a.env.config.contexts = b.env.config.contexts := by
    have hsettled := h.settled
    exact congrArg (fun env => env.config.contexts) hsettled
  refine follows_bind (follows_read hcontexts) fun contexts => ?_
  refine follows_bind (follows_update fun _ _ h => ?_) fun _ => follows_pure _
  exact ⟨⟨h.settled, h.regions, h.root⟩, h.journal⟩

theorem keeps_ground {act : Action Env ε α} (h : Keeps Env.settled act) :
    Keeps ground (inEnv act) :=
  keeps_onPart (fun _ atlas hkept => congrArg (fun env => (env, atlas.regions, atlas.root)) hkept) h

theorem keeps_ground_build (depth : Nat) : Keeps ground (build depth) := by
  refine keeps_bind (keeps_read _) fun regions => ?_
  refine keeps_bind (keeps_read _) fun root => ?_
  refine keeps_bind (keeps_ground (Survey.keeps_build depth regions root)) fun survey => ?_
  refine keeps_bind (keeps_read _) fun contexts => ?_
  exact keeps_bind (keeps_update fun _ => rfl) fun _ => keeps_pure _

end Atlas

namespace Session

structure Twins (s t : Session) : Prop where
  atlas : s.atlas.Twins t.atlas
  echo : s.echo = t.echo

variable {s t : Session} {α : Type}

theorem Twins.symm (h : s.Twins t) : t.Twins s :=
  ⟨⟨h.atlas.toAkin.symm, h.atlas.journal.symm⟩, h.echo.symm⟩

theorem Twins.report (h : s.Twins t) (result : Except Failure Answer) :
    Report.of result s = Report.of result t := by
  have hsettled := h.atlas.settled
  have hstack : s.atlas.env.stack = t.atlas.env.stack := congrArg (fun env => env.stack) hsettled
  have hconfig : s.atlas.env.config = t.atlas.env.config :=
    congrArg (fun env => env.config) hsettled
  simp only [Report.of, hstack, hconfig, h.atlas.journal, h.echo]

theorem follows_onAtlas {act : Action Atlas Failure α}
    (h : Follows Atlas.Twins (fun _ => False) act act) :
    Follows Twins (fun _ => False) (onAtlas act) (onAtlas act) :=
  follows_onPart (R := Atlas.Twins) (fun _ _ h => h.atlas) (fun _ _ _ _ h hst => ⟨hst, h.echo⟩) h

theorem follows_answer (depth : Nat) {request : Request} (h : request.isSurvey = true) :
    Follows Twins (fun _ => False) (answer depth request) (answer depth request) := by
  cases request with
  | survey records root =>
    have hsurvey (regions : List Region) :
        Follows Twins (fun _ => False)
          (do let survey ← ask (Survey.build depth regions root)
              return Answer.survey survey.first survey.second)
          (do let survey ← ask (Survey.build depth regions root)
              return Answer.survey survey.first survey.second) := by
      refine follows_bind (follows_onAtlas (Atlas.follows_inEnv ?_)) fun survey => follows_pure _
      exact follows_mapError (f := Failure.check) (fun _ hx => hx)
        (Survey.follows_build depth regions root)
    cases records with
    | none => exact follows_bind (follows_read fun _ _ h => h.atlas.regions) hsurvey
    | some records => exact follows_bind (follows_ofExcept _) hsurvey
  | build =>
    refine follows_bind (follows_onAtlas ?_) fun graphs => follows_pure _
    exact follows_mapError (f := Failure.check) (fun _ hx => hx) (Atlas.follows_build depth)
  | _ => cases h

/-- A survey leaves the atlas with the same ground as before, and the session as it was beside
it. -/
theorem keeps_ground (depth : Nat) {request : Request} (h : request.isSurvey = true) :
    Keeps (fun session : Session => (session.atlas.ground, session.echo))
      (answer depth request) := by
  have honAtlas {α : Type} {act : Action Atlas Failure α} (hact : Keeps Atlas.ground act) :
      Keeps (fun session : Session => (session.atlas.ground, session.echo)) (onAtlas act) :=
    keeps_onPart (fun _ session hkept => congrArg (fun ground => (ground, session.echo)) hkept) hact
  cases request with
  | survey records root =>
    have hsurvey (regions : List Region) :
        Keeps (fun session : Session => (session.atlas.ground, session.echo)) (do
          let survey ← ask (Survey.build depth regions root)
          return Answer.survey survey.first survey.second) := by
      refine keeps_bind (honAtlas (Atlas.keeps_ground ?_)) fun survey => keeps_pure _
      exact keeps_mapError _ (Survey.keeps_build depth regions root)
    cases records with
    | none => exact keeps_bind (keeps_read _) hsurvey
    | some records => exact keeps_bind (keeps_ofExcept _) hsurvey
  | build =>
    refine keeps_bind (honAtlas ?_) fun graphs => keeps_pure _
    exact keeps_mapError _ (Atlas.keeps_ground_build depth)
  | _ => cases h

/-- Sessions that are twins once a new page is begun report the same on a request for a survey. -/
theorem report_of_twins {depth : Nat} {request : Request} (h : request.isSurvey = true)
    (hst : s.clearJournal.Twins t.clearJournal) :
    (s.step depth request).map Prod.fst = (t.step depth request).map Prod.fst := by
  have hfollows := follows_answer depth h
  have hback : Follows (fun t s : Session => s.Twins t) (fun _ => False) (answer depth request)
      (answer depth request) := by
    intro t s hts result after ho
    obtain ⟨after', ho', hafter⟩ := hfollows.always ho hts.symm
    exact .inr ⟨after', ho', hafter.symm⟩
  have hreport (s t : Session) (hsame : s.Twins t) :
      (fun result => Report.of result s) = fun result => Report.of result t :=
    funext hsame.report
  have hreports := outcome_eq_of_follows hfollows hback hreport hst
  have hstep (session : Session) : (session.step depth request).map Prod.fst =
      (((answer depth request).outcome session.clearJournal).map
        (Prod.map id fun session result => Report.of result session)).map fun p => p.2 p.1 := by
    rw [step, Option.map_map, Option.map_map]
    rfl
  rw [hstep, hstep, hreports]

theorem twins_renewed (h : s.frames = []) : s.clearJournal.Twins s.renewed.clearJournal where
  atlas := ⟨⟨(akin_renewed h).settled, rfl, rfl⟩, rfl⟩
  echo := rfl

/-- A survey leaves a session that is a twin of the one it was asked of. -/
theorem twins_of_step {depth : Nat} {request : Request} (h : request.isSurvey = true)
    {report : Report} (hstep : s.step depth request = some (report, t)) :
    t.clearJournal.Twins s.clearJournal := by
  obtain ⟨hanswer, -⟩ := step_eq_some_iff.mp hstep
  obtain ⟨hground, hecho⟩ := Prod.mk.inj (keeps_ground depth h _ _ _ hanswer)
  have hakin : Atlas.Akin t.atlas s.clearJournal.atlas := Atlas.akin_of_ground hground
  exact ⟨⟨⟨hakin.settled, hakin.regions, hakin.root⟩, rfl⟩, hecho⟩

end Session

open Session

/-- A survey depends on what it is asked for and on the bindings, and on no past. With no call in
progress it comes to the same as in a fresh environment with the same configuration and globals,
adds the same to the journal and leaves the same to be seen by rules, at every depth. So whatever
was asked of a session before, it reports on a survey as a session with a fresh environment would,
and once more the same when it is asked again. Requests that push no frame by hand leave no call in
progress. -/
theorem survey_regardless_of_past :
    (∀ env : Env, env.stack = [] → ∀ depth regions root,
      ((Survey.build depth regions root).outcome env).map
          (Prod.map id fun after => (after.visible, after.journal)) =
        ((Survey.build depth regions root).outcome (.fresh env.config env.globals env.hosts)).map
          (Prod.map id fun after => (after.visible, env.journal ++ after.journal))) ∧
    ∀ start turns now, Past start turns now →
      (now.frames = [] → ∀ depth request, request.isSurvey = true →
        (now.step depth request).map Prod.fst = (now.renewed.step depth request).map Prod.fst ∧
        ∀ report next, now.step depth request = some (report, next) →
          (next.step depth request).map Prod.fst = some report) ∧
      (start.frames = [] → (∀ turn ∈ turns, turn.request.leavesFrames = true) →
        now.frames = []) := by
  refine ⟨?_, ?_⟩
  · intro env hstack depth regions root
    exact Survey.outcome_build_fresh hstack depth regions root
  · intro start turns now hpast
    refine ⟨fun hframes depth request hsurvey => ⟨?_, ?_⟩, ?_⟩
    · exact report_of_twins hsurvey (twins_renewed hframes)
    · intro report next hstep
      rw [report_of_twins hsurvey (twins_of_step hsurvey hstep), hstep]
      rfl
    · intro hstart hleaves
      exact (hpast.frames hleaves).trans hstart

/-- A frame was pushed and removed, a text was refused, and a survey of other regions failed, whose
graphs are still published and measured from its root. Seen from there the gate would be open from
the start. -/
theorem survey_regardless_of_past_leftovers :
    let regions : List Region :=
      [⟨"yard", "", [⟨"gate", "at(\"hall\", TRUE)", "FALSE"⟩, ⟨"cellar", "debug(key)", "key"⟩], []⟩]
    let globals := Env.builtins.insert "key" (.bool true)
    let start : Session := ⟨.new (.fresh {} globals Env.noHosts) regions none, 0, false⟩
    let requests : List Request :=
      [.push [("key", .bool false)], .check "key" none, .pop, .check "key OR (" none,
       .survey (some [⟨some "hall", none, [["attic", "TRUE", "missing"]], []⟩]) (some "hall")]
    let query : Request := .survey none none
    let found : Graph := ⟨.ofList [("yard", ["cellar"])], [("yard", "cellar")]⟩
    ∃ turns now report next, replay 8 [] start requests = some (turns, now) ∧
      now.atlas.env.reaches "hall" = true ∧
      now.step 8 query = some (report, next) ∧ report.result = .ok (.survey found found) ∧
      report.messages = ["TRUE"] ∧ (now.renewed.step 8 query).map Prod.fst = some report ∧
      (next.step 8 query).map Prod.fst = some report := by
  intro regions globals start requests query found
  have hrun : ((replay 8 [] start requests).bind fun past =>
    (past.2.step 8 query).map fun answered =>
      (past.2.frames, past.2.atlas.env.reaches "hall", answered.1.result, answered.1.messages)) =
      some ([], true, .ok (.survey found found), ["TRUE"]) := by
    decide +kernel
  obtain ⟨⟨turns, now⟩, hreplay, hquery⟩ := Option.bind_eq_some_iff.mp hrun
  obtain ⟨⟨report, next⟩, hstep, hseen⟩ := Option.map_eq_some_iff.mp hquery
  simp only [Prod.mk.injEq] at hseen
  obtain ⟨hframes, hreaches, hresult, hmessages⟩ := hseen
  have hpast : start.Past turns now := Past.start.replay hreplay
  obtain ⟨hrenewed, hagain⟩ :=
    (survey_regardless_of_past.2 start turns now hpast).1 hframes 8 query rfl
  refine ⟨turns, now, report, next, hreplay, hreaches, hstep, hresult, hmessages, ?_, ?_⟩
  · rw [← hrenewed, hstep]
    rfl
  · exact hagain report next hstep

end Passage
