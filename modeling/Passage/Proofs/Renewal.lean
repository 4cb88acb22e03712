import Passage.Proofs.Histories

/-!
# Graphs that are up to date

An atlas gives up its graphs when an item is granted or revoked, and a survey depends on nothing
else that its requests change. So the graphs at hand are always those that a survey would find now,
and what rules see is what it would leave (`Current`). Two atlases that are up to date, and agree in
all that a survey depends on, answer every query alike. A new atlas is up to date because it has no
graphs.
-/
namespace Passage

open Passage.Action

namespace Atlas

variable {atlas after a b : Atlas} {depth : Nat} {label : String} {result : Except AtlasError Graph}
  {seen : Env}

/-- The graphs at hand are those that a survey finds from here, and rules see what it leaves. -/
def Current (atlas : Atlas) : Prop :=
  ∀ graphs, atlas.built = some graphs → ∃ survey,
    atlas.env.Surveys atlas.regions atlas.root (.ok survey) atlas.env.visible ∧
      graphs = survey.byLabel atlas.env.config.contexts

theorem current_of_unbuilt (h : atlas.built = none) : atlas.Current := by
  intro graphs hbuilt
  rw [h] at hbuilt
  cases hbuilt

theorem Current.of_seen (h : a.Current) (hseen : b.seen = a.seen) : b.Current := by
  simp only [Atlas.seen, Atlas.mk.injEq] at hseen
  obtain ⟨hvisible, hregions, hroot, hbuilt⟩ := hseen
  intro graphs hgraphs
  obtain ⟨survey, hsurveys, heq⟩ := h graphs (hbuilt.symm.trans hgraphs)
  have hsettled : a.env.settled = b.env.settled :=
    congrArg (fun env => { env with graphs := .empty, graphRoot := none }) hvisible.symm
  have hconfig : b.env.config = a.env.config := congrArg (fun env => env.config) hvisible
  refine ⟨survey, ?_, ?_⟩
  · rw [hregions, hroot, hvisible]
    exact hsurveys.of_settled hsettled
  · rw [heq, hconfig]

/-! ## What a survey leaves of an atlas -/

/-- A survey that succeeds leaves its graphs at hand. -/
def surveyed (atlas : Atlas) :
    Except CheckError Survey × Env → Except CheckError (Table Graph) × Atlas
  | (.ok survey, env) =>
    let graphs := survey.byLabel env.config.contexts
    (.ok graphs, { atlas with env := env, built := some graphs })
  | (.error error, env) => (.error error, { atlas with env := env })

theorem outcome_build (depth : Nat) (atlas : Atlas) :
    (build depth).outcome atlas =
      ((Survey.build depth atlas.regions atlas.root).outcome atlas.env).map atlas.surveyed := by
  have hinner : (inEnv (Survey.build depth atlas.regions atlas.root)).outcome atlas =
      ((Survey.build depth atlas.regions atlas.root).outcome atlas.env).map fun (result, env) =>
        (result, { atlas with env := env }) := rfl
  rw [build, outcome_bind_ok (outcome_read _ atlas), outcome_bind_ok (outcome_read _ atlas),
    outcome_bind, hinner]
  cases (Survey.build depth atlas.regions atlas.root).outcome atlas.env with
  | none => rfl
  | some pair =>
    obtain ⟨found, env⟩ := pair
    cases found with
    | ok survey => rfl
    | error error => rfl

/-- The graph that goes by a label. -/
def chosen (label : String) (graphs : Table Graph) : Except AtlasError Graph :=
  match graphs.get? label with
  | some g => .ok g
  | none => .error (.unknownContext label (graphs.sorted.map Prod.fst))

theorem outcome_choose (label : String) (graphs : Table Graph) (atlas : Atlas) :
    (match graphs.get? label with
      | some g => (pure g : Tour AtlasError Graph)
      | none => throw (AtlasError.unknownContext label (graphs.sorted.map Prod.fst))).outcome
        atlas = some (chosen label graphs, atlas) := by
  unfold chosen
  cases graphs.get? label with
  | some g => rfl
  | none => rfl

/-- What is told of a label, after what a survey has come to. -/
def told (contexts : Contexts) (label : String) (found : Except CheckError Survey) :
    Except AtlasError Graph :=
  (found.mapError .check).bind fun survey => chosen label (survey.byLabel contexts)

theorem outcome_graph_built {graphs : Table Graph} (h : atlas.built = some graphs) (depth : Nat)
    (label : String) : (graph depth label).outcome atlas = some (chosen label graphs, atlas) := by
  rw [graph, outcome_bind_ok (outcome_read _ atlas), h, outcome_bind_ok (outcome_pure graphs atlas)]
  exact outcome_choose label graphs atlas

theorem outcome_graph_unbuilt (h : atlas.built = none) (depth : Nat) (label : String) :
    (graph depth label).outcome atlas =
      ((Survey.build depth atlas.regions atlas.root).outcome atlas.env).map fun (found, env) =>
        (told env.config.contexts label found, (atlas.surveyed (found, env)).2) := by
  rw [graph, outcome_bind_ok (outcome_read _ atlas), h, outcome_bind, outcome_mapError,
    outcome_build]
  cases (Survey.build depth atlas.regions atlas.root).outcome atlas.env with
  | none => rfl
  | some pair =>
    obtain ⟨found, env⟩ := pair
    cases found with
    | error error => rfl
    | ok survey => exact outcome_choose label (survey.byLabel env.config.contexts) _

/-- A graph that is asked for is at hand, or a survey is made for it. -/
theorem cases_of_graph (ho : (graph depth label).outcome atlas = some (result, after)) :
    (∃ graphs, atlas.built = some graphs ∧ result = chosen label graphs ∧ after = atlas) ∨
      ∃ found env, atlas.built = none ∧
        (Survey.build depth atlas.regions atlas.root).outcome atlas.env = some (found, env) ∧
        result = told env.config.contexts label found ∧
        after = (atlas.surveyed (found, env)).2 := by
  cases hbuilt : atlas.built with
  | some graphs =>
    rw [outcome_graph_built hbuilt] at ho
    obtain ⟨hresult, hafter⟩ := Prod.mk.inj (Option.some.inj ho)
    exact .inl ⟨graphs, rfl, hresult.symm, hafter.symm⟩
  | none =>
    rw [outcome_graph_unbuilt hbuilt] at ho
    obtain ⟨⟨found, env⟩, hsurvey, he⟩ := Option.map_eq_some_iff.mp ho
    obtain ⟨hresult, hafter⟩ := Prod.mk.inj he
    exact .inr ⟨found, env, rfl, hsurvey, hresult.symm, hafter.symm⟩

/-! ## The graphs at hand are those of a survey -/

/-- A survey of the regions comes to what is told of a label, and leaves to rules what is given. -/
def Tells (atlas : Atlas) (label : String) (result : Except AtlasError Graph) (seen : Env) : Prop :=
  ∃ found, atlas.env.Surveys atlas.regions atlas.root found seen ∧
    result = told atlas.env.config.contexts label found

/-- However a survey ends, the graphs at hand are up to date. -/
theorem Current.surveyed (h : atlas.Current) {found : Except CheckError Survey} {env : Env}
    (ho : (Survey.build depth atlas.regions atlas.root).outcome atlas.env = some (found, env)) :
    (atlas.surveyed (found, env)).2.Current := by
  have hsurveys : atlas.env.Surveys atlas.regions atlas.root found env.visible :=
    ⟨depth, env, ho, rfl⟩
  have hsettled : atlas.env.settled = env.settled := hsurveys.settled.symm
  intro graphs hgraphs
  cases found with
  | ok survey =>
    cases hgraphs
    exact ⟨survey, hsurveys.of_settled hsettled, rfl⟩
  | error error =>
    -- Had there been graphs at hand, a survey would have succeeded before, and so now.
    obtain ⟨survey, hother, -⟩ := h graphs hgraphs
    have heq := (hsurveys.unique hother).1
    cases heq

theorem Current.tells_of_graph (h : atlas.Current)
    (ho : (graph depth label).outcome atlas = some (result, after)) :
    atlas.Tells label result after.env.visible ∧ after.Current ∧ after.regions = atlas.regions := by
  rcases cases_of_graph ho with ⟨graphs, hbuilt, rfl, rfl⟩ | ⟨found, env, -, hsurvey, rfl, rfl⟩
  · obtain ⟨survey, hsurveys, heq⟩ := h graphs hbuilt
    refine ⟨⟨.ok survey, hsurveys, ?_⟩, h, rfl⟩
    rw [heq]
    rfl
  · have hsurveys : atlas.env.Surveys atlas.regions atlas.root found env.visible :=
      ⟨depth, env, hsurvey, rfl⟩
    have hcurrent := h.surveyed hsurvey
    rw [Survey.contexts_of_build hsurvey]
    cases found with
    | ok survey => exact ⟨⟨.ok survey, hsurveys, rfl⟩, hcurrent, rfl⟩
    | error error => exact ⟨⟨.error error, hsurveys, rfl⟩, hcurrent, rfl⟩

/-- From some depth on, the graph of a label is what is told of it. -/
theorem Current.graph_of_tells (h : atlas.Current) (ht : atlas.Tells label result seen) :
    ∃ enough, ∀ depth ≥ enough, ∃ after, (graph depth label).outcome atlas = some (result, after) ∧
      after.env.visible = seen ∧ after.regions = atlas.regions := by
  obtain ⟨found, hsurveys, rfl⟩ := ht
  cases hbuilt : atlas.built with
  | some graphs =>
    -- No survey is made, but the graphs at hand are those of the only result that one can have.
    obtain ⟨survey, hother, rfl⟩ := h graphs hbuilt
    obtain ⟨rfl, rfl⟩ := hsurveys.unique hother
    exact ⟨0, fun depth _ => ⟨atlas, outcome_graph_built hbuilt depth label, rfl, rfl⟩⟩
  | none =>
    obtain ⟨enough, hdeep⟩ := hsurveys.deeper
    refine ⟨enough, fun depth hdepth => ?_⟩
    obtain ⟨env, ho, hseen⟩ := hdeep depth hdepth
    refine ⟨(atlas.surveyed (found, env)).2, ?_, ?_, ?_⟩
    · rw [outcome_graph_unbuilt hbuilt, ho, ← Survey.contexts_of_build ho]
      rfl
    · cases found <;> exact hseen
    · cases found <;> rfl

/-! ## Atlases that agree in all that a survey depends on -/

structure Akin (a b : Atlas) : Prop where
  settled : a.env.settled = b.env.settled
  regions : a.regions = b.regions
  root : a.root = b.root

theorem Akin.symm (h : Akin a b) : Akin b a := ⟨h.settled.symm, h.regions.symm, h.root.symm⟩

theorem Tells.of_akin (hab : Akin a b) (h : a.Tells label result seen) :
    b.Tells label result seen := by
  obtain ⟨found, hsurveys, rfl⟩ := h
  have hcontexts : a.env.config.contexts = b.env.config.contexts :=
    congrArg (fun env => env.config.contexts) hab.settled
  refine ⟨found, ?_, ?_⟩
  · rw [← hab.regions, ← hab.root]
    exact hsurveys.of_settled hab.settled
  · rw [hcontexts]

/-- Whatever one goes on with the graph of a label to, one does from the graph that another atlas
has, too, and within any greater depth. -/
theorem outcome_of_akin {α : Type} {next : Nat → Graph → Tour AtlasError α} (honward : Onward next)
    (hab : Akin a b) (ha : a.Current) (hb : b.Current) {answer : Except AtlasError α}
    (ho : (graph depth label >>= next depth).outcome a = some (answer, after)) :
    ∃ enough, ∀ depth' ≥ enough, ∃ after',
      (graph depth' label >>= next depth').outcome b = some (answer, after') := by
  rcases cases_of_bind ho with ⟨g, mid, hgraph, hnext⟩ | ⟨error, hgraph, rfl⟩
  · obtain ⟨htells, -, hregions⟩ := ha.tells_of_graph hgraph
    obtain ⟨enough, hdeep⟩ := hb.graph_of_tells (htells.of_akin hab)
    -- Deep enough for a survey of the other atlas, and as deep as what was gone on with here.
    refine ⟨max depth enough, fun depth' hdepth' => ?_⟩
    obtain ⟨mid', hgraph', hseen, hregions'⟩ := hdeep depth' (by omega)
    have halike : LookAlike mid mid' := by
      refine ⟨hseen.symm, ?_⟩
      rw [hregions, hregions', hab.regions]
    have hle : depth ≤ depth' := by omega
    obtain ⟨after', hnext', -⟩ := (honward.follows hle g).always hnext halike
    exact ⟨after', (outcome_bind_ok hgraph' _).trans hnext'⟩
  · obtain ⟨htells, -, -⟩ := ha.tells_of_graph hgraph
    obtain ⟨enough, hdeep⟩ := hb.graph_of_tells (htells.of_akin hab)
    refine ⟨enough, fun depth' hdepth' => ?_⟩
    obtain ⟨after', hgraph', -, -⟩ := hdeep depth' hdepth'
    exact ⟨after', outcome_bind_error hgraph' _⟩

end Atlas

namespace Session

/-- What one request leaves is up to date, if what it met was. -/
theorem Move.current {now next : Atlas} {request : Request} {result : Except Failure Answer}
    (h : Move now request result next) (hfor : request.isForAtlas = true) (hnow : now.Current) :
    next.Current := by
  cases h with
  | grant name => exact Atlas.current_of_unbuilt rfl
  | revoke name => exact Atlas.current_of_unbuilt rfl
  | check hseen => exact hnow.of_seen hseen
  | build hbuild =>
    rw [Atlas.outcome_build] at hbuild
    obtain ⟨⟨found, env⟩, hsurvey, he⟩ := Option.map_eq_some_iff.mp hbuild
    have hcurrent := hnow.surveyed hsurvey
    rw [he] at hcurrent
    exact hcurrent
  | query _ hgraph hseen => exact (hnow.tells_of_graph hgraph).2.1.of_seen hseen
  | rebind hrebinds =>
    rw [Request.rebinds_eq_false hfor] at hrebinds
    cases hrebinds

/-- The session with a new atlas, over a fresh environment with the same globals. -/
def renewed (session : Session) : Session :=
  let env := session.atlas.env
  let fresh := Env.fresh env.config env.globals env.hosts
  { session with atlas := .new fresh session.atlas.regions session.atlas.root }

theorem akin_renewed {session : Session} (h : session.frames = []) :
    Atlas.Akin session.atlas session.renewed.atlas where
  settled := by
    have hstack : session.atlas.env.stack = [] := h
    unfold Env.settled Env.visible
    rw [hstack]
    rfl
  regions := rfl
  root := rfl

/-- A past of requests to the atlas keeps the graphs up to date, and pushes no frame. -/
theorem Past.current {start now : Session} {turns : List Turn} (h : Past start turns now)
    (hbuilt : start.atlas.built = none) (hframes : start.frames = [])
    (hfor : ∀ turn ∈ turns, turn.request.isForAtlas = true) :
    now.atlas.Current ∧ now.frames = [] := by
  refine ⟨?_, ?_⟩
  · induction h with
    | start => exact Atlas.current_of_unbuilt hbuilt
    | @turn turns now next depth request report _ hstep ih =>
      have hcurrent := ih fun turn hturn => hfor turn (List.mem_cons_of_mem _ hturn)
      have hrequest : request.isForAtlas = true := hfor _ List.mem_cons_self
      have hclear : now.clearJournal.atlas.Current := hcurrent.of_seen rfl
      exact (move_of_step (.inl hrequest) hstep).current hrequest hclear
  · have hleaves : ∀ turn ∈ turns, turn.request.leavesFrames = true :=
      fun turn hturn => Request.leavesFrames_of_isForAtlas (hfor turn hturn)
    exact (h.frames hleaves).trans hframes

/-- What one session answers to a query, another one answers within any depth from some depth on. -/
theorem Answers.of_akin {s t : Session} {query : Request} {result : Except Failure Answer}
    (hquery : query.isQuery = true) (hst : Atlas.Akin s.atlas t.atlas) (hs : s.atlas.Current)
    (ht : t.atlas.Current) (h : s.Answers query result) :
    ∃ enough, ∀ depth ≥ enough, ∃ next,
      (answer depth query).outcome t.clearJournal = some (result, next) := by
  obtain ⟨label, goOn, honward, hanswer⟩ := answer_query hquery
  obtain ⟨depth, next, ho⟩ := answers_iff.mp h
  rw [hanswer, outcome_tour] at ho
  obtain ⟨⟨inner, after⟩, hact, he⟩ := Option.map_eq_some_iff.mp ho
  cases he
  have hclear : Atlas.Akin s.clearJournal.atlas t.clearJournal.atlas :=
    ⟨hst.settled, hst.regions, hst.root⟩
  obtain ⟨enough, hdeep⟩ :=
    Atlas.outcome_of_akin honward hclear (hs.of_seen rfl) (ht.of_seen rfl) hact
  refine ⟨enough, fun depth' hdepth' => ?_⟩
  obtain ⟨after', hact'⟩ := hdeep depth' hdepth'
  refine ⟨{ t.clearJournal with atlas := after' }, ?_⟩
  rw [hanswer, outcome_tour, hact']
  rfl

/-- A session answers a query in one way. -/
theorem Answers.unique {session : Session} {query : Request}
    {result result' : Except Failure Answer} (hquery : query.isQuery = true)
    (hcurrent : session.atlas.Current)
    (h : session.Answers query result) (h' : session.Answers query result') : result = result' := by
  have hself : Atlas.Akin session.atlas session.atlas := ⟨rfl, rfl, rfl⟩
  obtain ⟨enough, hdeep⟩ := h.of_akin hquery hself hcurrent hcurrent
  obtain ⟨enough', hdeep'⟩ := h'.of_akin hquery hself hcurrent hcurrent
  obtain ⟨next, ho⟩ := hdeep (max enough enough') (by omega)
  obtain ⟨next', ho'⟩ := hdeep' (max enough enough') (by omega)
  rw [ho] at ho'
  cases ho'
  rfl

end Session

open Session

/-- A session never answers from graphs that are out of date: whatever was asked of its atlas, and
whatever failed, it answers a query exactly as it would with a new atlas over a fresh environment,
in which the globals are those of now. -/
theorem answers_as_renewed {start now : Session} {turns : List Turn} (hpast : Past start turns now)
    (hbuilt : start.atlas.built = none) (hframes : start.frames = [])
    (hfor : ∀ turn ∈ turns, turn.request.isForAtlas = true) {query : Request}
    (hquery : query.isQuery = true) :
    (∀ result, now.Answers query result ↔ now.renewed.Answers query result) ∧
      ∀ result result', now.Answers query result → now.renewed.Answers query result' →
        result = result' := by
  obtain ⟨hcurrent, hnone⟩ := hpast.current hbuilt hframes hfor
  have hakin := akin_renewed hnone
  have hrenewed : now.renewed.atlas.Current := Atlas.current_of_unbuilt rfl
  have hthere {result : Except Failure Answer} (h : now.Answers query result) :
      now.renewed.Answers query result := by
    obtain ⟨enough, hdeep⟩ := h.of_akin hquery hakin hcurrent hrenewed
    obtain ⟨next, ho⟩ := hdeep enough (Nat.le_refl enough)
    exact answers_iff.mpr ⟨enough, next, ho⟩
  have hback {result : Except Failure Answer} (h : now.renewed.Answers query result) :
      now.Answers query result := by
    obtain ⟨enough, hdeep⟩ := h.of_akin hquery hakin.symm hrenewed hcurrent
    obtain ⟨next, ho⟩ := hdeep enough (Nat.le_refl enough)
    exact answers_iff.mpr ⟨enough, next, ho⟩
  refine ⟨fun result => ⟨hthere, hback⟩, ?_⟩
  intro result result' h h'
  exact Answers.unique hquery hrenewed (hthere h) h'

/-- Items are granted and revoked, a rule and a query fail, and the last survey is older than the
last grant. What can be had is still what a new atlas would tell. -/
theorem answers_as_renewed_after_failures :
    let regions : List Region :=
      [⟨"yard", "", [⟨"hall", "key", "key"⟩], []⟩,
       ⟨"hall", "", [], [⟨"chest", "at(\"hall\", lamp)", "", ""⟩]⟩]
    let globals := (Env.builtins.insert "key" (.bool false)).insert "lamp" (.bool false)
    let start : Session := ⟨.new (.fresh {} globals Env.noHosts) regions none, 0, false⟩
    let requests : List Request :=
      [.build, .grant "key", .check "at(\"hall\", TRUE)" none, .graph "ELDER", .grant "lamp",
       .check "missing" none, .revoke "key", .build, .grant "key"]
    let query : Request := .available "CHILD" "yard"
    ∃ turns now, replay 8 [] start requests = some (turns, now) ∧
      now.renewed.Answers query (.ok (.ids ["chest"])) := by
  intro regions globals start requests query
  have hrun : ((replay 8 [] start requests).bind fun past =>
    (past.2.step 8 query).map fun answered =>
      (past.1.all (·.request.isForAtlas), answered.1.result)) =
        some (true, .ok (.ids ["chest"])) := by
    decide +kernel
  obtain ⟨⟨turns, now⟩, hreplay, hquery⟩ := Option.bind_eq_some_iff.mp hrun
  obtain ⟨⟨report, next⟩, hstep, hseen⟩ := Option.map_eq_some_iff.mp hquery
  obtain ⟨hfor, hresult⟩ := Prod.mk.inj hseen
  have hpast : start.Past turns now := Past.start.replay hreplay
  have hall : ∀ turn ∈ turns, turn.request.isForAtlas = true := List.all_eq_true.mp hfor
  have hanswers : now.Answers query (.ok (.ids ["chest"])) := ⟨8, report, next, hstep, hresult⟩
  refine ⟨turns, now, hreplay, ?_⟩
  exact ((answers_as_renewed hpast rfl rfl hall rfl).1 _).mp hanswers

end Passage
