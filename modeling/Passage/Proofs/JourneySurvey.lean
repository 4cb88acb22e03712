import Passage.Proofs.FormulaRules
import Passage.Proofs.Journeys
import Passage.Proofs.LeastSurvey

/-!
# Journeys and surveys agree

A journey and a survey over the same regions find the same ways, where the exits have one rule for
both contexts and the rules are formulas over flags with one truth value for both. Such rules have a
verdict that does not depend on the draft (`Draft.Settled`), so a survey finds an edge exactly if
the rule of a step holds; the exits that a journey forbids are edges taken out of the graphs.

The frame of a call in progress hides globals from rules, and a journey knows nothing of it.
-/
namespace Passage

namespace Graph

/-- The graph without some of its edges. -/
def without (g : Graph) (banned : String → String → Bool) : Graph where
  nodes := g.nodes.map fun source destinations => destinations.filter fun d => !banned source d
  edges := g.edges.filter fun edge => !banned edge.1 edge.2

theorem leads_without {g : Graph} {banned : String → String → Bool} {source destination : String} :
    (g.without banned).Leads source destination ↔
      g.Leads source destination ∧ banned source destination = false := by
  unfold Leads destinations without
  rw [Table.get?_map]
  cases g.nodes.get? source with
  | none => simp
  | some found => simp

end Graph

namespace Draft

/-- Some steps have the same verdict against all drafts. -/
def Settled (root : Option String) (env : Env) (steps : List Step) (truth : Step → Bool) : Prop :=
  ∀ draft : Draft, ∀ step ∈ steps, draft.Verdict root env step (truth step)

variable {last : Draft} {root : Option String} {env : Env} {steps : List Step} {truth : Step → Bool}
  {rounds : List Round} {regions : List Region}

theorem Settled.holds (h : Settled root env steps truth) {draft : Draft} {step : Step}
    (hstep : step ∈ steps) {holds : Bool} (hverdict : draft.Verdict root env step holds) :
    truth step = holds := by
  cases hverdict.unique (h draft step hstep)
  rfl

theorem Settled.steady (h : Settled root env steps truth) : Steady root env steps where
  decided draft _ step hstep := ⟨truth step, h draft step hstep⟩
  kept draft larger _ _ _ step hstep hverdict := by
    rw [← h.holds hstep hverdict]
    exact h larger step hstep

/-- Every edge of the draft is that of a step that holds. -/
structure Justified (steps : List Step) (truth : Step → Bool) (draft : Draft) : Prop where
  coherent : draft.Coherent
  held : ∀ side, ∀ edge ∈ (draft.graph side).edges, ∃ step ∈ steps,
    step.side = side ∧ (step.source, step.destination) = edge ∧ truth step = true

theorem Justified.add {draft : Draft} (h : Justified steps truth draft) {step : Step}
    (hstep : step ∈ steps) (htruth : truth step = true) :
    Justified steps truth (draft.add step) where
  coherent := h.coherent.add step
  held side edge hedge := by
    rcases mem_edges_add hedge with hold | ⟨rfl, rfl⟩
    · exact h.held side edge hold
    · exact ⟨step, hstep, rfl, rfl, htruth⟩

theorem justified_bare (regions : List Region) : Justified steps truth (bare regions) where
  coherent := coherent_bare regions
  held side edge hedge := by
    rw [edges_bare] at hedge
    cases hedge

/-- The edges that passes find are those of the steps that hold. -/
theorem Settled.leads_iff (h : Settled root env (Survey.steps regions) truth)
    (hpasses : Passes root env (Survey.steps regions) (bare regions) rounds last) (side : Side)
    (source destination : String) :
    (last.graph side).Leads source destination ↔ ∃ step ∈ Survey.steps regions,
      step.side = side ∧ step.source = source ∧ step.destination = destination ∧
      truth step = true := by
  obtain ⟨history, hgrows⟩ := hpasses.grows
  have hlast : Justified (Survey.steps regions) truth last :=
    hgrows.invariant (fun _ hdraft _ hstep hverdict => hdraft.add hstep (h.holds hstep hverdict))
      (justified_bare regions)
  constructor
  · intro hleads
    have hedge := (hlast.coherent side source destination).mpr (Graph.hasEdge_iff.mpr hleads)
    obtain ⟨step, hstep, hside, hends, htruth⟩ := hlast.held side _ hedge
    obtain ⟨hsource, hdestination⟩ := Prod.mk.inj hends
    exact ⟨step, hstep, hside, hsource, hdestination, htruth⟩
  · rintro ⟨step, hstep, rfl, rfl, rfl, htruth⟩
    refine Graph.hasEdge_iff.mp ?_
    cases hknown : last.knows step with
    | true => exact hknown
    | false =>
      have hfalse := h.holds hstep (hpasses.stable step hstep hknown)
      rw [htruth] at hfalse
      cases hfalse

end Draft

namespace Terrain

/-- The regions of a survey as the territories of a journey, which asks the first rules only. -/
def ofRegions (regions : List Region) (bans : Table Ban) (flags : Table Value) : Terrain where
  territories := .ofList (regions.map fun region =>
    (region.id, .exits (.ofList (region.exits.map fun exit =>
      (exit.destination, .text exit.firstRule)))))
  bans := bans.map fun _ ban => .ok ban
  flags := flags

variable {regions : List Region} {bans : Table Ban} {flags : Table Value}

theorem territory_ofRegions (hids : (regions.map Region.id).Nodup) {source : String}
    {territory : Territory} :
    (ofRegions regions bans flags).territories.get? source = some territory ↔
      ∃ region ∈ regions, region.id = source ∧
        .exits (.ofList (region.exits.map fun exit => (exit.destination, .text exit.firstRule))) =
          territory := by
  have hnodup : ((regions.map fun region => (region.id, Territory.exits
      (.ofList (region.exits.map fun exit => (exit.destination, .text exit.firstRule))))).map
        Prod.fst).Nodup := by
    simpa [Function.comp_def] using hids
  rw [Table.get?_eq_some_iff, ofRegions, Table.entries_ofList hnodup]
  simp only [List.mem_map, Prod.mk.injEq]

theorem exits_ofRegions (hids : (regions.map Region.id).Nodup) (source : String) :
    ∃ entries, (ofRegions regions bans flags).exits source = .ok entries := by
  cases hexits : (ofRegions regions bans flags).exits source with
  | ok entries => exact ⟨entries, rfl⟩
  | error e =>
    obtain ⟨shape, ⟨hshape, _⟩ | ⟨hshape, _⟩⟩ := exits_eq_error_iff.mp hexits
    all_goals
      obtain ⟨_, _, _, hterritory⟩ := (territory_ofRegions hids).mp hshape
      cases hterritory

/-- Among regions it can always be told whether an exit is forbidden. -/
theorem barred_ofRegions (source destination : String) :
    (ofRegions regions bans flags).barred source destination =
      .ok ((ofRegions regions bans flags).forbids source destination) := by
  unfold forbids barred ofRegions
  rw [Table.get?_map]
  cases bans.get? source <;> rfl

theorem offers_ofRegions (hids : (regions.map Region.id).Nodup)
    (hdestinations : ∀ region ∈ regions, (region.exits.map Exit.destination).Nodup)
    {source destination : String} {rule : Value} :
    (ofRegions regions bans flags).Offers source destination rule ↔
      (∃ region ∈ regions, ∃ exit ∈ region.exits,
        region.id = source ∧ exit.destination = destination ∧ .text exit.firstRule = rule) ∧
      (ofRegions regions bans flags).forbids source destination = false := by
  have hrule {region : Region} (hregion : region ∈ regions) :
      (Table.ofList (region.exits.map fun exit =>
          (exit.destination, Value.text exit.firstRule))).get? destination = some rule ↔
        ∃ exit ∈ region.exits, exit.destination = destination ∧ .text exit.firstRule = rule := by
    have hnodup : ((region.exits.map fun exit =>
        (exit.destination, Value.text exit.firstRule)).map Prod.fst).Nodup := by
      simpa [Function.comp_def] using hdestinations region hregion
    rw [Table.get?_eq_some_iff, Table.entries_ofList hnodup]
    simp only [List.mem_map, Prod.mk.injEq]
  rw [offers_iff, barred_ofRegions, Except.ok.injEq]
  refine and_congr_left fun _ => ?_
  constructor
  · intro ⟨rules, hterritory, hends⟩
    obtain ⟨region, hregion, hid, heq⟩ := (territory_ofRegions hids).mp hterritory
    cases heq
    obtain ⟨exit, hexit, hends⟩ := (hrule hregion).mp hends
    exact ⟨region, hregion, exit, hexit, hid, hends⟩
  · rintro ⟨region, hregion, exit, hexit, rfl, hends⟩
    exact ⟨_, (territory_ofRegions hids).mpr ⟨region, hregion, rfl, rfl⟩,
      (hrule hregion).mpr ⟨exit, hexit, hends⟩⟩

theorem check_ofRegions {rule : String} {b : Bool} (h : checkFormula flags rule = .ok b) :
    (ofRegions regions bans flags).check (.text rule) = .ok b := by
  have hcheck : (ofRegions regions bans flags).check (.text rule) =
      (checkFormula flags rule).mapError .rule := rfl
  rw [hcheck, h]
  rfl

end Terrain

namespace Formula

/-- A rule is a formula without lower-case literals. Its flags are truth values, and globals that
are the same truth values; none of them is the selector. -/
structure Shared (flags : Table Value) (env : Env) (rule : String) (f : Formula) : Prop where
  read : ofText rule = .ok f
  upperCase : ∀ tokens, Passage.Token.scan rule = .ok tokens →
    ∀ b, .name (lowerCase b) ∉ tokens.map Passage.Token.symbol
  bound : ∀ name ∈ f.flags, name ≠ env.config.selector ∧
    ∃ b, flags.get? name = some (.bool b) ∧ env.globals.get? name = some (.bool b)

/-- No frame hides a flag of a formula behind another value. -/
def InSight (env : Env) (f : Formula) : Prop :=
  ∀ name ∈ f.flags, ∀ value, env.local? name = some value → env.globals.get? name = some value

variable {flags : Table Value} {env : Env} {rule : String} {f : Formula}

/-- A shared rule in sight holds against all drafts or against none, as its formula does. -/
theorem Shared.checks (h : Shared flags env rule f) (hsight : f.InSight env) :
    ∃ b, checkFormula flags rule = .ok b ∧ ∀ (draft : Draft) (root : Option String) (side : Side),
      (draft.publish root env).Checks (some (env.config.contexts.label side)) rule (.ok b) := by
  obtain ⟨tokens, e, hscan, hderives, hwritten⟩ := derives_of_ofText h.read
  have hvalue {name : String} (hname : name ∈ f.flags) (label : String) :
      ∃ b, flagValue flags name = .ok b ∧ env.lookup name (some label) = .ok (.bool b) := by
    obtain ⟨hselector, b, hflag, hglobal⟩ := h.bound name hname
    refine ⟨b, by rw [flagValue, hflag], ?_⟩
    cases hlocal : env.local? name with
    | none => simp only [Env.lookup, hlocal, hselector, hglobal, decide_false]
    | some value =>
      have hsame := hsight name hname value hlocal
      rw [hglobal] at hsame
      cases hsame
      simp only [Env.lookup, hlocal]
  obtain ⟨b, hb⟩ : ∃ b, f.eval flags = .ok b := by
    refine ⟨_, eval_of_isFlag fun name hname => ?_⟩
    obtain ⟨_, b, hflag, _⟩ := h.bound name hname
    exact ⟨b, hflag⟩
  refine ⟨b, by rw [checkFormula_of_ofText h.read, hb]; rfl, fun draft root side => ?_⟩
  have hflags : ∀ name ∈ f.flags, (∀ b, name ≠ lowerCase b) → SameResult (flagValue flags name)
      ((draft.publish root env).lookup name (some (env.config.contexts.label side))) := by
    intro name hname _
    obtain ⟨b, hflag, hlookup⟩ := hvalue hname (env.config.contexts.label side)
    rw [Draft.lookup_publish, hflag, hlookup]
    exact .truth b
  obtain ⟨result, hsame, hevaluates⟩ := hwritten.evaluates
    (fun b hb => absurd (hderives.name_mem hb) (h.upperCase tokens hscan b)) hflags
  rw [hb] at hsame
  cases hsame
  exact Env.checks_of_evaluates (expr_of_derives hscan hderives _) hevaluates

end Formula

/-- Whether the rule of a step holds as a formula. -/
def Step.holdsBy (flags : Table Value) (step : Step) : Bool :=
  (checkFormula flags step.rule).toOption.getD false

/-- Regions that a survey and a journey can have in common: both contexts have the same rules. -/
structure Region.Common (flags : Table Value) (env : Env) (regions : List Region) : Prop where
  ids : (regions.map Region.id).Nodup
  destinations : ∀ region ∈ regions, (region.exits.map Exit.destination).Nodup
  rules : ∀ region ∈ regions, ∀ exit ∈ region.exits, exit.secondRule = exit.firstRule ∧
    ∃ f, Formula.Shared flags env exit.firstRule f

/-- No frame hides a flag in the rules of the regions behind another value. -/
def Region.InSight (env : Env) (regions : List Region) : Prop :=
  ∀ region ∈ regions, ∀ exit ∈ region.exits, ∀ f, Formula.ofText exit.firstRule =
    .ok f → f.InSight env

namespace Region.Common

variable {flags : Table Value} {env : Env} {regions : List Region}

theorem rule_eq (h : Common flags env regions) {region : Region} (hregion : region ∈ regions)
    {exit : Exit} (hexit : exit ∈ region.exits) (side : Side) :
    exit.rule side = exit.firstRule := by
  cases side with
  | first => rfl
  | second => exact (h.rules region hregion exit hexit).1

theorem checks (h : Common flags env regions) (hsight : InSight env regions) {region : Region}
    (hregion : region ∈ regions) {exit : Exit} (hexit : exit ∈ region.exits) :
    ∃ b, checkFormula flags exit.firstRule = .ok b ∧
      ∀ (draft : Draft) (root : Option String) (side : Side),
        (draft.publish root env).Checks (some (env.config.contexts.label side))
          exit.firstRule (.ok b) := by
  obtain ⟨_, f, hshared⟩ := h.rules region hregion exit hexit
  exact hshared.checks (hsight region hregion exit hexit f hshared.read)

theorem settled (h : Common flags env regions) (hsight : InSight env regions)
    (root : Option String) :
    Draft.Settled root env (Survey.steps regions) (Step.holdsBy flags) := by
  intro draft step hstep
  obtain ⟨region, hregion, exit, hexit, side, rfl⟩ := Survey.mem_steps.mp hstep
  obtain ⟨b, hformula, hchecks⟩ := h.checks hsight hregion hexit
  unfold Draft.Verdict Step.holdsBy
  dsimp only
  rw [h.rule_eq hregion hexit, hformula]
  exact hchecks draft root side

/-- An exit can be used on a journey exactly if its rule holds in a survey, and it is not
forbidden. -/
theorem leads_iff (h : Common flags env regions) (hsight : InSight env regions) {bans : Table Ban}
    (side : Side) (source destination : String) :
    (Terrain.ofRegions regions bans flags).Leads source destination ↔
      (∃ step ∈ Survey.steps regions, step.side = side ∧ step.source = source ∧
        step.destination = destination ∧ step.holdsBy flags = true) ∧
      (Terrain.ofRegions regions bans flags).forbids source destination = false := by
  constructor
  · intro ⟨rule, hoffers, hholds⟩
    obtain ⟨⟨region, hregion, exit, hexit, hsource, hdestination, rfl⟩, hallowed⟩ :=
      (Terrain.offers_ofRegions h.ids h.destinations).mp hoffers
    have hstep := Survey.mem_steps.mpr ⟨region, hregion, exit, hexit, side, rfl⟩
    refine ⟨⟨_, hstep, rfl, hsource, hdestination, ?_⟩, hallowed⟩
    obtain ⟨b, hformula, _⟩ := h.checks hsight hregion hexit
    rw [Terrain.check_ofRegions hformula] at hholds
    cases hholds
    unfold Step.holdsBy
    dsimp only
    rw [h.rule_eq hregion hexit, hformula]
    rfl
  · intro ⟨⟨step, hstep, _, hsource, hdestination, hholds⟩, hallowed⟩
    obtain ⟨region, hregion, exit, hexit, side', rfl⟩ := Survey.mem_steps.mp hstep
    refine ⟨_, (Terrain.offers_ofRegions h.ids h.destinations).mpr
      ⟨⟨region, hregion, exit, hexit, hsource, hdestination, rfl⟩, hallowed⟩, ?_⟩
    obtain ⟨b, hformula, _⟩ := h.checks hsight hregion hexit
    unfold Step.holdsBy at hholds
    dsimp only at hholds
    rw [h.rule_eq hregion hexit, hformula] at hholds
    cases hholds
    exact Terrain.check_ofRegions hformula

theorem not_fails (h : Common flags env regions) (hsight : InSight env regions) {bans : Table Ban}
    (source : String) (e : JourneyError) :
    ¬(Terrain.ofRegions regions bans flags).Fails source e := by
  intro hfails
  cases hfails with
  | exits hexits =>
    obtain ⟨entries, hentries⟩ : ∃ entries, (Terrain.ofRegions regions bans flags).exits source =
      .ok entries := Terrain.exits_ofRegions h.ids source
    rw [hentries] at hexits
    cases hexits
  | @barred destination e hbarred =>
    have hknown : (Terrain.ofRegions regions bans flags).barred source destination = .ok _ :=
      Terrain.barred_ofRegions source destination
    rw [hknown] at hbarred
    cases hbarred
  | rule hoffers hfault =>
    obtain ⟨⟨region, hregion, exit, hexit, _, _, rfl⟩, _⟩ :=
      (Terrain.offers_ofRegions h.ids h.destinations).mp hoffers
    obtain ⟨b, hformula, _⟩ := h.checks hsight hregion hexit
    rw [Terrain.check_ofRegions hformula] at hfault
    cases hfault

end Region.Common

/-- Where no frame hides a flag, the regions have a survey, and in each of its graphs, without the
forbidden edges, a region can be reached from another one exactly if a journey says so. -/
theorem journey_iff_survey {flags : Table Value} {env : Env} {regions : List Region}
    (h : Region.Common flags env regions) (hsight : Region.InSight env regions)
    (root : Option String) :
    (∃ enough, ∀ depth ≥ enough, ∃ survey after,
      (Survey.build depth regions root).outcome env = some (.ok survey, after)) ∧
    ∀ depth survey after, (Survey.build depth regions root).outcome env = some (.ok survey, after) →
      ∀ side bans start goal,
        let terrain := Terrain.ofRegions regions bans flags
        terrain.canReach start goal =
          .ok (((survey.graph side).without terrain.forbids).canReach start goal) := by
  have hsettled := h.settled hsight (Survey.rootFor env.config regions root)
  refine ⟨Survey.build_of_steady hsettled.steady, ?_⟩
  intro depth survey after hbuild side bans start goal terrain
  obtain ⟨last, hpasses, hfirst, hsecond, _⟩ := Draft.passes_of_build hbuild
  have hgraph : survey.graph side = last.graph side := by
    cases side with
    | first => exact hfirst
    | second => exact hsecond
  have hleads : terrain.Leads = ((survey.graph side).without terrain.forbids).Leads := by
    funext source destination
    rw [Graph.leads_without, hgraph, hsettled.leads_iff hpasses, h.leads_iff hsight side]
  obtain ⟨reached, hresult, hreached⟩ :=
    terrain.canReach_eq_ok fun source e _ => h.not_fails hsight source e
  rw [hresult, Except.ok.injEq, Bool.eq_iff_iff, hreached, Graph.canReach_iff,
    Terrain.Path, Graph.Path, hleads]

/-- A circle of two regions, a way from a region to itself and a forbidden exit, while a frame binds
a flag to the value that it has anyway. -/
theorem journey_iff_survey_forbidden_tower :
    let flags : Table Value := .ofList [("key", .bool true), ("boat", .bool false)]
    let env := (Env.fresh {} (.ofList [("key", .bool true), ("boat", .bool false)])
      Env.noHosts).push
      (.ofList [("lamp", .bool true), ("boat", .bool false)])
    let toTower : Exit := ⟨"tower", "key", "key"⟩
    let onward (destination : String) : Exit :=
      ⟨destination, "key AND (boat OR TRUE)", "key AND (boat OR TRUE)"⟩
    let regions : List Region :=
      [⟨"yard", "", [onward "yard", toTower, onward "well"], []⟩,
       ⟨"well", "", [onward "yard", onward "cave"], []⟩]
    let terrain := Terrain.ofRegions regions (.ofList [("yard", .ids ["tower"])]) flags
    ∃ depth survey after, (Survey.build depth regions none).outcome env = some (.ok survey, after) ∧
      ∀ side, ((survey.graph side).without terrain.forbids).canReach "yard" "cave" = true ∧
        ((survey.graph side).without terrain.forbids).canReach "yard" "tower" = false := by
  intro flags env toTower onward regions terrain
  have hbound : ∀ name ∈ ["key", "boat"], name ≠ env.config.selector ∧
      ∃ b, flags.get? name = some (.bool b) ∧ env.globals.get? name = some (.bool b) := by
    simp only [List.forall_mem_cons, List.not_mem_nil, false_implies, implies_true, and_true]
    exact ⟨⟨by decide, true, rfl, rfl⟩, by decide, false, rfl, rfl⟩
  have hkey : Formula.Shared flags env "key" (.flag "key") := by
    refine ⟨by decide +kernel, fun tokens hscan b => ?_, fun name hname => hbound name ?_⟩
    · have htokens : Token.scan "key" = .ok [⟨.name "key", 1⟩] := rfl
      cases htokens.symm.trans hscan
      cases b <;> decide
    · exact List.mem_cons.mpr (.inl (List.mem_singleton.mp hname))
  have honward : Formula.Shared flags env "key AND (boat OR TRUE)"
      (.and (.flag "key") (.or (.flag "boat") (.const true))) := by
    refine ⟨by decide +kernel, fun tokens hscan b => ?_, fun name hname => hbound name hname⟩
    have htokens : Token.scan "key AND (boat OR TRUE)" =
      .ok [⟨.name "key", 1⟩, ⟨.and, 5⟩, ⟨.opening, 9⟩,
      ⟨.name "boat", 10⟩, ⟨.or, 15⟩, ⟨.bool true, 18⟩, ⟨.closing, 22⟩] := rfl
    cases htokens.symm.trans hscan
    cases b <;> decide
  have hall {P : Exit → Prop} (htower : P toTower) (hways : ∀ destination, P (onward destination)) :
      ∀ region ∈ regions, ∀ exit ∈ region.exits, P exit := by
    simp only [regions, List.forall_mem_cons, List.not_mem_nil, false_implies,
      implies_true, and_true]
    exact ⟨⟨hways _, htower, hways _⟩, hways _, hways _⟩
  have hcommon : Region.Common flags env regions := by
    refine ⟨by decide, by decide, hall ⟨rfl, _, hkey⟩ fun _ => ⟨rfl, _, honward⟩⟩
  have hsight : Region.InSight env regions := by
    have hframe : ∀ name ∈ ["key", "boat"], ∀ value, env.local? name = some value →
        env.globals.get? name = some value := by
      simp only [List.forall_mem_cons, List.not_mem_nil, false_implies, implies_true, and_true]
      exact ⟨nofun, fun value hlocal => hlocal⟩
    have hread {rule : String} {f : Formula} (hshared : Formula.Shared flags env rule f)
        (hnames : f.flags ⊆ ["key", "boat"]) (g : Formula) (hg : Formula.ofText rule = .ok g) :
        g.InSight env := by
      cases hshared.read.symm.trans hg
      exact fun name hname => hframe name (hnames hname)
    exact hall (hread hkey (by decide)) fun _ => hread honward (by decide)
  obtain ⟨⟨depth, hbuild⟩, hagree⟩ := journey_iff_survey hcommon hsight none
  obtain ⟨survey, after, hsurvey⟩ := hbuild depth (Nat.le_refl depth)
  have hcave : (terrain.canReach "yard" "cave").toOption = some true := by decide +kernel
  have htower : (terrain.canReach "yard" "tower").toOption = some false := by decide +kernel
  refine ⟨depth, survey, after, hsurvey, fun side => ⟨?_, ?_⟩⟩
  · rw [hagree depth survey after hsurvey side] at hcave
    exact Option.some.inj hcave
  · rw [hagree depth survey after hsurvey side] at htower
    exact Option.some.inj htower

/-- A frame in the way: a journey goes by the flag and a survey by what the frame binds. -/
theorem journey_ne_survey_behind_frame :
    let flags : Table Value := .ofList [("x", .bool true)]
    let env := (Env.fresh {} (.ofList [("x", .bool true)]) Env.noHosts).push
      (.ofList [("x", .bool false)])
    let regions : List Region := [⟨"a", "", [⟨"b", "x", "x"⟩], []⟩]
    let terrain := Terrain.ofRegions regions .empty flags
    Region.Common flags env regions ∧ terrain.canReach "a" "b" = .ok true ∧
      ∃ survey after, (Survey.build 8 regions none).outcome env = some (.ok survey, after) ∧
        ∀ side, ((survey.graph side).without terrain.forbids).canReach "a" "b" = false := by
  intro flags env regions terrain
  have hshared : Formula.Shared flags env "x" (.flag "x") := by
    refine ⟨by decide +kernel, ?_, ?_⟩
    · intro tokens hscan b
      have htokens : Token.scan "x" = .ok [⟨.name "x", 1⟩] := rfl
      cases htokens.symm.trans hscan
      cases b <;> decide
    · intro name hname
      cases List.mem_singleton.mp hname
      exact ⟨by decide, true, rfl, rfl⟩
  refine ⟨⟨by decide, by decide, ?_⟩, rfl, ?_⟩
  · intro region hregion exit hexit
    cases List.mem_singleton.mp hregion
    cases List.mem_singleton.mp hexit
    exact ⟨rfl, _, hshared⟩
  · have hrun : (((Survey.build 8 regions none).outcome env).bind fun pair =>
        pair.1.toOption.map fun survey => ((survey.first.without terrain.forbids).canReach "a" "b",
          (survey.second.without terrain.forbids).canReach "a" "b")) = some (false, false) := by
      decide +kernel
    obtain ⟨survey, after, hbuild, hgraphs⟩ := Action.ok_of_seen hrun
    obtain ⟨hfirst, hsecond⟩ := Prod.mk.inj hgraphs
    refine ⟨survey, after, hbuild, fun side => ?_⟩
    cases side with
    | first => exact hfirst
    | second => exact hsecond

end Passage
