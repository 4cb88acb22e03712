import Passage.Chain
import Passage.Proofs.HelperCalls
import Passage.Proofs.OnePass
import Passage.Proofs.Writing

/-!
# The chain, surveyed

The survey of the chain has a closed form (`surveyed_in_order`). Its helpers have been read once and
for all, so the rule of an exit comes to a truth value that depends on nothing but the label of the
context and on one granted flag each: the key that the rule names, or the skip. The exits back ask
for a region that is always reached. So no verdict changes while edges are found, and one pass over
the regions finds them in the order of the regions.
-/
namespace Passage.Chain

/-! ## Names and rules -/

/-- The names that stand for truth values. -/
def flags : List String := (List.range 7).map key ++ [skip]

theorem key_mem_flags (place : Nat) : key place ∈ flags := by
  have hlt : place % 7 ∈ List.range 7 := List.mem_range.mpr (Nat.mod_lt place (by decide))
  have hsame : key (place % 7) = key place := by rw [key, key, Nat.mod_mod]
  exact List.mem_append_left _ (List.mem_map.mpr ⟨_, hlt, hsame⟩)

theorem isName_of_mem_flags : ∀ name ∈ flags, Expr.IsName name := by decide

theorem regionId_inj {place place' : Nat} : regionId place = regionId place' ↔ place = place' := by
  constructor
  · intro h
    have hdigits : Nat.toDigits 10 place = Nat.toDigits 10 place' := by
      refine String.ofList_inj.mp ?_
      simpa [regionId, Nat.repr_eq_ofList_toDigits] using h
    have hvalue := congrArg (fun digits => Nat.ofDigitChars 10 digits 0) hdigits
    simpa [Nat.ofDigitChars_toDigits] using hvalue
  · rintro rfl
    rfl

/-- The rule that asks for a flag. -/
def ask (name : String) : String := "canPass(\x22" ++ name ++ "\x22)"

theorem read_ask : ∀ name ∈ flags, Expr.ofText (ask name) =
    .ok (.call (.var "canPass") (.text name)) := by
  decide +kernel

theorem read_flag {name : String} (h : Expr.IsName name) : Expr.ofText name = .ok (.var name) :=
  Expr.Canonical.read (e := .var name) (.inr (.var h))

theorem read_back : Expr.ofText "at(\x22R0\x22, TRUE)" =
    .ok (.call (.var "at") (.binary .sequence (.text "R0") (.bool true))) := by
  decide +kernel

/-! ## The environment -/

/-- The body of a helper that asks for a label. -/
def isLabel (label : String) : Expr := .binary .equal (.var "AGE") (.text label)

/-- The body of the helper that asks for a flag. -/
def passable : Expr :=
  .binary .or (.binary .and (.call (.var "isAdult") .empty) (.call (.var "eval") (.var "key")))
    (.binary .and (.call (.var "isChild") .empty) (.var skip))

/-- An environment that knows the helpers, and the flags that have been granted. -/
structure Knows (granted : List String) (env : Env) : Prop where
  config : env.config = {}
  isAdult : env.globals.get? "isAdult" = some (.function [] (isLabel "ADULT"))
  isChild : env.globals.get? "isChild" = some (.function [] (isLabel "CHILD"))
  canPass : env.globals.get? "canPass" = some (.function ["key"] passable)
  evalText : env.globals.get? "eval" = some (.native .evalText)
  atPlace : env.globals.get? "at" = some (.native .atPlace)
  flag : ∀ name ∈ flags, env.globals.get? name = some (.bool (granted.contains name))

/-- What the names of the world are bound to before anything is granted. -/
def bindings : List (String × Expr) :=
  flags.map (fun name => (name, .bool false)) ++
    [("isAdult", .function [] (isLabel "ADULT")), ("isChild", .function [] (isLabel "CHILD")),
      ("canPass", .function ["key"] passable), ("AGE", .text "CHILD")]

theorem bindings_seed : seed.bindings {} = .ok bindings := by
  decide +kernel

/-- There is the environment of this world, and what is granted in it is all that differs. -/
theorem exists_env {granted : List String} (h : ∀ name ∈ granted, name ∈ flags) :
    ∃ env, Chain.env granted = .ok env ∧ env.stack = [] ∧ Knows granted env := by
  refine ⟨(Env.fresh {} (Env.builtins.insertAll bindings) Env.noHosts).bindAll
    (granted.map fun name => (name, .bool true)), ?_, rfl, ?_⟩
  · rw [Chain.env, Seed.env, bindings_seed]
    rfl
  have hget (name : String) : ((Env.builtins.insertAll bindings).insertAll
      (granted.map fun name => (name, .bool true))).get? name =
      if name ∈ granted then some (.bool true) else (Env.builtins.insertAll bindings).get? name :=
    Table.get?_insertAll_same _ granted _ name
  have hkept {name : String} {value : Expr} (hname : name ∉ flags)
      (hvalue : (Env.builtins.insertAll bindings).get? name =
        some value) : ((Env.builtins.insertAll bindings).insertAll
      (granted.map fun name => (name, .bool true))).get? name = some value := by
    rw [hget, if_neg fun hmem => hname (h name hmem), hvalue]
  have hflags : ∀ name ∈ flags, (Env.builtins.insertAll bindings).get? name =
      some (.bool false) := by
    decide +kernel
  refine ⟨rfl, ?_, ?_, ?_, ?_, ?_, fun name hname => (hget name).trans ?_⟩
  · exact hkept (by decide) (by decide +kernel)
  · exact hkept (by decide) (by decide +kernel)
  · exact hkept (by decide) (by decide +kernel)
  · exact hkept (by decide) (by decide +kernel)
  · exact hkept (by decide) (by decide +kernel)
  · rw [hflags name hname, List.contains_eq_mem]
    by_cases hgranted : name ∈ granted
    · rw [if_pos hgranted, decide_eq_true hgranted]
    · rw [if_neg hgranted, decide_eq_false hgranted]

/-- Whether an exit to the next region that asks for a flag can be used under a label. -/
def opens (granted : List String) (label name : String) : Bool :=
  (label == "ADULT") && granted.contains name || (label == "CHILD") && granted.contains skip

theorem opens_child (granted : List String) (name : String) :
    opens granted "CHILD" name = granted.contains skip := by
  simp [opens]

theorem opens_adult (granted : List String) (name : String) :
    opens granted "ADULT" name = granted.contains name := by
  simp [opens]

namespace Knows

variable {granted : List String} {env : Env} {name : String}

theorem push (h : Knows granted env) (frame : Frame) : Knows granted (env.push frame) :=
  ⟨h.config, h.isAdult, h.isChild, h.canPass, h.evalText, h.atPlace, h.flag⟩

theorem publish (h : Knows granted env) (draft : Draft) (root : Option String) :
    Knows granted (draft.publish root env) :=
  ⟨h.config, h.isAdult, h.isChild, h.canPass, h.evalText, h.atPlace, h.flag⟩

theorem lookup_selector (h : Knows granted env) (hlocal : env.local? "AGE" = none)
    (label : String) : env.lookup "AGE" (some label) = .ok (.text label) := by
  simp [Env.lookup, hlocal, h.config]

theorem lookup_global (h : Knows granted env) {value : Expr} (hlocal : env.local? name = none)
    (hne : name ≠ "AGE") (hglobal : env.globals.get? name = some value) (label : String) :
    env.lookup name (some label) = .ok value :=
  Env.lookup_of_global hlocal (by rw [h.config]; exact hne) hglobal (some label)

/-- The label of the context is seen from inside a helper. -/
theorem evaluates_isLabel (h : Knows granted env) {asked : String} (hlocal : env.local? name = none)
    (hne : name ≠ "AGE") (hglobal : env.globals.get? name = some (.function [] (isLabel asked)))
    (label : String) :
    env.Evaluates (some label) (.call (.var name) .empty) (.ok (.bool (label == asked))) := by
  refine Env.evaluates_helper (h.lookup_global hlocal hne hglobal label) .nil rfl ?_
  have hselector : (env.push (.ofList ([].zip []))).Evaluates (some label) (.var "AGE")
      (.ok (.text label)) := by
    have hlocal : (env.push (.ofList ([].zip []))).local? "AGE" = none := rfl
    rw [← (h.push _).lookup_selector hlocal label]
    exact Env.evaluates_var "AGE"
  exact Env.evaluates_binary (by decide) hselector (Env.evaluates_value rfl)

theorem evaluates_flag (h : Knows granted env) (hname : name ∈ flags)
    (hlocal : env.local? name = none) (label : String) :
    env.Evaluates (some label) (.var name) (.ok (.bool (granted.contains name))) := by
  have hne : name ≠ "AGE" := by
    rintro rfl
    exact absurd hname (by decide)
  rw [← h.lookup_global hlocal hne (h.flag name hname) label]
  exact Env.evaluates_var name

/-- The name of the flag is a text in the frame, and the flag itself is looked up behind the
frame. -/
theorem evaluates_passable (h : Knows granted env) (hname : name ∈ flags)
    (hkey : env.local? "key" = some (.text name))
    (hlocal : ∀ other, other ≠ "key" → env.local? other = none) (label : String) :
    env.Evaluates (some label) passable (.ok (.bool (opens granted label name))) := by
  have hflag {other : String} (hother : other ∈ flags) : env.local? other = none := by
    refine hlocal other ?_
    rintro rfl
    exact absurd hother (by decide)
  have hadult := h.evaluates_isLabel (hlocal "isAdult" (by decide)) (by decide) h.isAdult label
  have hchild := h.evaluates_isLabel (hlocal "isChild" (by decide)) (by decide) h.isChild label
  have hskip : env.Evaluates (some label) (.var skip) (.ok (.bool (granted.contains skip))) :=
    h.evaluates_flag (by decide) (hflag (by decide)) label
  have heval : env.Evaluates (some label) (.call (.var "eval") (.var "key"))
      (.ok (.bool (granted.contains name))) := by
    have hlookup := h.lookup_global (hlocal "eval" (by decide)) (by decide) h.evalText label
    have htext : env.lookup "key" (some label) = .ok (.text name) := by
      unfold Env.lookup
      rw [hkey]
    have hread : RuleText.expr ⟨name, env.config.allowTrailing⟩ = .ok (.var name) := by
      rw [h.config]
      exact read_flag (isName_of_mem_flags name hname)
    exact Env.evaluates_evalText hlookup rfl (htext ▸ Env.evaluates_var "key") hread
      (h.evaluates_flag hname (hflag hname) label)
  have hand : BinaryOp.and ≠ .sequence := nofun
  have hor : BinaryOp.or ≠ .sequence := nofun
  exact Env.evaluates_binary hor (Env.evaluates_binary hand hadult heval)
    (Env.evaluates_binary hand hchild hskip)

theorem checks_ask (h : Knows granted env) (hstack : env.stack = []) (hname : name ∈ flags)
    (label : String) : env.Checks (some label) (ask name) (.ok (opens granted label name)) := by
  have hlookup := h.lookup_global (Env.local?_of_stack_nil hstack _) (by decide) h.canPass label
  have hbody := (h.push (.ofList [("key", .text name)])).evaluates_passable hname rfl
    (fun other hne => Table.get?_insert_of_ne .empty _ hne) label
  have hcall : env.Evaluates (some label) (.call (.var "canPass") (.text name))
      (.ok (.bool (opens granted label name))) :=
    Env.evaluates_helper hlookup (.cons (Env.evaluates_value rfl) .nil) rfl hbody
  refine Env.checks_of_evaluates ?_ hcall
  rw [h.config]
  exact read_ask name hname

theorem checks_back (h : Knows granted env) (hstack : env.stack = [])
    (hreach : env.reaches "R0" = true) (label : String) :
    env.Checks (some label) "at(\x22R0\x22, TRUE)" (.ok true) := by
  have hlookup := h.lookup_global (Env.local?_of_stack_nil hstack _) (by decide) h.atPlace label
  have hguarded : if env.reaches "R0" then
        env.Evaluates (some label) (.bool true) (.ok (.bool true))
      else (.ok (.bool true) : Except Fault Expr) = .ok (.bool false) := by
    rw [if_pos hreach]
    exact Env.evaluates_value rfl
  have hargs : Expr.arguments (.binary .sequence (.text "R0") (.bool true)) =
      [.text "R0", .bool true] := rfl
  refine Env.checks_of_evaluates ?_ (Env.evaluates_atPlace hlookup hargs hguarded)
  rw [h.config]
  exact read_back

/-! ## The survey -/

theorem verdict_onward (h : Knows granted env) (hstack : env.stack = []) (draft : Draft)
    (root : Option String) (side : Side) (place : Nat) :
    draft.Verdict root env ⟨side, regionId place, (onward place).destination,
      (onward place).rule side⟩ (opens granted (env.config.contexts.label side) (key place)) := by
  have hrule : (onward place).rule side = ask (key place) := by cases side <;> rfl
  unfold Draft.Verdict
  rw [hrule]
  exact (h.publish draft root).checks_ask hstack (key_mem_flags place) _

/-- The first region is reached from itself, whatever edges there are. -/
theorem verdict_back (h : Knows granted env) (hstack : env.stack = []) (draft : Draft) (side : Side)
    (place : Nat) :
    draft.Verdict (some "R0") env ⟨side, regionId place, (back place).destination,
      (back place).rule side⟩ true := by
  have hrule : (back place).rule side = "at(\x22R0\x22, TRUE)" := by cases side <;> rfl
  have hreach : (draft.publish (some "R0") env).reaches "R0" = true :=
    (draft.reaches_publish (some "R0") env "R0").mpr ⟨"R0", rfl, .first,
      Graph.canReach_iff.mpr .refl⟩
  unfold Draft.Verdict
  rw [hrule]
  exact (h.publish draft (some "R0")).checks_back hstack hreach _

end Knows

/-- The edges that leave a region, the one to the next region first. -/
def edgesFrom (count : Nat) (usable : Nat → Bool) (place : Nat) : List (String × String) :=
  (if place + 1 < count ∧ usable place then [(regionId place, regionId (place + 1))] else []) ++
    (if place % 3 = 2 then [(regionId place, regionId (place - 2))] else [])

/-- The edges under one context, in which the exits to the next region can be used or not. -/
def edges (count : Nat) (usable : Nat → Bool) : List (String × String) :=
  (List.range count).flatMap (edgesFrom count usable)

variable {count place : Nat} {usable : Nat → Bool}

theorem source_of_mem_edgesFrom {edge : String × String} (h : edge ∈ edgesFrom count usable place) :
    edge.1 = regionId place := by
  rcases List.mem_append.mp h with honward | hback
  · split at honward
    · rw [List.mem_singleton.mp honward]
    · cases honward
  · split at hback
    · rw [List.mem_singleton.mp hback]
    · cases hback

theorem nodup_edgesFrom (count : Nat) (usable : Nat → Bool) (place : Nat) :
    (edgesFrom count usable place).Nodup := by
  have hne : regionId (place + 1) ≠ regionId (place - 2) := by
    rw [Ne, regionId_inj]
    omega
  unfold edgesFrom
  split <;> split <;> simp [hne]

theorem nodup_edges (count : Nat) (usable : Nat → Bool) : (edges count usable).Nodup := by
  refine List.nodup_flatMap.mpr ⟨fun place _ => nodup_edgesFrom count usable place, ?_⟩
  refine List.nodup_range.imp fun {place other} hne =>
    List.disjoint_left.mpr fun edge hedge hother => ?_
  exact hne (regionId_inj.mp ((source_of_mem_edgesFrom hedge).symm.trans
    (source_of_mem_edgesFrom hother)))

theorem ids_regions (count : Nat) :
    (regions count).map Region.id = (List.range count).map regionId := by
  rw [regions, List.map_map]
  rfl

theorem nodup_ids (count : Nat) : ((regions count).map Region.id).Nodup := by
  rw [ids_regions]
  exact List.nodup_range.map fun _ _ h => regionId_inj.mp h

/-- The survey measures from the first region. -/
theorem rootFor_regions (hplace : place < count) (config : Config)
    (hconfig : config.atRoot = none) : Survey.rootFor config (regions count) none = some "R0" := by
  obtain ⟨count, rfl⟩ := Nat.exists_eq_add_of_lt hplace
  rw [Survey.rootFor, hconfig, regions, List.range_succ_eq_map]
  rfl

theorem mem_exits {exit : Exit} : exit ∈ (region count place).exits ↔
    place + 1 < count ∧ exit = onward place ∨ place % 3 = 2 ∧ exit = back place := by
  simp only [region, List.mem_append, List.mem_ite_nil_right, List.mem_singleton]

theorem mem_steps_regions (hplace : place < count) {exit : Exit}
    (hexit : exit ∈ (region count place).exits)
    (side : Side) : (⟨side, regionId place, exit.destination, exit.rule side⟩ : Step) ∈ Survey.steps
      (regions count) :=
  Survey.mem_steps.mpr
    ⟨region count place, List.mem_map_of_mem (List.mem_range.mpr hplace), exit, hexit, side, rfl⟩

/-- The edges of the exits that hold, if those to the next regions hold as given and those back
always do. -/
theorem edges_eq_of_truth {side : Side} {truth : Step → Bool}
    (honward : ∀ place, place + 1 < count →
      truth ⟨side, regionId place, (onward place).destination,
        (onward place).rule side⟩ = usable place)
    (hback : ∀ place < count, place % 3 = 2 →
      truth ⟨side, regionId place, (back place).destination, (back place).rule side⟩ = true) :
    Step.edges side ((Survey.steps (regions count)).filter truth) = edges count usable := by
  rw [Survey.edges_steps, regions, List.flatMap_map]
  refine List.flatMap_congr fun place hplace => ?_
  have hback := hback place (List.mem_range.mp hplace)
  have honward := honward place
  show (((region count place).exits.filter _).map _ : List (String × String)) = _
  rw [region, edgesFrom, List.filter_append, List.map_append]
  congr 1
  · by_cases hnext : place + 1 < count
    · rw [if_pos hnext, List.filter_singleton, honward hnext]
      cases usable place <;> simp [hnext]
      rfl
    · simp [hnext]
  · by_cases hthird : place % 3 = 2
    · rw [if_pos hthird, if_pos hthird, List.filter_singleton, hback hthird]
      rfl
    · simp [hthird]

/-- The steps have verdicts that no draft changes, and the edges of those that hold are the edges of
the chain. -/
theorem Knows.exists_settled {granted : List String} {env : Env} (h : Knows granted env)
    (hstack : env.stack = []) (count : Nat) :
    ∃ truth, Draft.Settled (Survey.rootFor env.config (regions count) none) env
      (Survey.steps (regions count)) truth ∧
      ∀ side, Step.edges side ((Survey.steps (regions count)).filter truth) =
        edges count fun place => opens granted (env.config.contexts.label side) (key place) := by
  have hroot {place : Nat} (hplace : place <
      count) : Survey.rootFor env.config (regions count) none = some "R0" :=
    rootFor_regions hplace _ (by rw [h.config])
  -- Steps carry the text of a rule and not the place of its region, so their verdicts are not read
  -- off them but chosen.
  obtain ⟨truth, hsettled⟩ : ∃ truth, Draft.Settled (Survey.rootFor env.config (regions count) none)
      env (Survey.steps (regions count)) truth := by
    refine Draft.exists_settled fun step hstep => ?_
    obtain ⟨_, hregion, exit, hexit, side, rfl⟩ := Survey.mem_steps.mp hstep
    obtain ⟨place, hplace, rfl⟩ := List.mem_map.mp hregion
    rcases mem_exits.mp hexit with ⟨_, rfl⟩ | ⟨_, rfl⟩
    · exact ⟨_, fun draft => h.verdict_onward hstack draft _ side place⟩
    · rw [hroot (List.mem_range.mp hplace)]
      exact ⟨true, fun draft => h.verdict_back hstack draft side place⟩
  refine ⟨truth, hsettled, fun side => edges_eq_of_truth
    (fun place hnext => ?_) fun place hplace hthird => ?_⟩
  · have hmem := mem_steps_regions (by omega) (mem_exits.mpr (.inl ⟨hnext, rfl⟩)) side
    exact hsettled.holds hmem (h.verdict_onward hstack (Draft.bare []) _ side place)
  · have hmem := mem_steps_regions hplace (mem_exits.mpr (.inr ⟨hthird, rfl⟩)) side
    rw [hroot hplace] at hsettled
    exact hsettled.holds hmem (h.verdict_back hstack (Draft.bare []) side place)

/-- The survey of the chain finds its edges in the order of the regions: under the first context
those to the next region if the skip is granted, under the second one those whose key is granted,
and under both the edges back. -/
theorem surveyed_in_order (count : Nat) (granted : List String)
    (h : ∀ name ∈ granted, name ∈ flags) :
    ∃ env, Chain.env granted = .ok env ∧ ∃ enough, ∀ depth ≥ enough, ∃ survey after,
      (Survey.build depth (regions count) none).outcome env = some (.ok survey, after) ∧
      (survey.byLabel env.config.contexts).entries =
        [("CHILD", survey.first), ("ADULT", survey.second)] ∧
      survey.first.nodes.names = (List.range count).map regionId ∧
      survey.second.nodes.names = (List.range count).map regionId ∧
      survey.first.edges = edges count (fun _ => granted.contains skip) ∧
      survey.second.edges = edges count (fun place => granted.contains (key place)) := by
  obtain ⟨env, henv, hstack, hknows⟩ := exists_env h
  have hconfig := hknows.config
  obtain ⟨truth, hsettled, hedges⟩ := hknows.exists_settled hstack count
  obtain ⟨enough, hbuild⟩ := hsettled.exists_survey (nodup_ids count) fun side => by
    rw [hedges]
    exact nodup_edges _ _
  refine ⟨env, henv, enough, fun depth hdepth => ?_⟩
  obtain ⟨survey, after, houtcome, hgraphs⟩ := hbuild depth hdepth
  obtain ⟨hchild, hchild'⟩ := hgraphs .first
  obtain ⟨hadult, hadult'⟩ := hgraphs .second
  rw [ids_regions] at hchild hadult
  rw [hedges, hconfig] at hchild' hadult'
  refine ⟨survey, after, houtcome, ?_, hchild, hadult, hchild'.trans ?_, hadult'.trans ?_⟩
  · rw [Survey.entries_byLabel, hconfig]
    rfl
  · exact congrArg (edges count) (funext fun place => opens_child granted (key place))
  · exact congrArg (edges count) (funext fun place => opens_adult granted (key place))

/-- Four regions and three flags: an adult lacks the key of the third exit. -/
theorem surveyed_in_order_three_flags :
    ∃ env, Chain.env ["KEY_1", "SKIP_GAP", "KEY_0"] = .ok env ∧
      ∃ enough, ∀ depth ≥ enough, ∃ survey after,
      (Survey.build depth (regions 4) none).outcome env = some (.ok survey, after) ∧
      survey.first.edges = [("R0", "R1"), ("R1", "R2"), ("R2", "R3"), ("R2", "R0")] ∧
      survey.second.edges = [("R0", "R1"), ("R1", "R2"), ("R2", "R0")] ∧
      survey.second.nodes.names = ["R0", "R1", "R2", "R3"] := by
  obtain ⟨env, henv, enough, hbuild⟩ :=
    surveyed_in_order 4 ["KEY_1", "SKIP_GAP", "KEY_0"] (by decide)
  refine ⟨env, henv, enough, fun depth hdepth => ?_⟩
  obtain ⟨survey, after, houtcome, _, _, hnames, hchild, hadult⟩ := hbuild depth hdepth
  exact ⟨survey, after, houtcome, hchild.trans (by decide), hadult.trans (by decide), hnames⟩

end Passage.Chain
