import Passage.Proofs.FormulaGrammar
import Passage.Proofs.FormulaTruth
import Passage.Proofs.LazyJourneys

/-!
# Journeys under easier conditions

What a journey finds it finds as well with more flags true and fewer exits forbidden. The two
journeys need not be followed side by side: a path for the first one is a path for the second one,
exit by exit, because formulas are positive, and no region is to blame for an error in the second
one.
-/
namespace Passage

/-- The name stands for a truth value in both tables, and for no smaller one in the second. -/
def Raised (flags flags' : Table Value) (name : String) : Prop :=
  ∃ b b', flags.get? name = some (.bool b) ∧ flags'.get? name = some (.bool b') ∧
    (b = true → b' = true)

variable {flags flags' : Table Value} {name rule : String}

theorem Raised.isFlag (h : Raised flags flags' name) : IsFlag flags' name := by
  obtain ⟨_, b', _, hflag', _⟩ := h
  exact ⟨b', hflag'⟩

theorem Raised.truthOf (h : Raised flags flags' name) (htrue : truthOf flags name = true) :
    truthOf flags' name = true := by
  obtain ⟨b, b', hflag, hflag', himp⟩ := h
  rw [truthOf_eq hflag] at htrue
  rw [truthOf_eq hflag']
  exact himp htrue

/-- All flags that the rule mentions are raised. -/
def RaisedIn (flags flags' : Table Value) (rule : String) : Prop :=
  ∀ f, Formula.ofText rule = .ok f → ∀ name ∈ f.flags, Raised flags flags' name

/-- A rule that is a formula over raised flags has a truth value with the second table. -/
theorem RaisedIn.checks (h : RaisedIn flags flags' rule) {f : Formula}
    (hf : Formula.ofText rule = .ok f) :
    checkFormula flags' rule = .ok (f.holds (truthOf flags')) := by
  rw [Formula.checkFormula_of_ofText hf, Formula.eval_of_isFlag fun name hname =>
    (h f hf name hname).isFlag]
  rfl

theorem RaisedIn.mono (h : RaisedIn flags flags' rule)
    (hholds : checkFormula flags rule = .ok true) : checkFormula flags' rule = .ok true := by
  cases hf : Formula.ofText rule with
  | error e =>
    rw [Formula.checkFormula_of_ofText_error hf] at hholds
    cases hholds
  | ok f =>
    have hraised := h f hf
    have hisFlag : ∀ name ∈ f.flags, IsFlag flags name := by
      intro name hname
      obtain ⟨b, _, hflag, _⟩ := hraised name hname
      exact ⟨b, hflag⟩
    rw [Formula.checkFormula_of_ofText hf, Formula.eval_of_isFlag hisFlag] at hholds
    have htrue := Formula.holds_mono (fun name hname =>
      (hraised name hname).truthOf) (Except.ok.inj hholds)
    rw [h.checks hf, htrue]

namespace Terrain

variable {regions bans bans' : Table Value} {region destination : String}

/-- Every rule in the regions is a formula over raised flags. -/
def RaisedRules (regions flags flags' : Table Value) : Prop :=
  ∀ region destination rule, HasExit regions region destination rule →
    ∃ text f, rule = .text text ∧ Formula.ofText text = .ok f ∧
      ∀ name ∈ f.flags, Raised flags flags' name

theorem RaisedRules.raisedIn (h : RaisedRules regions flags flags') {text : String}
    (hexit : HasExit regions region destination (.text text)) :
    ∃ f, Formula.ofText text = .ok f ∧ RaisedIn flags flags' text := by
  obtain ⟨_, f, ⟨⟩, hf, hflags⟩ := h _ _ _ hexit
  refine ⟨f, hf, fun g hg => ?_⟩
  cases hf.symm.trans hg
  exact hflags

/-- An exit that can be used can be used under easier conditions. -/
theorem Usable.mono (hrules : RaisedRules regions flags flags')
    (hsearchable : Searchable bans' region)
    (hbans : Forbidden bans' region destination → Forbidden bans region destination)
    (h : Usable regions bans flags region destination) :
    Usable regions bans' flags' region destination := by
  obtain ⟨rule, hexit, -, hallowed, hholds⟩ := h
  obtain ⟨_, _, hraised⟩ := hrules.raisedIn hexit
  exact ⟨rule, hexit, hsearchable, fun hban => hallowed (hbans hban), hraised.mono hholds⟩

/-- Where all regions are mappings and all their rules formulas over flags, no region is to blame
for an error. -/
theorem not_misdescribed
    (hmappings : ∀ region value, regions.get? region = some value →
      ∃ fields, value = .record fields)
    (hrules : RaisedRules regions flags flags') (region : String) (e : JourneyError) :
    ¬Misdescribed regions bans flags' region e := by
  intro h
  cases h with
  | shapeless hregion _ hshape =>
    obtain ⟨fields, rfl⟩ := hmappings _ _ hregion
    exact hshape fields rfl
  | rule hexit _ hcheck =>
    obtain ⟨f, hf, hraised⟩ := hrules.raisedIn hexit
    rw [hraised.checks hf] at hcheck
    cases hcheck
  | wordless hexit _ hshape =>
    obtain ⟨text, _, rfl, _⟩ := hrules _ _ _ hexit
    exact hshape text rfl

/-- Over regions that are mappings and whose rules are formulas, with flags that keep or raise their
truth values and no new exits forbidden: a rule that holds goes on to hold, and a goal that is
reached is reached again. -/
theorem journey_eased
    (hmappings : ∀ region value, regions.get? region = some value →
      ∃ fields, value = .record fields)
    (htidy : Tidy regions bans') (hrules : RaisedRules regions flags flags')
    (hbans : ∀ region destination, Forbidden bans' region destination →
      Forbidden bans region destination) :
    (∀ rule, RaisedIn flags flags' rule → checkFormula flags rule = .ok true →
      checkFormula flags' rule = .ok true) ∧
    ∀ start goal, (ofValues regions bans flags).canReach start goal = .ok true →
      (ofValues regions bans' flags').canReach start goal = .ok true := by
  refine ⟨fun rule h => h.mono, fun start goal hreached => ?_⟩
  have hpath := path_of_canReach hreached
  rw [Path, leads_ofValues] at hpath
  have hpath' : (ofValues regions bans' flags').Path start goal := by
    rw [Path, leads_ofValues]
    refine Relation.ReflTransGen.mono (fun region destination husable => ?_) _ _ hpath
    exact husable.mono hrules (htidy.bans region) (hbans region destination)
  have hsound : ∀ region e, (ofValues regions bans' flags').Path start region →
      ¬(ofValues regions bans' flags').Fails region e := by
    intro region e _ hfails
    rcases hfails.accounted with hmisdescribed | hmalformed
    · exact not_misdescribed hmappings hrules region e hmisdescribed
    · exact htidy.not_malformed hmalformed
  obtain ⟨reached, hreach, hiff⟩ := canReach_eq_ok hsound
  rw [hreach, hiff.mpr hpath']

/-- A lamp is lit, and the way back from the hall is no longer forbidden. The gate is reached as
before, and now the moat as well. -/
theorem journey_eased_lit_lamp :
    let flags : Table Value := .ofList [("key", .bool true), ("lamp", .bool false)]
    let flags' : Table Value :=
      .ofList [("lamp", .bool true), ("key", .bool true), ("moss", .int 3)]
    let bans : Table Value := .ofList [("hall", .text "yard, moat"), ("gate", .null)]
    let bans' : Table Value := .ofList [("hall", .list [.text "moat"])]
    let yard : List (String × Value) :=
      [("moat", .text "lamp"), ("hall", .text "key AND (lamp OR TRUE)")]
    let hall : List (String × Value) := [("yard", .text "key"), ("gate", .text "lamp OR key")]
    let regions : Table Value := .ofList
      [("yard", .record [("exits", .record yard)]), ("hall", .record [("exits", .record hall)]),
       ("gate", .record [])]
    (∀ region destination, Forbidden bans' region destination → Forbidden bans region destination) ∧
    (ofValues regions bans flags).canReach "yard" "moat" = .ok false ∧
    (ofValues regions bans' flags').canReach "yard" "moat" = .ok true ∧
    (ofValues regions bans' flags').canReach "yard" "gate" = .ok true := by
  intro flags flags' bans bans' yard hall regions
  have hregions {region : String} {value : Value} (h : regions.get? region = some value) :
      value = .record [("exits", .record yard)] ∨ value = .record [("exits", .record hall)] ∨
        value = .record [] := by
    have hmem : (region, value) ∈ [("yard", Value.record [("exits", .record yard)]),
      ("hall", .record [("exits", .record hall)]), ("gate", .record [])] :=
      Table.get?_eq_some_iff.mp h
    simp only [List.mem_cons, List.not_mem_nil, or_false, Prod.mk.injEq] at hmem
    exact hmem.imp And.right (Or.imp And.right And.right)
  have hmappings : ∀ region value, regions.get? region = some value →
      ∃ fields, value = .record fields := by
    intro region value h
    rcases hregions h with rfl | rfl | rfl <;> exact ⟨_, rfl⟩
  have htidy : Tidy regions bans' := by
    constructor
    case exits =>
      intro region fields exits h hexits
      rcases hregions h with heq | heq | heq <;> cases heq <;> cases hexits <;> exact .inr ⟨_, rfl⟩
    case bans =>
      intro region value h
      cases List.mem_singleton.mp (Table.get?_eq_some_iff.mp h)
      exact .inr rfl
  have hkey : Raised flags flags' "key" := ⟨true, true, rfl, rfl, id⟩
  have hlamp : Raised flags flags' "lamp" := ⟨false, true, rfl, rfl, nofun⟩
  have hrules : RaisedRules regions flags flags' := by
    rintro region destination rule ⟨fields, entries, h, hexits, hrule⟩
    have hentry := Table.get?_eq_some_iff.mp hrule
    rcases hregions h with heq | heq | heq <;> cases heq <;> cases hexits
    · rcases List.mem_cons.mp hentry with heq | hentry
      · cases heq
        exact ⟨_, .flag "lamp", rfl, by decide +kernel, List.forall_mem_singleton.mpr hlamp⟩
      · cases List.mem_singleton.mp hentry
        exact ⟨_, .and (.flag "key") (.or (.flag "lamp") (.const true)), rfl, by decide +kernel,
          List.forall_mem_cons.mpr ⟨hkey, List.forall_mem_singleton.mpr hlamp⟩⟩
    · rcases List.mem_cons.mp hentry with heq | hentry
      · cases heq
        exact ⟨_, .flag "key", rfl, by decide +kernel, List.forall_mem_singleton.mpr hkey⟩
      · cases List.mem_singleton.mp hentry
        exact ⟨_, .or (.flag "lamp") (.flag "key"), rfl, by decide +kernel,
          List.forall_mem_cons.mpr ⟨hlamp, List.forall_mem_singleton.mpr hkey⟩⟩
  have hbans : ∀ region destination, Forbidden bans' region destination →
      Forbidden bans region destination := by
    rintro region destination ⟨value, hban, hbars⟩
    cases List.mem_singleton.mp (Table.get?_eq_some_iff.mp hban)
    cases hbars with
    | listed hmem =>
      cases List.mem_singleton.mp hmem
      exact ⟨.text "yard, moat", rfl, .mentioned (by decide) ⟨"yard, ".toList, [], rfl⟩⟩
  have hgate := (journey_eased hmappings htidy hrules hbans).2 "yard" "gate"
    (canReach_of_seen (by decide +kernel))
  exact ⟨hbans, canReach_of_seen (by decide +kernel), canReach_of_seen (by decide +kernel), hgate⟩

end Terrain

end Passage
