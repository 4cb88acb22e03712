import Passage.Proofs.Frames
import Passage.Proofs.SurveySimulation

/-!
# Labels as bindings

Evaluation under a label and evaluation without one, where the selector is bound to the label as a
text, come to the same: a frame that binds the selector wins in both, and where none does, both read
the label. So a survey may as well bind the selector before every rule and ask without a label,
except that it leaves a binding behind. What the journal tells is compared without the labels that
it mentions.
-/
namespace Passage

open Passage.Action

/-- An event, without the label that it happened under. -/
def Event.unlabelled : Event → Event
  | message text => message text
  | hostCall name args _ => hostCall name args none
  | verdict _ rule holds => verdict none rule holds
  | pass number added => pass number added

namespace Env

/-- What the journal tells: every message, call and verdict in order, without labels. -/
def heard (env : Env) : List Event := env.journal.map Event.unlabelled

def unlabelled (env : Env) : Env := { env with journal := env.heard }

/-- Binds the selector to a label, as a text. -/
def rebound (env : Env) (label : String) : Env := env.bind env.config.selector (.text label)

/-- The functions of the host program do not look at the label that they are called under. -/
def HostsIgnoreLabels (env : Env) : Prop :=
  ∀ number args context context', env.hosts number args context = env.hosts number args context'

variable {s t : Env} {label : String}

theorem unlabelled_note (env : Env) (event : Event) :
    (env.note event).unlabelled = env.unlabelled.note event.unlabelled := by
  simp [unlabelled, heard, note]

/-- Events that differ in their label at most leave two environments alike. -/
theorem note_rebound {event event' : Event} (h : (s.rebound label).unlabelled = t.unlabelled)
    (hevent : event.unlabelled = event'.unlabelled) :
    ((s.note event).rebound label).unlabelled = (t.note event').unlabelled := by
  show ((s.rebound label).note event).unlabelled = _
  rw [unlabelled_note, unlabelled_note, h, hevent]

/-- A binding of the selector is replaced by the next one. -/
theorem rebound_rebound (env : Env) (label label' : String) :
    (env.rebound label).rebound label' = env.rebound label' := by
  show env.bindAll [(env.config.selector, .text label), (env.config.selector, .text label')] = _
  rw [bindAll, Table.insertAll, List.foldl_cons, List.foldl_cons, List.foldl_nil,
    Table.insert_insert]
  rfl

/-- The selector has the value that it has under the label, and so has every other name. -/
theorem lookup_rebound (env : Env) (label name : String) :
    (env.rebound label).lookup name none = env.lookup name (some label) := by
  have hlocal : (env.rebound label).local? name = env.local? name := rfl
  have hglobal : (env.rebound label).globals.get? name =
      if name = env.config.selector then some (.text label) else env.globals.get? name :=
    env.globals.get?_insert _ name _
  unfold lookup
  rw [hlocal, hglobal]
  cases env.local? name with
  | some value => rfl
  | none =>
    by_cases hname : name = env.config.selector
    · rw [if_pos hname, decide_eq_true hname]
    · rw [if_neg hname, decide_eq_false hname]

end Env

/-- Evaluation under a label beside evaluation where the selector is bound to it. -/
theorem Simulation.rebound (label : String) :
    Simulation (fun _ s t => (s.rebound label).unlabelled = t.unlabelled ∧ s.HostsIgnoreLabels)
      (fun _ => False) (some label) none where
  lookup := by
    intro _ s t h name
    refine .inr ?_
    rw [← s.lookup_rebound]
    exact congrArg (fun env => env.lookup name none) h.1
  strictArity := by
    intro _ s t h
    exact .inl (congrArg (fun env => env.config.strictArity) h.1)
  reaches := by
    intro _ s t h region
    exact congrArg (fun env => env.reaches region) h.1
  readRule := by
    intro _ s t h text
    refine .inr ⟨?_, ?_, h.2⟩
    · exact congrArg (fun env => (env.readRule text).1) h.1
    · exact congrArg (fun env => (env.readRule text).2) h.1
  hosts := by
    intro _ s t h number args
    rw [h.2 number args (some label) none]
    exact congrArg (fun env => env.hosts number args none) h.1
  message h _ := ⟨Env.note_rebound h.1 rfl, h.2⟩
  hostCall h _ _ := ⟨Env.note_rebound h.1 rfl, h.2⟩
  push := by
    intro _ s t h frame
    exact ⟨congrArg (fun env => env.push frame) h.1, h.2⟩
  pop := by
    intro _ _ s t h
    exact ⟨congrArg Env.pop h.1, h.2⟩

/-- Binds the selector to the label of the context, for good, and checks a rule without a label. -/
def Judge.byBinding (depth : Nat) : Judge := fun side rule => do
  Action.update fun env => env.rebound (env.config.contexts.label side)
  checkRule depth rule none

namespace Survey

/-- The same environments, once the selector is bound to the same label. -/
def AlikeRebound (s t : Env) : Prop :=
  (∀ label, (s.rebound label).unlabelled = (t.rebound label).unlabelled) ∧ s.HostsIgnoreLabels

theorem unlabelled_record (step : Step) (env : Env) :
    (record step env).unlabelled = record step env.unlabelled := by
  have hsame : env.unlabelled.graphOf step.side = env.graphOf step.side := rfl
  unfold record
  rw [hsame]
  cases env.graphOf step.side with
  | none => rfl
  | some g => rfl

theorem rebound_record (step : Step) (env : Env) (label : String) :
    (record step env).rebound label = record step (env.rebound label) := by
  have hsame : (env.rebound label).graphOf step.side = env.graphOf step.side := rfl
  unfold record
  rw [hsame]
  cases env.graphOf step.side with
  | none => rfl
  | some g => rfl

theorem tracks_alikeRebound : Tracks AlikeRebound where
  contexts h := congrArg (fun env => env.config.contexts) (h.1 "")
  graphOf h side := congrArg (fun env => env.graphOf side) (h.1 "")
  publish := by
    intro s t h regions root
    refine ⟨fun label => ?_, h.2⟩
    exact congrArg (publish regions root) (h.1 label)
  record := by
    intro s t h step
    refine ⟨fun label => ?_, ?_⟩
    · rw [rebound_record, rebound_record, unlabelled_record, unlabelled_record, h.1 label]
    · intro number args context context'
      have hhosts : (record step s).hosts = s.hosts := by
        unfold record
        split
        · rfl
        · rfl
      rw [hhosts]
      exact h.2 number args context context'
  passed := by
    intro s t h number added
    refine ⟨fun label => ?_, h.2⟩
    show ((s.rebound label).note _).unlabelled = ((t.rebound label).note _).unlabelled
    rw [Env.unlabelled_note, Env.unlabelled_note, h.1 label]

variable {s t : Env} {label : String}

theorem AlikeRebound.refl (h : s.HostsIgnoreLabels) : AlikeRebound s s :=
  ⟨fun _ => rfl, h⟩

theorem alikeRebound_of_unlabelled (h : (s.rebound label).unlabelled = t.unlabelled)
    (hhosts : s.HostsIgnoreLabels) : AlikeRebound s t := by
  refine ⟨fun label' => ?_, hhosts⟩
  have hagain := congrArg (fun env => env.rebound label') h
  rw [← s.rebound_rebound label label']
  exact hagain

theorem AlikeRebound.heard (h : AlikeRebound s t) : s.heard = t.heard :=
  congrArg Env.journal (h.1 "")

end Survey

namespace Judge

open Survey

theorem outcome_byLabel (depth : Nat) (side : Side) (rule : String) (env : Env) :
    (byLabel depth side rule).outcome env =
      (checkRule depth rule (some (env.config.contexts.label side))).outcome env :=
  outcome_bind_ok (outcome_read _ env) _

theorem outcome_byBinding (depth : Nat) (side : Side) (rule : String) (env : Env) :
    (byBinding depth side rule).outcome env =
      (checkRule depth rule none).outcome (env.rebound (env.config.contexts.label side)) :=
  outcome_bind_ok (outcome_update _ env) _

/-- A rule checked under a label, and the same rule after the selector was bound to the label. -/
theorem follows_byBinding (depth : Nat) (side : Side) (rule : String) :
    Follows AlikeRebound (fun _ => False) (byLabel depth side rule)
      (byBinding depth side rule) := by
  intro s t h result after ho
  rw [outcome_byLabel, tracks_alikeRebound.contexts h] at ho
  rw [outcome_byBinding]
  have hfollows := (Simulation.rebound (t.config.contexts.label side)).follows_checkRule_always
    (fun h _ _ => ⟨Env.note_rebound h.1 rfl, h.2⟩) (Nat.le_refl depth) [] rule
  obtain ⟨after', hother, halike, hhosts⟩ := hfollows.always ho ⟨h.1 _, h.2⟩
  exact .inr ⟨after', hother, alikeRebound_of_unlabelled halike hhosts⟩

theorem byBinding_follows (depth : Nat) (side : Side) (rule : String) :
    Follows (fun t s => AlikeRebound s t) (fun _ => False) (byBinding depth side rule)
      (byLabel depth side rule) := by
  intro t s h result after ho
  rw [outcome_byBinding] at ho
  rw [outcome_byLabel, tracks_alikeRebound.contexts h]
  have hfollows := (Simulation.rebound (t.config.contexts.label side)).symm.follows_checkRule_always
    (fun h _ _ => ⟨Env.note_rebound h.1 rfl, h.2⟩) (Nat.le_refl depth) [] rule
  obtain ⟨after', hother, halike, hhosts⟩ := hfollows.always ho ⟨h.1 _, h.2⟩
  exact .inr ⟨after', hother, alikeRebound_of_unlabelled halike hhosts⟩

end Judge

/-- The labels under which rules are evaluated are as good as bindings of the selector. An
evaluation under a label comes to what it comes to without a label where the selector is bound to
it, with the same journal but for labels, at every depth. A survey comes to the same result if it
binds the selector before every rule and asks without a label; it does not do so itself. -/
theorem labels_as_bindings {env : Env} (hhosts : env.HostsIgnoreLabels) :
    (∀ label depth e,
      ((evaluate (some label) depth e).outcome env).map (Prod.map id Env.heard) =
        ((evaluate none depth e).outcome (env.rebound label)).map (Prod.map id Env.heard)) ∧
    ∀ depth regions root,
      ((Survey.build depth regions root).outcome env).map (Prod.map id Env.heard) =
        ((Survey.buildBy (Judge.byBinding depth) regions root).outcome env).map
          (Prod.map id Env.heard) ∧
      ∀ result after, (Survey.build depth regions root).outcome env = some (result, after) →
        after.globals = env.globals := by
  refine ⟨?_, ?_⟩
  · intro label depth e
    have S := Simulation.rebound label
    exact outcome_eq_of_follows (S.follows_evaluate (Nat.le_refl depth) [] e)
      (S.symm.follows_evaluate (Nat.le_refl depth) [] e)
      (fun _ _ h => congrArg Env.journal h.1) ⟨rfl, hhosts⟩
  · intro depth regions root
    have T := Survey.tracks_alikeRebound
    constructor
    · exact outcome_eq_of_follows (T.follows_buildBy (Judge.follows_byBinding depth) regions root)
        (T.symm.follows_buildBy (Judge.byBinding_follows depth) regions root)
        (fun _ _ h => h.heard) (Survey.AlikeRebound.refl hhosts)
    · intro result after ho
      have hsettled := Survey.keeps_build depth regions root env result after ho
      have hglobals : after.settled.globals = env.settled.globals := congrArg Env.globals hsettled
      exact hglobals

/-- The parameter of a helper hides the selector, also from a text that is read inside of it, but
not from the helper that this text calls. The empty label is a label. -/
theorem labels_as_bindings_hidden :
    let same : Expr := .function ["x"] (.binary .equal
      (.call (.var "debug") (.var "x")) (.var "AGE"))
    let hidden : Expr := .function ["AGE"] (.call (.var "eval") (.text "same(AGE)"))
    let env : Env := .fresh {} ((Env.builtins.insert "same" same).insert "hidden"
      hidden) Env.noHosts
    let regions : List Region :=
      [⟨"yard", "", [⟨"gate", "hidden(\"CHILD\")", "hidden(\"CHILD\")"⟩], []⟩]
    env.HostsIgnoreLabels ∧
    ((evaluate none 8 (.call (.var "hidden") (.text "CHILD"))).outcome (env.rebound "")).map
      (Prod.map id Env.heard) = some (.ok (.bool false), [.message "\"CHILD\""]) ∧
    ∃ survey after,
      (Survey.buildBy (Judge.byBinding 8) regions none).outcome env = some (.ok survey, after) ∧
      survey.first.edges = [("yard", "gate")] ∧ survey.second.edges = [] := by
  intro same hidden env regions
  have hhosts : env.HostsIgnoreLabels := fun _ _ _ _ => rfl
  have hlabelled : ((evaluate (some "") 8 (.call (.var "hidden") (.text "CHILD"))).outcome env).map
      (Prod.map id Env.heard) = some (.ok (.bool false), [.message "\"CHILD\""]) := by
    decide +kernel
  have hrun : (((Survey.build 8 regions none).outcome env).bind
      fun (result, _) => result.toOption.map fun survey =>
        (survey.first.edges, survey.second.edges)) =
      some ([("yard", "gate")], []) := by
    decide +kernel
  obtain ⟨survey, after, hbuild, hedges⟩ := Action.ok_of_seen hrun
  obtain ⟨hfirst, hsecond⟩ := Prod.mk.inj hedges
  have hsame := ((labels_as_bindings hhosts).2 8 regions none).1
  rw [hbuild] at hsame
  obtain ⟨⟨result, after'⟩, hbinding, hresult⟩ := Option.map_eq_some_iff.mp hsame.symm
  cases (Prod.mk.inj hresult).1
  refine ⟨hhosts, ?_, survey, after', hbinding, hfirst, hsecond⟩
  rw [← (labels_as_bindings hhosts).1 "" 8, hlabelled]

end Passage
