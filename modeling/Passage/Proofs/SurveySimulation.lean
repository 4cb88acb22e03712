import Passage.Proofs.Simulation
import Passage.Survey

/-!
# Two surveys side by side

A survey asks its judge and looks at the graphs that are published, and that is all. So a survey
under one judge follows a survey under another one if the judges follow each other on every rule and
the relation between the environments answers for the graphs (`Tracks`).
-/
namespace Passage

open Passage.Action

namespace Survey

/-- What two related environments have to agree on for a survey: the labels and the published
graphs, which are replaced, extended and reported in the same way. -/
structure Tracks (R : Env → Env → Prop) : Prop where
  contexts : ∀ {s t}, R s t → s.config.contexts = t.config.contexts
  graphOf : ∀ {s t}, R s t → ∀ side, s.graphOf side = t.graphOf side
  publish : ∀ {s t}, R s t → ∀ regions root, R (publish regions root s) (publish regions root t)
  record : ∀ {s t}, R s t → ∀ step, R (record step s) (record step t)
  passed : ∀ {s t}, R s t → ∀ number added,
    R (s.note (.pass number added)) (t.note (.pass number added))

namespace Tracks

variable {R : Env → Env → Prop} {Excused : CheckError → Prop} {judge judge' : Judge}

/-- The relation can be read in both directions. -/
theorem symm (T : Tracks R) : Tracks fun t s => R s t where
  contexts h := (T.contexts h).symm
  graphOf h side := (T.graphOf h side).symm
  publish := T.publish
  record := T.record
  passed := T.passed

theorem known (T : Tracks R) {s t : Env} (h : R s t) (step : Step) :
    known step s = known step t := by
  unfold Survey.known
  rw [T.graphOf h]

theorem follows_ask (T : Tracks R)
    (hjudge : ∀ side rule, Follows R Excused (judge side rule) (judge' side rule)) (step : Step) :
    Follows R Excused (ask judge step) (ask judge' step) := by
  refine follows_bind (follows_read fun s t h => T.known h step) fun isKnown => ?_
  cases isKnown with
  | true => exact follows_pure none
  | false =>
    refine follows_bind (hjudge step.side step.rule) fun holds => ?_
    cases holds with
    | true =>
      exact follows_bind (follows_update fun s t h => T.record h step) fun _ => follows_pure _
    | false => exact follows_pure _

theorem follows_pass (T : Tracks R)
    (hjudge : ∀ side rule, Follows R Excused (judge side rule) (judge' side rule))
    (steps : List Step) : Follows R Excused (pass judge steps) (pass judge' steps) := by
  induction steps with
  | nil => exact follows_pure []
  | cons step rest ih =>
    refine follows_bind (T.follows_ask hjudge step) fun verdict => ?_
    exact follows_bind ih fun round => follows_pure _

theorem follows_report (T : Tracks R) (number : Nat) (round : Round) :
    Follows R Excused (report number round) (report number round) := by
  refine follows_update fun s t h => ?_
  show R _ (t.note (.pass number [(t.config.contexts.first, _), (t.config.contexts.second, _)]))
  rw [← T.contexts h]
  exact T.passed h number _

theorem follows_passes (T : Tracks R)
    (hjudge : ∀ side rule, Follows R Excused (judge side rule) (judge' side rule))
    (steps : List Step) (left number : Nat) :
    Follows R Excused (passes judge steps left number) (passes judge' steps left number) := by
  induction left generalizing number with
  | zero => exact follows_tooDeep _
  | succ left ih =>
    refine follows_bind (T.follows_pass hjudge steps) fun round => ?_
    refine follows_bind (T.follows_report number round) fun _ => ?_
    cases round.grew with
    | true => exact follows_bind (ih (number + 1)) fun later => follows_pure _
    | false => exact follows_pure _

theorem follows_published (T : Tracks R) (side : Side) :
    Follows R Excused (published side) (published side) :=
  follows_read fun s t h => by rw [T.graphOf h]

/-- What a survey does once the bare graphs are published. -/
theorem follows_surveyed (T : Tracks R)
    (hjudge : ∀ side rule, Follows R Excused (judge side rule) (judge' side rule))
    (steps : List Step) (left : Nat) :
    Follows R Excused
      (do let rounds ← passes judge steps left 1
          let first ← published .first
          let second ← published .second
          return (⟨first, second, rounds⟩ : Survey))
      (do let rounds ← passes judge' steps left 1
          let first ← published .first
          let second ← published .second
          return (⟨first, second, rounds⟩ : Survey)) := by
  refine follows_bind (T.follows_passes hjudge _ _ _) fun rounds => ?_
  refine follows_bind (T.follows_published .first) fun first => ?_
  exact follows_bind (T.follows_published .second) fun second => follows_pure _

/-- Judges by label follow each other if evaluation respects the relation and it lets verdicts go on
record. -/
theorem follows_byLabel (T : Tracks R) {Excused : Fault → Prop}
    (S : ∀ context, Simulation (fun _ => R) Excused context context)
    (hverdict : ∀ {s t}, R s t → ∀ context tree holds,
      R (s.note (.verdict context tree holds)) (t.note (.verdict context tree holds)))
    {depth depth' : Nat} (hle : depth ≤ depth') (side : Side) (rule : String) :
    Follows R (Simulation.ExcusedCheck Excused) (Judge.byLabel depth side rule)
      (Judge.byLabel depth' side rule) := by
  refine follows_bind (follows_read fun _ _ h => T.contexts h) fun contexts => ?_
  exact (S (some (contexts.label side))).follows_checkRule (fun h => hverdict h _) hle [] rule

/-- A survey follows a survey from a related environment, under a judge that its own judge
follows. -/
theorem follows_buildBy (T : Tracks R)
    (hjudge : ∀ side rule, Follows R Excused (judge side rule) (judge' side rule))
    (regions : List Region) (root : Option String) :
    Follows R Excused (buildBy judge regions root) (buildBy judge' regions root) :=
  follows_bind (follows_update fun _ _ h => T.publish h regions root) fun _ =>
    T.follows_surveyed hjudge _ _

end Tracks

end Survey

end Passage
