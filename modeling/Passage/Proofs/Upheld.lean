import Passage.Proofs.SettledSurveys

/-!
# Answers that are upheld

A second environment can differ from a first one in what its configuration demands and in its
globals, and still uphold what the first one answers: it reads a text and looks up a name in the
same way, unless the first one fails there with a fault that is excused, and it insists on the
number of arguments only where the first one does. Evaluations, rule checks and surveys then follow
those in the first environment up to the first excused fault, and tell the same on the way.
-/
namespace Passage

open Passage.Action

/-- What the first environment answers is upheld by the second one, faults that are excused
apart. -/
structure Env.UpheldBy (Excused : Fault → Prop) (s t : Env) : Prop where
  selector : s.config.selector = t.config.selector
  contexts : s.config.contexts = t.config.contexts
  atRoot : s.config.atRoot = t.config.atRoot
  arity : s.config.strictArity = t.config.strictArity ∨
    t.config.strictArity = false ∧ ∀ callee expected got, Excused (.arity callee expected got)
  reads : ∀ text,
    (∃ e, RuleText.expr ⟨text, s.config.allowTrailing⟩ = .error e ∧ Excused (.unreadable e)) ∨
      RuleText.expr ⟨text, s.config.allowTrailing⟩ = RuleText.expr ⟨text, t.config.allowTrailing⟩
  globals : ∀ name, s.globals.get? name = none ∧ Excused (.undefined name) ∨
    s.globals.get? name = t.globals.get? name
  hosts : s.hosts = t.hosts
  stack : s.stack = t.stack
  graphs : s.graphs = t.graphs
  graphRoot : s.graphRoot = t.graphRoot

namespace Env.UpheldBy

variable {Excused : Fault → Prop} {s t : Env} {context : Option String}

theorem lookup (h : s.UpheldBy Excused t) (name : String) (context : Option String) :
    (∃ e, s.lookup name context = .error e ∧ Excused e) ∨
      s.lookup name context = t.lookup name context := by
  have hlocal : s.local? name = t.local? name := by rw [local?, h.stack, local?]
  unfold Env.lookup
  rw [hlocal, h.selector]
  split
  · exact .inr rfl
  · split
    · exact .inr rfl
    · rcases h.globals name with ⟨hnone, hx⟩ | hsame
      · rw [hnone]
        exact .inl ⟨_, rfl, hx⟩
      · rw [hsame]
        exact .inr rfl

theorem graphOf (h : s.UpheldBy Excused t) (side : Side) : s.graphOf side = t.graphOf side := by
  rw [Env.graphOf, h.graphs, h.contexts, Env.graphOf]

theorem reaches (h : s.UpheldBy Excused t) (region : String) :
    s.reaches region = t.reaches region := by
  unfold Env.reaches
  simp only [h.graphRoot, h.graphOf]

/-- What is remembered and what the journal tells have no part in it. -/
theorem of_visible {s' t' : Env} (h : s.UpheldBy Excused t) (hs : s'.visible = s.visible)
    (ht : t'.visible = t.visible) : s'.UpheldBy Excused t' := by
  simp only [visible, Env.mk.injEq] at hs ht
  obtain ⟨hconfig, hhosts, hglobals, hstack, hgraphs, hroot, -, -⟩ := hs
  obtain ⟨hconfig', hhosts', hglobals', hstack', hgraphs', hroot', -, -⟩ := ht
  constructor
  · rw [hconfig, hconfig', h.selector]
  · rw [hconfig, hconfig', h.contexts]
  · rw [hconfig, hconfig', h.atRoot]
  · rw [hconfig, hconfig']
    exact h.arity
  · rw [hconfig, hconfig']
    exact h.reads
  · rw [hglobals, hglobals']
    exact h.globals
  · rw [hhosts, hhosts', h.hosts]
  · rw [hstack, hstack', h.stack]
  · rw [hgraphs, hgraphs', h.graphs]
  · rw [hroot, hroot', h.graphRoot]

theorem push (h : s.UpheldBy Excused t) (frame : Frame) :
    (s.push frame).UpheldBy Excused (t.push frame) :=
  { h with stack := congrArg (frame :: ·) h.stack }

theorem pop (h : s.UpheldBy Excused t) : s.pop.UpheldBy Excused t.pop :=
  { h with stack := congrArg List.tail h.stack }

theorem publish (h : s.UpheldBy Excused t) (regions : List Region) (root : Option String) :
    (Survey.publish regions root s).UpheldBy Excused (Survey.publish regions root t) :=
  { h with
    graphs := by rw [Survey.publish, h.contexts, Survey.publish]
    graphRoot := by simp only [Survey.publish, Survey.rootFor, h.atRoot] }

theorem record (h : s.UpheldBy Excused t) (step : Step) :
    (Survey.record step s).UpheldBy Excused (Survey.record step t) := by
  unfold Survey.record
  rw [h.graphOf]
  cases t.graphOf step.side with
  | none => exact h
  | some g => exact { h with graphs := by rw [h.graphs, h.contexts] }

end Env.UpheldBy

/-- An environment under way and one that upholds it, both told the same since the start. -/
def Env.InLine (Excused : Fault → Prop) (s t now now' : Env) : Prop :=
  now.UpheldBy Excused now' ∧ s.ToldAlike t now now'

namespace Env.InLine

variable {Excused : Fault → Prop} {s t now now' : Env}

theorem start (h : s.UpheldBy Excused t) : Env.InLine Excused s t s t :=
  ⟨h, [], (List.append_nil _).symm, (List.append_nil _).symm⟩

theorem note (h : Env.InLine Excused s t now now') (event : Event) :
    Env.InLine Excused s t (now.note event) (now'.note event) :=
  ⟨h.1.of_visible rfl rfl, h.2.note event⟩

end Env.InLine

theorem Simulation.inLine (Excused : Fault → Prop) (s t : Env) (context : Option String) :
    Simulation (fun _ => Env.InLine Excused s t) Excused context context where
  lookup h name := h.1.lookup name context
  strictArity h := h.1.arity
  reaches h region := h.1.reaches region
  readRule := by
    intro _ now now' h text
    rw [now.fst_readRule, now'.fst_readRule]
    refine (h.1.reads text).imp_right fun hsame => ⟨hsame, ?_, h.2⟩
    exact h.1.of_visible (now.visible_readRule text) (now'.visible_readRule text)
  hosts := by
    intro _ now now' h number args
    rw [h.1.hosts]
  message h text := h.note (.message text)
  hostCall h name args := h.note (.hostCall name args context)
  push h frame := ⟨h.1.push frame, h.2⟩
  pop h := ⟨h.1.pop, h.2⟩

theorem Survey.tracks_inLine (Excused : Fault → Prop) (s t : Env) :
    Tracks (Env.InLine Excused s t) where
  contexts h := h.1.contexts
  graphOf h := h.1.graphOf
  publish h regions root := ⟨h.1.publish regions root, h.2⟩
  record := by
    intro now now' h step
    refine ⟨h.1.record step, ?_⟩
    unfold Env.ToldAlike
    rw [journal_record, journal_record]
    exact h.2
  passed h number added := h.note (.pass number added)

namespace Env.UpheldBy

open Simulation

variable {Excused : Fault → Prop} {s t after : Env} {depth depth' : Nat}

/-- What an evaluation comes to is upheld, to at least the depth, unless it is an excused fault. -/
theorem evaluates (h : s.UpheldBy Excused t) (hle : depth ≤ depth')
    {context : Option String} {e : Expr} {result : Except Fault Expr}
    (ho : (evaluate context depth e).outcome s = some (result, after))
    (hresult : ∀ fault, result = .error fault → ¬Excused fault) :
    ∃ after', (evaluate context depth' e).outcome t = some (result, after') ∧
      s.ToldAlike t after after' := by
  have hfollows := (Simulation.inLine Excused s t context).follows_evaluate hle [] e
  obtain ⟨after', ho', hline⟩ := hfollows.unexcused ho (.start h) hresult
  exact ⟨after', ho', hline.2⟩

theorem checks (h : s.UpheldBy Excused t) (hle : depth ≤ depth') {rule : String}
    {context : Option String} {result : Except CheckError Bool}
    (ho : (checkRule depth rule context).outcome s = some (result, after))
    (hresult : ∀ e, result = .error e → ¬ExcusedCheck Excused e) :
    ∃ after', (checkRule depth' rule context).outcome t = some (result, after') ∧
      s.ToldAlike t after after' := by
  have hfollows := (Simulation.inLine Excused s t context).follows_checkRule
    (fun h tree holds => h.note (.verdict context tree holds)) hle [] rule
  obtain ⟨after', ho', hline⟩ := hfollows.unexcused ho (.start h) hresult
  exact ⟨after', ho', hline.2⟩

/-- What a survey comes to is upheld, and so are the graphs that it leaves published. -/
theorem surveys (h : s.UpheldBy Excused t) (hle : depth ≤ depth') {regions : List Region}
    {root : Option String} {result : Except CheckError Survey}
    (ho : (Survey.build depth regions root).outcome s = some (result, after))
    (hresult : ∀ e, result = .error e → ¬ExcusedCheck Excused e) :
    ∃ after', (Survey.build depth' regions root).outcome t = some (result, after') ∧
      s.ToldAlike t after after' ∧ after'.graphs = after.graphs := by
  have T := Survey.tracks_inLine Excused s t
  have hjudge := T.follows_byLabel (Simulation.inLine Excused s t)
    (fun h context tree holds => h.note (.verdict context tree holds)) hle
  have hfollows := T.follows_buildBy hjudge regions root
  obtain ⟨after', ho', hline⟩ := hfollows.unexcused ho (.start h) hresult
  exact ⟨after', ho', hline.2, hline.1.graphs.symm⟩

end Env.UpheldBy

end Passage
