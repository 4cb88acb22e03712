import Passage.Proofs.Renewal

/-!
# Graphs at hand and graphs published

An atlas keeps the graphs of its last survey at hand, and the environment has them published for
rules to see. A survey publishes before it asks its first rule, and its graphs come to hand only
when it succeeds. So the two copies part when a survey fails while there are graphs at hand: a
mishap, which takes a name that was bound behind the back of the atlas. They are one again once the
graphs at hand are given up or replaced.
-/
namespace Passage

open Passage.Action

namespace Atlas

variable {atlas after : Atlas} {depth : Nat} {label : String}

/-- The graphs at hand, one for each context, are those that are published. -/
def InStep (atlas : Atlas) : Prop :=
  ∀ graphs, atlas.built = some graphs → atlas.env.graphs = graphs ∧
    graphs.names = [atlas.env.config.contexts.first, atlas.env.config.contexts.second]

theorem inStep_of_unbuilt (h : atlas.built = none) : atlas.InStep := by
  intro graphs hbuilt
  rw [h] at hbuilt
  cases hbuilt

theorem InStep.of_copies (h : atlas.InStep) (hsame : after.copies = atlas.copies) :
    after.InStep := by
  obtain ⟨hbuilt, hrest⟩ := Prod.mk.inj hsame
  obtain ⟨hgraphs, hconfig⟩ := Prod.mk.inj hrest
  intro graphs hafter
  rw [hgraphs, hconfig]
  exact h graphs (hbuilt.symm.trans hafter)

theorem copies_of_seen {a b : Atlas} (h : b.seen = a.seen) : b.copies = a.copies := by
  have hcopies : b.seen.copies = a.seen.copies := by rw [h]
  exact hcopies

theorem names_byLabel (survey : Survey) (contexts : Contexts) :
    (survey.byLabel contexts).names = [contexts.first, contexts.second] := by
  rw [Table.names, Survey.entries_byLabel]
  rfl

/-- A survey that succeeds brings its graphs to hand, and they are published. -/
theorem inStep_surveyed {survey : Survey} {env : Env}
    (ho : (Survey.build depth atlas.regions atlas.root).outcome atlas.env =
      some (.ok survey, env)) :
    (atlas.surveyed (.ok survey, env)).2.InStep := by
  intro graphs hgraphs
  cases hgraphs
  refine ⟨?_, names_byLabel survey env.config.contexts⟩
  show env.graphs = survey.byLabel env.config.contexts
  rw [Survey.graphs_of_build ho, Survey.contexts_of_build ho]

/-- Whatever comes of it, taking the graph of a label leaves the copies in step. -/
theorem InStep.graph (h : atlas.InStep) {found : Except AtlasError Graph}
    (ho : (graph depth label).outcome atlas = some (found, after)) : after.InStep := by
  rcases cases_of_graph ho with ⟨graphs, -, -, rfl⟩ | ⟨result, env, hbuilt, hsurvey, -, rfl⟩
  · exact h
  · cases result with
    | ok survey => exact inStep_surveyed hsurvey
    | error error => exact inStep_of_unbuilt hbuilt

theorem get?_of_chosen {graphs : Table Graph} {g : Graph} (h : chosen label graphs = .ok g) :
    graphs.get? label = some g := by
  unfold chosen at h
  cases hg : graphs.get? label with
  | some found =>
    rw [hg] at h
    cases h
    rfl
  | none =>
    rw [hg] at h
    cases h

/-- A graph that is given for a label is one of those at hand afterwards. -/
theorem graph_at_hand {g : Graph}
    (ho : (Atlas.graph depth label).outcome atlas = some (.ok g, after)) :
    ∃ graphs, after.built = some graphs ∧ graphs.get? label = some g := by
  rcases cases_of_graph ho with ⟨graphs, hbuilt, hchosen, rfl⟩ | ⟨found, env, -, -, htold, rfl⟩
  · exact ⟨graphs, hbuilt, get?_of_chosen hchosen.symm⟩
  · cases found with
    | ok survey => exact ⟨_, rfl, get?_of_chosen htold.symm⟩
    | error error => cases htold

end Atlas

namespace Turn

/-- A survey failed while there were graphs at hand. -/
def isMishap (turn : Turn) : Bool :=
  match turn.request, turn.result with
  | .build, .error _ => turn.session.atlas.built.isSome
  | _, _ => false

/-- The graphs at hand were given up or replaced. -/
def renews (turn : Turn) : Bool :=
  match turn.request, turn.result with
  | .grant _, _ | .revoke _, _ | .build, .ok _ => true
  | _, _ => false

theorem renews_eq_false {turn : Turn}
    (h : turn.request.isQuery = true ∨ turn.request.rebinds = true) : turn.renews = false := by
  obtain ⟨session, request, result⟩ := turn
  cases request with
  | grant name | revoke name | build =>
    rcases h with hquery | hrebinds
    · cases hquery
    · cases hrebinds
  | _ => rfl

end Turn

/-- In a past, its latest turn first, every mishap was mended afterwards. -/
def mended : List Turn → Bool
  | [] => true
  | turn :: earlier => turn.renews || !turn.isMishap && mended earlier

namespace Session

/-- A turn that renews the graphs at hand leaves the copies in step, and so does every other one but
a mishap, if they were. -/
theorem Move.inStep {now : Session} {next : Atlas} {request : Request}
    {result : Except Failure Answer} (h : Move now.clearJournal.atlas request result next)
    (hturn : (Turn.mk now request result).renews = true ∨
      (Turn.mk now request result).isMishap = false ∧ now.atlas.InStep) : next.InStep := by
  have hclear (hnow : now.atlas.InStep) : now.clearJournal.atlas.InStep := hnow.of_copies rfl
  cases h with
  | grant name => exact Atlas.inStep_of_unbuilt rfl
  | revoke name => exact Atlas.inStep_of_unbuilt rfl
  | check hseen =>
    rcases hturn with hrenews | ⟨-, hnow⟩
    · cases hrenews
    · exact (hclear hnow).of_copies (Atlas.copies_of_seen hseen)
  | build hbuild =>
    rw [Atlas.outcome_build] at hbuild
    obtain ⟨⟨found, env⟩, hsurvey, he⟩ := Option.map_eq_some_iff.mp hbuild
    cases found with
    | ok survey =>
      cases he
      exact Atlas.inStep_surveyed hsurvey
    | error error =>
      -- What the survey had published by then stays, which does no harm if nothing was at hand.
      cases he
      rcases hturn with hrenews | ⟨hnone, -⟩
      · cases hrenews
      · have hunbuilt : now.atlas.built = none :=
          Option.not_isSome_iff_eq_none.mp (Bool.eq_false_iff.mp hnone)
        exact Atlas.inStep_of_unbuilt hunbuilt
  | query hquery hgraph hseen =>
    rcases hturn with hrenews | ⟨-, hnow⟩
    · rw [Turn.renews_eq_false (.inl hquery)] at hrenews
      cases hrenews
    · exact ((hclear hnow).graph hgraph).of_copies (Atlas.copies_of_seen hseen)
  | rebind hrebinds hsame =>
    rcases hturn with hrenews | ⟨-, hnow⟩
    · rw [Turn.renews_eq_false (.inr hrebinds)] at hrenews
      cases hrenews
    · exact (hclear hnow).of_copies hsame

/-- A past in which every mishap was mended leaves the copies in step. -/
theorem Past.inStep {start now : Session} {turns : List Turn} (h : Past start turns now)
    (hbuilt : start.atlas.built = none)
    (hasked : ∀ turn ∈ turns, turn.request.isForAtlas = true ∨ turn.request.rebinds = true)
    (hmended : mended turns = true) : now.atlas.InStep := by
  induction h with
  | start => exact Atlas.inStep_of_unbuilt hbuilt
  | @turn turns now next depth request report _ hstep ih =>
    have hmove := move_of_step (hasked _ List.mem_cons_self) hstep
    refine hmove.inStep ?_
    unfold mended at hmended
    rcases Bool.or_eq_true_iff.mp hmended with hrenews | hrest
    · exact .inl hrenews
    · obtain ⟨hno, hearlier⟩ := Bool.and_eq_true_iff.mp hrest
      refine .inr ⟨by simpa using hno, ?_⟩
      exact ih (fun turn hturn => hasked turn (List.mem_cons_of_mem _ hturn)) hearlier

end Session

open Session

/-- Where there are graphs at hand, they are the published ones, one under each label, if every
survey that failed while there were graphs at hand was followed by a grant, a revocation or a survey
that succeeded. Then any graph that is given for a label is the published one, so that what can be
had is judged by the graphs in which it is reached. -/
theorem graphs_in_step {start now : Session} {turns : List Turn} (hpast : Past start turns now)
    (hbuilt : start.atlas.built = none)
    (hasked : ∀ turn ∈ turns, turn.request.isForAtlas = true ∨ turn.request.rebinds = true)
    (hmended : mended turns = true) :
    (∀ graphs, now.atlas.built = some graphs → now.atlas.env.graphs = graphs ∧
      graphs.names = [now.atlas.env.config.contexts.first, now.atlas.env.config.contexts.second]) ∧
    ∀ depth label g after, (Atlas.graph depth label).outcome now.atlas = some (.ok g, after) →
      after.env.graphs.get? label = some g := by
  have hstep := hpast.inStep hbuilt hasked hmended
  refine ⟨hstep, ?_⟩
  intro depth label g after ho
  obtain ⟨graphs, hafter, hget⟩ := Atlas.graph_at_hand ho
  rw [(hstep.graph ho graphs hafter).1]
  exact hget

/-- A name is bound to a text behind the back of the atlas and the next survey fails for it, while
the graphs of the first one stay at hand. -/
theorem graphs_out_of_step :
    let regions : List Region := [⟨"a", "", [⟨"b", "x", "x"⟩], []⟩]
    let globals := Env.builtins.insert "x" (.bool true)
    let start : Session := ⟨.new (.fresh {} globals Env.noHosts) regions none, 0, false⟩
    ∃ turns now graphs, start.Past turns now ∧
      (∀ turn ∈ turns, turn.request.isForAtlas = true ∨ turn.request.rebinds = true) ∧
      now.atlas.built = some graphs ∧ (graphs.get? "CHILD").map Graph.edges = some [("a", "b")] ∧
      (now.atlas.env.graphs.get? "CHILD").map Graph.edges = some [] := by
  intro regions globals start
  have hrun : ((replay 8 [] start [.build, .bind "x" (.text "?"), .build]).bind fun past =>
      past.2.atlas.built.map fun graphs =>
        (past.1.all fun turn => turn.request.isForAtlas || turn.request.rebinds,
          (graphs.get? "CHILD").map Graph.edges,
          (past.2.atlas.env.graphs.get? "CHILD").map Graph.edges)) =
        some (true, some [("a", "b")], some []) := by
    decide +kernel
  obtain ⟨⟨turns, now⟩, hreplay, hseen⟩ := Option.bind_eq_some_iff.mp hrun
  obtain ⟨graphs, hgraphs, heq⟩ := Option.map_eq_some_iff.mp hseen
  obtain ⟨hall, hedges⟩ := Prod.mk.inj heq
  obtain ⟨hhand, hpublished⟩ := Prod.mk.inj hedges
  refine ⟨turns, now, graphs, Past.start.replay hreplay, ?_, hgraphs, hhand, hpublished⟩
  intro turn hturn
  exact Bool.or_eq_true_iff.mp (List.all_eq_true.mp hall turn hturn)

/-- The same mishap, mended by a grant: the next graph that is asked for brings the copies
together. -/
theorem graphs_in_step_after_mishap :
    let regions : List Region := [⟨"a", "", [⟨"b", "x", "x"⟩], []⟩]
    let globals := Env.builtins.insert "x" (.bool true)
    let start : Session := ⟨.new (.fresh {} globals Env.noHosts) regions none, 0, false⟩
    let requests : List Request :=
      [.build, .bind "x" (.text "?"), .build, .grant "x", .bind "y" (.text "?"), .graph "CHILD"]
    ∃ turns now graphs, replay 8 [] start requests = some (turns, now) ∧
      turns.any Turn.isMishap = true ∧ now.atlas.built = some graphs ∧
      (graphs.get? "CHILD").map Graph.edges = some [("a", "b")] ∧
        now.atlas.env.graphs = graphs := by
  intro regions globals start requests
  have hrun : ((replay 8 [] start requests).bind fun past =>
      past.2.atlas.built.map fun graphs =>
        ((past.1.all fun turn => turn.request.isForAtlas || turn.request.rebinds) &&
          mended past.1 &&
          past.1.any Turn.isMishap, (graphs.get? "CHILD").map Graph.edges)) =
        some (true, some [("a", "b")]) := by
    decide +kernel
  obtain ⟨⟨turns, now⟩, hreplay, hseen⟩ := Option.bind_eq_some_iff.mp hrun
  obtain ⟨graphs, hgraphs, heq⟩ := Option.map_eq_some_iff.mp hseen
  obtain ⟨hturns, hedges⟩ := Prod.mk.inj heq
  obtain ⟨hkept, hmishap⟩ := Bool.and_eq_true_iff.mp hturns
  obtain ⟨hall, hmended⟩ := Bool.and_eq_true_iff.mp hkept
  have hasked : ∀ turn ∈ turns, turn.request.isForAtlas = true ∨ turn.request.rebinds = true :=
    fun turn hturn => Bool.or_eq_true_iff.mp (List.all_eq_true.mp hall turn hturn)
  have hstep := graphs_in_step (Past.start.replay hreplay) rfl hasked hmended
  exact ⟨turns, now, graphs, hreplay, hmishap, hgraphs, hedges, (hstep.1 graphs hgraphs).1⟩

end Passage
