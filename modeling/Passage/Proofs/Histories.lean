import Passage.Proofs.SettledSurveys

/-!
# Histories of sessions

A session has a past: the requests that were put to it one after another, each with the session that
it met and with its result. Depths are left out, as every request may have been given another one.
Requests are told apart by what they are for. All that look at graphs take the graph of a context
from the atlas and then go on with it (`answer_query`), and how they go on depends on what rules see
(`Onward`).
-/
namespace Passage

open Passage.Action

deriving instance DecidableEq for Answer

namespace Request

/-- Requests for what the graphs tell. -/
def isQuery : Request → Bool
  | graph _ | reachable _ _ | canReach _ _ _ | available _ _ => true
  | _ => false

/-- Requests to the atlas itself, and not to its environment. -/
def isForAtlas : Request → Bool
  | grant _ | revoke _ | check _ _ | build => true
  | request => request.isQuery

/-- Requests that bind a global name and tell the atlas nothing of it. -/
def rebinds : Request → Bool
  | bind _ _ | bindText _ _ | bindHelper _ | bindHost _ _ _ => true
  | _ => false

theorem leavesFrames_of_isForAtlas {request : Request} (h : request.isForAtlas = true) :
    request.leavesFrames = true := by
  cases request with
  | push | pop => cases h
  | _ => rfl

theorem rebinds_eq_false {request : Request} (h : request.isForAtlas = true) :
    request.rebinds = false := by
  cases request with
  | bind | bindText | bindHelper | bindHost => cases h
  | _ => rfl

end Request

/-- A request of the past, with the session that it met and its result. -/
structure Turn where
  session : Session
  request : Request
  result : Except Failure Answer

namespace Session

/-- Requests have led from one session to another one; the latest turn stands first. -/
inductive Past (start : Session) : List Turn → Session → Prop
  | start : Past start [] start
  | turn {turns : List Turn} {now next : Session} {depth : Nat} {request : Request}
      {report : Report} :
      Past start turns now → now.step depth request = some (report, next) →
      Past start (⟨now, request, report.result⟩ :: turns) next

/-- Carries out requests after a past, all of them within one depth. -/
def replay (depth : Nat) : List Turn → Session → List Request → Option (List Turn × Session)
  | turns, now, [] => some (turns, now)
  | turns, now, request :: rest => do
    let (report, next) ← now.step depth request
    replay depth (⟨now, request, report.result⟩ :: turns) next rest

theorem Past.replay {start now last : Session} {turns later : List Turn} {depth : Nat}
    {requests : List Request} (h : Past start turns now)
    (hreplay : Session.replay depth turns now requests = some (later, last)) :
    Past start later last := by
  induction requests generalizing turns now with
  | nil => cases hreplay; exact h
  | cons request rest ih =>
    obtain ⟨⟨report, next⟩, hstep, hrest⟩ := Option.bind_eq_some_iff.mp hreplay
    exact ih (h.turn hstep) hrest

/-- A past whose requests leave the frames alone has left them as they were at the start. -/
theorem Past.frames {start now : Session} {turns : List Turn} (h : Past start turns now)
    (hleaves : ∀ turn ∈ turns, turn.request.leavesFrames = true) : now.frames = start.frames := by
  induction h with
  | start => rfl
  | turn _ hstep ih =>
    have hkept := (frames_step (hleaves _ List.mem_cons_self) hstep).1
    exact hkept.trans (ih fun turn hturn => hleaves turn (List.mem_cons_of_mem _ hturn))

/-- The session answers a request with a result, at some depth. -/
def Answers (session : Session) (request : Request) (result : Except Failure Answer) : Prop :=
  ∃ depth report next, session.step depth request = some (report, next) ∧ report.result = result

theorem step_eq_some_iff {depth : Nat} {session next : Session} {request : Request}
    {report : Report} : session.step depth request = some (report, next) ↔
      (answer depth request).outcome session.clearJournal = some (report.result, next) ∧
        report = Report.of report.result next := by
  constructor
  · intro h
    obtain ⟨⟨result, after⟩, hanswer, he⟩ := Option.map_eq_some_iff.mp h
    cases he
    exact ⟨hanswer, rfl⟩
  · rintro ⟨hanswer, hreport⟩
    rw [step, hanswer, hreport]
    rfl

theorem answers_iff {session : Session} {request : Request} {result : Except Failure Answer} :
    session.Answers request result ↔
      ∃ depth next, (answer depth request).outcome session.clearJournal = some (result, next) := by
  constructor
  · rintro ⟨depth, report, next, hstep, rfl⟩
    exact ⟨depth, next, (step_eq_some_iff.mp hstep).1⟩
  · rintro ⟨depth, next, hanswer⟩
    exact ⟨depth, Report.of result next, next, step_eq_some_iff.mpr ⟨hanswer, rfl⟩, rfl⟩

theorem outcome_tour {α : Type} (act : Tour AtlasError α) (session : Session) :
    (tour act).outcome session = (act.outcome session.atlas).map fun (result, atlas) =>
      (result.mapError Failure.ofAtlas, { session with atlas := atlas }) := by
  show ((act.outcome session.atlas).map _).map _ = _
  rw [Option.map_map]
  rfl

/-- What is made of the answer of the atlas can be made before the session takes it over. -/
theorem tour_bind_pure {α : Type} (act : Tour AtlasError α) (make : α → Answer) :
    (tour act >>= fun a => pure (make a)) = tour (act >>= fun a => pure (make a)) := by
  apply Action.ext
  intro session
  rw [outcome_bind, outcome_tour, outcome_tour, outcome_bind]
  cases act.outcome session.atlas with
  | none => rfl
  | some pair =>
    obtain ⟨result, after⟩ := pair
    cases result <;> rfl

end Session

namespace Atlas

/-- The graphs at hand and those that are published, and the configuration with their labels. -/
def copies (atlas : Atlas) : Option (Table Graph) × Table Graph × Config :=
  (atlas.built, atlas.env.graphs, atlas.env.config)

/-- An atlas without what neither rules nor queries see. -/
def seen (atlas : Atlas) : Atlas := { atlas with env := atlas.env.visible }

theorem keeps_seen {ε α : Type} {act : Action Env ε α} (h : Keeps Env.visible act) :
    Keeps seen (inEnv act) :=
  keeps_onPart (fun _ atlas hkept => congrArg (fun env => { atlas with env := env }) hkept) h

/-- Two atlases of the same regions whose environments look the same to rules. -/
def LookAlike (a b : Atlas) : Prop := a.env.visible = b.env.visible ∧ a.regions = b.regions

/-- A way to go on with a graph: it comes to the same wherever the same is seen, to at least the
depth, and changes nothing of the atlas that rules or queries see. -/
structure Onward {α : Type} (next : Nat → Graph → Tour AtlasError α) : Prop where
  follows : ∀ {depth depth' : Nat}, depth ≤ depth' → ∀ g,
    Follows LookAlike (fun _ => False) (next depth g) (next depth' g)
  keeps : ∀ depth g, Keeps seen (next depth g)

theorem onward_pure {α : Type} (make : Graph → α) : Onward fun _ g => pure (make g) where
  follows _ g := follows_pure (make g)
  keeps _ g := keeps_pure (make g)

/-- What is made of a result in the end makes no difference. -/
theorem Onward.map {α β : Type} {next : Nat → Graph → Tour AtlasError α} (h : Onward next)
    (make : α → β) : Onward fun depth g => next depth g >>= fun a => pure (make a) where
  follows hle g := follows_bind (h.follows hle g) fun a => follows_pure (make a)
  keeps depth g := keeps_bind (h.keeps depth g) fun a => keeps_pure (make a)

theorem onward_available (label root : String) : Onward fun depth g => do
    let regions ← Action.read Atlas.regions
    Action.mapError AtlasError.check (inEnv
      (Passage.available depth regions g root (some label))) where
  follows hle g := by
    have hput : ∀ (r p : Atlas) (s t : Env), LookAlike r p → s.visible = t.visible →
        LookAlike { r with env := s } { p with env := t } := fun _ _ _ _ h hseen => ⟨hseen, h.2⟩
    refine follows_bind (follows_read fun _ _ h => h.2) fun regions => ?_
    have hinner : Follows LookAlike (fun _ => False)
        (inEnv (Passage.available _ regions g root (some label)))
        (inEnv (Passage.available _ regions g root (some label))) :=
      follows_onPart (fun _ _ h => h.1) hput (follows_holding hle (some label) _)
    exact follows_mapError (f := AtlasError.check) (fun _ hx => hx) hinner
  keeps depth g := by
    refine keeps_bind (keeps_read _) fun regions => keeps_mapError _ ?_
    exact keeps_seen (keeps_holding depth (some label) _)

end Atlas

namespace Session

/-- A query takes the graph of a context from the atlas and goes on with it. -/
theorem answer_query {query : Request} (h : query.isQuery = true) :
    ∃ label next, Atlas.Onward next ∧
      ∀ depth, answer depth query = tour (Atlas.graph depth label >>= next depth) := by
  cases query with
  | graph label =>
    exact ⟨label, _, Atlas.onward_pure Answer.graph, fun depth => tour_bind_pure _ _⟩
  | reachable label root =>
    refine ⟨label, _, (Atlas.onward_pure (Graph.reachable · root)).map Answer.ids, fun depth => ?_⟩
    show (tour (Atlas.reachable depth label root) >>= _) = _
    rw [tour_bind_pure, Atlas.reachable, bind_assoc]
  | canReach label source destination =>
    refine ⟨label, _, (Atlas.onward_pure (Graph.canReach · source destination)).map Answer.truth,
      fun depth => ?_⟩
    show (tour (Atlas.canReach depth label source destination) >>= _) = _
    rw [tour_bind_pure, Atlas.canReach, bind_assoc]
  | available label root =>
    refine ⟨label, _, (Atlas.onward_available label root).map Answer.ids, fun depth => ?_⟩
    show (tour (Atlas.available depth label root) >>= _) = _
    rw [tour_bind_pure, Atlas.available, bind_assoc]
  | _ => cases h

theorem keeps_seen {α : Type} {act : Action Atlas Failure α} (h : Keeps Atlas.seen act) :
    Keeps (fun session : Session => session.atlas.seen) (onAtlas act) := by
  refine keeps_onPart ?_ h
  exact fun _ _ hkept => hkept

theorem keeps_copies {depth : Nat} {request : Request} (h : request.rebinds = true) :
    Keeps (fun session : Session => session.atlas.copies) (answer depth request) := by
  have hbind (name : String) (value : Expr) :
      Keeps (fun session : Session => session.atlas.copies) (changeEnv (·.bind name value)) := by
    intro session result after ho
    cases ho
    rfl
  cases request with
  | bind name value => exact hbind name value
  | bindText name text => exact keeps_bind (keeps_ofExcept _) fun e => hbind name e
  | bindHelper helper => exact keeps_bind (keeps_ofExcept _) fun f => hbind helper.name f
  | bindHost name isLazy host =>
    exact keeps_bind (keeps_update fun _ => rfl) fun _ => keeps_pure Answer.nothing
  | _ => cases h

/-- What a request can do to the atlas, and what it can come to. -/
inductive Move (now : Atlas) : Request → Except Failure Answer → Atlas → Prop
  | grant (name : String) : Move now (.grant name) (.ok .nothing) (now.grant name)
  | revoke (name : String) : Move now (.revoke name) (.ok .nothing) (now.revoke name)
  | check {rule : String} {context : Option String} {result : Except Failure Answer}
      {next : Atlas} :
      next.seen = now.seen → Move now (.check rule context) result next
  | build {depth : Nat} {built : Except CheckError (Table Graph)} {next : Atlas} :
      (Atlas.build depth).outcome now = some (built, next) →
      Move now .build ((built.mapError Failure.check).map fun graphs => .graphs graphs.sorted) next
  | query {query : Request} {label : String} {depth : Nat} {found : Except AtlasError Graph}
      {result : Except Failure Answer} {mid next : Atlas} :
      query.isQuery = true → (Atlas.graph depth label).outcome now = some (found, mid) →
      next.seen = mid.seen → Move now query result next
  | rebind {request : Request} {result : Except Failure Answer} {next : Atlas} :
      request.rebinds = true → next.copies = now.copies → Move now request result next

theorem move_of_query {depth : Nat} {session next : Session} {query : Request}
    {result : Except Failure Answer} (hquery : query.isQuery = true)
    (h : (answer depth query).outcome session = some (result, next)) :
    Move session.atlas query result next.atlas := by
  obtain ⟨label, goOn, honward, hanswer⟩ := answer_query hquery
  rw [hanswer, outcome_tour] at h
  obtain ⟨⟨inner, after⟩, hact, he⟩ := Option.map_eq_some_iff.mp h
  cases he
  -- The graph is taken first, and nothing is seen to change after that.
  rcases cases_of_bind hact with ⟨g, mid, hgraph, hnext⟩ | ⟨error, hgraph, _⟩
  · exact .query hquery hgraph (honward.keeps depth g mid _ _ hnext)
  · exact .query hquery hgraph rfl

theorem move_of_build {depth : Nat} {session next : Session} {result : Except Failure Answer}
    (h : (answer depth .build).outcome session = some (result, next)) :
    Move session.atlas .build result next.atlas := by
  have hbuilt {built : Except Failure (Table Graph)} {mid : Session}
      (h : (onAtlas ((Atlas.build depth).mapError .check)).outcome session = some (built, mid)) :
      ∃ inner, (Atlas.build depth).outcome session.atlas = some (inner, mid.atlas) ∧
        built = inner.mapError .check := by
    obtain ⟨⟨_, after⟩, hact, he⟩ := Option.map_eq_some_iff.mp h
    obtain ⟨inner, hbuild, rfl⟩ := cases_of_mapError hact
    cases he
    exact ⟨inner, hbuild, rfl⟩
  rcases cases_of_bind h with ⟨graphs, mid, hact, hnext⟩ | ⟨error, hact, rfl⟩
  · cases hnext
    obtain ⟨inner, hbuild, heq⟩ := hbuilt hact
    cases inner with
    | error e => cases heq
    | ok built => cases heq; exact .build hbuild
  · obtain ⟨inner, hbuild, heq⟩ := hbuilt hact
    cases inner with
    | error e => cases heq; exact .build hbuild
    | ok built => cases heq

/-- Whatever is asked, one of these things is done. -/
theorem move_of_step {depth : Nat} {now next : Session} {request : Request} {report : Report}
    (hrequest : request.isForAtlas = true ∨ request.rebinds = true)
    (h : now.step depth request = some (report, next)) :
    Move now.clearJournal.atlas request report.result next.atlas := by
  obtain ⟨hanswer, -⟩ := step_eq_some_iff.mp h
  rcases hrequest with hfor | hrebinds
  · cases request with
    | grant name =>
      obtain ⟨hresult, rfl⟩ := Prod.mk.inj (Option.some.inj hanswer)
      rw [← hresult]
      exact .grant name
    | revoke name =>
      obtain ⟨hresult, rfl⟩ := Prod.mk.inj (Option.some.inj hanswer)
      rw [← hresult]
      exact .revoke name
    | check rule context =>
      have hseen : Keeps Atlas.seen
          (Atlas.inEnv ((checkRule depth rule context).mapError Failure.check)) :=
        Atlas.keeps_seen (keeps_mapError _ (keeps_checkRule context depth rule))
      have hkeeps : Keeps (fun session : Session => session.atlas.seen)
          (answer depth (.check rule context)) :=
        keeps_bind (keeps_seen hseen) fun holds => keeps_pure _
      exact .check (hkeeps _ _ _ hanswer)
    | build => exact move_of_build hanswer
    | graph | reachable | canReach | available => exact move_of_query rfl hanswer
    | _ => cases hfor
  · exact .rebind hrebinds (keeps_copies hrebinds _ _ _ hanswer)

end Session

end Passage
