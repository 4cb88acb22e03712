import Passage.Atlas
import Passage.Cursor
import Passage.Seed

/-!
# Sessions

A session is a conversation with one atlas: a request at a time, each answered or refused. A report
adds to the answer what the request let the outside know, and how many frames are on the stack
after it.
-/
namespace Passage

inductive World where
  | seeded (seed : Seed)
  /-- Nothing but the given globals, which may replace built-in functions. -/
  | plain (withBuiltins : Bool) (globals : List (String × Expr))

inductive Request where
  | evaluateText (text : String) (context : Option String)
  | evaluate (e : Expr) (context : Option String)
  | truthOf (text : String) (context : Option String)
  | textOf (text : String) (context : Option String)
  | check (rule : String) (context : Option String)
  | bind (name : String) (value : Expr)
  | bindText (name text : String)
  | bindHelper (helper : Helper)
  | bindHost (name : String) (isLazy : Bool) (host : Host)
  | lookup (name : String) (context : Option String)
  | globals
  | push (bindings : List (String × Expr))
  | pop
  | frame
  | publish (graphs : List (String × List (String × String))) (root : Option String)
  | published
  | survey (regions : Option (List RegionRecord)) (root : Option String)
  | availableIn (label root : String) (context : Option String)
  | grant (name : String)
  | revoke (name : String)
  | build
  | graph (label : String)
  | reachable (label root : String)
  | canReach (label source destination : String)
  | available (label root : String)

inductive Answer where
  | nothing
  | value (e : Expr)
  | truth (b : Bool)
  | text (s : String)
  | ids (list : List String)
  | bindings (list : List (String × Expr))
  | graph (g : Graph)
  | graphs (list : List (String × Graph))
  | survey (first second : Graph)
  | published (root : Option String) (list : List (String × Graph))

inductive Failure where
  | read (error : ReadError)
  | fault (fault : Fault)
  | check (error : CheckError)
  | helper (error : HelperError)
  | region (error : RegionError)
  | unknownContext (label : String) (known : List String)
  | unpublished (label : String)
  | config (error : ConfigError)
deriving DecidableEq, Repr

namespace Host

/-- A function that gives one of its arguments; a place before the first counts from the end. -/
def argument (place : Int) : Host := fun args _ =>
  match Cursor.wrapped? args place with
  | some arg => .ok arg
  | none => .error (.host .noSuchArgument)

end Host

namespace Failure

def ofAtlas : AtlasError → Failure
  | .check error => check error
  | .unknownContext label known => unknownContext label known

end Failure

structure Session where
  atlas : Atlas
  /-- How many functions of the host program are bound; each is known by its number. -/
  hosts : Nat
  /-- Whether messages are written into the trace rather than collected. -/
  echo : Bool

abbrev Talk (α : Type) := Action Session Failure α

namespace Session

def envOf (config : Config) : World → Except HelperError Env
  | .seeded seed => seed.env config Env.noHosts
  | .plain withBuiltins globals =>
    .ok (.fresh config ((if withBuiltins then Env.builtins else .empty).insertAll globals)
      Env.noHosts)

/-- A new session; the world is set up before the regions are read. -/
def new (config : Config) (world : World) (regions : List RegionRecord) (root : Option String)
    (echo : Bool) : Except Failure Session := do
  let env ← (envOf config world).mapError .helper
  let regions ← (regions.mapM Region.ofRecord).mapError .region
  return ⟨.new env regions root, 0, echo⟩

def onAtlas (act : Action Atlas Failure α) : Talk α :=
  act.onPart Session.atlas fun atlas session => { session with atlas := atlas }

def onEnv (act : Action Env Failure α) : Talk α := onAtlas (Atlas.inEnv act)

def eval (act : Eval α) : Talk α := onEnv (act.mapError .fault)

def ask (act : Check α) : Talk α := onEnv (act.mapError .check)

def tour (act : Tour AtlasError α) : Talk α := onAtlas (act.mapError Failure.ofAtlas)

def changeEnv (change : Env → Env) : Talk Answer := do
  onEnv (Action.update change)
  return .nothing

def readEnv (look : Env → α) : Talk α := onEnv (Action.read look)

/-- Reads a text of which every token has to belong to the expression. -/
def readText (text : String) : Talk Expr :=
  Action.ofExcept ((Expr.ofText text).mapError .read)

/-- Makes a function of the host program known under the next number. -/
def addHost (name : String) (isLazy : Bool) (host : Host) (session : Session) : Session :=
  let number := session.hosts
  let env := session.atlas.env
  let hosts := fun n => if n = number then host else env.hosts n
  let env := { env with hosts := hosts }.bind name (.native (.host number name isLazy))
  { session with atlas := { session.atlas with env := env }, hosts := number + 1 }

def popFrame : Eval Frame := do
  match ← Action.read Env.stack with
  | [] => throw .emptyStack
  | frame :: rest =>
    Action.update fun env => { env with stack := rest }
    return frame

def publish (graphs : List (String × List (String × String))) (root : Option String)
    (env : Env) : Env :=
  { env with
    graphs := .ofList (graphs.map fun (label, edges) => (label, .ofEdges edges))
    graphRoot := root }

def answer (depth : Nat) : Request → Talk Answer
  | .evaluateText text context => do
    let e ← readText text
    return .value (← eval (Passage.evaluate context depth e))
  | .evaluate e context => do
    return .value (← eval (Passage.evaluate context depth e))
  | .truthOf text context => do
    let e ← readText text
    let value ← eval (Passage.evaluate context depth e)
    return .truth (← eval (Action.ofExcept value.toTruth))
  | .textOf text context => do
    let e ← readText text
    let value ← eval (Passage.evaluate context depth e)
    return .text (← eval (Action.ofExcept value.toText))
  | .check rule context => do
    return .truth (← ask (checkRule depth rule context))
  | .bind name value => changeEnv (·.bind name value)
  | .bindText name text => do
    let e ← readText text
    changeEnv (·.bind name e)
  | .bindHelper helper => do
    let f ← Action.ofExcept (helper.compile.mapError .helper)
    changeEnv (·.bind helper.name f)
  | .bindHost name isLazy host => do
    Action.update (addHost name isLazy host)
    return .nothing
  | .lookup name context => do
    return .value (← eval (Eval.lookup name context))
  | .globals => do
    return .bindings (← readEnv (·.globals.sorted))
  | .push bindings => changeEnv (·.push (.ofList bindings))
  | .pop => do
    return .bindings (← eval popFrame).sorted
  | .frame => do
    match ← readEnv Env.stack with
    | [] => return .nothing
    | frame :: _ => return .bindings frame.sorted
  | .publish graphs root => changeEnv (publish graphs root)
  | .published => do
    let root ← readEnv Env.graphRoot
    return .published root (← readEnv (·.graphs.sorted))
  | .survey records root => do
    let regions ← match records with
      | none => Action.read (·.atlas.regions)
      | some records => Action.ofExcept ((records.mapM Region.ofRecord).mapError .region)
    let survey ← ask (Survey.build depth regions root)
    return .survey survey.first survey.second
  | .availableIn label root context => do
    match ← readEnv (·.graphs.get? label) with
    | none => throw (.unpublished label)
    | some g =>
      let regions ← Action.read (·.atlas.regions)
      return .ids (← ask (Passage.available depth regions g root context))
  | .grant name => do
    onAtlas (Action.update (·.grant name))
    return .nothing
  | .revoke name => do
    onAtlas (Action.update (·.revoke name))
    return .nothing
  | .build => do
    let graphs ← onAtlas ((Atlas.build depth).mapError .check)
    return .graphs graphs.sorted
  | .graph label => do
    return .graph (← tour (Atlas.graph depth label))
  | .reachable label root => do
    return .ids (← tour (Atlas.reachable depth label root))
  | .canReach label source destination => do
    return .truth (← tour (Atlas.canReach depth label source destination))
  | .available label root => do
    return .ids (← tour (Atlas.available depth label root))

end Session

structure Report where
  result : Except Failure Answer
  frames : Nat
  messages : List String
  calls : List (String × List Expr × Option String)
  trace : String

namespace Report

/-- The line that an event leaves in the trace. -/
def line (debug echo : Bool) : Event → Option String
  | .message text => if echo then some ("DEBUG: " ++ text) else none
  | .hostCall _ _ _ => none
  | .verdict context rule holds =>
    if debug then
      some ("[rulegraph] check[" ++ context.getD "None" ++ "] " ++ rule.render ++ " -> "
        ++ (if holds then "True" else "False"))
    else none
  | .pass number added =>
    if debug then
      some (s!"[rulegraph] pass {number}: " ++
        ", ".intercalate (added.map fun (label, count) => label ++ s!" +{count}"))
    else none

/-- The message that an event adds to those collected. -/
def message (echo : Bool) : Event → Option String
  | .message text => if echo then none else some text
  | _ => none

def call : Event → Option (String × List Expr × Option String)
  | .hostCall name args context => some (name, args, context)
  | _ => none

/-- The report on a request that left the session as it is now. -/
def of (result : Except Failure Answer) (session : Session) : Report :=
  let env := session.atlas.env
  { result := result
    frames := env.stack.length
    messages := env.journal.filterMap (message session.echo)
    calls := env.journal.filterMap call
    trace := String.join
      ((env.journal.filterMap (line env.config.debug session.echo)).map (· ++ "\n")) }

end Report

namespace Session

/-- Starts a new page of the journal. -/
def clearJournal (session : Session) : Session :=
  let env := { session.atlas.env with journal := [] }
  { session with atlas := { session.atlas with env := env } }

/-- Answers a request, with the session after it. -/
def step (depth : Nat) (session : Session) (request : Request) : Option (Report × Session) :=
  ((answer depth request).outcome session.clearJournal).map fun (result, session) =>
    (Report.of result session, session)

def run (depth : Nat) : Session → List Request → Option (List Report)
  | _, [] => some []
  | session, request :: rest => do
    let (report, session) ← session.step depth request
    let later ← run depth session rest
    return report :: later

end Session

end Passage
