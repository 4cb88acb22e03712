import Passage.Env

/-!
# Seeding an environment

A world starts with its items and skips bound to `FALSE`, its helpers bound to functions, and the
selector bound to the label of a context. Names are bound in that order and a later binding wins, so
that none of them can displace the selector.
-/
namespace Passage

/-- A function written in the rule language, as the provider gives it. -/
structure Helper where
  name : String
  params : List String
  body : String
deriving DecidableEq, Repr

/-- A helper whose body is no expression. -/
structure HelperError where
  name : String
  cause : ReadError
deriving DecidableEq, Repr

def HelperError.message (error : HelperError) : String :=
  "Could not compile helper " ++ error.name ++ ": " ++ error.cause.message

/-- The function that a helper stands for. Its body is read here, once. -/
def Helper.compile (helper : Helper) : Except HelperError Expr :=
  match Expr.ofText helper.body with
  | .ok body => .ok (.function helper.params body)
  | .error cause => .error ⟨helper.name, cause⟩

structure Seed where
  items : List String
  skips : List String
  helpers : List Helper
  initialContext : Option String

namespace Seed

/-- The label that the selector is bound to; an empty label counts as none. -/
def label (seed : Seed) (config : Config) : String :=
  (seed.initialContext.filter (· ≠ "")).getD config.contexts.first

/-- The bindings in the order in which they are made. -/
def bindings (seed : Seed) (config : Config) : Except HelperError (List (String × Expr)) := do
  let flags := (seed.items ++ seed.skips).map fun name => (name, Expr.bool false)
  let helpers ← seed.helpers.mapM fun helper => do return (helper.name, ← helper.compile)
  return flags ++ helpers ++ [(config.selector, .text (seed.label config))]

/-- The environment of a new world, built-in functions included. -/
def env (seed : Seed) (config : Config) (hosts : Nat → Host) : Except HelperError Env := do
  let bindings ← seed.bindings config
  return .fresh config (Env.builtins.insertAll bindings) hosts

end Seed

end Passage
