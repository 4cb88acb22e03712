/-!
# Actions

An action works on a state and either returns a value or fails; a failure keeps what was done to the
state before it. Actions recurse to a limited depth: an action that needs more has no outcome at
all, which is neither a value nor a failure. The lemmas say what each way to build an action does
when it is carried out.
-/
namespace Passage

abbrev Action (σ ε α : Type) := ExceptT ε (StateT σ Option) α

namespace Action

variable {σ τ ε ε' α β : Type}

/-- Carries an action out: its result and the state after it, if it stays within its depth. -/
def outcome (act : Action σ ε α) (s : σ) : Option (Except ε α × σ) := (ExceptT.run act).run s

def ofOutcome (f : σ → Option (Except ε α × σ)) : Action σ ε α := ExceptT.mk f

/-- An action that needs more depth than there is. -/
def tooDeep : Action σ ε α := ofOutcome fun _ => none

/-- A result that does not look at the state. -/
def ofExcept (result : Except ε α) : Action σ ε α := ofOutcome fun s => some (result, s)

/-- What a function of the state gives. -/
def read (f : σ → α) : Action σ ε α := ofOutcome fun s => some (.ok (f s), s)

def update (f : σ → σ) : Action σ ε Unit := ofOutcome fun s => some (.ok (), f s)

/-- Replaces the failure by what is made of it. -/
def mapError (f : ε → ε') (act : Action σ ε α) : Action σ ε' α :=
  ofOutcome fun s => (act.outcome s).map fun (result, s) => (result.mapError f, s)

/-- Carries an action out on a part of a larger state. -/
def onPart (get : τ → σ) (set : σ → τ → τ) (act : Action σ ε α) : Action τ ε α :=
  ofOutcome fun t => (act.outcome (get t)).map fun (result, s) => (result, set s t)

/-- What follows an action: the next one after a value, nothing more after a failure. -/
def after (next : α → σ → Option (Except ε β × σ)) :
    Except ε α × σ → Option (Except ε β × σ)
  | (.ok a, s) => next a s
  | (.error e, s) => some (.error e, s)

@[simp] theorem outcome_ofOutcome (f : σ → Option (Except ε α × σ)) (s : σ) :
    (ofOutcome f).outcome s = f s := rfl

@[simp] theorem outcome_pure (a : α) (s : σ) :
    (pure a : Action σ ε α).outcome s = some (.ok a, s) := rfl

@[simp] theorem outcome_throw (e : ε) (s : σ) :
    (throw e : Action σ ε α).outcome s = some (.error e, s) := rfl

@[simp] theorem outcome_tooDeep (s : σ) : (tooDeep : Action σ ε α).outcome s = none := rfl

@[simp] theorem outcome_ofExcept (result : Except ε α) (s : σ) :
    (ofExcept result : Action σ ε α).outcome s = some (result, s) := rfl

@[simp] theorem outcome_read (f : σ → α) (s : σ) :
    (read f : Action σ ε α).outcome s = some (.ok (f s), s) := rfl

@[simp] theorem outcome_update (f : σ → σ) (s : σ) :
    (update f : Action σ ε Unit).outcome s = some (.ok (), f s) := rfl

@[simp] theorem outcome_mapError (f : ε → ε') (act : Action σ ε α) (s : σ) :
    (act.mapError f).outcome s =
      (act.outcome s).map fun (result, s) => (result.mapError f, s) := rfl

@[simp] theorem outcome_onPart (get : τ → σ) (set : σ → τ → τ) (act : Action σ ε α) (t : τ) :
    (act.onPart get set).outcome t =
      (act.outcome (get t)).map fun (result, s) => (result, set s t) := rfl

theorem outcome_bind (act : Action σ ε α) (next : α → Action σ ε β) (s : σ) :
    (act >>= next).outcome s = (act.outcome s).bind (after fun a s => (next a).outcome s) := by
  show ((ExceptT.run act).run s).bind _ = ((ExceptT.run act).run s).bind _
  congr 1
  funext pair
  obtain ⟨result, s'⟩ := pair
  cases result <;> rfl

theorem outcome_bind_ok {act : Action σ ε α} {s s' : σ} {a : α}
    (h : act.outcome s = some (.ok a, s')) (next : α → Action σ ε β) :
    (act >>= next).outcome s = (next a).outcome s' := by
  rw [outcome_bind, h]; rfl

theorem outcome_bind_error {act : Action σ ε α} {s s' : σ} {e : ε}
    (h : act.outcome s = some (.error e, s')) (next : α → Action σ ε β) :
    (act >>= next).outcome s = some (.error e, s') := by
  rw [outcome_bind, h]; rfl

theorem outcome_bind_none {act : Action σ ε α} {s : σ} (h : act.outcome s = none)
    (next : α → Action σ ε β) : (act >>= next).outcome s = none := by
  rw [outcome_bind, h]; rfl

@[ext] theorem ext {act other : Action σ ε α} (h : ∀ s, act.outcome s = other.outcome s) :
    act = other := funext h

end Action

end Passage
