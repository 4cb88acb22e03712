import Passage.Proofs.Matching
import Passage.Proofs.Sight
import Passage.Session

/-!
# Alike but for truth values

Two values are alike if they are equal or both truth values. The relation goes on from there: to
faults and errors of one kind, to tables that bind the same names to values alike, and to
environments that differ in truth values at most (`Env.SameButTruths`). `Beside` relates two
environments on the way of two evaluations, with what the journals have told since the start. The
operators, the functions of the host program that do not look at their arguments, and the lookup of
names respect it.
-/
namespace Passage

open Passage.Action

/-- Equal values, or two truth values. -/
def Expr.Alike (v w : Expr) : Prop := v = w ∨ ∃ b c, v = .bool b ∧ w = .bool c

/-- The name that a fault complains of as undefined. -/
def Fault.undefinedName? : Fault → Option String
  | undefined name => some name
  | _ => none

/-- Faults of one kind, and about the same name where a name is undefined. -/
def Fault.Alike (e e' : Fault) : Prop := e.kind = e'.kind ∧ e.undefinedName? = e'.undefinedName?

theorem Fault.eq_host {e : Fault} (h : e.kind = .host) : ∃ failure, e = .host failure := by
  cases e with
  | host failure => exact ⟨failure, rfl⟩
  | unreadable error => cases error <;> cases h
  | _ => cases h

/-- Errors of one kind, and with causes of one kind in the same rule. -/
def CheckError.Alike : CheckError → CheckError → Prop
  | unreadable error, unreadable error' => error = error'
  | failed rule cause, failed rule' cause' => rule = rule' ∧ cause.Alike cause'
  | host failure, host failure' => failure = failure'
  | _, _ => False

/-- The same names, bound to values that are related. -/
def Table.Related {α β : Type} (V : α → β → Prop) (s : Table α) (t : Table β) : Prop :=
  ∀ name, Option.Rel V (s.get? name) (t.get? name)

/-- Two environments that differ in truth values at most: in those that global names stand for, and
in those that are arguments of the calls in progress. -/
structure Env.SameButTruths (s t : Env) : Prop where
  config : s.config = t.config
  hosts : s.hosts = t.hosts
  graphs : s.graphs = t.graphs
  graphRoot : s.graphRoot = t.graphRoot
  globals : s.globals.Related Expr.Alike t.globals
  stack : List.Forall₂ (Table.Related Expr.Alike) s.stack t.stack

/-- A function of the host program that does not look at what its arguments are: how many there are,
and the label it is called under, decide which of them it gives, or which fixed result. -/
def Host.Blind (host : Host) : Prop :=
  ∀ count context, (∃ result, ∀ args, args.length = count → host args context = result) ∨
    ∃ place, ∀ args, args.length = count → host args context = Host.argument place args context

def Env.HostsBlind (env : Env) : Prop := ∀ number, (env.hosts number).Blind

/-- An event, without the values in it. -/
def Event.outline : Event → Event
  | message _ => message ""
  | hostCall name _ context => hostCall name [] context
  | verdict context rule _ => verdict context rule false
  | pass number added => pass number added

/-- What the journal tells since an earlier moment. -/
def Env.news (before after : Env) : List Event := after.journal.drop before.journal.length

/-- Two outcomes, one from each of two environments: results that agree, with as many messages and
with the same calls, in the same order. -/
structure SameFate {ε α : Type} (V : α → α → Prop) (F : ε → ε → Prop) (s t : Env)
    (p q : Except ε α × Env) : Prop where
  result : Agree V F p.1 q.1
  news : (s.news p.2).map Event.outline = (t.news q.2).map Event.outline

theorem Expr.Alike.refl (v : Expr) : v.Alike v := .inl rfl

theorem Fault.Alike.refl (e : Fault) : e.Alike e := ⟨rfl, rfl⟩

theorem Expr.Alike.symm {v w : Expr} (h : v.Alike w) : w.Alike v := by
  rcases h with rfl | ⟨b, c, rfl, rfl⟩
  · exact .refl v
  · exact .inr ⟨c, b, rfl, rfl⟩

theorem agree_refl (result : Except Fault Expr) : Agree Expr.Alike Fault.Alike result result := by
  cases result with
  | ok v => exact Expr.Alike.refl v
  | error e => exact Fault.Alike.refl e

theorem agree_combine_left (op : BinaryOp) (b b' : Bool) (r : Expr) :
    Agree Expr.Alike Fault.Alike (combine op (.bool b) r) (combine op (.bool b') r) := by
  cases op with
  | sequence => exact ⟨rfl, rfl⟩
  | or | and | equal =>
    cases r with
    | bool c => exact .inr ⟨_, _, rfl, rfl⟩
    | _ => exact ⟨rfl, rfl⟩

theorem agree_combine_right (op : BinaryOp) (l : Expr) (c c' : Bool) :
    Agree Expr.Alike Fault.Alike (combine op l (.bool c)) (combine op l (.bool c')) := by
  cases op with
  | sequence => exact ⟨rfl, rfl⟩
  | or | and | equal =>
    cases l with
    | bool b => exact .inr ⟨_, _, rfl, rfl⟩
    | _ => exact ⟨rfl, rfl⟩

/-- Operands that are alike are joined alike. -/
theorem agree_combine (op : BinaryOp) {l l' r r' : Expr} (hl : l.Alike l') (hr : r.Alike r') :
    Agree Expr.Alike Fault.Alike (combine op l r) (combine op l' r') := by
  rcases hl with rfl | ⟨b, b', rfl, rfl⟩
  · rcases hr with rfl | ⟨c, c', rfl, rfl⟩
    · exact agree_refl _
    · exact agree_combine_right op l c c'
  · rcases hr with rfl | ⟨c, c', rfl, rfl⟩
    · exact agree_combine_left op b b' r
    · cases op with
      | sequence => exact ⟨rfl, rfl⟩
      | or | and | equal => exact .inr ⟨_, _, rfl, rfl⟩

/-- The members of two related lists at one place are related. -/
theorem rel_getElem? {α β : Type} {V : α → β → Prop} {list : List α} {list' : List β}
    (h : List.Forall₂ V list list') (place : Nat) : Option.Rel V list[place]? list'[place]? := by
  induction h generalizing place with
  | nil => exact .none
  | cons hv _ ih =>
    cases place with
    | zero => exact .some hv
    | succ place => exact ih place

theorem rel_refl {α : Type} {V : α → α → Prop} (hV : ∀ a, V a a) (found : Option α) :
    Option.Rel V found found := by
  cases found with
  | none => exact .none
  | some a => exact .some (hV a)

theorem rel_symm {α β : Type} {V : α → β → Prop} {W : β → α → Prop} (hW : ∀ a b, V a b → W b a)
    {found : Option α} {found' : Option β} (h : Option.Rel V found found') :
    Option.Rel W found' found := by
  cases h with
  | none => exact .none
  | some hv => exact .some (hW _ _ hv)

theorem agree_argument (place : Int) {args args' : List Expr} (context : Option String)
    (h : List.Forall₂ Expr.Alike args args') :
    Agree Expr.Alike Fault.Alike (Host.argument place args context)
      (Host.argument place args' context) := by
  have hfound : Option.Rel Expr.Alike (Cursor.wrapped? args place)
      (Cursor.wrapped? args' place) := by
    unfold Cursor.wrapped? Cursor.item?
    rw [h.length_eq]
    split
    · exact rel_getElem? h _
    · split
      · exact rel_getElem? h _
      · exact .none
  unfold Host.argument
  generalize Cursor.wrapped? args place = found at hfound ⊢
  generalize Cursor.wrapped? args' place = found' at hfound ⊢
  cases hfound with
  | none => exact Fault.Alike.refl _
  | some hv => exact hv

theorem Host.Blind.agree {host : Host} (h : host.Blind) {args args' : List Expr}
    (context : Option String) (hargs : List.Forall₂ Expr.Alike args args') :
    Agree Expr.Alike Fault.Alike (host args context) (host args' context) := by
  rcases h args.length context with ⟨result, hresult⟩ | ⟨place, hplace⟩
  · rw [hresult args rfl, hresult args' hargs.length_eq.symm]
    exact agree_refl result
  · rw [hplace args rfl, hplace args' hargs.length_eq.symm]
    exact agree_argument place context hargs

namespace Table

variable {α β : Type} {V : α → β → Prop} {s : Table α} {t : Table β}

theorem Related.symm {W : β → α → Prop} (h : s.Related V t) (hW : ∀ a b, V a b → W b a) :
    t.Related W s :=
  fun name => rel_symm hW (h name)

theorem Related.refl {V : α → α → Prop} (hV : ∀ a, V a a) (t : Table α) : t.Related V t :=
  fun name => rel_refl hV (t.get? name)

theorem Related.insert (h : s.Related V t) (name : String) {a : α} {b : β} (hab : V a b) :
    (s.insert name a).Related V (t.insert name b) := by
  intro other
  rw [get?_insert, get?_insert]
  split
  · exact .some hab
  · exact h other

/-- Related values bound in turn to the same names. -/
theorem related_ofList {values : List α} {values' : List β} (h : List.Forall₂ V values values')
    (names : List String) : (ofList (names.zip values)).Related V (ofList (names.zip values')) := by
  have hall : ∀ s : Table α, ∀ t : Table β, s.Related V t →
      (s.insertAll (names.zip values)).Related V (t.insertAll (names.zip values')) := by
    induction h generalizing names with
    | nil =>
      intro s t hst
      rw [List.zip_nil_right, List.zip_nil_right]
      exact hst
    | cons hv _ ih =>
      intro s t hst
      cases names with
      | nil => exact hst
      | cons name rest => exact ih rest _ _ (hst.insert name hv)
  exact hall empty empty fun _ => .none

end Table

namespace Env.SameButTruths

variable {s t : Env}

theorem symm (h : s.SameButTruths t) : t.SameButTruths s where
  config := h.config.symm
  hosts := h.hosts.symm
  graphs := h.graphs.symm
  graphRoot := h.graphRoot.symm
  globals := h.globals.symm fun _ _ hv => hv.symm
  stack := h.stack.flip.imp fun _ _ hframe => Table.Related.symm hframe fun _ _ hv => hv.symm

theorem blind (h : s.SameButTruths t) (hblind : s.HostsBlind) : t.HostsBlind := by
  unfold HostsBlind
  rw [← h.hosts]
  exact hblind

theorem local? (h : s.SameButTruths t) (name : String) :
    Option.Rel Expr.Alike (s.local? name) (t.local? name) := by
  have hstack := h.stack
  unfold Env.local?
  generalize s.stack = stack at hstack ⊢
  generalize t.stack = stack' at hstack ⊢
  cases hstack with
  | nil => exact .none
  | cons hframe _ => exact hframe name

theorem lookup (h : s.SameButTruths t) (name : String) (context : Option String) :
    Agree Expr.Alike Fault.Alike (s.lookup name context) (t.lookup name context) := by
  have hlocal := h.local? name
  have hglobal := h.globals name
  unfold Env.lookup
  rw [h.config]
  generalize s.local? name = found at hlocal ⊢
  generalize t.local? name = found' at hlocal ⊢
  cases hlocal with
  | some hv => exact hv
  | none =>
    dsimp only
    split
    · exact Expr.Alike.refl _
    · generalize s.globals.get? name = bound at hglobal ⊢
      generalize t.globals.get? name = bound' at hglobal ⊢
      cases hglobal with
      | none => exact Fault.Alike.refl _
      | some hv => exact hv

theorem reaches (h : s.SameButTruths t) (region : String) :
    s.reaches region = t.reaches region := by
  have hgraphOf (side : Side) : s.graphOf side = t.graphOf side := by
    unfold Env.graphOf
    rw [h.graphs, h.config]
  unfold Env.reaches
  rw [h.graphRoot]
  simp only [hgraphOf]

theorem push (h : s.SameButTruths t) {frame frame' : Frame}
    (hframe : frame.Related Expr.Alike frame') : (s.push frame).SameButTruths (t.push frame') :=
  ⟨h.config, h.hosts, h.graphs, h.graphRoot, h.globals, .cons hframe h.stack⟩

theorem pop (h : s.SameButTruths t) : s.pop.SameButTruths t.pop := by
  refine ⟨h.config, h.hosts, h.graphs, h.graphRoot, h.globals, ?_⟩
  have hstack := h.stack
  show List.Forall₂ _ s.stack.tail t.stack.tail
  generalize s.stack = stack at hstack ⊢
  generalize t.stack = stack' at hstack ⊢
  cases hstack with
  | nil => exact .nil
  | cons _ hrest => exact hrest

end Env.SameButTruths

/-- Two evaluations under way that began in `s` and `t`: the environments are the same but for truth
values, and what the journals tell since then is the same but for values. -/
structure Beside (s t now now' : Env) : Prop where
  same : now.SameButTruths now'
  blind : now.HostsBlind
  told : ∃ news news', now.journal = s.journal ++ news ∧ now'.journal = t.journal ++ news' ∧
    news.map Event.outline = news'.map Event.outline

namespace Beside

variable {s t now now' : Env}

theorem start (h : s.SameButTruths t) (hblind : s.HostsBlind) : Beside s t s t :=
  ⟨h, hblind, [], [], (List.append_nil _).symm, (List.append_nil _).symm, rfl⟩

theorem note (h : Beside s t now now') {event event' : Event}
    (hevent : event.outline = event'.outline) : Beside s t (now.note event) (now'.note event') := by
  obtain ⟨news, news', hnews, hnews', hsame⟩ := h.told
  have same := h.same
  refine ⟨⟨same.config, same.hosts, same.graphs, same.graphRoot, same.globals, same.stack⟩,
    h.blind, news ++ [event], news' ++ [event'], ?_, ?_, ?_⟩
  · show now.journal ++ [event] = _
    rw [hnews, List.append_assoc]
  · show now'.journal ++ [event'] = _
    rw [hnews', List.append_assoc]
  · rw [List.map_append, List.map_append, hsame, List.map_singleton, List.map_singleton, hevent]

theorem readRule (h : Beside s t now now') (text : String) :
    (now.readRule text).1 = (now'.readRule text).1 ∧
      Beside s t (now.readRule text).2 (now'.readRule text).2 := by
  have same := h.same
  refine ⟨?_, ⟨same.config, same.hosts, same.graphs, same.graphRoot, same.globals, same.stack⟩,
    h.blind, h.told⟩
  rw [Env.fst_readRule, Env.fst_readRule, same.config]

theorem sameFate {ε α : Type} {V : α → α → Prop} {F : ε → ε → Prop} {result result' : Except ε α}
    (h : Beside s t now now') (hagree : Agree V F result result') :
    SameFate V F s t (result, now) (result', now') := by
  obtain ⟨news, news', hnews, hnews', hsame⟩ := h.told
  refine ⟨hagree, ?_⟩
  unfold Env.news
  rw [hnews, hnews', List.drop_left, List.drop_left, hsame]

end Beside

end Passage
