import Passage.Proofs.Alikeness
import Passage.Proofs.FinalValues
import Passage.Proofs.InnermostFrames
import Passage.Proofs.Matching
import Passage.Proofs.SettledSurveys

/-!
# Rewriting expressions

An expression is rewritten by replacing parts of it. If each replacement comes to what the part came
to, in the place of the part, then so does the whole (`Rewriting.same_evaluate`): to the same value
or to a fault of the same kind, with related messages on the way. A fault shows the expression in
which it happened, so no more than its kind can be the same. The two expressions may be evaluated
under different frames, as long as the frames of the calls that they make are the same. Two things
stand in the way of a replacement, since both see the part itself: a function that receives its
arguments unevaluated, where only `at` will do, and a text that is evaluated under frames that
differ.
-/
namespace Passage

open Passage.Action

namespace Env

/-- An expression comes to a value, or to a fault of some kind, and the journal is told of this on
the way. -/
def Tells (env : Env) (context : Option String) (e : Expr) (result : Except FaultKind Expr)
    (told : List Event) : Prop :=
  ∃ depth found after, (evaluate context depth e).outcome env = some (found, after) ∧
    found.mapError Fault.kind = result ∧ after.journal = env.journal ++ told

/-- What is told can be read off a run. -/
theorem tells_of_run {env : Env} {context : Option String} {e : Expr}
    {result : Except FaultKind Expr} {told : List Event} (depth : Nat)
    (h : ((evaluate context depth e).outcome env).map
      (fun (found, after) => (found.mapError Fault.kind, after.journal)) = some
        (result, env.journal ++ told)) :
    env.Tells context e result told := by
  obtain ⟨⟨found, after⟩, ho, hseen⟩ := Option.map_eq_some_iff.mp h
  obtain ⟨hresult, hjournal⟩ := Prod.mk.inj hseen
  exact ⟨depth, found, after, ho, hresult, hjournal⟩

/-- The native functions that an evaluation can get hold of have a property: those in the bindings,
in the frames, and in what functions of the host program make of such. -/
structure Offers (Q : Native → Prop) (env : Env) : Prop where
  globals : env.globals.All (Expr.Natives Q)
  stack : ∀ frame ∈ env.stack, frame.All (Expr.Natives Q)
  hosts : ∀ number args context, (∀ arg ∈ args, Expr.Natives Q arg) →
    Fits (Expr.Natives Q) (fun _ => True) (env.hosts number args context)

theorem Offers.of_visible {Q : Native → Prop} {s t : Env} (h : s.Offers Q)
    (hst : t.visible = s.visible) : t.Offers Q where
  globals := by
    have hglobals : t.globals = s.globals := congrArg (·.globals) hst
    rw [hglobals]
    exact h.globals
  stack := by
    have hframes : t.stack = s.stack := congrArg (·.stack) hst
    rw [hframes]
    exact h.stack
  hosts := by
    have hhosts : t.hosts = s.hosts := congrArg (·.hosts) hst
    rw [hhosts]
    exact h.hosts

theorem Offers.push {Q : Native → Prop} {env : Env} (h : env.Offers Q) {frame : Frame}
    (hframe : frame.All (Expr.Natives Q)) : (env.push frame).Offers Q :=
  ⟨h.globals, List.forall_mem_cons.mpr ⟨hframe, h.stack⟩, h.hosts⟩

end Env

theorem Upkeep.offers (Q : Native → Prop) (context : Option String) :
    Upkeep (Env.Offers Q) Q (Expr.Natives Q) (fun _ => True) context where
  own _ _ := trivial
  values _ he _ := he
  natives _ hv := hv
  globals h := h.globals
  stack h := h.stack
  hosts := by
    intro env h number name isLazy args _ hargs
    refine h.hosts number args context fun arg harg => ?_
    have htakes := hargs arg harg
    rwa [Native.Takes, ite_self] at htakes
  note h _ := ⟨h.globals, h.stack, h.hosts⟩
  readRule h _ := ⟨h.globals, h.stack, h.hosts⟩
  push h _ hframe := h.push hframe
  pop h := ⟨h.globals, fun frame hframe => h.stack frame (List.mem_of_mem_tail hframe), h.hosts⟩

namespace Env

/-- Two environments that rules cannot tell apart: they differ in frames below the innermost one, in
the trees remembered and in the journal. -/
structure SameSight (s t : Env) : Prop where
  innermost : ∀ name, s.local? name = t.local? name
  rest : { s.visible with stack := t.stack } = t.visible

variable {s t now now' : Env} {context : Option String}

/-- The same result, and the journals grow by the same. -/
theorem SameSight.evaluates (h : s.SameSight t) {depth depth' : Nat}
    (hle : depth ≤ depth') {e : Expr} {result : Except Fault Expr} {after : Env}
    (ho : (evaluate context depth e).outcome s = some (result, after)) :
    ∃ after', (evaluate context depth' e).outcome t = some (result, after') ∧
      s.ToldAlike t after after' := by
  -- Half way there is the second environment under the frames of the first one.
  let between : Env := { t with stack := s.stack }
  have hvisible : s.visible = between.visible :=
    congrArg (fun env : Env => { env with stack := s.stack }) h.rest
  have hstart : s.Alongside between s between :=
    ⟨hvisible, [], (List.append_nil _).symm, (List.append_nil _).symm⟩
  obtain ⟨mid, hmid, -, news, hnews, hnews'⟩ :=
    ((Simulation.alongside s between context).follows_evaluate hle [] e).always ho hstart
  have hsame : between.SameInnermost t := ⟨h.innermost, rfl⟩
  refine ⟨{ mid with stack := t.stack }, ?_, news, hnews, hnews'⟩
  rw [hsame.outcome_evaluate, hmid]
  rfl

/-- An evaluation adds to the journal and takes nothing back. -/
theorem exists_told {depth : Nat} {e : Expr} {result : Except Fault Expr} {after : Env}
    (ho : (evaluate context depth e).outcome s = some (result, after)) :
    ∃ told, after.journal = s.journal ++ told := by
  have hself : s.SameSight s := ⟨fun _ => rfl, rfl⟩
  obtain ⟨_, _, told, htold, _⟩ := hself.evaluates (Nat.le_refl depth) ho
  exact ⟨told, htold⟩

/-- Since they were `s` and `t`, two environments have kept to what rules see, and they have been
told things that are related. -/
structure Apace (J : List Event → List Event → Prop) (s t now now' : Env) : Prop where
  left : now.visible = s.visible
  right : now'.visible = t.visible
  told : ∃ news news', now.journal = s.journal ++ news ∧
    now'.journal = t.journal ++ news' ∧ J news news'

/-- Two environments that differ in their frames at most, where an account of both can go on in the
same way. -/
structure Paired (J : List Event → List Event → Prop) (s t : Env) : Prop where
  rest : { s.visible with stack := t.stack } = t.visible
  told : ∀ {news news'}, J news news' → ∀ more, J (news ++ more) (news' ++ more)

end Env

/-- Actions come to the same value or to faults of one kind, and environments that were apace are so
afterwards. -/
abbrev Eval.Same (J : List Event → List Event → Prop) (s t : Env) (act act' : Eval Expr) : Prop :=
  Matches (Env.Apace J s t) Eq Fault.Alike act act'

theorem Eval.agree_self (result : Except Fault Expr) : Agree Eq Fault.Alike result result := by
  cases result with
  | ok value => exact rfl
  | error fault => exact .refl fault

namespace Env.Paired

variable {J : List Event → List Event → Prop} {s t now now' after after' : Env}
  {context : Option String}

theorem symm (P : Paired J s t) : Paired (flip J) t s where
  rest := by
    rw [← P.rest]
    rfl
  told h more := P.told h more

/-- The environments look the same as before, each to itself, and have been told the same news. -/
theorem further (P : Paired J s t) (h : Apace J s t now now') (hleft : after.visible = now.visible)
    (hright : after'.visible = now'.visible) (htold : now.ToldAlike now' after after') :
    Apace J s t after after' := by
  obtain ⟨news, news', hnews, hnews', hj⟩ := h.told
  obtain ⟨more, hmore, hmore'⟩ := htold
  refine ⟨hleft.trans h.left, hright.trans h.right, news ++ more, news' ++ more, ?_, ?_,
    P.told hj more⟩
  · rw [hmore, hnews, List.append_assoc]
  · rw [hmore', hnews', List.append_assoc]

theorem rest_of_apace (P : Paired J s t) (h : Apace J s t now now') :
    { now.visible with stack := now'.stack } = now'.visible := by
  have hstack : now'.stack = t.stack := congrArg (·.stack) h.right
  rw [h.left, h.right, hstack]
  exact P.rest

/-- What the environments have in common: all but their frames. -/
theorem common_of_apace (P : Paired J s t) (h : Apace J s t now now') {α : Type}
    (part : Env → α) (hpart : ∀ env frames, part { env.visible with stack := frames } = part env) :
    part now = part now' := by
  rw [← hpart now now'.stack, P.rest_of_apace h]
  exact hpart now' now'.stack

theorem same_note (P : Paired J s t) (event : Event) :
    Matches (Apace J s t) (fun _ _ => True) Fault.Alike (Eval.note event) (Eval.note event) :=
  matches_update fun _ _ h => P.further h rfl rfl ⟨[event], rfl, rfl⟩

/-- Under the same innermost frame every expression comes to the same. -/
theorem same_of_innermost (P : Paired J s t) (hinner : ∀ name, s.local? name = t.local? name)
    {depth depth' : Nat} (hle : depth ≤ depth') (e : Expr) :
    Eval.Same J s t (evaluate context depth e) (evaluate context depth' e) := by
  intro now now' h result after ho
  have hsight : now.SameSight now' := by
    refine ⟨fun name => ?_, P.rest_of_apace h⟩
    have hleft : now.local? name = s.local? name := congrArg (·.local? name) h.left
    have hright : now'.local? name = t.local? name := congrArg (·.local? name) h.right
    rw [hleft, hright, hinner]
  obtain ⟨after', ho', htold⟩ := hsight.evaluates hle ho
  refine ⟨result, after', ho', Eval.agree_self result, ?_⟩
  exact P.further h (keeps_evaluate context depth e _ _ _ ho)
    (keeps_evaluate context depth' e _ _ _ ho') htold

/-- The body of a call is the same on both sides, and so is its frame. -/
theorem same_inFrame (P : Paired J s t) {depth depth' : Nat} (hle : depth ≤ depth')
    (frame : Frame) (body : Expr) :
    Eval.Same J s t (Eval.inFrame frame (evaluate context depth body))
      (Eval.inFrame frame (evaluate context depth' body)) := by
  intro now now' h result after ho
  obtain ⟨inner, hbody, rfl⟩ := Eval.cases_of_inFrame ho
  have hsight : (now.push frame).SameSight (now'.push frame) := by
    refine ⟨fun name => rfl, ?_⟩
    rw [Env.visible_push, Env.visible_push, ← P.rest_of_apace h]
    rfl
  obtain ⟨inner', hbody', htold⟩ := hsight.evaluates hle hbody
  refine ⟨result, inner'.pop, Eval.outcome_inFrame hbody', Eval.agree_self result,
    P.further h ?_ ?_ htold⟩
  · rw [Env.visible_pop, keeps_evaluate context depth body _ _ _ hbody]
    rfl
  · rw [Env.visible_pop, keeps_evaluate context depth' body _ _ _ hbody']
    rfl

theorem same_readRule (P : Paired J s t) (text : String) :
    Eval.Same J s t (Eval.readRule text) (Eval.readRule text) := by
  intro now now' h result after ho
  rw [Eval.outcome_readRule] at ho
  cases ho
  have htrailing : now.config.allowTrailing = now'.config.allowTrailing :=
    P.common_of_apace h (·.config.allowTrailing) fun _ _ => rfl
  refine ⟨_, _, Eval.outcome_readRule text now', ?_, P.further h rfl rfl ?_⟩
  · rw [now.fst_readRule, now'.fst_readRule, htrailing]
    exact Eval.agree_self _
  · exact ⟨[], (List.append_nil _).symm, (List.append_nil _).symm⟩

theorem same_callHost (P : Paired J s t) (number : Nat) (name : String) (args : List Expr) :
    Eval.Same J s t (Eval.callHost number name args context)
      (Eval.callHost number name args context) := by
  intro now now' h result after ho
  rw [Eval.outcome_callHost] at ho
  cases ho
  have hhosts : now.hosts = now'.hosts := P.common_of_apace h (·.hosts) fun _ _ => rfl
  refine ⟨_, _, Eval.outcome_callHost number name args context now', ?_,
    P.further h rfl rfl ⟨[_], rfl, rfl⟩⟩
  rw [hhosts]
  exact Eval.agree_self _

end Env.Paired

namespace Expr

/-- What stands for one argument: neither nothing at all nor a comma chain. -/
def Single (e : Expr) : Prop := e ≠ .empty ∧ ∀ lhs rhs, e ≠ .binary .sequence lhs rhs

theorem Single.members {e : Expr} (h : e.Single) : e.members = [e] := by
  cases e with
  | binary op lhs rhs =>
    cases op with
    | sequence => exact absurd rfl (h.2 lhs rhs)
    | or | and | equal => rfl
  | _ => rfl

theorem Single.arguments {e : Expr} (h : e.Single) : e.arguments = [e] := by
  cases e with
  | empty => exact absurd rfl h.1
  | _ => exact h.members

/-- The second expression is the first one with parts replaced by others. The bodies of functions
are no parts. -/
inductive Rewritten (Base : Expr → Expr → Prop) : Expr → Expr → Prop
  | base {e e' : Expr} : Base e e' → Rewritten Base e e'
  | empty : Rewritten Base .empty .empty
  | call {callee callee' args args' : Expr} :
    Rewritten Base callee callee' → Rewritten Base args args' →
      Rewritten Base (.call callee args) (.call callee' args')
  | binary (op : BinaryOp) {lhs lhs' rhs rhs' : Expr} :
    Rewritten Base lhs lhs' → Rewritten Base rhs rhs' →
      Rewritten Base (.binary op lhs rhs) (.binary op lhs' rhs')

variable {Base : Expr → Expr → Prop} {e e' : Expr}

theorem Rewritten.flip (h : Rewritten Base e e') : Rewritten (flip Base) e' e := by
  induction h with
  | base h => exact .base h
  | empty => exact .empty
  | call _ _ ihc iha => exact .call ihc iha
  | binary op _ _ ihl ihr => exact .binary op ihl ihr

theorem Rewritten.natives {Q : Native → Prop} (hbase : ∀ {e e'}, Base e e' → e.Natives Q)
    (h : Rewritten Base e e') : e.Natives Q := by
  induction h with
  | base h => exact hbase h
  | empty => trivial
  | call _ _ ihc iha => exact ⟨ihc, iha⟩
  | binary op _ _ ihl ihr => exact ⟨ihl, ihr⟩

/-- If no replacement adds arguments to a call or takes some away, those of both expressions
correspond. -/
theorem Rewritten.members (hsingle : ∀ {e e'}, Base e e' → e.Single ∧ e'.Single)
    (h : Rewritten Base e e') : List.Forall₂ (Rewritten Base) e.members e'.members := by
  induction h with
  | base h =>
    obtain ⟨he, he'⟩ := hsingle h
    rw [he.members, he'.members]
    exact .cons (.base h) .nil
  | empty => exact .cons .empty .nil
  | call hc ha => exact .cons (.call hc ha) .nil
  | binary op hl hr _ ihr =>
    cases op with
    | sequence => exact .cons hl ihr
    | or | and | equal => exact .cons (.binary _ hl hr) .nil

theorem Rewritten.arguments (hsingle : ∀ {e e'}, Base e e' → e.Single ∧ e'.Single)
    (h : Rewritten Base e e') : List.Forall₂ (Rewritten Base) e.arguments e'.arguments := by
  cases h with
  | base h =>
    obtain ⟨he, he'⟩ := hsingle h
    rw [he.arguments, he'.arguments]
    exact .cons (.base h) .nil
  | empty => exact .nil
  | call hc ha => exact Rewritten.members hsingle (.call hc ha)
  | binary op hl hr => exact Rewritten.members hsingle (.binary op hl hr)

end Expr

/-- What replacements have to meet, there and back. What the replaced parts come to is compared at a
greater depth, since one of them may be deeper than the other. -/
structure Rewriting (Q : Native → Prop) (J : List Event → List Event → Prop)
    (Base : Expr → Expr → Prop) (s t : Env) (context : Option String) :
    Prop extends Env.Paired J s t where
  eager : ∀ n, Q n → n.EagerButAt
  /-- Texts are evaluated under the same frame, or not at all. -/
  texts : Q .evalText → ∀ name, s.local? name = t.local? name
  offers : s.Offers Q ∧ t.Offers Q
  natives : ∀ {e e'}, Base e e' → e.Natives Q ∧ e'.Natives Q
  single : ∀ {e e'}, Base e e' → e.Single ∧ e'.Single
  forth : ∀ {e e'}, Base e e' → ∀ {depth depth'}, depth + 1 ≤ depth' →
    Eval.Same J s t (evaluate context depth e) (evaluate context depth' e')
  back : ∀ {e e'}, Base e e' → ∀ {depth depth'}, depth + 1 ≤ depth' →
    Eval.Same (flip J) t s (evaluate context depth e') (evaluate context depth' e)

namespace Rewriting

variable {Q : Native → Prop} {J : List Event → List Event → Prop}
  {Base : Expr → Expr → Prop} {s t : Env} {context : Option String} {ev ev' : Expr → Eval Expr}

theorem symm (W : Rewriting Q J Base s t context) :
    Rewriting Q (flip J) (flip Base) t s context where
  toPaired := W.toPaired.symm
  eager := W.eager
  texts h name := (W.texts h name).symm
  offers := W.offers.symm
  natives h := (W.natives h).symm
  single h := (W.single h).symm
  forth := W.back
  back := W.forth

/-- The two sides evaluate the same text, or neither evaluates any. -/
abbrev Texts (Q : Native → Prop) (J : List Event → List Event → Prop) (s t : Env)
    (ev ev' : Expr → Eval Expr) : Prop :=
  Q .evalText → ∀ e, Eval.Same J s t (ev e) (ev' e)

/-- A native function that is given values does the same on both sides. -/
theorem same_applyNative (W : Rewriting Q J Base s t context) (htexts : Texts Q J s t ev ev')
    {n : Native} (hn : Q n) (heager : n.isLazy = false) (args : List Expr) :
    Eval.Same J s t (applyNative ev context n args) (applyNative ev' context n args) := by
  cases n with
  | evalText =>
    rcases args with _ | ⟨source, _ | ⟨second, rest⟩⟩
    · exact matches_throw (.refl _)
    · cases source with
      | text source =>
        refine matches_bind (W.same_readRule source) fun e _ heq => ?_
        cases heq
        exact htexts hn e
      | _ => exact matches_throw (.refl _)
    · cases source <;> exact matches_throw (.refl _)
  | debug =>
    match args with
    | [value] => exact matches_bind (W.same_note _) fun _ _ _ => matches_pure rfl
    | [] | _ :: _ :: _ => exact matches_throw (.refl _)
  | atPlace => cases heager
  | host number name isLazy => exact W.same_callHost number name args

/-- Arguments that are replaced by such as come to the same. -/
abbrev SameArguments (J : List Event → List Event → Prop) (s t : Env) (ev ev' : Expr → Eval Expr)
    (args args' : List Expr) : Prop :=
  List.Forall₂ (fun arg arg' => Eval.Same J s t (ev arg) (ev' arg')) args args'

theorem same_atPlace (W : Rewriting Q J Base s t context) {args args' : List Expr}
    (hargs : SameArguments J s t ev ev' args args') :
    Eval.Same J s t (applyNative ev context .atPlace args)
      (applyNative ev' context .atPlace args') := by
  match hargs with
  | .cons hplace (.cons hguarded .nil) =>
    refine matches_bind hplace fun value _ heq => ?_
    cases heq
    cases value with
    | text region =>
      have hreaches : ∀ now now', Env.Apace J s t now now' →
          now.reaches region = now'.reaches region :=
        fun now now' h => W.common_of_apace h (·.reaches region) fun _ _ => rfl
      refine matches_bind (matches_read hreaches) fun reached _ heq => ?_
      cases heq
      cases reached with
      | true => exact hguarded
      | false => exact matches_pure rfl
    | _ => exact matches_throw (.refl _)
  | .nil => exact matches_throw (.refl _)
  | .cons _ .nil => exact matches_throw (.refl _)
  | .cons _ (.cons _ (.cons _ _)) => exact matches_throw ⟨rfl, rfl⟩

/-- The callee is named in complaints only. -/
theorem same_apply (W : Rewriting Q J Base s t context) (htexts : Texts Q J s t ev ev')
    (hbodies : ∀ frame body, Eval.Same J s t (Eval.inFrame frame (ev body))
      (Eval.inFrame frame (ev' body)))
    (callee callee' : Expr) {args args' : List Expr}
    (hargs : SameArguments J s t ev ev' args args') {f : Expr} (hf : f.Natives Q) :
    Eval.Same J s t (apply ev context callee args f) (apply ev' context callee' args' f) := by
  have hvalues : Matches (Env.Apace J s t) (List.Forall₂ Eq) Fault.Alike (args.mapM ev)
      (args'.mapM ev') :=
    matches_mapM (fun _ _ h => h) hargs
  cases f with
  | function params body =>
    refine matches_bind hvalues fun values values' heq => ?_
    rw [List.forall₂_eq_eq_eq] at heq
    subst heq
    have hstrict : ∀ now now', Env.Apace J s t now now' →
        now.config.strictArity = now'.config.strictArity :=
      fun now now' h => W.common_of_apace h (·.config.strictArity) fun _ _ => rfl
    refine matches_bind (matches_read hstrict) fun strict _ heq => ?_
    cases heq
    split
    · exact matches_throw ⟨rfl, rfl⟩
    · exact hbodies _ body
  | native n =>
    show Eval.Same J s t (if n.isLazy then _ else _) (if n.isLazy then _ else _)
    split
    · rename_i hlazy
      obtain rfl := W.eager n hf hlazy
      exact W.same_atPlace hargs
    · rename_i heager
      refine matches_bind hvalues fun values values' heq => ?_
      rw [List.forall₂_eq_eq_eq] at heq
      subst heq
      exact W.same_applyNative htexts hf (by simpa using heager) values
  | _ => exact matches_throw ⟨rfl, rfl⟩

/-- An expression and what it is rewritten to come to the same. -/
theorem same_evaluate (W : Rewriting Q J Base s t context) {depth depth' : Nat}
    (hle : depth + 1 ≤ depth') {e e' : Expr} (h : e.Rewritten Base e') :
    Eval.Same J s t (evaluate context depth e) (evaluate context depth' e') := by
  induction depth generalizing depth' e e' with
  | zero => exact matches_tooDeep _
  | succ depth ih =>
    obtain ⟨lower, rfl⟩ : ∃ lower, depth' = lower + 1 := ⟨depth' - 1, by omega⟩
    have hlower : depth + 1 ≤ lower := by omega
    cases h with
    | base h => exact W.forth h hle
    | empty => exact matches_pure rfl
    | binary op hl hr =>
      cases op with
      | sequence => exact matches_throw (.refl _)
      | or | and | equal =>
        refine matches_bind (ih hlower hl) fun l _ heq => ?_
        cases heq
        refine matches_bind (ih hlower hr) fun r _ heq => ?_
        cases heq
        exact matches_ofExcept (Eval.agree_self _)
    | @call callee callee' args args' hc ha =>
      -- The callee has no native functions but those that are offered, so none that would see the
      -- arguments.
      have hcallee := (Upkeep.offers Q context).ensures_evaluate depth (hc.natives fun h =>
        (W.natives h).1)
      have hoffers : ∀ now now', Env.Apace J s t now now' → now.Offers Q :=
        fun _ _ h => W.offers.1.of_visible h.left
      refine matches_bind ((ih hlower hc).ensured hcallee hoffers) fun f f' hf => ?_
      obtain ⟨rfl, hnatives⟩ := hf
      refine W.same_apply (fun htext e => ?_) (fun frame body => ?_) callee callee' ?_ hnatives
      · exact W.same_of_innermost (W.texts htext) (by omega) e
      · exact W.same_inFrame (by omega) frame body
      · exact (ha.arguments W.single).imp fun _ _ harg => ih hlower harg

theorem kind_of_agree {found found' : Except Fault Expr} (h : Agree Eq Fault.Alike found found') :
    found'.mapError Fault.kind = found.mapError Fault.kind := by
  cases found with
  | ok value =>
    cases found' with
    | ok value' => exact congrArg Except.ok h.symm
    | error fault' => exact h.elim
  | error fault =>
    cases found' with
    | ok value' => exact h.elim
    | error fault' => exact congrArg Except.error h.1.symm

/-- So what an expression tells is told, in a related account, by what it is rewritten to. -/
theorem exists_tells (W : Rewriting Q J Base s t context) (hstart : J [] []) {e e' : Expr}
    (h : e.Rewritten Base e') {result : Except FaultKind Expr} {told : List Event}
    (htells : s.Tells context e result told) :
    ∃ told', t.Tells context e' result told' ∧ J told told' := by
  obtain ⟨depth, found, after, ho, hfound, hjournal⟩ := htells
  have hst : Env.Apace J s t s t :=
    ⟨rfl, rfl, [], [], (List.append_nil _).symm, (List.append_nil _).symm, hstart⟩
  obtain ⟨found', after', ho', hagree, hafter⟩ :=
    W.same_evaluate (Nat.le_refl (depth + 1)) h s t hst found after ho
  obtain ⟨news, news', hnews, hnews', hj⟩ := hafter.told
  obtain rfl : told = news := List.append_cancel_left (hjournal.symm.trans hnews)
  exact ⟨news', ⟨depth + 1, found', after', ho', (kind_of_agree hagree).trans hfound, hnews'⟩, hj⟩

end Rewriting

end Passage
