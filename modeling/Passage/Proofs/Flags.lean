import Passage.Proofs.Alikeness
import Passage.Proofs.Watching

/-!
# Flags do not decide whether a rule fails

Both operands of an operator are always evaluated, a comparison gives a truth value and no text, and
`at` looks at the graphs alone. So nothing that evaluation does next depends on which truth value it
has in hand: in two environments that differ only in truth values it goes the same way, to a value
of the same kind or to a failure of the same kind. The comparison is carried through the watched
evaluator, one lemma for each former, and the induction on the depth comes last.
-/
namespace Passage

open Passage.Action

section Evaluators

variable {s t : Env} {context : Option String}

/-- Actions that come to results alike, whatever truth values they meet. -/
abbrev Indifferent (s t : Env) (act other : Eval Expr) : Prop :=
  Matches (Beside s t) Expr.Alike Fault.Alike act other

theorem indifferent_lookup (name : String) :
    Indifferent s t (Eval.lookup name context) (Eval.lookup name context) := by
  intro now now' h result after ho
  rw [Eval.outcome_lookup] at ho
  cases ho
  exact ⟨_, now', Eval.outcome_lookup name context now', h.same.lookup name context, h⟩

theorem matches_readRule (text : String) :
    Matches (Beside s t) Eq Fault.Alike (Eval.readRule text) (Eval.readRule text) := by
  intro now now' h result after ho
  rw [Eval.outcome_readRule] at ho
  cases ho
  obtain ⟨hread, hafter⟩ := h.readRule text
  refine ⟨_, _, Eval.outcome_readRule text now', ?_, hafter⟩
  rw [hread]
  cases (now'.readRule text).1 with
  | ok e => rfl
  | error e => exact Fault.Alike.refl _

theorem indifferent_callHost (number : Nat) (name : String) {args args' : List Expr}
    (hargs : List.Forall₂ Expr.Alike args args') :
    Indifferent s t (Eval.callHost number name args context)
      (Eval.callHost number name args' context) := by
  intro now now' h result after ho
  rw [Eval.outcome_callHost] at ho
  cases ho
  refine ⟨_, _, Eval.outcome_callHost number name args' context now', ?_, h.note rfl⟩
  rw [← h.same.hosts]
  exact (h.blind number).agree context hargs

theorem indifferent_inFrame {frame frame' : Frame} (hframe : frame.Related Expr.Alike frame')
    {body body' : Eval Expr} (hbody : Indifferent s t body body') :
    Indifferent s t (Eval.inFrame frame body) (Eval.inFrame frame' body') := by
  intro now now' h result after ho
  obtain ⟨inner, hinner, rfl⟩ := Eval.cases_of_inFrame ho
  have hpushed : Beside s t (now.push frame) (now'.push frame') :=
    ⟨h.same.push hframe, h.blind, h.told⟩
  obtain ⟨result', inner', hinner', hagree, hleft⟩ := hbody _ _ hpushed result inner hinner
  exact ⟨result', inner'.pop, Eval.outcome_inFrame hinner', hagree,
    ⟨hleft.same.pop, hleft.blind, hleft.told⟩⟩

variable {ev : Expr → Eval Expr}

theorem indifferent_atPlace (hev : ∀ e, Indifferent s t (ev e) (ev e)) (args : List Expr) :
    Indifferent s t (applyNative ev context .atPlace args)
      (applyNative ev context .atPlace args) := by
  match args with
  | [place, guarded] =>
    refine matches_bind (hev place) fun value value' hvalue => ?_
    rcases hvalue with rfl | ⟨b, b', rfl, rfl⟩
    · cases value with
      | text region =>
        refine matches_bind (matches_read fun _ _ h =>
          h.same.reaches region) fun reached _ heq => ?_
        cases heq
        cases reached with
        | true => exact hev guarded
        | false => exact matches_pure (.refl _)
      | _ => exact matches_throw (.refl _)
    · exact matches_throw ⟨rfl, rfl⟩
  | [] | [_] | _ :: _ :: _ :: _ => exact matches_throw (.refl _)

theorem indifferent_evalText (hev : ∀ e, Indifferent s t (ev e) (ev e)) (source : Expr) :
    Indifferent s t (applyNative ev context .evalText [source])
      (applyNative ev context .evalText [source]) := by
  cases source with
  | text source =>
    refine matches_bind (matches_readRule source) fun e _ heq => ?_
    cases heq
    exact hev e
  | _ => exact matches_throw (.refl _)

theorem applyNative_evalText_many (first second : Expr) (rest : List Expr) :
    applyNative ev context .evalText (first :: second :: rest) =
      throw (.nativeArity .evalText 1 (rest.length + 2)) := by
  cases first with
  | text source => rfl
  | _ => rfl

/-- Native functions but `at` are given values, or look at their arguments as if they were. -/
theorem indifferent_applyNative (hev : ∀ e, Indifferent s t (ev e) (ev e)) {n : Native}
    (hn : n ≠ .atPlace) {args args' : List Expr} (hargs : List.Forall₂ Expr.Alike args args') :
    Indifferent s t (applyNative ev context n args) (applyNative ev context n args') := by
  cases n with
  | atPlace => exact absurd rfl hn
  | host number name isLazy => exact indifferent_callHost number name hargs
  | evalText =>
    match hargs with
    | .nil => exact matches_throw (.refl _)
    | .cons _ (.cons _ _) =>
      rw [applyNative_evalText_many, applyNative_evalText_many]
      exact matches_throw ⟨rfl, rfl⟩
    | .cons hsource .nil =>
      rcases hsource with rfl | ⟨b, b', rfl, rfl⟩
      · exact indifferent_evalText hev _
      · exact matches_throw ⟨rfl, rfl⟩
  | debug =>
    match hargs with
    | .nil => exact matches_throw (.refl _)
    | .cons _ (.cons _ _) => exact matches_throw ⟨rfl, rfl⟩
    | .cons hvalue .nil =>
      refine matches_bind (matches_update fun _ _ h => h.note rfl) fun _ _ _ => ?_
      exact matches_pure hvalue

/-- The check of the number of arguments goes the same way, since the configuration is the same. -/
theorem indifferent_guarded (callee : Expr) (expected got : Nat) {body body' : Eval Expr}
    (hbody : Indifferent s t body body') :
    Indifferent s t
      (do if (← Action.read (·.config.strictArity)) ∧ got ≠ expected then
            throw (.arity callee expected got)
          else body)
      (do if (← Action.read (·.config.strictArity)) ∧ got ≠ expected then
            throw (.arity callee expected got)
          else body') := by
  have hread : ∀ now now', Beside s t now now' → now.config.strictArity = now'.config.strictArity :=
    fun _ _ h => congrArg Config.strictArity h.same.config
  refine matches_bind (matches_read hread) fun strict _ heq => ?_
  cases heq
  split
  · exact matches_throw (.refl _)
  · exact hbody

variable {watch : Native → List Expr → Eval Unit}

/-- What is done before a call does not depend on truth values. -/
abbrev WatchesAlike (s t : Env) (watch : Native → List Expr → Eval Unit) : Prop :=
  ∀ n args args', List.Forall₂ Expr.Alike args args' →
    Matches (Beside s t) (fun _ _ => True) Fault.Alike (watch n args) (watch n args')

theorem indifferent_apply (hwatch : WatchesAlike s t watch)
    (hev : ∀ e, Indifferent s t (ev e) (ev e)) (callee : Expr) (args : List Expr) {f f' : Expr}
    (hf : f.Alike f') :
    Indifferent s t (Watched.apply watch context ev callee args f)
      (Watched.apply watch context ev callee args f') := by
  have hsame : List.Forall₂ Expr.Alike args args := List.forall₂_same.mpr fun e _ => .refl e
  have hvalues : Matches (Beside s t) (List.Forall₂ Expr.Alike) Fault.Alike (args.mapM ev)
      (args.mapM ev) := by
    refine matches_mapM (W := Eq) (fun e e' he => ?_) (List.forall₂_same.mpr fun e _ => rfl)
    rw [he]
    exact hev e'
  rcases hf with rfl | ⟨b, b', rfl, rfl⟩
  · cases f with
    | function params body =>
      refine matches_bind hvalues fun values values' h => ?_
      rw [h.length_eq]
      refine indifferent_guarded callee params.length values'.length ?_
      exact indifferent_inFrame (Table.related_ofList h params) (hev body)
    | native n =>
      show Indifferent s t (if n.isLazy then _ else _) (if n.isLazy then _ else _)
      split
      · refine matches_bind (hwatch n args args hsame) fun _ _ _ => ?_
        by_cases hn : n = .atPlace
        · rw [hn]
          exact indifferent_atPlace hev args
        · exact indifferent_applyNative hev hn hsame
      · rename_i hlazy
        have hn : n ≠ .atPlace := fun h => hlazy (by rw [h]; rfl)
        refine matches_bind hvalues fun values values' h => ?_
        refine matches_bind (hwatch n values values' h) fun _ _ _ => ?_
        exact indifferent_applyNative hev hn h
    | _ => exact matches_throw (.refl _)
  · exact matches_throw ⟨rfl, rfl⟩

theorem indifferent_reduce (hwatch : WatchesAlike s t watch)
    (hev : ∀ e, Indifferent s t (ev e) (ev e)) (e : Expr) :
    Indifferent s t (Watched.reduce watch context ev e) (Watched.reduce watch context ev e) := by
  cases e with
  | var name => exact indifferent_lookup name
  | binary op lhs rhs =>
    cases op with
    | sequence => exact matches_throw (.refl _)
    | or | and | equal =>
      refine matches_bind (hev lhs) fun l l' hl => ?_
      refine matches_bind (hev rhs) fun r r' hr => ?_
      exact matches_ofExcept (agree_combine _ hl hr)
  | call callee args =>
    refine matches_bind (hev callee) fun f f' hf => ?_
    exact indifferent_apply hwatch hev callee args.arguments hf
  | empty | bool _ | text _ | function _ _ | native _ => exact matches_pure (.refl _)

/-- A watched evaluation comes to results alike, whatever truth values it meets. -/
theorem indifferent_evaluate (hwatch : WatchesAlike s t watch) (depth : Nat) (e : Expr) :
    Indifferent s t (Watched.evaluate watch context depth e)
      (Watched.evaluate watch context depth e) := by
  induction depth generalizing e with
  | zero => exact matches_tooDeep _
  | succ depth ih => exact indifferent_reduce hwatch ih e

theorem watchesAlike_unwatched : WatchesAlike s t Watched.unwatched :=
  fun _ _ _ _ => matches_pure trivial

theorem watchesAlike_onRecord : WatchesAlike s t (Watched.onRecord context) := by
  intro n args args' _
  cases n with
  | host number name isLazy => exact matches_pure trivial
  | _ => exact matches_update fun _ _ h => h.note rfl

theorem agree_toTruth {v v' : Expr} (h : v.Alike v') :
    Agree (fun _ _ => True) Fault.Alike v.toTruth v'.toTruth := by
  rcases h with rfl | ⟨b, b', rfl, rfl⟩
  · cases v with
    | bool b => trivial
    | _ => exact Fault.Alike.refl _
  · trivial

/-- Faults of one kind are reported by errors of one kind. -/
theorem alike_ofFault (rule : Expr) {e e' : Fault} (h : e.Alike e') :
    (CheckError.ofFault rule e).Alike (CheckError.ofFault rule e') := by
  by_cases hown : e.isOwn = true
  · have hown' : e'.isOwn = true := by
      unfold Fault.isOwn at hown ⊢
      rw [← h.1]
      exact hown
    rw [CheckError.ofFault_of_isOwn hown, CheckError.ofFault_of_isOwn hown']
    exact ⟨rfl, h⟩
  · have hhost : e.kind = .host := by simpa [Fault.isOwn] using hown
    obtain ⟨failure, rfl⟩ := Fault.eq_host hhost
    obtain ⟨failure', rfl⟩ := Fault.eq_host (h.1.symm.trans hhost)
    cases failure
    cases failure'
    rfl

theorem matches_checkRule (depth : Nat) (rule : String) :
    Matches (Beside s t) (fun _ _ => True) CheckError.Alike (checkRule depth rule context)
      (checkRule depth rule context) := by
  have hread : Matches (Beside s t) Eq CheckError.Alike (Check.readRule rule)
      (Check.readRule rule) := by
    intro now now' h result after ho
    rw [Check.outcome_readRule] at ho
    cases ho
    obtain ⟨hread, hafter⟩ := h.readRule rule
    refine ⟨_, _, Check.outcome_readRule rule now', ?_, hafter⟩
    rw [hread]
    cases (now'.readRule rule).1 <;> rfl
  refine matches_bind hread fun root _ heq => ?_
  cases heq
  refine matches_bind (V := fun _ _ => True) ?_ fun holds holds' _ => ?_
  · refine matches_mapError (F := Fault.Alike) (fun e e' he => alike_ofFault root he) ?_
    rw [← Watched.evaluate_unwatched]
    refine matches_bind (indifferent_evaluate watchesAlike_unwatched depth root) fun v v' hv => ?_
    exact matches_ofExcept (agree_toTruth hv)
  · refine matches_bind (matches_update fun _ _ h => h.note rfl) fun _ _ _ => ?_
    exact matches_pure trivial

end Evaluators

variable {s t : Env}

theorem sameFate_of_matches {ε α : Type} {V : α → α → Prop} {F : ε → ε → Prop}
    {act : Action Env ε α} (h : ∀ s t, Matches (Beside s t) V F act act) (hst : s.SameButTruths t)
    (hblind : s.HostsBlind) : Option.Rel (SameFate V F s t) (act.outcome s) (act.outcome t) :=
  rel_outcome_of_matches (h s t) (h t s) (fun hagree hbeside => hbeside.sameFate hagree)
    (.start hst hblind) (.start hst.symm (hst.blind hblind))

/-- Where the check of a rule fails, it fails whatever the truth values. -/
theorem fails_of_sameButTruths (hst : s.SameButTruths t) (hblind : s.HostsBlind)
    {context : Option String} {rule : String} (h : ∃ error, s.Checks context rule (.error error)) :
    ∃ error, t.Checks context rule (.error error) := by
  obtain ⟨error, depth, after, ho⟩ := h
  obtain ⟨result, after', ho', hagree, _⟩ :=
    matches_checkRule depth rule s t (.start hst hblind) _ after ho
  cases result with
  | ok holds => exact hagree.elim
  | error error' => exact ⟨error', depth, after', ho'⟩

/-- Whether a rule fails does not depend on what truth values its flags stand for. Two evaluations
of one expression, in environments that differ in truth values only, come to an end within the same
depths, with equal values or two truth values, or with faults of one kind; on the way they send as
many messages and call the same functions in the same order, built-in functions included. So the
check of a rule fails in both or in neither. -/
theorem failure_regardless_of_flags (h : s.SameButTruths t) (hblind : s.HostsBlind) :
    (∀ context depth e,
      Option.Rel (SameFate Expr.Alike Fault.Alike s t) ((evaluate context depth e).outcome s)
        ((evaluate context depth e).outcome t) ∧
      Option.Rel (SameFate Expr.Alike Fault.Alike s t)
        ((Watched.evaluate (Watched.onRecord context) context depth e).outcome s)
        ((Watched.evaluate (Watched.onRecord context) context depth e).outcome t)) ∧
    (∀ context depth rule,
      Option.Rel (SameFate (fun _ _ => True) CheckError.Alike s t)
        ((checkRule depth rule context).outcome s) ((checkRule depth rule context).outcome t)) ∧
    ∀ context rule, (∃ error, s.Checks context rule (.error error)) ↔
      ∃ error, t.Checks context rule (.error error) := by
  refine ⟨fun context depth e => ⟨?_, ?_⟩, fun context depth rule => ?_, fun context rule => ?_⟩
  · rw [← Watched.evaluate_unwatched]
    exact sameFate_of_matches (fun _ _ => indifferent_evaluate watchesAlike_unwatched
      depth e) h hblind
  · exact sameFate_of_matches (fun _ _ => indifferent_evaluate watchesAlike_onRecord
      depth e) h hblind
  · exact sameFate_of_matches (fun _ _ => matches_checkRule depth rule) h hblind
  · constructor
    · exact fails_of_sameButTruths h hblind
    · exact fails_of_sameButTruths h.symm (h.blind hblind)

/-- A flag goes through a function of the host program into a helper, where it is shown and joined
with what comes of a text read behind `at`. It does not save that text from its undefined name. -/
theorem failure_regardless_of_flags_through_helper :
    let both : Expr := .function ["a", "b"]
      (.binary .and (.call (.var "debug") (.var "a"))
        (.call (.var "at") (.binary .sequence (.text "hall") (.call (.var "eval") (.var "b")))))
    let world : Table Expr :=
      (Env.builtins.insert "both" both).insert "first" (.native (.host 0 "first" false))
    let plain (x : Bool) : Env := .fresh {} (world.insert "x" (.bool x)) fun _ => Host.argument 0
    let env (x : Bool) : Env :=
      { plain x with
        graphs := .ofList [("CHILD", .ofEdges [("yard", "hall")])], graphRoot := some "yard" }
    let e : Expr := .call (.var "both") (.binary .sequence (.call (.var "first") (.var "x"))
      (.text "x OR missing"))
    (env false).SameButTruths (env true) ∧ (env false).HostsBlind ∧
    ((evaluate none 8 e).outcome (env false)).map (fun p => (p.1, p.2.journal)) =
      some (.error (.undefined "missing"),
        [.hostCall "first" [.bool false] none, .message "FALSE"]) ∧
    ∃ fault after, (evaluate none 8 e).outcome (env true) = some (.error fault, after) ∧
      fault.undefinedName? = some "missing" ∧
      after.journal.map Event.outline = [.hostCall "first" [] none, .message ""] := by
  intro both world plain env e
  have hsame : (env false).SameButTruths (env true) :=
    ⟨rfl, rfl, rfl, rfl, (Table.Related.refl Expr.Alike.refl world).insert "x"
      (.inr ⟨_, _, rfl, rfl⟩), .nil⟩
  have hblind : (env false).HostsBlind := fun _ _ _ => .inr ⟨0, fun _ _ => rfl⟩
  have hrun : ((evaluate none 8 e).outcome (env false)).map (fun p => (p.1, p.2.journal)) =
      some (.error (.undefined "missing"),
        [.hostCall "first" [.bool false] none, .message "FALSE"]) := by
    decide +kernel
  refine ⟨hsame, hblind, hrun, ?_⟩
  have hfate := ((failure_regardless_of_flags hsame hblind).1 none 8 e).1
  obtain ⟨⟨result, after⟩, hleft, heq⟩ := Option.map_eq_some_iff.mp hrun
  obtain ⟨rfl, hjournal⟩ := Prod.mk.inj heq
  rw [hleft] at hfate
  generalize (evaluate none 8 e).outcome (env true) = other at hfate ⊢
  cases hfate with
  | @some _ pair h =>
    obtain ⟨result', after'⟩ := pair
    cases result' with
    | ok v => exact h.result.elim
    | error fault =>
      refine ⟨fault, after', rfl, h.result.2.symm, ?_⟩
      have hnews : after'.journal.map Event.outline = after.journal.map Event.outline := h.news.symm
      rw [hnews, hjournal]
      rfl

end Passage
