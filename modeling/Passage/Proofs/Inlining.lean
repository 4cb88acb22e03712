import Passage.Proofs.Rewriting

/-!
# Inlined calls

The call of a helper comes to what its body comes to with the values of the arguments in place of
the parameters, carried out where the call stands (`call_as_inlined`). Names that are no parameters
mean the same in both places, since the frame of a call hides nothing but what it binds. The
arguments have to come to values first: what is not there yet cannot be put in place of a parameter.
An argument that comes to nothing at all would vanish from the calls it is handed on to, a text that
is evaluated could name a parameter, and a function that receives its arguments unevaluated would
see the difference; these are left out.
-/
namespace Passage

open Passage.Action

/-- A function that does not get to know how its arguments, or names, are written: not `eval`, and
with its arguments evaluated unless it is `at`. -/
def Native.Oblivious (n : Native) : Prop := n ≠ .evalText ∧ n.EagerButAt

namespace Expr

/-- Variables that a frame binds are replaced by what it binds them to. Functions are left as they
are, since their bodies have frames of their own. -/
def subst (frame : Frame) : Expr → Expr
  | .var name => (frame.get? name).getD (.var name)
  | .call callee args => .call (callee.subst frame) (args.subst frame)
  | .binary op lhs rhs => .binary op (lhs.subst frame) (rhs.subst frame)
  | e => e

/-- A value that stands for one argument. -/
structure Solid (v : Expr) : Prop where
  isValue : v.isValue = true
  notEmpty : v ≠ .empty

theorem Solid.single {v : Expr} (h : v.Solid) : v.Single := by
  refine ⟨h.notEmpty, fun lhs rhs hchain => ?_⟩
  rw [hchain] at h
  exact nomatch h.isValue

/-- A part without parts of its own, and what a frame puts in its place. -/
inductive Placed (frame : Frame) : Expr → Expr → Prop
  | bound {name : String} {value : Expr} :
    frame.get? name = some value → Placed frame (.var name) value
  | free {name : String} : frame.get? name = none → Placed frame (.var name) (.var name)
  | itself {v : Expr} : v.Solid → v.Natives Native.Oblivious → Placed frame v v

variable {frame : Frame}

theorem rewritten_subst {e : Expr} (he : e.Natives Native.Oblivious) :
    e.Rewritten (Placed frame) (e.subst frame) := by
  induction e with
  | var name =>
    rw [subst]
    cases hname : frame.get? name with
    | some value => exact .base (.bound hname)
    | none => exact .base (.free hname)
  | empty => exact .empty
  | bool _ | text _ | function _ _ | native _ => exact .base (.itself ⟨rfl, nofun⟩ he)
  | call callee args ihc iha => exact .call (ihc he.1) (iha he.2)
  | binary op lhs rhs ihl ihr => exact .binary op (ihl he.1) (ihr he.2)

end Expr

/-- What the arguments of a call are replaced by. -/
structure Frame.Solid (frame : Frame) : Prop where
  solid : frame.All Expr.Solid
  natives : frame.All (Expr.Natives Native.Oblivious)

namespace Env

/-- Expressions come to values, one after the other, and the journal is told of this on the way. -/
def TellsAll (env : Env) (context : Option String) (exprs values : List Expr)
    (told : List Event) : Prop :=
  ∃ depth after, (exprs.mapM (evaluate context depth)).outcome env = some (.ok values, after) ∧
    after.journal = env.journal ++ told

end Env

section Placement

variable {frame : Frame} {mid env now now' : Env} {context : Option String}

/-- Under the frame and without it both parts come to the same at once. -/
theorem Expr.Placed.prompt {e e' : Expr} (h : Placed frame e e') (hframe : frame.Solid)
    (hstack : env.stack = []) (hnow : now.visible = env.visible.push frame)
    (hnow' : now'.visible = env.visible) (depth : Nat) :
    ∃ result, (evaluate context (depth + 1) e).outcome now = some (result, now) ∧
      (evaluate context (depth + 1) e').outcome now' = some (result, now') := by
  cases h with
  | @bound name _ hname =>
    refine ⟨.ok e', ?_, ?_⟩
    · have hlocal : (env.visible.push frame).local? name = some e' := hname
      show some (now.lookup name context, now) = _
      rw [← now.lookup_visible, hnow]
      unfold Env.lookup
      rw [hlocal]
    · rw [evaluate_of_isValue (hframe.solid name e' hname).isValue]
      rfl
  | @free name hname =>
    have hpushed : (env.visible.push frame).local? name = none := hname
    have hlocal : env.visible.local? name = none := Env.local?_of_stack_nil hstack name
    have hsame : (env.visible.push frame).lookup name context =
        env.visible.lookup name context := by
      unfold Env.lookup
      rw [hpushed, hlocal]
      rfl
    refine ⟨env.visible.lookup name context, ?_, ?_⟩
    · show some (now.lookup name context, now) = _
      rw [← now.lookup_visible, hnow, hsame]
    · show some (now'.lookup name context, now') = _
      rw [← now'.lookup_visible, hnow']
  | itself hv =>
    refine ⟨.ok e, ?_, ?_⟩
    · rw [evaluate_of_isValue hv.isValue]
      rfl
    · rw [evaluate_of_isValue hv.isValue]
      rfl

theorem Expr.Placed.single {e e' : Expr} (h : Placed frame e e') (hframe : frame.Solid) :
    e.Single ∧ e'.Single := by
  have hvar (name : String) : (Expr.var name).Single := ⟨nofun, nofun⟩
  cases h with
  | bound hname => exact ⟨hvar _, (hframe.solid _ _ hname).single⟩
  | free => exact ⟨hvar _, hvar _⟩
  | itself hv => exact ⟨hv.single, hv.single⟩

theorem Expr.Placed.natives {e e' : Expr} (h : Placed frame e e') (hframe : frame.Solid) :
    e.Natives Native.Oblivious ∧ e'.Natives Native.Oblivious := by
  cases h with
  | bound hname => exact ⟨trivial, hframe.natives _ _ hname⟩
  | free => exact ⟨trivial, trivial⟩
  | itself _ hnatives => exact ⟨hnatives, hnatives⟩

theorem Eval.same_of_prompt {J : List Event → List Event → Prop} {s t : Env} {e e' : Expr}
    {depth depth' : Nat}
    (h : ∀ {now now'}, Env.Apace J s t now now' → ∀ depth, ∃ result,
      (evaluate context (depth + 1) e).outcome now = some (result, now) ∧
        (evaluate context (depth + 1) e').outcome now' = some (result, now'))
    (hle : depth ≤ depth') : Eval.Same J s t (evaluate context depth e)
      (evaluate context depth' e') := by
  cases depth with
  | zero => exact matches_tooDeep _
  | succ depth =>
    intro now now' hnow result after ho
    obtain ⟨result', hleft, hright⟩ := h hnow depth
    rw [hleft] at ho
    cases ho
    exact ⟨_, now', evaluate_deeper hle hright, Eval.agree_self _, hnow⟩

/-- The body under the frame of the call, and with the arguments in place. -/
theorem Rewriting.placed (henv : env.Offers Native.Oblivious) (hstack : env.stack = [])
    (hmid : mid.visible = env.visible) (hframe : frame.Solid) :
    Rewriting Native.Oblivious Eq (Expr.Placed frame) (mid.push frame) env context where
  rest := by
    rw [Env.visible_push, hmid]
    rfl
  told h _ := by rw [h]
  eager _ hn := hn.2
  texts h := absurd rfl h.1
  offers := ⟨(henv.of_visible hmid).push hframe.natives, henv⟩
  natives h := h.natives hframe
  single h := h.single hframe
  forth h _ _ hle := by
    refine Eval.same_of_prompt (fun hnow depth =>
      h.prompt hframe hstack ?_ hnow.right depth) (by omega)
    rw [hnow.left, Env.visible_push, hmid]
  back h _ _ hle := by
    refine Eval.same_of_prompt (fun hnow depth => ?_) (by omega)
    have hpushed := hnow.right
    rw [Env.visible_push, hmid] at hpushed
    obtain ⟨result, hleft, hright⟩ := h.prompt hframe hstack hpushed hnow.left depth
    exact ⟨result, hright, hleft⟩

end Placement

/-- Arguments that come to values do so at every greater depth. -/
theorem outcome_mapM_deeper {context : Option String} {depth depth' : Nat} (hle : depth ≤ depth')
    {exprs : List Expr} {env after : Env} {result : Except Fault (List Expr)}
    (h : (exprs.mapM (evaluate context depth)).outcome env = some (result, after)) :
    (exprs.mapM (evaluate context depth')).outcome env = some (result, after) := by
  have hself : Follows Eq (fun _ => False) (exprs.mapM (evaluate context depth))
      (exprs.mapM (evaluate context depth')) := by
    refine follows_mapM (fun e => ?_) exprs
    intro env _ heq result after ho
    exact .inr ⟨after, heq ▸ evaluate_deeper hle ho, rfl⟩
  obtain ⟨_, ho, rfl⟩ := hself.always h rfl
  exact ho

/-- The call of a helper, once its arguments have come to values. -/
theorem outcome_call {context : Option String} {env mid : Env} {depth : Nat}
    {callee args body : Expr} {params : List String} {values : List Expr}
    (hcallee : (evaluate context (depth + 1) callee).outcome env =
      some (.ok (.function params body), env))
    (hargs : (args.arguments.mapM (evaluate context (depth + 1))).outcome env =
      some (.ok values, mid))
    (hlength : values.length = params.length) :
    (evaluate context (depth + 2) (.call callee args)).outcome env =
      (Eval.inFrame (.ofList (params.zip values))
        (evaluate context (depth + 1) body)).outcome mid := by
  show (evaluate context (depth + 1) callee >>= _).outcome env = _
  rw [outcome_bind_ok hcallee]
  show (args.arguments.mapM (evaluate context (depth + 1)) >>= _).outcome env = _
  rw [outcome_bind_ok hargs, outcome_bind_ok (outcome_read _ mid), if_neg (fun h => h.2 hlength)]

/-- With no call in progress, and where no function gets to know how things are written, the
arguments of a call come to values that stand for one argument each, as many as the helper has
parameters. Then the call comes to the same value, or to a fault of the same kind, as the body of
the helper with these values in place of its parameters. What is told after the arguments have been
evaluated is the same too. Of two parameters of one name the last one counts. -/
theorem call_as_inlined {env : Env} (hstack : env.stack = [])
    (hoffers : env.Offers Native.Oblivious) {context : Option String} {helper : String}
    {params : List String} {body args : Expr} {values : List Expr}
    {first : List Event} (hselector : helper ≠ env.config.selector)
    (hhelper : env.globals.get? helper = some (.function params body))
    (hnatives : args.Natives Native.Oblivious) (hlength : args.arguments.length = params.length)
    (hargs : env.TellsAll context args.arguments values first)
    (hvalues : ∀ value ∈ values, value.isValue = true ∧ value ≠ .empty)
    (result : Except FaultKind Expr) (told : List Event) :
    env.Tells context (.call (.var helper) args) result told ↔
      ∃ later, told = first ++ later ∧
        env.Tells context (body.subst (.ofList (params.zip values))) result later := by
  obtain ⟨enough, mid, hmid, hfirst⟩ := hargs
  have hseen : mid.visible = env.visible :=
    keeps_mapM (keeps_evaluate context enough) args.arguments env _ mid hmid
  have hcount : values.length = params.length := (length_of_mapM hmid).trans hlength
  have hclean : ∀ value ∈ values, value.Natives Native.Oblivious := by
    have hmap := (concur_mapM fun arg harg =>
      ((Upkeep.offers Native.Oblivious context).ensures_evaluate enough
        (hnatives.arguments arg harg)).concur).1
    exact (hmap env hoffers _ mid hmid).1
  have hframe : Frame.Solid (.ofList (params.zip values)) := by
    refine ⟨Table.all_ofList fun binding hbinding => ?_,
      Table.all_ofList fun binding hbinding => ?_⟩
    · have hvalue := hvalues binding.2 (List.of_mem_zip hbinding).2
      exact ⟨hvalue.1, hvalue.2⟩
    · exact hclean binding.2 (List.of_mem_zip hbinding).2
  have hbody : (Expr.function params body).Natives Native.Oblivious :=
    hoffers.globals helper _ hhelper
  have hrewritten : body.Rewritten (Expr.Placed _) (body.subst (.ofList (params.zip values))) :=
    Expr.rewritten_subst hbody
  have hplaced : Rewriting Native.Oblivious Eq (Expr.Placed _) (mid.push _) env context :=
    .placed hoffers hstack hseen hframe
  -- From some depth on the call is its body, carried out where the arguments have left off.
  have hcall (depth : Nat) (hdepth : enough ≤ depth + 1) :
      (evaluate context (depth + 2) (.call (.var helper) args)).outcome env =
        (Eval.inFrame (.ofList (params.zip values))
          (evaluate context (depth + 1) body)).outcome mid := by
    refine outcome_call ?_ (outcome_mapM_deeper hdepth hmid) hcount
    show some (env.lookup helper context, env) = _
    rw [Env.lookup_of_global (Env.local?_of_stack_nil hstack helper) hselector hhelper]
  constructor
  · intro h
    obtain ⟨depth, found, after, ho, hfound, hjournal⟩ := h
    have hdeep := evaluate_deeper (by omega : depth ≤ depth + enough + 2) ho
    rw [hcall (depth + enough) (by omega)] at hdeep
    obtain ⟨inner, hinner, rfl⟩ := Eval.cases_of_inFrame hdeep
    obtain ⟨later, hlater⟩ := Env.exists_told hinner
    obtain ⟨_, htells, rfl⟩ :=
      hplaced.exists_tells rfl hrewritten ⟨_, found, inner, hinner, hfound, hlater⟩
    have htold : env.journal ++ told = env.journal ++ (first ++ later) := by
      rw [← hjournal, ← List.append_assoc, ← hfirst]
      exact hlater
    exact ⟨later, List.append_cancel_left htold, htells⟩
  · rintro ⟨later, rfl, h⟩
    obtain ⟨_, ⟨depth, found, inner, hinner, hfound, hjournal⟩, rfl⟩ :=
      hplaced.symm.exists_tells rfl hrewritten.flip h
    have hdeep := evaluate_deeper (by omega : depth ≤ depth + enough + 1) hinner
    refine ⟨depth + enough + 2, found, inner.pop, ?_, hfound, ?_⟩
    · rw [hcall (depth + enough) (by omega), Eval.outcome_inFrame hdeep]
    · show inner.journal = _
      rw [hjournal, ← List.append_assoc, ← hfirst]
      rfl

/-- The parameters have the names of the selector and of a global function, one is all that an
inner call is given, and the other one is called. A message is told by an argument, and one by the
body. -/
theorem call_as_inlined_shadowing_parameters :
    let isGate : Expr := .function ["x"] (.binary .equal (.var "x") (.text "gate"))
    let body : Expr := .binary .and
      (.call (.var "at") (.binary .sequence (.var "AGE") (.call (.var "tell") (.var "AGE"))))
      (.binary .equal (.call (.var "debug") (.var "AGE")) (.text "gate"))
    let globals := Env.builtins.insertAll [("eval", .bool false), ("tell", .native .debug),
      ("isGate", isGate), ("unlock", .function ["AGE", "tell"] body)]
    let env := { Env.fresh {} globals Env.noHosts with
      graphs := .ofList [("ADULT", .ofEdges [("home", "gate")])], graphRoot := some "home" }
    let args : Expr := .binary .sequence (.call (.var "debug") (.text "gate")) (.var "isGate")
    let inlined : Expr := .binary .and
      (.call (.var "at") (.binary .sequence (.text "gate") (.call isGate (.text "gate"))))
      (.binary .equal (.call (.var "debug") (.text "gate")) (.text "gate"))
    let gate : Event := .message "\"gate\""
    env.Offers Native.Oblivious ∧ env.TellsAll (some "CHILD") args.arguments [.text "gate",
      isGate] [gate] ∧
      body.subst (.ofList (["AGE", "tell"].zip [.text "gate", isGate])) = inlined ∧
      (∀ result told, env.Tells (some "CHILD") (.call (.var "unlock") args) result told ↔
        ∃ later, told = [gate] ++ later ∧ env.Tells (some "CHILD") inlined result later) ∧
      env.Tells (some "CHILD") (.call (.var "unlock") args) (.ok (.bool true)) [gate, gate] := by
  intro isGate body globals env args inlined gate
  have hoffers : env.Offers Native.Oblivious := by
    refine ⟨fun name value hvalue => ?_,
      fun frame hframe => absurd hframe List.not_mem_nil, fun _ _ _ _ => trivial⟩
    have hentry : (name, value) ∈ env.globals.entries := Table.get?_eq_some_iff.mp hvalue
    have hentries : env.globals.entries = [("eval", .bool false), ("debug", .native .debug),
        ("at", .native .atPlace), ("tell", .native .debug), ("isGate", isGate),
        ("unlock", .function ["AGE", "tell"] body)] := by decide
    rw [hentries] at hentry
    simp only [List.mem_cons, Prod.mk.injEq, List.not_mem_nil, or_false] at hentry
    have hdebug : Native.Oblivious .debug := ⟨nofun, nofun⟩
    rcases hentry with ⟨-, rfl⟩ | ⟨-, rfl⟩ | ⟨-, rfl⟩ | ⟨-, rfl⟩ | ⟨-, rfl⟩ | ⟨-, rfl⟩
    · trivial
    · exact hdebug
    · exact ⟨nofun, fun _ => rfl⟩
    · exact hdebug
    · exact ⟨trivial, trivial⟩
    · exact ⟨⟨trivial, trivial, trivial, trivial⟩, ⟨trivial, trivial⟩, trivial⟩
  have hargs : env.TellsAll (some "CHILD") args.arguments [.text "gate", isGate] [gate] :=
    ⟨3, env.note gate, rfl, rfl⟩
  have hnatives : args.Natives Native.Oblivious := ⟨⟨trivial, trivial⟩, trivial⟩
  have hselector : "unlock" ≠ env.config.selector := by decide
  have hsame := call_as_inlined rfl hoffers hselector rfl hnatives rfl hargs
    (by simp [isGate, Expr.isValue])
  have hinlined : env.Tells (some "CHILD") inlined (.ok (.bool true)) [gate] :=
    Env.tells_of_run 8 (by decide +kernel)
  exact ⟨hoffers, hargs, rfl, hsame, (hsame _ _).mpr ⟨[gate], rfl, hinlined⟩⟩

end Passage
