import Passage.Proofs.FormulaShapes
import Passage.Proofs.FormulaTerminals

/-!
# Reading formulas by trial

The grammar of formulas can be tried rule by rule, character by character, in one way only. The
reader never steps back, and still it comes to the same: the place where it refuses is the furthest
one where a terminal fails, and the terminals that fail there are those that it expects.
-/
namespace Passage.Formula

/-! ## Trials -/

/-- There is one way to try a pattern. -/
theorem Tries.unique {pattern : Pattern} {place : Place} {result result' : Option Place}
    {trials trials' : List Trial} (h : Tries pattern place result trials)
    (h' : Tries pattern place result' trials') : result = result' ∧ trials = trials' := by
  induction h generalizing result' trials' with
  | hit hmatch =>
    cases h' with
    | hit hmatch' =>
      rw [hmatch] at hmatch'
      exact ⟨hmatch', rfl⟩
    | miss hmatch' =>
      rw [hmatch] at hmatch'
      cases hmatch'
  | miss hmatch =>
    cases h' with
    | hit hmatch' =>
      rw [hmatch] at hmatch'
      cases hmatch'
    | miss _ => exact ⟨rfl, rfl⟩
  | rule _ ih =>
    cases h' with
    | rule h' => exact ih h'
  | both _ _ ih ih' =>
    cases h' with
    | both h₁ h₂ =>
      obtain ⟨⟨⟩, rfl⟩ := ih h₁
      obtain ⟨rfl, rfl⟩ := ih' h₂
      exact ⟨rfl, rfl⟩
    | notBoth h₁ =>
      obtain ⟨⟨⟩, -⟩ := ih h₁
  | notBoth _ ih =>
    cases h' with
    | both h₁ _ =>
      obtain ⟨⟨⟩, -⟩ := ih h₁
    | notBoth h₁ => exact ih h₁
  | left _ ih =>
    cases h' with
    | left h₁ => exact ih h₁
    | right h₁ _ =>
      obtain ⟨⟨⟩, -⟩ := ih h₁
  | right _ _ ih ih' =>
    cases h' with
    | left h₁ =>
      obtain ⟨⟨⟩, -⟩ := ih h₁
    | right h₁ h₂ =>
      obtain ⟨-, rfl⟩ := ih h₁
      obtain ⟨rfl, rfl⟩ := ih' h₂
      exact ⟨rfl, rfl⟩
  | stop _ ih =>
    cases h' with
    | stop h₁ =>
      obtain ⟨-, rfl⟩ := ih h₁
      exact ⟨rfl, rfl⟩
    | again h₁ _ =>
      obtain ⟨⟨⟩, -⟩ := ih h₁
  | again _ _ ih ih' =>
    cases h' with
    | stop h₁ =>
      obtain ⟨⟨⟩, -⟩ := ih h₁
    | again h₁ h₂ =>
      obtain ⟨⟨⟩, rfl⟩ := ih h₁
      obtain ⟨rfl, rfl⟩ := ih' h₂
      exact ⟨rfl, rfl⟩

theorem not_tries_many {body : Pattern} {place : Place} {trials : List Trial} :
    ¬Tries (.many body) place none trials := by
  intro h
  generalize hpattern : Pattern.many body = pattern at h
  generalize hresult : (none : Option Place) = result at h
  induction h with
  | stop _ _ => cases hresult
  | again _ _ _ ih => exact ih hpattern hresult
  | _ => cases hpattern

/-! ## The furthest trials -/

theorem filter_earlier {trials : List Trial} {offset : Nat}
    (h : ∀ trial ∈ trials, trial.offset < offset) :
    (trials.filter fun trial => trial.offset = offset) = [] := by
  rw [List.filter_eq_nil_iff]
  intro trial hmem
  simpa using Nat.ne_of_lt (h trial hmem)

namespace Furthest

variable {trials more : List Trial} {offset : Nat} {kinds : List Terminal}

theorem behind (h : Furthest trials offset kinds) (hmore : ∀ trial ∈ more, trial.offset < offset) :
    Furthest (more ++ trials) offset kinds := by
  refine ⟨fun trial hmem => ?_, ?_⟩
  · rcases List.mem_append.mp hmem with hmem | hmem
    · exact Nat.le_of_lt (hmore trial hmem)
    · exact h.1 trial hmem
  · rw [List.filter_append, filter_earlier hmore, List.nil_append]
    exact h.2

theorem ahead (h : Furthest trials offset kinds) (hmore : ∀ trial ∈ more, trial.offset < offset) :
    Furthest (trials ++ more) offset kinds := by
  refine ⟨fun trial hmem => ?_, ?_⟩
  · rcases List.mem_append.mp hmem with hmem | hmem
    · exact h.1 trial hmem
    · exact Nat.le_of_lt (hmore trial hmem)
  · rw [List.filter_append, filter_earlier hmore, List.append_nil]
    exact h.2

end Furthest

theorem furthest_map (offset : Nat) (kinds : List Terminal) :
    Furthest (kinds.map fun kind => ⟨offset, kind⟩) offset kinds := by
  refine ⟨by simp, ?_⟩
  induction kinds with
  | nil => rfl
  | cons kind kinds ih => simpa using ih

/-! ## Chains -/

/-- The kinds of the marks with which a formula of a level goes on. -/
def Level.kinds : Level → List Terminal
  | disjunction => [.and, .or]
  | conjunction => [.and]
  | term => []

namespace Link

theorem kinds_chain (link : Link) : link.chain.kinds = link.operand.kinds ++ [link.kind] := by
  cases link <;> rfl

theorem kind_notMem (link : Link) : link.kind ∉ link.operand.kinds := by
  cases link <;> decide

theorem eq_mark_of_upcoming {link : Link} {marks : List Mark}
    (h : upcoming marks = some link.kind) : ∃ later, marks = link.mark :: later := by
  cases marks with
  | nil => cases link <;> cases h
  | cons mark later =>
    cases Link.eq_mark_of_terminal? h
    exact ⟨later, rfl⟩

end Link

variable {place middle next later : Place} {level : Level} {marks rest : List Mark} {f : Formula}
  {refusal : Refusal} {result : Option Place} {trials more : List Trial}

/-- A chain ends where its operator does not follow. -/
theorem tries_chain_end (link : Link)
    (h : Tries (.rule link.operand.rule) place (some later) trials)
    (hlink : upcoming later.marks ≠ some link.kind) :
    Tries (.rule link.chain.rule) place (some later) (trials ++
      [⟨later.skip.offset, link.kind⟩]) := by
  refine .rule ?_
  rw [link.pattern_chain]
  exact .both h (.stop (.notBoth (.miss (Place.match?_eq_none hlink))))

/-- A chain goes on with what is a chain itself, or ends before the operator if there is none. -/
theorem tries_chain_again (link : Link)
    (h : Tries (.rule link.operand.rule) place (some middle) trials)
    (hlink : link.kind.match? middle.skip = some next)
    (hnext : Tries (.rule link.chain.rule) next result more) :
    Tries (.rule link.chain.rule) place (some (result.getD middle)) (trials ++ more) := by
  refine .rule ?_
  have hagain : Tries (.many (.both (.terminal link.kind) (.rule link.operand.rule))) middle
      (some (result.getD middle)) more := by
    cases hnext with
    | rule hnext =>
      rw [link.pattern_chain] at hnext
      cases hnext with
      | both hoperand hmany =>
        cases result with
        | none => exact absurd hmany not_tries_many
        | some last => exact .again (.both (.hit hlink) hoperand) hmany
      | notBoth hoperand => exact .stop (.both (.hit hlink) hoperand)
  rw [link.pattern_chain]
  exact .both h hagain

/-! ## Groups -/

theorem tries_group_without (h : upcoming place.marks ≠ some .opening) :
    Tries (.rule .group) place none [⟨place.skip.offset, .opening⟩] :=
  .rule (.notBoth (.miss (Place.match?_eq_none h)))

/-- A group whose closing parenthesis does not follow fails at the place where it should. -/
theorem tries_group_unclosed (hopening : Terminal.opening.match? place.skip = some next)
    (hinner : Tries (.rule .disjunction) next (some later) trials)
    (hclosing : upcoming later.marks ≠ some .closing) :
    Tries (.rule .group) place none (trials ++ [⟨later.skip.offset, .closing⟩]) := by
  have hgroup : Tries Rule.group.pattern place none ([] ++
      (trials ++ [⟨later.skip.offset, .closing⟩])) :=
    .both (.hit hopening) (.both hinner (.miss (Place.match?_eq_none hclosing)))
  exact .rule hgroup

theorem tries_group_within (hopening : Terminal.opening.match? place.skip = some next)
    (hinner : Tries (.rule .disjunction) next none trials) :
    Tries (.rule .group) place none trials := by
  have hgroup : Tries Rule.group.pattern place none ([] ++ trials) :=
    .both (.hit hopening) (.notBoth hinner)
  exact .rule hgroup

/-- Where a group fails and no literal or identifier stands, a term fails. -/
theorem tries_term_without (hgroup : Tries (.rule .group) place none trials)
    (hliteral : upcoming place.marks ≠ some .literal)
    (hidentifier : upcoming place.marks ≠ some .identifier) :
    Tries (.rule .term) place none
      (trials ++ [.literal, .identifier].map fun kind => ⟨place.skip.offset, kind⟩) :=
  .rule (.right hgroup (.right (.miss (Place.match?_eq_none hliteral))
    (.miss (Place.match?_eq_none hidentifier))))

theorem tries_term_behind_group (hopening : upcoming place.marks = some .opening)
    (hgroup : Tries (.rule .group) place none trials) : Tries (.rule .term) place none
      (trials ++ [.literal, .identifier].map fun kind => ⟨place.skip.offset, kind⟩) :=
  tries_term_without hgroup (by rw [hopening]; nofun) (by rw [hopening]; nofun)

/-! ## What is read and what is refused -/

/-- What is read is found by trial. At the place behind it all operators have failed with which it
would go on. -/
theorem Reads.tries (h : Reads level place.marks f rest) :
    ∃ later trials,
      Tries (.rule level.rule) place (some later)
        (trials ++ level.kinds.map fun kind => ⟨later.skip.offset, kind⟩) ∧
      later.marks = rest ∧ Place.Onward place later ∧ place.skip.offset < later.skip.offset ∧
      ∀ trial ∈ trials, trial.offset < later.skip.offset := by
  generalize hmarks : place.marks = marks at h
  induction h generalizing place with
  | alone link _ hmark ih =>
    obtain ⟨later, trials, htries, rfl, honward, hoffset, htrials⟩ := ih hmarks
    have hlink : upcoming later.marks ≠ some link.kind := fun h =>
      (Link.eq_mark_of_upcoming h).elim hmark
    refine ⟨later, trials, ?_, rfl, honward, hoffset, htrials⟩
    rw [link.kinds_chain, List.map_append, ← List.append_assoc]
    exact tries_chain_end link htries hlink
  | join link _ _ ihl ihr =>
    obtain ⟨middle, trials, htries, hmiddle, honward, hoffset, htrials⟩ := ihl hmarks
    obtain ⟨next, hmatch, hnext, honward', hoffset'⟩ :=
      Place.exists_match? hmiddle link.terminal?_mark
    obtain ⟨later, more, htries', hlater, honward'', hoffset'', hmore⟩ := ihr hnext
    have hchain := tries_chain_again link htries hmatch htries'
    rw [← List.append_assoc] at hchain
    refine ⟨later, _, hchain, hlater, (honward.trans honward').trans honward'', by
      omega, fun trial hmem => ?_⟩
    rcases List.mem_append.mp hmem with hmem | hmem
    · rcases List.mem_append.mp hmem with hmem | hmem
      · exact (htrials trial hmem).trans (hoffset'.trans hoffset'')
      · obtain ⟨kind, -, rfl⟩ := List.mem_map.mp hmem
        exact hoffset'.trans hoffset''
    · exact hmore trial hmem
  | const b rest =>
    have hgroup : upcoming place.marks ≠ some .opening := by rw [hmarks]; nofun
    obtain ⟨later, hmatch, hlater, honward, hoffset⟩ := Place.exists_match? hmarks rfl
    have hterm : Tries Rule.term.pattern place (some later) _ :=
      .right (tries_group_without hgroup) (.left (.hit hmatch))
    exact ⟨later, [⟨place.skip.offset, .opening⟩], .rule hterm, hlater, honward, hoffset, by
      simpa using hoffset⟩
  | flag name rest =>
    have hgroup : upcoming place.marks ≠ some .opening := by rw [hmarks]; nofun
    have hliteral : upcoming place.marks ≠ some .literal := by rw [hmarks]; nofun
    obtain ⟨later, hmatch, hlater, honward, hoffset⟩ := Place.exists_match? hmarks rfl
    have hterm : Tries Rule.term.pattern place (some later) _ :=
      .right (tries_group_without hgroup) (.right (.miss (Place.match?_eq_none hliteral))
        (.hit hmatch))
    exact ⟨later, [⟨place.skip.offset, .opening⟩, ⟨place.skip.offset, .literal⟩], .rule hterm,
      hlater, honward, hoffset, by simpa using hoffset⟩
  | group _ ih =>
    obtain ⟨next, hopening, hnext, honward, hoffset⟩ := Place.exists_match? hmarks rfl
    obtain ⟨later, trials, htries, hlater, honward', hoffset', htrials⟩ := ih hnext
    obtain ⟨last, hclosing, hlast, honward'', hoffset''⟩ := Place.exists_match? hlater rfl
    have hgroup : Tries Rule.group.pattern place (some last) _ :=
      .both (.hit hopening) (.both htries (.hit hclosing))
    rw [List.nil_append] at hgroup
    refine ⟨last, _, .rule (.left (.rule hgroup)), hlast,
      (honward.trans honward').trans honward'', by omega, fun trial hmem => ?_⟩
    rcases List.mem_append.mp hmem with hmem | hmem
    · exact (htrials trial hmem).trans hoffset''
    · obtain ⟨kind, -, rfl⟩ := List.mem_map.mp hmem
      exact hoffset''

/-- What is refused is refused by trial. The place of the refusal is the furthest one where a
terminal fails, and what fails there is what is expected. A chain may be found before it, but then
an operator follows. -/
theorem Refuses.tries (h : Refuses level place.marks refusal) :
    ∃ result trials stop, Tries (.rule level.rule) place result trials ∧
      Furthest trials stop.skip.offset refusal.expected.terminals ∧ stop.marks = refusal.rest ∧
      Place.Onward place stop ∧
      ∀ later, result = some later → later.skip.offset < stop.skip.offset ∧
        ∃ kind ∈ level.kinds, upcoming later.marks = some kind := by
  generalize hmarks : place.marks = marks at h
  induction h generalizing place with
  | first link _ ih =>
    obtain ⟨result, trials, stop, htries, hfurthest, hstop, honward, hfound⟩ := ih hmarks
    cases result with
    | none =>
      have hchain : Tries link.chain.rule.pattern place none trials := by
        rw [link.pattern_chain]
        exact .notBoth htries
      exact ⟨none, trials, stop, .rule hchain, hfurthest, hstop, honward, nofun⟩
    | some later =>
      obtain ⟨hbefore, kind, hkind, hupcoming⟩ := hfound later rfl
      have hlink : upcoming later.marks ≠ some link.kind := by
        rw [hupcoming]
        rintro ⟨⟩
        exact link.kind_notMem hkind
      refine ⟨some later, _, stop, tries_chain_end link htries hlink,
        hfurthest.ahead (by simpa using hbefore), hstop, honward, ?_⟩
      rintro _ ⟨⟩
      exact ⟨hbefore, kind, by simp [link.kinds_chain, hkind], hupcoming⟩
  | later link hreads _ ih =>
    subst hmarks
    obtain ⟨middle, trials, htries, hmiddle, honward, hoffset, htrials⟩ := hreads.tries
    obtain ⟨next, hmatch, hnext, honward', hoffset'⟩ :=
      Place.exists_match? hmiddle link.terminal?_mark
    obtain ⟨result, more, stop, htries', hfurthest, hstop, honward'', hfound⟩ := ih hnext
    have hbefore : middle.skip.offset < stop.skip.offset :=
      Nat.lt_of_lt_of_le hoffset' honward''.offset
    refine ⟨_, _, stop, tries_chain_again link htries hmatch htries',
      hfurthest.behind fun trial hmem => ?_, hstop, (honward.trans honward').trans honward'', ?_⟩
    · rcases List.mem_append.mp hmem with hmem | hmem
      · exact (htrials trial hmem).trans hbefore
      · obtain ⟨kind, -, rfl⟩ := List.mem_map.mp hmem
        exact hbefore
    · rintro _ ⟨⟩
      cases result with
      | none =>
        refine ⟨hbefore, link.kind, by simp [link.kinds_chain], ?_⟩
        rw [Option.getD_none, hmiddle]
        exact link.terminal?_mark
      | some last => exact hfound last rfl
  | inside _ ih =>
    have hupcoming : upcoming place.marks = some .opening := by rw [hmarks]; rfl
    obtain ⟨next, hopening, hnext, honward, hoffset⟩ := Place.exists_match? hmarks rfl
    obtain ⟨result, trials, stop, htries, hfurthest, hstop, honward', hfound⟩ := ih hnext
    have hbefore : place.skip.offset < stop.skip.offset :=
      Nat.lt_of_lt_of_le hoffset honward'.offset
    obtain ⟨more, hgroup, hmore⟩ : ∃ more, Tries (.rule .group) place none more ∧
        Furthest more stop.skip.offset _ := by
      cases result with
      | none => exact ⟨trials, tries_group_within hopening htries, hfurthest⟩
      | some later =>
        obtain ⟨hlater, kind, hkind, hoperator⟩ := hfound later rfl
        have hclosing : upcoming later.marks ≠ some .closing := by
          rw [hoperator]
          rintro ⟨⟩
          exact absurd hkind (by decide)
        exact ⟨_, tries_group_unclosed hopening htries hclosing,
          hfurthest.ahead (by simpa using hlater)⟩
    exact ⟨none, _, stop, tries_term_behind_group hupcoming hgroup,
      hmore.ahead (by simpa using hbefore), hstop, honward.trans honward', nofun⟩
  | unclosed hreads hclose =>
    have hupcoming : upcoming place.marks = some .opening := by rw [hmarks]; rfl
    obtain ⟨next, hopening, hnext, honward, hoffset⟩ := Place.exists_match? hmarks rfl
    subst hnext
    obtain ⟨stop, trials, htries, hstop, honward', hoffset', htrials⟩ := hreads.tries
    have hbefore : place.skip.offset < stop.skip.offset := hoffset.trans hoffset'
    have hclosing : upcoming stop.marks ≠ some .closing := by
      rw [hstop]
      exact fun h => (eq_closing_of_upcoming h).elim hclose
    have hgroup := tries_group_unclosed hopening htries hclosing
    rw [List.append_assoc] at hgroup
    have hmore := (furthest_map stop.skip.offset
      Expectation.operatorOrClosing.terminals).behind htrials
    exact ⟨none, _, stop, tries_term_behind_group hupcoming hgroup,
      hmore.ahead (by simpa using hbefore), hstop, honward.trans honward', nofun⟩
  | noTerm hconst hname hopening =>
    subst hmarks
    have hne := upcoming_ne_of_noTerm hconst hname hopening
    have hterm := tries_term_without (tries_group_without (hne .opening (by decide)))
      (hne .literal (by decide))
      (hne .identifier (by decide))
    exact ⟨none, _, place, hterm, furthest_map place.skip.offset Expectation.term.terminals, rfl,
      .refl place, nofun⟩

/-! ## Whole texts -/

/-- What is a formula is found by trial, up to the end. -/
theorem tries_whole_of_ofMarks {tree : Tree} (h : Tree.ofMarks place.marks = .ok tree) :
    ∃ later trials, Tries (.rule .whole) place (some later) trials := by
  obtain ⟨⟨f, -, hreads⟩, -⟩ := reads_of_ofMarks h
  obtain ⟨later, trials, htries, hlater, -⟩ := hreads.tries
  obtain ⟨last, hmatch⟩ := Place.exists_match?_ending hlater
  exact ⟨last, _, .rule (.both htries (.hit hmatch))⟩

/-- What is refused is refused by trial, for the same reason at the same place. -/
theorem tries_whole_of_refused (h : Tree.ofMarks place.marks = .error refusal) :
    ∃ trials stop, Tries (.rule .whole) place none trials ∧
      Furthest trials stop.skip.offset refusal.expected.terminals ∧ stop.marks = refusal.rest ∧
      Place.Onward place stop := by
  rcases cases_of_ofMarks_error h with hrefuses | ⟨f, mark, rest, hreads, rfl⟩
  · obtain ⟨result, trials, stop, htries, hfurthest, hstop, honward, hfound⟩ := hrefuses.tries
    cases result with
    | none => exact ⟨trials, stop, .rule (.notBoth htries), hfurthest, hstop, honward⟩
    | some later =>
      obtain ⟨hlater, kind, hkind, hupcoming⟩ := hfound later rfl
      have hending : upcoming later.marks ≠ some .ending := by
        rw [hupcoming]
        rintro ⟨⟩
        exact absurd hkind (by decide)
      exact ⟨_, stop, .rule (.both htries (.miss (Place.match?_eq_none hending))),
        hfurthest.ahead (by simpa using hlater), hstop, honward⟩
  · obtain ⟨stop, trials, htries, hstop, honward, -, htrials⟩ := hreads.tries
    have hending : upcoming stop.marks ≠ some .ending := by
      intro hend
      rw [eq_nil_of_upcoming hend] at hstop
      cases hstop
    have hwhole : Tries Rule.whole.pattern place none _ :=
      .both htries (.miss (Place.match?_eq_none hending))
    rw [List.append_assoc] at hwhole
    exact ⟨_, stop, .rule hwhole,
      (furthest_map stop.skip.offset Expectation.operatorOrEnd.terminals).behind htrials,
        hstop, honward⟩

end Passage.Formula
