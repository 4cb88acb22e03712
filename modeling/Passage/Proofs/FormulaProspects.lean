import Passage.Proofs.FormulaScanning

/-!
# What may come next in a formula

Whatever has been read of a formula, what may come next depends on two things alone: whether a term
is still to come, and how many groups are open. Every such standing can be brought to an end, so
marks that lead to one are the beginning of a formula, and the kinds that may follow them are those
that the standing expects. Where a reading is refused, the marks before the place lead to the
standing whose expectation is reported, and what is at the place is none of it.
-/
namespace Passage.Formula

/-- The kinds that an expectation lists. -/
def Expectation.terminals : Expectation → List Terminal
  | term => [.opening, .literal, .identifier]
  | operatorOrEnd => [.and, .or, .ending]
  | operatorOrClosing => [.and, .or, .closing]

/-- An error says which kinds are expected, and no others. -/
theorem Expectation.words_eq (expected : Expectation) :
    expected.words = " or ".intercalate (expected.terminals.map Terminal.label) := by
  cases expected <;> decide

/-- Where a reading stands in a formula: before a term or behind one, inside of so many groups. -/
inductive Standing where
  | before (depth : Nat)
  | behind (depth : Nat)
deriving DecidableEq, Repr

namespace Standing

def expected : Standing → Expectation
  | before _ => .term
  | behind 0 => .operatorOrEnd
  | behind (_ + 1) => .operatorOrClosing

/-- The standing after one more mark, if the mark may follow. -/
def step : Standing → Mark → Option Standing
  | before depth, .opening => some (before (depth + 1))
  | before depth, .const _ => some (behind depth)
  | before depth, .name _ => some (behind depth)
  | behind depth, .and => some (before depth)
  | behind depth, .or => some (before depth)
  | behind (depth + 1), .closing => some (behind depth)
  | _, _ => none

/-- The standing after more marks, if they may follow one after the other. -/
def walk (standing : Standing) (marks : List Mark) : Option Standing := marks.foldlM step standing

variable {standing later : Standing} {mark mark' : Mark} {marks marks' : List Mark}

theorem walk_cons (standing : Standing) (mark : Mark) (marks : List Mark) :
    standing.walk (mark :: marks) = (standing.step mark).bind fun later => later.walk marks := rfl

theorem walk_append (standing : Standing) (marks marks' : List Mark) :
    standing.walk (marks ++ marks') = (standing.walk marks).bind fun later => later.walk marks' :=
  List.foldlM_append

/-- The marks that may follow are those of the kinds that are expected. -/
theorem step_isSome_iff :
    (standing.step mark).isSome ↔
      ∃ kind ∈ standing.expected.terminals, mark.terminal? = some kind := by
  rcases standing with depth | (_ | depth) <;> cases mark <;>
    simp [step, expected, Expectation.terminals, Mark.terminal?]

/-- Of a mark only its kind matters. -/
theorem step_eq_of_kind (h : mark.terminal? = mark'.terminal?) (hkind : mark.terminal? ≠ none) :
    standing.step mark = standing.step mark' := by
  cases mark <;> cases mark' <;> simp_all [Mark.terminal?] <;> rcases standing with depth
    | (_ | depth) <;> rfl

theorem walk_eq_of_kinds (h : marks.map Mark.terminal? = marks'.map Mark.terminal?)
    (hwalk : standing.walk marks = some later) : standing.walk marks' = some later := by
  induction marks generalizing standing marks' with
  | nil =>
    cases marks' with
    | nil => exact hwalk
    | cons mark' marks' => cases h
  | cons mark marks ih =>
    cases marks' with
    | nil => cases h
    | cons mark' marks' =>
      rw [List.map_cons, List.map_cons, List.cons.injEq] at h
      obtain ⟨next, hstep, hrest⟩ := Option.bind_eq_some_iff.mp hwalk
      obtain ⟨kind, -, hkind⟩ := step_isSome_iff.mp (Option.isSome_of_eq_some hstep)
      rw [walk_cons, ← step_eq_of_kind h.1 (by rw [hkind]; nofun), hstep]
      exact ih h.2 hrest

end Standing

open Standing

variable {level : Level} {standing : Standing} {marks front : List Mark} {f : Formula}
  {refusal : Refusal}

/-- The kind of what comes first, which may be the end; a stray character has none. -/
def upcoming : List Mark → Option Terminal
  | [] => some .ending
  | mark :: _ => mark.terminal?

theorem eq_nil_of_upcoming (h : upcoming marks = some .ending) : marks = [] := by
  cases marks with
  | nil => rfl
  | cons mark marks => cases mark <;> cases h

theorem eq_closing_of_upcoming (h : upcoming marks = some .closing) :
    ∃ more, marks = .closing :: more := by
  cases marks with
  | nil => cases h
  | cons mark marks =>
    cases mark with
    | closing => exact ⟨marks, rfl⟩
    | _ => cases h

/-- Where no term begins, nothing comes that a term begins with. -/
theorem upcoming_ne_of_noTerm (hconst : ∀ b rest, marks ≠ .const b :: rest)
    (hname : ∀ name rest, marks ≠ .name name :: rest)
    (hopening : ∀ later, marks ≠ .opening :: later) :
    ∀ kind ∈ Expectation.term.terminals, upcoming marks ≠ some kind := by
  cases marks with
  | nil => simp [upcoming, Expectation.terminals]
  | cons mark rest =>
    cases mark with
    | const b => exact absurd rfl (hconst b rest)
    | name s => exact absurd rfl (hname s rest)
    | opening => exact absurd rfl (hopening rest)
    | closing | and | or | stray _ => simp [upcoming, Mark.terminal?, Expectation.terminals]

/-- No operator comes where a disjunction stops. -/
theorem Stops.upcoming_ne (h : Stops .disjunction marks) :
    upcoming marks ≠ some .and ∧ upcoming marks ≠ some .or := by
  cases marks with
  | nil => simp [upcoming]
  | cons mark marks =>
    have hmark : mark ∉ Level.disjunction.links := h mark marks rfl
    cases mark with
    | and | or => exact absurd (by simp [Level.links]) hmark
    | opening | closing | const _ | name _ | stray _ => simp [upcoming, Mark.terminal?]

/-- A formula leads from before a term to behind one. -/
theorem Derives.walk (h : Derives level marks f) (depth : Nat) :
    (before depth).walk marks = some (behind depth) := by
  induction h generalizing depth with
  | conjunction _ ih | term _ ih => exact ih depth
  | or _ _ ihl ihr | and _ _ ihl ihr =>
    rw [walk_append, ihl depth]
    exact ihr depth
  | const b | flag name => rfl
  | group _ ih =>
    rw [List.cons_append, walk_cons]
    show (before (depth + 1)).walk _ = _
    rw [walk_append, ih (depth + 1)]
    rfl

/-- Where a reading is refused, the marks before the place lead to what is expected there, and what
is there is of another kind. -/
theorem Refuses.walk (h : Refuses level marks refusal) (depth : Nat) :
    ∃ front standing, marks = front ++ refusal.rest ∧ (before depth).walk front = some standing ∧
      standing.expected = refusal.expected ∧
      ∀ kind ∈ standing.expected.terminals, upcoming refusal.rest ≠ some kind := by
  induction h generalizing depth with
  | first _ _ ih => exact ih depth
  | later link hreads _ ih =>
    obtain ⟨left, rfl, hleft, -⟩ := hreads.derives
    obtain ⟨front, standing, rfl, hwalk, hrest⟩ := ih depth
    refine ⟨left ++ link.mark :: front, standing, by simp, ?_, hrest⟩
    rw [walk_append, hleft.walk depth]
    cases link <;> exact hwalk
  | inside _ ih =>
    obtain ⟨front, standing, rfl, hwalk, hrest⟩ := ih (depth + 1)
    exact ⟨.opening :: front, standing, rfl, hwalk, hrest⟩
  | @unclosed later rest f hreads hclose =>
    obtain ⟨inner, rfl, hinner, hstop⟩ := hreads.derives
    refine ⟨.opening :: inner, behind (depth + 1), rfl, hinner.walk (depth + 1), rfl, ?_⟩
    have hclosing : upcoming rest ≠ some .closing := fun h =>
      (eq_closing_of_upcoming h).elim hclose
    simp [expected, Expectation.terminals, hstop.upcoming_ne, hclosing]
  | noTerm hconst hname hopening =>
    exact ⟨[], before depth, rfl, rfl, rfl, upcoming_ne_of_noTerm hconst hname hopening⟩

/-- Whatever leads to the end of a formula begins with a kind that is expected. -/
theorem Standing.upcoming_mem (h : standing.walk marks = some (behind 0)) :
    ∃ kind ∈ standing.expected.terminals, upcoming marks = some kind := by
  cases marks with
  | nil =>
    cases h
    exact ⟨.ending, by decide, rfl⟩
  | cons mark marks =>
    obtain ⟨later, hstep, -⟩ := Option.bind_eq_some_iff.mp h
    exact step_isSome_iff.mp (Option.isSome_of_eq_some hstep)

/-- Refused marks lead to the standing whose expectation is reported, and stop there. -/
theorem walk_of_refused (h : Tree.ofMarks marks = .error refusal) :
    ∃ front standing, marks = front ++ refusal.rest ∧ (before 0).walk front = some standing ∧
      standing.expected = refusal.expected ∧
      ∀ kind ∈ standing.expected.terminals, upcoming refusal.rest ≠ some kind := by
  rcases cases_of_ofMarks_error h with hrefuses | ⟨f, mark, rest, hreads, rfl⟩
  · exact hrefuses.walk 0
  · obtain ⟨front, rfl, hf, hstop⟩ := hreads.derives
    have hending : upcoming (mark :: rest) ≠ some .ending := fun h => by cases eq_nil_of_upcoming h
    refine ⟨front, behind 0, rfl, hf.walk 0, rfl, ?_⟩
    simp [expected, Expectation.terminals, hstop.upcoming_ne, hending]

/-- Marks are a formula exactly if they lead from its beginning to its end. -/
theorem derives_iff_walk : (∃ f, Derives .disjunction marks f) ↔
    (before 0).walk marks = some (behind 0) := by
  constructor
  · rintro ⟨f, hf⟩
    exact hf.walk 0
  intro hwalk
  cases hmarks : Tree.ofMarks marks with
  | ok tree =>
    obtain ⟨f, _, hf⟩ := derives_of_ofMarks hmarks
    exact ⟨f, hf⟩
  | error refusal =>
    obtain ⟨front, standing, hsplit, hfront, -, hstuck⟩ := walk_of_refused hmarks
    rw [hsplit, walk_append, hfront] at hwalk
    obtain ⟨kind, hmem, hkind⟩ := upcoming_mem hwalk
    exact absurd hkind (hstuck kind hmem)

/-- Every standing can be brought to the end of a formula. -/
theorem Standing.exists_completion (standing : Standing) :
    ∃ marks, standing.walk marks = some (behind 0) := by
  have hbehind (depth : Nat) : ∃ marks, (behind depth).walk marks = some (behind 0) := by
    induction depth with
    | zero => exact ⟨[], rfl⟩
    | succ depth ih =>
      obtain ⟨marks, hwalk⟩ := ih
      exact ⟨.closing :: marks, hwalk⟩
  cases standing with
  | behind depth => exact hbehind depth
  | before depth =>
    obtain ⟨marks, hwalk⟩ := hbehind depth
    exact ⟨.const true :: marks, hwalk⟩

/-- What is expected may follow. -/
theorem Standing.exists_continuation {kind : Terminal} (h : kind ∈ standing.expected.terminals) :
    ∃ marks, upcoming marks = some kind ∧ standing.walk marks = some (behind 0) := by
  by_cases hending : kind = .ending
  · subst hending
    rcases standing with depth | (_ | depth)
    · simp [expected, Expectation.terminals] at h
    · exact ⟨[], rfl, rfl⟩
    · simp [expected, Expectation.terminals] at h
  · obtain ⟨mark, hmark⟩ : ∃ mark : Mark, mark.terminal? = some kind := by
      cases kind with
      | opening => exact ⟨.opening, rfl⟩
      | closing => exact ⟨.closing, rfl⟩
      | and => exact ⟨.and, rfl⟩
      | or => exact ⟨.or, rfl⟩
      | literal => exact ⟨.const true, rfl⟩
      | identifier => exact ⟨.name "lamp", rfl⟩
      | ending => exact absurd rfl hending
    obtain ⟨later, hstep⟩ := Option.isSome_iff_exists.mp (step_isSome_iff.mpr ⟨kind, h, hmark⟩)
    obtain ⟨marks, hwalk⟩ := later.exists_completion
    refine ⟨mark :: marks, hmark, ?_⟩
    rw [walk_cons, hstep]
    exact hwalk

/-- What may follow the marks that lead to a standing is what is expected there. -/
theorem Standing.mem_terminals_iff (h : (before 0).walk front = some standing) {kind : Terminal} :
    kind ∈ standing.expected.terminals ↔
      ∃ more f, upcoming more = some kind ∧ Derives .disjunction (front ++ more) f := by
  constructor
  · intro hmem
    obtain ⟨more, hmore, hwalk⟩ := exists_continuation hmem
    have hwhole : (before 0).walk (front ++ more) = some (behind 0) := by
      rw [walk_append, h]
      exact hwalk
    obtain ⟨f, hf⟩ := derives_iff_walk.mpr hwhole
    exact ⟨more, f, hmore, hf⟩
  · rintro ⟨more, f, hmore, hf⟩
    have hwhole := hf.walk 0
    rw [walk_append, h] at hwhole
    obtain ⟨found, hfound, hupcoming⟩ := upcoming_mem hwhole
    rw [hmore] at hupcoming
    cases hupcoming
    exact hfound

end Passage.Formula
