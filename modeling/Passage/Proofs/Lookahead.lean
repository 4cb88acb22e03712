import Passage.Cursor.Task

/-!
# Looking and moving ahead

A cursor that is only asked for places ahead never leaves its sequence: it stands before the first
item or on one of them. So the wrap of places before the start never shows, a move fails exactly if
it would pass the end, and what it finds is what a look ahead would have shown. Cursors over
characters and over tokens promise the same (`Cursor.Promise`), though they notice the end in
different ways.
-/
namespace Passage.Cursor

variable {α β : Type} {c : Cursor α} {k : Int}

/-- How many items are ahead. -/
def remaining (c : Cursor α) : Int := c.items.length - c.location

/-- The cursor stands before the first item or on one of them. -/
def Inside (c : Cursor α) : Prop := -1 ≤ c.place ∧ c.place ≤ (c.items.length : Int) - 1

theorem inside_start (items : List α) : (start items).Inside := by
  have hplace : (start items).place = -1 := rfl
  have hitems : (start items).items = items := rfl
  rw [Inside, hplace, hitems]
  omega

theorem pastEnd_iff (c : Cursor α) (k : Int) : c.pastEnd k = true ↔ c.remaining < k := by
  rw [pastEnd, decide_eq_true_eq, remaining, location]
  omega

theorem peek?_of_short (h : c.remaining < k) : c.peek? k = none := by
  rw [remaining, location] at h
  rw [peek?, item?]
  split
  · exact List.getElem?_eq_none (by omega)
  · rfl

/-- As long as enough items are ahead, a look and a move find the same one. -/
theorem Inside.exists_item (h : c.Inside) (hk : 1 ≤ k) (hleft : k ≤ c.remaining) :
    ∃ item, c.peek? k = some item ∧ wrapped? c.items (c.place + k) = some item := by
  obtain ⟨hlow, hhigh⟩ := h
  rw [remaining, location] at hleft
  have hplace : 0 ≤ c.place + k := by omega
  have hlength : (c.place + k).toNat < c.items.length := by omega
  refine ⟨c.items[(c.place + k).toNat], ?_, ?_⟩
  · rw [peek?, item?, if_pos hplace, List.getElem?_eq_getElem hlength]
  · rw [wrapped?, if_pos hplace, List.getElem?_eq_getElem hlength]

theorem advance_of_short (h : c.remaining < k) :
    c.advance k = (.error (.pastEnd c.location c.items.length), c) :=
  advance_of_pastEnd ((pastEnd_iff c k).mpr h)

theorem Inside.advance_eq (h : c.Inside) (hk : 1 ≤ k) (hleft : k ≤ c.remaining) {item : α}
    (hitem : c.peek? k = some item) : c.advance k = (.ok item, ⟨c.items, c.place + k⟩) := by
  obtain ⟨found, hpeek, hwrapped⟩ := h.exists_item hk hleft
  rw [hitem] at hpeek
  cases hpeek
  have hend : ¬c.pastEnd k = true := by
    rw [pastEnd_iff]
    omega
  rw [advance, if_neg hend]
  simp only [hwrapped]

theorem Inside.advance (h : c.Inside) (hk : 1 ≤ k) : (c.advance k).2.Inside := by
  by_cases hleft : k ≤ c.remaining
  · obtain ⟨item, hitem, _⟩ := h.exists_item hk hleft
    rw [h.advance_eq hk hleft hitem]
    rw [remaining, location] at hleft
    have hlow := h.1
    show -1 ≤ c.place + k ∧ c.place + k ≤ (c.items.length : Int) - 1
    omega
  · rw [advance_of_short (by omega)]
    exact h

/-- A look at the last token past the end is a look that has an item to show everywhere. -/
theorem Inside.peekLast_eq (h : c.Inside) (hk : 1 ≤ k) {last : α}
    (hlast : c.items.getLast? = some last) : c.peekLast k = .ok ((c.peek? k).getD last) := by
  rw [peekLast]
  by_cases hleft : k ≤ c.remaining
  · obtain ⟨item, hitem, hwrapped⟩ := h.exists_item hk hleft
    have hend : ¬c.pastEnd k = true := by
      rw [pastEnd_iff]
      omega
    rw [if_neg hend, hwrapped, hitem]
    rfl
  · have hshort : c.remaining < k := by omega
    rw [if_pos ((pastEnd_iff c k).mpr hshort), hlast, peek?_of_short hshort]
    rfl

/-! ## The promise -/

/-- What holds of a cursor that serves looks and moves, where `mark` is shown past the end. -/
structure Promise (find : Task → Cursor α → Except CursorError β × Cursor α) (mark : β)
    (c : Cursor α) : Prop where
  inside : -1 ≤ c.place ∧ c.place ≤ (c.items.length : Int) - 1
  /-- A look leaves the cursor where it is. -/
  looks : ∀ k ≥ 1, (find (.peek k) c).2 = c
  /-- Past the end a look shows the mark. -/
  marks : ∀ k ≥ 1, c.remaining < k → (find (.peek k) c).1 = .ok mark
  /-- A move fails exactly if fewer items are ahead. -/
  fails_iff : ∀ k ≥ 1, (∃ error, (find (.consume k) c).1 = .error error) ↔ c.remaining < k
  /-- After a failure, the cursor is where it was. -/
  stays : ∀ k ≥ 1, c.remaining < k →
    find (.consume k) c = (.error (.pastEnd c.location c.items.length), c)
  /-- Any other move goes to the place asked for, and finds what a look would have shown. -/
  moves : ∀ k ≥ 1, k ≤ c.remaining →
    find (.consume k) c = ((find (.peek k) c).1, ⟨c.items, c.place + k⟩)
  /-- Where one move can go, two moves can go as well. -/
  joins : ∀ i ≥ 1, ∀ j ≥ 1, ∀ item last, find (.consume (i + j)) c = (.ok item, last) →
    ∃ first middle, find (.consume i) c = (.ok first, middle) ∧
      find (.consume j) middle = (.ok item, last)

/-- A move by two distances goes as far as a move by one and a move by the other. -/
theorem Inside.advance_add (h : c.Inside) {i j : Int} (hi : 1 ≤ i) (hj : 1 ≤ j)
    (hleft : i + j ≤ c.remaining) :
    ∃ first middle, c.advance i = (.ok first, middle) ∧ middle.advance j = c.advance (i + j) := by
  obtain ⟨first, hfirst, _⟩ := h.exists_item hi (by omega)
  obtain ⟨item, hitem, _⟩ := h.exists_item (by omega : 1 ≤ i + j) hleft
  have hmove := h.advance_eq hi (by omega) hfirst
  have hmiddle : Inside ⟨c.items, c.place + i⟩ := by
    have hinside := h.advance hi
    rwa [hmove] at hinside
  have hplace : c.place + i + j = c.place + (i + j) := by omega
  have hpeek : (⟨c.items, c.place + i⟩ : Cursor α).peek? j = some item := by
    rw [peek?, hplace]
    exact hitem
  have hremaining : j ≤ (⟨c.items, c.place + i⟩ : Cursor α).remaining := by
    rw [remaining, location] at hleft ⊢
    dsimp only
    omega
  refine ⟨first, _, hmove, ?_⟩
  rw [hmiddle.advance_eq hj hremaining hpeek, h.advance_eq (by omega) hleft hitem, hplace]

/-- Moves that are moves of the cursor, and looks that show its items and then the mark, keep the
promise. -/
theorem Inside.promise (h : c.Inside)
    {find : Task → Cursor α → Except CursorError β × Cursor α} {mark : β} (shown : α → β)
    (hmove : ∀ c k, find (.consume k) c = ((c.advance k).1.map shown, (c.advance k).2))
    (hlook : ∀ k ≥ 1, find (.peek k) c = (.ok (((c.peek? k).map shown).getD mark), c)) :
    Promise find mark c where
  inside := h
  looks k hk := by rw [hlook k hk]
  marks k hk hshort := by
    rw [hlook k hk, peek?_of_short hshort]
    rfl
  fails_iff k hk := by
    rw [hmove]
    constructor
    · rintro ⟨error, herror⟩
      rcases Int.lt_or_le c.remaining k with hshort | hleft
      · exact hshort
      · obtain ⟨item, hitem, _⟩ := h.exists_item hk hleft
        rw [h.advance_eq hk hleft hitem] at herror
        cases herror
    · intro hshort
      rw [advance_of_short hshort]
      exact ⟨_, rfl⟩
  stays k _ hshort := by
    rw [hmove, advance_of_short hshort]
    rfl
  moves k hk hleft := by
    obtain ⟨item, hitem, _⟩ := h.exists_item hk hleft
    rw [hmove, h.advance_eq hk hleft hitem, hlook k hk, hitem]
    rfl
  joins i hi j hj item last hfound := by
    rw [hmove] at hfound
    by_cases hleft : i + j ≤ c.remaining
    · obtain ⟨first, middle, hfirst, hsecond⟩ := h.advance_add hi hj hleft
      refine ⟨shown first, middle, ?_, ?_⟩
      · rw [hmove, hfirst]
        rfl
      · rw [hmove, hsecond, hfound]
    · rw [advance_of_short (by omega)] at hfound
      cases hfound

/-! ## Tasks for places ahead -/

/-- The task is about a place ahead. -/
def Task.Ahead : Task → Prop
  | peek k | consume k => 1 ≤ k

def CharTask.Ahead : CharTask → Prop
  | find task => task.Ahead
  | pastEnd k => 1 ≤ k
  | location => True

/-- What each of the tasks keeps, all of them keep. -/
theorem after_keeps {τ ρ : Type} {serve : τ → Cursor α → ρ × Cursor α} {ahead : τ → Prop}
    (hstep : ∀ task, ahead task → ∀ c : Cursor α, c.Inside →
      (serve task c).2.Inside ∧ (serve task c).2.items = c.items)
    {tasks : List τ} (htasks : ∀ task ∈ tasks, ahead task) (hc : c.Inside) :
    (after serve tasks c).Inside ∧ (after serve tasks c).items = c.items := by
  induction tasks generalizing c with
  | nil => exact ⟨hc, rfl⟩
  | cons task rest ih =>
    obtain ⟨hinside, hitems⟩ := hstep task (htasks task List.mem_cons_self) c hc
    obtain ⟨hlast, hsame⟩ := ih (fun other hother =>
      htasks other (List.mem_cons_of_mem _ hother)) hinside
    exact ⟨hlast, hsame.trans hitems⟩

theorem findToken_keeps (task : Task) (htask : task.Ahead) (c : Cursor Token) (hc : c.Inside) :
    (findToken task c).2.Inside ∧ (findToken task c).2.items = c.items := by
  cases task with
  | peek k => exact ⟨hc, rfl⟩
  | consume k => exact ⟨hc.advance htask, items_advance c k⟩

theorem answerChar_keeps (task : CharTask) (htask : task.Ahead) (c : Cursor Char) (hc : c.Inside) :
    (answerChar task c).2.Inside ∧ (answerChar task c).2.items = c.items := by
  cases task with
  | find task =>
    cases task with
    | peek k => exact ⟨hc, rfl⟩
    | consume k => exact ⟨hc.advance htask, items_advance c k⟩
  | pastEnd k | location => exact ⟨hc, rfl⟩

theorem Inside.promise_findChar {c : Cursor Char} (h : c.Inside) : Promise findChar "" c := by
  refine h.promise String.singleton (fun _ _ => rfl) fun k _ => ?_
  rw [findChar]
  cases c.peek? k with
  | none => rfl
  | some found => rfl

theorem Inside.promise_findToken {c : Cursor Token} (h : c.Inside) {last : Token}
    (hlast : c.items.getLast? = some last) : Promise findToken last c := by
  refine h.promise id (fun c k => ?_) fun k hk => ?_
  · rw [findToken]
    cases hadvance : c.advance k with
    | mk result moved => cases result <;> rfl
  · rw [findToken, h.peekLast_eq hk hlast, Option.map_id]
    rfl

/-- A look at a character shows no empty text. -/
theorem findChar_peek_eq_empty_iff (c : Cursor Char) (k : Int) :
    (findChar (.peek k) c).1 = .ok "" ↔ c.peek? k = none := by
  rw [findChar, Except.ok.injEq]
  cases c.peek? k with
  | none => simp
  | some found => simp

end Passage.Cursor

namespace Passage

open Cursor

/-- Whatever was asked about places ahead, over the characters of a text or over its tokens, the
cursor keeps one and the same promise: it stands inside its sequence, fails to move exactly where it
would pass the end and stays there then, finds what it has shown, shows nothing but the mark past
the end, and two moves come to what one move by both distances comes to. Over characters the mark is
the empty text, which is never shown before the end, and the end can be asked for; over tokens it is
the end mark. -/
theorem cursors_keep_promise (text : String) :
    (∀ tasks : List CharTask, (∀ task ∈ tasks, task.Ahead) →
      let c := after answerChar tasks (start text.toList)
      c.items = text.toList ∧ Promise findChar "" c ∧
      (∀ k ≥ 1, ((∃ error, (findChar (.consume k) c).1 = .error error) ↔ c.pastEnd k = true) ∧
        ((∃ error, (findChar (.consume k) c).1 = .error error) ↔
          (findChar (.peek k) c).1 = .ok "")) ∧
      (∀ task, answerChar (.find task) c = (.found (findChar task c).1, (findChar task c).2)) ∧
      (∀ k, answerChar (.pastEnd k) c = (.truth (c.pastEnd k), c)) ∧
      answerChar .location c = (.place c.location, c)) ∧
    ∀ tokens, Token.listing text = .ok tokens → ∀ tasks : List Task, (∀ task ∈ tasks, task.Ahead) →
      let c := after findToken tasks (start tokens)
      c.items = tokens ∧ Promise findToken (Token.endOf text) c := by
  constructor
  · intro tasks htasks c
    obtain ⟨hinside, hitems⟩ := after_keeps answerChar_keeps htasks (inside_start text.toList)
    have hpromise : Promise findChar "" c := hinside.promise_findChar
    refine ⟨hitems, hpromise, fun k hk => ⟨?_, ?_⟩, fun _ => rfl, fun _ => rfl, rfl⟩
    · rw [hpromise.fails_iff k hk, pastEnd_iff]
    · rw [hpromise.fails_iff k hk, findChar_peek_eq_empty_iff]
      refine ⟨peek?_of_short, fun hnone => Int.not_le.mp fun hleft => ?_⟩
      obtain ⟨item, hitem, _⟩ := hinside.exists_item hk hleft
      rw [hnone] at hitem
      cases hitem
  · intro tokens htokens tasks htasks c
    obtain ⟨hinside, hitems⟩ := after_keeps findToken_keeps htasks (inside_start tokens)
    refine ⟨hitems, Inside.promise_findToken hinside ?_⟩
    rw [hitems]
    unfold Token.listing at htokens
    cases hscan : Token.scan text with
    | error error =>
      rw [hscan] at htokens
      cases htokens
    | ok found =>
      rw [hscan] at htokens
      cases htokens
      exact List.getLast?_concat

/-- A move that fails lies between moves that do not, and the last one ends on the last character;
over tokens the end mark is passed like any other one, and shown ever after. -/
theorem cursors_keep_promise_to_the_end :
    let chars := after answerChar [.find (.peek 4), .find (.consume 2), .find (.consume 2),
      .location, .find (.consume 1)] (start "a, ".toList)
    let tokens := after findToken [.consume 1, .consume 3,
      .consume 2] (start [⟨.name "a", 1⟩, ⟨.comma, 2⟩, ⟨.ending, 4⟩])
    chars.place = 2 ∧ (findChar (.peek 1) chars).1 = .ok "" ∧
      findChar (.consume 1) chars = (.error (.pastEnd 3 3), chars) ∧
      tokens.place = 2 ∧ (findToken (.peek 5) tokens).1 = .ok ⟨.ending, 4⟩ ∧
      findToken (.consume 1) tokens = (.error (.pastEnd 3 3), tokens) := by
  intro chars tokens
  obtain ⟨hchars, htokens⟩ := cursors_keep_promise "a, "
  obtain ⟨_, hpromise, _⟩ := hchars [.find (.peek 4), .find (.consume 2),
    .find (.consume 2), .location, .find (.consume 1)] (by simp [CharTask.Ahead, Task.Ahead])
  obtain ⟨_, hpromise'⟩ := htokens [⟨.name "a", 1⟩, ⟨.comma, 2⟩, ⟨.ending, 4⟩] rfl [.consume 1,
    .consume 3, .consume 2]
    (by simp [Task.Ahead])
  exact ⟨rfl, hpromise.marks 1 (by decide) (by decide), hpromise.stays 1 (by decide) (by decide),
    rfl, hpromise'.marks 5 (by decide) (by decide), hpromise'.stays 1 (by decide) (by decide)⟩

end Passage
