import Mathlib.Data.List.Nodup
import Mathlib.Logic.Relation
import Passage.Journey

/-!
# What a journey finds

A journey finds its goal exactly if exits that can be used lead there, and if it fails, it fails for
a region that such exits lead to. Its loop is given first as a relation that knows no bound
(`Completes`). A region may wait more than once, so the bound that is enough counts the exits of the
regions that are not done with (`pending`). The invariant (`Travelling`) says that all regions done
with or waiting are reached, and that what leads out of a region done with is done with or waiting.
-/
namespace Passage.Terrain

variable {terrain : Terrain} {start goal region destination : String} {rule : Value}
  {done queue : List String} {entries : List (String × Value)} {trip other : Trip}
    {e : JourneyError}

/-- The region has an exit with this destination and rule, which is not forbidden. -/
def Offers (terrain : Terrain) (region destination : String) (rule : Value) : Prop :=
  ∃ entries, terrain.exits region = .ok entries ∧ (destination, rule) ∈ entries ∧
    terrain.barred region destination = .ok false

/-- The region has an exit that can be used. -/
def Leads (terrain : Terrain) (region destination : String) : Prop :=
  ∃ rule, terrain.Offers region destination rule ∧ terrain.check rule = .ok true

/-- The first region is left and the other one reached along any number of exits. -/
abbrev Path (terrain : Terrain) : String → String → Prop := Relation.ReflTransGen terrain.Leads

/-- The errors for which a region can be to blame. -/
inductive Fails (terrain : Terrain) (region : String) : JourneyError → Prop
  | exits {e : JourneyError} : terrain.exits region = .error e → Fails terrain region e
  | barred {destination : String} {e : JourneyError} :
    terrain.barred region destination = .error e → Fails terrain region e
  | rule {destination : String} {rule : Value} {e : JourneyError} :
    terrain.Offers region destination rule → terrain.check rule = .error e → Fails terrain region e

/-- An exit stands in the table of a territory that has one. -/
theorem offers_iff : terrain.Offers region destination rule ↔
    (∃ rules, terrain.territories.get? region = some (.exits rules) ∧
      rules.get? destination = some rule) ∧ terrain.barred region destination = .ok false := by
  unfold Offers exits
  cases terrain.territories.get? region with
  | none => simp
  | some territory =>
    cases territory with
    | absent => simp [Territory.rules, Table.empty]
    | exitless shape | shapeless shape => simp
    | exits rules => simp [Territory.rules, Table.get?_eq_some_iff]

theorem exits_eq_error_iff : terrain.exits region = .error e ↔
    ∃ shape, terrain.territories.get? region = some (.shapeless shape) ∧
      e = .shapeless region shape ∨ terrain.territories.get? region = some (.exitless shape) ∧
      e = .exitless shape := by
  unfold exits
  cases terrain.territories.get? region with
  | none => simp
  | some territory =>
    cases territory with
    | absent | exits _ => simp
    | exitless shape | shapeless shape => simp [eq_comm]

/-! ## One region -/

/-- What can happen when the exits of a region are looked at, one after the other. -/
inductive Scan (terrain : Terrain) (region : String) (done : List String) :
    List (String × Value) → Except JourneyError (List String) → Prop
  | none : Scan terrain region done [] (.ok [])
  | skipped {destination : String} {rule : Value} {rest : List (String × Value)}
      {result : Except JourneyError (List String)} :
      destination ∈ done ∨ terrain.barred region destination = .ok true →
      Scan terrain region done rest result →
      Scan terrain region done ((destination, rule) :: rest) result
  | unclear {destination : String} {rule : Value} {rest : List (String × Value)}
      {e : JourneyError} :
      terrain.barred region destination = .error e →
      Scan terrain region done ((destination, rule) :: rest) (.error e)
  | usable {destination : String} {rule : Value} {rest : List (String × Value)}
      {found : List String} :
      destination ∉ done → terrain.barred region destination = .ok false →
      terrain.check rule = .ok true → Scan terrain region done rest (.ok found) →
      Scan terrain region done ((destination, rule) :: rest) (.ok (destination :: found))
  | shut {destination : String} {rule : Value} {rest : List (String × Value)}
      {found : List String} :
      terrain.check rule = .ok false → Scan terrain region done rest (.ok found) →
      Scan terrain region done ((destination, rule) :: rest) (.ok found)
  | faulty {destination : String} {rule : Value} {rest : List (String × Value)} {e : JourneyError} :
      terrain.barred region destination = .ok false → terrain.check rule = .error e →
      Scan terrain region done ((destination, rule) :: rest) (.error e)
  | faultyLater {destination : String} {rule : Value} {rest : List (String × Value)}
      {e : JourneyError} : Scan terrain region done rest (.error e) →
      Scan terrain region done ((destination, rule) :: rest) (.error e)

theorem scan_usable (terrain : Terrain) (region : String) (done : List String)
    (entries : List (String × Value)) :
    terrain.Scan region done entries (terrain.usable region done entries) := by
  induction entries with
  | nil => exact .none
  | cons entry rest ih =>
    obtain ⟨destination, rule⟩ := entry
    unfold usable
    by_cases hdone : destination ∈ done
    · rw [if_pos hdone]
      exact .skipped (.inl hdone) ih
    rw [if_neg hdone]
    cases hbarred : terrain.barred region destination with
    | error e => exact .unclear hbarred
    | ok barred =>
      cases barred with
      | true => exact .skipped (.inr hbarred) ih
      | false =>
        cases hcheck : terrain.check rule with
        | error e => exact .faulty hbarred hcheck
        | ok holds =>
          cases hrest : terrain.usable region done rest with
          | error e => exact .faultyLater (hrest ▸ ih)
          | ok found =>
            rw [hrest] at ih
            cases holds with
            | false => exact .shut hcheck ih
            | true => exact .usable hdone hbarred hcheck ih

/-- The destinations found are those of the exits that can be used, unless they are done with. -/
theorem Scan.mem_iff {result : Except JourneyError (List String)} {found : List String}
    (h : terrain.Scan region done entries result) (hresult : result = .ok found)
    (destination : String) :
    destination ∈ found ↔ destination ∉ done ∧ ∃ rule, (destination, rule) ∈ entries ∧
      terrain.barred region destination = .ok false ∧ terrain.check rule = .ok true := by
  -- An exit at the front that is not found adds no witness to those behind it.
  have hbehind {other : String} {otherRule : Value} {rest : List (String × Value)}
      (hother : ¬(other ∉ done ∧ terrain.barred region other = .ok false ∧
        terrain.check otherRule = .ok true)) :
      (destination ∉ done ∧ ∃ rule, (destination, rule) ∈ (other, otherRule) :: rest ∧
        terrain.barred region destination = .ok false ∧ terrain.check rule = .ok true) ↔
      destination ∉ done ∧ ∃ rule, (destination, rule) ∈ rest ∧
        terrain.barred region destination = .ok false ∧ terrain.check rule = .ok true := by
    refine and_congr_right fun hnew => exists_congr fun rule => and_congr_left fun husable => ?_
    rw [List.mem_cons, or_iff_right]
    intro heq
    cases heq
    exact hother ⟨hnew, husable⟩
  induction h generalizing found with
  | none =>
    cases hresult
    simp
  | skipped hskipped _ ih =>
    refine (ih hresult).trans (hbehind ?_).symm
    intro ⟨hnew, hallowed, _⟩
    simp [hnew, hallowed] at hskipped
  | @usable other otherRule rest _ hnew hallowed hcheck _ ih =>
    cases hresult
    refine List.mem_cons.trans ((or_congr_right (ih rfl)).trans ?_)
    constructor
    · intro hor
      rcases hor with rfl | ⟨hnew', rule, hmem, husable⟩
      · exact ⟨hnew, otherRule, List.mem_cons_self, hallowed, hcheck⟩
      · exact ⟨hnew', rule, List.mem_cons_of_mem _ hmem, husable⟩
    · intro ⟨hnew', rule, hmem, husable⟩
      rcases List.mem_cons.mp hmem with heq | hmem
      · cases heq
        exact .inl rfl
      · exact .inr ⟨hnew', rule, hmem, husable⟩
  | shut hcheck _ ih =>
    refine (ih hresult).trans (hbehind ?_).symm
    intro ⟨_, _, hholds⟩
    rw [hcheck] at hholds
    cases hholds
  | unclear _ | faulty _ _ | faultyLater _ _ => cases hresult

theorem Scan.length_le {result : Except JourneyError (List String)} {found : List String}
    (h : terrain.Scan region done entries result) (hresult : result = .ok found) :
    found.length ≤ entries.length := by
  induction h generalizing found with
  | none =>
    cases hresult
    exact Nat.le_refl 0
  | skipped _ _ ih | shut _ _ ih => exact Nat.le_succ_of_le (ih hresult)
  | usable _ _ _ _ ih =>
    cases hresult
    exact Nat.succ_le_succ (ih rfl)
  | unclear _ | faulty _ _ | faultyLater _ _ => cases hresult

/-- An error is about what is forbidden, or about the rule of an exit that is not. -/
theorem Scan.error {result : Except JourneyError (List String)} {e : JourneyError}
    (h : terrain.Scan region done entries result) (hresult : result = .error e) :
    ∃ entry ∈ entries, terrain.barred region entry.1 = .error e ∨
      terrain.barred region entry.1 = .ok false ∧ terrain.check entry.2 = .error e := by
  induction h with
  | none | usable _ _ _ _ _ | shut _ _ _ => cases hresult
  | skipped _ _ ih | faultyLater _ ih =>
    obtain ⟨entry, hmem, hfails⟩ := ih hresult
    exact ⟨entry, List.mem_cons_of_mem _ hmem, hfails⟩
  | unclear hbarred =>
    cases hresult
    exact ⟨_, List.mem_cons_self, .inl hbarred⟩
  | faulty hallowed hcheck =>
    cases hresult
    exact ⟨_, List.mem_cons_self, .inr ⟨hallowed, hcheck⟩⟩

/-- What comes of a region: the destinations to which it leads, unless they are done with, or an
error for which it is to blame. -/
theorem explore_spec (terrain : Terrain) (region : String) (done : List String) :
    match terrain.exits region >>= terrain.usable region done with
    | .ok found => ∀ destination, destination ∈ found ↔
        destination ∉ done ∧ terrain.Leads region destination
    | .error e => terrain.Fails region e := by
  cases hexits : terrain.exits region with
  | error e => exact .exits hexits
  | ok entries =>
    show match terrain.usable region done entries with
      | .ok found => _
      | .error e => _
    have hscan := scan_usable terrain region done entries
    have hoffers {destination : String} {rule : Value} : terrain.Offers region destination rule ↔
        (destination, rule) ∈ entries ∧ terrain.barred region destination = .ok false := by
      constructor
      · intro ⟨entries, hentries, h⟩
        rw [hexits] at hentries
        cases hentries
        exact h
      · intro h
        exact ⟨entries, hexits, h⟩
    cases husable : terrain.usable region done entries with
    | error e =>
      obtain ⟨entry, hmem, hbarred | ⟨hallowed, hcheck⟩⟩ := hscan.error husable
      · exact .barred hbarred
      · exact .rule (hoffers.mpr ⟨hmem, hallowed⟩) hcheck
    | ok found =>
      intro destination
      rw [hscan.mem_iff husable]
      simp only [Leads, hoffers, and_assoc]

/-! ## The loop without a bound -/

/-- The loop of a journey comes to its end, with the regions done with and those waiting at its
beginning. -/
inductive Completes (terrain : Terrain) (goal : String) : List String → List String → Trip → Prop
  | lost {done : List String} : Completes terrain goal done [] ⟨done, .ok false⟩
  | arrived {done queue : List String} :
    Completes terrain goal done (goal :: queue) ⟨done, .ok true⟩
  | again {region : String} {done queue : List String} {trip : Trip} :
    region ≠ goal → region ∈ done →
      Completes terrain goal done queue trip → Completes terrain goal done (region :: queue) trip
  | stopped {region : String} {done queue : List String} {e : JourneyError} : region ≠ goal →
      region ∉ done → terrain.exits region >>= terrain.usable region done = .error e →
      Completes terrain goal done (region :: queue) ⟨region :: done, .error e⟩
  | explored {region : String} {done queue found : List String} {trip : Trip} : region ≠ goal →
      region ∉ done → terrain.exits region >>= terrain.usable region done = .ok found →
      Completes terrain goal (region :: done) (queue ++ found) trip →
      Completes terrain goal done (region :: queue) trip

/-- A loop has one end at most. -/
theorem Completes.unique (h : terrain.Completes goal done queue trip)
    (hother : terrain.Completes goal done queue other) : other = trip := by
  induction h with
  | lost => cases hother; rfl
  | arrived =>
    cases hother with
    | arrived => rfl
    | again hne | stopped hne | explored hne => exact absurd rfl hne
  | again hne hdone _ ih =>
    cases hother with
    | arrived => exact absurd rfl hne
    | again _ _ hrest => exact ih hrest
    | stopped _ hnew | explored _ hnew => exact absurd hdone hnew
  | stopped hne hnew hfails =>
    cases hother with
    | arrived => exact absurd rfl hne
    | again _ hdone => exact absurd hdone hnew
    | stopped _ _ hfails' => rw [hfails] at hfails'; cases hfails'; rfl
    | explored _ _ hfound => rw [hfails] at hfound; cases hfound
  | explored hne hnew hfound _ ih =>
    cases hother with
    | arrived => exact absurd rfl hne
    | again _ hdone => exact absurd hdone hnew
    | stopped _ _ hfails => rw [hfound] at hfails; cases hfails
    | explored _ _ hfound' hrest =>
      rw [hfound] at hfound'
      cases hfound'
      exact ih hrest

/-- How many exits the regions that are not done with have in all. -/
def pending (done : List String) : List (String × Territory) → Nat
  | [] => 0
  | (region, territory) :: rest =>
    (if region ∈ done then 0 else territory.rules.entries.length) + pending done rest

theorem pending_nil (territories : List (String × Territory)) :
    pending [] territories = (territories.flatMap fun entry => entry.2.rules.entries).length := by
  induction territories with
  | nil => rfl
  | cons entry rest ih => simp [pending, ih]

/-- At the start, the visits pay for the region that waits and for all exits. -/
theorem pending_start (terrain : Terrain) :
    1 + pending [] terrain.territories.entries = terrain.visits := by
  rw [pending_nil, visits, Nat.add_comm]

theorem pending_cons_le (region : String) (done : List String)
    (territories : List (String × Territory)) :
    pending (region :: done) territories ≤ pending done territories := by
  induction territories with
  | nil => exact Nat.le_refl 0
  | cons entry rest ih =>
    obtain ⟨name, territory⟩ := entry
    refine Nat.add_le_add ?_ ih
    by_cases hname : name ∈ done
    · simp [hname]
    · rw [if_neg hname]
      split
      · exact Nat.zero_le _
      · exact Nat.le_refl _

/-- A region that gets done with takes its exits out of the account. -/
theorem pending_done {territories : List (String × Territory)} {territory : Territory}
    (h : Table.find region territories = some territory) (hnew : region ∉ done) :
    territory.rules.entries.length + pending (region :: done) territories ≤
      pending done territories := by
  induction territories with
  | nil => cases h
  | cons entry rest ih =>
    obtain ⟨name, first⟩ := entry
    unfold pending
    by_cases hname : name = region
    · subst hname
      simp only [Table.find, if_true, Option.some.injEq] at h
      subst h
      rw [if_pos List.mem_cons_self, if_neg hnew, Nat.zero_add]
      exact Nat.add_le_add_left (pending_cons_le name done rest) _
    · simp only [Table.find, hname, if_false] at h
      have hrest := ih h
      simp only [List.mem_cons, hname, false_or]
      omega

theorem length_explore_le {found : List String}
    (h : terrain.exits region >>= terrain.usable region done = .ok found) (hnew : region ∉ done) :
    found.length + pending (region :: done) terrain.territories.entries ≤
      pending done terrain.territories.entries := by
  cases hexits : terrain.exits region with
  | error e => rw [hexits] at h; cases h
  | ok entries =>
    rw [hexits] at h
    have hle := (scan_usable terrain region done entries).length_le h
    unfold exits at hexits
    cases hterritory : terrain.territories.get? region with
    | none =>
      rw [hterritory] at hexits
      cases hexits
      have hrest := pending_cons_le region done terrain.territories.entries
      simp only [List.length_nil] at hle
      omega
    | some territory =>
      have hdone := pending_done hterritory hnew
      rw [hterritory] at hexits
      cases territory with
      | exitless shape | shapeless shape => cases hexits
      | absent | exits rules =>
        cases hexits
        omega

/-- As many visits as there can be regions waiting are enough. -/
theorem completes_travel {visits : Nat}
    (hvisits : queue.length + pending done terrain.territories.entries ≤ visits) :
    terrain.Completes goal done queue (terrain.travel goal visits done queue) := by
  -- What a visit finds is paid for by the exits that are not pending any more.
  induction visits generalizing done queue with
  | zero =>
    have hempty : queue = [] := List.eq_nil_of_length_eq_zero (by omega)
    subst hempty
    exact .lost
  | succ visits ih =>
    cases queue with
    | nil => exact .lost
    | cons region queue =>
      rw [List.length_cons] at hvisits
      unfold travel
      split
      · rename_i hgoal
        subst hgoal
        exact .arrived
      · rename_i hgoal
        split
        · rename_i hdone
          exact .again hgoal hdone (ih (by omega))
        · rename_i hnew
          split
          · rename_i e hfails
            exact .stopped hgoal hnew hfails
          · rename_i found hfound
            have hle := length_explore_le hfound hnew
            refine .explored hgoal hnew hfound (ih ?_)
            rw [List.length_append]
            omega

theorem completes_trip (terrain : Terrain) (start goal : String) :
    terrain.Completes goal [] [start] (terrain.trip start goal) :=
  completes_travel (Nat.le_of_eq terrain.pending_start)

/-! ## What a journey tells -/

/-- A journey under way. -/
structure Travelling (terrain : Terrain) (start goal : String)
    (done queue : List String) : Prop where
  once : done.Nodup
  begun : start ∈ done ++ queue
  sound : ∀ region ∈ done ++ queue, terrain.Path start region
  left : ∀ region ∈ done, ∀ destination, terrain.Leads region destination →
    destination ∈ done ++ queue
  ahead : goal ∉ done

theorem travelling_start (terrain : Terrain) (start goal : String) :
    terrain.Travelling start goal [] [start] where
  once := .nil
  begun := List.mem_singleton_self start
  sound := by
    intro region hregion
    rw [List.mem_singleton.mp hregion]
  left := by simp
  ahead := List.not_mem_nil

/-- A region that waits though it is done with can be left out. -/
theorem Travelling.again (h : terrain.Travelling start goal done (region :: queue))
    (hdone : region ∈ done) : terrain.Travelling start goal done queue := by
  have hmem (other : String) : other ∈ done ++ region :: queue ↔ other ∈ done ++ queue := by
    simp only [List.mem_append, List.mem_cons]
    constructor
    · rintro (hother | rfl | hother)
      · exact .inl hother
      · exact .inl hdone
      · exact .inr hother
    · exact Or.imp_right .inr
  exact ⟨h.once, (hmem start).mp h.begun, fun other hother =>
    h.sound other ((hmem other).mpr hother),
    fun other hother destination hleads =>
      (hmem destination).mp (h.left other hother destination hleads),
    h.ahead⟩

/-- The region in front is done with, and what it leads to waits behind the others. -/
theorem Travelling.explored (h : terrain.Travelling start goal done (region :: queue))
    (hnew : region ∉ done) (hgoal : region ≠ goal) {found : List String}
    (hfound : ∀ destination, destination ∈ found ↔
      destination ∉ done ∧ terrain.Leads region destination) :
    terrain.Travelling start goal (region :: done) (queue ++ found) := by
  have hregion : region ∈ done ++ region :: queue := List.mem_append_right _ List.mem_cons_self
  have hold {other : String} (hother : other ∈ done ++ region :: queue) :
      other ∈ region :: done ++ (queue ++ found) := by
    simp only [List.mem_append, List.mem_cons] at hother ⊢
    rcases hother with hother | hother | hother
    · exact .inl (.inr hother)
    · exact .inl (.inl hother)
    · exact .inr (.inl hother)
  constructor
  · exact List.nodup_cons.mpr ⟨hnew, h.once⟩
  · exact hold h.begun
  · intro other hother
    by_cases hin : other ∈ done ++ region :: queue
    · exact h.sound other hin
    · have hother : other ∈ found := by
        simp only [List.mem_append, List.mem_cons, not_or] at hin hother
        rcases hother with (rfl | hother) | hother | hother
        · exact absurd rfl hin.2.1
        · exact absurd hother hin.1
        · exact absurd hother hin.2.2
        · exact hother
      exact (h.sound region hregion).tail ((hfound other).mp hother).2
  · intro other hother destination hleads
    rcases List.mem_cons.mp hother with rfl | hother
    · by_cases hdone : destination ∈ done
      · exact hold (List.mem_append_left _ hdone)
      · exact List.mem_append_right _
          (List.mem_append_right _ ((hfound destination).mpr ⟨hdone, hleads⟩))
    · exact hold (h.left other hother destination hleads)
  · rw [List.mem_cons, not_or]
    exact ⟨Ne.symm hgoal, h.ahead⟩

/-- With nothing waiting, the goal is out of reach. -/
theorem Travelling.not_path (h : terrain.Travelling start goal done []) :
    ¬terrain.Path start goal := by
  have hall {region : String} (hpath : terrain.Path start region) : region ∈ done ++ [] := by
    induction hpath with
    | refl => exact h.begun
    | tail _ hlast ih => exact h.left _ (List.append_nil done ▸ ih) _ hlast
  intro hpath
  exact h.ahead (List.append_nil done ▸ hall hpath)

/-- What a trip has to say about the way from the start to the goal. -/
def Tells (terrain : Terrain) (start goal : String) (trip : Trip) : Prop :=
  trip.scanned.Nodup ∧
    match trip.result with
    | .ok reached => reached = true ↔ terrain.Path start goal
    | .error e => ∃ region, terrain.Path start region ∧ terrain.Fails region e

/-- A loop that completes has kept the invariant to its end. -/
theorem Travelling.run (h : terrain.Travelling start goal done queue)
    (hcompletes : terrain.Completes goal done queue trip) : terrain.Tells start goal trip := by
  induction hcompletes with
  | lost => exact ⟨h.once, by simpa using h.not_path⟩
  | arrived =>
    exact ⟨h.once, by simpa using h.sound goal (List.mem_append_right _ List.mem_cons_self)⟩
  | again _ hdone _ ih => exact ih (h.again hdone)
  | @stopped region done _ e _ hnew hfails =>
    have hregion := h.sound region (List.mem_append_right _ List.mem_cons_self)
    have hexplore := explore_spec terrain region done
    rw [hfails] at hexplore
    exact ⟨List.nodup_cons.mpr ⟨hnew, h.once⟩, region, hregion, hexplore⟩
  | @explored region done _ found _ hgoal hnew hfound _ ih =>
    have hexplore := explore_spec terrain region done
    rw [hfound] at hexplore
    exact ih (h.explored hnew hgoal hexplore)

theorem tells_trip (terrain : Terrain) (start goal : String) :
    terrain.Tells start goal (terrain.trip start goal) :=
  (travelling_start terrain start goal).run (completes_trip terrain start goal)

theorem path_of_canReach (h : terrain.canReach start goal = .ok true) :
    terrain.Path start goal := by
  have htells := (tells_trip terrain start goal).2
  rw [show (terrain.trip start goal).result = .ok true from h] at htells
  exact htells.mp rfl

theorem canReach_of_seen {reached : Bool}
    (h : (terrain.canReach start goal).toOption = some reached) :
    terrain.canReach start goal = .ok reached := by
  cases hreach : terrain.canReach start goal with
  | error e => rw [hreach] at h; cases h
  | ok found => rw [hreach] at h; cases h; rfl

/-- Where no region that is reached is to blame for an error, a journey tells whether a path leads
to its goal. -/
theorem canReach_eq_ok (hsound : ∀ region e, terrain.Path start region → ¬terrain.Fails region e) :
    ∃ reached, terrain.canReach start goal = .ok reached ∧
      (reached = true ↔ terrain.Path start goal) := by
  have htells := (tells_trip terrain start goal).2
  unfold canReach
  cases hresult : (terrain.trip start goal).result with
  | ok reached =>
    rw [hresult] at htells
    exact ⟨reached, rfl, htells⟩
  | error e =>
    rw [hresult] at htells
    obtain ⟨region, hpath, hfails⟩ := htells
    exact absurd hfails (hsound region e hpath)

end Passage.Terrain
