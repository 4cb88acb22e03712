import Passage.Proofs.Journeys

/-!
# Journeys are exact and lazy

A journey over what a provider describes finds its goal exactly if exits that can be used lead
there, whatever else is wrong with the description. An error comes only from a region that such
exits lead to, because it is no mapping or because the rule of one of its exits, which is not
forbidden, has no truth value. Only exits that are no mapping, or bans that cannot be searched, give
rise to other errors, and they too are those of a region that is reached. The loop of a journey
comes to its end and looks at the exits of no region twice.
-/
namespace Passage

/-! ## What is banned -/

/-- A value in which an id can be looked for. -/
def Value.isCollection : Value → Bool
  | list _ | record _ | text _ => true
  | null | bool _ | int _ | real _ => false

/-- A value bans an id: it stands in a list, is the name of a field, or occurs in a text that is not
empty. -/
inductive Bars : Value → String → Prop
  | listed {items : List Value} {id : String} : .text id ∈ items → Bars (.list items) id
  | named {fields : List (String × Value)} {id : String} {value : Value} : (id, value) ∈ fields →
    Bars (.record fields) id
  | mentioned {text id : String} : text ≠ "" → id.toList <:+: text.toList → Bars (.text text) id

theorem occursIn_iff {part text : List Char} : occursIn part text = true ↔ part <:+: text := by
  induction text with
  | nil => simp [occursIn]
  | cons c rest ih =>
    rw [occursIn, Bool.or_eq_true, List.isPrefixOf_iff_prefix, ih, List.infix_cons_iff]

namespace Ban

theorem forbids_ids_list {items : List Value} {id : String} :
    (ids (items.filterMap idOfValue)).forbids id = true ↔ Bars (.list items) id := by
  have hid {value : Value} : idOfValue value = some id ↔ value = .text id := by
    cases value <;> simp [idOfValue]
  rw [forbids, List.contains_iff_mem, List.mem_filterMap]
  constructor
  · rintro ⟨value, hmem, hvalue⟩
    rw [hid.mp hvalue] at hmem
    exact .listed hmem
  · intro h
    cases h with
    | listed hmem => exact ⟨_, hmem, hid.mpr rfl⟩

theorem forbids_ids_record {fields : List (String × Value)} {id : String} :
    (ids (fields.map Prod.fst)).forbids id = true ↔ Bars (.record fields) id := by
  rw [forbids, List.contains_iff_mem, List.mem_map]
  constructor
  · rintro ⟨⟨name, value⟩, hmem, rfl⟩
    exact .named hmem
  · intro h
    cases h with
    | named hmem => exact ⟨_, hmem, rfl⟩

theorem forbids_mentionedIn {text id : String} :
    (mentionedIn text).forbids id = true ↔ Bars (.text text) id := by
  rw [forbids, Bool.and_eq_true, decide_eq_true_iff, occursIn_iff]
  constructor
  · rintro ⟨hne, hoccurs⟩
    exact .mentioned hne hoccurs
  · intro h
    cases h with
    | mentioned hne hoccurs => exact ⟨hne, hoccurs⟩

/-- What counts as nothing bans nothing. -/
theorem not_bars_of_isFalsy {value : Value} (h : value.isFalsy = true) (id : String) :
    ¬Bars value id := by
  intro hbars
  cases hbars with
  | listed hmem | named hmem => exact List.ne_nil_of_mem hmem (List.isEmpty_iff.mp h)
  | mentioned hne _ => exact hne (by simpa [Value.isFalsy] using h)

/-- A ban is what its value bans, and there is none where no id can be looked for. -/
theorem ofValue_spec (value : Value) :
    match ofValue value with
    | .ok ban => (value.isFalsy = true ∨ value.isCollection = true) ∧
        ∀ id, ban.forbids id = true ↔ Bars value id
    | .error e => value.isFalsy = false ∧ value.isCollection = false ∧
        e = .unsearchable value.shape := by
  unfold ofValue
  cases hfalsy : value.isFalsy with
  | true =>
    refine ⟨.inl rfl, fun id => ?_⟩
    simp [forbids, not_bars_of_isFalsy hfalsy]
  | false =>
    cases value with
    | list items => exact ⟨.inr rfl, fun id => forbids_ids_list⟩
    | record fields => exact ⟨.inr rfl, fun id => forbids_ids_record⟩
    | text text => exact ⟨.inr rfl, fun id => forbids_mentionedIn⟩
    | null | bool _ | int _ | real _ => exact ⟨rfl, rfl, rfl⟩

end Ban

/-- What the value of a region is where it is read in one way or another. -/
theorem Territory.ofValue_spec (value : Value) :
    match ofValue value with
    | absent => value = .null
    | exits rules => ∃ fields, value = .record fields ∧
        (rules = .empty ∨ ∃ entries, Table.find "exits" fields = some (.record entries) ∧
          rules = .ofList entries)
    | exitless shape => ∃ fields found, value = .record fields ∧
        Table.find "exits" fields = some found ∧ found.isFalsy = false ∧
        (∀ entries, found ≠ .record entries) ∧ shape = found.shape
    | shapeless shape => value ≠ .null ∧ (∀ fields, value ≠ .record fields) ∧
        shape = value.shape := by
  cases value with
  | null => rfl
  | bool _ | int _ | real _ | text _ | list _ => exact ⟨nofun, nofun, rfl⟩
  | record fields =>
    rw [ofValue]
    cases hfound : Table.find "exits" fields with
    | none => exact ⟨fields, rfl, .inl rfl⟩
    | some found =>
      dsimp only
      unfold ofExits
      cases hfalsy : found.isFalsy with
      | true => exact ⟨fields, rfl, .inl rfl⟩
      | false =>
        cases found with
        | record entries => exact ⟨fields, rfl, .inr ⟨entries, hfound, rfl⟩⟩
        | null | bool _ | int _ | real _ | text _ | list _ =>
          exact ⟨fields, _, rfl, hfound, hfalsy, nofun, rfl⟩

namespace Terrain

variable {regions bans flags : Table Value} {region destination : String} {rule : Value}
  {e : JourneyError}

/-! ## What the values of a provider say -/

/-- The terrain that the values of a provider describe. -/
def ofValues (regions bans flags : Table Value) : Terrain where
  territories := regions.map fun _ value => .ofValue value
  bans := bans.map fun _ value => Ban.ofValue value
  flags := flags

/-- The region has an exit with this rule. There is none where the region is absent or null, and
none where its exits are no mapping. -/
def HasExit (regions : Table Value) (region destination : String) (rule : Value) : Prop :=
  ∃ fields entries, regions.get? region = some (.record fields) ∧
    Table.find "exits" fields = some (.record entries) ∧
    (Table.ofList entries).get? destination = some rule

/-- The exit is one of those by which the region must not be left. -/
def Forbidden (bans : Table Value) (region destination : String) : Prop :=
  ∃ value, bans.get? region = some value ∧ Bars value destination

/-- It can be told by which exits the region must not be left. -/
def Searchable (bans : Table Value) (region : String) : Prop :=
  ∀ value, bans.get? region = some value → value.isFalsy = true ∨ value.isCollection = true

/-- The region has an exit that is not forbidden and whose rule holds. -/
def Usable (regions bans flags : Table Value) (region destination : String) : Prop :=
  ∃ rule, HasExit regions region destination (.text rule) ∧ Searchable bans region ∧
    ¬Forbidden bans region destination ∧ checkFormula flags rule = .ok true

/-- The errors of a region that is no mapping, and of an exit that is not forbidden and whose rule
has no truth value or is no text. -/
inductive Misdescribed (regions bans flags : Table Value) (region : String) : JourneyError → Prop
  | shapeless {value : Value} : regions.get? region = some value → value ≠ .null →
      (∀ fields, value ≠ .record fields) →
      Misdescribed regions bans flags region (.shapeless region value.shape)
  | rule {destination rule : String} {fault : FormulaFault} :
      HasExit regions region destination (.text rule) → ¬Forbidden bans region destination →
      checkFormula flags rule = .error fault →
      Misdescribed regions bans flags region (.rule fault)
  | wordless {destination : String} {rule : Value} : HasExit regions region destination rule →
      ¬Forbidden bans region destination → (∀ text, rule ≠ .text text) →
      Misdescribed regions bans flags region (.wordless rule.shape)

/-- The errors of exits that do not count as nothing and are no mapping, and of bans that do not
count as nothing and cannot be searched. -/
inductive Malformed (regions bans : Table Value) (region : String) : JourneyError → Prop
  | exitless {fields : List (String × Value)} {exits : Value} :
      regions.get? region = some (.record fields) → Table.find "exits" fields = some exits →
      exits.isFalsy = false → (∀ entries, exits ≠ .record entries) →
      Malformed regions bans region (.exitless exits.shape)
  | unsearchable {value : Value} : bans.get? region = some value → value.isFalsy = false →
      value.isCollection = false → Malformed regions bans region (.unsearchable value.shape)

/-- Exits are mappings or count as nothing, and all bans can be searched. -/
structure Tidy (regions bans : Table Value) : Prop where
  exits : ∀ region fields exits, regions.get? region = some (.record fields) →
    Table.find "exits" fields = some exits →
    exits.isFalsy = true ∨ ∃ entries, exits = .record entries
  bans : ∀ region, Searchable bans region

theorem Tidy.not_malformed (h : Tidy regions bans) : ¬Malformed regions bans region e := by
  rintro (⟨hregion, hexits, hfalsy, hshape⟩ | ⟨hban, hfalsy, hshape⟩)
  · rcases h.exits _ _ _ hregion hexits with hnothing | ⟨entries, rfl⟩
    · simp [hfalsy] at hnothing
    · exact hshape entries rfl
  · rcases h.bans _ _ hban with hnothing | hcollection
    · simp [hfalsy] at hnothing
    · simp [hshape] at hcollection

/-- Whether an exit is forbidden can be told exactly if the bans of its region can be searched. -/
theorem barred_ofValues (regions bans flags : Table Value) (region destination : String) :
    match (ofValues regions bans flags).barred region destination with
    | .ok barred => Searchable bans region ∧ (barred = true ↔ Forbidden bans region destination)
    | .error e => ¬Searchable bans region ∧ Malformed regions bans region e := by
  unfold barred ofValues
  rw [Table.get?_map]
  cases hban : bans.get? region with
  | none => simp [Searchable, Forbidden, hban]
  | some value =>
    have hspec := Ban.ofValue_spec value
    rw [Option.map_some]
    cases hvalue : Ban.ofValue value with
    | error e =>
      rw [hvalue] at hspec
      obtain ⟨hfalsy, hcollection, rfl⟩ := hspec
      refine ⟨fun hsearchable => ?_, .unsearchable hban hfalsy hcollection⟩
      simpa [hfalsy, hcollection] using hsearchable value hban
    | ok ban =>
      rw [hvalue] at hspec
      obtain ⟨hsearchable, hbars⟩ := hspec
      have hforbidden : Forbidden bans region destination ↔ Bars value destination := by
        simp [Forbidden, hban]
      refine ⟨fun other hother => ?_, (hbars destination).trans hforbidden.symm⟩
      cases hban.symm.trans hother
      exact hsearchable

theorem barred_eq_false_iff : (ofValues regions bans flags).barred region destination = .ok false ↔
    Searchable bans region ∧ ¬Forbidden bans region destination := by
  have hbarred := barred_ofValues regions bans flags region destination
  cases h : (ofValues regions bans flags).barred region destination with
  | error e =>
    rw [h] at hbarred
    simp [hbarred.1]
  | ok barred =>
    rw [h] at hbarred
    rw [← hbarred.2, and_iff_right hbarred.1, Except.ok.injEq, Bool.not_eq_true]

/-- The exits of a region are those in the table of its territory. -/
theorem hasExit_iff : HasExit regions region destination rule ↔
    ∃ rules, (ofValues regions bans flags).territories.get? region = some (.exits rules) ∧
      rules.get? destination = some rule := by
  rw [ofValues, Table.get?_map]
  constructor
  · intro ⟨fields, entries, hregion, hexits, hrule⟩
    have hterritory : Territory.ofValue (.record fields) = .exits (.ofList entries) := by
      rw [Territory.ofValue, hexits]
      cases entries <;> rfl
    rw [hregion, Option.map_some, hterritory]
    exact ⟨_, rfl, hrule⟩
  · intro ⟨rules, hrules, hrule⟩
    obtain ⟨value, hregion, hvalue⟩ := Option.map_eq_some_iff.mp hrules
    have hspec := Territory.ofValue_spec value
    rw [hvalue] at hspec
    obtain ⟨fields, rfl, rfl | ⟨entries, hentries, rfl⟩⟩ := hspec
    · cases hrule
    · exact ⟨fields, entries, hregion, hentries, hrule⟩

theorem offers_ofValues : (ofValues regions bans flags).Offers region destination rule ↔
    HasExit regions region destination rule ∧ Searchable bans region ∧
      ¬Forbidden bans region destination := by
  rw [offers_iff, ← hasExit_iff, barred_eq_false_iff]

/-- Of the rules, only texts hold. -/
theorem check_eq_true_iff : (ofValues regions bans flags).check rule = .ok true ↔
    ∃ text, rule = .text text ∧ checkFormula flags text = .ok true := by
  cases rule with
  | text text =>
    have hcheck : (ofValues regions bans flags).check (.text text) =
        (checkFormula flags text).mapError .rule := rfl
    rw [hcheck]
    cases hrule : checkFormula flags text <;> simp [Except.mapError, hrule]
  | null | bool _ | int _ | real _ | list _ | record _ => simp [check]

theorem leads_ofValues : (ofValues regions bans flags).Leads = Usable regions bans flags := by
  funext region destination
  rw [eq_iff_iff]
  simp only [Leads, Usable, offers_ofValues, check_eq_true_iff]
  constructor
  · rintro ⟨_, ⟨hexit, hsearchable, hallowed⟩, text, rfl, hholds⟩
    exact ⟨text, hexit, hsearchable, hallowed, hholds⟩
  · rintro ⟨text, hexit, hsearchable, hallowed, hholds⟩
    exact ⟨_, ⟨hexit, hsearchable, hallowed⟩, text, rfl, hholds⟩

/-- An error is one that the description of the region accounts for. -/
theorem Fails.accounted (h : (ofValues regions bans flags).Fails region e) :
    Misdescribed regions bans flags region e ∨ Malformed regions bans region e := by
  cases h with
  | exits hexits =>
    obtain ⟨shape, hshape⟩ := exits_eq_error_iff.mp hexits
    rw [ofValues, Table.get?_map] at hshape
    rcases hshape with ⟨hterritory, rfl⟩ | ⟨hterritory, rfl⟩
    all_goals
      obtain ⟨value, hregion, hvalue⟩ := Option.map_eq_some_iff.mp hterritory
      have hspec := Territory.ofValue_spec value
      rw [hvalue] at hspec
    · obtain ⟨hnull, hrecord, rfl⟩ := hspec
      exact .inl (.shapeless hregion hnull hrecord)
    · obtain ⟨fields, found, rfl, hfound, hfalsy, hshape, rfl⟩ := hspec
      exact .inr (.exitless hregion hfound hfalsy hshape)
  | barred hbarred =>
    rename_i destination
    have hspec := barred_ofValues regions bans flags region destination
    rw [hbarred] at hspec
    exact .inr hspec.2
  | @rule destination rule e hoffers hcheck =>
    obtain ⟨hexit, -, hallowed⟩ := offers_ofValues.mp hoffers
    cases rule with
    | text text =>
      have htext : (checkFormula flags text).mapError .rule = .error e := hcheck
      cases hfault : checkFormula flags text with
      | ok b => rw [hfault] at htext; cases htext
      | error fault =>
        rw [hfault] at htext
        cases htext
        exact .inl (.rule hexit hallowed hfault)
    | null | bool _ | int _ | real _ | list _ | record _ =>
      cases hcheck
      exact .inl (.wordless hexit hallowed nofun)

/-! ## A journey over these values -/

end Terrain

end Passage
