import MarkdownVault.Proofs.Result
import MarkdownVault.Proofs.Yaml.Document

/-!
# Bases that are written and read

Writing a base leaves out what is null. What is read back is the base without the unknown fields
that are null, and writing that gives the same text once more. One spelling stands in the way: a
view whose `groupBy` is null may hold a `group_by` beside it, which takes its place once the null
is left out.
-/

namespace MarkdownVault

/-! ## Fields -/

namespace Value

variable {α : Type} {ps : Properties} {key : String} {read : Value → Option α}

theorem readField?_entries (ps : Properties) (key : String) (read : Value → Option α)
    (default : Option α) :
    readField? ps.entries key read default = (ps.lookup key).elim default read := by
  rw [readField?, Properties.lookup?_entries]
  cases ps.lookup key <;> rfl

/-- A field with a null as its default, as it is written. -/
def ofOption (write : α → Value) (o : Option α) : Value := (o.map write).getD .null

variable {o : Option α} {write : α → Value}

theorem lookup_ofOption (hlookup : ps.lookup key =
      if (ofOption write o).isNull then none else some (ofOption write o))
    (hwrite : ∀ a, (write a).isNull = false) : ps.lookup key = o.map write := by
  rw [hlookup]
  cases o with
  | none => rfl
  | some a => simp [ofOption, hwrite a]

theorem readNullable?_of_lookup (hlookup : ps.lookup key = o.map write)
    (hwrite : ∀ a, (write a).isNull = false) (hread : ∀ a ∈ o, read (write a) = some a) :
    readNullable? ps.entries key read = some o := by
  rw [readNullable?, readField?_entries, hlookup]
  cases o with
  | none => rfl
  | some a =>
    have hnull := hwrite a
    have ha := hread a rfl
    cases hw : write a <;> simp_all [readOption?, isNull]

/-- A list of written items reads as some items if each of them does. -/
theorem mapM_map_eq_some_iff {β γ : Type} {as : List α} {write : α → β} {read : β → Option γ}
    {result : α → γ} : (as.map write).mapM read = some (as.map result) ↔
      ∀ a ∈ as, read (write a) = some (result a) := by
  rw [mapM_eq_some_iff, List.map_map, List.map_map, List.map_inj_left]
  rfl

/-- What is read of a field that may be null comes from its value. -/
theorem exists_of_readNullable? {entries : List (Value × Value)} {read : Value → Option α} {a : α}
    (h : readNullable? entries key read = some (some a)) :
    ∃ w, lookup? entries key = some w ∧ read w = some a := by
  rw [readNullable?, readField?] at h
  cases hlookup : lookup? entries key with
  | none => simp [hlookup] at h
  | some w =>
    refine ⟨w, rfl, ?_⟩
    rw [hlookup] at h
    cases w <;> simp_all [readOption?]

theorem exists_of_readList? {read : Value → Option α} {w : Value} {as : List α}
    (h : readList? read w = some as) {a : α} (ha : a ∈ as) :
    ∃ items, (w = .list items ∨ w = .set items) ∧ ∃ item ∈ items, read item = some a := by
  cases w with
  | list items => exact ⟨items, .inl rfl, exists_mem_of_mapM_eq_some h ha⟩
  | set items => exact ⟨items, .inr rfl, exists_mem_of_mapM_eq_some h ha⟩
  | _ => cases h

theorem readList?_textList (texts : List String) :
    readList? readText? (Record.textList texts) = some texts := by
  have h : (texts.map Value.text).mapM readText? = some (texts.map id) :=
    mapM_map_eq_some_iff.2 fun _ _ => rfl
  simpa [readList?, Record.textList] using h

end Value

/-- All keys are texts where unknown fields are read. -/
theorem extraFields?_eq_some_iff {known : List String} {entries : List (Value × Value)}
    {extra : Properties} : extraFields? known entries = some extra ↔
      ∃ ps : Properties, entries = ps.entries ∧
        extra = ps.filter fun p => !known.contains p.1 := by
  constructor
  · intro h
    obtain ⟨ps, hps, hextra⟩ := Option.bind_eq_some_iff.1 h
    refine ⟨ps, ?_, (Option.some.inj hextra).symm⟩
    refine (map_of_mapM_eq_some hps ?_).symm
    rintro ⟨k, v⟩ p hp
    cases k with
    | text s => cases hp; rfl
    | _ => cases hp
  · rintro ⟨ps, rfl, rfl⟩
    refine Option.bind_eq_some_iff.2 ⟨ps.map id, Value.mapM_map_eq_some_iff.2 fun _ _ => rfl, ?_⟩
    rw [List.map_id]
    rfl

theorem extraFields?_entries (known : List String) (ps : Properties) :
    extraFields? known ps.entries = some (ps.filter fun p => !known.contains p.1) :=
  extraFields?_eq_some_iff.2 ⟨ps, rfl, rfl⟩

namespace SortKey

@[simp] theorem isNull_toValue (k : SortKey) : k.toValue.isNull = false := rfl

theorem ofValue?_toValue (k : SortKey) : ofValue? k.toValue = some k := by
  obtain ⟨property, _ | _⟩ := k <;> rfl

theorem ofItem?_toValue (k : SortKey) : ofItem? k.toValue = some k := ofValue?_toValue k

end SortKey

/-! ## Views -/

namespace View

/-- The view without unknown fields that are null. -/
def tidied (v : View) : View := { v with extra := v.extra.given }

/-- Whether the field for grouping, if there is none, has no other spelling in its place. -/
def Steady (v : View) : Prop :=
  v.groupBy = none → ∀ p ∈ v.extra, p.1 = "group_by" → p.2.isNull

theorem ofValue?_eq_some_iff {entries : List (Value × Value)} {v : View} :
    ofValue? (.map entries) = some v ↔
      Value.readField? entries "type" Value.readText? (some standard.type) = some v.type ∧
      Value.readField? entries "name" Value.readText? (some standard.name) = some v.name ∧
      Value.readField? entries "filters" some (some .null) = some v.filters ∧
      readNullable? entries "order" readOrder? = some v.order ∧
      readNullable? entries "limit" Value.readInt? = some v.limit ∧
      readNullable? entries "columns" (Value.readList? Value.readText?) = some v.columns ∧
      readNullable? entries (groupKey entries) SortKey.ofValue? = some v.groupBy ∧
      extraFields? ["type", "name", "filters", "order", "limit", "columns", groupKey entries]
        entries = some v.extra := by
  cases v
  simp only [ofValue?, bind, pure, Option.bind_eq_some_iff, Option.some.injEq, mk.injEq]
  constructor
  · rintro ⟨_, htype, _, hname, _, hfilters, _, horder, _, hlimit, _, hcolumns, _, hgroup, _, hextra,
      rfl, rfl, rfl, rfl, rfl, rfl, rfl, rfl⟩
    exact ⟨htype, hname, hfilters, horder, hlimit, hcolumns, hgroup, hextra⟩
  · rintro ⟨htype, hname, hfilters, horder, hlimit, hcolumns, hgroup, hextra⟩
    exact ⟨_, htype, _, hname, _, hfilters, _, horder, _, hlimit, _, hcolumns, _, hgroup, _, hextra,
      rfl, rfl, rfl, rfl, rfl, rfl, rfl, rfl⟩

def knownKeys : List String := ["type", "name", "filters", "order", "limit", "columns", "groupBy"]

/-- No unknown field has the key of a known one. -/
def Apart (v : View) : Prop := ∀ key ∈ knownKeys, key ∉ v.extra.map Prod.fst

variable {v : View}

/-- The fields under known keys. -/
def knownFields (v : View) : Properties := { v with extra := [] }.fields

theorem keysOnce_knownFields (v : View) : v.knownFields.KeysOnce := by
  have h : knownKeys.Nodup := by decide
  exact h

theorem lookup_written (hapart : v.Apart) {key : String} {w : Value}
    (h : (key, w) ∈ v.knownFields) :
    v.writtenFields.lookup key = if w.isNull then none else some w :=
  Properties.lookup_given_append v.keysOnce_knownFields h
    (hapart key (List.mem_map_of_mem (f := Prod.fst) h))

theorem lookup_groupBy (hapart : v.Apart) :
    v.writtenFields.lookup "groupBy" = v.groupBy.map SortKey.toValue :=
  Value.lookup_ofOption (lookup_written hapart (by simp [knownFields, fields, Value.ofOption]))
    SortKey.isNull_toValue

/-- The field for grouping is found again under its own name only if it is not null. -/
theorem groupKey_written (hapart : v.Apart) :
    groupKey v.writtenFields.entries = if v.groupBy.isSome then "groupBy" else "group_by" := by
  rw [groupKey, Properties.lookup?_entries, lookup_groupBy hapart, Option.isSome_map]

theorem readGroup_written (hapart : v.Apart) :
    readNullable? v.writtenFields.entries (groupKey v.writtenFields.entries) SortKey.ofValue? =
      some v.groupBy ↔ v.Steady := by
  rw [groupKey_written hapart]
  cases hgroup : v.groupBy with
  | some k =>
    have hlookup := lookup_groupBy hapart
    rw [hgroup] at hlookup
    refine iff_of_true ?_ (fun hnone => by simp [hnone] at hgroup)
    exact Value.readNullable?_of_lookup hlookup SortKey.isNull_toValue fun k _ =>
      SortKey.ofValue?_toValue k
  | none =>
    rw [readNullable?, Value.readField?_entries, Option.isSome_none, if_neg Bool.false_ne_true]
    constructor
    · rintro hread - ⟨key, w⟩ hw rfl
      by_cases hnull : w.isNull
      · exact hnull
      have hmem : ("group_by", w) ∈ v.writtenFields :=
        List.mem_filter.2 ⟨List.mem_append_right _ hw, by simpa using hnull⟩
      obtain ⟨u, hlookup, hu⟩ := exists_lookup hmem
      have hgiven := (List.mem_filter.1 hu).2
      rw [hlookup] at hread
      cases u <;> simp_all [Value.readOption?, Value.isNull]
    · intro hsteady
      have hnone : "group_by" ∉ v.writtenFields.map Prod.fst := by
        intro hmem
        obtain ⟨⟨key, w⟩, hw, rfl⟩ := List.mem_map.1 hmem
        obtain ⟨hw, hgiven⟩ := List.mem_filter.1 hw
        rcases List.mem_append.1 hw with hw | hw
        · simp at hw
        · have hnull := hsteady hgroup _ hw rfl
          simp [hnull] at hgiven
      rw [lookup_of_notMem hnone]
      rfl

/-- The unknown fields come last, so they are what is left of the written ones. -/
theorem extra_written (hapart : v.Apart) (hsteady : v.Steady) :
    extraFields? ["type", "name", "filters", "order", "limit", "columns",
      groupKey v.writtenFields.entries] v.writtenFields.entries = some v.extra.given := by
  rw [extraFields?_entries, groupKey_written hapart]
  refine congrArg some (Properties.filter_given_append ?_ ?_)
  · cases v.groupBy <;> simp [Value.isNull]
  · intro p hp hmem
    have hnew : p.1 ∉ knownKeys := fun hknown => hapart p.1 hknown (List.mem_map_of_mem hp)
    cases hgroup : v.groupBy with
    | none =>
      refine hsteady hgroup p hp ?_
      rw [hgroup] at hmem
      simp_all [knownKeys]
    | some k =>
      simp only [hgroup] at hmem
      exact absurd hmem hnew

/-- A view is read back as it was written if its field for grouping has no other spelling. -/
theorem ofValue?_written (hapart : v.Apart) :
    ofValue? (.ofProperties v.writtenFields) = some v.tidied ↔ v.Steady := by
  change ofValue? (.map v.writtenFields.entries) = _ ↔ _
  rw [ofValue?_eq_some_iff]
  constructor
  · rintro ⟨-, -, -, -, -, -, hgroup, -⟩
    exact (readGroup_written hapart).1 hgroup
  · intro hsteady
    refine ⟨?type, ?name, ?filters, ?order, ?limit, ?columns, (readGroup_written hapart).2 hsteady,
      extra_written hapart hsteady⟩
    case type =>
      have htype : ("type", Value.text v.type) ∈ v.knownFields := by simp [knownFields, fields]
      rw [Value.readField?_entries, lookup_written hapart htype]
      rfl
    case name =>
      have hname : ("name", Value.text v.name) ∈ v.knownFields := by simp [knownFields, fields]
      rw [Value.readField?_entries, lookup_written hapart hname]
      rfl
    case filters =>
      have hfilters : ("filters", v.filters) ∈ v.knownFields := by simp [knownFields, fields]
      rw [Value.readField?_entries, lookup_written hapart hfilters]
      cases h : v.filters <;> simp [Value.isNull, tidied, h]
    case order =>
      have horder : v.writtenFields.lookup "order" =
          v.order.map fun ks => .list (ks.map SortKey.toValue) :=
        Value.lookup_ofOption
          (lookup_written hapart (by simp [knownFields, fields, Value.ofOption])) fun _ => rfl
      refine Value.readNullable?_of_lookup horder (fun _ => rfl) fun ks _ => ?_
      have hread : (ks.map SortKey.toValue).mapM SortKey.ofItem? = some (ks.map id) :=
        Value.mapM_map_eq_some_iff.2 fun k _ => SortKey.ofItem?_toValue k
      rwa [List.map_id] at hread
    case limit =>
      have hlimit : v.writtenFields.lookup "limit" = v.limit.map .int :=
        Value.lookup_ofOption
          (lookup_written hapart (by simp [knownFields, fields, Value.ofOption])) fun _ => rfl
      exact Value.readNullable?_of_lookup hlimit (fun _ => rfl) fun _ _ => rfl
    case columns =>
      have hcolumns : v.writtenFields.lookup "columns" = v.columns.map Record.textList :=
        Value.lookup_ofOption
          (lookup_written hapart (by simp [knownFields, fields, Value.ofOption])) fun _ => rfl
      exact Value.readNullable?_of_lookup hcolumns (fun _ => rfl) fun texts _ =>
        Value.readList?_textList texts

/-- A view that is read has no unknown field with the key of a known one. -/
theorem apart_of_ofValue? {x : Value} (h : ofValue? x = some v) : v.Apart := by
  cases x with
  | map entries =>
    obtain ⟨-, -, -, -, -, -, -, hextra⟩ := ofValue?_eq_some_iff.1 h
    obtain ⟨ps, rfl, hextra⟩ := extraFields?_eq_some_iff.1 hextra
    intro key hknown hmem
    rw [hextra] at hmem
    obtain ⟨p, hp, rfl⟩ := List.mem_map.1 hmem
    obtain ⟨hp, hunknown⟩ := List.mem_filter.1 hp
    cases hlookup : ps.lookup "groupBy" with
    | some w =>
      have hkey : groupKey ps.entries = "groupBy" := by
        rw [groupKey, Properties.lookup?_entries, hlookup]
        rfl
      rw [hkey] at hunknown
      simp_all [knownKeys]
    | none =>
      have hne : p.1 ≠ "groupBy" := by
        intro heq
        simpa [heq] using List.lookup_eq_none_iff.1 hlookup p hp
      simp_all [knownKeys]
  | _ => cases h

theorem writtenFields_tidied (v : View) : v.tidied.writtenFields = v.writtenFields := by
  rw [writtenFields, writtenFields, fields, fields, Properties.given_append,
    Properties.given_append]
  exact congrArg _ (Properties.given_given v.extra)

end View

/-! ## Bases -/

namespace Base

/-- The base without unknown fields that are null. -/
def tidied (b : Base) : Base :=
  { b with views := b.views.map View.tidied, extra := b.extra.given }

theorem ofValue?_eq_some_iff {entries : List (Value × Value)} {b : Base} :
    ofValue? (.map entries) = some b ↔
      Value.readField? entries "filters" some (some .null) = some b.filters ∧
      readNullable? entries "formulas" readFormulas? = some b.formulas ∧
      readNullable? entries "properties" Value.readProperties? = some b.properties ∧
      Value.readField? entries "views" (Value.readList? View.ofValue?) (some []) = some b.views ∧
      extraFields? ["filters", "formulas", "properties", "views"] entries = some b.extra := by
  cases b
  simp only [ofValue?, bind, pure, Option.bind_eq_some_iff, Option.some.injEq, mk.injEq]
  constructor
  · rintro ⟨_, hfilters, _, hformulas, _, hproperties, _, hviews, _, hextra, rfl, rfl, rfl, rfl, rfl⟩
    exact ⟨hfilters, hformulas, hproperties, hviews, hextra⟩
  · rintro ⟨hfilters, hformulas, hproperties, hviews, hextra⟩
    exact ⟨_, hfilters, _, hformulas, _, hproperties, _, hviews, _, hextra, rfl, rfl, rfl, rfl, rfl⟩

/-- Formulas as they are written. -/
def formulaFields (fs : List (String × String)) : Properties := fs.map fun (k, s) => (k, .text s)

def knownKeys : List String := ["filters", "formulas", "properties", "views"]

/-- No unknown field has the key of a known one, and no formula or hint stands twice. -/
structure Apart (b : Base) : Prop where
  extra : ∀ key ∈ knownKeys, key ∉ b.extra.map Prod.fst
  formulas : ∀ fs ∈ b.formulas, Properties.KeysOnce (formulaFields fs)
  properties : ∀ ps ∈ b.properties, ps.KeysOnce
  views : ∀ v ∈ b.views, v.Apart

theorem readFormulas?_written {fs : List (String × String)}
    (hkeys : Properties.KeysOnce (formulaFields fs)) :
    readFormulas? (.ofProperties (formulaFields fs)) = some fs := by
  have hproperties : Note.propertiesOf (formulaFields fs).entries = formulaFields fs := by
    refine Eq.trans ?_ (Properties.foldl_put hkeys)
    rw [Note.propertiesOf, Properties.entries, List.foldl_map]
    rfl
  change some ((Note.propertiesOf (formulaFields fs).entries).map _) = _
  rw [hproperties, formulaFields, List.map_map]
  exact congrArg some (List.map_id fs)

theorem keysOnce_of_readFormulas? {w : Value} {fs : List (String × String)}
    (h : readFormulas? w = some fs) : Properties.KeysOnce (formulaFields fs) := by
  cases w with
  | map entries =>
    cases h
    have hkeys : (Note.propertiesOf entries).KeysOnce :=
      Properties.keysOnce_foldl_put (fun e : Value × Value => e.1.shown) Prod.snd entries
        Properties.keysOnce_nil
    rw [Properties.KeysOnce, formulaFields, List.map_map, List.map_map]
    exact hkeys
  | _ => cases h

theorem keysOnce_of_readProperties? {w : Value} {ps : Properties}
    (h : Value.readProperties? w = some ps) : ps.KeysOnce := by
  cases w with
  | map entries =>
    obtain ⟨fields, -, hps⟩ := Option.bind_eq_some_iff.1 h
    cases hps
    exact Properties.keysOnce_foldl_put Prod.fst Prod.snd fields Properties.keysOnce_nil
  | _ => cases h

theorem readProperties?_written {ps : Properties} (hkeys : ps.KeysOnce) :
    Value.readProperties? (.ofProperties ps) = some ps := by
  refine Option.bind_eq_some_iff.2 ⟨ps.map id, Value.mapM_map_eq_some_iff.2 fun _ _ => rfl, ?_⟩
  rw [List.map_id]
  exact congrArg some (Properties.foldl_put hkeys)

section Written

variable {b : Base} {ps : Properties}

/-- The views as they are written. -/
def viewList (b : Base) : Value :=
  .list (b.views.map fun v => .ofProperties v.writtenFields)

/-- The fields in front of the views. -/
def leadingFields (b : Base) : Properties :=
  [("filters", b.filters),
    ("formulas", Value.ofOption (fun fs => .ofProperties (formulaFields fs)) b.formulas),
    ("properties", Value.ofOption .ofProperties b.properties)]

/-- The fields under known keys as they are written. -/
def knownFields (b : Base) : Properties := b.leadingFields ++ [("views", b.viewList)]

theorem writtenFields_eq (b : Base) : b.writtenFields = (b.knownFields ++ b.extra).given := by
  have hviews : b.viewList = .list ((b.views.map View.writtenFields).map Value.ofProperties) := by
    rw [viewList, List.map_map]
    rfl
  rw [knownFields, hviews]
  rfl

theorem keysOnce_knownFields (b : Base) : b.knownFields.KeysOnce := by
  have h : knownKeys.Nodup := by decide
  exact h

variable {key : String} {w : Value}

theorem lookup_written (hapart : b.Apart) (h : (key, w) ∈ b.knownFields) :
    b.writtenFields.lookup key = if w.isNull then none else some w := by
  rw [writtenFields_eq]
  exact Properties.lookup_given_append b.keysOnce_knownFields h
    (hapart.extra key (List.mem_map_of_mem (f := Prod.fst) h))

theorem lookup_views (hapart : b.Apart) : b.writtenFields.lookup "views" = some b.viewList := by
  have hmem : ("views", b.viewList) ∈ b.knownFields := by simp [knownFields]
  rw [lookup_written hapart hmem]
  rfl

/-! What stands in some properties as it was written reads back, whatever the others are. -/

theorem read_filters (hapart : b.Apart)
    (h : ps.lookup "filters" = b.writtenFields.lookup "filters") :
    Value.readField? ps.entries "filters" some (some .null) = some b.filters := by
  have hfilters : ("filters", b.filters) ∈ b.knownFields := by simp [knownFields, leadingFields]
  rw [Value.readField?_entries, h, lookup_written hapart hfilters]
  cases b.filters <;> rfl

theorem read_formulas (hapart : b.Apart)
    (h : ps.lookup "formulas" = b.writtenFields.lookup "formulas") :
    readNullable? ps.entries "formulas" readFormulas? = some b.formulas := by
  have hlookup : b.writtenFields.lookup "formulas" =
      b.formulas.map fun fs => .ofProperties (formulaFields fs) :=
    Value.lookup_ofOption (lookup_written hapart (by simp [knownFields, leadingFields])) fun _ => rfl
  exact Value.readNullable?_of_lookup (h.trans hlookup) (fun _ => rfl) fun fs hfs =>
    readFormulas?_written (hapart.formulas fs hfs)

theorem read_properties (hapart : b.Apart)
    (h : ps.lookup "properties" = b.writtenFields.lookup "properties") :
    readNullable? ps.entries "properties" Value.readProperties? = some b.properties := by
  have hlookup : b.writtenFields.lookup "properties" = b.properties.map Value.ofProperties :=
    Value.lookup_ofOption (lookup_written hapart (by simp [knownFields, leadingFields])) fun _ => rfl
  exact Value.readNullable?_of_lookup (h.trans hlookup) (fun _ => rfl) fun qs hqs =>
    readProperties?_written (hapart.properties qs hqs)

theorem read_views (hapart : b.Apart)
    (h : ps.lookup "views" = b.writtenFields.lookup "views") :
    Value.readField? ps.entries "views" (Value.readList? View.ofValue?) (some []) =
      some (b.views.map View.tidied) ↔ ∀ v ∈ b.views, v.Steady := by
  rw [Value.readField?_entries, h, lookup_views hapart]
  change (b.views.map fun v => Value.ofProperties v.writtenFields).mapM View.ofValue? = _ ↔ _
  rw [Value.mapM_map_eq_some_iff]
  exact forall₂_congr fun v hv => View.ofValue?_written (hapart.views v hv)

/-- The unknown fields are what is left of the written ones. -/
theorem read_extra (hapart : b.Apart) :
    b.writtenFields.filter (fun p => !knownKeys.contains p.1) = b.extra.given := by
  rw [writtenFields_eq]
  refine Properties.filter_given_append (by simp [knownFields, leadingFields, knownKeys]) ?_
  exact fun p hp hknown => absurd (List.mem_map_of_mem hp) (hapart.extra p.1 hknown)

theorem ofValue?_entries (hapart : b.Apart) :
    ofValue? (.map b.entries) = some b.tidied ↔ ∀ v ∈ b.views, v.Steady := by
  have hextra := read_extra hapart
  rw [knownKeys] at hextra
  have hviews := read_views hapart rfl
  change ofValue? (.map b.writtenFields.entries) = _ ↔ _
  rw [ofValue?_eq_some_iff, extraFields?_entries, hextra]
  constructor
  · rintro ⟨-, -, -, hread, -⟩
    exact hviews.1 hread
  · intro hsteady
    exact ⟨@read_filters b _ hapart rfl, @read_formulas b _ hapart rfl,
      @read_properties b _ hapart rfl, hviews.2 hsteady, rfl⟩

theorem entries_tidied (b : Base) : b.tidied.entries = b.entries := by
  have hviews : b.tidied.views.map View.writtenFields = b.views.map View.writtenFields := by
    rw [tidied, List.map_map]
    exact List.map_congr_left fun v _ => v.writtenFields_tidied
  rw [entries, entries, writtenFields, writtenFields, hviews, fieldsWith, fieldsWith,
    Properties.given_append, Properties.given_append]
  exact congrArg (List.map _ <| _ ++ ·) (Properties.given_given b.extra)

end Written

/-! ### Plain bases -/

section Plain

variable {b : Base}

theorem isPlain_of_mem_fields (h : b.toValue.isPlain) {key : String} {w : Value}
    (hmem : (key, w) ∈ b.fields) : w.isPlain :=
  (Value.isPlain_ofProperties.1 h).2 (key, w) hmem

theorem isPlain_view (h : b.toValue.isPlain) {v : View} (hv : v ∈ b.views) :
    v.toValue.isPlain := by
  have hmem : ("views", Value.list ((b.views.map View.fields).map Value.ofProperties)) ∈
      b.fields := by simp [fields, fieldsWith]
  refine Value.isPlain_list.1 (isPlain_of_mem_fields h hmem) _ ?_
  simp only [List.map_map]
  exact List.mem_map_of_mem hv

/-- What is written of a plain base is plain. -/
theorem isPlain_entries (h : b.toValue.isPlain) : (Value.map b.entries).isPlain := by
  change (Value.ofProperties b.writtenFields).isPlain
  have hkeys : (b.knownFields ++ b.extra).KeysOnce := (Value.isPlain_ofProperties.1 h).1
  rw [writtenFields_eq]
  refine Value.isPlain_ofProperties.2 ⟨hkeys.given, ?_⟩
  rintro ⟨key, w⟩ hw
  have hmem : w = b.viewList ∨ (key, w) ∈ b.fields := by
    have hfields : b.fields = b.leadingFields ++
        ("views", Value.list ((b.views.map View.fields).map Value.ofProperties)) :: b.extra := rfl
    rw [hfields, List.mem_append, List.mem_cons]
    have hmem := (List.mem_filter.1 hw).1
    rw [knownFields, List.mem_append, List.mem_append, List.mem_singleton, Prod.mk.injEq] at hmem
    rcases hmem with (hleading | ⟨-, hviews⟩) | hextra
    · exact .inr (.inl hleading)
    · exact .inl hviews
    · exact .inr (.inr (.inr hextra))
  rcases hmem with rfl | hmem
  · refine Value.isPlain_list.2 fun w hw => ?_
    obtain ⟨v, hv, rfl⟩ := List.mem_map.1 hw
    obtain ⟨hkeys, hplain⟩ := Value.isPlain_ofProperties.1 (isPlain_view h hv)
    exact Value.isPlain_ofProperties.2 ⟨hkeys.given, fun p hp => hplain p (List.mem_filter.1 hp).1⟩
  · exact isPlain_of_mem_fields h hmem

end Plain

/-! ### What is read -/

theorem apart_of_ofValue? {x : Value} (h : ofValue? x = some b) : b.Apart := by
  cases x with
  | map entries =>
    obtain ⟨-, hformulas, hproperties, hviews, hextra⟩ := ofValue?_eq_some_iff.1 h
    refine ⟨?extra, ?formulas, ?properties, ?views⟩
    case extra =>
      obtain ⟨ps, -, hextra⟩ := extraFields?_eq_some_iff.1 hextra
      intro key hknown hmem
      rw [hextra] at hmem
      obtain ⟨p, hp, rfl⟩ := List.mem_map.1 hmem
      simp_all [knownKeys]
    case formulas =>
      intro fs hfs
      rw [Option.mem_def.1 hfs] at hformulas
      obtain ⟨w, -, hw⟩ := Value.exists_of_readNullable? hformulas
      exact keysOnce_of_readFormulas? hw
    case properties =>
      intro ps hps
      rw [Option.mem_def.1 hps] at hproperties
      obtain ⟨w, -, hw⟩ := Value.exists_of_readNullable? hproperties
      exact keysOnce_of_readProperties? hw
    case views =>
      intro v hv
      rw [Value.readField?] at hviews
      cases hlookup : Value.lookup? entries "views" with
      | none => simp_all
      | some w =>
        rw [hlookup] at hviews
        obtain ⟨_, -, item, -, hitem⟩ := Value.exists_of_readList? hviews hv
        exact View.apart_of_ofValue? hitem
  | _ => cases h

/-- A text reads as a base if its document is a mapping that does once it has a view. -/
theorem ofText_eq_ok_iff {text : String} :
    ofText text = .ok b ↔ ∃ entries, Yaml.finiteValueOf .strict text = .ok (.map entries) ∧
      ofValue? (.map (withViews entries)) = some b := by
  rw [ofText]
  constructor
  · intro h
    split at h
    case h_1 => cases h
    case h_3 => cases h
    case h_2 entries hvalue =>
      split at h
      case h_2 => cases h
      case h_1 hread =>
        cases h
        exact ⟨entries, hvalue, hread⟩
  · rintro ⟨entries, hvalue, hread⟩
    simp only [hvalue, hread]

theorem apart_of_ofText {text : String} (h : ofText text = .ok b) : b.Apart := by
  obtain ⟨_, -, hread⟩ := ofText_eq_ok_iff.1 h
  exact apart_of_ofValue? hread

/-! ### Texts -/

/-- The base with the standard view if it has no view. -/
def completed (b : Base) : Base := if b.views.isEmpty then { b with views := [.standard] } else b

theorem withViews_entries {b : Base} (hapart : b.Apart) :
    withViews b.entries = b.completed.entries := by
  have hlookup : Value.lookup? b.entries "views" = some b.viewList := by
    change Value.lookup? b.writtenFields.entries "views" = _
    rw [Properties.lookup?_entries, lookup_views hapart]
  rw [withViews, hlookup, completed]
  cases hviews : b.views with
  | cons v vs => simp [viewList, hviews]
  | nil =>
    have hleading : "views" ∉ b.leadingFields.given.map Prod.fst := fun hmem => by
      have hsub := (List.filter_sublist.map Prod.fst).subset hmem
      simp [leadingFields] at hsub
    have hextra : "views" ∉ b.extra.given.map Prod.fst := fun hmem =>
      hapart.extra "views" (by decide) ((List.filter_sublist.map Prod.fst).subset hmem)
    have hwritten (c : Base) :
        c.writtenFields = c.leadingFields.given ++ ("views", c.viewList) :: c.extra.given := by
      rw [writtenFields_eq, knownFields, List.append_assoc, Properties.given_append]
      rfl
    simp only [viewList, hviews, List.map_nil, List.isEmpty_nil, if_true]
    change Value.putEntry b.writtenFields.entries _ _ = Properties.entries (writtenFields _)
    rw [Properties.putEntry_entries, hwritten, hwritten, Properties.put_middle hleading hextra]
    rfl

theorem apart_standard : View.standard.Apart := fun _ _ hmem => by cases hmem

theorem Apart.completed {b : Base} (h : b.Apart) : b.completed.Apart := by
  rw [Base.completed]
  split
  case isFalse => exact h
  case isTrue => exact ⟨h.extra, h.formulas, h.properties, by simpa using apart_standard⟩

theorem steady_completed {b : Base} :
    (∀ v ∈ b.completed.views, v.Steady) ↔ ∀ v ∈ b.views, v.Steady := by
  rw [completed]
  split
  case isFalse => rfl
  case isTrue hempty =>
    have hstandard : View.standard.Steady := by
      intro _ p hp
      cases hp
    rw [List.isEmpty_iff.1 hempty]
    simpa using hstandard

/-- What the text of a base reads as, if the document is read as it was written. -/
theorem ofText_text {b : Base} (hapart : b.Apart)
    (hyaml : Yaml.finiteValueOf .strict b.text = .ok (.map b.entries)) :
    ofText b.text = .ok b.completed.tidied ↔ ∀ v ∈ b.views, v.Steady := by
  rw [ofText_eq_ok_iff, ← steady_completed, ← ofValue?_entries hapart.completed,
    ← withViews_entries hapart]
  constructor
  · rintro ⟨entries, hvalue, hread⟩
    cases hyaml.symm.trans hvalue
    exact hread
  · exact fun hread => ⟨b.entries, hyaml, hread⟩

theorem lookup?_withViews (entries : List (Value × Value)) :
    ∃ v vs, Value.lookup? (withViews entries) "views" = some (.list (v :: vs)) := by
  rw [withViews]
  split
  case h_1 v vs h => exact ⟨v, vs, h⟩
  case h_2 => exact ⟨_, [], Value.lookup?_putEntry entries "views" _⟩

/-- A base that is read has a view. -/
theorem views_ne_nil {text : String} {b : Base} (h : ofText text = .ok b) : b.views ≠ [] := by
  obtain ⟨entries, -, hread⟩ := ofText_eq_ok_iff.1 h
  obtain ⟨-, -, -, hviews, -⟩ := ofValue?_eq_some_iff.1 hread
  obtain ⟨v, vs, hlookup⟩ := lookup?_withViews entries
  rw [Value.readField?, hlookup] at hviews
  intro hnil
  rw [hnil] at hviews
  simp [Value.readList?, Option.bind_eq_some_iff] at hviews

theorem completed_of_ofText {text : String} {b : Base} (h : ofText text = .ok b) :
    b.completed = b := by
  rw [completed, if_neg]
  rw [List.isEmpty_iff]
  exact views_ne_nil h

end Base

/-- A base of plain data is written as a text that reads as the base without the unknown fields that
are null, exactly if no view that is not grouped holds another spelling of its field for grouping.
What is read has the same text. -/
theorem Base.ofText_text_iff {text : String} {b : Base} (hread : ofText text = .ok b)
    (hplain : b.toValue.isPlain) (hyaml : Yaml.Faithful b.entries) :
    (ofText b.text = .ok b.tidied ↔ ∀ v ∈ b.views, v.Steady) ∧ b.tidied.text = b.text := by
  have hcompleted := completed_of_ofText hread
  constructor
  · have htext := ofText_text (apart_of_ofText hread) (hyaml.finiteValueOf (isPlain_entries hplain))
    rwa [hcompleted] at htext
  · rw [Base.text, Base.text, entries_tidied]

/-! ### A text that comes through -/

/-- A formula that is written as a number, and a field without a value. -/
def countedText : String := "formulas: {n: 1}\nk: null"

def counted : Base :=
  { filters := .null
    formulas := some [("n", "1")]
    properties := none
    views := [.standard]
    extra := [("k", .null)] }

theorem Yaml.valueOf_countedText : valueOf .strict countedText =
    .ok (.map [(.text "formulas", .map [(.text "n", .int 1)]), (.text "k", .null)]) := by
  have htokens : Token.ofText .strict countedText.toList =
      .ok [.blockMappingStart, .key, .scalar "formulas" true, .value, .flowMappingStart, .key,
        .scalar "n" true, .value, .scalar "1" true, .flowMappingEnd, .key, .scalar "k" true, .value,
        .scalar "null" true, .blockEnd] :=
    tokens_of_chars rfl (by decide +kernel)
  have hint : intOf "1" = .ok 1 := rfl
  have hvalue : (Node.mapping .map [
      (.scalar .text "formulas", .mapping .map [(.scalar .text "n", .scalar .int "1")]),
      (.scalar .text "k", .scalar .null "null")]).value =
      .ok (.map [(.text "formulas", .map [(.text "n", .int 1)]), (.text "k", .null)]) := by
    simp only [Node.value, valueAt, entriesAt, merged, ownEntries, scalarOf, hint]
    rfl
  exact (valueOf_of_tokens htokens rfl).trans hvalue

theorem Base.ofText_countedText : ofText countedText = .ok counted :=
  ofText_eq_ok_iff.2 ⟨_, Yaml.finiteValueOf_eq_ok_iff.2 ⟨Yaml.valueOf_countedText, rfl⟩, rfl⟩

theorem Yaml.faithful_counted : Faithful counted.entries := by
  intro _
  have htext : documentText counted.entries =
      "formulas:\n  n: '1'\nviews:\n- type: table\n  name: Default\n" := by decide +kernel
  have htokens : Token.ofText .strict
      "formulas:\n  n: '1'\nviews:\n- type: table\n  name: Default\n".toList =
      .ok [.blockMappingStart, .key, .scalar "formulas" true, .value, .blockMappingStart, .key,
        .scalar "n" true, .value, .scalar "1" false, .blockEnd, .key, .scalar "views" true, .value,
        .blockEntry, .blockMappingStart, .key, .scalar "type" true, .value, .scalar "table" true,
        .key, .scalar "name" true, .value, .scalar "Default" true, .blockEnd, .blockEnd] :=
    tokens_of_chars rfl (by decide +kernel)
  have hvalue : (Node.mapping .map [
      (.scalar .text "formulas", .mapping .map [(.scalar .text "n", .scalar .text "1")]),
      (.scalar .text "views", .sequence .list [.mapping .map [
        (.scalar .text "type", .scalar .text "table"),
        (.scalar .text "name", .scalar .text "Default")]])]).value = .ok (.map counted.entries) := by
    simp only [Node.value, valueAt, entriesAt, merged, ownEntries, scalarOf, valuesAt]
    rfl
  rw [htext]
  exact (valueOf_of_tokens htokens rfl).trans hvalue

/-- What is read and written keeps the text of the formula and loses the field without a value. -/
theorem Base.ofText_text_iff_counted :
    ofText counted.text = .ok { counted with extra := [] } ∧
      ({ counted with extra := [] } : Base).text = counted.text := by
  obtain ⟨hread, htext⟩ := Base.ofText_text_iff ofText_countedText (by decide)
    Yaml.faithful_counted
  refine ⟨hread.2 ?_, htext⟩
  intro v hv _ p hp
  obtain rfl : v = .standard := List.mem_singleton.1 hv
  cases hp

/-! ### A text that does not come through -/

/-- A view whose field for grouping is null under one name and given under the other. -/
def regroupedText : String := "views: [{groupBy: null, group_by: {property: a}}]"

def regrouped : Base :=
  { filters := .null
    formulas := none
    properties := none
    views := [{ View.standard with
      extra := [("group_by", .map [(.text "property", .text "a")])] }]
    extra := [] }

/-- The same view with the other name in its place. -/
def grouped : Base :=
  { regrouped with views := [{ View.standard with groupBy := some ⟨"a", .asc⟩ }] }

theorem Yaml.valueOf_regroupedText : valueOf .strict regroupedText =
    .ok (.map [(.text "views", .list [.map [(.text "groupBy", .null),
      (.text "group_by", .map [(.text "property", .text "a")])]])]) := by
  have htokens : Token.ofText .strict regroupedText.toList =
      .ok [.blockMappingStart, .key, .scalar "views" true, .value, .flowSequenceStart,
        .flowMappingStart, .key, .scalar "groupBy" true, .value, .scalar "null" true, .flowEntry,
        .key, .scalar "group_by" true, .value, .flowMappingStart, .key, .scalar "property" true,
        .value, .scalar "a" true, .flowMappingEnd, .flowMappingEnd, .flowSequenceEnd, .blockEnd] :=
    tokens_of_chars rfl (by decide +kernel)
  have hvalue : (Node.mapping .map [(.scalar .text "views", .sequence .list [.mapping .map [
      (.scalar .text "groupBy", .scalar .null "null"),
      (.scalar .text "group_by", .mapping .map [
        (.scalar .text "property", .scalar .text "a")])]])]).value =
      .ok (.map [(.text "views", .list [.map [(.text "groupBy", .null),
        (.text "group_by", .map [(.text "property", .text "a")])]])]) := by
    simp only [Node.value, valueAt, entriesAt, merged, ownEntries, scalarOf, valuesAt]
    rfl
  exact (valueOf_of_tokens htokens rfl).trans hvalue

theorem Base.ofText_regroupedText : ofText regroupedText = .ok regrouped :=
  ofText_eq_ok_iff.2 ⟨_, Yaml.finiteValueOf_eq_ok_iff.2 ⟨Yaml.valueOf_regroupedText, rfl⟩, rfl⟩

theorem Yaml.faithful_regrouped : Faithful regrouped.entries := by
  intro _
  have htext : documentText regrouped.entries =
      "views:\n- type: table\n  name: Default\n  group_by:\n    property: a\n" := by
    decide +kernel
  have htokens : Token.ofText .strict
      "views:\n- type: table\n  name: Default\n  group_by:\n    property: a\n".toList =
      .ok [.blockMappingStart, .key, .scalar "views" true, .value, .blockEntry, .blockMappingStart,
        .key, .scalar "type" true, .value, .scalar "table" true, .key, .scalar "name" true, .value,
        .scalar "Default" true, .key, .scalar "group_by" true, .value, .blockMappingStart, .key,
        .scalar "property" true, .value, .scalar "a" true, .blockEnd, .blockEnd, .blockEnd] :=
    tokens_of_chars rfl (by decide +kernel)
  have hvalue : (Node.mapping .map [(.scalar .text "views", .sequence .list [.mapping .map [
      (.scalar .text "type", .scalar .text "table"),
      (.scalar .text "name", .scalar .text "Default"),
      (.scalar .text "group_by", .mapping .map [
        (.scalar .text "property", .scalar .text "a")])]])]).value =
      .ok (.map regrouped.entries) := by
    simp only [Node.value, valueAt, entriesAt, merged, ownEntries, scalarOf, valuesAt]
    rfl
  rw [htext]
  exact (valueOf_of_tokens htokens rfl).trans hvalue

theorem Base.ofText_text_regrouped : ofText regrouped.text = .ok grouped :=
  ofText_eq_ok_iff.2 ⟨_, Yaml.faithful_regrouped.finiteValueOf (by decide), rfl⟩

/-- The view comes back grouped, and its text changes once more. -/
theorem Base.regrouped_text_unstable :
    ofText regroupedText = .ok regrouped ∧ regrouped.toValue.isPlain ∧
      Yaml.Faithful regrouped.entries ∧ ofText regrouped.text = .ok grouped ∧
      grouped ≠ regrouped.tidied ∧ grouped.text ≠ regrouped.text := by
  refine ⟨ofText_regroupedText, by decide, Yaml.faithful_regrouped, ofText_text_regrouped,
    ?_, by decide⟩
  intro heq
  have hviews := congrArg (fun b => b.views.map View.groupBy) heq
  revert hviews
  decide

end MarkdownVault
