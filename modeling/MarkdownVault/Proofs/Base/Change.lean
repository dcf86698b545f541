import MarkdownVault.Base.Change
import MarkdownVault.Proofs.Base.RoundTrip

/-!
# What a change leaves alone

A change is laid over the written fields of a base, and the base is read again from them. A section
for which the change has nothing is read back as it was written. Plain data stay plain on the way.
-/

namespace MarkdownVault

/-! ## Sections -/

/-- What a changed base has in common with the old one: every section for which the change has
nothing, and the unknown fields. Views may lose their unknown fields that are null; one with another
spelling of its field for grouping may come back another. -/
structure Base.Keeps (b : Base) (c : BaseChange) (b' : Base) : Prop where
  filters : c.filters.isNull → b'.filters = b.filters
  formulas : c.formulas.isNull → b'.formulas = b.formulas
  properties : c.properties.isNull → b'.properties = b.properties
  views : c.views.isNull → (∀ v ∈ b.views, v.Steady) →
    b'.views = b.views ∨ b'.views = b.views.map View.tidied
  extra : b'.extra.given = b.extra.given

namespace BaseChange

variable {c : BaseChange}

/-- All sections of a change, null where it has nothing. -/
def fields (c : BaseChange) : Properties :=
  [("filters", c.filters), ("formulas", c.formulas), ("views", c.views),
    ("properties", c.properties)]

theorem keysOnce_fields (c : BaseChange) : c.fields.KeysOnce := by
  have h : ["filters", "formulas", "views", "properties"].Nodup := by decide
  exact h

theorem mem_knownKeys_of_mem_sections {p : String × Value} (h : p ∈ c.sections) :
    p.1 ∈ Base.knownKeys := by
  have hmem := (List.mem_filter.1 h).1
  simp only [List.mem_cons, List.not_mem_nil, or_false] at hmem
  rcases hmem with rfl | rfl | rfl | rfl <;> simp [Base.knownKeys]

/-- The change laid over some fields. -/
def onto (c : BaseChange) (ps : Properties) : Properties :=
  c.sections.foldl (fun ps (key, v) => ps.put key v) ps

/-- A section for which the change has nothing is found where it was. -/
theorem lookup_onto {key : String} {v : Value} (h : (key, v) ∈ c.fields) (hnull : v.isNull)
    (ps : Properties) : (c.onto ps).lookup key = ps.lookup key :=
  Properties.lookup_foldl_put (Properties.notMem_given_of_isNull c.keysOnce_fields h hnull) ps

theorem filter_onto (c : BaseChange) (ps : Properties) :
    (c.onto ps).filter (fun p => !Base.knownKeys.contains p.1) =
      ps.filter fun p => !Base.knownKeys.contains p.1 := by
  have hknown : ∀ p ∈ c.sections, (!Base.knownKeys.contains p.1) = false := fun p hp => by
    simpa using mem_knownKeys_of_mem_sections hp
  exact @Properties.filter_foldl_put _ (fun key => !Base.knownKeys.contains key) hknown ps

end BaseChange

namespace Base

variable {b b' : Base} {c : BaseChange}

/-- A change that has something is laid over what is written of the base. -/
theorem change?_eq (b : Base) (c : BaseChange) :
    b.change? c = if c.sections.isEmpty then some b
      else ofValue? (.map (c.onto b.writtenFields).entries) := rfl

theorem keeps_of_change? (hapart : b.Apart) (h : b.change? c = some b') : b.Keeps c b' := by
  rw [change?_eq] at h
  split at h
  case isTrue =>
    cases h
    exact ⟨fun _ => rfl, fun _ => rfl, fun _ => rfl, fun _ _ => .inl rfl, rfl⟩
  case isFalse =>
    obtain ⟨hfilters, hformulas, hproperties, hviews, hextra⟩ := ofValue?_eq_some_iff.1 h
    refine ⟨?filters, ?formulas, ?properties, ?views, ?extra⟩
    case filters =>
      intro hnull
      have hmem : ("filters", c.filters) ∈ c.fields := by simp [BaseChange.fields]
      have hread := read_filters hapart (BaseChange.lookup_onto hmem hnull b.writtenFields)
      exact Option.some.inj (hfilters.symm.trans hread)
    case formulas =>
      intro hnull
      have hmem : ("formulas", c.formulas) ∈ c.fields := by simp [BaseChange.fields]
      have hread := read_formulas hapart (BaseChange.lookup_onto hmem hnull b.writtenFields)
      exact Option.some.inj (hformulas.symm.trans hread)
    case properties =>
      intro hnull
      have hmem : ("properties", c.properties) ∈ c.fields := by simp [BaseChange.fields]
      have hread := read_properties hapart (BaseChange.lookup_onto hmem hnull b.writtenFields)
      exact Option.some.inj (hproperties.symm.trans hread)
    case views =>
      intro hnull hsteady
      have hmem : ("views", c.views) ∈ c.fields := by simp [BaseChange.fields]
      have hread := (read_views hapart (BaseChange.lookup_onto hmem hnull b.writtenFields)).2 hsteady
      exact .inr (Option.some.inj (hviews.symm.trans hread))
    case extra =>
      rw [extraFields?_entries] at hextra
      have hfilter := (c.filter_onto b.writtenFields).trans (read_extra hapart)
      rw [← Option.some.inj hextra]
      exact (congrArg Properties.given hfilter).trans (Properties.given_given b.extra)

/-- Other views come with their keys apart. -/
theorem apart_of_withViews? {views : Value} (hapart : b.Apart) (h : b.withViews? views = some b') :
    b'.Apart := by
  cases views with
  | null =>
    cases h
    exact hapart
  | list items =>
    obtain ⟨vs, hvs, rfl⟩ := Option.map_eq_some_iff.1 h
    refine ⟨hapart.extra, hapart.formulas, hapart.properties, fun v hv => ?_⟩
    obtain ⟨item, -, hitem⟩ := exists_mem_of_mapM_eq_some hvs hv
    exact View.apart_of_ofValue? hitem
  | _ => cases h

theorem apart_of_change? (hapart : b.Apart) (h : b.change? c = some b') : b'.Apart := by
  rw [change?_eq] at h
  split at h
  case isTrue =>
    cases h
    exact hapart
  case isFalse => exact apart_of_ofValue? h

end Base

/-! ## Plain data -/

namespace Value

variable {ps : Properties} {key : String} {v : Value}

theorem isPlain_of_lookup (h : (ofProperties ps).isPlain) (hlookup : ps.lookup key = some v) :
    v.isPlain :=
  (isPlain_ofProperties.1 h).2 (key, v) (mem_of_lookup hlookup)

/-- What is read as it is from plain data is plain. -/
theorem isPlain_of_readField? (h : (ofProperties ps).isPlain)
    (hread : readField? ps.entries key some (some .null) = some v) : v.isPlain := by
  rw [readField?_entries] at hread
  cases hlookup : ps.lookup key with
  | none =>
    rw [hlookup] at hread
    cases hread
    rfl
  | some w =>
    rw [hlookup] at hread
    cases hread
    exact isPlain_of_lookup h hlookup

theorem isPlain_ofOption {α : Type} {write : α → Value} {o : Option α}
    (h : ∀ a ∈ o, (write a).isPlain) : (ofOption write o).isPlain := by
  cases o with
  | none => rfl
  | some a => exact h a rfl

end Value

namespace Properties

variable {ps qs : Properties}

theorem isPlain_append (hps : (Value.ofProperties ps).isPlain)
    (hqs : (Value.ofProperties qs).isPlain)
    (hapart : ∀ key ∈ ps.map Prod.fst, key ∉ qs.map Prod.fst) :
    (Value.ofProperties (ps ++ qs)).isPlain := by
  obtain ⟨hkeys, hplain⟩ := Value.isPlain_ofProperties.1 hps
  obtain ⟨hkeys', hplain'⟩ := Value.isPlain_ofProperties.1 hqs
  refine Value.isPlain_ofProperties.2 ⟨?_, fun p hp => ?_⟩
  · rw [KeysOnce, List.map_append, List.nodup_append]
    exact ⟨hkeys, hkeys', fun key hkey other hother heq => hapart key hkey (heq ▸ hother)⟩
  · rcases List.mem_append.1 hp with hp | hp
    · exact hplain p hp
    · exact hplain' p hp

/-- Some of the fields of plain data are plain data. -/
theorem isPlain_of_sublist (h : ps.Sublist qs) (hqs : (Value.ofProperties qs).isPlain) :
    (Value.ofProperties ps).isPlain := by
  obtain ⟨hkeys, hplain⟩ := Value.isPlain_ofProperties.1 hqs
  exact Value.isPlain_ofProperties.2
    ⟨(h.map Prod.fst).nodup hkeys, fun p hp => hplain p (h.subset hp)⟩

end Properties

namespace View

theorem isPlain_toValue {v : View} (hapart : v.Apart) (hfilters : v.filters.isPlain)
    (hextra : (Value.ofProperties v.extra).isPlain) : v.toValue.isPlain := by
  refine Properties.isPlain_append
    (Value.isPlain_ofProperties.2 ⟨v.keysOnce_knownFields, ?_⟩) hextra hapart
  have horder : (Value.ofOption (fun ks => .list (ks.map SortKey.toValue)) v.order).isPlain := by
    refine Value.isPlain_ofOption fun ks _ => Value.isPlain_list.2 fun w hw => ?_
    obtain ⟨k, -, rfl⟩ := List.mem_map.1 hw
    rfl
  have hlimit : (Value.ofOption .int v.limit).isPlain := Value.isPlain_ofOption fun _ _ => rfl
  have hcolumns : (Value.ofOption Record.textList v.columns).isPlain := by
    refine Value.isPlain_ofOption fun texts _ => Value.isPlain_list.2 fun w hw => ?_
    obtain ⟨s, -, rfl⟩ := List.mem_map.1 hw
    rfl
  have hgroupBy : (Value.ofOption SortKey.toValue v.groupBy).isPlain :=
    Value.isPlain_ofOption fun _ _ => rfl
  simp only [List.forall_mem_cons]
  exact ⟨rfl, rfl, hfilters, horder, hlimit, hcolumns, hgroupBy, by simp⟩

theorem isPlain_of_ofValue? {x : Value} {v : View} (hx : x.isPlain) (h : ofValue? x = some v) :
    v.toValue.isPlain := by
  have hapart := apart_of_ofValue? h
  cases x with
  | map entries =>
    obtain ⟨-, -, hfilters, -, -, -, -, hextra⟩ := ofValue?_eq_some_iff.1 h
    obtain ⟨ps, rfl, hextra⟩ := extraFields?_eq_some_iff.1 hextra
    refine isPlain_toValue hapart (Value.isPlain_of_readField? hx hfilters) ?_
    rw [hextra]
    exact Properties.isPlain_of_sublist List.filter_sublist hx
  | _ => cases h

end View

namespace Base

variable {b b' : Base}

theorem isPlain_toValue (hapart : b.Apart) (hfilters : b.filters.isPlain)
    (hproperties : ∀ ps ∈ b.properties, (Value.ofProperties ps).isPlain)
    (hviews : ∀ v ∈ b.views, v.toValue.isPlain) (hextra : (Value.ofProperties b.extra).isPlain) :
    b.toValue.isPlain := by
  have hformulas :
      (Value.ofOption (fun fs => .ofProperties (formulaFields fs)) b.formulas).isPlain := by
    refine Value.isPlain_ofOption fun fs hfs => Value.isPlain_ofProperties.2 ⟨?_, fun p hp => ?_⟩
    · exact hapart.formulas fs hfs
    · obtain ⟨f, -, rfl⟩ := List.mem_map.1 hp
      rfl
  have hlist : (Value.list ((b.views.map View.fields).map Value.ofProperties)).isPlain := by
    refine Value.isPlain_list.2 fun w hw => ?_
    obtain ⟨fields, hfields, rfl⟩ := List.mem_map.1 hw
    obtain ⟨v, hv, rfl⟩ := List.mem_map.1 hfields
    exact hviews v hv
  have hfields : b.fields = (b.leadingFields ++
      [("views", Value.list ((b.views.map View.fields).map Value.ofProperties))]) ++ b.extra := rfl
  rw [toValue, hfields]
  refine Properties.isPlain_append
    (Value.isPlain_ofProperties.2 ⟨b.keysOnce_knownFields, ?_⟩) hextra hapart.extra
  simp only [leadingFields, List.cons_append, List.nil_append, List.forall_mem_cons]
  exact ⟨hfilters, hformulas, Value.isPlain_ofOption hproperties, hlist, by simp⟩

theorem isPlain_readViews {w : Value} {views : List View} (hw : w.isPlain)
    (h : Value.readList? View.ofValue? w = some views) : ∀ v ∈ views, v.toValue.isPlain := by
  intro v hv
  obtain ⟨items, rfl | rfl, item, hitem, hread⟩ := Value.exists_of_readList? h hv
  · exact View.isPlain_of_ofValue? (Value.isPlain_list.1 hw item hitem) hread
  · cases hw

theorem isPlain_of_ofValue? {x : Value} (hx : x.isPlain) (h : ofValue? x = some b) :
    b.toValue.isPlain := by
  have hapart := apart_of_ofValue? h
  cases x with
  | map entries =>
    obtain ⟨hfilters, -, hproperties, hviews, hread⟩ := ofValue?_eq_some_iff.1 h
    obtain ⟨ps, rfl, hextra⟩ := extraFields?_eq_some_iff.1 hread
    refine isPlain_toValue hapart (Value.isPlain_of_readField? hx hfilters) ?_ ?_ ?_
    · intro qs hqs
      rw [Option.mem_def.1 hqs] at hproperties
      obtain ⟨w, hlookup, hread⟩ := Value.exists_of_readNullable? hproperties
      rw [Properties.lookup?_entries] at hlookup
      have hw := Value.isPlain_of_lookup hx hlookup
      cases w with
      | map es =>
        obtain ⟨rs, rfl⟩ := Value.exists_properties hw
        have hrs := readProperties?_written (Value.isPlain_ofProperties.1 hw).1
        exact Option.some.inj (hrs.symm.trans hread) ▸ hw
      | _ => cases hread
    · rw [Value.readField?_entries] at hviews
      cases hlookup : ps.lookup "views" with
      | none => simp_all
      | some w =>
        rw [hlookup] at hviews
        exact isPlain_readViews (Value.isPlain_of_lookup hx hlookup) hviews
    · rw [hextra]
      exact Properties.isPlain_of_sublist List.filter_sublist hx
  | _ => cases h

theorem isPlain_of_change? {c : BaseChange} (hb : b.toValue.isPlain)
    (hc : ∀ p ∈ c.fields, p.2.isPlain) (h : b.change? c = some b') : b'.toValue.isPlain := by
  rw [change?_eq] at h
  split at h
  case isTrue =>
    cases h
    exact hb
  case isFalse =>
    have hwritten : (Value.ofProperties b.writtenFields).isPlain := isPlain_entries hb
    have honto : (Value.ofProperties (c.onto b.writtenFields)).isPlain :=
      Value.isPlain_foldl_put hwritten fun p hp => hc p (List.mem_filter.1 hp).1
    exact isPlain_of_ofValue? honto h

theorem isPlain_of_withViews? {views : Value} (hapart : b.Apart) (hb : b.toValue.isPlain)
    (hviews : views.isPlain) (h : b.withViews? views = some b') : b'.toValue.isPlain := by
  cases views with
  | null =>
    cases h
    exact hb
  | list items =>
    obtain ⟨vs, hvs, rfl⟩ := Option.map_eq_some_iff.1 h
    have hextra : b.extra.Sublist b.fields := List.sublist_append_right _ _
    refine isPlain_toValue (apart_of_withViews? hapart h) ?_ ?_ (isPlain_readViews hviews hvs)
      (Properties.isPlain_of_sublist hextra hb)
    · exact isPlain_of_mem_fields hb List.mem_cons_self
    · intro ps hps
      have hsome : b.properties = some ps := hps
      have hmem : ("properties", Value.ofProperties ps) ∈ b.fields := by
        simp [fields, fieldsWith, hsome]
      exact isPlain_of_mem_fields hb hmem
  | _ => cases h

/-! ### Templates -/

theorem apart_of_extra_nil {v : View} (h : v.extra = []) : v.Apart := by
  intro key _ hmem
  rw [h] at hmem
  cases hmem

theorem isPlain_of_extra_nil {v : View} (h : v.extra = []) (hfilters : v.filters = .null) :
    v.toValue.isPlain := by
  refine View.isPlain_toValue (apart_of_extra_nil h) ?_ ?_
  · rw [hfilters]
    rfl
  · rw [h]
    rfl

theorem apart_table (name : String) (filters folder : Option String)
    (columns : Option (List String)) : (table name filters folder columns).Apart where
  extra := by simp [table]
  formulas := by simp [table]
  properties := by simp [table]
  views := fun v hv => by
    obtain rfl := List.mem_singleton.1 hv
    exact apart_of_extra_nil rfl

theorem isPlain_table (name : String) (filters folder : Option String)
    (columns : Option (List String)) : (table name filters folder columns).toValue.isPlain := by
  refine isPlain_toValue (apart_table name filters folder columns) ?_ ?_ ?_ rfl
  · simp only [table]
    cases folder.filter (!·.isEmpty) <;> cases filters.filter (!·.isEmpty) <;> rfl
  · simp [table]
  · intro v hv
    obtain rfl := List.mem_singleton.1 hv
    exact isPlain_of_extra_nil rfl rfl

theorem apart_conversations (source folder : Option String) :
    (conversations source folder).Apart where
  extra := by simp [conversations]
  formulas := by
    intro fs hfs
    obtain rfl := Option.some.inj hfs
    decide
  properties := by
    intro ps hps
    obtain rfl := Option.some.inj hps
    decide
  views := by
    intro v hv
    simp only [conversations, List.mem_cons, List.not_mem_nil, or_false] at hv
    rcases hv with rfl | rfl | rfl <;> exact apart_of_extra_nil rfl

theorem isPlain_conversations (source folder : Option String) :
    (conversations source folder).toValue.isPlain := by
  refine isPlain_toValue (apart_conversations source folder) rfl ?_ ?_ rfl
  · intro ps hps
    obtain rfl := Option.some.inj hps
    decide
  · intro v hv
    simp only [conversations, List.mem_cons, List.not_mem_nil, or_false] at hv
    rcases hv with rfl | rfl | rfl <;> exact isPlain_of_extra_nil rfl rfl

end Base

end MarkdownVault
