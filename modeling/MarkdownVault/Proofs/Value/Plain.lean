import MarkdownVault.Base.Printer
import MarkdownVault.Proofs.Lookup

/-!
# Plain data

Plain data are null, truth values, numbers other than NaN, texts, dates, and lists and mappings of
plain data, the mappings with texts as keys and every key once. What is read by its key from the
entries of such a mapping does not depend on the entries around it.
-/

namespace MarkdownVault

/-! ## Entries -/

namespace Value

theorem sameKey_text {k : Value} {s : String} : k.sameKey (.text s) ↔ k = .text s := by
  cases k <;> simp [sameKey, keyRat?]

theorem lookup?_cons_of_ne {e : Value × Value} {key : String} (h : e.1 ≠ .text key)
    (es : List (Value × Value)) : lookup? (e :: es) key = lookup? es key := by
  obtain ⟨k, v⟩ := e
  cases k with
  | text s =>
    have hs : s ≠ key := fun heq => h (congrArg text heq)
    simp [lookup?, hs]
  | _ => rfl

/-- A value that is set is found. -/
theorem lookup?_putEntry (entries : List (Value × Value)) (key : String) (v : Value) :
    lookup? (putEntry entries (.text key) v) key = some v := by
  induction entries with
  | nil => simp [putEntry, lookup?]
  | cons e es ih =>
    by_cases he : e.1 = .text key
    · simp [putEntry, lookup?, he, sameKey_text]
    · have hsame : e.1.sameKey (.text key) = false := by simpa [← sameKey_text] using he
      have hput : putEntry (e :: es) (.text key) v = e :: putEntry es (.text key) v := by
        simp only [putEntry, List.any_cons, hsame, Bool.false_or, List.map_cons]
        split <;> rfl
      rw [hput, lookup?_cons_of_ne he, ih]

end Value

/-! ## Properties -/

namespace Properties

/-- Properties as the entries of a mapping. -/
def entries (ps : Properties) : List (Value × Value) := ps.map fun (k, v) => (.text k, v)

/-- No key stands in properties twice. -/
def KeysOnce (ps : Properties) : Prop := (ps.map Prod.fst).Nodup

instance (ps : Properties) : Decidable ps.KeysOnce := inferInstanceAs (Decidable (List.Nodup _))

variable {ps qs : Properties} {key : String} {v : Value}

theorem keysOnce_nil : KeysOnce [] := List.nodup_nil

theorem lookup?_entries (ps : Properties) (key : String) :
    Value.lookup? ps.entries key = ps.lookup key := by
  induction ps with
  | nil => rfl
  | cons p ps ih =>
    obtain ⟨k, v⟩ := p
    rw [entries, Value.lookup?] at ih ⊢
    rw [List.map_cons, List.findSome?_cons, ih, List.lookup_cons]
    by_cases h : k = key
    · simp [h]
    · have hbeq : (key == k) = false := by simpa using Ne.symm h
      simp [h, hbeq]

theorem KeysOnce.given (h : ps.KeysOnce) : ps.given.KeysOnce :=
  (List.filter_sublist.map Prod.fst).nodup h

theorem notMem_given_of_isNull (hkeys : ps.KeysOnce) (h : (key, v) ∈ ps) (hnull : v.isNull) :
    key ∉ ps.given.map Prod.fst := by
  intro hmem
  obtain ⟨⟨k, w⟩, hw, rfl⟩ := List.mem_map.1 hmem
  obtain ⟨hw, hgiven⟩ := List.mem_filter.1 hw
  obtain rfl : w = v := congrArg Prod.snd (List.inj_on_of_nodup_map hkeys hw h rfl)
  simp [hnull] at hgiven

/-- A written field is found unless it is null. -/
theorem lookup_given (hkeys : ps.KeysOnce) (h : (key, v) ∈ ps) :
    ps.given.lookup key = if v.isNull then none else some v := by
  cases hnull : v.isNull with
  | false => exact (lookup_eq_some_iff_mem hkeys.given).2 (List.mem_filter.2 ⟨h, by simp [hnull]⟩)
  | true => exact lookup_of_notMem (notMem_given_of_isNull hkeys h hnull)

@[simp] theorem given_given (ps : Properties) : ps.given.given = ps.given := by
  simp [given, List.filter_filter]

theorem given_append (ps qs : Properties) : given (ps ++ qs) = ps.given ++ qs.given :=
  List.filter_append ..

/-- A written field is found whatever fields with other keys stand behind it. -/
theorem lookup_given_append (hkeys : ps.KeysOnce) (h : (key, v) ∈ ps)
    (hqs : key ∉ qs.map Prod.fst) :
    (given (ps ++ qs)).lookup key = if v.isNull then none else some v := by
  have hnone : key ∉ qs.given.map Prod.fst := fun hmem =>
    hqs ((List.filter_sublist.map Prod.fst).subset hmem)
  rw [given_append, List.lookup_append, lookup_given hkeys h, lookup_of_notMem hnone, Option.or_none]

/-- Without the known keys, what is left of some fields is what the unknown ones hold. -/
theorem filter_given_append {known : List String} (hps : ∀ p ∈ ps, p.1 ∈ known ∨ p.2.isNull)
    (hqs : ∀ p ∈ qs, p.1 ∈ known → p.2.isNull) :
    (given (ps ++ qs)).filter (fun p => !known.contains p.1) = qs.given := by
  have hfirst : ps.given.filter (fun p => !known.contains p.1) = [] := by
    rw [List.filter_eq_nil_iff]
    intro p hp
    obtain ⟨hp, hgiven⟩ := List.mem_filter.1 hp
    rcases hps p hp with hmem | hnull
    · simp [hmem]
    · simp [hnull] at hgiven
  have hrest : qs.given.filter (fun p => !known.contains p.1) = qs.given := by
    rw [List.filter_eq_self]
    intro p hp
    obtain ⟨hp, hgiven⟩ := List.mem_filter.1 hp
    have hnotMem : p.1 ∉ known := fun hmem => by simp [hqs p hp hmem] at hgiven
    simp [hnotMem]
  rw [given_append, List.filter_append, hfirst, hrest, List.nil_append]

/-! ### Setting values -/

theorem put_of_notMem (h : key ∉ ps.map Prod.fst) (v : Value) : ps.put key v = ps ++ [(key, v)] := by
  rw [put, if_neg]
  simpa using h

theorem map_fst_put_of_mem (h : key ∈ ps.map Prod.fst) (v : Value) :
    (ps.put key v).map Prod.fst = ps.map Prod.fst := by
  have hany : ps.any (·.1 == key) := by simpa using h
  rw [put, if_pos hany, List.map_map]
  refine List.map_congr_left fun p _ => ?_
  by_cases hp : p.1 = key <;> simp [hp]

theorem KeysOnce.put (h : ps.KeysOnce) (key : String) (v : Value) : (ps.put key v).KeysOnce := by
  by_cases hmem : key ∈ ps.map Prod.fst
  · rwa [KeysOnce, map_fst_put_of_mem hmem]
  · rw [KeysOnce, put_of_notMem hmem, List.map_append, List.nodup_append]
    refine ⟨h, by simp, ?_⟩
    rintro a ha b hb rfl
    obtain rfl : a = key := by simpa using hb
    exact hmem ha

/-- Setting a value is not seen under other keys. -/
theorem lookup_put_of_ne {k : String} (h : k ≠ key) (ps : Properties) (v : Value) :
    (ps.put key v).lookup k = ps.lookup k := by
  have hk : (k == key) = false := by simpa using h
  by_cases hmem : key ∈ ps.map Prod.fst
  · have hany : ps.any (·.1 == key) := by simpa using hmem
    rw [put, if_pos hany]
    clear hany hmem
    induction ps with
    | nil => rfl
    | cons p ps ih =>
      obtain ⟨l, w⟩ := p
      by_cases hl : l = key
      · simpa [hl, List.lookup_cons, hk] using ih
      · have hbeq : (l == key) = false := by simpa using hl
        rw [List.map_cons, hbeq, List.lookup_cons, List.lookup_cons, ← ih]
        rfl
  · rw [put_of_notMem hmem, List.lookup_append, List.lookup_cons, hk]
    simp

/-- Setting a value does not show where its key is left out. -/
theorem filter_put {test : String → Bool} (h : test key = false) (ps : Properties) (v : Value) :
    (ps.put key v).filter (fun p => test p.1) = ps.filter fun p => test p.1 := by
  by_cases hmem : key ∈ ps.map Prod.fst
  · have hany : ps.any (·.1 == key) := by simpa using hmem
    rw [put, if_pos hany]
    clear hany hmem
    induction ps with
    | nil => rfl
    | cons p ps ih =>
      by_cases hp : p.1 = key
      · have hleft : test p.1 = false := hp ▸ h
        simpa [hp, h, hleft] using ih
      · cases htest : test p.1 <;> simpa [hp, htest] using ih
  · simp [put_of_notMem hmem, h]

/-- Values that are set are not seen under other keys. -/
theorem lookup_foldl_put (h : key ∉ qs.map Prod.fst) (ps : Properties) :
    (qs.foldl (fun ps (k, v) => put ps k v) ps).lookup key = ps.lookup key := by
  induction qs generalizing ps with
  | nil => rfl
  | cons q qs ih =>
    rw [List.map_cons, List.mem_cons, not_or] at h
    rw [List.foldl_cons, ih h.2, lookup_put_of_ne h.1]

theorem filter_foldl_put {test : String → Bool} (h : ∀ q ∈ qs, test q.1 = false)
    (ps : Properties) : (qs.foldl (fun ps (k, v) => put ps k v) ps).filter (fun p => test p.1) =
      ps.filter fun p => test p.1 := by
  induction qs generalizing ps with
  | nil => rfl
  | cons q qs ih =>
    obtain ⟨hq, hqs⟩ := List.forall_mem_cons.1 h
    rw [List.foldl_cons, ih hqs, filter_put hq]

/-- A new value stands where the old one stood. -/
theorem put_middle (hps : key ∉ ps.map Prod.fst) (hqs : key ∉ qs.map Prod.fst) (old v : Value) :
    put (ps ++ (key, old) :: qs) key v = ps ++ (key, v) :: qs := by
  have hother {rs : Properties} (hrs : key ∉ rs.map Prod.fst) :
      rs.map (fun p => if p.1 == key then (key, v) else p) = rs := by
    refine (List.map_congr_left fun p hp => ?_).trans (List.map_id rs)
    have hne : p.1 ≠ key := fun heq => hrs (heq ▸ List.mem_map_of_mem hp)
    simp [hne]
  rw [put, if_pos (by simp), List.map_append, List.map_cons, hother hps, hother hqs]
  simp

/-- The entries of properties are set like the properties. -/
theorem putEntry_entries (ps : Properties) (key : String) (v : Value) :
    Value.putEntry ps.entries (.text key) v = (ps.put key v).entries := by
  have hany : ps.entries.any (fun e => e.1.sameKey (.text key)) = ps.any (·.1 == key) := by
    rw [entries, List.any_map]
    rfl
  rw [Value.putEntry, put, hany]
  split
  · rw [entries, entries, List.map_map, List.map_map]
    refine List.map_congr_left fun p _ => ?_
    by_cases hp : p.1 = key
    · have hsame : (Value.text key).sameKey (.text key) := Value.sameKey_text.2 rfl
      simp [hp, hsame]
    · have hsame : (Value.text p.1).sameKey (.text key) = false := by
        rw [Bool.eq_false_iff, ne_eq, Value.sameKey_text]
        simpa using hp
      simp [hp, hsame]
  · simp [entries]

theorem foldl_put_append (h : KeysOnce (qs ++ ps)) :
    ps.foldl (fun qs (k, v) => put qs k v) qs = qs ++ ps := by
  induction ps generalizing qs with
  | nil => simp
  | cons p ps ih =>
    have hnew : p.1 ∉ qs.map Prod.fst := by
      rw [KeysOnce, List.map_append, List.nodup_append] at h
      exact fun hmem => h.2.2 _ hmem p.1 (by simp) rfl
    rw [List.foldl_cons]
    change ps.foldl _ (qs.put p.1 p.2) = _
    rw [put_of_notMem hnew, ih (by simpa using h), List.append_assoc]
    rfl

theorem foldl_put (h : ps.KeysOnce) : ps.foldl (fun qs (k, v) => put qs k v) [] = ps :=
  @foldl_put_append ps [] h

/-- However many values are set, no key comes to stand twice. -/
theorem keysOnce_foldl_put {α : Type} (keyOf : α → String) (valueOf : α → Value) (as : List α)
    (h : ps.KeysOnce) : KeysOnce (as.foldl (fun ps a => put ps (keyOf a) (valueOf a)) ps) := by
  induction as generalizing ps with
  | nil => exact h
  | cons a as ih => exact ih (h.put (keyOf a) (valueOf a))

theorem mem_put {p : String × Value} (h : p ∈ ps.put key v) : p = (key, v) ∨ p ∈ ps := by
  rw [put] at h
  split at h
  · obtain ⟨q, hq, rfl⟩ := List.mem_map.1 h
    split
    · exact .inl rfl
    · exact .inr hq
  · exact (List.mem_append.1 h).symm.imp_left List.mem_singleton.1

end Properties

/-! ## Plain data -/

namespace Value

mutual

def isPlain : Value → Bool
  | .null | .bool _ | .int _ | .text _ | .date _ => true
  | .float x => !x.isNaN
  | .list items => allPlain items
  | .map entries => decide (entries.map fun e => e.1.text?).Nodup && entriesPlain entries
  | .moment _ | .bytes _ | .set _ | .enclosing _ => false

def allPlain : List Value → Bool
  | [] => true
  | v :: vs => v.isPlain && allPlain vs

def entriesPlain : List (Value × Value) → Bool
  | [] => true
  | (k, v) :: es => k.text?.isSome && v.isPlain && entriesPlain es

end

mutual

theorem isFinite_of_isPlain : (v : Value) → v.isPlain → v.isFinite
  | .list items, h => by
    rw [isPlain] at h
    rw [isFinite]
    exact allFinite_of_allPlain items h
  | .map entries, h => by
    rw [isPlain, Bool.and_eq_true] at h
    rw [isFinite]
    exact entriesFinite_of_entriesPlain entries h.2
  | .null, _ | .bool _, _ | .int _, _ | .float _, _ | .text _, _ | .date _, _ => by simp [isFinite]
  | .moment _, h | .bytes _, h | .set _, h | .enclosing _, h => by simp [isPlain] at h

theorem allFinite_of_allPlain : (vs : List Value) → allPlain vs → allFinite vs
  | [], _ => by rw [allFinite]
  | v :: vs, h => by
    rw [allPlain, Bool.and_eq_true] at h
    rw [allFinite, Bool.and_eq_true]
    exact ⟨isFinite_of_isPlain v h.1, allFinite_of_allPlain vs h.2⟩

theorem entriesFinite_of_entriesPlain : (es : List (Value × Value)) → entriesPlain es →
    entriesFinite es
  | [], _ => by rw [entriesFinite]
  | (k, v) :: es, h => by
    rw [entriesPlain, Bool.and_eq_true, Bool.and_eq_true] at h
    obtain ⟨⟨hk, hv⟩, hes⟩ := h
    have hkey : k.isFinite := by
      cases k with
      | text key => simp [isFinite]
      | _ => cases hk
    rw [entriesFinite, hkey, isFinite_of_isPlain v hv, entriesFinite_of_entriesPlain es hes]
    rfl

end

theorem isPlain_list {vs : List Value} : (list vs).isPlain ↔ ∀ v ∈ vs, v.isPlain := by
  rw [isPlain]
  induction vs with
  | nil => simp [allPlain]
  | cons v vs ih => simp [allPlain, ih]

theorem entriesPlain_entries {ps : Properties} :
    entriesPlain ps.entries ↔ ∀ p ∈ ps, p.2.isPlain := by
  induction ps with
  | nil => simp [Properties.entries, entriesPlain]
  | cons p ps ih =>
    rw [Properties.entries] at ih ⊢
    simp [entriesPlain, text?, ih]

theorem isPlain_ofProperties {ps : Properties} :
    (ofProperties ps).isPlain ↔ ps.KeysOnce ∧ ∀ p ∈ ps, p.2.isPlain := by
  have hkeys : (ps.entries.map fun e => e.1.text?) = (ps.map Prod.fst).map some := by
    simp [Properties.entries, text?]
  have hentries := @entriesPlain_entries ps
  rw [ofProperties, ← Properties.entries, isPlain, hkeys, Bool.and_eq_true, decide_eq_true_eq,
    hentries, Properties.KeysOnce]
  simp only [List.Nodup, List.pairwise_map, ne_eq, Option.some.injEq]

/-- Plain data that are set in plain properties leave them plain. -/
theorem isPlain_foldl_put {ps qs : Properties} (hps : (ofProperties ps).isPlain)
    (hqs : ∀ q ∈ qs, q.2.isPlain) :
    (ofProperties (qs.foldl (fun ps (k, v) => ps.put k v) ps)).isPlain := by
  induction qs generalizing ps with
  | nil => exact hps
  | cons q qs ih =>
    obtain ⟨hq, hqs⟩ := List.forall_mem_cons.1 hqs
    obtain ⟨hkeys, hplain⟩ := isPlain_ofProperties.1 hps
    refine ih (isPlain_ofProperties.2 ⟨hkeys.put q.1 q.2, fun p hp => ?_⟩) hqs
    rcases Properties.mem_put hp with rfl | hp
    · exact hq
    · exact hplain p hp

/-- The keys of plain mappings are texts. -/
theorem exists_properties {es : List (Value × Value)} (h : (map es).isPlain) :
    ∃ ps : Properties, es = ps.entries := by
  rw [isPlain, Bool.and_eq_true] at h
  replace h := h.2
  induction es with
  | nil => exact ⟨[], rfl⟩
  | cons e es ih =>
    obtain ⟨k, v⟩ := e
    rw [entriesPlain, Bool.and_eq_true, Bool.and_eq_true] at h
    obtain ⟨ps, rfl⟩ := ih h.2
    cases k with
    | text s => exact ⟨(s, v) :: ps, rfl⟩
    | _ => simp [text?] at h

end Value

end MarkdownVault
