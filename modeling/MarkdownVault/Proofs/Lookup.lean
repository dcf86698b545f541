import Mathlib.Data.List.Nodup

/-!
# Looking up by keys

Properties, the children of a folder and many tables are lists of pairs, in which the first pair
with a key counts. Where no key stands twice, what is found under a key is what stands there.
-/

namespace MarkdownVault

section Lookup

variable {κ α : Type} [BEq κ] [LawfulBEq κ] {ps : List (κ × α)} {key : κ} {a : α}

theorem mem_of_lookup (h : ps.lookup key = some a) : (key, a) ∈ ps := by
  obtain ⟨before, after, rfl, -⟩ := List.lookup_eq_some_iff.1 h
  exact List.mem_append_right before List.mem_cons_self

/-- The first pair with a key is found. -/
theorem exists_lookup (h : (key, a) ∈ ps) : ∃ b, ps.lookup key = some b ∧ (key, b) ∈ ps := by
  cases hlookup : ps.lookup key with
  | none =>
    have hne := List.lookup_eq_none_iff.1 hlookup _ h
    simp at hne
  | some b => exact ⟨b, rfl, mem_of_lookup hlookup⟩

theorem mem_keys_iff : key ∈ ps.map Prod.fst ↔ ∃ a, ps.lookup key = some a := by
  constructor
  · intro h
    obtain ⟨⟨_, a⟩, ha, rfl⟩ := List.mem_map.1 h
    obtain ⟨b, hb, -⟩ := exists_lookup ha
    exact ⟨b, hb⟩
  · rintro ⟨a, ha⟩
    exact List.mem_map.2 ⟨(key, a), mem_of_lookup ha, rfl⟩

theorem lookup_of_notMem (h : key ∉ ps.map Prod.fst) : ps.lookup key = none :=
  Option.eq_none_iff_forall_ne_some.2 fun a ha => h (mem_keys_iff.2 ⟨a, ha⟩)

/-- If all pairs with a key agree, any of them is found. -/
theorem lookup_eq_some_iff_mem_of_agree
    (h : ∀ b, (key, b) ∈ ps → ∀ c, (key, c) ∈ ps → b = c) :
    ps.lookup key = some a ↔ (key, a) ∈ ps := by
  refine ⟨mem_of_lookup, fun ha => ?_⟩
  obtain ⟨b, hlookup, hb⟩ := exists_lookup ha
  rw [hlookup, h b hb a ha]

theorem lookup_eq_some_iff_mem (h : (ps.map Prod.fst).Nodup) :
    ps.lookup key = some a ↔ (key, a) ∈ ps :=
  lookup_eq_some_iff_mem_of_agree fun _ hb _ hc =>
    congrArg Prod.snd (List.inj_on_of_nodup_map h hb hc rfl)

/-- A table of the values of a function holds its value at each of its keys. -/
theorem lookup_map_key (f : κ → α) (keys : List κ) (key : κ) :
    (keys.map fun k => (k, f k)).lookup key = if key ∈ keys then some (f key) else none := by
  induction keys with
  | nil => rfl
  | cons k keys ih =>
    rw [List.map_cons, List.lookup_cons, ih]
    by_cases h : key = k
    · simp [h]
    · have hbeq : (key == k) = false := by simpa using h
      simp [hbeq, h]

end Lookup

/-! ## Named items

Children of a folder and files in memory are placed by one rule: in place of the item with their
name, or at the end.
-/

section Placed

variable {α : Type} {name : String} {a : α} (place : List (String × α) → List (String × α))

theorem lookup_placed_self (hnil : place [] = [(name, a)])
    (hcons : ∀ p ps, place (p :: ps) = if p.1 = name then (name, a) :: ps else p :: place ps)
    (ps : List (String × α)) : (place ps).lookup name = some a := by
  induction ps with
  | nil => simp [hnil]
  | cons p ps ih =>
    obtain ⟨k, b⟩ := p
    by_cases hk : k = name
    · simp [hcons, hk]
    · have hbeq : (name == k) = false := by simpa using Ne.symm hk
      simp [hcons, hk, List.lookup_cons, hbeq, ih]

theorem lookup_placed_of_ne (hnil : place [] = [(name, a)])
    (hcons : ∀ p ps, place (p :: ps) = if p.1 = name then (name, a) :: ps else p :: place ps)
    {other : String} (h : other ≠ name) (ps : List (String × α)) :
    (place ps).lookup other = ps.lookup other := by
  have hother : (other == name) = false := by simpa using h
  induction ps with
  | nil => simp [hnil, List.lookup_cons, hother]
  | cons p ps ih =>
    obtain ⟨k, b⟩ := p
    by_cases hk : k = name
    · simp [hcons, hk, List.lookup_cons, hother]
    · simp [hcons, hk, List.lookup_cons, ih]

end Placed

end MarkdownVault
