/-!
# Results that may be faults

Small facts about computations that answer with a value or a fault.
-/

namespace MarkdownVault

variable {ε α β : Type} {x : Except ε α}

theorem map_eq_ok_iff {f : α → β} {b : β} : f <$> x = .ok b ↔ ∃ a, x = .ok a ∧ f a = b := by
  cases x <;> simp [Functor.map, Except.map]

theorem bind_eq_ok_iff {next : α → Except ε β} {b : β} :
    x >>= next = .ok b ↔ ∃ a, x = .ok a ∧ next a = .ok b := by
  cases x <;> simp [bind, Except.bind]

theorem mapM_cons_eq_ok_iff {parse : α → Except ε β} {a : α} {as : List α} {bs : List β} :
    (a :: as).mapM parse = .ok bs ↔
      ∃ b rest, parse a = .ok b ∧ as.mapM parse = .ok rest ∧ bs = b :: rest := by
  rw [List.mapM_cons, bind_eq_ok_iff]
  constructor
  · rintro ⟨b, hb, h⟩
    obtain ⟨rest, hrest, h⟩ := bind_eq_ok_iff.1 h
    exact ⟨b, rest, hb, hrest, (Except.ok.inj h).symm⟩
  · rintro ⟨b, rest, hb, hrest, rfl⟩
    exact ⟨b, hb, bind_eq_ok_iff.2 ⟨rest, hrest, rfl⟩⟩

theorem mapM_eq_ok_iff {parse : α → Except ε β} {as : List α} {bs : List β} :
    as.mapM parse = .ok bs ↔ as.map parse = bs.map .ok := by
  induction as generalizing bs with
  | nil => cases bs <;> simp [pure, Except.pure]
  | cons a as ih =>
    rw [mapM_cons_eq_ok_iff]
    cases bs with
    | nil => simp
    | cons b bs => simp [ih]

theorem mapM_eq_some_iff {read : α → Option β} {as : List α} {bs : List β} :
    as.mapM read = some bs ↔ as.map read = bs.map some := by
  induction as generalizing bs with
  | nil => cases bs <;> simp
  | cons a as ih =>
    rw [List.mapM_cons]
    cases bs with
    | nil => cases read a <;> cases as.mapM read <;> simp
    | cons b bs =>
      rw [List.map_cons, List.map_cons, List.cons.injEq, ← ih]
      cases read a <;> cases as.mapM read <;> simp

/-- Everything that is read comes from an item. -/
theorem exists_mem_of_mapM_eq_some {read : α → Option β} {as : List α} {bs : List β}
    (h : as.mapM read = some bs) {b : β} (hb : b ∈ bs) : ∃ a ∈ as, read a = some b := by
  have hmem : some b ∈ as.map read := mapM_eq_some_iff.1 h ▸ List.mem_map_of_mem hb
  exact List.mem_map.1 hmem

theorem exists_mapM {parse : α → Except ε β} {as : List α}
    (h : ∀ a ∈ as, ∃ b, parse a = .ok b) : ∃ bs, as.mapM parse = .ok bs := by
  induction as with
  | nil => exact ⟨[], rfl⟩
  | cons a as ih =>
    obtain ⟨⟨b, hb⟩, has⟩ := List.forall_mem_cons.1 h
    obtain ⟨bs, hbs⟩ := ih has
    exact ⟨b :: bs, mapM_cons_eq_ok_iff.2 ⟨b, bs, hb, hbs, rfl⟩⟩

/-- What recovers an item from its result recovers the list from the results. -/
theorem mapM_eq_ok {parse : α → Except ε β} {as : List α} (h : ∀ a ∈ as, ∃ b, parse a = .ok b) :
    as.mapM parse = .ok (as.filterMap fun a => (parse a).toOption) := by
  rw [mapM_eq_ok_iff]
  induction as with
  | nil => rfl
  | cons a as ih =>
    obtain ⟨⟨b, hb⟩, has⟩ := List.forall_mem_cons.1 h
    simp [hb, ih has, Except.toOption]

theorem map_of_mapM_eq_ok {parse : α → Except ε β} {source : β → α} {as : List α} {bs : List β}
    (h : as.mapM parse = .ok bs) (hsource : ∀ a b, parse a = .ok b → source b = a) :
    bs.map source = as := by
  induction as generalizing bs with
  | nil => cases h; rfl
  | cons a as ih =>
    obtain ⟨b, rest, hb, hrest, rfl⟩ := mapM_cons_eq_ok_iff.1 h
    rw [List.map_cons, hsource a b hb, ih hrest]

theorem map_of_mapM_eq_some {read : α → Option β} {source : β → α} {as : List α} {bs : List β}
    (h : as.mapM read = some bs) (hsource : ∀ a b, read a = some b → source b = a) :
    bs.map source = as := by
  rw [mapM_eq_some_iff] at h
  induction as generalizing bs with
  | nil => simp_all
  | cons a as ih =>
    cases bs with
    | nil => cases h
    | cons b bs =>
      rw [List.map_cons, List.map_cons, List.cons.injEq] at h
      rw [List.map_cons, hsource a b h.1, ih h.2]

theorem filterMapM_eq_ok {read : α → Except ε (Option β)} {pick : α → Option β} {as : List α}
    (h : ∀ a ∈ as, read a = .ok (pick a)) : as.filterMapM read = .ok (as.filterMap pick) := by
  induction as with
  | nil => rfl
  | cons a as ih =>
    obtain ⟨ha, has⟩ := List.forall_mem_cons.1 h
    rw [List.filterMapM_cons, ha, List.filterMap_cons]
    simp only [bind, Except.bind, ih has]
    cases pick a <;> rfl

/-- Of items that are read or refused, all for one reason, the first refusal is the answer. -/
theorem filterMapM_eq_error {read : α → Except ε (Option β)} {e : ε} {as : List α}
    (h : ∀ a ∈ as, read a = .error e ∨ ∃ b, read a = .ok b) (he : ∃ a ∈ as, read a = .error e) :
    as.filterMapM read = .error e := by
  induction as with
  | nil =>
    obtain ⟨a, ha, -⟩ := he
    cases ha
  | cons a as ih =>
    obtain ⟨ha, has⟩ := List.forall_mem_cons.1 h
    rw [List.filterMapM_cons]
    rcases ha with ha | ⟨b, ha⟩
    · rw [ha]
      rfl
    · have hrest : ∃ a ∈ as, read a = .error e := by
        obtain ⟨a', hmem, he⟩ := he
        rcases List.mem_cons.1 hmem with rfl | hmem
        · rw [ha] at he
          cases he
        · exact ⟨a', hmem, he⟩
      simp only [ha, bind, Except.bind, ih has hrest]
      cases b <;> rfl

/-- A test that never fails picks the items for which it answers with true. -/
theorem filterM_eq_ok {α : Type} {test : α → Except ε Bool} {as : List α}
    (h : ∀ a ∈ as, ∃ chosen, test a = .ok chosen) :
    as.filterM test = .ok (as.filter fun a => (test a).toOption == some true) := by
  have haux : ∀ taken, as.filterAuxM test taken =
      .ok ((as.filter fun a => (test a).toOption == some true).reverse ++ taken) := by
    induction as with
    | nil => exact fun _ => rfl
    | cons a as ih =>
      intro taken
      obtain ⟨⟨chosen, ha⟩, has⟩ := List.forall_mem_cons.1 h
      rw [List.filterAuxM, ha]
      refine (ih has _).trans ?_
      cases chosen <;> simp [ha, Except.toOption]
  rw [List.filterM, haux]
  simp [bind, Except.bind, pure, Except.pure]

/-- A test may fail. If it does not, it leaves some of the items in their order. -/
theorem sublist_of_filterM {α : Type} {test : α → Except ε Bool} {as bs : List α}
    (h : as.filterM test = .ok bs) : bs.Sublist as := by
  have haux : ∀ taken cs, as.filterAuxM test taken = .ok cs →
      ∃ chosen : List α, chosen.Sublist as ∧ cs = chosen.reverse ++ taken := by
    clear h
    induction as with
    | nil =>
      intro taken cs h
      cases h
      exact ⟨[], .slnil, rfl⟩
    | cons a as ih =>
      intro taken cs h
      obtain ⟨yes, -, h⟩ := bind_eq_ok_iff.1 h
      obtain ⟨chosen, hsub, rfl⟩ := ih _ _ h
      cases yes with
      | true => exact ⟨a :: chosen, hsub.cons_cons a, by simp⟩
      | false => exact ⟨chosen, hsub.cons a, rfl⟩
  obtain ⟨cs, hcs, h⟩ := bind_eq_ok_iff.1 h
  obtain ⟨chosen, hsub, rfl⟩ := haux [] cs hcs
  cases h
  simpa using hsub

/-- A test that never fails has an answer on a list. -/
theorem exists_anyM {α : Type} {test : α → Except ε Bool} {as : List α}
    (h : ∀ a ∈ as, ∃ b, test a = .ok b) : ∃ b, as.anyM test = .ok b := by
  induction as with
  | nil => exact ⟨false, rfl⟩
  | cons a as ih =>
    obtain ⟨⟨b, hb⟩, has⟩ := List.forall_mem_cons.1 h
    rw [List.anyM, hb]
    cases b with
    | true => exact ⟨true, rfl⟩
    | false => exact ih has

/-- Asking for an answer once more does not change it. -/
theorem bind_ite_true (answer : Except ε Bool) :
    (answer >>= fun yes => if yes then .ok true else .ok false) = answer := by
  rcases answer with _ | _ | _ <;> rfl

theorem toBool_iff : x.toBool ↔ ∃ a, x = .ok a := by
  cases x <;> simp [Except.toBool]

theorem toBool_eq_false_iff : x.toBool = false ↔ ∃ e, x = .error e := by
  cases x <;> simp [Except.toBool]

theorem eq_ok_of_toOption {a : α} (h : x.toOption = some a) : x = .ok a := by
  cases x with
  | error e => cases h
  | ok b => rw [Option.some.inj h]

theorem toOption_map (f : α → β) (x : Except ε α) :
    (x.map f).toOption = x.toOption.map f := by cases x <;> rfl

@[simp] theorem mapError_ok {ε' : Type} (f : ε → ε') (a : α) :
    (Except.ok a).mapError f = .ok a := rfl

@[simp] theorem mapError_error {ε' : Type} (f : ε → ε') (e : ε) :
    (Except.error e : Except ε α).mapError f = .error (f e) := rfl

theorem mapError_eq_ok_iff {ε' : Type} {f : ε → ε'} {a : α} : x.mapError f = .ok a ↔ x = .ok a := by
  cases x <;> simp

end MarkdownVault
