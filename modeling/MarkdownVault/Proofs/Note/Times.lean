import MarkdownVault.Note
import MarkdownVault.Proofs.Lookup
import MarkdownVault.Proofs.Result

/-!
# Times in metadata

A date or a moment is only read if it exists, so whatever the metadata of a note hold under a key
is on the calendar.
-/

namespace MarkdownVault

/-- The dates and moments that exist, and all other values. -/
def Value.OnCalendar : Value → Prop
  | .date d => d.valid
  | .moment t => t.valid
  | _ => True

namespace Yaml

/-! ## Scalars and collections -/

theorem onCalendar_of_timeOf {s : String} {v : Value} (h : timeOf s = .ok v) : v.OnCalendar := by
  unfold timeOf at h
  split at h
  · cases h
  · split at h
    all_goals
      dsimp only at h
      split at h
      case isTrue hvalid => cases h; exact hvalid
      case isFalse => cases h

theorem onCalendar_of_bytesOf {s : String} {v : Value} (h : bytesOf s = .ok v) :
    v.OnCalendar := by
  unfold bytesOf at h
  split at h
  · cases h
  · split at h
    · cases h; trivial
    · cases h

theorem onCalendar_of_scalarOf {tag : Tag} {s : String} {v : Value} (h : scalarOf tag s = .ok v) :
    v.OnCalendar := by
  cases tag with
  | time => exact onCalendar_of_timeOf h
  | bytes => exact onCalendar_of_bytesOf h
  | null | text => cases h; trivial
  | truth | int | float =>
    obtain ⟨x, -, rfl⟩ := map_eq_ok_iff.1 h
    trivial
  | pairs | set | list | map | merge | default | unknown => cases h

theorem scalarOf_ne_map {tag : Tag} {s : String} {entries : List (Value × Value)} :
    scalarOf tag s ≠ .ok (.map entries) := by
  intro h
  cases tag with
  | time =>
    simp only [scalarOf, timeOf] at h
    split at h
    · cases h
    · split at h <;> split at h <;> cases h
  | bytes =>
    simp only [scalarOf, bytesOf] at h
    split at h
    · cases h
    · split at h <;> cases h
  | truth | int | float => obtain ⟨x, -, ⟨⟩⟩ := map_eq_ok_iff.1 h
  | _ => cases h

theorem onCalendar_of_valueAt {within : Bool} {depth : Nat} {n : Node} {v : Value}
    (h : valueAt within depth n = .ok v) : v.OnCalendar := by
  unfold valueAt at h
  cases n with
  | pending anchor => cases h
  | enclosing levels => cases h; trivial
  | scalar tag s =>
    dsimp only at h
    split at h
    case h_1 hscalar => cases h; exact onCalendar_of_scalarOf hscalar
    case h_2 => cases h
  | sequence tag items =>
    cases tag with
    | list | pairs =>
      obtain ⟨x, -, rfl⟩ := map_eq_ok_iff.1 h
      trivial
    | _ => cases h
  | mapping tag entries =>
    cases tag with
    | map | set =>
      obtain ⟨x, -, rfl⟩ := map_eq_ok_iff.1 h
      trivial
    | list | pairs | unknown | merge | default => cases h
    | _ =>
      dsimp only at h
      split at h
      · exact onCalendar_of_scalarOf (mapError_eq_ok_iff.1 h)
      · cases h

/-! ## Entries of mappings -/

/-- Only values on the calendar stand in entries. -/
def EntriesOnCalendar (entries : List (Value × Value)) : Prop := ∀ e ∈ entries, e.2.OnCalendar

/-- The same of entries that may be faults. -/
def LentOnCalendar (lent : List (Except Misfit (Value × Value))) : Prop :=
  ∀ e, .ok e ∈ lent → e.2.OnCalendar

theorem LentOnCalendar.append {first second : List (Except Misfit (Value × Value))}
    (hfirst : LentOnCalendar first) (hsecond : LentOnCalendar second) :
    LentOnCalendar (first ++ second) := by
  intro e he
  rcases List.mem_append.1 he with he | he
  · exact hfirst e he
  · exact hsecond e he

theorem ok_of_pairUp {α β : Type} {a : Except Misfit α} {b : Except Misfit β} {p : α × β}
    (h : pairUp a b = .ok p) : a = .ok p.1 ∧ b = .ok p.2 := by
  cases a <;> cases b <;> cases h
  exact ⟨rfl, rfl⟩

theorem lentOnCalendar_ownEntries (within : Bool) (depth : Nat) (entries : List (Node × Node)) :
    LentOnCalendar (ownEntries within depth entries) := by
  induction entries with
  | nil => simp [LentOnCalendar, ownEntries]
  | cons e es ih =>
    have hcons (key : Except Misfit Value) :
        LentOnCalendar (pairUp key (valueAt within depth e.2) :: ownEntries within depth es) := by
      intro p hp
      rcases List.mem_cons.1 hp with hp | hp
      · exact onCalendar_of_valueAt (ok_of_pairUp hp.symm).2
      · exact ih p hp
    unfold ownEntries
    split
    · exact ih
    · exact hcons _
    · exact hcons _

mutual

theorem lentOnCalendar_merged {within : Bool} {depth : Nat} :
    ∀ (entries : List (Node × Node)) {lent : List (Except Misfit (Value × Value))},
      merged within depth entries = .ok lent → LentOnCalendar lent
  | [], lent, h => by
    rw [merged] at h
    cases h
    simp [LentOnCalendar]
  | (key, lender) :: es, lent, h => by
    unfold merged at h
    split at h
    case h_1 heq => cases heq
    case h_2 _ _ inner _ heq =>
      cases heq
      split at h
      case isFalse => cases h
      obtain ⟨first, hfirst, h⟩ := bind_eq_ok_iff.1 h
      obtain ⟨rest, hrest, h⟩ := bind_eq_ok_iff.1 h
      cases h
      exact ((lentOnCalendar_merged inner hfirst).append
        (lentOnCalendar_ownEntries within depth inner)).append (lentOnCalendar_merged es hrest)
    case h_3 _ _ items _ heq =>
      cases heq
      obtain ⟨first, hfirst, h⟩ := bind_eq_ok_iff.1 h
      obtain ⟨rest, hrest, h⟩ := bind_eq_ok_iff.1 h
      cases h
      exact (lentOnCalendar_mergedItems items hfirst).append (lentOnCalendar_merged es hrest)
    case h_4 => cases h
    case h_5 heq =>
      cases heq
      exact lentOnCalendar_merged es h

theorem lentOnCalendar_mergedItems {within : Bool} {depth : Nat} :
    ∀ (items : List Node) {lent : List (Except Misfit (Value × Value))},
      mergedItems within depth items = .ok lent → LentOnCalendar lent
  | [], lent, h => by
    rw [mergedItems] at h
    cases h
    simp [LentOnCalendar]
  | .mapping _ inner :: ns, lent, h => by
    rw [mergedItems] at h
    split at h
    case isFalse => cases h
    obtain ⟨first, hfirst, h⟩ := bind_eq_ok_iff.1 h
    obtain ⟨rest, hrest, h⟩ := bind_eq_ok_iff.1 h
    cases h
    exact ((lentOnCalendar_mergedItems ns hrest).append (lentOnCalendar_merged inner hfirst)).append
      (lentOnCalendar_ownEntries within depth inner)
  | .scalar _ _ :: _, lent, h => by simp [mergedItems] at h
  | .sequence _ _ :: _, lent, h => by simp [mergedItems] at h
  | .pending _ :: _, lent, h => by simp [mergedItems] at h
  | .enclosing _ :: _, lent, h => by simp [mergedItems] at h

end

theorem mem_of_gather {α : Type} {lent : List (Except Misfit α)} {as : List α}
    (h : gather lent = .ok as) : ∀ a ∈ as, .ok a ∈ lent := by
  induction lent generalizing as with
  | nil => cases h; simp
  | cons first rest ih =>
    obtain ⟨⟨b, bs⟩, hpair, rfl⟩ := map_eq_ok_iff.1 h
    obtain ⟨rfl, hrest⟩ := ok_of_pairUp hpair
    intro a ha
    rcases List.mem_cons.1 ha with rfl | ha
    · simp
    · exact List.mem_cons_of_mem _ (ih hrest a ha)

theorem EntriesOnCalendar.putEntry {entries : List (Value × Value)} {v : Value}
    (h : EntriesOnCalendar entries) (key : Value) (hv : v.OnCalendar) :
    EntriesOnCalendar (Value.putEntry entries key v) := by
  unfold Value.putEntry
  split
  · intro e he
    obtain ⟨old, hold, rfl⟩ := List.mem_map.1 he
    split
    · exact hv
    · exact h old hold
  · intro e he
    rcases List.mem_append.1 he with he | he
    · exact h e he
    · cases List.mem_singleton.1 he
      exact hv

theorem onCalendar_takenFrom {whole v : Value} {depth : Nat} (hwhole : whole.OnCalendar)
    (h : v.OnCalendar) : (Value.takenFrom whole depth v).OnCalendar := by
  cases v with
  | enclosing levels =>
    rw [Value.takenFrom]
    split
    · exact hwhole
    · trivial
  | list items | set items | map entries => rw [Value.takenFrom]; trivial
  | _ => exact h

/-- Entries that are taken from their mapping stay on the calendar. -/
theorem EntriesOnCalendar.own {entries : List (Value × Value)} (h : EntriesOnCalendar entries) :
    EntriesOnCalendar (Value.ownEntries entries) := by
  have htaken (whole : Value) (hwhole : whole.OnCalendar) :
      EntriesOnCalendar (Value.entriesTakenFrom whole 0 entries) := by
    induction entries with
    | nil => exact h
    | cons e es ih =>
      obtain ⟨he, hes⟩ := List.forall_mem_cons.1 h
      exact List.forall_mem_cons.2 ⟨onCalendar_takenFrom hwhole he, ih hes⟩
  exact htaken (.map entries) trivial

theorem entriesOnCalendar_mapOf {entries : List (Value × Value)} (h : EntriesOnCalendar entries) :
    EntriesOnCalendar (mapOf entries) := by
  have hfold (done : List (Value × Value)) (hdone : EntriesOnCalendar done) :
      EntriesOnCalendar (entries.foldl (fun es e => Value.putEntry es e.1 e.2) done) := by
    induction entries generalizing done with
    | nil => exact hdone
    | cons e es ih =>
      obtain ⟨he, hes⟩ := List.forall_mem_cons.1 h
      exact ih hes _ (hdone.putEntry e.1 he)
  exact hfold [] (by simp [EntriesOnCalendar])

theorem entriesOnCalendar_of_entriesAt {within : Bool} {depth : Nat}
    {entries : List (Node × Node)} {es : List (Value × Value)}
    (h : entriesAt within depth entries = .ok es) : EntriesOnCalendar es := by
  unfold entriesAt at h
  split at h
  case h_1 => cases h
  case h_2 lent hlent =>
    obtain ⟨gathered, hgather, rfl⟩ := map_eq_ok_iff.1 h
    apply entriesOnCalendar_mapOf
    intro e he
    exact ((lentOnCalendar_merged entries hlent).append
      (lentOnCalendar_ownEntries within depth entries)) e (mem_of_gather hgather e he)

theorem entriesOnCalendar_of_valueOf {reading : Reading} {text : String}
    {entries : List (Value × Value)} (h : valueOf reading text = .ok (.map entries)) :
    EntriesOnCalendar entries := by
  obtain ⟨node, -, h⟩ := bind_eq_ok_iff.1 h
  cases node with
  | none => cases h
  | some n =>
    have hvalue : valueAt false 0 n = .ok (.map entries) := mapError_eq_ok_iff.1 h
    unfold valueAt at hvalue
    cases n with
    | pending anchor => cases hvalue
    | enclosing levels => cases hvalue
    | scalar tag s =>
      dsimp only at hvalue
      split at hvalue
      case h_1 hscalar => cases hvalue; exact absurd hscalar scalarOf_ne_map
      case h_2 => cases hvalue
    | sequence tag items =>
      cases tag with
      | list | pairs => obtain ⟨x, -, ⟨⟩⟩ := map_eq_ok_iff.1 hvalue
      | _ => cases hvalue
    | mapping tag es =>
      cases tag with
      | map =>
        obtain ⟨x, hentries, ⟨⟩⟩ := map_eq_ok_iff.1 hvalue
        exact entriesOnCalendar_of_entriesAt hentries
      | set => obtain ⟨x, -, ⟨⟩⟩ := map_eq_ok_iff.1 hvalue
      | list | pairs | unknown | merge | default => cases hvalue
      | _ =>
        dsimp only at hvalue
        split at hvalue
        · exact absurd (mapError_eq_ok_iff.1 hvalue) scalarOf_ne_map
        · cases hvalue

end Yaml

/-! ## Metadata of notes -/

/-- Only values on the calendar stand under keys. -/
def Properties.OnCalendar (ps : Properties) : Prop := ∀ p ∈ ps, p.2.OnCalendar

namespace Properties

variable {ps : Properties}

theorem OnCalendar.put {v : Value} (h : ps.OnCalendar) (key : String) (hv : v.OnCalendar) :
    (ps.put key v).OnCalendar := by
  unfold Properties.put
  split
  · intro p hp
    obtain ⟨old, hold, rfl⟩ := List.mem_map.1 hp
    split
    · exact hv
    · exact h old hold
  · intro p hp
    rcases List.mem_append.1 hp with hp | hp
    · exact h p hp
    · cases List.mem_singleton.1 hp
      exact hv

theorem OnCalendar.lookup {key : String} {v : Value} (h : ps.OnCalendar)
    (hv : ps.lookup key = some v) : v.OnCalendar :=
  h (key, v) (mem_of_lookup hv)

end Properties

namespace Note

theorem onCalendar_propertiesOf {entries : List (Value × Value)}
    (h : Yaml.EntriesOnCalendar entries) : (propertiesOf entries).OnCalendar := by
  have hfold (ps : Properties) (hps : ps.OnCalendar) :
      Properties.OnCalendar (entries.foldl (fun ps e => Properties.put ps e.1.shown e.2) ps) := by
    induction entries generalizing ps with
    | nil => exact hps
    | cons e es ih =>
      obtain ⟨he, hes⟩ := List.forall_mem_cons.1 h
      exact ih hes _ (hps.put _ he)
  exact hfold [] (by simp [Properties.OnCalendar])

theorem onCalendar_of_frontMatterOf {content body : String} {ps : Properties}
    (h : frontMatterOf content = .ok (ps, body)) : ps.OnCalendar := by
  have hempty : Properties.OnCalendar [] := by simp [Properties.OnCalendar]
  unfold frontMatterOf at h
  dsimp only at h
  split at h
  · cases h
    exact hempty
  · split at h
    · cases h
      exact hempty
    · split at h
      case h_1 hvalue =>
        cases h
        exact onCalendar_propertiesOf (Yaml.entriesOnCalendar_of_valueOf hvalue).own
      case h_2 | h_3 => cases h; exact hempty
      case h_4 => cases h

/-- The metadata of a note that is read are on the calendar. -/
theorem onCalendar_of_ofText {path content : String} {n : Note} (h : ofText path content = .ok n) :
    n.frontMatter.OnCalendar := by
  obtain ⟨⟨ps, body⟩, hparts, h⟩ := bind_eq_ok_iff.1 h
  cases h
  exact onCalendar_of_frontMatterOf hparts

end Note

end MarkdownVault
