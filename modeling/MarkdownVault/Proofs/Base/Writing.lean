import MarkdownVault.Proofs.Base.Change
import MarkdownVault.Proofs.Vault.Path
import MarkdownVault.Proofs.Vault.Writing
import MarkdownVault.Proofs.Yaml.LineEnds

/-!
# Bases that are written

Bases are created, changed, or made for conversations. Each time everything that can be refused is
refused before the one write that ends the operation, so that it leaves the vault as it was or one
file written. What is read from that file is the base that was answered.
-/

namespace MarkdownVault

namespace Session

/-! ## One write at the end -/

variable {path : String} {now : Binary64} {v v' : Vault} {f f' : BaseFile} {failure : Failure}

/-- The base that a vault holds under a path. -/
def loaded (path : String) (v : Vault) : Except Failure BaseFile :=
  (v.store.read (basePath path)).1.bind fun text =>
    (parsedBase text).map fun b => ⟨basePath path, b⟩

/-- A vault after the base under a path was read. -/
def afterLoad (path : String) (v : Vault) : Vault :=
  { v with store := (v.store.read (basePath path)).2 }

theorem run_loadBase (path : String) (now : Binary64) (v : Vault) :
    loadBase path now v = (loaded path v, afterLoad path v) := by
  have hread : Backend.read (basePath path) v.store = v.store.read (basePath path) := rfl
  simp only [loadBase, run_bind, Vault.run_readText, hread, loaded, afterLoad]
  cases (v.store.read (basePath path)).1 with
  | error g => rfl
  | ok text =>
    simp only [Except.bind]
    cases parsedBase text <;> rfl

theorem spared_afterLoad (failure : Failure) (path : String) (v : Vault) :
    Vault.Spared failure v (afterLoad path v) :=
  ⟨rfl, rfl, .unread (Store.unread_read (basePath path) v.store)⟩

theorem spared_of_afterLoad (h : Vault.Spared failure (afterLoad path v) v') :
    Vault.Spared failure v v' := ⟨h.name, h.memo, h.store.of_read⟩

theorem wrote_of_afterLoad {file content : String}
    (h : Vault.Wrote file content (afterLoad path v) v') : Vault.Wrote file content v v' :=
  ⟨h.name, h.memo, h.store.of_read⟩

theorem loaded_eq_ok_iff : loaded path v = .ok f ↔ ∃ text b,
    (v.store.read (basePath path)).1 = .ok text ∧ Base.ofText text = .ok b ∧
      f = ⟨basePath path, b⟩ := by
  rw [loaded]
  cases (v.store.read (basePath path)).1 with
  | error g => simp [Except.bind]
  | ok text =>
    cases hparse : Base.ofText text with
    | error fault => simp [Except.bind, parsedBase, Except.map, hparse]
    | ok b => simp [Except.bind, parsedBase, Except.map, hparse, eq_comm]

/-- A change reads the base, and writes it only if the change can be made. -/
theorem run_changeBase (path : String) (change : BaseChange) (now : Binary64) (v : Vault) :
    changeBase path change now v = match loaded path v with
      | .error failure => (.error failure, afterLoad path v)
      | .ok f => match f.base.change? change with
        | none => (.error .invalidUpdate, afterLoad path v)
        | some b => writeBase { f with base := b } now (afterLoad path v) := by
  rw [changeBase, run_bind, run_loadBase]
  cases loaded path v with
  | error g => rfl
  | ok f =>
    simp only
    cases f.base.change? change <;> rfl

theorem spared_of_writeBase (h : writeBase f now v = (.error failure, v')) :
    Vault.Spared failure v v' := by
  rw [writeBase, run_bind] at h
  rcases hrun : Vault.writeThrough f.path f.base.text now v with ⟨g | ⟨⟩, w⟩
  · rw [hrun] at h
    cases h
    exact Vault.spared_of_writeThrough hrun
  · rw [hrun] at h
    cases h

theorem wrote_of_writeBase (h : writeBase f now v = (.ok f', v')) :
    f' = f ∧ Vault.Wrote f.path f.base.text v v' := by
  rw [writeBase, run_bind] at h
  rcases hrun : Vault.writeThrough f.path f.base.text now v with ⟨_ | ⟨⟩, w⟩
  · rw [hrun] at h
    cases h
  · rw [hrun] at h
    cases h
    exact ⟨rfl, Vault.wrote_of_writeThrough hrun⟩

/-- A base is created only if its views can be read. -/
theorem run_createBase (vault : Option String) (path : String) (filters folder : Option String)
    (columns : Option (List String)) (views : Value) (s : Session) :
    createBase vault path filters folder columns views s =
      match (newBase path filters folder columns).base.withViews? views with
      | none => (.error .invalidViews, s)
      | some b =>
        on vault (writeBase { newBase path filters folder columns with base := b }) s := by
  rw [createBase]
  simp only
  cases (newBase path filters folder columns).base.withViews? views <;> rfl

end Session

/-! ## Operations -/

/-- An operation that writes a base. -/
inductive BaseWrite where
  | create (path : String) (filters folder : Option String) (columns : Option (List String))
      (views : Value)
  | update (path : String) (change : BaseChange)
  | conversations (path : String) (source folder : Option String)

namespace BaseWrite

open Session

def path : BaseWrite → String
  | create path .. => path
  | update path _ => path
  | conversations path .. => path

def run (vault : Option String) : BaseWrite → SessionM BaseFile
  | create path filters folder columns views => createBase vault path filters folder columns views
  | update path change => updateBase vault path change
  | conversations path source folder => conversationsBase vault path source folder

/-- Whether what is given, and the base that is changed, are plain data. -/
def Plain (vault : Option String) (s : Session) : BaseWrite → Prop
  | create _ _ _ _ views => views.isPlain
  | update path change => (∀ p ∈ change.fields, p.2.isPlain) ∧
      ∀ old, (base vault path s).1 = .ok old → old.base.toValue.isPlain
  | conversations .. => True

/-- What an operation leaves and answers when it succeeds. -/
structure Answers (w : BaseWrite) (vault : Option String) (s : Session) (f : BaseFile)
    (s' : Session) : Prop where
  path : f.path = basePath w.path
  wrote : Session.Wrote vault f.path f.base.text s s'
  /-- The file reads as the base that was answered, with the standard view if it has none and
  without the unknown fields that are null. Every path that means the file may be given. -/
  readBack : w.Plain vault s → Yaml.Faithful f.base.entries →
    (∃ text, (on vault (Vault.readText f.path) s').1 = .ok text) →
    ∀ path, basePath path = f.path →
      ((base vault path s').1 = .ok ⟨f.path, f.base.completed.tidied⟩ ↔
        ∀ v ∈ f.base.views, v.Steady)
  kept : ∀ path change, w = update path change →
    ∃ old, (base vault path s).1 = .ok old ∧ old.base.Keeps change f.base

variable {vault : Option String} {s s' : Session} {f : BaseFile} {failure : Failure}

/-- Before a base is written nothing has happened but a read. -/
theorem spared_of_run_error (w : BaseWrite) (h : w.run vault s = (.error failure, s')) :
    s.Spared failure s' := by
  cases w with
  | create path filters folder columns views =>
    rw [run, run_createBase] at h
    split at h
    · cases h
      exact .refl _ s
    · exact spared_of_on_error h fun v v' => spared_of_writeBase
  | conversations path source folder =>
    rw [run, conversationsBase] at h
    exact spared_of_on_error h fun v v' => spared_of_writeBase
  | update path change =>
    rw [run, updateBase] at h
    refine spared_of_on_error h fun v v' hv => ?_
    rw [run_changeBase] at hv
    split at hv
    · cases hv
      exact spared_afterLoad _ path v
    · split at hv
      · cases hv
        exact spared_afterLoad _ path v
      · exact spared_of_afterLoad (spared_of_writeBase hv)

/-- An update reads the base that it changes and writes nothing else than what comes of it. -/
theorem exists_of_update_ok {path : String} {change : BaseChange}
    (h : updateBase vault path change s = (.ok f, s')) :
    ∃ old, (base vault path s).1 = .ok old ∧ old.base.Apart ∧ f.path = basePath path ∧
      old.base.change? change = some f.base ∧ Session.Wrote vault f.path f.base.text s s' := by
  obtain ⟨v, v', hfind, hrun, rfl⟩ := exists_of_on_ok h
  rw [run_changeBase] at hrun
  split at hrun
  · cases hrun
  case h_2 old hload =>
    split at hrun
    · cases hrun
    case h_2 b hchange =>
      obtain ⟨rfl, hwrote⟩ := wrote_of_writeBase hrun
      refine ⟨old, ?_, ?_, ?_, hchange, v, v', hfind, wrote_of_afterLoad hwrote, rfl⟩
      · simp only [base, on, hfind, run_loadBase, hload]
      · obtain ⟨text, b, -, hparse, rfl⟩ := loaded_eq_ok_iff.1 hload
        exact Base.apart_of_ofText hparse
      · obtain ⟨text, b, -, -, rfl⟩ := loaded_eq_ok_iff.1 hload
        simp only

/-- Every operation that succeeds wrote a base with its keys apart, and one of plain data if plain
data are given. -/
theorem wrote_of_run_ok (w : BaseWrite) (h : w.run vault s = (.ok f, s')) :
    f.path = basePath w.path ∧ Session.Wrote vault f.path f.base.text s s' ∧ f.base.Apart ∧
      (w.Plain vault s → f.base.toValue.isPlain) := by
  cases w with
  | create path filters folder columns views =>
    rw [run, run_createBase] at h
    split at h
    · cases h
    case h_2 b hviews =>
      obtain ⟨v, v', hfind, hrun, rfl⟩ := exists_of_on_ok h
      obtain ⟨rfl, hwrote⟩ := wrote_of_writeBase hrun
      refine ⟨?_, ⟨v, v', hfind, hwrote, rfl⟩, ?_, ?_⟩
      · simp only [newBase, BaseWrite.path]
      · exact Base.apart_of_withViews? (Base.apart_table _ filters folder columns) hviews
      · exact fun hplain => Base.isPlain_of_withViews? (Base.apart_table _ filters folder columns)
          (Base.isPlain_table _ filters folder columns) hplain hviews
  | conversations path source folder =>
    rw [run, conversationsBase] at h
    obtain ⟨v, v', hfind, hrun, rfl⟩ := exists_of_on_ok h
    obtain ⟨rfl, hwrote⟩ := wrote_of_writeBase hrun
    refine ⟨?_, ⟨v, v', hfind, hwrote, rfl⟩, Base.apart_conversations source folder,
      fun _ => Base.isPlain_conversations source folder⟩
    simp only [BaseWrite.path]
  | update path change =>
    obtain ⟨old, hold, hapart, hpath, hchange, hwrote⟩ := exists_of_update_ok h
    exact ⟨hpath, hwrote, Base.apart_of_change? hapart hchange,
      fun hplain => Base.isPlain_of_change? (hplain.2 old hold) hplain.1 hchange⟩

/-- What is written is read, if reading does not fail. -/
theorem readBack_of_wrote {path : String} {b : Base} (hapart : b.Apart) (hplain : b.toValue.isPlain)
    (hyaml : Yaml.Faithful b.entries) (hwrote : Session.Wrote vault (basePath path) b.text s s')
    (hread : ∃ text, (on vault (Vault.readText (basePath path)) s').1 = .ok text) :
    (base vault path s').1 = .ok ⟨basePath path, b.completed.tidied⟩ ↔ ∀ v ∈ b.views, v.Steady := by
  obtain ⟨v, v', hfind, hwrote, rfl⟩ := hwrote
  have hfound := find_putVault hfind hwrote.name
  obtain ⟨text, hread⟩ := hread
  simp only [on, hfound, Vault.run_readText] at hread
  obtain rfl := hwrote.store.read (Yaml.return_notMem_documentText b.entries) hread
  have hload : (base vault path { s with vaults := putVault v' s.vaults }).1 = loaded path v' := by
    simp only [base, on, hfound, run_loadBase]
  have hstore : (v'.store.read (basePath path)).1 = .ok (Base.text b) := hread
  rw [hload, loaded_eq_ok_iff,
    ← Base.ofText_text hapart (hyaml.finiteValueOf (Base.isPlain_entries hplain))]
  simp [hstore]

theorem answers_of_run_ok (w : BaseWrite) (h : w.run vault s = (.ok f, s')) :
    w.Answers vault s f s' := by
  obtain ⟨hpath, hwrote, hapart, hplain⟩ := wrote_of_run_ok w h
  refine ⟨hpath, hwrote, fun hw hyaml hread path hmeans => ?_, ?_⟩
  · rw [← hmeans] at hwrote hread ⊢
    exact readBack_of_wrote hapart (hplain hw) hyaml hwrote hread
  · rintro path change rfl
    obtain ⟨old, hold, hapart, -, hchange, -⟩ := exists_of_update_ok h
    exact ⟨old, hold, Base.keeps_of_change? hapart hchange⟩

/-- An operation that writes a base either fails and leaves every file and every graph as it was, or
it writes the one file of the base and answers with what that file reads as. An update keeps what it
is not asked to change. What is new after a failure are marks of what was read and, if the file
system refuses to write, folders. -/
theorem run_answers (w : BaseWrite) (vault : Option String) (s : Session) :
    (∀ failure s', w.run vault s = (.error failure, s') → s.Spared failure s') ∧
      ∀ f s', w.run vault s = (.ok f, s') → w.Answers vault s f s' :=
  ⟨fun _ _ => spared_of_run_error w, fun _ _ => answers_of_run_ok w⟩

/-! ### Updates of a vault with one base -/

/-- A vault in memory that holds one base. -/
def notebook (content : String) (reads : List String) (memo : GraphMemo) : Vault :=
  ⟨"notes", .memory ⟨"notes", [("v.base", content)], [], [], reads⟩, memo⟩

/-- A session with that vault alone. -/
def desk (content : String) (reads : List String) (memo : GraphMemo) : Session :=
  ⟨[notebook content reads memo], .ofNat 0⟩

variable {content : String} {b b' : Base} {change : BaseChange} (reads : List String)
  (memo : GraphMemo)

theorem basePath_v : basePath "v" = "v.base" := by decide

theorem find_desk : (desk content reads memo).find none = .ok (notebook content reads memo) := rfl

theorem loaded_notebook (h : Base.ofText content = .ok b) :
    loaded "v" (notebook content reads memo) = .ok ⟨"v.base", b⟩ := by
  rw [loaded_eq_ok_iff, basePath_v]
  exact ⟨content, b, by simp [notebook, Store.read, Memory.read], h, rfl⟩

theorem afterLoad_notebook :
    afterLoad "v" (notebook content reads memo) = notebook content ("v.base" :: reads) memo := by
  rw [afterLoad, basePath_v]
  rfl

theorem readText_desk :
    (on none (Vault.readText "v.base") (desk content reads memo)).1 = .ok content := by
  simp only [on, find_desk, Vault.run_readText]
  rfl

theorem base_desk (h : Base.ofText content = .ok b) :
    (base none "v" (desk content reads memo)).1 = .ok ⟨"v.base", b⟩ := by
  simp only [base, on, find_desk, run_loadBase, loaded_notebook reads memo h]

theorem run_update_desk (h : Base.ofText content = .ok b) (hchange : b.change? change = some b') :
    (update "v" change).run none (desk content reads memo) =
      (.ok ⟨"v.base", b'⟩, desk b'.text ("v.base" :: reads) memo.invalidate) := by
  simp only [run, updateBase, on, find_desk, run_changeBase, loaded_notebook reads memo h, hchange,
    afterLoad_notebook]
  rfl

end BaseWrite

/-! ### A base that gets a formula -/

theorem Yaml.valueOf_emptyText : valueOf .strict "\x7b\x7d" = .ok (.map []) := by
  have htokens : Token.ofText .strict "\x7b\x7d".toList =
      .ok [.flowMappingStart, .flowMappingEnd] :=
    tokens_of_chars rfl (by decide +kernel)
  have hvalue : (Node.mapping .map []).value = .ok (.map []) := by
    simp only [Node.value, valueAt, entriesAt, merged, ownEntries]
    rfl
  exact (valueOf_of_tokens htokens rfl).trans hvalue

/-- A base that has nothing but the standard view. -/
def Base.blank : Base :=
  { filters := .null, formulas := none, properties := none, views := [.standard], extra := [] }

theorem Base.ofText_emptyText : ofText "\x7b\x7d" = .ok blank :=
  ofText_eq_ok_iff.2 ⟨_, Yaml.finiteValueOf_eq_ok_iff.2 ⟨Yaml.valueOf_emptyText, rfl⟩, rfl⟩

/-- The formula `n`, written as a number. -/
def BaseChange.counting : BaseChange :=
  { BaseChange.none with formulas := .map [(.text "n", .int 1)] }

theorem BaseWrite.run_answers_counting :
    ∃ f s', (update "v" .counting).run none (desk "\x7b\x7d" [] .empty) = (.ok f, s') ∧
      f = ⟨"v.base", counted.tidied⟩ ∧ f.base.views = Base.blank.views ∧
      (Session.base none "v" s').1 = .ok f := by
  have hchange : Base.blank.change? .counting = some counted.tidied := rfl
  have hrun := run_update_desk [] .empty Base.ofText_emptyText hchange
  refine ⟨_, _, hrun, rfl, rfl, ?_⟩
  have hanswers := (run_answers (update "v" .counting) none _).2 _ _ hrun
  have hplain : (update "v" .counting).Plain none (desk "\x7b\x7d" [] .empty) := by
    refine ⟨by decide, fun old hold => ?_⟩
    rw [base_desk [] .empty Base.ofText_emptyText] at hold
    cases hold
    decide
  have hyaml : Yaml.Faithful counted.tidied.entries := by
    rw [Base.entries_tidied]
    exact Yaml.faithful_counted
  have hsteady : ∀ v ∈ counted.tidied.views, v.Steady := by
    intro v hv _ p hp
    obtain rfl : v = .standard := List.mem_singleton.1 hv
    cases hp
  exact (hanswers.readBack hplain hyaml ⟨_, readText_desk _ _⟩ "v" basePath_v).2 hsteady

/-! ### A base whose view comes back another -/

/-- A view that is not grouped comes back grouped, after an update that changes nothing and in one
that changes another section. -/
theorem BaseWrite.update_regrouped :
    (∃ f s', (update "v" .none).run none (desk regroupedText [] .empty) = (.ok f, s') ∧
      f = ⟨"v.base", regrouped⟩ ∧ f.base.toValue.isPlain ∧ Yaml.Faithful f.base.entries ∧
      (Session.base none "v" s').1 = .ok ⟨"v.base", grouped⟩ ∧
      grouped ≠ f.base.completed.tidied) ∧
    ∃ f s', (update "v" { BaseChange.none with filters := .text "a" }).run none
        (desk regroupedText [] .empty) = (.ok f, s') ∧
      f.base.views = grouped.views ∧ f.base.views ≠ regrouped.views.map View.tidied := by
  have hgroups : grouped.views.map View.groupBy ≠ regrouped.views.map View.groupBy := by decide
  constructor
  · have hchange : regrouped.change? .none = some regrouped := rfl
    have hrun := run_update_desk [] .empty Base.ofText_regroupedText hchange
    refine ⟨_, _, hrun, rfl, by decide, Yaml.faithful_regrouped,
      base_desk _ _ Base.ofText_text_regrouped, fun heq => hgroups ?_⟩
    exact congrArg (fun b => b.views.map View.groupBy) heq
  · have hchange : regrouped.change? { BaseChange.none with filters := .text "a" } =
        some { grouped with filters := .text "a" } := rfl
    have hrun := run_update_desk [] .empty Base.ofText_regroupedText hchange
    refine ⟨_, _, hrun, rfl, fun heq => hgroups ?_⟩
    exact congrArg (List.map View.groupBy) heq

end MarkdownVault
