import Mathlib.Data.List.Induction
import MarkdownVault.Proofs.Lookup
import MarkdownVault.Proofs.Number.Rounding
import MarkdownVault.Proofs.Result
import MarkdownVault.Proofs.Vault.Steps

/-!
# Listings that are kept

A listing from a vault on disk may be one that was kept. It is then a listing that the folder had
less than thirty seconds ago, and from then on the vault has not been written or made to forget its
listings.
-/

namespace MarkdownVault

/-! ## Time -/

namespace Binary64

/-- The seconds from one time to another, if both are numbers. -/
def elapsed? : Binary64 → Binary64 → Option ℚ
  | .finite a m e, .finite b n f => some (exact b n f - exact a m e)
  | _, _ => none

/-- A time is not after another. -/
def Upto (earlier later : Binary64) : Prop := earlier = later ∨ earlier.lt later = true

theorem eq_nan_of_magnitude? {x : Binary64} (h : x.magnitude? = none) : x = .nan := by
  cases x with
  | nan => rfl
  | infinite negative => cases negative <;> cases h
  | finite negative m e => cases h

theorem magnitude?_of_lt {x y : Binary64} (h : x.lt y = true) :
    ∃ m n, x.magnitude? = some m ∧ y.magnitude? = some n ∧ m < n := by
  cases hx : x.magnitude? with
  | none =>
    rw [eq_nan_of_magnitude? hx] at h
    cases h
  | some m =>
    cases hy : y.magnitude? with
    | none =>
      rw [eq_nan_of_magnitude? hy] at h
      cases x <;> cases h
    | some n => exact ⟨m, n, rfl, rfl, (lt_iff hx hy).1 h⟩

theorem Upto.trans {x y z : Binary64} (hxy : x.Upto y) (hyz : y.Upto z) : x.Upto z := by
  rcases hxy with rfl | hxy
  · exact hyz
  rcases hyz with rfl | hyz
  · exact .inr hxy
  obtain ⟨m, n, hx, hy, hmn⟩ := magnitude?_of_lt hxy
  obtain ⟨n', p, hy', hz, hnp⟩ := magnitude?_of_lt hyz
  obtain rfl : n = n' := Option.some.inj (hy.symm.trans hy')
  exact .inr ((lt_iff hx hz).2 (hmn.trans hnp))

end Binary64

namespace Listing

theorem lifetime_eq : lifetime = .finite false (30 * 2 ^ 48) (-48) := by decide +kernel

theorem magnitude?_lifetime :
    lifetime.magnitude? = some ((((30 : Nat) : ℚ) : WithTop ℚ) : Magnitude) := by
  have hexact : Binary64.exact false (30 * 2 ^ 48) (-48) = (30 : Nat) := by
    rw [Binary64.exact_false]
    norm_num
  rw [lifetime_eq, Binary64.magnitude?, hexact]

/-- A listing that is used again is younger than its lifetime. -/
theorem elapsed?_of_isFresh {now : Binary64} {l : Listing} (hclock : l.time.Upto now)
    (h : l.isFresh now = true) :
    ∃ seconds, Binary64.elapsed? l.time now = some seconds ∧ 0 ≤ seconds ∧ seconds < 30 := by
  obtain ⟨time, files⟩ := l
  rw [isFresh] at h
  simp only at h hclock
  rcases time with _ | ⟨_ | _⟩ | ⟨a, m, e⟩ <;> rcases now with _ | ⟨_ | _⟩ | ⟨b, n, f⟩
  case finite.finite =>
    refine ⟨_, rfl, ?_, ?_⟩
    · rcases hclock with hsame | hbefore
      · cases hsame
        simp
      · have hlt := (Binary64.lt_iff rfl rfl).1 hbefore
        exact sub_nonneg.2 (WithTop.coe_lt_coe.1 (WithBot.coe_lt_coe.1 hlt)).le
    · rw [Binary64.negate, Binary64.add, Binary64.exact_not, ← sub_eq_add_neg] at h
      exact_mod_cast Binary64.lt_of_ofRat_lt (by norm_num) (by norm_num) magnitude?_lifetime h
  -- A difference that is infinite or no number is below the lifetime only if the clock goes back.
  all_goals
    exfalso
    simp [lifetime_eq, Binary64.Upto, Binary64.add, Binary64.negate, Binary64.lt,
      Binary64.compare?, compare_lt_iff_lt] at h hclock

end Listing

/-! ## Requests -/

namespace Disk

/-- What a request for a listing comes to. -/
inductive Lists (now : Binary64) (directory : Option Spelling) (d : Disk) :
    Except Failure (List FileEntry) × Disk → Prop
  | invalid {f : Failure} (invalid : directoryKey directory = .error f) :
      Lists now directory d (.error f, d)
  | kept {key : String} {l : Listing} (named : directoryKey directory = .ok key)
      (kept : (key, l) ∈ d.listings) (fresh : l.isFresh now = true) :
      Lists now directory d (.ok l.files, d)
  | missing {key : String} {f : Failure} (named : directoryKey directory = .ok key)
      (missing : d.folderAt key = .error f) : Lists now directory d (.error f, d)
  | shown {key : String} {found : Route × Tree} (named : directoryKey directory = .ok key)
      (shown : d.folderAt key = .ok found) : Lists now directory d
        (.ok (filesBelow found.1 found.2), d.keep key ⟨now, filesBelow found.1 found.2⟩)

theorem lists_list (now : Binary64) (directory : Option Spelling) (d : Disk) :
    d.Lists now directory (d.list now directory) := by
  rw [list]
  cases hkey : directoryKey directory with
  | error f => exact .invalid hkey
  | ok key =>
    dsimp only
    cases hkept : (d.listings.lookup key).filter (Listing.isFresh now) with
    | some l =>
      obtain ⟨hlookup, hfresh⟩ := Option.filter_eq_some_iff.1 hkept
      exact .kept hkey (mem_of_lookup hlookup) hfresh
    | none =>
      cases hfolder : d.folderAt key with
      | error f => exact .missing hkey hfolder
      | ok found => exact .shown hkey hfolder

theorem folderAt_eq_ok_iff {d : Disk} {key : String} {found : Route × Tree} :
    d.folderAt key = .ok found ↔ d.startAt key = .ok found.1 ∧
      ∃ children, found.2 = .folder children ∧ d.find? found.1 = some (.folder children) := by
  obtain ⟨route, folder⟩ := found
  rw [folderAt, bind_eq_ok_iff]
  constructor
  · rintro ⟨route', hroute, h⟩
    split at h
    case h_1 children hfind =>
      cases h
      exact ⟨hroute, children, rfl, hfind⟩
    case h_2 => cases h
  · rintro ⟨hroute, children, rfl, hfind⟩
    refine ⟨route, hroute, ?_⟩
    simp only at hfind
    rw [hfind]
    rfl

/-- A folder that is listed is listed as before when other folders are made. -/
theorem filesBelow_makeFolders {d : Disk} {key : String} {found : Route × Tree}
    (h : d.folderAt key = .ok found) (route : Route) : ∃ found',
      folderAt { d with tree := (d.tree.makeFolders d.takes route).2 } key = .ok found' ∧
        filesBelow found'.1 found'.2 = filesBelow found.1 found.2 := by
  obtain ⟨start, folder⟩ := found
  obtain ⟨hroute, children, rfl, hfind⟩ := folderAt_eq_ok_iff.1 h
  obtain ⟨children', hfind', hfiles⟩ := Tree.exists_find?_makeFolders d.takes route hfind
  refine ⟨(start, .folder children'), folderAt_eq_ok_iff.2 ⟨hroute, children', rfl, hfind'⟩, ?_⟩
  rw [filesBelow, filesBelow, hfiles]

/-! ## Runs -/

/-- What happens to a vault on disk. -/
inductive Event where
  | list (directory : Option Spelling)
  | write (path : Spelling) (content : Loose)
  | clear
  /-- Time passes; files that are written from then on get another time of change. -/
  | wait (later stamp : Binary64)
  /-- Files change behind the vault's back. -/
  | change (tree : Tree)

/-- A vault on disk at some time. -/
structure Moment where
  clock : Binary64
  disk : Disk

namespace Moment

/-- A vault at the start, with no listing kept. -/
def start (clock : Binary64) (d : Disk) : Moment := ⟨clock, d.dropListings⟩

/-- What a request for a listing comes to. -/
def answer (m : Moment) (directory : Option Spelling) : Except Failure (List FileEntry) :=
  (m.disk.list m.clock directory).1

/-- What the folder itself shows, whatever listings are kept. -/
def fresh (m : Moment) (directory : Option Spelling) : Except Failure (List FileEntry) := do
  let found ← m.disk.folderAt (← directoryKey directory)
  return filesBelow found.1 found.2

/-- The clock does not go back. A write may leave something also if it fails. -/
def next (m : Moment) : Event → Moment
  | .list directory => { m with disk := (m.disk.list m.clock directory).2 }
  | .write path content => { m with disk := (m.disk.write path content).2 }
  | .clear => { m with disk := m.disk.dropListings }
  | .wait later stamp =>
    ⟨if m.clock.lt later then later else m.clock, { m.disk with stamp }⟩
  | .change tree => { m with disk := { m.disk with tree } }

def after (m : Moment) (events : List Event) : Moment := events.foldl next m

/-- Whether the vault forgets its listings: it is told to, or a write succeeds. -/
def Renews (m : Moment) : Event → Prop
  | .clear => True
  | .write path content => (m.disk.write path content).1 = .ok ()
  | _ => False

/-- Nothing makes the vault forget its listings while some events happen. -/
def Quiet : Moment → List Event → Prop
  | _, [] => True
  | m, e :: events => ¬ m.Renews e ∧ (m.next e).Quiet events

variable {m : Moment} {directory : Option Spelling}

theorem after_append (m : Moment) (before since : List Event) :
    m.after (before ++ since) = (m.after before).after since := List.foldl_append

theorem after_concat (m : Moment) (events : List Event) (e : Event) :
    m.after (events ++ [e]) = (m.after events).next e := after_append m events [e]

theorem quiet_concat {events : List Event} {e : Event} :
    m.Quiet (events ++ [e]) ↔ m.Quiet events ∧ ¬ (m.after events).Renews e := by
  induction events generalizing m with
  | nil => simp [Quiet, after]
  | cons first events ih =>
    rw [List.cons_append, Quiet, Quiet, ih, and_assoc]
    rfl

/-! ### What an event leaves -/

theorem fresh_eq_of_folderAt {key : String} {found : Route × Tree}
    (hkey : directoryKey directory = .ok key) (h : m.disk.folderAt key = .ok found) :
    m.fresh directory = .ok (filesBelow found.1 found.2) := by
  rw [fresh, hkey]
  simp only [bind, Except.bind, h]
  rfl

theorem fresh_eq_ok_iff {files : List FileEntry} : m.fresh directory = .ok files ↔
    ∃ key found, directoryKey directory = .ok key ∧ m.disk.folderAt key = .ok found ∧
      filesBelow found.1 found.2 = files := by
  constructor
  · intro h
    obtain ⟨key, hkey, h⟩ := bind_eq_ok_iff.1 h
    obtain ⟨found, hfound, h⟩ := bind_eq_ok_iff.1 h
    exact ⟨key, found, hkey, hfound, Except.ok.inj h⟩
  · rintro ⟨key, found, hkey, hfound, rfl⟩
    exact fresh_eq_of_folderAt hkey hfound

/-- A request is answered from a listing that was kept and is not too old, or by what the folder
shows. -/
theorem answer_cases (m : Moment) (directory : Option Spelling) :
    (∃ key l, directoryKey directory = .ok key ∧ (key, l) ∈ m.disk.listings ∧
        l.isFresh m.clock = true ∧ m.answer directory = .ok l.files) ∨
      m.answer directory = m.fresh directory := by
  rw [answer]
  generalize hlist : m.disk.list m.clock directory = outcome
  cases hlist ▸ lists_list m.clock directory m.disk with
  | invalid hkey => exact .inr (by rw [fresh, hkey]; rfl)
  | kept hkey hkept hfresh => exact .inl ⟨_, _, hkey, hkept, hfresh, rfl⟩
  | missing hkey hfolder =>
    refine .inr ?_
    rw [fresh, hkey]
    simp only [bind, Except.bind, hfolder]
  | shown hkey hfolder => exact .inr (fresh_eq_of_folderAt hkey hfolder).symm

/-- A listing that is kept after an event was kept before, if the event lets it be, or it answers
the request just made. -/
theorem listings_next {e : Event} {kept : String × Listing}
    (h : kept ∈ (m.next e).disk.listings) :
    (kept ∈ m.disk.listings ∧ ¬ m.Renews e) ∨
      ∃ directory, e = .list directory ∧ directoryKey directory = .ok kept.1 ∧
        kept.2.time = m.clock ∧ m.fresh directory = .ok kept.2.files := by
  cases e with
  | list directory =>
    rw [next] at h
    generalize hlist : m.disk.list m.clock directory = outcome at h
    cases hlist ▸ lists_list m.clock directory m.disk with
    | invalid => exact .inl ⟨h, id⟩
    | kept => exact .inl ⟨h, id⟩
    | missing => exact .inl ⟨h, id⟩
    | shown hkey hfolder =>
      rcases List.mem_cons.1 h with rfl | h
      · exact .inr ⟨directory, rfl, hkey, rfl, fresh_eq_of_folderAt hkey hfolder⟩
      · exact .inl ⟨(List.mem_filter.1 h).1, id⟩
  | write path content =>
    rw [next] at h
    rw [Renews]
    generalize hwrite : m.disk.write path content = outcome at h
    cases hwrite ▸ writes_write path content m.disk with
    | refused => exact .inl ⟨h, nofun⟩
    | unopened => exact .inl ⟨h, nofun⟩
    | emptied => exact .inl ⟨h, nofun⟩
    | written => cases h
  | clear => cases h
  | wait later stamp => exact .inl ⟨h, id⟩
  | change tree => exact .inl ⟨h, id⟩

theorem clock_next (m : Moment) (e : Event) : m.clock.Upto (m.next e).clock := by
  cases e with
  | wait later stamp =>
    rw [next]
    by_cases hlater : m.clock.lt later
    · exact .inr (by simp [hlater])
    · exact .inl (by simp [hlater])
  | _ => exact .inl rfl

theorem clock_after (m : Moment) (events : List Event) : m.clock.Upto (m.after events).clock := by
  induction events generalizing m with
  | nil => exact .inl rfl
  | cons e events ih => exact (m.clock_next e).trans (ih (m.next e))

/-- What a folder shows changes by a change behind the vault's back, by a write that succeeds and by
one of no text, which leaves an empty file. -/
theorem fresh_next {e : Event} {files : List FileEntry} (hquiet : ¬ m.Renews e)
    (hchange : ∀ tree, e ≠ .change tree)
    (htext : ∀ path content, e = .write path content → content.isText)
    (h : m.fresh directory = .ok files) : (m.next e).fresh directory = .ok files := by
  cases e with
  | list asked =>
    rw [next]
    generalize hlist : m.disk.list m.clock asked = outcome
    cases hlist ▸ lists_list m.clock asked m.disk <;> exact h
  | write path content =>
    rw [Renews] at hquiet
    rw [next]
    generalize hwrite : m.disk.write path content = outcome at hquiet
    cases hwrite ▸ writes_write path content m.disk with
    | refused => exact h
    | unopened hlocate hopen =>
      rcases Tree.openFile_error hopen with rfl | rfl
      · exact h
      · obtain ⟨key, found, hkey, hfound, rfl⟩ := fresh_eq_ok_iff.1 h
        obtain ⟨found', hfound', hfiles⟩ := filesBelow_makeFolders hfound _
        exact fresh_eq_ok_iff.2 ⟨key, found', hkey, hfound', hfiles⟩
    | emptied hlocate hopen hbytes =>
      rw [Loose.bytes?, if_pos (htext path content rfl)] at hbytes
      cases hbytes
    | written => exact absurd rfl hquiet
  | clear => exact absurd trivial hquiet
  | wait later stamp => exact h
  | change tree => exact absurd rfl (hchange tree)

/-! ### Whole runs -/

/-- Every listing that is kept was made at some moment of the run, and the vault has not been made
to forget it since. -/
theorem kept_since {clock : Binary64} {d : Disk} {events : List Event} {kept : String × Listing}
    (h : kept ∈ ((start clock d).after events).disk.listings) :
    ∃ before since, events = before ++ since ∧
      kept.2.time = ((start clock d).after before).clock ∧
      (∀ directory, directoryKey directory = .ok kept.1 →
        ((start clock d).after before).fresh directory = .ok kept.2.files) ∧
      ((start clock d).after before).Quiet since := by
  -- The last event of the run either made the listing or let it be, and then it was kept before.
  induction events using List.reverseRecOn with
  | nil => cases h
  | append_singleton events e ih =>
    rw [after_concat] at h
    rcases listings_next h with ⟨hkept, hquiet⟩ | ⟨directory, rfl, hkey, htime, hfresh⟩
    · obtain ⟨before, since, rfl, htime, hfresh, hsince⟩ := ih hkept
      refine ⟨before, since ++ [e], by simp, htime, hfresh, quiet_concat.2 ⟨hsince, ?_⟩⟩
      rwa [after_append] at hquiet
    · refine ⟨events, [.list directory], rfl, htime, fun other hother => ?_, id, trivial⟩
      rw [← hfresh, fresh, fresh, hkey, hother]

/-- What a folder shows stays the same as long as no write succeeds, only texts are written and
nothing changes behind the vault's back. -/
theorem fresh_after {events : List Event} {files : List FileEntry} (hquiet : m.Quiet events)
    (hchange : ∀ tree, .change tree ∉ events)
    (htext : ∀ path content, .write path content ∈ events → content.isText)
    (h : m.fresh directory = .ok files) : (m.after events).fresh directory = .ok files := by
  induction events generalizing m with
  | nil => exact h
  | cons e events ih =>
    obtain ⟨hfirst, hrest⟩ := hquiet
    obtain ⟨hchange, hchanges⟩ : (∀ tree, e ≠ .change tree) ∧ ∀ tree, .change tree ∉ events :=
      ⟨fun tree heq => hchange tree (heq ▸ List.mem_cons_self),
        fun tree hmem => hchange tree (List.mem_cons_of_mem e hmem)⟩
    have hfirstText path content (heq : e = _) := htext path content (heq ▸ List.mem_cons_self)
    have hrestText path content hmem := htext path content (List.mem_cons_of_mem e hmem)
    exact ih hrest hchanges hrestText (fresh_next hfirst hchange hfirstText h)

/-- A listing is what the folder showed at some moment of a run, now or less than thirty seconds
ago, and from then on no write succeeded and no listings were dropped. -/
def ShownLately (m : Moment) (events : List Event) (directory : Option Spelling)
    (listing : Except Failure (List FileEntry)) : Prop :=
  ∃ before since, events = before ++ since ∧ listing = (m.after before).fresh directory ∧
    (since = [] ∨ ∃ seconds,
      Binary64.elapsed? (m.after before).clock (m.after events).clock = some seconds ∧
        0 ≤ seconds ∧ seconds < 30) ∧
    (m.after before).Quiet since

theorem shownLately_answer (clock : Binary64) (d : Disk) (events : List Event)
    (directory : Option Spelling) : (start clock d).ShownLately events directory
      (((start clock d).after events).answer directory) := by
  rcases answer_cases ((start clock d).after events) directory with
    ⟨key, l, hkey, hkept, hfresh, hanswer⟩ | hanswer
  · obtain ⟨before, since, hsplit, htime, hshown, hquiet⟩ := kept_since hkept
    have hclock : l.time.Upto ((start clock d).after events).clock := by
      rw [htime, hsplit, after_append]
      exact clock_after _ since
    refine ⟨before, since, hsplit, hanswer.trans (hshown directory hkey).symm, .inr ?_, hquiet⟩
    rw [← htime]
    exact Listing.elapsed?_of_isFresh hclock hfresh
  · exact ⟨events, [], by simp, hanswer, .inl rfl, trivial⟩

theorem answer_eq_fresh (clock : Binary64) (d : Disk) {events : List Event}
    (hchange : ∀ tree, .change tree ∉ events)
    (htext : ∀ path content, .write path content ∈ events → content.isText)
    (directory : Option Spelling) : ((start clock d).after events).answer directory =
      ((start clock d).after events).fresh directory := by
  rcases answer_cases ((start clock d).after events) directory with
    ⟨key, l, hkey, hkept, -, hanswer⟩ | hanswer
  · obtain ⟨before, since, rfl, -, hshown, hquiet⟩ := kept_since hkept
    have hsince := fresh_after hquiet
      (fun tree hmem => hchange tree (List.mem_append_right before hmem))
      (fun path content hmem => htext path content (List.mem_append_right before hmem))
      (hshown directory hkey)
    rw [hanswer, after_append, hsince]
  · exact hanswer

end Moment

/-- Whatever happened to a vault on disk, a listing that it gives then was shown by the folder less
than thirty seconds ago and no write has come in between. As long as files change only through the
vault, and only texts are written, it is what the folder shows. -/
theorem list_coherent (clock : Binary64) (d : Disk) (events : List Event)
    (directory : Option Spelling) :
    (Moment.start clock d).ShownLately events directory
        (((Moment.start clock d).after events).answer directory) ∧
      ((∀ tree, .change tree ∉ events) →
        (∀ path content, .write path content ∈ events → content.isText) →
        ((Moment.start clock d).after events).answer directory =
          ((Moment.start clock d).after events).fresh directory) :=
  ⟨Moment.shownLately_answer clock d events directory,
    fun hchange htext => Moment.answer_eq_fresh clock d hchange htext directory⟩

/-- A vault with one file. -/
def withOneFile : Disk where
  name := "main"
  root := []
  tree := .folder [("a.md", .file ⟨"x".toUTF8, .zero false⟩)]
  stamp := .zero false
  listings := []

/-- A listing, a write to another folder, and two listings more. -/
def visits : List Event := [.list none, .write "b/c.md" "y", .list (some "b"), .list none]

theorem list_coherent_visits : (∀ tree, .change tree ∉ visits) ∧
    (∀ path content, .write path content ∈ visits → content.isText) ∧
    ((Moment.start (.zero false) withOneFile).after visits).answer none =
      ((Moment.start (.zero false) withOneFile).after visits).fresh none := by
  have hchange (tree : Tree) : .change tree ∉ visits := by simp [visits]
  have htext (path : Spelling) (content : Loose) (h : .write path content ∈ visits) :
      content.isText := by
    obtain ⟨-, rfl⟩ : path = "b/c.md" ∧ content = "y" := by simpa [visits] using h
    exact Loose.isText_ofText "y"
  exact ⟨hchange, htext, (list_coherent _ _ _ _).2 hchange htext⟩

/-- A string that is no text. -/
def half : Loose := ⟨[.inr ⟨0xDCFF, by decide⟩]⟩

/-- The vault with a listing that was kept and an empty file. -/
def spoiled : Disk where
  name := "main"
  root := []
  tree := .folder [("a.md", .file ⟨"x".toUTF8, .zero false⟩),
    ("b", .folder [("c.md", .file ⟨.empty, .zero false⟩)])]
  stamp := .zero false
  listings := [("", ⟨.zero false, filesBelow [] withOneFile.tree⟩)]

theorem after_half : (Moment.start (.zero false) withOneFile).after
    [.list none, .write "b/c.md" half] = ⟨.zero false, spoiled⟩ := by
  have hlisted : withOneFile.list (.zero false) none = (.ok (filesBelow [] withOneFile.tree),
      { withOneFile with listings := spoiled.listings }) := rfl
  have hlocate : withOneFile.locate "b/c.md" = .ok ["b", "c.md"] :=
    eq_ok_of_toOption (by decide +kernel)
  have hwrite : Disk.write "b/c.md" half { withOneFile with listings := spoiled.listings } =
      (.error .unencodable, spoiled) := by
    have hlocated : locate { withOneFile with listings := spoiled.listings } "b/c.md" =
      .ok ["b", "c.md"] := hlocate
    rw [write, hlocated]
    rfl
  exact congrArg (Moment.mk _) (congrArg Prod.snd hwrite)

/-- A listing that was kept does not show the empty file that a write of no text has left. -/
theorem answer_ne_fresh_after_half :
    (∀ tree, .change tree ∉ [Event.list none, .write "b/c.md" half]) ∧
      ((Moment.start (.zero false) withOneFile).after
        [.list none, .write "b/c.md" half]).answer none ≠
      ((Moment.start (.zero false) withOneFile).after
        [.list none, .write "b/c.md" half]).fresh none := by
  have hyoung : ((Binary64.zero false).add (Binary64.zero false).negate).lt Listing.lifetime := by
    decide +kernel
  have hkept : (spoiled.listings.lookup "").filter (Listing.isFresh (.zero false)) =
      some ⟨.zero false, filesBelow [] withOneFile.tree⟩ :=
    Option.filter_eq_some_iff.2 ⟨rfl, hyoung⟩
  have hanswer : Moment.answer ⟨.zero false, spoiled⟩ none =
      .ok (filesBelow [] withOneFile.tree) := by
    simp only [Moment.answer, list, directoryKey, hkept]
  have hfresh : Moment.fresh ⟨.zero false, spoiled⟩ none = .ok (filesBelow [] spoiled.tree) := rfl
  have hlengths : (filesBelow [] withOneFile.tree).length ≠
      (filesBelow [] spoiled.tree).length := by
    rw [filesBelow, filesBelow, List.length_mergeSort, List.length_mergeSort, List.length_map,
      List.length_map]
    decide
  refine ⟨by simp, fun heq => hlengths ?_⟩
  rw [after_half, hanswer, hfresh] at heq
  rw [Except.ok.inj heq]

end Disk

end MarkdownVault
