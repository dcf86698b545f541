import MarkdownVault.Conversation.Marker
import MarkdownVault.Proofs.Text.Cutting

/-!
# What role markers are

The recognizer of markers finds the shortest opening of a text that has the form of one, and the
scan of a text finds markers at line starts from the left, each behind the one before it.
-/

namespace MarkdownVault

namespace Text

/-- The code points of white space. -/
def blankCodes : List Nat :=
  List.range' 9 5 ++ List.range' 0x1C 5 ++ [0x85, 0xA0, 0x1680] ++ List.range' 0x2000 11 ++
    [0x2028, 0x2029, 0x202F, 0x205F, 0x3000]

theorem mem_blankCodes {c : Char} (h : isBlank c) : c.toNat ∈ blankCodes := by
  simp only [isBlank, Bool.or_eq_true, Bool.and_eq_true, decide_eq_true_eq, beq_iff_eq] at h
  simp only [blankCodes, List.mem_append, List.mem_range'_1, List.mem_cons, List.not_mem_nil,
    or_false]
  omega

/-- No blank stands in a name. -/
theorem isWordChar_of_isBlank {c : Char} (h : isBlank c) : isWordChar c = false := by
  have hall : ∀ n ∈ blankCodes, isWordChar (Char.ofNat n) = false := by decide +kernel
  rw [← Char.ofNat_toNat c]
  exact hall c.toNat (mem_blankCodes h)

end Text

namespace Conversation

variable {acrossLines : Bool} {cs speaker rest : List Char}

/-! ## One marker -/

/-- Word characters, at least one of them. -/
def IsName (cs : List Char) : Prop := cs ≠ [] ∧ ∀ c ∈ cs, Text.isWordChar c

/-- The end of a marker and what is behind it: two asterisks, blanks and a colon. -/
def Ends (cs rest : List Char) : Prop :=
  ∃ blanks, (∀ c ∈ blanks, Text.isBlank c) ∧ cs = '*' :: '*' :: (blanks ++ ':' :: rest)

/-- An opening of a text that has the form of a marker: the speaker as written, with or without an
annotation, and the text behind it. -/
inductive Opens (acrossLines : Bool) : List Char → List Char → List Char → Prop
  | plain {name tail rest : List Char} (hname : IsName name) (hends : Ends tail rest) :
      Opens acrossLines ('*' :: '*' :: (name ++ tail)) name rest
  | annotated {name blanks inner tail rest : List Char} (hname : IsName name)
      (hblanks : ∀ c ∈ blanks, Text.isBlank c) (hinner : '\n' ∈ inner → acrossLines)
      (hends : Ends tail rest) :
      Opens acrossLines ('*' :: '*' :: (name ++ (blanks ++ '(' :: (inner ++ ')' :: tail))))
        (name ++ (blanks ++ '(' :: (inner ++ [')']))) rest

/-- The shortest such opening. -/
def Leads (acrossLines : Bool) (cs speaker rest : List Char) : Prop :=
  Opens acrossLines cs speaker rest ∧
    ∀ other after, Opens acrossLines cs other after → speaker.length ≤ other.length

theorem markerEnd?_eq_some_iff : markerEnd? cs = some rest ↔ Ends cs rest := by
  constructor
  · intro h
    unfold markerEnd? at h
    split at h
    · cases h
    · rename_i tail htail
      split at h
      · rename_i after hafter
        cases h
        refine ⟨tail.takeWhile Text.isBlank, fun c hc => List.mem_takeWhile_imp hc, ?_⟩
        rw [Text.eq_of_dropStart? htail, ← hafter, List.takeWhile_append_dropWhile]
        rfl
      · cases h
  · rintro ⟨blanks, hblanks, rfl⟩
    have hdrop : (blanks ++ ':' :: rest).dropWhile Text.isBlank = ':' :: rest :=
      (Text.span_of_stop hblanks (by decide) rest).2
    simp [markerEnd?, Text.dropStart?, hdrop]

theorem Ends.unique {after : List Char} (h : Ends cs rest) (h' : Ends cs after) : rest = after :=
  Option.some.inj ((markerEnd?_eq_some_iff.2 h).symm.trans (markerEnd?_eq_some_iff.2 h'))

/-- An annotation ends in a parenthesis that the end of the marker stands behind. -/
theorem exists_of_aside? {text : List Char} (h : aside? acrossLines cs = some (text, rest)) :
    ∃ inner tail, text = inner ++ [')'] ∧ cs = inner ++ ')' :: tail ∧ Ends tail rest ∧
      ('\n' ∈ inner → acrossLines) := by
  induction cs generalizing text with
  | nil => cases h
  | cons c cs ih =>
    unfold aside? at h
    split at h
    case h_1 found hfound =>
      obtain ⟨rfl, hend⟩ := Option.ite_none_right_eq_some.1 hfound
      cases h
      exact ⟨[], cs, rfl, rfl, markerEnd?_eq_some_iff.1 hend, by simp⟩
    case h_2 =>
      split at h
      case isTrue => cases h
      case isFalse hbreak =>
        obtain ⟨⟨inside, after⟩, haside, hparts⟩ := Option.map_eq_some_iff.1 h
        cases hparts
        obtain ⟨inner, tail, rfl, rfl, hends, hinner⟩ := ih haside
        refine ⟨c :: inner, tail, rfl, rfl, hends, fun hmem => ?_⟩
        rcases List.mem_cons.1 hmem with rfl | hmem
        · simpa using hbreak
        · exact hinner hmem

/-- An annotation is found, though an earlier parenthesis may end it. -/
theorem exists_aside? {inner tail : List Char} (hends : Ends tail rest)
    (hinner : '\n' ∈ inner → acrossLines) :
    ∃ text after, aside? acrossLines (inner ++ ')' :: tail) = some (text, after) ∧
      text.length ≤ inner.length + 1 := by
  induction inner with
  | nil =>
    refine ⟨[')'], rest, ?_, le_rfl⟩
    rw [List.nil_append, aside?, if_pos rfl, markerEnd?_eq_some_iff.2 hends]
  | cons c inner ih =>
    obtain ⟨text, after, haside, hlength⟩ := ih fun hmem => hinner (List.mem_cons_of_mem c hmem)
    rw [List.cons_append, aside?]
    split
    · exact ⟨_, _, rfl, by simp⟩
    · have hbreak : ¬(decide (c = '\n') && !acrossLines) := by
        intro h
        obtain ⟨hc, ha⟩ := Bool.and_eq_true_iff.1 h
        obtain rfl := of_decide_eq_true hc
        simp [hinner List.mem_cons_self] at ha
      rw [if_neg hbreak, haside]
      exact ⟨_, _, rfl, by simpa using hlength⟩

/-- A name goes as far as word characters do. -/
theorem IsName.span {name tail : List Char} (h : IsName name)
    (htail : ∀ c ∈ tail.head?, Text.isWordChar c = false) :
    (name ++ tail).takeWhile Text.isWordChar = name ∧
      (name ++ tail).dropWhile Text.isWordChar = tail :=
  Text.span_of_ends h.2 htail

theorem marker?_plain {name tail : List Char} (hname : IsName name) (hends : Ends tail rest) :
    marker? acrossLines ('*' :: '*' :: (name ++ tail)) = some (name, rest) := by
  have hend := markerEnd?_eq_some_iff.2 hends
  obtain ⟨blanks, -, rfl⟩ := hends
  have hstar : ∀ c ∈ ('*' :: '*' :: (blanks ++ ':' :: rest)).head?, Text.isWordChar c = false := by
    intro c hc
    cases hc
    decide +kernel
  obtain ⟨htake, hdrop⟩ := hname.span hstar
  have hstart : Text.dropStart? ['*', '*'] ('*' :: '*' :: (name ++ '*' :: '*' ::
      (blanks ++ ':' :: rest))) = some (name ++ '*' :: '*' :: (blanks ++ ':' :: rest)) := rfl
  have hempty : name.isEmpty = false := by simpa using hname.1
  have hasterisk : ¬Text.isBlank '*' := by decide
  simp only [marker?, hstart, htake, hdrop, hempty, List.dropWhile_cons_of_neg hasterisk, hend,
    Bool.false_eq_true, if_false, Option.map_some]
  rfl

theorem marker?_annotated {name blanks after text : List Char} (hname : IsName name)
    (hblanks : ∀ c ∈ blanks, Text.isBlank c)
    (haside : aside? acrossLines after = some (text, rest)) :
    marker? acrossLines ('*' :: '*' :: (name ++ (blanks ++ '(' :: after))) =
      some (name ++ (blanks ++ '(' :: text), rest) := by
  have htail : ∀ c ∈ (blanks ++ '(' :: after).head?, Text.isWordChar c = false := by
    intro c hc
    cases blanks with
    | nil =>
      cases hc
      decide +kernel
    | cons b blanks =>
      cases hc
      exact Text.isWordChar_of_isBlank (hblanks _ List.mem_cons_self)
  obtain ⟨htake, hdrop⟩ := hname.span htail
  have hstart : Text.dropStart? ['*', '*'] ('*' :: '*' :: (name ++ (blanks ++ '(' :: after))) =
      some (name ++ (blanks ++ '(' :: after)) := rfl
  have hempty : name.isEmpty = false := by simpa using hname.1
  have hparen : Text.isBlank '(' = false := by decide
  obtain ⟨htaken, hopened⟩ := Text.span_of_stop hblanks hparen after
  simp only [marker?, hstart, htake, hdrop, hempty, hopened, htaken, haside, Bool.false_eq_true,
    if_false, Option.map_some, List.append_assoc]

theorem opens_of_marker? (h : marker? acrossLines cs = some (speaker, rest)) :
    Opens acrossLines cs speaker rest := by
  unfold marker? at h
  split at h
  · cases h
  · rename_i inside hinside
    obtain rfl := Text.eq_of_dropStart? hinside
    dsimp only at h
    split at h
    · cases h
    · rename_i hempty
      have hname : IsName (inside.takeWhile Text.isWordChar) :=
        ⟨by simpa using hempty, fun c hc => List.mem_takeWhile_imp hc⟩
      have hinside : inside = inside.takeWhile Text.isWordChar ++
          inside.dropWhile Text.isWordChar := List.takeWhile_append_dropWhile.symm
      generalize inside.takeWhile Text.isWordChar = name at *
      generalize inside.dropWhile Text.isWordChar = tail at *
      subst hinside
      split at h
      case h_1 found hfound =>
        split at hfound
        case h_1 after hafter =>
          cases h
          obtain ⟨⟨text, rest⟩, haside, hparts⟩ := Option.map_eq_some_iff.1 hfound
          cases hparts
          obtain ⟨inner, last, rfl, rfl, hends, hinner⟩ := exists_of_aside? haside
          have hblanks : ∀ c ∈ tail.takeWhile Text.isBlank, Text.isBlank c :=
            fun c hc => List.mem_takeWhile_imp hc
          have htail := List.takeWhile_append_dropWhile (p := Text.isBlank) (l := tail)
          rw [hafter] at htail
          have hopens := Opens.annotated hname hblanks hinner hends
          rw [htail] at hopens
          rw [List.append_assoc]
          exact hopens
        case h_2 => cases hfound
      case h_2 =>
        obtain ⟨rest, hend, hparts⟩ := Option.map_eq_some_iff.1 h
        cases hparts
        exact .plain hname (markerEnd?_eq_some_iff.1 hend)

theorem Opens.exists_marker? (h : Opens acrossLines cs speaker rest) :
    ∃ first after, marker? acrossLines cs = some (first, after) ∧
      first.length ≤ speaker.length := by
  cases h with
  | plain hname hends => exact ⟨_, _, marker?_plain hname hends, le_rfl⟩
  | annotated hname hblanks hinner hends =>
    obtain ⟨text, after, haside, hlength⟩ := exists_aside? hends hinner
    refine ⟨_, _, marker?_annotated hname hblanks haside, ?_⟩
    simpa using hlength

theorem Opens.exists_tail (h : Opens acrossLines cs speaker rest) :
    ∃ tail, cs = '*' :: '*' :: (speaker ++ tail) ∧ Ends tail rest := by
  cases h with
  | plain hname hends => exact ⟨_, rfl, hends⟩
  | annotated hname hblanks hinner hends => exact ⟨_, by simp, hends⟩

/-- The recognizer finds the shortest marker that a text opens with. -/
theorem marker?_eq_some_iff :
    marker? acrossLines cs = some (speaker, rest) ↔ Leads acrossLines cs speaker rest := by
  constructor
  · intro h
    refine ⟨opens_of_marker? h, fun other after hother => ?_⟩
    obtain ⟨first, behind, hfirst, hlength⟩ := hother.exists_marker?
    cases h.symm.trans hfirst
    exact hlength
  · rintro ⟨hopens, hshortest⟩
    obtain ⟨first, after, hfirst, hlength⟩ := hopens.exists_marker?
    have hfound := opens_of_marker? hfirst
    obtain ⟨tail, hcs, hends⟩ := hopens.exists_tail
    obtain ⟨tail', hcs', hends'⟩ := hfound.exists_tail
    rw [hcs] at hcs'
    have hparts := List.append_inj (List.tail_eq_of_cons_eq (List.tail_eq_of_cons_eq hcs'))
      (le_antisymm (hshortest first after hfound) hlength)
    obtain ⟨rfl, rfl⟩ := hparts
    rw [hfirst, hends.unique hends']

theorem marker?_eq_none_iff :
    marker? acrossLines cs = none ↔ ¬∃ speaker rest, Opens acrossLines cs speaker rest := by
  constructor
  · rintro h ⟨speaker, rest, hopens⟩
    obtain ⟨first, after, hfirst, -⟩ := hopens.exists_marker?
    cases h.symm.trans hfirst
  · intro h
    cases hfound : marker? acrossLines cs with
    | none => rfl
    | some found => exact absurd ⟨found.1, found.2, opens_of_marker? hfound⟩ h

/-! ## What stands behind a marker -/

theorem Ends.append (h : Ends cs rest) (ds : List Char) : Ends (cs ++ ds) (rest ++ ds) := by
  obtain ⟨blanks, hblanks, rfl⟩ := h
  exact ⟨blanks, hblanks, by simp⟩

/-- A marker ends before a text without colons. -/
theorem Ends.of_append {front tail ds after : List Char} (hds : ':' ∉ ds)
    (h : cs ++ ds = front ++ tail) (hends : Ends tail after) :
    ∃ inner rest, cs = front ++ inner ∧ after = rest ++ ds ∧ Ends inner rest := by
  obtain ⟨blanks, hblanks, rfl⟩ := hends
  have hprefix : front ++ '*' :: '*' :: blanks ++ [':'] <+: cs ++ ds := ⟨after, by simp [h]⟩
  obtain ⟨rest, rfl⟩ := (Text.concat_prefix_append_iff hds).1 hprefix
  refine ⟨'*' :: '*' :: (blanks ++ ':' :: rest), rest, by simp, ?_, blanks, hblanks, rfl⟩
  simpa using h.symm

theorem Opens.append (h : Opens acrossLines cs speaker rest) (ds : List Char) :
    Opens acrossLines (cs ++ ds) speaker (rest ++ ds) := by
  cases h with
  | plain hname hends => simpa using Opens.plain hname (hends.append ds)
  | annotated hname hblanks hinner hends =>
    simpa using Opens.annotated hname hblanks hinner (hends.append ds)

theorem Opens.of_append {ds after : List Char} (hds : ':' ∉ ds)
    (h : Opens acrossLines (cs ++ ds) speaker after) :
    ∃ rest, after = rest ++ ds ∧ Opens acrossLines cs speaker rest := by
  generalize htext : cs ++ ds = text at h
  cases h with
  | @plain _ tail _ hname hends =>
    have hfront : cs ++ ds = '*' :: '*' :: speaker ++ tail := htext
    obtain ⟨inner, rest, rfl, hafter, hinner⟩ := Ends.of_append hds hfront hends
    exact ⟨rest, hafter, .plain hname hinner⟩
  | @annotated name blanks aside tail _ hname hblanks haside hends =>
    have hfront : cs ++ ds = '*' :: '*' :: (name ++ (blanks ++ '(' :: (aside ++ [')']))) ++ tail := by
      simpa using htext
    obtain ⟨inner, rest, rfl, hafter, hinner⟩ := Ends.of_append hds hfront hends
    refine ⟨rest, hafter, ?_⟩
    simpa using Opens.annotated hname hblanks haside hinner

/-- Behind a marker a text without colons can be put, and no marker arises from it. -/
theorem marker?_append {ds : List Char} (hds : ':' ∉ ds) :
    marker? acrossLines (cs ++ ds) =
      (marker? acrossLines cs).map fun (speaker, rest) => (speaker, rest ++ ds) := by
  cases hmarker : marker? acrossLines cs with
  | none =>
    rw [Option.map_none, marker?_eq_none_iff]
    rintro ⟨speaker, after, hopens⟩
    obtain ⟨rest, -, hopens⟩ := hopens.of_append hds
    exact marker?_eq_none_iff.1 hmarker ⟨speaker, rest, hopens⟩
  | some found =>
    obtain ⟨hopens, hshortest⟩ := marker?_eq_some_iff.1 hmarker
    rw [Option.map_some, marker?_eq_some_iff]
    refine ⟨hopens.append ds, fun other after hother => ?_⟩
    obtain ⟨rest, -, hother⟩ := hother.of_append hds
    exact hshortest other rest hother

/-! ## All markers of a text -/

/-- The speakers of the markers that a scan comes upon. A marker is looked for at line starts only,
and the scan goes on behind it. -/
inductive Scanned : Bool → List Char → List (List Char) → Prop
  | done {lineStart : Bool} : Scanned lineStart [] []
  | found {cs speaker rest : List Char} {speakers : List (List Char)}
      (hleads : Leads false cs speaker rest) (hrest : Scanned false rest speakers) :
      Scanned true cs (speaker :: speakers)
  | passed {lineStart : Bool} {c : Char} {cs : List Char} {speakers : List (List Char)}
      (hnone : lineStart → ¬∃ speaker rest, Opens false (c :: cs) speaker rest)
      (hrest : Scanned (c == '\n') cs speakers) : Scanned lineStart (c :: cs) speakers

theorem markersFrom_found (h : marker? false cs = some (speaker, rest)) :
    markersFrom true cs = speaker :: markersFrom false rest := by
  rw [markersFrom]
  split
  case h_1 hfound =>
    rw [if_pos rfl, h] at hfound
    cases hfound
    rfl
  case h_2 hnone =>
    rw [if_pos rfl, h] at hnone
    cases hnone

theorem markersFrom_nil (lineStart : Bool) : markersFrom lineStart [] = [] := by
  have hnone : marker? false [] = none := rfl
  rw [markersFrom]
  split
  case h_1 hfound => simp [hnone] at hfound
  case h_2 => rfl

theorem markersFrom_passed {lineStart : Bool} {c : Char}
    (h : lineStart → marker? false (c :: cs) = none) :
    markersFrom lineStart (c :: cs) = markersFrom (c == '\n') cs := by
  rw [markersFrom]
  split
  case h_1 hfound =>
    obtain ⟨hstart, hfound⟩ := Option.ite_none_right_eq_some.1 hfound
    cases (h hstart).symm.trans hfound
  case h_2 => rfl

theorem scanned_markersFrom (lineStart : Bool) (cs : List Char) :
    Scanned lineStart cs (markersFrom lineStart cs) := by
  induction lineStart, cs using markersFrom.induct with
  | case1 lineStart cs speaker rest h ih =>
    obtain ⟨rfl, hmarker⟩ := Option.ite_none_right_eq_some.1 h
    rw [markersFrom_found hmarker]
    exact .found (marker?_eq_some_iff.1 hmarker) ih
  | case2 lineStart h =>
    rw [markersFrom_nil]
    exact .done
  | case3 lineStart c cs h ih =>
    have hnone : lineStart → marker? false (c :: cs) = none := fun hstart => by
      rwa [if_pos hstart] at h
    rw [markersFrom_passed hnone]
    exact .passed (fun hstart => marker?_eq_none_iff.1 (hnone hstart)) ih

/-- A scan comes upon its markers in one way only. -/
theorem scanned_iff {lineStart : Bool} {speakers : List (List Char)} :
    Scanned lineStart cs speakers ↔ markersFrom lineStart cs = speakers := by
  constructor
  · intro h
    induction h with
    | done => exact markersFrom_nil _
    | found hleads hrest ih => rw [markersFrom_found (marker?_eq_some_iff.2 hleads), ih]
    | passed hnone hrest ih =>
      rw [markersFrom_passed fun hstart => marker?_eq_none_iff.2 (hnone hstart), ih]
  · rintro rfl
    exact scanned_markersFrom lineStart cs

/-! ## Names -/

theorem dropAside_cons_of_ne {c d : Char} {tail : List Char}
    (h : (c :: cs).dropWhile Text.isBlank = d :: tail) (hd : d ≠ '(') :
    dropAside (c :: cs) = c :: dropAside cs := by
  conv_lhs => unfold dropAside
  rw [h]
  split
  case h_1 heq =>
    injection heq with hfirst
    exact absurd hfirst hd
  case h_2 => rfl

theorem dropAside_of_opened {inner after : List Char}
    (hopened : cs.dropWhile Text.isBlank = '(' :: inner)
    (hclosed : inner.dropWhile (fun d => d != ')' && d != '\n') = ')' :: after) :
    dropAside cs = after := by
  cases cs with
  | nil => cases hopened
  | cons c cs =>
    unfold dropAside
    simp only [hopened, hclosed]

theorem dropAside_append {name tail : List Char} (h : ∀ c ∈ name, Text.isWordChar c) :
    dropAside (name ++ tail) = name ++ dropAside tail := by
  induction name with
  | nil => rfl
  | cons c name ih =>
    obtain ⟨hc, hname⟩ := List.forall_mem_cons.1 h
    have hblank : ¬Text.isBlank c := fun h => by simp [Text.isWordChar_of_isBlank h] at hc
    have hparen : c ≠ '(' := by
      rintro rfl
      revert hc
      decide +kernel
    rw [List.cons_append, dropAside_cons_of_ne (List.dropWhile_cons_of_neg hblank) hparen,
      ih hname, List.cons_append]

theorem IsName.trim_eq {name : List Char} (h : IsName name) : Text.trim name = name := by
  apply Text.trim_of_dark
  intro c hc hblank
  simpa [Text.isWordChar_of_isBlank hblank] using h.2 c hc

/-- The name in a plain marker. -/
theorem speakerName_of_isName {name : List Char} (h : IsName name) :
    speakerName name = String.ofList name := by
  have hnil : dropAside [] = [] := rfl
  have hdrop := @dropAside_append name [] h.2
  rw [hnil, List.append_nil] at hdrop
  rw [speakerName, hdrop, h.trim_eq]

/-- An annotation up to its only closing parenthesis is no part of the name. -/
theorem speakerName_annotated {name blanks inner : List Char} (h : IsName name)
    (hblanks : ∀ c ∈ blanks, Text.isBlank c) (hinner : ∀ c ∈ inner, c ≠ ')' ∧ c ≠ '\n') :
    speakerName (name ++ (blanks ++ '(' :: (inner ++ [')']))) = String.ofList name := by
  have hopened : (blanks ++ '(' :: (inner ++ [')'])).dropWhile Text.isBlank =
      '(' :: (inner ++ [')']) := (Text.span_of_stop hblanks (by decide) _).2
  have hclosed : (inner ++ [')']).dropWhile (fun d => d != ')' && d != '\n') = [')'] :=
    (Text.span_of_stop (by simpa using hinner) (by decide) []).2
  rw [speakerName, dropAside_append h.2, dropAside_of_opened hopened hclosed, List.append_nil,
    h.trim_eq]

end Conversation

end MarkdownVault
