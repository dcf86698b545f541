import MarkdownVault.Proofs.Conversation.Export

/-!
# Which rules are heeded

Every line of three dashes is meant to separate two sections. A rule makes a cut only if it has a
line feed above it that no other rule has taken, and a line below it. So no cut is made at the
first line, none at the last, and of rules with nothing but blank lines between them only every
other one makes a cut; the rules between belong to the text of a section. The messages are those
that the rules are meant to give exactly where each of them stands between two cuts.
-/

namespace MarkdownVault.Conversation

variable {line last : List Char} {ls mid after : Lines}

/-! ## What the rules leave -/

/-- The message that lines are. -/
def message? (ls : Lines) : Option Message := messageOf? (joined ls)

theorem message?_blank (h : isBlankLine line) (ls : Lines) :
    message? (line :: ls) = message? ls := messageOf?_congr (trim_joined_cons h ls)

theorem message?_nil : message? [] = none := rfl

/-- No message opens with dashes. -/
theorem message?_rule (h : isRule line) (ls : Lines) : message? (line :: ls) = none := by
  obtain ⟨bs, gap, rfl, hbs, -⟩ := exists_of_isRule h
  obtain ⟨rest, hrest⟩ := exists_joined_cons (bs ++ '-' :: '-' :: '-' :: gap) ls
  have htrim : Text.trim (joined ((bs ++ '-' :: '-' :: '-' :: gap) :: ls)) =
      '-' :: Text.trimEnd ('-' :: '-' :: (gap ++ rest)) := by
    have hdark : ¬Text.isBlank '-' := by decide
    rw [hrest, List.append_assoc, Text.trim_prepend hbs, List.cons_append, List.cons_append,
      List.cons_append, Text.trim, Text.trimStart, List.dropWhile_cons_of_neg hdark]
    exact Text.trimEnd_append_cons hdark [] _
  rw [message?, messageOf?, htrim]
  rfl

/-! ## Groups of lines -/

/-- Whether what follows these groups is cut off from them, when the first of them is `opened` by a
cut. A rule makes a cut unless the group between it and a cut above it is barren. -/
def heeded (opened : Bool) (barren : Lines → Bool) : List Lines → Bool
  | [] => opened
  | s :: ss => heeded (!opened || !barren s) (List.all · isBlankLine) ss

/-- The messages that are read, group by group. A rule on the `last` line belongs to the text above
it. -/
def heard (last : List Char) (opened : Bool) (barren : Lines → Bool) : List Lines → List Message
  | [] => []
  | s :: ss =>
    (if opened then message? (if ss = [[]] then s ++ [last] else s) else none).toList ++
      heard last (!opened || !barren s) (List.all · isBlankLine) ss

section Groups

variable {g : Lines} {gs : List Lines} {opened : Bool} {barren : Lines → Bool}

theorem heard_heeded (hg : barren g = false) (hgs : gs ≠ [[]]) :
    heard last true barren (g :: gs) =
      (message? g).toList ++ heard last true (List.all · isBlankLine) gs := by
  rw [heard, if_pos rfl, if_neg hgs, hg]
  rfl

theorem heard_unheeded : heard last false barren (g :: gs) =
    heard last true (List.all · isBlankLine) gs := rfl

/-- An empty group has no message, nor has it one with a rule below it. -/
theorem heard_nil (h : gs = [[]] → isRule last) : heard last opened barren ([] :: gs) =
    heard last (!opened || !barren []) (List.all · isBlankLine) gs := by
  rw [heard]
  by_cases hgs : gs = [[]]
  · rw [if_pos hgs, List.nil_append, message?_rule (h hgs), ite_self]
    rfl
  · rw [if_neg hgs, message?_nil, ite_self]
    rfl

theorem heard_blank (h : isBlankLine line) :
    heard last opened (List.all · isBlankLine) ((line :: g) :: gs) =
      heard last opened (List.all · isBlankLine) (g :: gs) := by
  have hmessage : message? (if gs = [[]] then line :: g ++ [last] else line :: g) =
      message? (if gs = [[]] then g ++ [last] else g) := by
    split <;> exact message?_blank h _
  rw [heard, heard, hmessage, List.all_cons, h, Bool.true_and]

/-- Only whether the first group is barren matters, and only to groups below it. -/
theorem heard_congr {barren' : Lines → Bool} (h : gs = [] ∨ barren g = barren' g) :
    heard last opened barren (g :: gs) = heard last opened barren' (g :: gs) := by
  rcases h with rfl | h
  · rfl
  · rw [heard, heard, h]

end Groups

theorem splitOnP_rule (h : isRule line) (ls : Lines) :
    (line :: ls).splitOnP isRule = [] :: ls.splitOnP isRule := by
  rw [List.splitOnP_cons_eq_if_modifyHead, if_pos h]

theorem exists_splitOnP_cons (h : isRule line = false) (ls : Lines) :
    ∃ g gs, ls.splitOnP isRule = g :: gs ∧ (line :: ls).splitOnP isRule = (line :: g) :: gs := by
  obtain ⟨g, gs, hls⟩ := List.exists_cons_of_ne_nil (List.splitOnP_ne_nil isRule ls)
  refine ⟨g, gs, hls, ?_⟩
  rw [List.splitOnP_cons_eq_if_modifyHead, h, if_neg Bool.false_ne_true, hls, List.modifyHead_cons]

theorem splitOnP_ne_singleton_nil (h : ls ≠ []) : ls.splitOnP isRule ≠ [[]] := by
  obtain ⟨l, ls, rfl⟩ := List.exists_cons_of_ne_nil h
  cases hrule : isRule l with
  | true =>
    rw [splitOnP_rule hrule]
    exact fun hsingle => List.splitOnP_ne_nil isRule ls (List.cons.inj hsingle).2
  | false =>
    obtain ⟨g, gs, -, hgroups⟩ := exists_splitOnP_cons hrule ls
    rw [hgroups]
    simp

theorem splitOnP_of_dropLast (h : ∀ l ∈ ls.dropLast, isRule l = false) :
    ls.splitOnP isRule = [ls] ∨ ∃ mid rule, ls = mid ++ [rule] ∧ ls.splitOnP isRule = [mid, []] := by
  rcases List.eq_nil_or_concat' ls with rfl | ⟨mid, last, rfl⟩
  · exact .inl rfl
  · rw [List.dropLast_concat] at h
    cases hlast : isRule last with
    | true =>
      have hsplit := List.splitOnP_append_cons_of_forall_mem h last hlast []
      exact .inr ⟨mid, last, rfl, hsplit⟩
    | false =>
      refine .inl (List.splitOnP_eq_singleton fun l hl => ?_)
      rcases List.mem_append.1 hl with hl | hl
      · exact h l hl
      · rwa [List.mem_singleton.1 hl]

/-! ## The run over a text -/

/-- The sections of a text tell what is heard of its groups of lines. -/
def Told (ls : Lines) : Prop := ∀ last, ls.getLast? = some last → (∀ l ∈ ls, '\n' ∉ l) →
  (sections (joined ls)).filterMap messageOf? =
    heard last true List.isEmpty (ls.splitOnP isRule)

/-- Below a cut the blank lines are dropped, so there a group of blank lines is as barren as an empty
one. -/
theorem told_unled (h : ∀ ms : Lines, ms.length ≤ ls.length → Told ms)
    (hlast : ls.getLast? = some last) (hbreak : ∀ l ∈ ls, '\n' ∉ l) :
    (sections (unled (joined ls))).filterMap messageOf? =
      heard last true (List.all · isBlankLine) (ls.splitOnP isRule) := by
  induction ls with
  | nil => cases hlast
  | cons l ls ih =>
    obtain ⟨hline, hrest⟩ := List.forall_mem_cons.1 hbreak
    have htold := h (l :: ls) le_rfl last hlast hbreak
    by_cases hblank : isBlankLine l
    · obtain ⟨g, gs, hgroups, hcons⟩ := exists_splitOnP_cons (not_isRule_of_isBlankLine hblank) ls
      cases ls with
      | nil =>
        have hlead : '\n' ∉ l.takeWhile Text.isBlank :=
          fun hmem => hline ((List.takeWhile_prefix _).subset hmem)
        rw [joined_singleton] at htold ⊢
        rw [unled_of_not_mem hlead, htold, hcons]
        cases hgroups
        exact heard_congr (.inl rfl)
      | cons m ls =>
        have hlast' : (m :: ls).getLast? = some last := by simpa using hlast
        have hshort := fun ms (hms : ms.length ≤ (m :: ls).length) =>
          h ms (hms.trans (Nat.le_succ _))
        rw [joined_cons_cons, unled_prepend (List.all_eq_true.1 hblank), ih hshort hlast' hrest,
          hcons, hgroups, heard_blank hblank]
    · have hunled : unled (joined (l :: ls)) = joined (l :: ls) := by
        obtain ⟨rest, hjoined⟩ := exists_joined_cons l ls
        rw [hjoined, unled_of_dark_line hblank hline]
      rw [hunled, htold]
      cases hrule : isRule l with
      | true =>
        rw [splitOnP_rule hrule]
        exact heard_congr (.inr rfl)
      | false =>
        obtain ⟨g, gs, -, hcons⟩ := exists_splitOnP_cons hrule ls
        rw [hcons]
        refine heard_congr (.inr ?_)
        rw [List.all_cons, Bool.eq_false_iff.2 hblank]
        rfl

/-- With no rule but maybe the first line and the last there is one section. A first line that is a
rule leaves it without a message. -/
theorem told_of_dropLast (h : ∀ l ∈ ls.dropLast, isRule l = false) : Told (line :: ls) := by
  intro last hlast hbreak
  have hsections : (sections (joined (line :: ls))).filterMap messageOf? =
      (message? (line :: ls)).toList := by
    rw [sections_joined_of_dropLast hbreak h, message?]
    cases hmessage : messageOf? (joined (line :: ls)) <;> simp [hmessage]
  rw [hsections]
  cases hline : isRule line with
  | true =>
    rw [message?_rule hline, splitOnP_rule hline]
    rcases splitOnP_of_dropLast h with hls | ⟨mid, rule, rfl, hls⟩
    · have hrule : [ls] = [[]] → isRule last := by
        intro hempty
        obtain rfl := List.singleton_inj.1 hempty
        cases hlast
        exact hline
      rw [hls, heard_nil hrule]
      rfl
    · rw [hls, heard_nil (by simp)]
      rfl
  | false =>
    obtain ⟨g, gs, hls, hcons⟩ := exists_splitOnP_cons hline ls
    rw [hcons]
    rcases splitOnP_of_dropLast h with hsingle | ⟨mid, rule, rfl, hpair⟩
    · cases hsingle.symm.trans hls
      rw [heard_heeded rfl (by simp)]
      exact (List.append_nil _).symm
    · cases hpair.symm.trans hls
      rw [← List.cons_append, List.getLast?_concat] at hlast
      obtain rfl := Option.some.inj hlast
      rw [heard, if_pos rfl, if_pos rfl]
      exact (List.append_nil _).symm

/-- The first rule that is neither the first line nor the last makes a cut. -/
theorem told_of_rule {rule : List Char} (h : ∀ ms : Lines, ms.length ≤ after.length → Told ms)
    (hmid : ∀ l ∈ mid, isRule l = false) (hrule : isRule rule) (hafter : after ≠ []) :
    Told (line :: (mid ++ rule :: after)) := by
  intro last hlast hbreak
  obtain ⟨front, gap, hfront, hgap, hsections⟩ :=
    exists_sections_joined hbreak hmid hrule hafter
  have hmessage : messageOf? front = message? (line :: mid) := by
    rw [message?, hfront]
    exact messageOf?_congr (Text.trim_append hgap front).symm
  have hlast : after.getLast? = some last := by
    obtain ⟨m, after, rfl⟩ := List.exists_cons_of_ne_nil hafter
    rw [← List.cons_append, List.getLast?_append] at hlast
    simpa using hlast
  have hrest := told_unled h hlast fun l hl => hbreak l (by simp [hl])
  have hfilter : (sections (joined (line :: (mid ++ rule :: after)))).filterMap messageOf? =
      (message? (line :: mid)).toList ++
        heard last true (List.all · isBlankLine) (after.splitOnP isRule) := by
    rw [hsections, List.filterMap_cons, hmessage, hrest]
    cases message? (line :: mid) <;> rfl
  have hgroups := splitOnP_ne_singleton_nil hafter
  rw [hfilter]
  cases hline : isRule line with
  | true =>
    rw [message?_rule hline, splitOnP_rule hline,
      List.splitOnP_append_cons_of_forall_mem hmid rule hrule, heard_nil (by simp)]
    rfl
  | false =>
    have hall : ∀ l ∈ line :: mid, isRule l = false := List.forall_mem_cons.2 ⟨hline, hmid⟩
    rw [← List.cons_append, List.splitOnP_append_cons_of_forall_mem hall rule hrule,
      heard_heeded rfl hgroups]

theorem told (ls : Lines) : Told ls := by
  -- On the number of lines, as a cut takes the blank lines below it along.
  induction hn : ls.length using Nat.strong_induction_on generalizing ls with
  | _ n ih =>
    cases ls with
    | nil =>
      intro last hlast
      cases hlast
    | cons l ls =>
      cases hfirst : ls.dropLast.find? isRule with
      | none =>
        have hnone : ∀ m ∈ ls.dropLast, isRule m = false := by simpa using hfirst
        exact told_of_dropLast hnone
      | some rule =>
        obtain ⟨hrule, mid, front, hls, hmid⟩ := List.find?_eq_some_iff_append.1 hfirst
        have hne : ls ≠ [] := by
          rintro rfl
          cases hfirst
        obtain ⟨after, hafter, hsplit⟩ : ∃ after, after ≠ [] ∧ ls = mid ++ rule :: after := by
          refine ⟨front ++ [ls.getLast hne], List.concat_ne_nil _ _, ?_⟩
          have hconcat := List.dropLast_concat_getLast hne
          rw [hls] at hconcat
          simpa using hconcat.symm
        have hshorter : after.length < ls.length := by
          rw [hsplit, List.length_append, List.length_cons]
          omega
        have hless : ls.length < n := hn ▸ Nat.lt_succ_self ls.length
        rw [hsplit]
        exact told_of_rule (fun ms hms => ih ms.length (by omega) ms rfl) (by simpa using hmid)
          hrule hafter

/-! ## A rule on the last line -/

/-- A text that is not blank keeps what is trimmed of it when a rule is put below it. -/
theorem exists_trim_above {cs : List Char} (hrule : isRule line) (hcs : ∃ c ∈ cs, ¬Text.isBlank c) :
    ∃ below, Text.trim (cs ++ '\n' :: line) = Text.trim cs ++ below ∧ ':' ∉ below ∧
      '-' ∈ below := by
  obtain ⟨bs, gap, rfl, hbs, hgap⟩ := exists_of_isRule hrule
  obtain ⟨lead, c, more, rfl, hlead, hdark⟩ := Text.exists_first_dark hcs
  obtain ⟨blanks, hblanks, hmore⟩ := Text.exists_trimEnd more
  have hdash : ¬Text.isBlank '-' := by decide
  have hcolon : ¬Text.isBlank ':' := by decide
  have htrim : Text.trim (lead ++ c :: more) = c :: Text.trimEnd more := by
    rw [Text.trim_prepend hlead, Text.trim, Text.trimStart, List.dropWhile_cons_of_neg hdark]
    exact Text.trimEnd_append_cons hdark [] more
  have hbelow : lead ++ c :: more ++ '\n' :: (bs ++ '-' :: '-' :: '-' :: gap) =
      lead ++ (c :: (Text.trimEnd more ++ (blanks ++ '\n' :: (bs ++ ['-', '-'])) ++ ['-'])) ++
        gap := by
    conv_lhs => rw [hmore]
    simp
  refine ⟨blanks ++ '\n' :: (bs ++ ['-', '-', '-']), ?_, ?_, by simp⟩
  · rw [hbelow, Text.trim_append hgap, Text.trim_prepend hlead, Text.trim_enclosed hdark hdash,
      htrim]
    simp
  · have hblank : ':' ∉ blanks := fun hmem => hcolon (hblanks _ hmem)
    have hbs : ':' ∉ bs := fun hmem => hcolon (hbs _ hmem)
    simp [hblank, hbs]

/-- A rule below lines that are no message makes none of them, and one below a message changes what
is said. -/
theorem message?_above_rule (hrule : isRule line) (ls : Lines) :
    (message? ls = none → message? (ls ++ [line]) = none) ∧
      ∀ m, message? ls = some m → message? (ls ++ [line]) ≠ some m := by
  have hclash : ∀ m : Message, none ≠ some m := fun m => (Option.some_ne_none m).symm
  cases ls with
  | nil => exact ⟨fun _ => message?_rule hrule [], fun m hm => absurd hm (hclash m)⟩
  | cons l ls =>
    have hjoined : joined (l :: ls ++ [line]) = joined (l :: ls) ++ '\n' :: line := by
      rw [joined_append (List.cons_ne_nil l ls) (List.cons_ne_nil line []), joined_singleton]
    by_cases hdark : ∃ c ∈ joined (l :: ls), ¬Text.isBlank c
    · obtain ⟨below, htrim, hcolon, hdash⟩ := exists_trim_above hrule hdark
      rw [message?, message?, hjoined, messageOf?, messageOf?, htrim, marker?_append hcolon]
      cases marker? true (Text.trim (joined (l :: ls))) with
      | none => exact ⟨fun _ => rfl, fun m hm => absurd hm (hclash m)⟩
      | some found =>
        -- The dashes of the rule are counted in what is said.
        refine ⟨fun hnone => absurd hnone.symm (hclash _), fun m hm hsame => ?_⟩
        have hcontent := congrArg Message.content (Option.some.inj (hsame.trans hm.symm))
        have htext := congrArg (List.count '-') (String.ofList_injective hcontent)
        rw [Text.count_trim (by decide), Text.count_trim (by decide), List.count_append] at htext
        have hcount := List.count_pos_iff.2 hdash
        omega
    · push Not at hdark
      have habove : message? (l :: ls) = none := by
        have htrim := Text.trim_append hdark []
        rw [message?, messageOf?, ← List.nil_append (joined _), htrim]
        rfl
      have hbelow : message? (l :: ls ++ [line]) = none := by
        rw [← message?_rule hrule [], message?, hjoined]
        refine messageOf?_congr ?_
        rw [trim_below_blank hdark, joined_singleton]
      rw [habove]
      exact ⟨fun _ => hbelow, fun m hm => absurd hm (hclash m)⟩

/-! ## Which messages are read -/

/-- The lines open with a role marker. -/
def IsSpoken (ls : Lines) : Prop := ∃ speaker rest, Opens true (Text.trim (joined ls)) speaker rest

theorem isSome_message?_iff : (message? ls).isSome ↔ IsSpoken ls := by
  rw [message?, messageOf?, Option.isSome_map, ← Option.ne_none_iff_isSome, ne_eq,
    marker?_eq_none_iff, not_not]
  rfl

/-- Each group that opens with a role marker stands between two cuts. -/
def Separate (opened : Bool) (barren : Lines → Bool) (gs : List Lines) : Prop :=
  ∀ front s back, gs = front ++ s :: back → IsSpoken s → heeded opened barren front ∧ back ≠ [[]]

section Separate

variable {g : Lines} {gs : List Lines} {opened : Bool} {barren : Lines → Bool}

theorem separate_nil : Separate opened barren [] := by
  intro front s back h
  simp at h

theorem separate_cons : Separate opened barren (g :: gs) ↔
    ((message? g).isSome → opened ∧ gs ≠ [[]]) ∧
      Separate (!opened || !barren g) (List.all · isBlankLine) gs := by
  rw [isSome_message?_iff]
  constructor
  · intro h
    refine ⟨h [] g gs rfl, fun front s back hgs => h (g :: front) s back ?_⟩
    rw [hgs, List.cons_append]
  · rintro ⟨hg, hgs⟩ front s back heq
    cases front with
    | nil =>
      cases heq
      exact hg
    | cons _ front =>
      cases heq
      exact hgs front s back rfl

instance decidableSeparate : (gs : List Lines) → (opened : Bool) → (barren : Lines → Bool) →
    Decidable (Separate opened barren gs)
  | [], _, _ => isTrue separate_nil
  | g :: gs, opened, barren =>
    have := decidableSeparate gs (!opened || !barren g) (List.all · isBlankLine)
    decidable_of_iff _ separate_cons.symm

theorem heard_of_none (hnone : message? g = none) (hlast : gs = [[]] → isRule last) :
    heard last opened barren (g :: gs) =
      heard last (!opened || !barren g) (List.all · isBlankLine) gs := by
  have hgroup : message? (if gs = [[]] then g ++ [last] else g) = none := by
    split
    case isTrue hgs => exact (message?_above_rule (hlast hgs) g).1 hnone
    case isFalse => exact hnone
  rw [heard, hgroup, ite_self]
  rfl

/-- No more is heard than is said. -/
theorem length_heard_le (hlast : ∀ front s, gs = front ++ [s, []] → isRule last) :
    (heard last opened barren gs).length ≤ (gs.filterMap message?).length := by
  induction gs generalizing opened barren with
  | nil => exact le_rfl
  | cons g gs ih =>
    have hrest := @ih (!opened || !barren g) (List.all · isBlankLine)
      fun front s hgs => hlast (g :: front) s (congrArg (g :: ·) hgs)
    cases hmessage : message? g with
    | none =>
      have hrule : gs = [[]] → isRule last := fun hgs => hlast [] g (congrArg (g :: ·) hgs)
      rwa [heard_of_none hmessage hrule, List.filterMap_cons_none hmessage]
    | some m =>
      have hone : ∀ o : Option Message, o.toList.length ≤ 1 := fun o => by cases o <;> simp
      rw [heard, List.filterMap_cons_some hmessage, List.length_append, List.length_cons, Nat.add_comm]
      exact Nat.add_le_add hrest (hone _)

/-- All that is said is heard exactly where each message stands between two cuts. -/
theorem heard_eq_iff (hlast : ∀ front s, gs = front ++ [s, []] → isRule last) :
    heard last opened barren gs = gs.filterMap message? ↔ Separate opened barren gs := by
  induction gs generalizing opened barren with
  | nil => exact iff_of_true rfl separate_nil
  | cons g gs ih =>
    have hrule : gs = [[]] → isRule last := fun hgs => hlast [] g (congrArg (g :: ·) hgs)
    have hrest : ∀ front s, gs = front ++ [s, []] → isRule last :=
      fun front s hgs => hlast (g :: front) s (congrArg (g :: ·) hgs)
    rw [separate_cons]
    cases hmessage : message? g with
    | none =>
      rw [heard_of_none hmessage hrule, List.filterMap_cons_none hmessage, ih hrest]
      simp
    | some m =>
      rw [List.filterMap_cons_some hmessage]
      by_cases hcut : opened ∧ gs ≠ [[]]
      · obtain ⟨rfl, hgs⟩ := hcut
        rw [heard, if_pos rfl, if_neg hgs, hmessage, Option.toList_some, List.singleton_append,
          List.cons_inj_right, ih hrest]
        simp [hgs]
      · refine iff_of_false (fun hheard => ?_) (fun hseparate => hcut (hseparate.1 rfl))
        -- Without a cut above, too few messages are heard; with a last rule below, another one is.
        cases opened with
        | false =>
          have hle := @length_heard_le last gs true (List.all · isBlankLine) hrest
          rw [← heard_unheeded, hheard, List.length_cons] at hle
          omega
        | true =>
          have hgs : gs = [[]] := by simpa using hcut
          obtain rfl := hgs
          have hchanged := (message?_above_rule (hrule rfl) g).2 m hmessage
          rw [heard, if_pos rfl, if_pos rfl, heard_nil (by simp), heard, List.append_nil] at hheard
          exact hchanged (Option.toList_eq_singleton_iff.1 hheard)

end Separate

/-! ## Texts -/

/-- The groups of lines between the rules of a text. -/
def groups (body : String) : List Lines := (Text.lines body.toList).splitOnP isRule

theorem exists_splitOnP_concat (h : isRule last = false) (ls : Lines) :
    ∃ front g, (ls ++ [last]).splitOnP isRule = front ++ [g ++ [last]] := by
  induction ls with
  | nil => exact ⟨[], [], List.splitOnP_eq_singleton (List.forall_mem_singleton.2 h)⟩
  | cons l ls ih =>
    obtain ⟨front, g, hgroups⟩ := ih
    rw [List.cons_append]
    cases hline : isRule l with
    | true => exact ⟨[] :: front, g, by rw [splitOnP_rule hline, hgroups, List.cons_append]⟩
    | false =>
      obtain ⟨first, gs, hfirst, hcons⟩ := exists_splitOnP_cons hline (ls ++ [last])
      rw [hgroups] at hfirst
      rw [hcons]
      cases front with
      | nil =>
        cases hfirst
        exact ⟨[], l :: g, rfl⟩
      | cons _ front =>
        cases hfirst
        exact ⟨(l :: first) :: front, g, rfl⟩

/-- Where the last group is empty and not the only one, the last line is a rule. -/
theorem isRule_of_splitOnP {front : List Lines} {g : Lines} (hlast : ls.getLast? = some last)
    (hgroups : ls.splitOnP isRule = front ++ [g, []]) : isRule last := by
  obtain ⟨init, rfl⟩ := List.getLast?_eq_some_iff.1 hlast
  cases hrule : isRule last with
  | true => rfl
  | false =>
    obtain ⟨front', g', hconcat⟩ := exists_splitOnP_concat hrule init
    have hends := congrArg List.getLast? (hgroups.symm.trans hconcat)
    simp at hends

theorem messages_eq_heard (body : String) : ∃ last,
    (Text.lines body.toList).getLast? = some last ∧
      messages body = heard last true List.isEmpty (groups body) := by
  have hbreak : ∀ l ∈ Text.lines body.toList, '\n' ∉ l := fun l hl => break_not_mem_of_mem_lines hl
  obtain ⟨last, hlast⟩ : ∃ last, (Text.lines body.toList).getLast? = some last :=
    ⟨_, List.getLast?_eq_some_getLast (List.splitOn_ne_nil '\n' body.toList)⟩
  have htold := told _ last hlast hbreak
  rw [joined_lines] at htold
  exact ⟨last, hlast, htold⟩

/-- Each group that opens with a role marker stands between two cuts. The beginning and the end of
the text are such. -/
def Parted (body : String) : Prop := Separate true List.isEmpty (groups body)

instance (body : String) : Decidable (Parted body) :=
  decidableSeparate (groups body) true List.isEmpty

theorem messages_eq_iff (body : String) :
    messages body = (groups body).filterMap message? ↔ Parted body := by
  obtain ⟨last, hlast, hheard⟩ := messages_eq_heard body
  rw [hheard]
  exact heard_eq_iff fun front g hgroups => isRule_of_splitOnP hlast hgroups

/-! ## Rows of rules -/

/-- Between the rules of a row are empty groups. -/
theorem splitOnP_row {before rules : Lines} (hne : rules ≠ []) (hrules : ∀ l ∈ rules, isRule l) :
    (before ++ (rules ++ after)).splitOnP isRule = before.splitOnP isRule ++
      (List.replicate (rules.length - 1) [] ++ after.splitOnP isRule) := by
  induction rules generalizing before with
  | nil => exact absurd rfl hne
  | cons rule rules ih =>
    obtain ⟨hrule, hrules⟩ := List.forall_mem_cons.1 hrules
    rw [List.cons_append, List.splitOnP_append_cons _ _ hrule]
    by_cases hrest : rules = []
    · rw [hrest]
      rfl
    · have hrow := @ih [] hrest hrules
      obtain ⟨r, rules, rfl⟩ := List.exists_cons_of_ne_nil hrest
      rw [List.nil_append, List.splitOnP_nil] at hrow
      rw [hrow]
      rfl

section Rows

variable {front gs : List Lines} {opened : Bool} {barren : Lines → Bool}

theorem append_ne_singleton_nil (hgs : gs ≠ []) (hlast : gs ≠ [[]]) (front : List Lines) :
    front ++ gs ≠ [[]] := by
  intro hsingle
  rcases List.append_eq_singleton_iff.1 hsingle with ⟨-, hsingle⟩ | ⟨-, hnil⟩
  · exact hlast hsingle
  · exact hgs hnil

/-- Of two rules in a row one makes a cut and one does not, whichever comes first. -/
theorem heard_replicate (k : Nat) (hgs : gs ≠ []) (hlast : gs ≠ [[]]) :
    heard last opened (List.all · isBlankLine) (List.replicate (2 * k) [] ++ gs) =
      heard last opened (List.all · isBlankLine) gs := by
  induction k with
  | zero => rfl
  | succ k ih =>
    have hrow : List.replicate (2 * (k + 1)) [] ++ gs =
        [] :: [] :: (List.replicate (2 * k) [] ++ gs) := by
      rw [Nat.mul_succ, List.replicate_succ, List.replicate_succ]
      rfl
    have hne := append_ne_singleton_nil hgs hlast (List.replicate (2 * k) [])
    rw [hrow, heard_nil (by simp [hgs]), heard_nil fun hsingle => absurd hsingle hne]
    simpa using ih

/-- An even number of rules more in a row changes nothing, unless they are on the last lines. -/
theorem heard_row (k : Nat) (hfront : front ≠ []) (hgs : gs ≠ []) (hlast : gs ≠ [[]]) :
    heard last opened barren (front ++ (List.replicate (2 * k) [] ++ gs)) =
      heard last opened barren (front ++ gs) := by
  induction front generalizing opened barren with
  | nil => exact absurd rfl hfront
  | cons g front ih =>
    have hne := append_ne_singleton_nil hgs hlast
    have hrow := append_ne_singleton_nil (by simp [hgs]) (hne (List.replicate (2 * k) [])) front
    rw [List.cons_append, List.cons_append, heard, heard, if_neg hrow, if_neg (hne front)]
    cases front with
    | nil => rw [List.nil_append, List.nil_append, heard_replicate k hgs hlast]
    | cons f front => rw [ih (List.cons_ne_nil f front)]

end Rows

/-- A rule of the first text is a row of rules in the second. -/
structure HasRow (before rules after : Lines) (body body' : String) : Prop where
  rule : ∃ rule, isRule rule ∧ Text.lines body.toList = before ++ rule :: after
  row : Text.lines body'.toList = before ++ (rules ++ after)
  notEmpty : rules ≠ []
  rules : ∀ l ∈ rules, isRule l

namespace HasRow

variable {before rules : Lines} {body body' : String}

theorem groups_eq (h : HasRow before rules after body body') :
    groups body = before.splitOnP isRule ++ after.splitOnP isRule ∧
      groups body' = before.splitOnP isRule ++
        (List.replicate (rules.length - 1) [] ++ after.splitOnP isRule) := by
  obtain ⟨rule, hrule, hlines⟩ := h.rule
  rw [groups, groups, hlines, h.row]
  exact ⟨List.splitOnP_append_cons before after hrule, splitOnP_row h.notEmpty h.rules⟩

theorem filterMap_message? (h : HasRow before rules after body body') :
    (groups body').filterMap message? = (groups body).filterMap message? := by
  obtain ⟨hbody, hbody'⟩ := h.groups_eq
  have hempty : (List.replicate (rules.length - 1) []).filterMap message? = [] :=
    List.filterMap_eq_nil_iff.2 fun g hg => by rw [List.eq_of_mem_replicate hg, message?_nil]
  rw [hbody, hbody', List.filterMap_append, List.filterMap_append, List.filterMap_append, hempty,
    List.nil_append]

theorem messages_of_odd (h : HasRow before rules after body body') (hodd : rules.length % 2 = 1)
    (hafter : after ≠ []) : messages body' = messages body := by
  obtain ⟨last, hlast, hheard⟩ := messages_eq_heard body
  obtain ⟨last', hlast', hheard'⟩ := messages_eq_heard body'
  obtain ⟨hbody, hbody'⟩ := h.groups_eq
  obtain ⟨rule, -, hlines⟩ := h.rule
  rw [hlines, List.append_cons, List.getLast?_append_of_ne_nil _ hafter] at hlast
  rw [h.row, ← List.append_assoc, List.getLast?_append_of_ne_nil _ hafter] at hlast'
  obtain rfl := Option.some.inj (hlast.symm.trans hlast')
  have hlength : rules.length - 1 = 2 * (rules.length / 2) := by omega
  rw [hheard, hheard', hbody, hbody', hlength,
    heard_row _ (List.splitOnP_ne_nil _ _) (List.splitOnP_ne_nil _ _)
      (splitOnP_ne_singleton_nil hafter)]

end HasRow

/-- The messages of a text are those of the groups of lines between its rules exactly where each
group that opens with a role marker stands between two cuts. Two rules more next to a rule that a
line stands below leave all messages as they are, and where the messages are those of the groups,
any number of rules more does so exactly if they still are. -/
theorem messages_of_groups_iff (body : String) :
    (messages body = (groups body).filterMap message? ↔ Parted body) ∧
      ∀ before rules after body', HasRow before rules after body body' →
        (rules.length % 2 = 1 → after ≠ [] → messages body' = messages body) ∧
          (Parted body → (messages body' = messages body ↔ Parted body')) := by
  refine ⟨messages_eq_iff body, fun before rules after body' hrow => ⟨hrow.messages_of_odd, ?_⟩⟩
  intro hparted
  rw [(messages_eq_iff body).2 hparted, ← hrow.filterMap_message?]
  exact messages_eq_iff body'

/-- The first line makes no cut and so the second rule does; three rules for the third one keep
both messages. -/
theorem messages_of_groups_threefold : ∃ before rules after body',
    HasRow before rules after "---\n\n---\n**User**: a\n \n---\n**Bot**: b\n" body' ∧
      rules.length % 2 = 1 ∧ after ≠ [] ∧
      Parted "---\n\n---\n**User**: a\n \n---\n**Bot**: b\n" ∧ Parted body' ∧
      messages body' = [⟨.user, "User", "a", []⟩, ⟨.assistant, "Bot", "b", []⟩] := by
  let body := "---\n\n---\n**User**: a\n \n---\n**Bot**: b\n"
  let body' := "---\n\n---\n**User**: a\n \n---\n --- \n---\n**Bot**: b\n"
  have hrow : HasRow (["---", "", "---", "**User**: a", " "].map String.toList)
      (["---", " --- ", "---"].map String.toList) (["**Bot**: b", ""].map String.toList)
      body body' :=
    ⟨⟨"---".toList, by decide, by decide⟩, by decide, by decide, by decide⟩
  have hparted : Parted body := by decide +kernel
  obtain ⟨hmessages, hrows⟩ := messages_of_groups_iff body
  obtain ⟨hodd, hall⟩ := hrows _ _ _ body' hrow
  have hsame := hodd (by decide) (by decide)
  refine ⟨_, _, _, body', hrow, by decide, by decide, hparted, (hall hparted).1 hsame, ?_⟩
  rw [hsame, hmessages.2 hparted]
  decide +kernel

/-- A rule on the first line, on the last, or below another one is not always heeded. -/
theorem unheeded_rules_lose_messages :
    ((groups "---\n**User**: hi").filterMap message? = [⟨.user, "User", "hi", []⟩] ∧
        messages "---\n**User**: hi" = []) ∧
      ((groups "**User**: a\n---").filterMap message? = [⟨.user, "User", "a", []⟩] ∧
        messages "**User**: a\n---" = [⟨.user, "User", "a\n---", []⟩]) ∧
      messages "**User**: a\n---\n**Bot**: b" =
        [⟨.user, "User", "a", []⟩, ⟨.assistant, "Bot", "b", []⟩] ∧
      messages "**User**: a\n---\n---\n**Bot**: b" = [⟨.user, "User", "a", []⟩] := by
  decide +kernel

end MarkdownVault.Conversation
