import PropContract.Proofs.Token.Skip

/-!
# Well-formed text is stepped over exactly

Groups, templates and markup have a grammar. What is written by it is stepped over from its first character
to its last, whatever stands around it, if templates and elements are not nested too deep.
-/

namespace PropContract.Token

open Text

/-- The kinds of nested text. A body is what stands between brackets. Contents, attributes and children go up
to the end of the template or element they belong to. -/
inductive Construct where
  | group (opener : Char)
  | body
  | items
  | template
  | contents
  | element
  | attributes
  | children

/-- The grammar of nested text, with at most so many levels of templates and elements in each other. -/
inductive WellFormed : (levels : Nat) → Construct → List Char → Prop
  -- An element may come first behind a bracket and blanks. Elsewhere `<` may be a comparison.
  | group {n : Nat} {opener close : Char} {cs : List Char} (hclose : closer? opener = some close)
      (body : WellFormed n .body cs) : WellFormed n (.group opener) (opener :: (cs ++ [close]))
  | blank {n : Nat} {c : Char} {cs : List Char} (hc : isAsciiSpace c = true) (body : WellFormed n .body cs) :
      WellFormed n .body (c :: cs)
  | markup {n : Nat} {cs ds : List Char} (element : WellFormed n .element cs) (items : WellFormed n .items ds) :
      WellFormed n .body (cs ++ ds)
  | body {n : Nat} {cs : List Char} (items : WellFormed n .items cs) : WellFormed n .body cs
  | nil {n : Nat} : WellFormed n .items []
  | inert {n : Nat} {cs ds : List Char} (inert : Inert cs) (items : WellFormed n .items ds) :
      WellFormed n .items (cs ++ ds)
  | nested {n : Nat} {opener : Char} {cs ds : List Char} (group : WellFormed n (.group opener) cs)
      (items : WellFormed n .items ds) : WellFormed n .items (cs ++ ds)
  | templated {n : Nat} {cs ds : List Char} (template : WellFormed n .template cs)
      (items : WellFormed n .items ds) : WellFormed n .items (cs ++ ds)
  -- A dollar sign is text unless a brace follows it, which then opens a group.
  | template {n : Nat} {cs : List Char} (contents : WellFormed n .contents cs) :
      WellFormed (n + 1) .template ('`' :: cs)
  | backquote {n : Nat} : WellFormed n .contents ['`']
  | character {n : Nat} {c : Char} {cs : List Char} (hc : c ∉ ['`', '\\', '$'])
      (contents : WellFormed n .contents cs) : WellFormed n .contents (c :: cs)
  | dollar {n : Nat} {c : Char} {cs : List Char} (hc : c ≠ '{') (contents : WellFormed n .contents (c :: cs)) :
      WellFormed n .contents ('$' :: c :: cs)
  | escape {n : Nat} {c : Char} {cs : List Char} (contents : WellFormed n .contents cs) :
      WellFormed n .contents ('\\' :: c :: cs)
  | substitution {n : Nat} {cs ds : List Char} (group : WellFormed n (.group '{') cs)
      (contents : WellFormed n .contents ds) : WellFormed n .contents ('$' :: (cs ++ ds))
  -- A name ends where no more of it stands. What is between it and the end of the tag is names, equals signs,
  -- blanks, quoted values, which know no escapes, and groups.
  | fragment {n : Nat} {cs : List Char} (children : WellFormed n .children cs) :
      WellFormed (n + 1) .element ('<' :: '>' :: cs)
  | tag {n : Nat} {c d : Char} {name cs : List Char} (hc : isIdentifierStart c = true)
      (hname : ∀ c ∈ name, isTagNamePart c = true) (hd : isTagNamePart d = false)
      (attributes : WellFormed n .attributes (d :: cs)) :
      WellFormed (n + 1) .element ('<' :: c :: name ++ d :: cs)
  | selfClosing {n : Nat} : WellFormed n .attributes ['/', '>']
  | paired {n : Nat} {cs : List Char} (children : WellFormed n .children cs) : WellFormed n .attributes ('>' :: cs)
  | attributeText {n : Nat} {c : Char} {cs : List Char} (hc : c ∉ ['/', '>', '{', '"', '\''])
      (attributes : WellFormed n .attributes cs) : WellFormed n .attributes (c :: cs)
  | attributeValue {n : Nat} {quote : Char} {cs ds : List Char} (hquote : quote = '"' ∨ quote = '\'')
      (hcs : quote ∉ cs) (attributes : WellFormed n .attributes ds) :
      WellFormed n .attributes (quote :: (cs ++ [quote]) ++ ds)
  | attributeGroup {n : Nat} {cs ds : List Char} (group : WellFormed n (.group '{') cs)
      (attributes : WellFormed n .attributes ds) : WellFormed n .attributes (cs ++ ds)
  | closingTag {n : Nat} {name : List Char} (hname : '>' ∉ name) :
      WellFormed n .children ('<' :: '/' :: (name ++ ['>']))
  | childText {n : Nat} {c : Char} {cs : List Char} (hc : c ∉ ['<', '{']) (children : WellFormed n .children cs) :
      WellFormed n .children (c :: cs)
  | childGroup {n : Nat} {cs ds : List Char} (group : WellFormed n (.group '{') cs)
      (children : WellFormed n .children ds) : WellFormed n .children (cs ++ ds)
  | childElement {n : Nat} {cs ds : List Char} (element : WellFormed n .element cs)
      (children : WellFormed n .children ds) : WellFormed n .children (cs ++ ds)

variable {s : Source} {pos stop n level : Nat} {c opener : Char} {cs after : List Char} {closers : List Char}

theorem WellFormed.group_head (h : WellFormed n (.group opener) cs) : ∃ ds, cs = opener :: ds := by
  cases h with
  | group => exact ⟨_, rfl⟩

theorem WellFormed.template_head (h : WellFormed n .template cs) : ∃ ds, cs = '`' :: ds := by
  cases h with
  | template => exact ⟨_, rfl⟩

theorem WellFormed.element_head (h : WellFormed n .element cs) :
    ∃ c ds, cs = '<' :: c :: ds ∧ (isIdentifierStart c = true ∨ c = '>') := by
  cases h with
  | fragment => exact ⟨_, _, rfl, .inr rfl⟩
  | tag hc => exact ⟨_, _, rfl, .inl hc⟩

/-! ## Where nested text ends -/

/-- Whether the search for the end of a group goes on at `stop`, whichever brackets are open. -/
def Passes (s : Source) (level pos stop : Nat) : Prop :=
  ∀ closers ≠ [],
    Leads s (groupSearch s (opaqueEnd s level) closers) (groupSearch s (opaqueEnd s level) closers) pos stop

/-- What it is for a construct with so many levels to end at `stop`. Two levels of what is stepped over stand
for each: one for the template or element and one for a group in it. -/
def Construct.Ends (s : Source) (levels pos stop : Nat) : Construct → Prop
  | .group _ => ∀ level, 2 * levels ≤ level →
      Finds s (groupSearch s (opaqueEnd s level) []) pos stop ∧ Passes s level pos stop
  | .body => expressionMayStart s pos = true → ∀ level, 2 * levels ≤ level → Passes s level pos stop
  | .items => ∀ level, 2 * levels ≤ level → Passes s level pos stop
  | .template => ∀ level, 2 * levels ≤ level → opaqueEnd s level .template pos = some stop
  | .contents => ∀ level, 2 * levels < level → ∀ substituted,
      Finds s (templateSearch s (opaqueEnd s level .group) substituted) pos stop
  | .element => ∀ level, 2 * levels ≤ level → opaqueEnd s level .element pos = some stop
  | .attributes => ∀ level, 2 * levels < level → Finds s (attributesEndIn s (opaqueEnd s level)) pos stop
  | .children => ∀ level, 2 * levels < level → Finds s (childrenEndIn s (opaqueEnd s level)) pos stop

/-- A group is stepped over as a whole on every level above those in it. -/
theorem opaqueEnd_group (h : (Construct.group opener).Ends s n pos stop) (hlevel : 2 * n < level) :
    opaqueEnd s level .group pos = some stop := by
  obtain ⟨below, rfl⟩ : ∃ below, level = below + 1 := ⟨level - 1, by omega⟩
  exact (h below (by omega)).1 _ (Nat.le_refl _)

/-- A bracket, a body that is passed over, and the bracket that closes it. -/
theorem ends_group {close : Char} (hclose : closer? opener = some close)
    (hrest : s.Rest pos (opener :: (cs ++ ([close] ++ after))))
    (hbody : Construct.body.Ends s n (pos + 1) (pos + 1 + width cs)) :
    (Construct.group opener).Ends s n pos (pos + width (opener :: (cs ++ [close]))) := by
  intro level hlevel
  have hascii := ascii_of_closer? hclose
  have hwidth : pos + width (opener :: (cs ++ [close])) = pos + 1 + width cs + 1 := by
    rw [width_ascii hascii.1, width_append, width_ascii hascii.2, width_nil]
    omega
  have hend : s.Rest (pos + 1 + width cs) (close :: after) := (hrest.tail hascii.1).drop
  have hinside (closers : List Char) : Leads s (groupSearch s (opaqueEnd s level) closers)
      (groupSearch s (opaqueEnd s level) (close :: closers)) pos (pos + 1 + width cs) :=
    (leads_opener hclose hrest).trans
      (hbody (expressionMayStart_opener hclose hrest) level hlevel _ (List.cons_ne_nil _ _))
  rw [hwidth]
  constructor
  · apply hinside []
    apply Finds.of_step hend.lt_size
    intro n
    rw [groupSearch_closer hclose hend]
    rfl
  · intro closers hclosers
    apply (hinside closers).trans
    apply Leads.of_step hend.lt_size (Nat.lt_succ_self _)
    intro n
    rw [groupSearch_closer hclose hend, if_neg (by simpa using hclosers)]

/-- What is written by the grammar ends where its text does. -/
theorem WellFormed.ends {construct : Construct} (h : WellFormed n construct cs) (hrest : s.Rest pos (cs ++ after)) :
    construct.Ends s n pos (pos + width cs) := by
  -- By the grammar. A part that is stepped over at once leads the loop behind it, and a group in a template or
  -- in markup takes one level more than what is in it.
  induction h generalizing pos after with
  | group hclose _ ih =>
      rw [List.cons_append, List.append_assoc] at hrest
      exact ends_group hclose hrest (ih (hrest.tail (ascii_of_closer? hclose).1))
  | blank hc _ ih =>
      intro hmay level hlevel closers hclosers
      have hmay' := (expressionMayStart_blank hc hrest).trans hmay
      exact (leads_plain (plain_of_isAsciiSpace hc).2 hrest).append (ih hrest.next hmay' level hlevel closers hclosers)
  | markup helement _ ihelement ih =>
      intro hmay level hlevel closers hclosers
      rw [List.append_assoc] at hrest
      have hend := ihelement hrest level hlevel
      obtain ⟨c, ds, rfl, hc⟩ := helement.element_head
      exact (leads_element hc hmay hrest hend).append (ih hrest.drop level hlevel closers hclosers)
  | body _ ih => exact fun _ => ih hrest
  | nil => exact fun _ _ _ _ => .refl
  | inert hinert _ ih =>
      intro level hlevel closers hclosers
      rw [List.append_assoc] at hrest
      exact (leads_inert hinert hrest).append (ih hrest.drop level hlevel closers hclosers)
  | nested _ _ ihgroup ih =>
      intro level hlevel closers hclosers
      rw [List.append_assoc] at hrest
      exact ((ihgroup hrest level hlevel).2 closers hclosers).append (ih hrest.drop level hlevel closers hclosers)
  | templated htemplate _ ihtemplate ih =>
      intro level hlevel closers hclosers
      rw [List.append_assoc] at hrest
      have hend := ihtemplate hrest level hlevel
      obtain ⟨ds, rfl⟩ := htemplate.template_head
      exact (leads_template hrest hend).append (ih hrest.drop level hlevel closers hclosers)
  | template _ ih =>
      intro level hlevel
      obtain ⟨below, rfl⟩ : ∃ below, level = below + 1 := ⟨level - 1, by omega⟩
      rw [add_width_ascii (by decide)]
      exact templateEnd_contents (ih (hrest.tail (by decide)) below (by omega) false)
  | backquote => exact fun _ _ _ => finds_backquote hrest
  | character hc _ ih =>
      exact fun level hlevel substituted =>
        (leads_character hc hrest).finds (ih hrest.next level hlevel substituted)
  | dollar hc _ ih =>
      exact fun level hlevel substituted =>
        (leads_dollar hc hrest).finds (ih hrest.next level hlevel substituted)
  | escape _ ih =>
      exact fun level hlevel substituted =>
        (leads_escape hrest).finds (ih hrest.next_next level hlevel substituted)
  | substitution hgroup _ ihgroup ih =>
      intro level hlevel substituted
      rw [List.cons_append, List.append_assoc] at hrest
      have hinside := hrest.tail (by decide)
      have hend := opaqueEnd_group (ihgroup hinside) hlevel
      have hnext := ih hinside.drop level hlevel true
      obtain ⟨ds, rfl⟩ := hgroup.group_head
      rw [add_width_ascii (by decide), width_append, ← Nat.add_assoc]
      exact leads_substitution hrest hend (lt_width _ _ _) _ hnext
  | fragment _ ih =>
      intro level hlevel
      obtain ⟨below, rfl⟩ : ∃ below, level = below + 1 := ⟨level - 1, by omega⟩
      have hchildren := ih ((hrest.tail (by decide)).tail (by decide)) below (by omega)
      rw [add_width_ascii (by decide), add_width_ascii (by decide)]
      exact elementEnd_fragment hrest hchildren
  | tag hc hname hd _ ih =>
      intro level hlevel
      obtain ⟨below, rfl⟩ : ∃ below, level = below + 1 := ⟨level - 1, by omega⟩
      rw [List.append_assoc] at hrest
      rw [width_append, ← Nat.add_assoc]
      exact elementEnd_tag hc hname hd hrest (ih hrest.drop below (by omega))
  | selfClosing => exact fun _ _ => finds_selfClosing hrest
  | paired _ ih =>
      intro level hlevel
      rw [add_width_ascii (by decide)]
      exact finds_paired hrest (ih (hrest.tail (by decide)) level hlevel)
  | attributeText hc _ ih =>
      exact fun level hlevel => (leads_attributeText hc hrest).finds (ih hrest.next level hlevel)
  | attributeValue hquote hcs _ ih =>
      intro level hlevel
      rw [List.append_assoc] at hrest
      exact (leads_attributeValue hquote hcs hrest).finds (ih hrest.drop level hlevel)
  | attributeGroup hgroup _ ihgroup ih =>
      intro level hlevel
      rw [List.append_assoc] at hrest
      have hend := opaqueEnd_group (ihgroup hrest) hlevel
      obtain ⟨ds, rfl⟩ := hgroup.group_head
      exact (leads_attributeGroup hrest hend (lt_width _ _ _)).finds (ih hrest.drop level hlevel)
  | closingTag hname => exact fun _ _ => finds_closingTag hname hrest
  | childText hc _ ih => exact fun level hlevel => (leads_childText hc hrest).finds (ih hrest.next level hlevel)
  | childGroup hgroup _ ihgroup ih =>
      intro level hlevel
      rw [List.append_assoc] at hrest
      have hend := opaqueEnd_group (ihgroup hrest) hlevel
      obtain ⟨ds, rfl⟩ := hgroup.group_head
      exact (leads_childGroup hrest hend (lt_width _ _ _)).finds (ih hrest.drop level hlevel)
  | childElement helement _ ihelement ih =>
      intro level hlevel
      rw [List.append_assoc] at hrest
      have hend := ihelement hrest level (Nat.le_of_lt hlevel)
      obtain ⟨c, ds, rfl, hc⟩ := helement.element_head
      have hslash : c ≠ '/' := by
        rintro rfl
        exact absurd hc (by decide)
      exact (leads_childElement hslash hrest hend (lt_width _ _ _)).finds (ih hrest.drop level hlevel)

/-- A group or an element is stepped over exactly, whatever text stands before and behind it. -/
theorem end_wellFormed (hn : n ≤ 512) (opener : Char) (before text behind : String) :
    (WellFormed n (.group opener) text.toList →
      groupEnd (.ofString (before ++ text ++ behind)) before.utf8ByteSize =
        some (before.utf8ByteSize + text.utf8ByteSize)) ∧
    (WellFormed n .element text.toList →
      markupEnd (.ofString (before ++ text ++ behind)) before.utf8ByteSize =
        some (before.utf8ByteSize + text.utf8ByteSize)) := by
  have hrest : (Source.ofString (before ++ text ++ behind)).Rest before.utf8ByteSize
      (text.toList ++ behind.toList) := by
    have hall := (Source.ofString (before ++ text ++ behind)).rest_zero
    have htext : (Source.ofString (before ++ text ++ behind)).text.toList =
        before.toList ++ (text.toList ++ behind.toList) := by
      simp [Source.ofString, String.toList_append]
    rw [htext] at hall
    rw [← Source.width_toList before, ← Nat.zero_add (width _)]
    exact hall.drop
  rw [← Source.width_toList text]
  constructor
  · exact fun h => opaqueEnd_group (h.ends hrest) (by rw [maxSkipDepth]; omega)
  · exact fun h => h.ends hrest _ (by rw [maxSkipDepth]; omega)

/-- A call whose brackets hold an element, a string and a template with brackets in them. -/
theorem end_wellFormed_call :
    WellFormed 1 (.group '(') "(<b/>')'`]`)".toList ∧ WellFormed 1 .element "<b/>".toList ∧
      groupEnd (.ofString ("f" ++ "(<b/>')'`]`)" ++ "(")) 1 = some 13 ∧
      markupEnd (.ofString ("f(" ++ "<b/>" ++ "')'`]`)(")) 2 = some 6 := by
  have helement : WellFormed 1 .element ['<', 'b', '/', '>'] :=
    .tag (by decide) (show ∀ c ∈ [], isTagNamePart c = true by nofun) (by decide) .selfClosing
  have hstring : Inert ['\'', ')', '\''] := .string (.inr rfl) (.char (by decide) .close)
  have htemplate : WellFormed 1 .template ['`', ']', '`'] := .template (.character (by decide) .backquote)
  have hgroup : WellFormed 1 (.group '(') "(<b/>')'`]`)".toList :=
    .group (show closer? '(' = some ')' from rfl) (.markup helement (.inert hstring (.templated htemplate .nil)))
  exact ⟨hgroup, helement, (end_wellFormed (by decide) '(' "f" _ "(").1 hgroup,
    (end_wellFormed (by decide) '(' "f(" _ "')'`]`)(").2 helement⟩

end PropContract.Token
