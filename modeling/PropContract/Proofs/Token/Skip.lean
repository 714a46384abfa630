import PropContract.Proofs.Token.Search
import PropContract.Proofs.Token.Fits

/-!
# What is met while text is stepped over

The loops that step over groups, templates and markup, one lemma for each thing they meet: where the loop goes
on, or where it ends. What is nested is stepped over by `inner`, of which it is enough to know the end.
-/

namespace PropContract.Token

open Text

/-! ## What nothing is nested in -/

/-- What stands behind the opening quote of a string: its closing quote comes last. -/
inductive Quoted (quote : Char) : List Char → Prop
  | close : Quoted quote [quote]
  | char {c : Char} {cs : List Char} (hc : c ∉ [quote, '\\', '\n']) (rest : Quoted quote cs) : Quoted quote (c :: cs)
  | escape {c : Char} {cs : List Char} (rest : Quoted quote cs) : Quoted quote ('\\' :: c :: cs)

/-- What stands behind the first two characters of a block comment. -/
inductive Commented : List Char → Prop
  | close : Commented ['*', '/']
  | char {c : Char} {cs : List Char} (hc : c = '*' → cs.head? ≠ some '/') (rest : Commented cs) :
      Commented (c :: cs)

/-- The characters that are more than text in a group. -/
def groupMarks : List Char := ['(', ')', '[', ']', '{', '}', '"', '\'', '`', '/', '<']

/-- The parts of a group that nothing is nested in. -/
inductive Inert : List Char → Prop
  | plain {c : Char} (hc : c ∉ groupMarks) : Inert [c]
  | string {quote : Char} {cs : List Char} (hquote : quote = '"' ∨ quote = '\'') (contents : Quoted quote cs) :
      Inert (quote :: cs)
  | blockComment {cs : List Char} (contents : Commented cs) : Inert ('/' :: '*' :: cs)
  | lineComment {cs : List Char} {c : Char} (hcs : ∀ d ∈ cs, isLineBreak d = false) (hc : isLineBreak c = true) :
      Inert ('/' :: '/' :: (cs ++ [c]))

variable {s : Source} {pos stop n : Nat} {c quote : Char} {cs ds after : List Char}

/-! ## Strings and comments -/

theorem stringEndIn_succ (s : Source) (quote : Char) (n pos : Nat) :
    stringEndIn s quote (n + 1) pos = (s.find? [quote, '\\', '\n'].contains pos).bind fun p =>
      if s.charAt p == '\\' then stringEndIn s quote n (p + 2)
      else if s.charAt p == '\n' then none else some (p + 1) := by
  have hmarks : (fun c => c == quote || c == '\\' || c == '\n') = [quote, '\\', '\n'].contains := by
    funext c
    simp only [List.contains_cons, List.contains_nil, Bool.or_false, Bool.or_assoc]
  rw [stringEndIn, hmarks]
  rfl

theorem finds_quoted (hquote : quote = '"' ∨ quote = '\'') (h : Quoted quote cs) (hrest : s.Rest pos (cs ++ after)) :
    Finds s (stringEndIn s quote) pos (pos + width cs) := by
  have hascii : quote.toNat < 0x80 := by rcases hquote with rfl | rfl <;> decide
  have hmarks : [quote, '\\', '\n'].all (·.toNat < 0x80) := by rcases hquote with rfl | rfl <;> decide
  have hsame : ∀ q q', s.find? [quote, '\\', '\n'].contains q = s.find? [quote, '\\', '\n'].contains q' →
      ∀ n, stringEndIn s quote (n + 1) q = stringEndIn s quote (n + 1) q' := by
    intro q q' hq n
    rw [stringEndIn_succ, stringEndIn_succ, hq]
  induction h generalizing pos with
  | close =>
      have hclose : quote ≠ '\\' ∧ quote ≠ '\n' := by rcases hquote with rfl | rfl <;> decide
      have hhere : s.Rest pos (quote :: after) := hrest
      refine Finds.of_step hhere.lt_size (fun n => ?_)
      rw [stringEndIn_succ, hhere.find?_here (by simp) hascii, width_ascii hascii]
      simp [hhere.charAt hascii, hclose]
  | char hc _ ih => exact (Leads.unmarked hmarks hsame hc hrest).finds (ih hrest.next)
  | @escape c cs _ ih =>
      have hstep (n : Nat) : stringEndIn s quote (n + 1) pos = stringEndIn s quote n (pos + 2) := by
        have hchar : s.charAt pos = '\\' := hrest.charAt (by decide)
        rw [stringEndIn_succ, hrest.find?_here (by simp) (by decide)]
        simp [hchar]
      exact (Leads.escaped hmarks hsame hrest hstep).finds (ih hrest.next_next)

theorem stringEnd_quoted (hquote : quote = '"' ∨ quote = '\'') (h : Quoted quote cs)
    (hrest : s.Rest pos (quote :: cs ++ after)) : stringEnd s pos quote = some (pos + width (quote :: cs)) := by
  have hascii : quote.toNat < 0x80 := by rcases hquote with rfl | rfl <;> decide
  rw [stringEnd, add_width_ascii hascii]
  exact finds_quoted hquote h (hrest.tail hascii) _ (by omega)

theorem finds_commented (h : Commented cs) (hrest : s.Rest pos (cs ++ after)) :
    Finds s (fun n pos => (findCommentClose s n pos).map (· + 2)) pos (pos + width cs) := by
  induction h generalizing pos with
  | close =>
      have hhere : s.Rest pos ('*' :: '/' :: after) := hrest
      have hstar : s.charAt pos = '*' := hhere.charAt (by decide)
      have hslash : s.charAt (pos + 1) = '/' := (hhere.tail (by decide)).charAt (by decide)
      refine Finds.of_step hhere.lt_size (fun n => ?_)
      rw [findCommentClose, hstar, hslash]
      rfl
  | @char c cs hc hcs ih =>
      have hhere : s.Rest pos (c :: (cs ++ after)) := hrest
      refine Leads.finds ?_ (ih hhere.next)
      by_cases hstar : c = '*'
      · subst hstar
        have hslash : s.charAt (pos + 1) ≠ '/' := by
          cases hcs with
          | close => exact (hhere.tail (by decide)).charAt_ne (by decide) (by decide)
          | char => exact (hhere.tail (by decide)).charAt_ne (by decide) (by simpa using hc rfl)
        apply Leads.of_step hhere.lt_size (by simp [width_ascii])
        intro n
        rw [findCommentClose]
        simp [hslash, width_ascii]
      · have hplain : c ∉ ['*'] := by simpa using hstar
        refine Leads.char (by decide) hplain (fun q _ hq n => ?_) hhere
        rw [findCommentClose]
        simp_all

theorem blockCommentEnd_commented (h : Commented cs) (hrest : s.Rest pos ('/' :: '*' :: cs ++ after)) :
    (blockCommentEnd s pos).map (·.1) = some (pos + width ('/' :: '*' :: cs)) := by
  have hbody : s.Rest (pos + 2) (cs ++ after) := (hrest.tail (by decide)).tail (by decide)
  rw [blockCommentEnd, Option.map_map, add_width_ascii (by decide), add_width_ascii (by decide)]
  exact finds_commented h hbody _ (Nat.le_refl _)

theorem isLineBreak_of_le (d : Char) (hd : 0x80 ≤ d.toNat) : isLineBreak d = false := by
  apply Bool.eq_false_iff.mpr
  intro hbreak
  exact absurd (ascii_of_isLineBreak hbreak).2 (Nat.not_lt_of_le hd)

theorem lineCommentEnd_rest (hcs : ∀ d ∈ cs, isLineBreak d = false) (hc : isLineBreak c = true)
    (hrest : s.Rest pos ('/' :: '/' :: cs ++ c :: after)) :
    lineCommentEnd s pos = pos + width ('/' :: '/' :: cs) := by
  have htext : ∀ d ∈ '/' :: '/' :: cs, isLineBreak d = false := by
    simp only [List.mem_cons]
    rintro d (rfl | rfl | hd)
    · rfl
    · rfl
    · exact hcs d hd
  rw [lineCommentEnd, hrest.find?_skip isLineBreak_of_le htext, hrest.drop.find?_here hc (ascii_of_isLineBreak hc).2]
  rfl

/-! ## Groups -/

/-- The search for the end of a group, as a search of what is to be closed. -/
def groupSearch (s : Source) (inner : Opaque → Nat → Option Nat) (closers : List Char) (n pos : Nat) : Option Nat :=
  groupEndIn s inner n pos closers

section

variable {inner : Opaque → Nat → Option Nat} {close : Char} {closers : List Char}

theorem closer?_eq_some (h : closer? c = some close) :
    (c = '{' ∧ close = '}') ∨ (c = '(' ∧ close = ')') ∨ (c = '[' ∧ close = ']') := by
  unfold closer? at h
  split at h
  · exact .inl ⟨rfl, (Option.some.inj h).symm⟩
  · exact .inr (.inl ⟨rfl, (Option.some.inj h).symm⟩)
  · exact .inr (.inr ⟨rfl, (Option.some.inj h).symm⟩)
  · nomatch h

theorem ascii_of_closer? (h : closer? c = some close) : c.toNat < 0x80 ∧ close.toNat < 0x80 := by
  rcases closer?_eq_some h with ⟨rfl, rfl⟩ | ⟨rfl, rfl⟩ | ⟨rfl, rfl⟩ <;> decide

theorem leads_opener (hclose : closer? c = some close) (hrest : s.Rest pos (c :: after)) :
    Leads s (groupSearch s inner closers) (groupSearch s inner (close :: closers)) pos (pos + 1) := by
  apply Leads.of_step hrest.lt_size (Nat.lt_succ_self pos)
  intro n
  rw [groupSearch, groupEndIn, if_neg (Nat.not_le_of_lt hrest.lt_size)]
  simp [hrest.charAt (ascii_of_closer? hclose).1, hclose, groupSearch]

/-- A closing bracket leads out of its group, or ends the search. -/
theorem groupSearch_closer (hclose : closer? c = some close) (hrest : s.Rest pos (close :: after)) :
    groupSearch s inner (close :: closers) (n + 1) pos =
      if closers.isEmpty then some (pos + 1) else groupSearch s inner closers n (pos + 1) := by
  have hcloser : closer? close = none ∧ isCloser close = true ∧ close.toNat < 0x80 := by
    rcases closer?_eq_some hclose with ⟨-, rfl⟩ | ⟨-, rfl⟩ | ⟨-, rfl⟩ <;> decide
  obtain ⟨hopener, hcloser, hascii⟩ := hcloser
  rw [groupSearch, groupEndIn, if_neg (Nat.not_le_of_lt hrest.lt_size)]
  simp [hrest.charAt hascii, hopener, hcloser, groupSearch]

theorem leads_plain (hc : c ∉ groupMarks) (hrest : s.Rest pos (c :: after)) :
    Leads s (groupSearch s inner closers) (groupSearch s inner closers) pos (pos + width [c]) := by
  refine Leads.char (by decide) hc (fun q hsize hq n => ?_) hrest
  rw [groupSearch, groupEndIn, if_neg (Nat.not_le_of_lt hsize)]
  simp only [groupMarks, List.mem_cons, List.not_mem_nil, or_false, not_or] at hq
  have hopener : closer? (s.charAt q) = none := by
    unfold closer?
    split <;> simp_all
  simp [hq, hopener, isCloser, groupSearch]

/-- What is stepped over at once in a group. -/
theorem leads_item {step : Option Nat} (hrest : s.Rest pos (c :: after)) (hstep : step = some stop) (hlt : pos < stop)
    (h : ∀ n, groupEndIn s inner (n + 1) pos closers = step.bind fun next => groupEndIn s inner n next closers) :
    Leads s (groupSearch s inner closers) (groupSearch s inner closers) pos stop := by
  apply Leads.of_step hrest.lt_size hlt
  intro n
  rw [groupSearch, h, hstep]
  rfl

theorem leads_inert (h : Inert cs) (hrest : s.Rest pos (cs ++ after)) :
    Leads s (groupSearch s inner closers) (groupSearch s inner closers) pos (pos + width cs) := by
  cases h with
  | plain hc => exact leads_plain hc hrest
  | @string quote cs hquote contents =>
      have hascii : quote.toNat < 0x80 := by rcases hquote with rfl | rfl <;> decide
      have hchar : s.charAt pos = quote := hrest.charAt hascii
      refine leads_item hrest (stringEnd_quoted hquote contents hrest) (lt_width _ _ _) (fun n => ?_)
      rw [groupEndIn, if_neg (Nat.not_le_of_lt hrest.lt_size)]
      rcases hquote with rfl | rfl <;> simp [hchar, closer?, isCloser]
  | @blockComment cs contents =>
      have hslash : s.charAt pos = '/' := hrest.charAt (by decide)
      have hstar : s.charAt (pos + 1) = '*' := (hrest.tail (by decide)).charAt (by decide)
      refine leads_item hrest (blockCommentEnd_commented contents hrest) (lt_width _ _ _) (fun n => ?_)
      rw [groupEndIn, if_neg (Nat.not_le_of_lt hrest.lt_size)]
      simp [hslash, hstar, closer?, isCloser]
  | @lineComment cs b hcs hb =>
      have htext : s.Rest pos ('/' :: '/' :: cs ++ b :: after) := by simpa using hrest
      have hslash : s.charAt pos = '/' := hrest.charAt (by decide)
      have hslash' : s.charAt (pos + 1) = '/' := (hrest.tail (by decide)).charAt (by decide)
      have hcomment : Leads s (groupSearch s inner closers) (groupSearch s inner closers) pos
          (pos + width ('/' :: '/' :: cs)) := by
        refine leads_item hrest (congrArg some (lineCommentEnd_rest hcs hb htext)) (lt_width _ _ _) (fun n => ?_)
        rw [groupEndIn, if_neg (Nat.not_le_of_lt hrest.lt_size)]
        simp [hslash, hslash', closer?, isCloser]
      have hbreak : b ∉ groupMarks := by
        simp only [isLineBreak, Bool.or_eq_true, beq_iff_eq] at hb
        rcases hb with rfl | rfl <;> decide
      exact hcomment.append (leads_plain hbreak htext.drop)

/-- A template or an element is one item of a group. -/
theorem leads_template (hrest : s.Rest pos ('`' :: cs ++ after))
    (hend : inner .template pos = some (pos + width ('`' :: cs))) :
    Leads s (groupSearch s inner closers) (groupSearch s inner closers) pos (pos + width ('`' :: cs)) := by
  have hchar : s.charAt pos = '`' := hrest.charAt (by decide)
  refine leads_item hrest hend (lt_width _ _ _) (fun n => ?_)
  rw [groupEndIn, if_neg (Nat.not_le_of_lt hrest.lt_size)]
  simp [hchar, closer?, isCloser]

theorem leads_element (hc : isIdentifierStart c = true ∨ c = '>') (hmay : expressionMayStart s pos = true)
    (hrest : s.Rest pos ('<' :: c :: cs ++ after)) (hend : inner .element pos = some (pos + width ('<' :: c :: cs))) :
    Leads s (groupSearch s inner closers) (groupSearch s inner closers) pos (pos + width ('<' :: c :: cs)) := by
  have hchar : s.charAt pos = '<' := hrest.charAt (by decide)
  have hname : isIdentifierStart (s.charAt (pos + 1)) = true ∨ s.charAt (pos + 1) = '>' := by
    rcases hc with hc | rfl
    · exact .inl ((hrest.tail (by decide)).test (fun d hd => by simp [isIdentifierStart, hd]) hc)
    · exact .inr ((hrest.tail (by decide)).charAt (by decide))
  refine leads_item hrest hend (lt_width _ _ _) (fun n => ?_)
  rw [groupEndIn, if_neg (Nat.not_le_of_lt hrest.lt_size)]
  simp [hchar, hmay, hname, closer?, isCloser]

/-- An expression may begin behind an opening bracket. -/
theorem expressionMayStart_opener (hclose : closer? c = some close) (hrest : s.Rest pos (c :: after)) :
    expressionMayStart s (pos + 1) = true := by
  have hmark : c.toNat < 0x80 ∧ isAsciiSpace c = false ∧ isIdentifierPart c = false ∧ c ∈ expressionMarks := by
    rcases closer?_eq_some hclose with ⟨rfl, -⟩ | ⟨rfl, -⟩ | ⟨rfl, -⟩ <;> decide
  obtain ⟨hascii, hspace, hpart, hmark⟩ := hmark
  simp [expressionMayStart, Source.skipBack, hrest.charAt hascii, hspace, hpart, hmark]

theorem plain_of_isAsciiSpace (h : isAsciiSpace c = true) : c.toNat < 0x80 ∧ c ∉ groupMarks := by
  simp only [isAsciiSpace, Bool.or_eq_true, beq_iff_eq] at h
  rcases h with (((rfl | rfl) | rfl) | rfl) | rfl <;> decide

/-- Blanks before a place do not tell whether an expression may begin there. -/
theorem expressionMayStart_blank (hc : isAsciiSpace c = true) (hrest : s.Rest pos (c :: after)) :
    expressionMayStart s (pos + width [c]) = expressionMayStart s pos := by
  obtain ⟨hascii, -⟩ := plain_of_isAsciiSpace hc
  rw [width_ascii hascii, expressionMayStart, width_nil, Source.skipBack, hrest.charAt hascii, if_pos hc]
  rfl

end

/-! ## Templates -/

/-- The search for the end of a template, without what it says about substitutions. -/
def templateSearch (s : Source) (group : Nat → Option Nat) (substituted : Bool) (n pos : Nat) : Option Nat :=
  (templateEndIn s group n pos substituted).map (·.1)

section

variable {group : Nat → Option Nat} {substituted : Bool}

theorem templateSearch_succ (n pos : Nat) :
    templateSearch s group substituted (n + 1) pos = (s.find? ['`', '\\', '$'].contains pos).bind fun p =>
      if s.charAt p == '\\' then templateSearch s group substituted n (p + 2)
      else if s.charAt p == '`' then some (p + 1)
      else if s.charAt (p + 1) == '{' then (group (p + 1)).bind fun next => templateSearch s group true n next
      else templateSearch s group substituted n (p + 1) := by
  have hmarks : (fun c => c == '`' || c == '\\' || c == '$') = ['`', '\\', '$'].contains := by
    funext c
    simp only [List.contains_cons, List.contains_nil, Bool.or_false, Bool.or_assoc]
  rw [templateSearch, templateEndIn, hmarks]
  cases s.find? ['`', '\\', '$'].contains pos with
  | none => rfl
  | some p =>
      simp only [Option.bind_eq_bind, Option.bind_some]
      split
      · rfl
      split
      · rfl
      split
      · cases group (p + 1) <;> rfl
      · rfl

theorem templateSearch_same (q q' : Nat)
    (hq : s.find? ['`', '\\', '$'].contains q = s.find? ['`', '\\', '$'].contains q') (n : Nat) :
    templateSearch s group substituted (n + 1) q = templateSearch s group substituted (n + 1) q' := by
  rw [templateSearch_succ, templateSearch_succ, hq]

theorem finds_backquote (hrest : s.Rest pos ('`' :: after)) :
    Finds s (templateSearch s group substituted) pos (pos + 1) := by
  have hchar : s.charAt pos = '`' := hrest.charAt (by decide)
  apply Finds.of_step hrest.lt_size
  intro n
  rw [templateSearch_succ, hrest.find?_here (by decide) (by decide)]
  simp [hchar]

theorem leads_character (hc : c ∉ ['`', '\\', '$']) (hrest : s.Rest pos (c :: after)) :
    Leads s (templateSearch s group substituted) (templateSearch s group substituted) pos (pos + width [c]) :=
  Leads.unmarked (by decide) templateSearch_same hc hrest

theorem leads_dollar (hc : c ≠ '{') (hrest : s.Rest pos ('$' :: c :: after)) :
    Leads s (templateSearch s group substituted) (templateSearch s group substituted) pos (pos + 1) := by
  have hchar : s.charAt pos = '$' := hrest.charAt (by decide)
  have hnext : s.charAt (pos + 1) ≠ '{' := (hrest.tail (by decide)).charAt_ne (by decide) hc
  apply Leads.of_step hrest.lt_size (Nat.lt_succ_self pos)
  intro n
  rw [templateSearch_succ, hrest.find?_here (by decide) (by decide)]
  simp [hchar, hnext]

theorem leads_escape (hrest : s.Rest pos ('\\' :: c :: after)) :
    Leads s (templateSearch s group substituted) (templateSearch s group substituted) pos (pos + width ['\\', c]) := by
  have hchar : s.charAt pos = '\\' := hrest.charAt (by decide)
  refine Leads.escaped (by decide) templateSearch_same hrest (fun n => ?_)
  rw [templateSearch_succ, hrest.find?_here (by decide) (by decide)]
  simp [hchar]

theorem leads_substitution (hrest : s.Rest pos ('$' :: '{' :: after)) (hend : group (pos + 1) = some stop)
    (hlt : pos + 1 < stop) :
    Leads s (templateSearch s group substituted) (templateSearch s group true) pos stop := by
  have hchar : s.charAt pos = '$' := hrest.charAt (by decide)
  have hnext : s.charAt (pos + 1) = '{' := (hrest.tail (by decide)).charAt (by decide)
  apply Leads.of_step hrest.lt_size (Nat.lt_of_succ_lt hlt)
  intro n
  rw [templateSearch_succ, hrest.find?_here (by decide) (by decide)]
  simp [hchar, hnext, hend]

theorem templateEnd_contents (h : Finds s (templateSearch s group false) (pos + 1) stop) :
    (templateEnd s group pos).map (·.1) = some stop :=
  h _ (by omega)

end

/-! ## Markup -/

section

variable {inner : Opaque → Nat → Option Nat}

theorem childrenEndIn_succ (n pos : Nat) :
    childrenEndIn s inner (n + 1) pos = (s.find? ['<', '{'].contains pos).bind fun p =>
      if s.charAt p == '{' then (inner .group p).bind fun next => childrenEndIn s inner n next
      else if s.charAt (p + 1) == '/' then (s.find? (· == '>') p).map (· + 1)
      else (inner .element p).bind fun next => childrenEndIn s inner n next := by
  have hmarks : (fun c => c == '<' || c == '{') = ['<', '{'].contains := by
    funext c
    simp only [List.contains_cons, List.contains_nil, Bool.or_false]
  rw [childrenEndIn, hmarks]
  cases s.find? ['<', '{'].contains pos with
  | none => rfl
  | some p =>
      simp only [Option.bind_eq_bind, Option.bind_some]
      split
      · rfl
      split
      · cases s.find? (· == '>') p <;> rfl
      · rfl

theorem finds_closingTag {name : List Char} (hname : '>' ∉ name)
    (hrest : s.Rest pos ('<' :: '/' :: (name ++ ['>']) ++ after)) :
    Finds s (childrenEndIn s inner) pos (pos + width ('<' :: '/' :: (name ++ ['>']))) := by
  have hchar : s.charAt pos = '<' := hrest.charAt (by decide)
  have hnext : s.charAt (pos + 1) = '/' := (hrest.tail (by decide)).charAt (by decide)
  have htag : s.Rest pos ('<' :: '/' :: name ++ '>' :: after) := by simpa using hrest
  have hclose : s.find? (· == '>') pos = some (pos + width ('<' :: '/' :: name)) :=
    htag.find?_first (by decide) (by simp [hname])
  have hwidth : width ('<' :: '/' :: (name ++ ['>'])) = width ('<' :: '/' :: name) + 1 :=
    width_append ('<' :: '/' :: name) ['>']
  apply Finds.of_step hrest.lt_size
  intro n
  rw [childrenEndIn_succ, hrest.find?_here (by decide) (by decide), hwidth]
  simp [hchar, hnext, hclose, Nat.add_assoc]

theorem leads_childText (hc : c ∉ ['<', '{']) (hrest : s.Rest pos (c :: after)) :
    Leads s (childrenEndIn s inner) (childrenEndIn s inner) pos (pos + width [c]) := by
  refine Leads.unmarked (by decide) (fun q q' hq n => ?_) hc hrest
  rw [childrenEndIn_succ, childrenEndIn_succ, hq]

theorem leads_childGroup (hrest : s.Rest pos ('{' :: after)) (hend : inner .group pos = some stop) (hlt : pos < stop) :
    Leads s (childrenEndIn s inner) (childrenEndIn s inner) pos stop := by
  have hchar : s.charAt pos = '{' := hrest.charAt (by decide)
  apply Leads.of_step hrest.lt_size hlt
  intro n
  rw [childrenEndIn_succ, hrest.find?_here (by decide) (by decide)]
  simp [hchar, hend]

theorem leads_childElement (hc : c ≠ '/') (hrest : s.Rest pos ('<' :: c :: after))
    (hend : inner .element pos = some stop) (hlt : pos < stop) :
    Leads s (childrenEndIn s inner) (childrenEndIn s inner) pos stop := by
  have hchar : s.charAt pos = '<' := hrest.charAt (by decide)
  have hnext : s.charAt (pos + 1) ≠ '/' := (hrest.tail (by decide)).charAt_ne (by decide) hc
  apply Leads.of_step hrest.lt_size hlt
  intro n
  rw [childrenEndIn_succ, hrest.find?_here (by decide) (by decide)]
  simp [hchar, hnext, hend]

theorem attributesEndIn_succ (hsize : pos < s.size) (n : Nat) :
    attributesEndIn s inner (n + 1) pos =
      if s.charAt pos == '/' && s.charAt (pos + 1) == '>' then some (pos + 2)
      else if s.charAt pos == '>' then childrenEnd s inner (pos + 1)
      else if s.charAt pos == '{' then (inner .group pos).bind fun next => attributesEndIn s inner n next
      else if s.charAt pos == '"' || s.charAt pos == '\'' then
        (s.find? (· == s.charAt pos) (pos + 1)).bind fun close => attributesEndIn s inner n (close + 1)
      else attributesEndIn s inner n (pos + 1) := by
  rw [attributesEndIn, if_neg (Nat.not_le_of_lt hsize)]
  rfl

theorem finds_selfClosing (hrest : s.Rest pos ('/' :: '>' :: after)) :
    Finds s (attributesEndIn s inner) pos (pos + 2) := by
  have hchar : s.charAt pos = '/' := hrest.charAt (by decide)
  have hnext : s.charAt (pos + 1) = '>' := (hrest.tail (by decide)).charAt (by decide)
  apply Finds.of_step hrest.lt_size
  intro n
  rw [attributesEndIn_succ hrest.lt_size]
  simp [hchar, hnext]

theorem finds_paired (hrest : s.Rest pos ('>' :: after)) (h : Finds s (childrenEndIn s inner) (pos + 1) stop) :
    Finds s (attributesEndIn s inner) pos stop := by
  have hchar : s.charAt pos = '>' := hrest.charAt (by decide)
  apply Finds.of_step hrest.lt_size
  intro n
  rw [attributesEndIn_succ hrest.lt_size, hchar]
  exact h _ (Nat.le_refl _)

theorem leads_attributeText (hc : c ∉ ['/', '>', '{', '"', '\'']) (hrest : s.Rest pos (c :: after)) :
    Leads s (attributesEndIn s inner) (attributesEndIn s inner) pos (pos + width [c]) := by
  refine Leads.char (by decide) hc (fun q hsize hq n => ?_) hrest
  simp only [List.mem_cons, List.not_mem_nil, or_false, not_or] at hq
  rw [attributesEndIn_succ hsize]
  simp [hq]

theorem leads_attributeValue (hquote : quote = '"' ∨ quote = '\'') (hcs : quote ∉ cs)
    (hrest : s.Rest pos (quote :: (cs ++ [quote]) ++ after)) :
    Leads s (attributesEndIn s inner) (attributesEndIn s inner) pos (pos + width (quote :: (cs ++ [quote]))) := by
  have hascii : quote.toNat < 0x80 := by rcases hquote with rfl | rfl <;> decide
  have hchar : s.charAt pos = quote := hrest.charAt hascii
  have hvalue : s.Rest (pos + 1) (cs ++ quote :: after) := by simpa using hrest.tail hascii
  have hclose : s.find? (· == quote) (pos + 1) = some (pos + 1 + width cs) := hvalue.find?_first hascii hcs
  have hwidth : pos + width (quote :: (cs ++ [quote])) = pos + 1 + width cs + 1 := by
    rw [add_width_ascii hascii, width_append, ← Nat.add_assoc, width_ascii hascii, width_nil]
  rw [hwidth]
  apply Leads.of_step hrest.lt_size (by omega)
  intro n
  rw [attributesEndIn_succ hrest.lt_size, hchar, hclose]
  rcases hquote with rfl | rfl <;> simp

theorem leads_attributeGroup (hrest : s.Rest pos ('{' :: after)) (hend : inner .group pos = some stop)
    (hlt : pos < stop) : Leads s (attributesEndIn s inner) (attributesEndIn s inner) pos stop := by
  have hchar : s.charAt pos = '{' := hrest.charAt (by decide)
  apply Leads.of_step hrest.lt_size hlt
  intro n
  rw [attributesEndIn_succ hrest.lt_size]
  simp [hchar, hend]

theorem elementEnd_fragment (hrest : s.Rest pos ('<' :: '>' :: after))
    (h : Finds s (childrenEndIn s inner) (pos + 2) stop) : elementEnd s inner pos = some stop := by
  have hnext : s.charAt (pos + 1) = '>' := (hrest.tail (by decide)).charAt (by decide)
  rw [elementEnd, hnext]
  exact h _ (Nat.le_refl _)

theorem elementEnd_tag {d : Char} {name : List Char} (hc : isIdentifierStart c = true)
    (hname : ∀ c ∈ name, isTagNamePart c = true) (hd : isTagNamePart d = false)
    (hrest : s.Rest pos ('<' :: c :: name ++ d :: after))
    (h : Finds s (attributesEndIn s inner) (pos + width ('<' :: c :: name)) stop) :
    elementEnd s inner pos = some stop := by
  have htag : s.Rest (pos + 1) (c :: name ++ d :: after) := hrest.tail (by decide)
  have hnext : s.charAt (pos + 1) ≠ '>' := by
    apply htag.charAt_ne (by decide)
    rintro rfl
    exact absurd hc (by decide)
  have hwide : ∀ c : Char, 0x80 ≤ c.toNat → isTagNamePart c = true := by
    intro c hle
    simp [isTagNamePart, Source.isIdentifierPart_of_le hle]
  have hpart : ∀ x ∈ c :: name, isTagNamePart x = true := by
    simp only [List.mem_cons]
    rintro x (rfl | hx)
    · simp [isTagNamePart, isIdentifierPart, hc]
    · exact hname x hx
  rw [add_width_ascii (by decide)] at h
  rw [elementEnd, htag.skipWhile hwide hpart hd, if_neg (by simpa using hnext)]
  exact h _ (Nat.le_refl _)

end

end PropContract.Token
