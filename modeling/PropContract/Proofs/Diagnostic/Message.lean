import Mathlib.Data.List.Induction
import Mathlib.Data.List.Infix
import PropContract.Diagnostic.Message

/-!
# Filling in a message

Arguments are put in one after the other. That is the same as putting them in at once where no argument makes a
placeholder of a later one, by itself or with the braces around it.
-/

namespace PropContract.Message

/-- How many times a text stands in another one. -/
def occurrences (target text : List Char) : Nat := text.tails.countP (target.isPrefixOf ·)

/-- Whether a template becomes a text by putting arguments in place of their placeholders at once, and keeping
every other character. -/
inductive Substitutes (args : List String) : (template text : List Char) → Prop where
  | nil : Substitutes args [] []
  | hole {i : Nat} {arg : String} {rest text : List Char} (harg : args[i]? = some arg)
      (h : Substitutes args rest text) : Substitutes args (placeholder i ++ rest) (arg.toList ++ text)
  | char {c : Char} {rest text : List Char} (hc : ∀ i < args.length, ¬ placeholder i <+: c :: rest)
      (h : Substitutes args rest text) : Substitutes args (c :: rest) (c :: text)

variable {args : List String} {arg : String} {template text rest word target new : List Char} {c : Char} {i j : Nat}

/-! ## Placeholders -/

theorem not_mem_digits (hc : c.isDigit = false) : c ∉ (toString i).toList := by
  intro hmem
  rw [Nat.toString_eq_repr, Nat.toList_repr] at hmem
  rw [Nat.isDigit_of_mem_toDigits (by decide) (by decide) hmem] at hc
  cases hc

theorem not_mem_tail_placeholder : '{' ∉ (placeholder i).tail := by
  rw [placeholder, List.cons_append, List.tail_cons, List.mem_append, not_or]
  exact ⟨not_mem_digits (by decide), by decide⟩

theorem placeholder_eq_cons (i : Nat) : placeholder i = '{' :: (placeholder i).tail := rfl

theorem not_begins (hc : c ≠ '{') : ¬ placeholder i <+: c :: rest := by
  rw [placeholder_eq_cons, List.cons_prefix_cons]
  exact fun h => hc h.1.symm

/-- Where two placeholders begin, they are one. -/
theorem eq_of_placeholder_begins (h : placeholder i <+: placeholder j ++ rest) : i = j := by
  have hclose (i : Nat) : '}' ∉ (toString i).toList := not_mem_digits (by decide)
  obtain ⟨more, hmore⟩ := h
  simp only [placeholder, List.cons_append, List.append_assoc, List.cons.injEq, List.nil_append, true_and] at hmore
  -- The digits go up to the first closing brace.
  have hdigits := congrArg (List.splitOn '}') hmore
  rw [List.splitOn_append_cons_self_of_not_mem (hclose i), List.splitOn_append_cons_self_of_not_mem (hclose j)] at hdigits
  have hsame := (List.cons.inj hdigits).1
  rw [Nat.toString_eq_repr, Nat.toString_eq_repr, Nat.toList_repr, Nat.toList_repr] at hsame
  rw [← Nat.ofDigitChars_ten_toDigits (n := i), hsame, Nat.ofDigitChars_ten_toDigits]

/-! ## Occurrences -/

theorem occurrences_nil (h : target ≠ []) : occurrences target [] = 0 := by
  cases target with
  | nil => exact absurd rfl h
  | cons c target => rfl

theorem occurrences_cons (target : List Char) (c : Char) (rest : List Char) :
    occurrences target (c :: rest) = occurrences target rest + if target <+: c :: rest then 1 else 0 := by
  simp only [occurrences, List.tails_cons, List.countP_cons, List.isPrefixOf_iff_prefix]

theorem occurrences_le_append (target word rest : List Char) :
    occurrences target rest ≤ occurrences target (word ++ rest) := by
  induction word with
  | nil => exact Nat.le_refl _
  | cons c word ih =>
      rw [List.cons_append, occurrences_cons]
      exact Nat.le_add_right_of_le ih

/-- A placeholder begins with a brace. -/
theorem occurrences_append (hword : '{' ∉ word) (i : Nat) (rest : List Char) :
    occurrences (placeholder i) (word ++ rest) = occurrences (placeholder i) rest := by
  induction word with
  | nil => rfl
  | cons c word ih =>
      rw [List.mem_cons, not_or] at hword
      rw [List.cons_append, occurrences_cons, if_neg (not_begins (Ne.symm hword.1)), Nat.add_zero, ih hword.2]

theorem occurrences_placeholder_append (i j : Nat) (rest : List Char) :
    occurrences (placeholder i) (placeholder j ++ rest) =
      occurrences (placeholder i) rest + if i = j then 1 else 0 := by
  have hfirst : placeholder i <+: '{' :: ((placeholder j).tail ++ rest) ↔ i = j := by
    rw [← List.cons_append, ← placeholder_eq_cons]
    exact ⟨eq_of_placeholder_begins, fun h => h ▸ List.prefix_append _ _⟩
  rw [placeholder_eq_cons j, List.cons_append, occurrences_cons, occurrences_append not_mem_tail_placeholder]
  simp only [hfirst]

/-! ## Replacing -/

theorem replaceFrom_skip (target new word rest : List Char) :
    replaceFrom target new word.length (word ++ rest) = replaceFrom target new 0 rest := by
  induction word with
  | nil => rfl
  | cons c word ih => rw [List.cons_append, List.length_cons, replaceFrom, ih]

theorem replaceFrom_here (h : target ≠ []) (new rest : List Char) :
    replaceFrom target new 0 (target ++ rest) = new ++ replaceFrom target new 0 rest := by
  obtain ⟨c, word, rfl⟩ := List.exists_cons_of_ne_nil h
  have hhere : (c :: word).isPrefixOf (c :: (word ++ rest)) = true := by
    rw [List.isPrefixOf_iff_prefix]
    exact List.prefix_append (c :: word) rest
  rw [List.cons_append, replaceFrom, if_pos hhere, List.length_cons, Nat.add_sub_cancel, replaceFrom_skip]

theorem replaceFrom_cons (h : ¬ target <+: c :: rest) (new : List Char) :
    replaceFrom target new 0 (c :: rest) = c :: replaceFrom target new 0 rest := by
  rw [replaceFrom, if_neg (by rwa [List.isPrefixOf_iff_prefix])]

/-- What adds no occurrence is kept. -/
theorem replaceFrom_append (h : occurrences target (word ++ rest) = occurrences target rest) (new : List Char) :
    replaceFrom target new 0 (word ++ rest) = word ++ replaceFrom target new 0 rest := by
  induction word with
  | nil => rfl
  | cons c word ih =>
      have hle := occurrences_le_append target word rest
      rw [List.cons_append, occurrences_cons] at h
      split at h
      · omega
      · rename_i hfirst
        rw [List.cons_append, replaceFrom_cons hfirst, ih h, List.cons_append]

theorem length_lt_placeholder_append (i : Nat) (rest : List Char) : rest.length < (placeholder i ++ rest).length := by
  rw [List.length_append, placeholder_eq_cons, List.length_cons]
  omega

/-- Each occurrence gives way to the new text. -/
theorem length_replaceFrom (i : Nat) (new text : List Char) :
    (replaceFrom (placeholder i) new 0 text).length + occurrences (placeholder i) text * (placeholder i).length =
      text.length + occurrences (placeholder i) text * new.length := by
  induction hlength : text.length using Nat.strong_induction_on generalizing text with
  | h n ih =>
  subst hlength
  by_cases hhere : placeholder i <+: text
  · obtain ⟨rest, rfl⟩ := hhere
    have hrest := ih rest.length (length_lt_placeholder_append i rest) rest rfl
    rw [replaceFrom_here (by nofun), occurrences_placeholder_append, if_pos rfl, Nat.succ_mul, Nat.succ_mul,
      List.length_append, List.length_append]
    omega
  · cases text with
    | nil => simp [occurrences_nil, replaceFrom, placeholder]
    | cons c rest =>
        have hrest := ih rest.length (Nat.lt_succ_self _) rest rfl
        rw [replaceFrom_cons hhere, occurrences_cons, if_neg hhere, Nat.add_zero, List.length_cons, List.length_cons]
        omega

/-- Texts that begin alike up to a brace do so behind what stands before both. -/
theorem prefix_append_of {front text' : List Char} (h : ∀ {more}, '{' ∉ more → more <+: text → more <+: text')
    (hword : '{' ∉ word) (hbegins : word <+: front ++ text) : word <+: front ++ text' := by
  obtain ⟨behind, hbehind⟩ := hbegins
  rcases List.append_eq_append_iff.mp hbehind with ⟨more, rfl, -⟩ | ⟨more, rfl, rfl⟩
  · rw [List.append_assoc]
    exact List.prefix_append _ _
  · rw [List.mem_append, not_or] at hword
    exact (List.prefix_append_right_inj _).mpr (h hword.2 (List.prefix_append _ _))

/-! ## Putting in at once -/

namespace Substitutes

theorem hole_inv (harg : args[i]? = some arg) (h : Substitutes args (placeholder i ++ rest) text) :
    ∃ text', text = arg.toList ++ text' ∧ Substitutes args rest text' := by
  generalize htemplate : placeholder i ++ rest = template at h
  cases h with
  | nil => simp [placeholder] at htemplate
  | @hole j arg' rest' text' harg' h =>
      obtain rfl : i = j := eq_of_placeholder_begins ⟨rest, htemplate⟩
      rw [harg] at harg'
      obtain rfl := Option.some.inj harg'
      rw [← List.append_cancel_left htemplate] at h
      exact ⟨text', rfl, h⟩
  | char hc h =>
      obtain ⟨hi, -⟩ := List.getElem?_eq_some_iff.mp harg
      exact absurd ⟨rest, htemplate⟩ (hc i hi)

theorem char_inv (hc : ∀ i < args.length, ¬ placeholder i <+: c :: rest) (h : Substitutes args (c :: rest) text) :
    ∃ text', text = c :: text' ∧ Substitutes args rest text' := by
  generalize htemplate : c :: rest = template at h
  cases h with
  | nil => cases htemplate
  | @hole j arg' rest' text' harg' h =>
      obtain ⟨hi, -⟩ := List.getElem?_eq_some_iff.mp harg'
      exact absurd ⟨rest', htemplate.symm⟩ (hc j hi)
  | char hc h =>
      obtain ⟨rfl, rfl⟩ := List.cons.inj htemplate
      exact ⟨_, rfl, h⟩

theorem append_inv (hword : '{' ∉ word) (h : Substitutes args (word ++ rest) text) :
    ∃ text', text = word ++ text' ∧ Substitutes args rest text' := by
  induction word generalizing text with
  | nil => exact ⟨text, rfl, h⟩
  | cons c word ih =>
      rw [List.mem_cons, not_or] at hword
      obtain ⟨text', rfl, hrest⟩ := char_inv (fun _ _ => not_begins (Ne.symm hword.1)) h
      obtain ⟨text'', rfl, hbehind⟩ := ih hword.2 hrest
      exact ⟨text'', rfl, hbehind⟩

/-- A placeholder without an argument is kept. -/
theorem placeholder_inv (hi : args.length ≤ i) (h : Substitutes args (placeholder i ++ rest) text) :
    ∃ text', text = placeholder i ++ text' ∧ Substitutes args rest text' := by
  have hc : ∀ j < args.length, ¬ placeholder j <+: '{' :: ((placeholder i).tail ++ rest) := by
    intro j hj hbegins
    have heq : j = i := eq_of_placeholder_begins hbegins
    omega
  obtain ⟨text', rfl, hrest⟩ := char_inv hc h
  obtain ⟨text'', rfl, hbehind⟩ := append_inv not_mem_tail_placeholder hrest
  exact ⟨text'', rfl, hbehind⟩

/-- There is one way to put arguments in. -/
theorem unique {text' : List Char} (h : Substitutes args template text) (h' : Substitutes args template text') :
    text = text' := by
  induction h generalizing text' with
  | nil =>
      cases h' with
      | nil => rfl
  | hole harg _ ih =>
      obtain ⟨text'', rfl, hrest⟩ := hole_inv harg h'
      rw [ih hrest]
  | char hc _ ih =>
      obtain ⟨text'', rfl, hrest⟩ := char_inv hc h'
      rw [ih hrest]

theorem begins_of_begins (h : Substitutes args template text) (hi : args.length ≤ i)
    (hbegins : placeholder i <+: template) : placeholder i <+: text := by
  obtain ⟨rest, rfl⟩ := hbegins
  obtain ⟨text', rfl, -⟩ := placeholder_inv hi h
  exact List.prefix_append _ _

/-- What a template holds of a later placeholder stays in the text. -/
theorem occurrences_le (h : Substitutes args template text) (hi : args.length ≤ i) :
    occurrences (placeholder i) template ≤ occurrences (placeholder i) text := by
  induction h with
  | nil => exact Nat.le_refl _
  | @hole j arg rest text harg _ ih =>
      obtain ⟨hj, -⟩ := List.getElem?_eq_some_iff.mp harg
      rw [occurrences_placeholder_append, if_neg (by omega), Nat.add_zero]
      exact Nat.le_trans ih (occurrences_le_append _ _ _)
  | @char c rest text hc h ih =>
      rw [occurrences_cons, occurrences_cons]
      split
      · rename_i hhere
        rw [if_pos ((Substitutes.char hc h).begins_of_begins hi hhere)]
        exact Nat.succ_le_succ ih
      · exact Nat.le_add_right_of_le ih

/-- Where the text holds the next placeholder only as the template does, the next argument is put in by replacing. -/
theorem concat (h : Substitutes args template text) (arg : String)
    (hkeeps : occurrences (placeholder args.length) text = occurrences (placeholder args.length) template) :
    Substitutes (args ++ [arg]) template (replaceFrom (placeholder args.length) arg.toList 0 text) := by
  induction hlength : template.length using Nat.strong_induction_on generalizing template text with
  | h n ih =>
  subst hlength
  have hlast : (args ++ [arg])[args.length]? = some arg := by simp
  by_cases hhere : placeholder args.length <+: template
  · obtain ⟨rest, rfl⟩ := hhere
    obtain ⟨text', rfl, hrest⟩ := placeholder_inv (Nat.le_refl _) h
    rw [occurrences_placeholder_append, occurrences_placeholder_append, Nat.add_right_cancel_iff] at hkeeps
    rw [replaceFrom_here (by nofun)]
    exact .hole hlast (ih rest.length (length_lt_placeholder_append _ _) hrest hkeeps rfl)
  · cases h with
    | nil => exact .nil
    | @hole i arg' rest text' harg h =>
        obtain ⟨hi, -⟩ := List.getElem?_eq_some_iff.mp harg
        have hle := h.occurrences_le (Nat.le_refl _)
        have hle' := occurrences_le_append (placeholder args.length) arg'.toList text'
        rw [occurrences_placeholder_append, if_neg (Ne.symm (Nat.ne_of_lt hi)), Nat.add_zero] at hkeeps
        rw [replaceFrom_append (by omega)]
        refine .hole ?_ (ih rest.length (length_lt_placeholder_append _ _) h (by omega) rfl)
        rw [List.getElem?_append_left hi, harg]
    | @char c rest text' hc h =>
        have hle := h.occurrences_le (Nat.le_refl _)
        rw [occurrences_cons, occurrences_cons, if_neg hhere] at hkeeps
        split at hkeeps
        · omega
        · rename_i hfirst
          rw [replaceFrom_cons hfirst]
          refine .char (fun i hi => ?_) (ih rest.length (Nat.lt_succ_self _) h hkeeps rfl)
          rw [List.length_append, List.length_singleton] at hi
          rcases Nat.eq_or_lt_of_le (Nat.le_of_lt_succ hi) with rfl | hlt
          · exact hhere
          · exact hc i hlt

/-- Induction on a template with the texts that it becomes with and without the last argument. -/
theorem concat_rec {motive : (template text text' : List Char) → Prop} {text' : List Char}
    (h : Substitutes args template text) (h' : Substitutes (args ++ [arg]) template text') (nil : motive [] [] [])
    (front : ∀ {i : Nat} {new rest text text'}, i < args.length → Substitutes args rest text →
      Substitutes (args ++ [arg]) rest text' → motive rest text text' →
      motive (placeholder i ++ rest) (new ++ text) (new ++ text'))
    (last : ∀ {rest text text'}, motive rest text text' →
      motive (placeholder args.length ++ rest) (placeholder args.length ++ text) (arg.toList ++ text'))
    (char : ∀ {c rest text text'}, ¬ placeholder args.length <+: c :: rest → Substitutes args rest text →
      Substitutes (args ++ [arg]) rest text' → motive rest text text' → motive (c :: rest) (c :: text) (c :: text')) :
    motive template text text' := by
  induction h' generalizing text with
  | nil =>
      cases h with
      | nil => exact nil
  | @hole i new rest text' hnew h' ih =>
      rcases Nat.lt_trichotomy i args.length with hlt | rfl | hgt
      · rw [List.getElem?_append_left hlt] at hnew
        obtain ⟨text, rfl, hrest⟩ := hole_inv hnew h
        exact front hlt hrest h' (ih hrest)
      · obtain rfl : arg = new := by simpa using hnew
        obtain ⟨text, rfl, hrest⟩ := placeholder_inv (Nat.le_refl _) h
        exact last (ih hrest)
      · rw [List.getElem?_eq_none (by rw [List.length_append, List.length_singleton]; omega)] at hnew
        cases hnew
  | @char c rest text' hc h' ih =>
      rw [List.length_append, List.length_singleton] at hc
      obtain ⟨text, rfl, hrest⟩ := char_inv (fun i hi => hc i (Nat.lt_succ_of_lt hi)) h
      exact char (hc _ (Nat.lt_succ_self _)) hrest h' (ih hrest)

/-- One more argument takes the place of what the template holds of its placeholder. -/
theorem length_concat {text' : List Char} (h : Substitutes args template text)
    (h' : Substitutes (args ++ [arg]) template text') :
    text'.length + occurrences (placeholder args.length) template * (placeholder args.length).length =
      text.length + occurrences (placeholder args.length) template * arg.length := by
  refine h.concat_rec h' (motive := fun template text text' =>
    text'.length + occurrences (placeholder args.length) template * (placeholder args.length).length =
      text.length + occurrences (placeholder args.length) template * arg.length) ?_ ?_ ?_ ?_
  · rw [occurrences_nil (by nofun), Nat.zero_mul, Nat.zero_mul]
  · intro i new rest text text' hi _ _ ih
    rw [occurrences_placeholder_append, if_neg (Nat.ne_of_gt hi), Nat.add_zero, List.length_append, List.length_append]
    omega
  · intro rest text text' ih
    rw [occurrences_placeholder_append, if_pos rfl, Nat.succ_mul, Nat.succ_mul, List.length_append, List.length_append,
      String.length_toList]
    omega
  · intro c rest text text' hc _ _ ih
    rw [occurrences_cons, if_neg hc, Nat.add_zero, List.length_cons, List.length_cons]
    omega

/-- Up to its first brace, a text does not change with one more argument. -/
theorem prefix_concat {text' : List Char} (h : Substitutes args rest text)
    (h' : Substitutes (args ++ [arg]) rest text') (hword : '{' ∉ word) (hbegins : word <+: text) : word <+: text' := by
  refine h.concat_rec h' (motive := fun _ text text' => ∀ word, '{' ∉ word → word <+: text → word <+: text')
    (fun _ _ h => h) ?_ ?_ ?_ word hword hbegins
  · intro i new rest text text' _ _ _ ih word
    exact prefix_append_of (ih _)
  · intro rest text text' _ word hword hbegins
    cases word with
    | nil => exact List.nil_prefix
    | cons c word =>
        obtain rfl : c = '{' := (List.cons_prefix_cons.mp hbegins).1
        exact absurd List.mem_cons_self hword
  · intro c rest text text' _ _ _ ih word hword hbegins
    have hfront : word <+: [c] ++ text' := prefix_append_of (ih _) hword hbegins
    exact hfront

/-- Replacing a placeholder in what is put in before a text changes that, if the new text is as long and another one. -/
theorem occurrences_front {text' : List Char} (h : Substitutes args rest text)
    (h' : Substitutes (args ++ [arg]) rest text') (hlength : arg.length = (placeholder args.length).length)
    (hother : arg.toList ≠ placeholder args.length)
    (hsame : replaceFrom (placeholder args.length) arg.toList 0 (word ++ text) = word ++ text') :
    occurrences (placeholder args.length) (word ++ text) = occurrences (placeholder args.length) text := by
  induction word with
  | nil => rfl
  | cons c word ih =>
      rw [List.cons_append] at hsame ⊢
      by_cases hhere : placeholder args.length <+: c :: (word ++ text)
      · refine absurd ?_ hother
        have hthere : placeholder args.length <+: c :: (word ++ text') := by
          rw [placeholder_eq_cons, List.cons_prefix_cons] at hhere ⊢
          exact ⟨hhere.1, prefix_append_of (h.prefix_concat h') not_mem_tail_placeholder hhere.2⟩
        obtain ⟨behind, hbehind⟩ := hhere
        rw [← hbehind, replaceFrom_here (by nofun)] at hsame
        have harg : arg.toList <+: c :: (word ++ text') := ⟨_, hsame⟩
        exact (List.prefix_of_prefix_length_le harg hthere (by rw [String.length_toList, hlength])).eq_of_length
          (by rw [String.length_toList, hlength])
      · rw [replaceFrom_cons hhere, List.cons_append, List.cons.injEq] at hsame
        rw [occurrences_cons, if_neg hhere, Nat.add_zero, ih hsame.2]

/-- If replacing puts in an argument as long as its placeholder, and another text, the text holds that placeholder only
as the template does. -/
theorem keeps_of_concat_of_length (h : Substitutes args template text)
    (hlength : arg.length = (placeholder args.length).length) (hother : arg.toList ≠ placeholder args.length)
    (h' : Substitutes (args ++ [arg]) template (replaceFrom (placeholder args.length) arg.toList 0 text)) :
    occurrences (placeholder args.length) text = occurrences (placeholder args.length) template := by
  refine h.concat_rec h' (motive := fun template text text' =>
    replaceFrom (placeholder args.length) arg.toList 0 text = text' →
      occurrences (placeholder args.length) text = occurrences (placeholder args.length) template)
    (fun _ => rfl) ?_ ?_ ?_ rfl
  · intro i new rest text text' hi h h' ih hsame
    have hfront := h.occurrences_front h' hlength hother hsame
    rw [replaceFrom_append hfront, List.append_cancel_left_eq] at hsame
    rw [occurrences_placeholder_append, if_neg (Nat.ne_of_gt hi), Nat.add_zero, hfront, ih hsame]
  · intro rest text text' ih hsame
    rw [replaceFrom_here (by nofun), List.append_cancel_left_eq] at hsame
    rw [occurrences_placeholder_append, occurrences_placeholder_append, ih hsame]
  · intro c rest text text' hc h h' ih hsame
    have hfront : occurrences (placeholder args.length) ([c] ++ text) = _ :=
      h.occurrences_front h' hlength hother hsame
    rw [← List.singleton_append, replaceFrom_append hfront, List.singleton_append, List.cons.injEq] at hsame
    rw [List.singleton_append] at hfront
    rw [hfront, ih hsame.2, occurrences_cons, if_neg hc, Nat.add_zero]

/-- If replacing puts in an argument that is not its own placeholder, the text holds that placeholder only as the
template does. -/
theorem keeps_of_concat (h : Substitutes args template text) (hother : arg.toList ≠ placeholder args.length)
    (h' : Substitutes (args ++ [arg]) template (replaceFrom (placeholder args.length) arg.toList 0 text)) :
    occurrences (placeholder args.length) text = occurrences (placeholder args.length) template := by
  by_cases hlength : arg.length = (placeholder args.length).length
  · exact h.keeps_of_concat_of_length hlength hother h'
  have hreplaced := length_replaceFrom args.length arg.toList text
  have hput := h.length_concat h'
  obtain ⟨more, hmore⟩ := Nat.exists_eq_add_of_le (h.occurrences_le (Nat.le_refl args.length))
  rw [hmore, Nat.add_mul, Nat.add_mul, String.length_toList] at hreplaced
  have hsame : more * (placeholder args.length).length = more * arg.length := by omega
  rcases Nat.eq_zero_or_pos more with rfl | hpos
  · exact hmore
  · exact absurd (Nat.eq_of_mul_eq_mul_left hpos hsame).symm hlength

/-- Where every brace of a template begins a placeholder, arguments without a brace bring no other placeholder into the
text. -/
theorem occurrences_eq (h : Substitutes args template text) (hargs : ∀ arg ∈ args, '{' ∉ arg.toList)
    (hbraces : ∀ rest, '{' :: rest <:+ template → ∃ j, placeholder j <+: '{' :: rest) (hi : args.length ≤ i) :
    occurrences (placeholder i) text = occurrences (placeholder i) template := by
  induction h with
  | nil => rfl
  | @hole j arg rest text harg _ ih =>
      obtain ⟨hj, -⟩ := List.getElem?_eq_some_iff.mp harg
      rw [occurrences_append (hargs _ (List.mem_of_getElem? harg)), occurrences_placeholder_append,
        if_neg (by omega), Nat.add_zero, ih fun rest' h => hbraces rest' (h.trans (List.suffix_append _ _))]
  | @char c rest text hc h ih =>
      have hall := Substitutes.char hc h
      have hfirst : placeholder i <+: c :: text ↔ placeholder i <+: c :: rest := by
        refine ⟨fun htext => ?_, hall.begins_of_begins hi⟩
        obtain rfl : '{' = c := (List.cons_prefix_cons.mp htext).1
        -- The brace begins a placeholder in the template, which the text keeps.
        obtain ⟨j, hj⟩ := hbraces rest (List.suffix_refl _)
        have hlater : args.length ≤ j := Nat.le_of_not_lt fun hlt => hc j hlt hj
        obtain ⟨behind, hbehind⟩ := hall.begins_of_begins hlater hj
        rw [← hbehind] at htext
        rwa [eq_of_placeholder_begins htext]
      rw [occurrences_cons, occurrences_cons, ih fun rest' h => hbraces rest' (h.trans (List.suffix_cons _ _))]
      simp only [hfirst]

end Substitutes

/-! ## Messages -/

/-- Whether the text that the first arguments are filled into holds the placeholder of the next one only as often as
the template. -/
def Undisturbed (template : String) (args : List String) : Prop :=
  occurrences (placeholder args.length) (fill template args).toList =
    occurrences (placeholder args.length) template.toList

instance (template : String) (args : List String) : Decidable (Undisturbed template args) :=
  inferInstanceAs (Decidable (_ = _))

theorem fill_concat (template : String) (args : List String) (arg : String) :
    (fill template (args ++ [arg])).toList =
      replaceFrom (placeholder args.length) arg.toList 0 (fill template args).toList := by
  simp [fill, List.zipIdx_append]

theorem substitutes_nil (template : List Char) : Substitutes [] template template := by
  induction template with
  | nil => exact .nil
  | cons c template ih => exact .char nofun ih

theorem fill_substitutes {template : String} (hkept : ∀ k < args.length, Undisturbed template (args.take k)) :
    Substitutes args template.toList (fill template args).toList := by
  induction args using List.reverseRecOn with
  | nil =>
      rw [fill, List.zipIdx_nil, List.foldl_nil, String.toList_ofList]
      exact substitutes_nil _
  | append_singleton args arg ih =>
      rw [List.length_append, List.length_singleton] at hkept
      have hfront := ih fun k hk => by
        have hkept := hkept k (Nat.lt_succ_of_lt hk)
        rwa [List.take_append_of_le_length (Nat.le_of_lt hk)] at hkept
      have hlast := hkept args.length (Nat.lt_succ_self _)
      rw [List.take_left] at hlast
      rw [fill_concat]
      exact hfront.concat arg hlast

/-- Filling in puts the arguments in at once as long as none of them brings in the placeholder of a later one. At the
first that does, the later one is put in there too. -/
theorem fill_exact (template : String) (args : List String)
    (hkept : ∀ k < args.length, Undisturbed template (args.take k)) :
    (∀ text, Substitutes args template.toList text ↔ text = (fill template args).toList) ∧
      ∀ arg : String, arg.toList ≠ placeholder args.length →
        (Substitutes (args ++ [arg]) template.toList (fill template (args ++ [arg])).toList ↔
          Undisturbed template args) := by
  have hfill := fill_substitutes hkept
  refine ⟨fun text => ⟨fun h => h.unique hfill, fun h => h ▸ hfill⟩, fun arg hother => ?_⟩
  rw [fill_concat]
  exact ⟨hfill.keeps_of_concat hother, hfill.concat arg⟩

/-- The second argument brings in the placeholder of the third. -/
theorem fill_exact_braces :
    (∀ k < 2, Undisturbed "'\x7b0\x7d' is not '\x7b1\x7d'." (["\x7b0\x7d\x7d", "\x7b2\x7d\x7b"].take k)) ∧
      Substitutes ["\x7b0\x7d\x7d", "\x7b2\x7d\x7b"] "'\x7b0\x7d' is not '\x7b1\x7d'.".toList
        "'\x7b0\x7d\x7d' is not '\x7b2\x7d\x7b'.".toList ∧
      "x".toList ≠ placeholder 2 ∧
      ¬ Substitutes ["\x7b0\x7d\x7d", "\x7b2\x7d\x7b", "x"] "'\x7b0\x7d' is not '\x7b1\x7d'.".toList
        "'\x7b0\x7d\x7d' is not 'x\x7b'.".toList := by
  have hkept : ∀ k < 2, Undisturbed "'\x7b0\x7d' is not '\x7b1\x7d'."
      (["\x7b0\x7d\x7d", "\x7b2\x7d\x7b"].take k) := by decide +kernel
  obtain ⟨hexact, hnext⟩ := fill_exact _ ["\x7b0\x7d\x7d", "\x7b2\x7d\x7b"] hkept
  refine ⟨hkept, (hexact _).mpr (by decide +kernel), by decide +kernel, fun h => ?_⟩
  have hfill : (fill "'\x7b0\x7d' is not '\x7b1\x7d'." ["\x7b0\x7d\x7d", "\x7b2\x7d\x7b", "x"]).toList =
      "'\x7b0\x7d\x7d' is not 'x\x7b'.".toList := by decide +kernel
  rw [← hfill] at h
  exact absurd ((hnext "x" (by decide +kernel)).mp h) (by decide +kernel)

/-- The placeholder in the first argument is filled in with the second one. -/
theorem fill_not_substitutes :
    ¬ Substitutes ["\x7b1\x7d", "ignore"] "'\x7b0\x7d' is not '\x7b1\x7d'.".toList
      (fill "'\x7b0\x7d' is not '\x7b1\x7d'." ["\x7b1\x7d", "ignore"]).toList := by
  intro h
  have hfront : Substitutes ["\x7b1\x7d"] "'\x7b0\x7d' is not '\x7b1\x7d'.".toList _ :=
    fill_substitutes (by decide +kernel)
  refine absurd (hfront.keeps_of_concat (show "ignore".toList ≠ placeholder 1 by decide +kernel) ?_) (by decide +kernel)
  rwa [← fill_concat]

/-! ## The messages a module can get -/

theorem template_braces (m : Message) (rest : List Char) (h : '{' :: rest <:+ m.template.toList) :
    ∃ i, placeholder i <+: '{' :: rest := by
  have hall : ∀ text ∈ m.template.toList.tails, text.head? = some '{' →
      placeholder 0 <+: text ∨ placeholder 1 <+: text := by
    cases m <;> decide +kernel
  rcases hall _ ((List.mem_tails _ _).mpr h) rfl with h | h
  · exact ⟨0, h⟩
  · exact ⟨1, h⟩

/-- A message is disturbed by a brace in an argument only, and never by one in the last. -/
theorem format_substitutes (m : Message) (hargs : ∀ arg ∈ args.dropLast, '{' ∉ arg.toList) :
    Substitutes args m.template.toList (m.format args).toList := by
  refine fill_substitutes fun k => ?_
  induction k using Nat.strong_induction_on with
  | h k ih =>
  intro hk
  have hfront : Substitutes (args.take k) m.template.toList (fill m.template (args.take k)).toList := by
    refine fill_substitutes fun j hj => ?_
    rw [List.length_take] at hj
    rw [List.take_take, Nat.min_eq_left (by omega)]
    exact ih j (by omega) (by omega)
  refine hfront.occurrences_eq (fun arg harg => hargs arg ?_) (template_braces m) (Nat.le_refl _)
  rw [List.dropLast_eq_take]
  exact (List.take_prefix_take_left (by omega)).subset harg

end PropContract.Message
