import PropContract.Proofs.Text.Source

/-!
# Character boundaries

The offsets of a source where a character begins or the text ends. Searches look at bytes, and may
stand inside of a character while they go on; where they stop is known by the byte they stop at.
-/

namespace PropContract.Text

/-- A byte below `0x80` is a character of its own. -/
theorem exists_append_of_getElem? {cs : List Char} {i : Nat} {b : UInt8}
    (h : (bytesOf cs)[i]? = some b) (hb : b.toNat < 0x80) :
    ∃ ds es, cs = ds ++ Char.ofUInt8 b :: es ∧ width ds = i := by
  induction cs generalizing i with
  | nil => simp [bytesOf] at h
  | cons c cs ih =>
      rw [bytesOf_cons] at h
      by_cases hi : i < (String.utf8EncodeChar c).length
      · rw [List.getElem?_append_left hi] at h
        have hmem := List.mem_of_getElem? h
        have hc : c.toNat < 0x80 := by
          apply Nat.lt_of_not_le
          intro hle
          exact absurd (le_of_mem_utf8EncodeChar hle hmem) (Nat.not_le_of_lt hb)
        rw [utf8EncodeChar_ascii hc, List.mem_singleton] at hmem
        rw [utf8EncodeChar_ascii hc, List.length_singleton] at hi
        refine ⟨[], cs, ?_, ?_⟩
        · rw [hmem, ofUInt8_ascii hc, List.nil_append]
        · rw [width_nil]
          omega
      · have hle := Nat.le_of_not_lt hi
        rw [List.getElem?_append_right hle] at h
        obtain ⟨ds, es, rfl, hwidth⟩ := ih h
        refine ⟨c :: ds, es, rfl, ?_⟩
        change (String.utf8EncodeChar c ++ bytesOf ds).length = i
        rw [List.length_append]
        change _ + width ds = i
        omega

/-- The first byte of a character of two or three bytes is not below `0xC0` or `0xE0`. -/
theorem lead_utf8EncodeChar (c : Char) (bs : List UInt8) :
    let lead := Char.ofUInt8 ((String.utf8EncodeChar c ++ bs).head?.getD 0)
    (lead = '\u00c2' → c.utf8Size = 2) ∧ (lead = '\u00e2' → c.utf8Size = 3) := by
  intro lead
  have hlead : lead.toNat = ((String.utf8EncodeChar c ++ bs).head?.getD 0).toNat := rfl
  have hlength := String.length_utf8EncodeChar c
  have hval : c.toNat = c.val.toNat := rfl
  unfold String.utf8EncodeChar at hlead hlength
  by_cases hone : c.val.toNat ≤ 0x7f
  · simp only [hone, if_true, List.cons_append, List.head?_cons, Option.getD_some,
      UInt8.toNat_ofNat', Nat.mod_eq_of_lt (Nat.lt_of_le_of_lt hone (by decide : 0x7f < 2 ^ 8))]
      at hlead
    constructor <;> intro hc <;> rw [hc] at hlead <;> simp at hlead <;> omega
  · by_cases htwo : c.val.toNat ≤ 0x7ff
    · simp only [hone, htwo, if_true, if_false, List.cons_append, List.head?_cons, Option.getD_some,
        UInt8.toNat_ofNat'] at hlead hlength
      constructor <;> intro hc <;> rw [hc] at hlead
      · exact hlength.symm
      · simp at hlead
        omega
    · by_cases hthree : c.val.toNat ≤ 0xffff
      · simp only [hone, htwo, hthree, if_true, if_false, List.cons_append, List.head?_cons,
          Option.getD_some, UInt8.toNat_ofNat'] at hlead hlength
        constructor <;> intro hc <;> rw [hc] at hlead
        · simp at hlead
          omega
        · exact hlength.symm
      · simp only [hone, htwo, hthree, if_false, List.cons_append, List.head?_cons,
          Option.getD_some, UInt8.toNat_ofNat'] at hlead
        constructor <;> intro hc <;> rw [hc] at hlead <;> simp at hlead <;> omega

theorem toNat_ofUInt8 (b : UInt8) : (Char.ofUInt8 b).toNat = b.toNat := rfl

namespace Source

/-- Whether a character begins at an offset, or the text ends there. -/
def OnBoundary (s : Source) (pos : Nat) : Prop :=
  ∃ cs, s.Rest pos cs

/-- Whether the characters between two offsets are those of a text. -/
def Between (s : Source) (start stop : Nat) (text : String) : Prop :=
  ∃ cs, s.Rest start (text.toList ++ cs) ∧ stop = start + width text.toList

variable {s : Source} {pos start stop q r : Nat} {c : Char} {p : Char → Bool}

theorem bytes_toList (s : Source) : s.bytes.data.toList = bytesOf s.text.toList := by
  rw [s.bytes_eq, String.toUTF8_eq_toByteArray, ← String.utf8Encode_toList]
  simp [List.utf8Encode, bytesOf]

theorem rest_zero (s : Source) : s.Rest 0 s.text.toList :=
  ⟨[], s.bytes_toList, rfl⟩

theorem size_ofString (text : String) : (ofString text).size = text.utf8ByteSize := rfl

theorem width_toList (text : String) : width text.toList = text.utf8ByteSize := by
  rw [← size_ofString, (ofString text).rest_zero.size_eq, Nat.zero_add]
  rfl

theorem bytes_append (a b : String) :
    (ofString (a ++ b)).bytes.data.toList = bytesOf a.toList ++ bytesOf b.toList := by
  rw [bytes_toList, ← bytesOf_append, ← String.toList_append]
  rfl

theorem rest_append (before behind : String) :
    (ofString (before ++ behind)).Rest before.utf8ByteSize behind.toList :=
  ⟨before.toList, bytes_append before behind, (width_toList before).symm⟩

theorem onBoundary_append (before behind : String) :
    (ofString (before ++ behind)).OnBoundary before.utf8ByteSize :=
  ⟨_, rest_append before behind⟩

theorem onBoundary_zero (s : Source) : s.OnBoundary 0 :=
  ⟨_, s.rest_zero⟩

theorem rest_size (s : Source) : s.Rest s.size [] := by
  refine ⟨s.text.toList, ?_, ?_⟩
  · rw [s.bytes_toList]
    exact (List.append_nil _).symm
  · rw [s.rest_zero.size_eq, Nat.zero_add]

theorem onBoundary_size (s : Source) : s.OnBoundary s.size :=
  ⟨[], s.rest_size⟩

theorem OnBoundary.le (h : s.OnBoundary pos) : pos ≤ s.size := by
  obtain ⟨cs, hrest⟩ := h
  rw [hrest.size_eq]
  exact Nat.le_add_right _ _

/-! ## Bytes -/

theorem lt_size_of_charAt (h : s.charAt pos ≠ '\x00') : pos < s.size := by
  apply Nat.lt_of_not_le
  intro hle
  apply h
  have hnone : s.byte? pos = none := by
    rw [byte?, getElem?_def]
    exact dif_neg (Nat.not_lt_of_le hle)
  rw [charAt, hnone]
  rfl

theorem charAt_of_size_le (h : s.size ≤ pos) : s.charAt pos = '\x00' := by
  apply Decidable.byContradiction
  intro hne
  exact absurd (lt_size_of_charAt hne) (Nat.not_lt_of_le h)

/-- A byte below `0x80` stands at the beginning of a character and is all of it. -/
theorem rest_of_charAt (hpos : pos < s.size) (hc : (s.charAt pos).toNat < 0x80) :
    ∃ cs, s.Rest pos (s.charAt pos :: cs) := by
  have hbyte : s.bytes.data.toList[pos]? = s.byte? pos := by
    rw [byte?, getElem?_def, getElem?_def]
    rfl
  obtain ⟨b, hb⟩ : ∃ b, s.byte? pos = some b := ⟨_, getElem?_pos s.bytes pos hpos⟩
  have hchar : s.charAt pos = Char.ofUInt8 b := by
    rw [charAt, hb]
    rfl
  rw [hb, s.bytes_toList] at hbyte
  rw [hchar, toNat_ofUInt8] at hc
  obtain ⟨ds, es, htext, hwidth⟩ := exists_append_of_getElem? hbyte hc
  refine ⟨es, ds, ?_, hwidth.symm⟩
  rw [s.bytes_toList, htext, bytesOf_append, hchar]

theorem onBoundary_of_ascii (hpos : pos < s.size) (hc : (s.charAt pos).toNat < 0x80) :
    s.OnBoundary pos := by
  obtain ⟨cs, h⟩ := rest_of_charAt hpos hc
  exact ⟨_, h⟩

theorem onBoundary_succ_of_ascii (hpos : pos < s.size) (hc : (s.charAt pos).toNat < 0x80) :
    s.OnBoundary (pos + 1) := by
  obtain ⟨cs, h⟩ := rest_of_charAt hpos hc
  exact ⟨cs, h.tail hc⟩

/-- The same where the byte is known. -/
theorem onBoundary_of_charAt (h : s.charAt pos = c) (hc : 0 < c.toNat ∧ c.toNat < 0x80) :
    pos < s.size ∧ s.OnBoundary pos ∧ s.OnBoundary (pos + 1) := by
  have hpos : pos < s.size := by
    apply lt_size_of_charAt
    rintro hzero
    rw [← h, hzero] at hc
    exact absurd hc.1 (by decide)
  rw [← h] at hc
  exact ⟨hpos, onBoundary_of_ascii hpos hc.2, onBoundary_succ_of_ascii hpos hc.2⟩

/-- After a two-byte or three-byte character, which its first byte tells. -/
theorem OnBoundary.add_of_lead (h : s.OnBoundary pos) (hpos : pos < s.size) :
    (s.charAt pos = '\u00c2' → s.OnBoundary (pos + 2)) ∧
      (s.charAt pos = '\u00e2' → s.OnBoundary (pos + 3)) := by
  obtain ⟨cs, hrest⟩ := h
  cases cs with
  | nil =>
      rw [hrest.size_eq] at hpos
      exact absurd hpos (Nat.lt_irrefl _)
  | cons c cs =>
      have hnext : s.OnBoundary (pos + c.utf8Size) := by
        refine ⟨cs, ?_⟩
        have hdrop := Rest.drop (show s.Rest pos ([c] ++ cs) from hrest)
        rwa [width, bytesOf, List.flatMap_singleton, String.length_utf8EncodeChar] at hdrop
      have hchar := charAt_of_drop hrest.drop_bytes
      rw [bytesOf_cons] at hchar
      have hlead := lead_utf8EncodeChar c (bytesOf cs)
      constructor <;> intro hc <;> rw [← hchar, hc] at hlead
      · rwa [hlead.1 rfl] at hnext
      · rwa [hlead.2 rfl] at hnext

/-! ## Searches -/

/-- A search stops at the first byte with the property. -/
theorem findIn_eq_some {n : Nat} (h : s.findIn p n pos = some q) :
    pos ≤ q ∧ q < pos + n ∧ p (s.charAt q) = true ∧ ∀ i, pos ≤ i → i < q → p (s.charAt i) = false := by
  induction n generalizing pos with
  | zero => simp [findIn] at h
  | succ n ih =>
      rw [findIn] at h
      split at h
      · rename_i hp
        obtain rfl : pos = q := Option.some.inj h
        exact ⟨Nat.le_refl _, by omega, hp, fun i hi hlt => absurd hi (Nat.not_le_of_lt hlt)⟩
      · rename_i hp
        obtain ⟨hle, hlt, hq, hall⟩ := ih h
        refine ⟨by omega, by omega, hq, fun i hi hiq => ?_⟩
        rcases Nat.eq_or_lt_of_le hi with rfl | hi
        · exact Bool.eq_false_iff.mpr hp
        · exact hall i hi hiq

theorem findIn_eq_none {n : Nat} (h : s.findIn p n pos = none) (i : Nat) (hi : pos ≤ i)
    (hlt : i < pos + n) : p (s.charAt i) = false := by
  induction n generalizing pos with
  | zero => omega
  | succ n ih =>
      rw [findIn] at h
      split at h
      · simp at h
      · rename_i hp
        rcases Nat.eq_or_lt_of_le hi with rfl | hi
        · exact Bool.eq_false_iff.mpr hp
        · exact ih h hi (by omega)

theorem find?_eq_some (h : s.find? p pos = some q) :
    pos ≤ q ∧ q < s.size ∧ p (s.charAt q) = true := by
  obtain ⟨hle, hlt, hq, -⟩ := findIn_eq_some h
  exact ⟨hle, by omega, hq⟩

theorem le_skipWhile (s : Source) (p : Char → Bool) (pos : Nat) : pos ≤ s.skipWhile p pos := by
  rw [skipWhile]
  cases h : s.find? (fun c => !p c) pos with
  | none => exact Nat.le_max_left _ _
  | some q => exact (find?_eq_some h).1

/-- What is skipped has the property, and what stands at the end has not. -/
theorem skipWhile_spec (hpos : pos ≤ s.size) :
    pos ≤ s.skipWhile p pos ∧ s.skipWhile p pos ≤ s.size ∧
      (s.skipWhile p pos < s.size → p (s.charAt (s.skipWhile p pos)) = false) ∧
      ∀ i, pos ≤ i → i < s.skipWhile p pos → p (s.charAt i) = true := by
  rw [skipWhile]
  cases h : s.find? (fun c => !p c) pos with
  | none =>
      rw [Option.getD_none, Nat.max_eq_right hpos]
      refine ⟨hpos, Nat.le_refl _, fun hlt => absurd hlt (Nat.lt_irrefl _), fun i hi hlt => ?_⟩
      simpa using findIn_eq_none h i hi (by omega)
  | some q =>
      obtain ⟨hle, hlt, hq, hall⟩ := findIn_eq_some h
      refine ⟨hle, by simp only [Option.getD_some]; omega, fun _ => by simpa using hq, ?_⟩
      exact fun i hi hlt => by simpa using hall i hi hlt

theorem lt_skipWhile (hpos : pos < s.size) (hp : p (s.charAt pos) = true) :
    pos < s.skipWhile p pos := by
  obtain ⟨hle, -, hstop, -⟩ := skipWhile_spec (p := p) (Nat.le_of_lt hpos)
  apply Nat.lt_of_le_of_ne hle
  intro heq
  rw [← heq, hp] at hstop
  exact absurd (hstop hpos) (by decide)

/-- A run of bytes that takes in all bytes outside of ASCII ends on a boundary. -/
theorem onBoundary_skipWhile_of_wide (hp : ∀ c : Char, 0x80 ≤ c.toNat → p c = true)
    (hpos : pos ≤ s.size) : s.OnBoundary (s.skipWhile p pos) := by
  obtain ⟨-, hle, hstop, -⟩ := skipWhile_spec (p := p) hpos
  rcases Nat.eq_or_lt_of_le hle with heq | hlt
  · rw [heq]
    exact s.onBoundary_size
  · apply onBoundary_of_ascii hlt
    apply Nat.lt_of_not_le
    intro hwide
    rw [hp _ hwide] at hstop
    exact absurd (hstop hlt) (by decide)

/-- So does a run of bytes of ASCII that begins on a boundary. -/
theorem OnBoundary.skipWhile_ascii (hp : ∀ c : Char, p c = true → c.toNat < 0x80)
    (hpos : s.OnBoundary pos) : s.OnBoundary (s.skipWhile p pos) := by
  obtain ⟨hle, hsize, -, hall⟩ := skipWhile_spec (p := p) hpos.le
  rcases Nat.eq_or_lt_of_le hle with heq | hlt
  · rwa [← heq]
  · obtain ⟨q, hq⟩ : ∃ q, s.skipWhile p pos = q + 1 := ⟨_, (Nat.sub_add_cancel (by omega)).symm⟩
    rw [hq] at hsize hall hlt ⊢
    exact onBoundary_succ_of_ascii (by omega) (hp _ (hall q (by omega) (Nat.lt_succ_self q)))

theorem skipBack_spec (pos : Nat) :
    s.skipBack p pos ≤ pos ∧
      (∀ q, s.skipBack p pos = q + 1 → p (s.charAt q) = false) ∧
      ∀ i, s.skipBack p pos ≤ i → i < pos → p (s.charAt i) = true := by
  induction pos with
  | zero => exact ⟨Nat.le_refl 0, fun q hq => by simp [skipBack] at hq, fun i _ hlt => by omega⟩
  | succ n ih =>
      rw [skipBack]
      split
      · rename_i hp
        obtain ⟨hle, hstop, hall⟩ := ih
        refine ⟨Nat.le_succ_of_le hle, hstop, fun i hi hlt => ?_⟩
        rcases Nat.eq_or_lt_of_le (Nat.le_of_lt_succ hlt) with rfl | hlt
        · exact hp
        · exact hall i hi hlt
      · rename_i hp
        refine ⟨Nat.le_refl _, fun q hq => ?_, fun i hi hlt => by omega⟩
        obtain rfl : n = q := by omega
        exact Bool.eq_false_iff.mpr hp

theorem onBoundary_skipBack_of_wide (hp : ∀ c : Char, 0x80 ≤ c.toNat → p c = true)
    (hpos : pos ≤ s.size) : s.OnBoundary (s.skipBack p pos) := by
  obtain ⟨hle, hstop, -⟩ := skipBack_spec (s := s) (p := p) pos
  cases hback : s.skipBack p pos with
  | zero => exact s.onBoundary_zero
  | succ q =>
      apply onBoundary_succ_of_ascii (by omega)
      apply Nat.lt_of_not_le
      intro hwide
      exact absurd ((hp _ hwide).symm.trans (hstop q hback)) (by decide)

theorem OnBoundary.skipBack_ascii (hp : ∀ c : Char, p c = true → c.toNat < 0x80)
    (hpos : s.OnBoundary pos) : s.OnBoundary (s.skipBack p pos) := by
  obtain ⟨hle, -, hall⟩ := skipBack_spec (s := s) (p := p) pos
  rcases Nat.eq_or_lt_of_le hle with heq | hlt
  · rwa [heq]
  · have hsize := hpos.le
    exact onBoundary_of_ascii (by omega) (hp _ (hall _ (Nat.le_refl _) hlt))

/-! ## Cutting out whole characters -/

/-- Between two boundaries stand whole characters. -/
theorem OnBoundary.exists_rest (h : s.OnBoundary start) (h' : s.OnBoundary stop)
    (hle : start ≤ stop) : ∃ ds cs, s.Rest start (ds ++ cs) ∧ stop = start + width ds := by
  obtain ⟨cs, before, hbytes, rfl⟩ := h
  obtain ⟨es, before', hbytes', rfl⟩ := h'
  have hprefix : before <+: before' := by
    rw [hbytes, ← bytesOf_append] at hbytes'
    have htake : bytesOf before ++ (bytesOf before').drop (width before) = bytesOf before' := by
      have hbefore : bytesOf before = (bytesOf before').take (width before) := by
        rw [← List.take_append_of_le_length hle, ← hbytes', bytesOf_append]
        exact List.take_left.symm
      rw [hbefore, List.take_append_drop]
    apply List.isPrefix_of_utf8Encode_append_eq_utf8Encode
      ((bytesOf before').drop (width before)).toByteArray
    rw [List.utf8Encode, List.utf8Encode, ← List.toByteArray_append]
    exact congrArg _ htake
  obtain ⟨ds, rfl⟩ := hprefix
  refine ⟨ds, es, ⟨before, ?_, rfl⟩, width_append before ds⟩
  rw [hbytes', bytesOf_append, bytesOf_append, List.append_assoc]

theorem OnBoundary.between_slice (h : s.OnBoundary start) (h' : s.OnBoundary stop)
    (hle : start ≤ stop) : s.Between start stop (s.slice start stop) := by
  obtain ⟨ds, cs, hrest, rfl⟩ := h.exists_rest h' hle
  exact ⟨cs, by rwa [hrest.slice, String.toList_ofList], by rw [hrest.slice, String.toList_ofList]⟩

/-- The text between two offsets is what is cut out there. -/
theorem Between.slice {text : String} (h : s.Between start stop text) :
    s.slice start stop = text := by
  obtain ⟨cs, hrest, rfl⟩ := h
  rw [hrest.slice, String.ofList_toList]

theorem Rest.unique {cs ds : List Char} (h : s.Rest pos cs) (h' : s.Rest pos ds) : cs = ds := by
  have hwidth : width cs = width ds := Nat.add_left_cancel (h.size_eq.symm.trans h'.size_eq)
  rw [← List.append_nil cs] at h
  rw [← List.append_nil ds] at h'
  have hcs := h.slice
  have hds := h'.slice
  rw [hwidth, hds] at hcs
  exact (String.ofList_injective hcs).symm

/-- Texts that stand side by side. -/
theorem Between.append {mid : Nat} {text text' : String} (h : s.Between start mid text)
    (h' : s.Between mid stop text') : s.Between start stop (text ++ text') := by
  obtain ⟨cs, hrest, rfl⟩ := h
  obtain ⟨ds, hrest', rfl⟩ := h'
  obtain rfl := hrest.drop.unique hrest'
  refine ⟨ds, ?_, ?_⟩
  · rwa [String.toList_append, List.append_assoc]
  · rw [String.toList_append, width_append, Nat.add_assoc]

theorem between_singleton (h : s.charAt pos = c) (hc : 0 < c.toNat ∧ c.toNat < 0x80) :
    s.Between pos (pos + 1) (String.singleton c) := by
  obtain ⟨hpos, -⟩ := onBoundary_of_charAt h hc
  obtain ⟨cs, hrest⟩ := rest_of_charAt hpos (h ▸ hc.2)
  rw [h] at hrest
  refine ⟨cs, by rwa [String.toList_singleton], ?_⟩
  rw [String.toList_singleton, width_ascii hc.2, width_nil]

/-- A text between two marks. -/
theorem between_marks (h : s.charAt start = c) (h' : s.charAt stop = c)
    (hc : 0 < c.toNat ∧ c.toNat < 0x80) (hlt : start < stop) :
    s.Between start (stop + 1)
      (String.singleton c ++ s.slice (start + 1) stop ++ String.singleton c) := by
  have hinner := (onBoundary_of_charAt h hc).2.2.between_slice (onBoundary_of_charAt h' hc).2.1 hlt
  exact ((between_singleton h hc).append hinner).append (between_singleton h' hc)

end Source

end PropContract.Text
